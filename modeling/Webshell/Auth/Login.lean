import Webshell.Auth.SecondFactor
import Webshell.Auth.Session
import Webshell.Auth.Totp
import Webshell.Lib.Transition

/-!
# The login handlers

Every handler that concerns a login, as the atomic steps it takes on the shared stores, and the
server they run in: any number of requests with any contents, interleaved, and restarts in between.
A handler goes on from the session it has read at its start, whatever has become of it since.

## Main definitions

- `Request`, `Pc`: what a request carries, and where its handler stands
- `localLogin`, `oauthStart`, `oauthCallback`, `mfaSubmit`, `mfaCancel`, `logout`, `loginPage`:
  what a handler decides from the session of the request
- `Server`, `Server.advance`: the stores, and the next step of a handler
- `loginSystem`: the server with its requests, its timers and its restarts
-/

namespace Webshell.Login

open Transition
open Text (Lowercase)

/-- The primitives that are not this program's. -/
structure Crypto where
  hmacSha1 : Totp.HmacSha1
  hashers : LocalAuth.Hashers

/-! ## Requests -/

/-- `cookie` and `device` are the values of the two cookies whose signature was accepted. -/
structure LocalLoginForm where
  cookie : Option ℕ
  device : Option ℕ
  csrf : ℕ
  username : Text
  password : Text

structure CallbackQuery where
  cookie : Option ℕ
  device : Option ℕ
  code : Option Text
  state : Option ℕ
  error : Option Text

structure MfaForm where
  cookie : Option ℕ
  csrf : ℕ
  otp : Text
  /-- Candidate secret during enrollment. -/
  seed : Option Text
  remember : Option Text

structure CsrfForm where
  cookie : Option ℕ
  csrf : ℕ

structure LogoutForm where
  cookie : Option ℕ
  device : Option ℕ
  csrf : ℕ
  forget : Option Text

inductive Request
  | loginPage (cookie : Option ℕ)
  | localLogin (form : LocalLoginForm)
  | oauthStart (form : CsrfForm)
  | oauthCallback (query : CallbackQuery)
  | mfaSubmit (form : MfaForm)
  | mfaCancel (form : CsrfForm)
  | logout (form : LogoutForm)
  /-- Any other page: it only reads the session. -/
  | privatePage (cookie : Option ℕ)

variable [Lowercase]

/-- The session cookie. -/
def Request.cookie : Request → Option ℕ
  | .loginPage cookie => cookie
  | .localLogin form => form.cookie
  | .oauthStart form => form.cookie
  | .oauthCallback query => query.cookie
  | .mfaSubmit form => form.cookie
  | .mfaCancel form => form.cookie
  | .logout form => form.cookie
  | .privatePage cookie => cookie

/-- The session that a handler looks up first. The two of Google look at the configuration before
that. -/
def Request.looksUp (config : Config) : Request → Option ℕ
  | .oauthStart form => if config.googleUsable then form.cookie else none
  | .oauthCallback query => if config.googleUsable then query.cookie else none
  | req => req.cookie

/-! ## Where a handler stands -/

/-- The session a login starts from, the identity it is for, and the cookie of the browser. -/
structure Candidate where
  id : ℕ
  who : Identity
  device : Option ℕ

/-- A submission to the code form: the pending session as it was read, and the form. -/
structure MfaAttempt where
  id : ℕ
  username : Text
  identity : Identity
  otp : Text
  seed : Option Text
  remember : Option Text

/-- A submission, with what the record says about the secret. -/
structure MfaCheck extends MfaAttempt where
  secret : Text
  enrolling : Bool

/-- Where a handler stands: the step it takes next, with its local variables. -/
inductive Pc
  /-- There is no such request yet. -/
  | idle
  | arrived (req : Request)
  /-- The response is on its way. -/
  | ended
  /-- A page is rendered with the CSRF token of the session. -/
  | render (cookie : Option ℕ)
  | ensureSession (cookie : Option ℕ)
  | createSession
  | enterUnlisted (id : ℕ)
  | unlisted (id : ℕ)
  | enterLocal (c : Candidate) (password : Text)
  | verifyPassword (c : Candidate) (password : Text)
  | startOauth (id : ℕ)
  | clearOauth (id : ℕ) (flow : Oidc.Flow) (device : Option ℕ)
  | exchange (id : ℕ) (flow : Oidc.Flow) (clientId : Text) (device : Option ℕ)
  | pinSubject (c : Candidate) (sub : Text)
  | readTrust (c : Candidate) (token : ℕ)
  | authorize (c : Candidate) (token enrolledAt : ℕ)
  | forgetDevice (c : Candidate) (token : ℕ)
  | login (c : Candidate)
  | beginMfa (c : Candidate)
  | enterMfa (m : MfaAttempt)
  | checkLock (m : MfaAttempt)
  | readRecord (m : MfaAttempt)
  | verifyCode (c : MfaCheck)
  | acceptCode (c : MfaCheck)
  | strike (m : MfaAttempt)
  | lockedOut (id : ℕ)
  | enroll (c : MfaCheck)
  | revokeDevices (c : MfaCheck)
  | clearStrikes (c : MfaCheck)
  | mfaLogin (c : MfaCheck)
  | readEnrolled (who : Identity)
  | mint (who : Identity) (enrolledAt : ℕ)
  | logout (form : LogoutForm)
  | removeSession (id : ℕ) (device : Option ℕ)
  | revokeToken (token : ℕ)

/-- The handler waits for something that may never come, and is dropped if its client goes away. -/
def Pc.awaits : Pc → Bool
  | .arrived _ | .enterUnlisted _ | .unlisted _ | .enterLocal _ _ | .verifyPassword _ _
  | .exchange _ _ _ _ | .enterMfa _ | .checkLock _ => true
  | _ => false

/-! ## What a handler decides from the session of the request -/

section
variable (config : Config) (current : Option (ℕ × Session))

def loginPage (cookie : Option ℕ) : Pc :=
  match current with
  | some (_, session) =>
    if session.authenticated || session.mfaPending then .ended else .ensureSession cookie
  | none => .ensureSession cookie

def localLogin (form : LocalLoginForm) : Pc :=
  match current with
  | none => .render form.cookie
  | some (id, session) =>
    if session.csrf ≠ form.csrf then .ended
    else if !config.localUsable then .ended
    else
      let who := Identity.new .local form.username
      if !config.permits who then .enterUnlisted id
      else .enterLocal ⟨id, who, form.device⟩ form.password

def oauthStart (form : CsrfForm) : Pc :=
  if !config.googleUsable then .ended
  else
    match current with
    | none => .ended
    | some (id, session) =>
      if session.csrf ≠ form.csrf then .ended
      else
        match config.googleClientId, config.redirectUri with
        | some _, some _ => .startOauth id
        | _, _ => .ended

def oauthCallback (query : CallbackQuery) : Pc :=
  if !config.googleUsable then .ended
  else
    match current with
    | none => .render query.cookie
    | some (id, session) =>
      if query.error.isSome then .render query.cookie
      else
        match session.oauth, query.code, query.state with
        | some flow, some _, some returnedState =>
          if flow.state ≠ returnedState then .render query.cookie
          else .clearOauth id flow query.device
        | _, _, _ => .render query.cookie

def mfaSubmit (form : MfaForm) : Pc :=
  match current.filter fun c => c.2.mfaPending with
  | none => .ended
  | some (id, session) =>
    if session.csrf ≠ form.csrf then .ended
    else
      match Identity.parse session.username with
      | none => .ended
      | some identity =>
        .enterMfa ⟨id, session.username, identity, form.otp, form.seed, form.remember⟩

def mfaCancel (form : CsrfForm) : Pc :=
  match current.filter fun c => c.2.mfaPending with
  | none => .ended
  | some (id, session) => if session.csrf ≠ form.csrf then .ended else .removeSession id none

def logout (form : LogoutForm) : Pc :=
  match current with
  | none => .ended
  | some (id, session) =>
    if session.csrf ≠ form.csrf then .ended
    else .removeSession id (if form.forget.isSome then form.device else none)

/-- `require_auth`, in front of the private area. -/
def requireAuth (next : Pc) : Pc :=
  match current.filter fun c => c.2.authenticated with
  | none => .ended
  | some _ => next

def Request.handle : Request → Pc
  | .loginPage cookie => Login.loginPage current cookie
  | .localLogin form => Login.localLogin config current form
  | .oauthStart form => Login.oauthStart config current form
  | .oauthCallback query => Login.oauthCallback config current query
  | .mfaSubmit form => Login.mfaSubmit current form
  | .mfaCancel form => Login.mfaCancel current form
  | .logout form => requireAuth current (.logout form)
  | .privatePage _ => requireAuth current .ended

end

/-! ## The server -/

/-- The stores of a server run, who holds the buckets of the login guard, and its handlers. -/
structure Server where
  config : Config
  sessions : SessionStore
  enrollment : EnrollmentStore
  devices : DeviceStore
  /-- The replay guards, by username. -/
  otpUsed : Table Text Totp.Recent
  strikes : Table Text MfaStrikes
  buckets : Text → Option ℕ
  clock : Clock
  /-- The next random token. -/
  nextToken : ℕ
  runs : ℕ → Pc

def unlistedBucket : Text := "unlisted".toList

def mfaBucket (who : Identity) : Text := "mfa:".toList ++ who.display

namespace Server

variable (crypto : Crypto) (s : Server) (r : ℕ)

def goto (pc : Pc) : Server := { s with runs := Function.update s.runs r pc }

/-- Wait for a bucket's turn. -/
def enter (bucket : Text) (pc : Pc) : Option Server :=
  if s.buckets bucket = none then
    some ({ s with buckets := Function.update s.buckets bucket (some r) }.goto r pc)
  else none

/-- The end of an attempt. It is taken together with the step before it, which can only let others
in earlier. -/
def leave : Server :=
  { s with buckets := fun b => if s.buckets b = some r then none else s.buckets b }

def currentSession (cookie : Option ℕ) (written : Bool) : Option (ℕ × Session) × SessionStore :=
  match cookie with
  | none => (none, s.sessions)
  | some id =>
    let found := s.sessions.get id s.clock written
    (found.1.map fun session => (id, session), found.2)

/-- Look the session of a cookie up and go on from what is found. -/
def lookUp (cookie : Option ℕ) (written : Bool) (next : Option (ℕ × Session) → Pc) : Server :=
  let current := s.currentSession cookie written
  { s with sessions := current.2 }.goto r (next current.1)

/-- What becomes of a login whose first factor has been passed. Without a cookie to look at,
`trusted_device` and `forget_stale_device` do nothing. -/
def firstFactor (c : Candidate) : Server :=
  if !s.config.mfaRequired then (s.leave r).goto r (.login c)
  else
    match s.config.rememberDevice, c.device with
    | true, some token => s.goto r (.readTrust c token)
    | _, _ => (s.leave r).goto r (.beginMfa c)

def verifyPassword (c : Candidate) (password : Text) : Server :=
  match (s.config.localPassword c.who).bind fun hash =>
      LocalAuth.verify crypto.hashers hash password with
  | some true => s.firstFactor r c
  | _ => (s.leave r).goto r (.render (some c.id))

/-- The token endpoint has answered, or the request to it has failed. -/
def exchanged (id : ℕ) (flow : Oidc.Flow) (clientId : Text) (device : Option ℕ)
    (answer : Option Oidc.Claims) : Server :=
  match Oidc.exchange answer clientId flow s.clock.unix with
  | none => s.goto r (.render (some id))
  | some verified =>
    if !s.config.permits verified.identity then s.goto r (.render (some id))
    else s.goto r (.pinSubject ⟨id, verified.identity, device⟩ verified.sub)

def pinSubject (c : Candidate) (sub : Text) (written : Bool) : Server :=
  let pinned := s.enrollment.pinSubject c.who sub written
  let s := { s with enrollment := pinned.2 }
  match pinned.1 with
  | some true => s.firstFactor r c
  | _ => s.goto r (.render (some c.id))

def readTrust (c : Candidate) (token : ℕ) : Server :=
  match s.enrollment.currentEnrolledAt c.who with
  | none => (s.leave r).goto r (.forgetDevice c token)
  | some enrolledAt => s.goto r (.authorize c token enrolledAt)

def authorize (c : Candidate) (token enrolledAt : ℕ) : Server :=
  let authorized := s.devices.authorize token c.who enrolledAt s.clock.unix
  let s := { s with devices := authorized.2 }.leave r
  match authorized.1 with
  | some _ => s.goto r (.login c)
  | none => s.goto r (.forgetDevice c token)

def readRecord (m : MfaAttempt) : Server :=
  let record := s.enrollment.entry m.identity
  s.goto r (.verifyCode {
    m with
    secret := record.mfaSecret.getD (m.seed.getD [])
    enrolling := !record.enrolled })

def verifyCode (c : MfaCheck) : Server :=
  if Totp.validSeed c.secret && Totp.verify crypto.hmacSha1 c.secret c.otp s.clock.unix then
    s.goto r (.acceptCode c)
  else (s.leave r).goto r (.strike c.toMfaAttempt)

def acceptCode (c : MfaCheck) : Server :=
  let recent := (s.otpUsed.lookup c.username).getD []
  let accepted := Totp.acceptAt recent c.otp s.clock.unix
  let s := { s with otpUsed := s.otpUsed.insert c.username accepted.2 }
  if !accepted.1 then (s.leave r).goto r .ended
  else if c.enrolling then s.goto r (.enroll c)
  else (s.leave r).goto r (.clearStrikes c)

def strike (m : MfaAttempt) : Server :=
  let failed := mfaFailed s.strikes m.username s.clock.instant
  let s := { s with strikes := failed.2 }
  match failed.1 with
  | some _ => s.goto r (.lockedOut m.id)
  | none => s.goto r .ended

def enroll (c : MfaCheck) (written : Bool) : Server :=
  let enrolled := s.enrollment.enroll c.identity c.secret s.clock.unix written
  let s := { s with enrollment := enrolled.2 }
  if enrolled.1 then s.goto r (.revokeDevices c) else (s.leave r).goto r .ended

def mfaLogin (c : MfaCheck) (written : Bool) : Server :=
  let s := { s with
    sessions := s.sessions.login c.id s.nextToken c.username s.clock written
    nextToken := s.nextToken + 2 }
  if s.config.rememberDevice && c.remember.isSome && !c.enrolling then
    s.goto r (.readEnrolled c.identity)
  else s.goto r .ended

def mint (who : Identity) (enrolledAt : ℕ) (written : Bool) : Server :=
  let minted := s.devices.mint s.nextToken who enrolledAt (asSecs s.config.rememberDeviceWindow)
    s.config.maxDevicesPerIdentity s.clock.unix written
  { s with devices := minted.2, nextToken := s.nextToken + 2 }.goto r .ended

/-- The next step of a handler; `none` while it has to wait, and where it has ended. -/
def advance (written : Bool) : Option Server :=
  match s.runs r with
  | .idle | .ended | .exchange .. => none
  | .arrived req =>
    some (s.lookUp r (req.looksUp s.config) written fun current => req.handle s.config current)
  | .render cookie => some (s.lookUp r cookie written fun _ => .ended)
  | .ensureSession cookie =>
    some (s.lookUp r cookie written fun current =>
      if current.isSome then .render cookie else .createSession)
  | .createSession =>
    some ({ s with
      sessions := s.sessions.create s.nextToken s.clock
      nextToken := s.nextToken + 2 }.goto r (.render (some s.nextToken)))
  | .enterUnlisted id => s.enter r unlistedBucket (.unlisted id)
  | .unlisted id => some ((s.leave r).goto r (.render (some id)))
  | .enterLocal c password => s.enter r c.who.display (.verifyPassword c password)
  | .verifyPassword c password => some (s.verifyPassword crypto r c password)
  | .startOauth id =>
    some ({ s with
      sessions := s.sessions.setOauth id (some (.new s.nextToken)) s.clock written
      nextToken := s.nextToken + 3 }.goto r .ended)
  | .clearOauth id flow device =>
    let s := { s with sessions := s.sessions.setOauth id none s.clock written }
    match s.config.googleClientId, s.config.googleClientSecret, s.config.redirectUri with
    | some clientId, some _, some _ => some (s.goto r (.exchange id flow clientId device))
    | _, _, _ => some (s.goto r .ended)
  | .pinSubject c sub => some (s.pinSubject r c sub written)
  | .readTrust c token => some (s.readTrust r c token)
  | .authorize c token enrolledAt => some (s.authorize r c token enrolledAt)
  | .forgetDevice c token =>
    some ({ s with devices := s.devices.forgetIfOwned token c.who }.goto r (.beginMfa c))
  | .login c =>
    some ({ s with
      sessions := s.sessions.login c.id s.nextToken c.who.display s.clock written
      nextToken := s.nextToken + 2 }.goto r .ended)
  | .beginMfa c =>
    some ({ s with
      sessions := s.sessions.beginMfa c.id s.nextToken c.who.display s.clock written
      nextToken := s.nextToken + 2 }.goto r .ended)
  | .enterMfa m => s.enter r (mfaBucket m.identity) (.checkLock m)
  | .checkLock m =>
    match mfaLocked s.strikes m.username s.clock.instant with
    | some _ => some ((s.leave r).goto r (.lockedOut m.id))
    | none => some (s.goto r (.readRecord m))
  | .readRecord m => some (s.readRecord r m)
  | .verifyCode c => some (s.verifyCode crypto r c)
  | .acceptCode c => some (s.acceptCode r c)
  | .strike m => some (s.strike r m)
  | .lockedOut id =>
    some ({ s with sessions := s.sessions.remove id s.clock written }.goto r .createSession)
  | .enroll c => some (s.enroll r c written)
  | .revokeDevices c =>
    some (({ s with devices := s.devices.revokeAll c.identity }.leave r).goto r (.clearStrikes c))
  | .clearStrikes c =>
    some ({ s with strikes := mfaSucceeded s.strikes c.username }.goto r (.mfaLogin c))
  | .mfaLogin c => some (s.mfaLogin r c written)
  | .readEnrolled who =>
    match s.enrollment.currentEnrolledAt who with
    | some enrolledAt => some (s.goto r (.mint who enrolledAt))
    | none => some (s.goto r .ended)
  | .mint who enrolledAt => some (s.mint r who enrolledAt written)
  | .logout form =>
    some (s.lookUp r form.cookie written fun current => Login.logout current form)
  | .removeSession id device =>
    let s := { s with sessions := s.sessions.remove id s.clock written }
    match device with
    | some token => some (s.goto r (.revokeToken token))
    | none => some (s.goto r .ended)
  | .revokeToken token =>
    some ({ s with devices := s.devices.revokeToken token }.goto r .ended)

/-- A server run begins: files are loaded, and there are no handlers but those of the past. -/
def start (config : Config) (enrollment : EnrollmentStore) (devices : DeviceStore) (clock : Clock)
    (written : Bool) (disk : Text → Table ℕ DiskSession) (nextToken : ℕ) (runs : ℕ → Pc) :
    Server where
  config := config
  sessions :=
    match config.sessionPath with
    | some path => .load path config.sessionTtl disk clock written
    | none => .new config.sessionTtl disk
  enrollment := enrollment
  devices := devices.live clock.unix
  otpUsed := ∅
  strikes := ∅
  buckets _ := none
  clock := clock
  nextToken := nextToken
  runs := runs

end Server

/-! ## The system -/

inductive Act
  | arrive (r : ℕ) (req : Request)
  /-- The next step of a handler, and whether a file it writes is written. -/
  | step (r : ℕ) (written : Bool)
  /-- What Google's token endpoint answers a handler, if it does. -/
  | answer (r : ℕ) (claims : Option Oidc.Claims)
  | abandon (r : ℕ)
  | tick (clock : Clock)
  | sweep (written : Bool)
  | sweepDevices
  | revokeDevice (who : Identity) (id : ℕ)
  /-- The process ends and starts again, with any configuration, enrollment and devices. -/
  | restart (config : Config) (enrollment : EnrollmentStore) (devices : DeviceStore) (clock : Clock)
    (written : Bool)

/-- A handler does not outlive its process, and its number is not used again. -/
def Pc.killed : Pc → Pc
  | .idle => .idle
  | _ => .ended

def loginStep (crypto : Crypto) (s : Server) : Act → Option Server
  | .arrive r req =>
    match s.runs r with
    | .idle => some (s.goto r (.arrived req))
    | _ => none
  | .step r written => s.advance crypto r written
  | .answer r claims =>
    match s.runs r with
    | .exchange id flow clientId device => some (s.exchanged r id flow clientId device claims)
    | _ => none
  | .abandon r => if (s.runs r).awaits then some ((s.leave r).goto r .ended) else none
  | .tick clock => if s.clock.instant ≤ clock.instant then some { s with clock := clock } else none
  | .sweep written => some { s with sessions := s.sessions.sweep s.clock written }
  | .sweepDevices => some { s with devices := s.devices.sweep s.clock.unix }
  | .revokeDevice who id => some { s with devices := s.devices.revoke who id }
  | .restart config enrollment devices clock written =>
    some (.start config enrollment devices clock written s.sessions.disk s.nextToken
      fun r => (s.runs r).killed)

/-- The server, from the first start of all: no session file has been written yet. -/
def loginSystem (crypto : Crypto) : System Server Act where
  init s := ∃ config enrollment devices clock written,
    s = .start config enrollment devices clock written (fun _ => ∅) 0 fun _ => .idle
  step := loginStep crypto

/-- `authed_session` of the private area: the session of a cookie, if it is logged in. -/
def authedSession (s : Server) (cookie : Option ℕ) (written : Bool) : Option Session :=
  ((s.currentSession cookie written).1.map Prod.snd).filter Session.authenticated

end Webshell.Login
