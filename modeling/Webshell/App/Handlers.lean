import Webshell.Auth.Login
import Webshell.Share.Viewer
import Webshell.Terminals.Pools

/-!
# The handlers of the private area

The whole state of a server run: what the login handlers share, the tarpit of the login guard, the
share grants, the terminals and the preferences. The handlers of the private area that change
something take one step for `require_auth`, one for their own checks and one for what they do, so
that any number of them, of login handlers, of share viewers and of terminal clients interleave.

## Main definitions

- `Request`, `Form`, `Response`: what a request carries, and what it is answered
- `resetTerminal`, `setPrefs`, `createShare`, `revokeShare`, `revokeDevice`, `wsHandler`: what a
  handler decides from the session of the request
- `AppState`, `appSystem`: the stores, and the steps of everybody
-/

namespace Webshell.App

open Transition
open Login (Crypto Server)

/-! ## Requests -/

/-- What is posted, or asked of the upgrade, besides the CSRF value. -/
inductive Form
  | resetTerminal (index : ℕ)
  | setPrefs (fontSize : ℕ) (fontFamily : Text)
  | createShare (index ttlSecs : ℕ)
  | revokeShare (grantId : ℕ)
  | revokeDevice (device : Option ℕ) (deviceId : ℕ) (all : Option Text)
  | ws (origin host : Option Text)

/-- `cookie` is the value of the session cookie whose signature was accepted. -/
structure Request where
  cookie : Option ℕ
  wantsHtml : Bool
  csrf : ℕ
  form : Form

structure ClientPrefs where
  fontSize : ℕ
  fontFamily : Text
deriving DecidableEq

/-- A terminal socket that has been opened. -/
structure Socket where
  user : Text
  deadline : ℕ
deriving DecidableEq

inductive Response
  | redirect (location : String)
  | refused (status : ℕ) (message : String)
  | noContent (forgetsDevice : Bool)
  | share (grantId expiresInSecs : ℕ)
  | upgraded
deriving DecidableEq

def unauthorized : Response := .refused 401 "not authenticated"

def invalidCsrf : Response := .refused 403 "invalid CSRF token"

/-- The part of the configuration that the login handlers do not read. -/
structure Settings where
  sharingEnabled : Bool
  maxShareSecs : ℕ
  allowedOrigins : List Text
  strictOrigin : Bool

/-! ## Origins -/

/-- What stands before the first `://`, and what comes after it. -/
def splitScheme : Text → Option (Text × Text)
  | [] => none
  | c :: rest =>
    if "://".toList.isPrefixOf (c :: rest) then some ([], rest.drop 2)
    else (splitScheme rest).map fun p => (c :: p.1, p.2)

/-- `split("://").nth(1)` -/
def authority (origin : Text) : Option Text :=
  (splitScheme origin).map fun p => ((splitScheme p.2).map Prod.fst).getD p.2

def originMatches (allowed origin : Text) : Bool :=
  allowed = origin || ((splitScheme allowed).isNone && authority origin = some allowed)

def originAllowed (settings : Settings) (origin host : Option Text) : Bool :=
  match origin with
  | none => false
  | some origin =>
    if settings.allowedOrigins.any fun allowed => originMatches allowed origin then true
    else if settings.strictOrigin && !settings.allowedOrigins.isEmpty then false
    else
      match authority origin, host with
      | some o, some h => o = h
      | _, _ => false

/-! ## What a handler decides from the session of the request -/

variable [Text.Lowercase]

/-- What a handler does to the stores once its checks are passed. -/
inductive Effect
  | reset (username : Text) (index : ℕ)
  | setPrefs (username : Text) (prefs : ClientPrefs)
  | createShare (username : Text) (index ttlSecs : ℕ)
  | revokeShare (username : Text) (grantId : ℕ)
  | revokeAllDevices (who : Identity)
  | revokeDevice (who : Identity) (deviceId : ℕ) (device : Option ℕ)
  | upgrade (socket : Socket)

/-- Where a handler of the private area stands. -/
inductive Pc
  | idle
  | arrived (req : Request)
  /-- `require_auth` has let it in. -/
  | handling (req : Request)
  | acting (effect : Effect)
  | ended (response : Response)
  /-- Its client has gone before it has begun. -/
  | dropped

section
variable (current : Option (ℕ × Session))

/-- `authed_session` -/
def authedSession : Option Session := (current.map Prod.snd).filter Session.authenticated

def requireAuth (req : Request) : Pc :=
  if (authedSession current).isSome then .handling req
  else .ended (if req.wantsHtml then .redirect "/webshell/login" else unauthorized)

/-- The first two checks of a handler. -/
def checked (csrf : ℕ) (next : Session → Pc) : Pc :=
  match authedSession current with
  | none => .ended unauthorized
  | some session => if session.csrf ≠ csrf then .ended invalidCsrf else next session

def resetTerminal (csrf index : ℕ) : Pc :=
  checked current csrf fun session => .acting (.reset session.username index)

def setPrefs (csrf fontSize : ℕ) (fontFamily : Text) : Pc :=
  checked current csrf fun session =>
    .acting (.setPrefs session.username ⟨max 8 (min fontSize 40), fontFamily.take 200⟩)

def createShare (settings : Settings) (slotsPerUser csrf index ttlSecs : ℕ) : Pc :=
  if !settings.sharingEnabled then .ended (.refused 403 "sharing is disabled")
  else
    match current with
    | none => .ended unauthorized
    | some (_, session) =>
      if !session.authenticated then .ended unauthorized
      else if session.csrf ≠ csrf then .ended invalidCsrf
      else if slotsPerUser ≤ index then .ended (.refused 400 "slot out of range")
      else
        .acting (.createShare session.username index (max 1 (min ttlSecs settings.maxShareSecs)))

def revokeShare (csrf grantId : ℕ) : Pc :=
  checked current csrf fun session => .acting (.revokeShare session.username grantId)

def revokeDevice (csrf : ℕ) (device : Option ℕ) (deviceId : ℕ) (all : Option Text) : Pc :=
  checked current csrf fun session =>
    match Identity.parse session.username with
    | none => .ended (.refused 500 "malformed identity")
    | some who =>
      if all.isSome then .acting (.revokeAllDevices who)
      else .acting (.revokeDevice who deviceId device)

def wsHandler (settings : Settings) (ttl now csrf : ℕ) (origin host : Option Text) : Pc :=
  checked current csrf fun session =>
    if !originAllowed settings origin host then .ended (.refused 403 "origin not allowed")
    else .acting (.upgrade ⟨session.username, now + (session.ttl ttl - (now - session.created))⟩)

end

/-! ## The state -/

structure AppState (P : Type) where
  settings : Settings
  /-- Sessions, enrollment, devices, replay guards, strikes, and the login handlers. -/
  login : Server
  /-- Failures and the time of the last change, for every bucket of the login guard. -/
  tarpit : Text → Option (ℕ × ℕ)
  sharing : Share.Sharing
  terminals : Terminals.State P
  prefs : Table Text ClientPrefs
  sockets : List Socket
  area : ℕ → Pc

/-! ### The tarpit -/

inductive Verdict
  | failed
  | succeeded
deriving DecidableEq

/-- What a handler reports on its attempt in its next step. -/
def verdict (crypto : Crypto) (s : Server) (r : ℕ) : Option Verdict :=
  match s.runs r with
  | .unlisted _ => some .failed
  | .verifyPassword c password =>
    match (s.config.localPassword c.who).bind fun hash =>
        LocalAuth.verify crypto.hashers hash password with
    | some true => if !s.config.mfaRequired then some .succeeded else none
    | some false => some .failed
    | none => none
  | .authorize c token enrolledAt =>
    (s.devices.authorize token c.who enrolledAt s.clock.unix).1.map fun _ => .succeeded
  | .verifyCode c =>
    if Totp.validSeed c.secret && Totp.verify crypto.hmacSha1 c.secret c.otp s.clock.unix then none
    else some .failed
  | .acceptCode c =>
    if !(Totp.acceptAt ((s.otpUsed.lookup c.username).getD []) c.otp s.clock.unix).1 then
      some .failed
    else if c.enrolling then none
    else some .succeeded
  | .revokeDevices _ => some .succeeded
  | _ => none

/-- `LoginGuard::recent_failures` -/
def recentFailures (bucket : ℕ × ℕ) (now : ℕ) : ℕ :=
  if fromSecs 60 < now - bucket.2 then 0 else bucket.1

def Verdict.record (bucket : ℕ × ℕ) (now : ℕ) : Verdict → ℕ × ℕ
  | .failed => (recentFailures bucket now + 1, now)
  | .succeeded => (0, now)

/-- The bucket whose turn a handler waits for. -/
def entering : Login.Pc → Option Text
  | .enterUnlisted _ => some Login.unlistedBucket
  | .enterLocal c _ => some c.who.display
  | .enterMfa m => some (Login.mfaBucket m.identity)
  | _ => none

/-- The tarpit after the next step of a login handler: the bucket it enters is there, and the
attempt it reports on is counted in the bucket that it holds. -/
def tarpitAfter (crypto : Crypto) (s : Server) (tarpit : Text → Option (ℕ × ℕ)) (r : ℕ) :
    Text → Option (ℕ × ℕ) := fun b =>
  if entering (s.runs r) = some b then some ((tarpit b).getD (0, s.clock.instant))
  else
    match verdict crypto s r with
    | some v =>
      if s.buckets b = some r then
        some (v.record ((tarpit b).getD (0, s.clock.instant)) s.clock.instant)
      else tarpit b
    | none => tarpit b

namespace AppState

variable {P : Type} (s : AppState P) (r : ℕ)

def goto (pc : Pc) : AppState P := { s with area := Function.update s.area r pc }

/-- Look the session of a cookie up and go on from what is found. -/
def lookUp (cookie : Option ℕ) (written : Bool) (next : Option (ℕ × Session) → Pc) : AppState P :=
  let current := s.login.currentSession cookie written
  { s with login := { s.login with sessions := current.2 } }.goto r (next current.1)

/-- The session that a handler looks up; `create_share` looks at the configuration before that. -/
def looksUp (req : Request) : Option ℕ :=
  match req.form with
  | .createShare _ _ => if s.settings.sharingEnabled then req.cookie else none
  | _ => req.cookie

def handle (req : Request) (current : Option (ℕ × Session)) : Pc :=
  match req.form with
  | .resetTerminal index => resetTerminal current req.csrf index
  | .setPrefs fontSize fontFamily => setPrefs current req.csrf fontSize fontFamily
  | .createShare index ttlSecs =>
    createShare current s.settings s.terminals.slotsPerUser req.csrf index ttlSecs
  | .revokeShare grantId => revokeShare current req.csrf grantId
  | .revokeDevice device deviceId all => revokeDevice current req.csrf device deviceId all
  | .ws origin host =>
    wsHandler current s.settings s.login.sessions.ttl s.login.clock.instant req.csrf origin host

/-- What the handler does, with the number of its call of `Terminals::reset` and the clock reading
that a share's expiry is computed from. -/
def perform [Vt100 P] (c before : ℕ) : Effect → Option (AppState P)
  | .reset username index => do
    let call := .call c (String.ofList username) index .reset
    let terminals ← Terminals.terminalsStep s.terminals call
    some ({ s with terminals := terminals }.goto r (.ended (.noContent false)))
  | .setPrefs username prefs =>
    some ({ s with prefs := s.prefs.insert username prefs }.goto r (.ended (.noContent false)))
  | .createShare username index ttlSecs => do
    let username := String.ofList username
    let sharing ← Share.sharingStep s.sharing (.create before username index ttlSecs)
    let now := Share.nowUnix s.sharing.clock
    let response :=
      match (s.sharing.store.create before now username index ttlSecs).1 with
      | .ok grantId => .share grantId ttlSecs
      | .error _ =>
        .refused 429 "you already have 32 active share links; revoke one first"
    some ({ s with sharing := sharing }.goto r (.ended response))
  | .revokeShare username grantId => do
    let username := String.ofList username
    let sharing ← Share.sharingStep s.sharing (.revoke username grantId)
    let response :=
      if (s.sharing.store.revoke username grantId).1 then .noContent false
      else .refused 404 "share grant not found"
    some ({ s with sharing := sharing }.goto r (.ended response))
  | .revokeAllDevices who =>
    let login := { s.login with devices := s.login.devices.revokeAll who }
    some ({ s with login := login }.goto r (.ended (.noContent true)))
  | .revokeDevice who deviceId device =>
    let here := device.bind s.login.devices.idForToken
    let mine := s.login.devices.entries.any fun entry =>
      entry.2.id = deviceId && entry.2.identity = who
    let login := { s.login with devices := s.login.devices.revoke who deviceId }
    let response :=
      if mine then .noContent (here = some deviceId) else .refused 404 "device not found"
    some ({ s with login := login }.goto r (.ended response))
  | .upgrade socket => some ({ s with sockets := s.sockets ++ [socket] }.goto r (.ended .upgraded))

/-- The next step of a handler of the private area. -/
def advance [Vt100 P] (written : Bool) (c before : ℕ) : Option (AppState P) :=
  match s.area r with
  | .idle | .ended _ | .dropped => none
  | .arrived req => some (s.lookUp r req.cookie written fun current => requireAuth current req)
  | .handling req => some (s.lookUp r (s.looksUp req) written (s.handle req))
  | .acting effect => s.perform r c before effect

end AppState

/-! ## The system -/

inductive Act
  | login (a : Login.Act)
  | arrive (r : ℕ) (req : Request)
  | step (r : ℕ) (written : Bool) (c before : ℕ)
  | abandon (r : ℕ)
  /-- Viewers and timers. -/
  | sharing (a : Share.Act)
  /-- Terminal clients, viewers, shells and the other calls. -/
  | terminals (a : Terminals.Act)

/-- Within one server run, and not what a handler of the private area does. -/
def ofLogin : Login.Act → Bool
  | .restart .. | .revokeDevice .. => false
  | _ => true

def ofSharing : Share.Act → Bool
  | .create .. | .revoke .. => false
  | _ => true

def ofTerminals : Terminals.Act → Bool
  | .call _ _ _ .reset => false
  | _ => true

variable {P : Type} [Vt100 P]

def appStep (crypto : Crypto) (s : AppState P) : Act → Option (AppState P)
  | .login a =>
    if ofLogin a then do
      let login ← Login.loginStep crypto s.login a
      let tarpit :=
        match a with
        | .step r _ => tarpitAfter crypto s.login s.tarpit r
        | _ => s.tarpit
      some { s with login := login, tarpit := tarpit }
    else none
  | .arrive r req =>
    match s.area r with
    | .idle => some (s.goto r (.arrived req))
    | _ => none
  | .step r written c before => s.advance r written c before
  | .abandon r =>
    match s.area r with
    | .arrived _ | .handling _ => some (s.goto r .dropped)
    | _ => none
  | .sharing a =>
    if ofSharing a then do
      let sharing ← Share.sharingStep s.sharing a
      some { s with sharing := sharing }
    else none
  | .terminals a =>
    if ofTerminals a then do
      let terminals ← Terminals.terminalsStep s.terminals a
      some { s with terminals := terminals }
    else none

/-- A server run, from any contents of the stores: there are no requests yet. -/
def appSystem (P : Type) [Vt100 P] (crypto : Crypto) : System (AppState P) Act where
  init s := (∀ r, s.login.runs r = .idle) ∧ (∀ b, s.login.buckets b = none) ∧
    ∀ r, s.area r = .idle
  step := appStep crypto

end Webshell.App
