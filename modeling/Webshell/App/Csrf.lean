import Webshell.App.Handlers
import Webshell.Auth.FlowUse

/-!
# No change without the CSRF token

Eleven requests carry a CSRF value: five of the login handlers and six of the private area. Each
handler looks the session of its cookie up itself and compares the value with that session's. Until
this comparison has succeeded, a handler can only look sessions up, and with that drop one that has
expired.

## Main definitions

- `Sends`, `Passes`: a request arrives with a cookie and a CSRF value, and its check succeeds
- `Untouched`: a step leaves every store as it was, but for an expired session
- `Turned`, `Outside`: where a handler may stand whose check has not succeeded

## Main results

- `nothing_without_csrf`: in every run, a handler whose check has not succeeded changes nothing
-/

namespace Webshell.App

open Transition
open Login (Crypto Server)

section
variable [Text.Lowercase]

/-! ## What is claimed -/

/-- The CSRF value of a request to a login handler, if it has to carry one. -/
def csrfOf : Login.Request → Option ℕ
  | .localLogin form => some form.csrf
  | .oauthStart form => some form.csrf
  | .mfaSubmit form => some form.csrf
  | .mfaCancel form => some form.csrf
  | .logout form => some form.csrf
  | .loginPage _ | .oauthCallback _ | .privatePage _ => none

inductive Actor
  | login (r : ℕ)
  | area (r : ℕ)
deriving DecidableEq

/-- The handler whose step it is. -/
def Act.actor : Act → Option Actor
  | .login a => a.actor.map .login
  | .arrive r _ | .step r _ _ _ | .abandon r => some (.area r)
  | .sharing _ | .terminals _ => none

variable {P : Type}

/-- The request of a handler arrives, with its cookie and its CSRF value. -/
inductive Sends : Actor → Option ℕ → ℕ → AppState P × Act → Prop
  | login {s : AppState P} {r csrf : ℕ} {req : Login.Request} :
      csrfOf req = some csrf → Sends (.login r) req.cookie csrf (s, .login (.arrive r req))
  | area {s : AppState P} {r : ℕ} {req : Request} :
      Sends (.area r) req.cookie req.csrf (s, .arrive r req)

/-- The next step of a login handler checks the CSRF value. -/
def checks : Login.Pc → Bool
  | .arrived (.localLogin _) | .arrived (.oauthStart _) | .arrived (.mfaSubmit _)
  | .arrived (.mfaCancel _) | .logout _ => true
  | _ => false

/-- The cookie resolves to a session that has this CSRF token. -/
def Accepts (s : Server) (cookie : Option ℕ) (csrf : ℕ) : Prop :=
  ∃ id session, (s.currentSession cookie true).1 = some (id, session) ∧ session.csrf = csrf

/-- The check of a handler succeeds. -/
inductive Passes (cookie : Option ℕ) (csrf : ℕ) : Actor → AppState P × Act → Prop
  | login {s : AppState P} {r : ℕ} {written : Bool} :
      checks (s.login.runs r) = true → Accepts s.login cookie csrf →
      Passes cookie csrf (.login r) (s, .login (.step r written))
  | area {s : AppState P} {r c before : ℕ} {req : Request} {written : Bool} :
      s.area r = .handling req → Accepts s.login cookie csrf →
      Passes cookie csrf (.area r) (s, .step r written c before)

/-- What a lookup leaves of the sessions: the one of the cookie is dropped if it has expired. -/
inductive Looked (s : Server) (cookie : Option ℕ) : SessionStore → Prop
  | kept : Looked s cookie s.sessions
  | evicted {id : ℕ} {x : Session} {written : Bool} :
      cookie = some id → s.sessions.inner.lookup id = some x →
      x.expired s.sessions.ttl s.clock.instant = true →
      Looked s cookie
        (({ s.sessions with inner := s.sessions.inner.erase id } : SessionStore).persist s.clock
          written)

/-- Between two states, no store has changed but for an expired session that is dropped: not the
enrollment, the devices, the replay guards, the strikes, the buckets and the tarpit of the login
guard, the share grants, the terminals, the preferences or the sockets. -/
structure Untouched (cookie : Option ℕ) (s s' : AppState P) : Prop where
  sessions : Looked s.login cookie s'.login.sessions
  same : s' = { s with
    login := { s.login with sessions := s'.login.sessions, runs := s'.login.runs }
    area := s'.area }

/-! ## Lookups -/

section
variable {crypto : Crypto} {s s' : Server} {r csrf : ℕ} {cookie : Option ℕ} {written : Bool}

theorem looked_currentSession (s : Server) (cookie : Option ℕ) (written : Bool) :
    Looked s cookie (s.currentSession cookie written).2 := by
  cases cookie with
  | none => exact .kept
  | some id =>
    simp only [Server.currentSession, SessionStore.get]
    split
    next x hx =>
      split
      next hexpired => exact .evicted rfl hx hexpired
      · exact .kept
    · exact .kept

/-- What a lookup finds does not depend on whether a file is written. -/
theorem currentSession_fst (s : Server) (cookie : Option ℕ) (written : Bool) :
    (s.currentSession cookie written).1 = (s.currentSession cookie true).1 := by
  cases cookie with
  | none => rfl
  | some id =>
    simp only [Server.currentSession, SessionStore.get]
    split
    · split <;> rfl
    · rfl

/-- A session that is found without an accepted token has another one. -/
theorem csrf_ne_of_not_accepts (h : ¬ Accepts s cookie csrf) {id : ℕ} {session : Session}
    (hfound : (s.currentSession cookie written).1 = some (id, session)) : session.csrf ≠ csrf := by
  intro hcsrf
  rw [currentSession_fst] at hfound
  exact h ⟨id, session, hfound, hcsrf⟩

/-- The two handlers of Google look nothing up while Google is not configured. -/
theorem looked_looksUp (s : Server) (req : Login.Request) (written : Bool) :
    Looked s req.cookie (s.currentSession (req.looksUp s.config) written).2 := by
  cases req with
  | oauthStart form =>
    simp only [Login.Request.looksUp]
    split
    · exact looked_currentSession ..
    · exact .kept
  | oauthCallback query =>
    simp only [Login.Request.looksUp]
    split
    · exact looked_currentSession ..
    · exact .kept
  | _ => exact looked_currentSession ..

/-! ## The login handlers -/

/-- Where a login handler stands whose check has not succeeded. -/
inductive Turned (cookie : Option ℕ) (csrf : ℕ) : Login.Pc → Prop
  | arrived {req : Login.Request} :
      req.cookie = cookie → csrfOf req = some csrf → Turned cookie csrf (.arrived req)
  | logout {form : Login.LogoutForm} :
      form.cookie = cookie → form.csrf = csrf → Turned cookie csrf (.logout form)
  | render : Turned cookie csrf (.render cookie)
  | ended : Turned cookie csrf .ended

theorem turned_localLogin {config : Config} {current : Option (ℕ × Session)}
    {form : Login.LocalLoginForm} (h : ∀ id session, current = some (id, session) →
      session.csrf ≠ form.csrf) :
    Turned form.cookie csrf (Login.localLogin config current form) := by
  cases current with
  | none => exact .render
  | some found =>
    simp only [Login.localLogin]
    rw [if_pos (h found.1 found.2 rfl)]
    exact .ended

theorem turned_oauthStart {config : Config} {current : Option (ℕ × Session)}
    {form : Login.CsrfForm} (h : ∀ id session, current = some (id, session) →
      session.csrf ≠ form.csrf) :
    Turned form.cookie csrf (Login.oauthStart config current form) := by
  unfold Login.oauthStart
  split
  · exact .ended
  · cases current with
    | none => exact .ended
    | some found =>
      show Turned _ _ (if found.2.csrf ≠ form.csrf then _ else _)
      rw [if_pos (h found.1 found.2 rfl)]
      exact .ended

theorem turned_mfaSubmit {current : Option (ℕ × Session)} {form : Login.MfaForm}
    (h : ∀ id session, current = some (id, session) → session.csrf ≠ form.csrf) :
    Turned form.cookie csrf (Login.mfaSubmit current form) := by
  rw [Login.mfaSubmit]
  split
  · exact .ended
  next id session hpending =>
    rw [if_pos (h id session (Option.eq_some_of_filter_eq_some hpending))]
    exact .ended

theorem turned_mfaCancel {current : Option (ℕ × Session)} {form : Login.CsrfForm}
    (h : ∀ id session, current = some (id, session) → session.csrf ≠ form.csrf) :
    Turned form.cookie csrf (Login.mfaCancel current form) := by
  rw [Login.mfaCancel]
  split
  · exact .ended
  next id session hpending =>
    rw [if_pos (h id session (Option.eq_some_of_filter_eq_some hpending))]
    exact .ended

theorem turned_logout {current : Option (ℕ × Session)} {form : Login.LogoutForm}
    (h : ∀ id session, current = some (id, session) → session.csrf ≠ form.csrf) :
    Turned form.cookie csrf (Login.logout current form) := by
  cases current with
  | none => exact .ended
  | some found =>
    simp only [Login.logout]
    rw [if_pos (h found.1 found.2 rfl)]
    exact .ended

/-- A request is turned away by the check of its handler; a logout comes to its check later. -/
theorem turned_handle {req : Login.Request} (hcsrf : csrfOf req = some csrf)
    (hno : ¬ (checks (.arrived req) = true ∧ Accepts s req.cookie csrf)) :
    Turned req.cookie csrf
      (req.handle s.config (s.currentSession (req.looksUp s.config) written).1) := by
  cases req with
  | loginPage | oauthCallback | privatePage => cases hcsrf
  | localLogin form =>
    obtain rfl := Option.some.inj hcsrf
    exact turned_localLogin fun _ _ => csrf_ne_of_not_accepts fun h => hno ⟨rfl, h⟩
  | oauthStart form =>
    obtain rfl := Option.some.inj hcsrf
    refine turned_oauthStart fun id session hfound => ?_
    simp only [Login.Request.looksUp] at hfound
    split at hfound
    · exact csrf_ne_of_not_accepts (fun h => hno ⟨rfl, h⟩) hfound
    · cases hfound
  | mfaSubmit form =>
    obtain rfl := Option.some.inj hcsrf
    exact turned_mfaSubmit fun _ _ => csrf_ne_of_not_accepts fun h => hno ⟨rfl, h⟩
  | mfaCancel form =>
    obtain rfl := Option.some.inj hcsrf
    exact turned_mfaCancel fun _ _ => csrf_ne_of_not_accepts fun h => hno ⟨rfl, h⟩
  | logout form =>
    simp only [Login.Request.handle, Login.requireAuth]
    split
    · exact .ended
    · exact .logout rfl (Option.some.inj hcsrf)

/-- The step of a handler whose check has not succeeded: a lookup of its cookie. -/
theorem turned_of_advance (hturned : Turned cookie csrf (s.runs r))
    (hno : ¬ (checks (s.runs r) = true ∧ Accepts s cookie csrf))
    (hs : s.advance crypto r written = some s') :
    Turned cookie csrf (s'.runs r) ∧ Looked s cookie s'.sessions ∧
      s' = { s with sessions := s'.sessions, runs := s'.runs } := by
  generalize hpc : s.runs r = pc at hturned hno
  cases hturned with
  | arrived hcookie hcsrf =>
    simp only [Server.advance, hpc, Option.some.injEq] at hs
    subst hs hcookie
    rw [Server.lookUp, Login.goto_runs_self]
    exact ⟨turned_handle hcsrf hno, looked_looksUp .., rfl⟩
  | logout hcookie hcsrf =>
    simp only [Server.advance, hpc, Option.some.injEq] at hs
    subst hs hcookie hcsrf
    rw [Server.lookUp, Login.goto_runs_self]
    refine ⟨turned_logout fun _ _ => csrf_ne_of_not_accepts fun h => hno ⟨rfl, h⟩, ?_, rfl⟩
    exact looked_currentSession ..
  | render =>
    simp only [Server.advance, hpc, Option.some.injEq] at hs
    subst hs
    rw [Server.lookUp, Login.goto_runs_self]
    exact ⟨.ended, looked_currentSession .., rfl⟩
  | ended =>
    simp only [Server.advance, hpc] at hs
    cases hs

/-! ## What a step leaves to the handlers that do not take it -/

/-- A step of handler `r`: the others stay where they are and get no bucket, and it has begun. -/
structure StepOf (r : ℕ) (s s' : Server) : Prop where
  runs : ∀ r', r' ≠ r → s'.runs r' = s.runs r'
  buckets : ∀ b r', r' ≠ r → s'.buckets b = some r' → s.buckets b = some r'
  begun : s'.runs r ≠ .idle

/-- What a step of handler `r` does before it goes on. -/
structure Aside (r : ℕ) (s s' : Server) : Prop where
  runs : s'.runs = s.runs
  buckets : ∀ b r', r' ≠ r → s'.buckets b = some r' → s.buckets b = some r'

variable {t : Server} {pc : Login.Pc}

theorem aside_stores {sessions : SessionStore} {enrollment : EnrollmentStore}
    {devices : DeviceStore} {otpUsed : Table Text Totp.Recent} {strikes : Table Text MfaStrikes}
    {n : ℕ} :
    Aside r s { s with
      sessions := sessions
      enrollment := enrollment
      devices := devices
      otpUsed := otpUsed
      strikes := strikes
      nextToken := n } :=
  ⟨rfl, fun _ _ _ hb => hb⟩

theorem Aside.leave (h : Aside r s t) : Aside r s (t.leave r) := by
  refine ⟨h.runs, fun b r' hr hb => h.buckets b r' hr ?_⟩
  simp only [Server.leave] at hb
  split at hb
  · cases hb
  · exact hb

theorem Aside.goto (h : Aside r s t) (hpc : pc ≠ .idle) : StepOf r s (t.goto r pc) := by
  refine ⟨fun r' hr => ?_, h.buckets, ?_⟩
  · exact (Function.update_of_ne hr ..).trans (congrFun h.runs r')
  · rw [Login.goto_runs_self]
    exact hpc

theorem stepOf_enter {bucket : Text} (hpc : pc ≠ .idle) (hs : s.enter r bucket pc = some s') :
    StepOf r s s' := by
  rw [Server.enter] at hs
  split at hs
  · obtain rfl := Option.some.inj hs
    refine Aside.goto ⟨rfl, fun b r' hr hb => ?_⟩ hpc
    by_cases hbucket : b = bucket
    · subst hbucket
      have hholder : Function.update s.buckets b (some r) b = some r' := hb
      rw [Function.update_self, Option.some.injEq] at hholder
      exact absurd hholder.symm hr
    · exact (Function.update_of_ne hbucket ..).symm.trans hb
  · cases hs

theorem Aside.firstFactor (h : Aside r s t) (c : Login.Candidate) :
    StepOf r s (t.firstFactor r c) := by
  rw [Server.firstFactor]
  split
  · exact h.leave.goto (by simp)
  · split
    · exact h.goto (by simp)
    · exact h.leave.goto (by simp)

theorem handle_ne_idle (config : Config) (current : Option (ℕ × Session)) (req : Login.Request) :
    req.handle config current ≠ .idle := by
  cases req with
  | loginPage cookie =>
    simp only [Login.Request.handle, Login.loginPage]
    split <;> try split
    all_goals simp
  | localLogin form =>
    simp only [Login.Request.handle, Login.localLogin]
    repeat' split
    all_goals simp
  | oauthStart form =>
    simp only [Login.Request.handle, Login.oauthStart]
    repeat' split
    all_goals simp
  | oauthCallback query =>
    simp only [Login.Request.handle, Login.oauthCallback]
    repeat' split
    all_goals simp
  | mfaSubmit form =>
    simp only [Login.Request.handle, Login.mfaSubmit]
    repeat' split
    all_goals simp
  | mfaCancel form =>
    simp only [Login.Request.handle, Login.mfaCancel]
    repeat' split
    all_goals simp
  | logout form | privatePage cookie =>
    simp only [Login.Request.handle, Login.requireAuth]
    split <;> simp

theorem stepOf_of_advance (hs : s.advance crypto r written = some s') : StepOf r s s' := by
  have hrefl : Aside r s s := aside_stores
  cases hpc : s.runs r <;> simp only [Server.advance, hpc] at hs
  case idle | ended | exchange => cases hs
  case enterUnlisted | enterLocal | enterMfa => exact stepOf_enter (by simp) hs
  case clearOauth | readEnrolled | removeSession =>
    split at hs <;> obtain rfl := Option.some.inj hs
    · exact aside_stores.goto (by simp)
    · exact aside_stores.goto (by simp)
  case checkLock =>
    split at hs <;> obtain rfl := Option.some.inj hs
    · exact hrefl.leave.goto (by simp)
    · exact hrefl.goto (by simp)
  all_goals obtain rfl := Option.some.inj hs
  case arrived req => exact aside_stores.goto (handle_ne_idle _ _ req)
  case ensureSession =>
    refine aside_stores.goto ?_
    dsimp only
    split <;> simp
  case logout form =>
    refine aside_stores.goto ?_
    simp only [Login.logout]
    repeat' split
    all_goals simp
  case unlisted => exact hrefl.leave.goto (by simp)
  case verifyPassword c password =>
    rw [Server.verifyPassword]
    split
    · exact hrefl.firstFactor c
    · exact hrefl.leave.goto (by simp)
  case pinSubject c sub =>
    simp only [Server.pinSubject]
    split
    · exact aside_stores.firstFactor c
    · exact aside_stores.goto (by simp)
  case readTrust c token =>
    rw [Server.readTrust]
    split
    · exact hrefl.leave.goto (by simp)
    · exact hrefl.goto (by simp)
  case authorize c token enrolledAt =>
    simp only [Server.authorize]
    split <;> exact aside_stores.leave.goto (by simp)
  case verifyCode c =>
    rw [Server.verifyCode]
    split
    · exact hrefl.goto (by simp)
    · exact hrefl.leave.goto (by simp)
  case acceptCode c =>
    simp only [Server.acceptCode]
    split
    · exact aside_stores.leave.goto (by simp)
    · split
      · exact aside_stores.goto (by simp)
      · exact aside_stores.leave.goto (by simp)
  case strike m =>
    simp only [Server.strike]
    split <;> exact aside_stores.goto (by simp)
  case enroll c =>
    cases written with
    | true => exact aside_stores.goto (by simp)
    | false => exact aside_stores.leave.goto (by simp)
  case revokeDevices c => exact aside_stores.leave.goto (by simp)
  case mfaLogin c =>
    simp only [Server.mfaLogin]
    split <;> exact aside_stores.goto (by simp)
  all_goals exact aside_stores.goto (by simp)

/-- A step is one of a handler, or leaves all handlers as they are. -/
theorem loginStep_cases {a : Login.Act} (ha : a.isRestart = false)
    (hs : Login.loginStep crypto s a = some s') :
    (∃ r, a.actor = some r ∧ StepOf r s s') ∨
      (a.actor = none ∧ s'.runs = s.runs ∧ s'.buckets = s.buckets) := by
  cases a with
  | restart => cases ha
  | step r written => exact .inl ⟨r, rfl, stepOf_of_advance hs⟩
  | arrive r req =>
    simp only [Login.loginStep] at hs
    split at hs <;> cases hs
    exact .inl ⟨r, rfl, aside_stores.goto (by simp)⟩
  | abandon r =>
    simp only [Login.loginStep] at hs
    split at hs <;> cases hs
    exact .inl ⟨r, rfl, aside_stores.leave.goto (by simp)⟩
  | answer r claims =>
    simp only [Login.loginStep] at hs
    split at hs <;> cases hs
    refine .inl ⟨r, rfl, ?_⟩
    rw [Server.exchanged]
    repeat' split
    all_goals exact aside_stores.goto (by simp)
  | tick clock =>
    simp only [Login.loginStep] at hs
    split at hs <;> cases hs
    exact .inr ⟨rfl, rfl, rfl⟩
  | sweep | sweepDevices | revokeDevice =>
    obtain rfl := Option.some.inj hs
    exact .inr ⟨rfl, rfl, rfl⟩

variable (s r) in
/-- A login handler holds no bucket. -/
def Unheld : Prop := ∀ b, s.buckets b ≠ some r

theorem Unheld.step {a : Login.Act} (h : Unheld s r) (ha : a.isRestart = false)
    (hr : a.actor ≠ some r) (hs : Login.loginStep crypto s a = some s') :
    Unheld s' r ∧ s'.runs r = s.runs r := by
  obtain ⟨r', hactor, hstep⟩ | ⟨_, hruns, hbuckets⟩ := loginStep_cases ha hs
  · have hne : r ≠ r' := by
      rintro rfl
      exact hr hactor
    exact ⟨fun b hb => h b (hstep.buckets b r hne hb), hstep.runs r hne⟩
  · exact ⟨fun b hb => h b (hbuckets ▸ hb), congrFun hruns r⟩

/-- A step of a login handler whose check has not succeeded. -/
theorem turned_of_loginStep {a : Login.Act} (hturned : Turned cookie csrf (s.runs r))
    (hheld : Unheld s r) (hactor : a.actor = some r)
    (hno : ∀ written, a = .step r written → ¬ (checks (s.runs r) = true ∧ Accepts s cookie csrf))
    (hs : Login.loginStep crypto s a = some s') :
    Turned cookie csrf (s'.runs r) ∧ Looked s cookie s'.sessions ∧
      s' = { s with sessions := s'.sessions, runs := s'.runs } := by
  cases a with
  | step r' written =>
    obtain rfl : r' = r := Option.some.inj hactor
    exact turned_of_advance hturned (hno written rfl) hs
  | arrive r' req | answer r' claims =>
    -- the handler has arrived already, and does not wait for Google
    obtain rfl : r' = r := Option.some.inj hactor
    simp only [Login.loginStep] at hs
    split at hs
    next hpc =>
      rw [hpc] at hturned
      cases hturned
    · cases hs
  | abandon r' =>
    obtain rfl : r' = r := Option.some.inj hactor
    simp only [Login.loginStep] at hs
    split at hs
    · obtain rfl := Option.some.inj hs
      have hbuckets : (s.leave r').buckets = s.buckets := by
        funext b
        exact if_neg (hheld b)
      refine ⟨?_, .kept, ?_⟩
      · rw [Login.goto_runs_self]
        exact .ended
      · show (s.leave r').goto r' .ended = _
        rw [Server.goto, hbuckets]
        rfl
    · cases hs
  | tick | sweep | sweepDevices | revokeDevice | restart => cases hactor

/-- A handler whose check has not succeeded has nothing to do with the tarpit. -/
theorem tarpitAfter_eq (hturned : Turned cookie csrf (s.runs r))
    (tarpit : Text → Option (ℕ × ℕ)) : tarpitAfter crypto s tarpit r = tarpit := by
  funext b
  generalize hpc : s.runs r = pc at hturned
  cases hturned <;> simp [tarpitAfter, entering, verdict, hpc]

end

/-! ## The handlers of the private area -/

section
variable {crypto : Crypto} {s s' : AppState P} {r csrf : ℕ} {cookie : Option ℕ} {written : Bool}

/-- Where a handler of the private area may stand whose check has not succeeded. -/
inductive Outside (cookie : Option ℕ) (csrf : ℕ) : Pc → Prop
  | arrived {req : Request} :
      req.cookie = cookie → req.csrf = csrf → Outside cookie csrf (.arrived req)
  | handling {req : Request} :
      req.cookie = cookie → req.csrf = csrf → Outside cookie csrf (.handling req)
  | ended {response : Response} : Outside cookie csrf (.ended response)
  | dropped : Outside cookie csrf .dropped

theorem outside_checked {current : Option (ℕ × Session)} {next : Session → Pc}
    (h : ∀ id session, current = some (id, session) → session.csrf ≠ csrf) :
    Outside cookie csrf (checked current csrf next) := by
  rw [checked]
  split
  · exact .ended
  next session hauthed =>
    obtain ⟨found, hfound, hsession⟩ :=
      Option.map_eq_some_iff.mp (Option.eq_some_of_filter_eq_some hauthed)
    rw [if_pos (hsession ▸ h found.1 found.2 hfound)]
    exact .ended

theorem outside_createShare {current : Option (ℕ × Session)} {slotsPerUser index ttlSecs : ℕ}
    {settings : Settings} (h : ∀ id session, current = some (id, session) → session.csrf ≠ csrf) :
    Outside cookie csrf (createShare current settings slotsPerUser csrf index ttlSecs) := by
  unfold createShare
  split
  · exact .ended
  · split
    · exact .ended
    next id session =>
      split
      · exact .ended
      · rw [if_pos (h id session rfl)]
        exact .ended

theorem outside_handle {req : Request} {current : Option (ℕ × Session)}
    (h : ∀ id session, current = some (id, session) → session.csrf ≠ req.csrf) :
    Outside cookie req.csrf (s.handle req current) := by
  rw [AppState.handle]
  split
  · exact outside_checked h
  · exact outside_checked h
  · exact outside_createShare h
  · exact outside_checked h
  · exact outside_checked h
  · exact outside_checked h

theorem area_goto_self (s : AppState P) (r : ℕ) (pc : Pc) : (s.goto r pc).area r = pc :=
  Function.update_self ..

theorem untouched_lookUp {cookie' : Option ℕ} {next : Option (ℕ × Session) → Pc}
    (h : Looked s.login cookie (s.login.currentSession cookie' written).2) :
    Untouched cookie s (s.lookUp r cookie' written next) :=
  ⟨h, rfl⟩

/-- The private area does nothing to the login handlers and the buckets they hold. -/
structure Area (r : ℕ) (s s' : AppState P) : Prop where
  runs : s'.login.runs = s.login.runs
  buckets : s'.login.buckets = s.login.buckets
  others : ∀ r', r' ≠ r → s'.area r' = s.area r'

theorem area_goto {t : AppState P} {pc : Pc} (hruns : t.login.runs = s.login.runs)
    (hbuckets : t.login.buckets = s.login.buckets) (harea : t.area = s.area) :
    Area r s (t.goto r pc) :=
  ⟨hruns, hbuckets, fun _ hr => (Function.update_of_ne hr ..).trans (by rw [harea])⟩

variable [Vt100 P] {c before : ℕ}

/-- The step of a handler whose check has not succeeded: a lookup of its cookie. -/
theorem outside_of_advance (h : Outside cookie csrf (s.area r))
    (hno : ∀ req, s.area r = .handling req → ¬ Accepts s.login cookie csrf)
    (hs : s.advance r written c before = some s') :
    Outside cookie csrf (s'.area r) ∧ Untouched cookie s s' := by
  generalize hpc : s.area r = pc at h
  cases h with
  | arrived hcookie hcsrf =>
    simp only [AppState.advance, hpc, Option.some.injEq] at hs
    subst hs hcookie hcsrf
    refine ⟨?_, untouched_lookUp (looked_currentSession ..)⟩
    rw [AppState.lookUp, area_goto_self, requireAuth]
    split
    · exact .handling rfl rfl
    · exact .ended
  | @handling req hcookie hcsrf =>
    simp only [AppState.advance, hpc, Option.some.injEq] at hs
    subst hs hcookie hcsrf
    have hlooked : Looked s.login req.cookie
        (s.login.currentSession (s.looksUp req) written).2 ∧
        ∀ id session, (s.login.currentSession (s.looksUp req) written).1 = some (id, session) →
          session.csrf ≠ req.csrf := by
      have hcookie : s.looksUp req = req.cookie ∨ s.looksUp req = none := by
        rw [AppState.looksUp]
        split
        · split
          · exact .inl rfl
          · exact .inr rfl
        · exact .inl rfl
      obtain heq | heq := hcookie
      · rw [heq]
        exact ⟨looked_currentSession .., fun _ _ => csrf_ne_of_not_accepts (hno req hpc)⟩
      · rw [heq]
        exact ⟨.kept, fun _ _ hfound => by cases hfound⟩
    refine ⟨?_, untouched_lookUp hlooked.1⟩
    rw [AppState.lookUp, area_goto_self]
    exact outside_handle hlooked.2
  | ended | dropped =>
    simp only [AppState.advance, hpc] at hs
    cases hs

theorem area_of_perform {effect : Effect} (hs : s.perform r c before effect = some s') :
    Area r s s' := by
  cases effect with
  | reset | createShare | revokeShare =>
    simp only [AppState.perform] at hs
    obtain ⟨t, _, hs⟩ := Option.bind_eq_some_iff.mp hs
    obtain rfl := Option.some.inj hs
    exact area_goto rfl rfl rfl
  | setPrefs | revokeAllDevices | revokeDevice | upgrade =>
    obtain rfl := Option.some.inj hs
    exact area_goto rfl rfl rfl

theorem area_of_advance (hs : s.advance r written c before = some s') : Area r s s' := by
  rw [AppState.advance] at hs
  split at hs
  · cases hs
  · cases hs
  · cases hs
  · obtain rfl := Option.some.inj hs
    exact area_goto rfl rfl rfl
  · obtain rfl := Option.some.inj hs
    exact area_goto rfl rfl rfl
  · exact area_of_perform hs

end

/-! ## Runs -/

section
variable [Vt100 P] {crypto : Crypto} {s s' : AppState P} {past : List (AppState P × Act)}
  {a : Act} {actor : Actor} {cookie : Option ℕ} {csrf r : ℕ}

theorem isRestart_of_ofLogin {a : Login.Act} (h : ofLogin a = true) : a.isRestart = false := by
  cases a with
  | restart => cases h
  | _ => rfl

/-- A step of a login handler, or of what is around them. -/
theorem loginStep_of_appStep {a : Login.Act} (hs : appStep crypto s (.login a) = some s') :
    a.isRestart = false ∧ Login.loginStep crypto s.login a = some s'.login ∧
      s' = { s with login := s'.login, tarpit := s'.tarpit } ∧
      ∀ r, a.actor = some r →
        s'.tarpit = s.tarpit ∨ s'.tarpit = tarpitAfter crypto s.login s.tarpit r := by
  simp only [appStep] at hs
  split at hs
  next hof =>
    obtain ⟨login, hlogin, hs⟩ := Option.bind_eq_some_iff.mp hs
    obtain rfl := Option.some.inj hs
    refine ⟨isRestart_of_ofLogin hof, hlogin, rfl, fun r hr => ?_⟩
    cases a with
    | step r' written =>
      obtain rfl := Option.some.inj hr
      exact .inr rfl
    | _ => exact .inl rfl
  · cases hs

/-- What is not a step of a login handler leaves them, and their buckets, alone. -/
theorem login_of_appStep (hs : appStep crypto s a = some s') (ha : ∀ a', a ≠ .login a') :
    s'.login.runs = s.login.runs ∧ s'.login.buckets = s.login.buckets := by
  cases a with
  | login a => exact absurd rfl (ha a)
  | step r written c before =>
    have harea := area_of_advance hs
    exact ⟨harea.runs, harea.buckets⟩
  | arrive r req | abandon r =>
    simp only [appStep] at hs
    split at hs <;> cases hs <;> exact ⟨rfl, rfl⟩
  | sharing a | terminals a =>
    simp only [appStep] at hs
    split at hs
    · obtain ⟨t, _, hs⟩ := Option.bind_eq_some_iff.mp hs
      obtain rfl := Option.some.inj hs
      exact ⟨rfl, rfl⟩
    · cases hs

/-- What is not a step of a handler of the private area leaves it alone. -/
theorem area_of_appStep (hs : appStep crypto s a = some s') (ha : a.actor ≠ some (.area r)) :
    s'.area r = s.area r := by
  cases a with
  | login a =>
    obtain ⟨_, _, hsame, _⟩ := loginStep_of_appStep hs
    rw [hsame]
  | step r' written c before =>
    have hne : r ≠ r' := fun heq => ha (by rw [heq]; rfl)
    exact (area_of_advance hs).others r hne
  | arrive r' req | abandon r' =>
    have hne : r ≠ r' := fun heq => ha (by rw [heq]; rfl)
    simp only [appStep] at hs
    split at hs <;> cases hs <;> exact Function.update_of_ne hne ..
  | sharing a | terminals a =>
    simp only [appStep] at hs
    split at hs
    · obtain ⟨t, _, hs⟩ := Option.bind_eq_some_iff.mp hs
      obtain rfl := Option.some.inj hs
      rfl
    · cases hs

/-- A login handler that has not begun holds no bucket. -/
theorem unheld_of_trace (h : (appSystem P crypto).Trace past s) :
    ∀ r, s.login.runs r = .idle → Unheld s.login r := by
  refine h.invariant (I := fun _ s => ∀ r, s.login.runs r = .idle → Unheld s.login r)
    (fun s hinit r _ b hb => ?_) fun past s a s' _ ih hs r hidle => ?_
  · rw [hinit.2.1 b] at hb
    cases hb
  · by_cases hlogin : ∃ a', a = .login a'
    · obtain ⟨a, rfl⟩ := hlogin
      obtain ⟨ha, hstep, _⟩ := loginStep_of_appStep hs
      obtain ⟨r', _, hof⟩ | ⟨_, hruns, hbuckets⟩ := loginStep_cases ha hstep
      · have hne : r ≠ r' := by
          rintro rfl
          exact hof.begun hidle
        rw [hof.runs r hne] at hidle
        exact fun b hb => ih r hidle b (hof.buckets b r hne hb)
      · rw [hruns] at hidle
        exact fun b hb => ih r hidle b (hbuckets ▸ hb)
    · obtain ⟨hruns, hbuckets⟩ := login_of_appStep hs fun a' heq => hlogin ⟨a', heq⟩
      rw [hruns] at hidle
      exact fun b hb => ih r hidle b (hbuckets ▸ hb)

/-- A handler whose check has not succeeded. -/
def Waiting (cookie : Option ℕ) (csrf : ℕ) (s : AppState P) : Actor → Prop
  | .login r => Turned cookie csrf (s.login.runs r) ∧ Unheld s.login r
  | .area r => Outside cookie csrf (s.area r)

/-- A request arrives at a handler that has not done anything. -/
theorem waiting_of_sends (htrace : (appSystem P crypto).Trace past s)
    (hsends : Sends actor cookie csrf (s, a)) (hs : appStep crypto s a = some s') :
    Waiting cookie csrf s' actor := by
  cases hsends with
  | @login _ r _ req hcsrf =>
    obtain ⟨_, hstep, _⟩ := loginStep_of_appStep hs
    simp only [Login.loginStep] at hstep
    split at hstep
    next hidle =>
      rw [Option.some.injEq] at hstep
      refine ⟨?_, ?_⟩
      · rw [← hstep, Login.goto_runs_self]
        exact .arrived rfl hcsrf
      · rw [← hstep]
        exact unheld_of_trace htrace r hidle
    · cases hstep
  | @area _ r req =>
    simp only [appStep] at hs
    split at hs <;> cases hs
    show Outside _ _ ((s.goto r (.arrived req)).area r)
    rw [area_goto_self]
    exact .arrived rfl rfl

/-- The step of a login handler whose check has not succeeded. -/
theorem waiting_login {a : Login.Act} (h : Waiting cookie csrf s (.login r))
    (hactor : a.actor = some r) (hno : ¬ Passes cookie csrf (.login r) (s, .login a))
    (hs : appStep crypto s (.login a) = some s') :
    Waiting cookie csrf s' (.login r) ∧ Untouched cookie s s' := by
  obtain ⟨hturned, hunheld⟩ := h
  obtain ⟨_, hstep, hsame, htarpit⟩ := loginStep_of_appStep hs
  have hpass : ∀ written, a = .step r written →
      ¬ (checks (s.login.runs r) = true ∧ Accepts s.login cookie csrf) := by
    rintro written rfl ⟨hchecks, haccepts⟩
    exact hno (.login hchecks haccepts)
  obtain ⟨hturned', hlooked, hlogin⟩ := turned_of_loginStep hturned hunheld hactor hpass hstep
  have htarpit : s'.tarpit = s.tarpit := by
    obtain heq | heq := htarpit r hactor
    · exact heq
    · rw [heq, tarpitAfter_eq hturned]
  refine ⟨⟨hturned', ?_⟩, hlooked, ?_⟩
  · rw [hlogin]
    exact hunheld
  · rw [htarpit] at hsame
    rw [← hlogin]
    exact hsame.trans (by rw [hsame])

/-- Only the handler's own check takes it further. -/
theorem waiting_of_step (h : Waiting cookie csrf s actor)
    (hno : ¬ Passes cookie csrf actor (s, a)) (hs : appStep crypto s a = some s') :
    Waiting cookie csrf s' actor ∧ (a.actor = some actor → Untouched cookie s s') := by
  cases actor with
  | login r =>
    by_cases hactor : a.actor = some (.login r)
    · cases a with
      | login a =>
        have hr : a.actor = some r := by
          obtain ⟨r', hr', heq⟩ := Option.map_eq_some_iff.mp hactor
          cases heq
          exact hr'
        exact (waiting_login h hr hno hs).imp_right fun huntouched _ => huntouched
      | _ => cases hactor
    · refine ⟨?_, fun hown => absurd hown hactor⟩
      by_cases hlogin : ∃ a', a = .login a'
      · obtain ⟨a, rfl⟩ := hlogin
        obtain ⟨ha, hstep, _⟩ := loginStep_of_appStep hs
        have hr : a.actor ≠ some r := by
          intro hr
          exact hactor (congrArg (Option.map Actor.login) hr)
        obtain ⟨hunheld, hruns⟩ := Unheld.step h.2 ha hr hstep
        exact ⟨by rw [hruns]; exact h.1, hunheld⟩
      · obtain ⟨hruns, hbuckets⟩ := login_of_appStep hs fun a' heq => hlogin ⟨a', heq⟩
        exact ⟨by rw [hruns]; exact h.1, fun b hb => h.2 b (hbuckets ▸ hb)⟩
  | area r =>
    by_cases hactor : a.actor = some (.area r)
    · cases a with
      | login a =>
        obtain ⟨r', _, heq⟩ := Option.map_eq_some_iff.mp hactor
        cases heq
      | step r' written c before =>
        obtain rfl : r' = r := by
          cases hactor
          rfl
        refine (outside_of_advance h (fun req hpc haccepts => hno ?_) hs).imp_right
          fun huntouched _ => huntouched
        exact .area hpc haccepts
      | arrive r' req =>
        obtain rfl : r' = r := by
          cases hactor
          rfl
        simp only [appStep] at hs
        split at hs
        next hpc =>
          -- the handler has arrived already
          rw [Waiting, hpc] at h
          cases h
        · cases hs
      | abandon r' =>
        obtain rfl : r' = r := by
          cases hactor
          rfl
        simp only [appStep] at hs
        split at hs <;> cases hs
        all_goals
          refine ⟨?_, fun _ => ⟨.kept, rfl⟩⟩
          rw [Waiting, area_goto_self]
          exact .dropped
      | sharing | terminals => cases hactor
    · refine ⟨?_, fun hown => absurd hown hactor⟩
      rw [Waiting, area_of_appStep hs hactor]
      exact h

theorem waiting_of_trace (h : (appSystem P crypto).Trace past s)
    (hsends : ∃ e ∈ past, Sends actor cookie csrf e)
    (hno : ∀ e ∈ past, ¬ Passes cookie csrf actor e) : Waiting cookie csrf s actor := by
  obtain ⟨⟨t, b⟩, he, hsends⟩ := hsends
  obtain ⟨before, after, rfl⟩ := List.append_of_mem he
  have hafter : ∀ e ∈ after, ¬ Passes cookie csrf actor e := fun e hmem =>
    hno e (List.mem_append_right _ (List.mem_cons_of_mem _ hmem))
  refine h.after (I := fun mid s => (∀ e ∈ mid, ¬ Passes cookie csrf actor e) →
    Waiting cookie csrf s actor) (fun s htrace hs _ => waiting_of_sends htrace hsends hs)
    (fun mid s a s' _ ih hs hmid => ?_) hafter
  have hbefore := ih fun e hmem => hmid e (List.mem_append_left _ hmem)
  have hlast := hmid (s, a) (List.mem_append_right _ (List.mem_singleton_self _))
  exact (waiting_of_step hbefore hlast hs).1

variable (P crypto) in
/-- In every run, from any contents of the stores, a handler whose request has to carry the CSRF
token of its session leaves every store as it was, but for an expired session, unless its check
succeeds. -/
theorem nothing_without_csrf (h : (appSystem P crypto).Trace past s)
    (hsends : ∃ e ∈ past, Sends actor cookie csrf e)
    (hno : ∀ e ∈ past ++ [(s, a)], ¬ Passes cookie csrf actor e)
    (hs : (appSystem P crypto).step s a = some s') (hactor : a.actor = some actor) :
    Untouched cookie s s' := by
  have hwaiting := waiting_of_trace h hsends fun e he => hno e (List.mem_append_left _ he)
  have hlast := hno (s, a) (List.mem_append_right _ (List.mem_singleton_self _))
  exact (waiting_of_step hwaiting hlast hs).2 hactor

end

end

/-! ## A reset with the token of another session -/

namespace Sample

open Login.Sample Text.Ascii

/-- Nothing but the login server has any contents. -/
def appStarted : AppState Unit where
  settings := ⟨true, 3600, [], false⟩
  login := started
  tarpit _ := none
  sharing := Share.emptySharing 0
  terminals := Terminals.newTerminals Unit 4 64
  prefs := ∅
  sockets := []
  area _ := .idle

/-- Alice logs in, which gives her a session with the id 2 and the token 3, and is let in with a
request that still has the token 1. -/
def staleRun : List Act :=
  loginRun.map .login ++ [.arrive 0 ⟨some 2, false, 1, .resetTerminal 0⟩, .step 0 true 0 0]

/-- The session under the id 2 does not have the token 1. -/
def refuses (e : AppState Unit × Act) : Bool :=
  (e.1.login.currentSession (some 2) true).1.all fun found => found.2.csrf != 1

/-- The request of the stale page arrives. -/
def staleArrival (e : AppState Unit × Act) : Bool :=
  match e.2 with
  | .arrive 0 req => req.cookie = some 2 && req.csrf = 1
  | _ => false

theorem sends_of_staleArrival {e : AppState Unit × Act} (h : staleArrival e = true) :
    Sends (.area 0) (some 2) 1 e := by
  obtain ⟨s, a⟩ := e
  simp only [staleArrival] at h
  split at h
  next req =>
    rw [Bool.and_eq_true, decide_eq_true_eq, decide_eq_true_eq] at h
    rw [← h.1, ← h.2]
    exact .area
  · cases h

def answered (response : Response) (s : AppState Unit) : Bool :=
  match s.area 0 with
  | .ended r => r = response
  | _ => false

theorem not_passes_of_refuses {e : AppState Unit × Act} {actor : Actor} (h : refuses e = true) :
    ¬ Passes (some 2) 1 actor e := by
  have hno : ¬ Accepts e.1.login (some 2) 1 := by
    rintro ⟨id, session, hfound, hcsrf⟩
    rw [refuses, hfound, Option.all_some, hcsrf] at h
    cases h
  intro hpasses
  cases hpasses with
  | login _ haccepts => exact hno haccepts
  | area _ haccepts => exact hno haccepts

end Sample

open Login.Sample Sample Text.Ascii

theorem nothing_without_csrf_staleRun :
    ∃ past s s', (appSystem Unit crypto).Trace past s ∧
      (appSystem Unit crypto).step s (.step 0 true 0 0) = some s' ∧
      answered invalidCsrf s' = true ∧ Untouched (some 2) s s' := by
  have hrun : (((appSystem Unit crypto).run appStarted staleRun).any fun s =>
      refuses (s, .step 0 true 0 0) &&
        ((appSystem Unit crypto).step s (.step 0 true 0 0)).any (answered invalidCsrf)) = true := by
    decide
  obtain ⟨s, hs, hrest⟩ := (Option.any_eq_true ..).mp hrun
  obtain ⟨hrefuses, hrest⟩ := Bool.and_eq_true_iff.mp hrest
  obtain ⟨s', hs', hanswered⟩ := (Option.any_eq_true ..).mp hrest
  have hinit : (appSystem Unit crypto).init appStarted :=
    ⟨fun _ => rfl, fun _ => rfl, fun _ => rfl⟩
  have hall : (((appSystem Unit crypto).steps appStarted staleRun).all refuses) = true := by decide
  have hany : (((appSystem Unit crypto).steps appStarted staleRun).any staleArrival) = true := by
    decide
  have htrace := (System.Trace.init hinit).run_steps hs
  refine ⟨_, s, s', htrace, hs', hanswered, ?_⟩
  have hsends : ∃ e ∈ (appSystem Unit crypto).steps appStarted staleRun,
      Sends (.area 0) (some 2) 1 e := by
    obtain ⟨e, he, harrival⟩ := List.any_eq_true.mp hany
    exact ⟨e, he, sends_of_staleArrival harrival⟩
  refine nothing_without_csrf Unit crypto htrace hsends (fun e he => ?_) hs' rfl
  obtain he | he := List.mem_append.mp he
  · exact not_passes_of_refuses (List.all_eq_true.mp hall e he)
  · obtain rfl := List.mem_singleton.mp he
    exact not_passes_of_refuses hrefuses

end Webshell.App
