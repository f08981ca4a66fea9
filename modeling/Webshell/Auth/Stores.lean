import Webshell.Auth.Factors

/-!
# What a step leaves of the stores

The steps that a handler takes by itself, store by store. Which step a handler takes is decided by
where it stands, so each store afterwards is a function of that.

## Main definitions

- `Server.sessionsAfter`, `Server.enrollmentAfter`, `Server.otpUsedAfter`, `Server.strikesAfter`:
  the stores that a handler's step leaves

## Main results

- `stores_of_advance`: a step leaves these, and the clock as it was
- `stores_of_step`: what no handler does by itself leaves the stores as they were, unless it sweeps
  the sessions
-/

namespace Webshell.Login

open Text (Lowercase)

variable [Lowercase]

namespace Server

/-- The sessions that a handler's step leaves. -/
def sessionsAfter (s : Server) (written : Bool) : Pc → SessionStore
  | .arrived req => (s.currentSession (req.looksUp s.config) written).2
  | .render cookie | .ensureSession cookie => (s.currentSession cookie written).2
  | .logout form => (s.currentSession form.cookie written).2
  | .createSession => s.sessions.create s.nextToken s.clock
  | .startOauth id => s.sessions.setOauth id (some (.new s.nextToken)) s.clock written
  | .clearOauth id _ _ => s.sessions.setOauth id none s.clock written
  | .login c => s.sessions.login c.id s.nextToken c.who.display s.clock written
  | .beginMfa c => s.sessions.beginMfa c.id s.nextToken c.who.display s.clock written
  | .mfaLogin c => s.sessions.login c.id s.nextToken c.username s.clock written
  | .lockedOut id | .removeSession id _ => s.sessions.remove id s.clock written
  | _ => s.sessions

/-- The enrollments that a handler's step leaves. -/
def enrollmentAfter (s : Server) (written : Bool) : Pc → EnrollmentStore
  | .pinSubject c sub => (s.enrollment.pinSubject c.who sub written).2
  | .enroll c => (s.enrollment.enroll c.identity c.secret s.clock.unix written).2
  | _ => s.enrollment

/-- The replay guards that a handler's step leaves. -/
def otpUsedAfter (s : Server) : Pc → Table Text Totp.Recent
  | .acceptCode c =>
    s.otpUsed.insert c.username
      (Totp.acceptAt ((s.otpUsed.lookup c.username).getD []) c.otp s.clock.unix).2
  | _ => s.otpUsed

/-- The strikes that a handler's step leaves. -/
def strikesAfter (s : Server) : Pc → Table Text MfaStrikes
  | .strike m => (mfaFailed s.strikes m.username s.clock.instant).2
  | .clearStrikes c => mfaSucceeded s.strikes c.username
  | _ => s.strikes

end Server

/-- The stores after a step that a handler takes where it stands at `pc`. -/
structure Leaves (written : Bool) (pc : Pc) (s s' : Server) : Prop where
  sessions : s'.sessions = s.sessionsAfter written pc
  enrollment : s'.enrollment = s.enrollmentAfter written pc
  otpUsed : s'.otpUsed = s.otpUsedAfter pc
  strikes : s'.strikes = s.strikesAfter pc
  clock : s'.clock = s.clock

section
variable {crypto : Crypto} {s s' : Server} {a : Act}

theorem stores_of_advance {r : ℕ} {written : Bool} (hs : s.advance crypto r written = some s') :
    Leaves written (s.runs r) s s' := by
  cases hpc : s.runs r <;> simp only [Server.advance, hpc] at hs
  case idle | ended | exchange => cases hs
  case enterUnlisted | enterLocal | enterMfa =>
    rw [Server.enter] at hs
    split at hs <;> cases hs
    exact ⟨rfl, rfl, rfl, rfl, rfl⟩
  case clearOauth | readEnrolled | removeSession | checkLock =>
    split at hs <;> cases hs <;> exact ⟨rfl, rfl, rfl, rfl, rfl⟩
  all_goals obtain rfl := Option.some.inj hs
  case verifyPassword c password =>
    simp only [Server.verifyPassword, Server.firstFactor]
    repeat' split
    all_goals exact ⟨rfl, rfl, rfl, rfl, rfl⟩
  case pinSubject c sub =>
    simp only [Server.pinSubject, Server.firstFactor]
    repeat' split
    all_goals exact ⟨rfl, rfl, rfl, rfl, rfl⟩
  case readTrust c token =>
    rw [Server.readTrust]
    split <;> exact ⟨rfl, rfl, rfl, rfl, rfl⟩
  case authorize c token enrolledAt =>
    simp only [Server.authorize]
    split <;> exact ⟨rfl, rfl, rfl, rfl, rfl⟩
  case verifyCode c =>
    rw [Server.verifyCode]
    split <;> exact ⟨rfl, rfl, rfl, rfl, rfl⟩
  case acceptCode c =>
    simp only [Server.acceptCode]
    repeat' split
    all_goals exact ⟨rfl, rfl, rfl, rfl, rfl⟩
  case strike m =>
    simp only [Server.strike]
    split <;> exact ⟨rfl, rfl, rfl, rfl, rfl⟩
  case enroll c => cases written <;> exact ⟨rfl, rfl, rfl, rfl, rfl⟩
  case mfaLogin c =>
    simp only [Server.mfaLogin]
    split <;> exact ⟨rfl, rfl, rfl, rfl, rfl⟩
  all_goals exact ⟨rfl, rfl, rfl, rfl, rfl⟩

theorem stores_of_step (hs : loginStep crypto s a = some s') (ha : a.isRestart = false)
    (hnot : ∀ r written, a ≠ .step r written) :
    s'.otpUsed = s.otpUsed ∧ s'.enrollment = s.enrollment ∧
      (s'.sessions = s.sessions ∨
        ∃ written, a = .sweep written ∧ s'.sessions = s.sessions.sweep s.clock written) := by
  cases a with
  | step r written => exact absurd rfl (hnot r written)
  | restart => cases ha
  | arrive r req | abandon r | tick clock =>
    simp only [loginStep] at hs
    split at hs <;> cases hs
    exact ⟨rfl, rfl, .inl rfl⟩
  | answer r claims =>
    simp only [loginStep] at hs
    split at hs <;> cases hs
    rw [Server.exchanged]
    repeat' split
    all_goals exact ⟨rfl, rfl, .inl rfl⟩
  | sweep written =>
    obtain rfl := Option.some.inj hs
    exact ⟨rfl, rfl, .inr ⟨written, rfl, rfl⟩⟩
  | sweepDevices | revokeDevice =>
    obtain rfl := Option.some.inj hs
    exact ⟨rfl, rfl, .inl rfl⟩

end

end Webshell.Login
