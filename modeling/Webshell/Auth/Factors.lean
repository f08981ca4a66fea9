import Webshell.Auth.Provenance

/-!
# No way around either factor

What a session that is logged in says about the run that led to it, for any requests, in any
interleaving and across restarts, and what becomes of the session that a login started from.

## Main definitions

- `Gone`: an id whose session a login has replaced, in the server run that goes on

## Main results

- `authenticated_only_through_factors`: a session that is logged in was issued, under a fresh id,
  to a handler that was entitled to it, and the ids that logins started from no longer resolve
-/

namespace Webshell.Login

open Transition History
open Text (Lowercase)

section
variable [Lowercase]

def Act.isRestart : Act → Bool
  | .restart .. => true
  | _ => false

/-- A step that replaces the session `old` by another one. -/
def Replaces (old : ℕ) (e : Server × Act) : Prop :=
  ∃ r who id, LogsIn r who old id e ∨ BeginsMfa r who old id e

/-- The session `old` was replaced, and the server has not been restarted since. -/
def Gone (old : ℕ) (past : Past) : Prop :=
  ∃ before e after, past = before ++ e :: after ∧ Replaces old e ∧
    ∀ q ∈ after, q.2.isRestart = false

variable {crypto : Crypto} {past : Past} {s s' : Server} {a : Act} {old id : ℕ}

/-- Within a server run, an id without a session stays without one. -/
theorem lookup_eq_none_of_step (h : Inv crypto past s) (hs : loginStep crypto s a = some s')
    (ha : a.isRestart = false) (hid : id < s.nextToken)
    (hnone : s.sessions.inner.lookup id = none) :
    id < s'.nextToken ∧ s'.sessions.inner.lookup id = none := by
  obtain ⟨r, hok⟩ | henv | ⟨config, enrollment, devices, clock, written, rfl, _⟩ :=
    loginStep_cases h hs
  · exact ⟨hid.trans_le hok.nextToken, hok.absent id hid hnone⟩
  · exact ⟨hid.trans_le (henv.frame 0).nextToken, henv.sessions.absent id hnone⟩
  · cases ha

/-- The session a login started from is gone with the step. -/
theorem lookup_replaced (h : Inv crypto past s) (hs : loginStep crypto s a = some s')
    (hreplaces : Replaces old (s, a)) :
    old < s'.nextToken ∧ s'.sessions.inner.lookup old = none := by
  obtain ⟨r, who, id, hlogs | hbegins⟩ := hreplaces
  · cases hlogs with
    | @direct _ written c hpc hold _ _ =>
      have hrun := h.runs r
      rw [hpc] at hrun
      simp only [Login.loginStep, Server.advance, hpc, Option.some.injEq] at hs
      subst hs hold
      exact ⟨hrun.1.id.trans_le (Nat.le_add_right _ 2),
        SessionStore.lookup_promote_old hrun.1.id.ne⟩
    | @code _ written c hpc hold _ _ =>
      have hrun := h.runs r
      rw [hpc] at hrun
      simp only [Login.loginStep, Server.advance, hpc, Option.some.injEq, Server.mfaLogin] at hs
      subst hold
      split at hs <;> subst hs
      · exact ⟨hrun.1.id.trans_le (Nat.le_add_right _ 2),
          SessionStore.lookup_promote_old hrun.1.id.ne⟩
      · exact ⟨hrun.1.id.trans_le (Nat.le_add_right _ 2),
          SessionStore.lookup_promote_old hrun.1.id.ne⟩
  · cases hbegins with
    | @mk _ written c hpc hold _ _ =>
      have hrun := h.runs r
      rw [hpc] at hrun
      simp only [Login.loginStep, Server.advance, hpc, Option.some.injEq] at hs
      subst hs hold
      exact ⟨hrun.id.trans_le (Nat.le_add_right _ 2), SessionStore.lookup_promote_old hrun.id.ne⟩

/-- What a login replaced stays gone until the server is restarted. -/
theorem lookup_gone (h : (loginSystem crypto).Trace past s) (hgone : Gone old past) :
    old < s.nextToken ∧ s.sessions.inner.lookup old = none := by
  obtain ⟨before, e, after, rfl, hreplaces, hafter⟩ := hgone
  refine h.after (I := fun after s => (∀ q ∈ after, q.2.isRestart = false) →
    old < s.nextToken ∧ s.sessions.inner.lookup old = none) (fun s' htrace hs _ => ?_)
    (fun mid t a t' htrace ih hs hmid => ?_) hafter
  · exact lookup_replaced (inv_of_trace htrace) hs hreplaces
  · obtain ⟨hid, hnone⟩ := ih fun q hq => hmid q (List.mem_append_left _ hq)
    have hrestart := hmid (t, a) (List.mem_append_right _ (List.mem_singleton_self _))
    exact lookup_eq_none_of_step (inv_of_trace htrace) hs hrestart hid hnone

variable (crypto) in
/-- Every session that is logged in was issued, under an id no session had had, to a handler that
was entitled to it; and the ids that such handlers started from no longer resolve in the server run
in which they did. -/
theorem authenticated_only_through_factors (h : (loginSystem crypto).Trace past s) :
    (∀ id x, s.sessions.inner.lookup id = some x → x.authenticated = true →
      ∃ who : Identity, x.username = who.display ∧ LoggedIn crypto who id past) ∧
    ∀ old, Gone old past → s.sessions.inner.lookup old = none := by
  refine ⟨fun id x hx hauth => ?_, fun old hgone => (lookup_gone h hgone).2⟩
  have hknown : s.sessions.Known id x.credential := .inl ⟨x, hx, rfl⟩
  exact ((inv_of_trace h).known id _ hknown).2.authenticated hauth

end

/-! ## A login -/

namespace Sample

open Text.Ascii

/-- No password in the sample is hashed. -/
def crypto : Crypto := ⟨Totp.sampleHmac, ⟨fun _ _ => none, fun _ _ => none⟩⟩

def alice : Identity := .new .local "alice".toList

def bob : Identity := .new .local "bob".toList

/-- One local user who logs in with a password alone; sessions outlive the process. -/
def config (user : Identity) : Config where
  users := [user]
  loginMethods := [.local]
  localPasswords := [(user.display, "hunter2".toList)]
  mfaRequired := false
  googleClientId := none
  googleClientSecret := none
  rememberDevice := false
  rememberDeviceWindow := fromSecs (30 * 24 * 3600)
  maxDevicesPerIdentity := 10
  publicBaseUrl := none
  sessionTtl := fromSecs (8 * 3600)
  sessionPath := some "sessions.toml".toList

def clock : Clock := ⟨0, 1767225600⟩

def started : Server := .start (config alice) ∅ ∅ clock true (fun _ => ∅) 0 fun _ => .idle

/-- The login page gives a session with the id 0 and the CSRF token 1; the form that carries them
logs in under the id 2. -/
def loginRun : List Act :=
  [.arrive 0 (.loginPage none), .step 0 true, .step 0 true, .step 0 true, .step 0 true,
    .arrive 1 (.localLogin ⟨some 0, none, 1, "alice".toList, "hunter2".toList⟩), .step 1 true,
    .step 1 true, .step 1 true, .step 1 true]

/-- Codes are asked for, and browsers may be remembered. -/
def mfaConfig : Config := { config alice with mfaRequired := true, rememberDevice := true }

def mfaStarted : Server := .start mfaConfig ∅ ∅ clock true (fun _ => ∅) 0 fun _ => .idle

/-- A code of the current step with the seed that it proves, for the session that waits for one
under the id 2. -/
def rightForm : MfaForm := ⟨some 2, 3, "745690".toList, some Totp.sampleSeed, none⟩

/-- Alice enrolls with her first code. With the next one she has her browser remembered, and comes
back with it. Her sessions are those under the ids 4, 10 and 16. -/
def factorsRun : List Act :=
  loginRun ++ .arrive 2 (.mfaSubmit rightForm) :: .replicate 10 (.step 2 true) ++
    .arrive 3 (.loginPage none) :: .replicate 4 (.step 3 true) ++
    .arrive 4 (.localLogin ⟨some 6, none, 7, "alice".toList, "hunter2".toList⟩) ::
      .replicate 4 (.step 4 true) ++
    .arrive 5 (.mfaSubmit ⟨some 8, 9, "119644".toList, none, some "on".toList⟩) ::
      .replicate 10 (.step 5 true) ++
    .arrive 6 (.loginPage none) :: .replicate 4 (.step 6 true) ++
    .arrive 7 (.localLogin ⟨some 14, some 12, 15, "alice".toList, "hunter2".toList⟩) ::
      .replicate 6 (.step 7 true)

/-- The session under an id is logged in. -/
def loggedIn (s : Server) (id : ℕ) : Bool := (s.sessions.inner.lookup id).any (·.authenticated)

end Sample

open Sample Text.Ascii in
/-- By a password and an enrolling code, by a password and a code, and by a password and a trusted
device. -/
theorem authenticated_only_through_factors_factorsRun :
    ∃ past s, (loginSystem crypto).Trace past s ∧
      (∀ id ∈ [4, 10, 16], ∃ x, s.sessions.inner.lookup id = some x ∧
        ∃ who : Identity, x.username = who.display ∧ LoggedIn crypto who id past) ∧
      ∀ old, Gone old past → s.sessions.inner.lookup old = none := by
  have hin : ((loginSystem crypto).run mfaStarted factorsRun).any (fun s =>
      [4, 10, 16].all (loggedIn s)) = true := by decide
  obtain ⟨s, hrun, hall⟩ := (Option.any_eq_true ..).mp hin
  have hinit : (loginSystem crypto).init mfaStarted := ⟨_, _, _, _, _, rfl⟩
  obtain ⟨past, htrace⟩ := (System.Trace.init hinit).run hrun
  obtain ⟨hlogged, hgone⟩ := authenticated_only_through_factors crypto htrace
  refine ⟨past, s, htrace, fun id hid => ?_, hgone⟩
  obtain ⟨x, hx, hauth⟩ := (Option.any_eq_true ..).mp (List.all_eq_true.mp hall id hid)
  exact ⟨x, hx, hlogged id x hx hauth⟩

end Webshell.Login
