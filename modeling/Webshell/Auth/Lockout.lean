import Webshell.Auth.Stores

/-!
# Wrong codes and the lock

Codes that are submitted for one identity, in any interleaving of their handlers. A handler looks
at the lock while it holds the bucket of the identity, and gives the bucket back before it reports
what the code was worth; in between, the next handler finds the lock as it was before. Where nobody
looks at the lock in between, the handlers that deal with the codes of an identity come one after
the other.

## Main definitions

- `evaluates`, `wrongCodes`: the codes evaluated for an identity, and how many were wrong in a row
- `StopsAtLock`: no code is evaluated before the lockout of a wrong one has run out
- `LooksAfterReports`: nobody looks at the lock while a report is outstanding
- `Counts`: a step that keeps the count of `mfa_failed` and that of the codes together
- `Moves`: the steps of a handler that deals with a code
- `Tally`: the strikes against the wrong codes

## Main results

- `stops_at_lock`: wrong codes stop at the lock in every run of such steps
- `code_evaluated_before_report`: they do not in every run
-/

namespace Webshell.Login

open Transition History
open Text (Lowercase)

section
variable [Lowercase]

/-! ## Codes that are evaluated -/

section
variable (crypto : Crypto) (who : Identity)

/-- What `totp::verify` says of the code that a step evaluates for the identity. -/
def evaluates (e : Server × Act) : Option Bool :=
  match e.2 with
  | .step r _ =>
    match e.1.runs r with
    | .verifyCode c =>
      if c.identity = who ∧ Totp.validSeed c.secret = true then
        some (Totp.verify crypto.hmacSha1 c.secret c.otp e.1.clock.unix)
      else none
    | _ => none
  | _ => none

/-- The count of wrong codes after one more step. A restart begins a new server run. -/
def countCode (n : ℕ) (e : Server × Act) : ℕ :=
  if e.2.isRestart then 0
  else
    match evaluates crypto who e with
    | some true => 0
    | some false => n + 1
    | none => n

/-- The wrong codes evaluated since the last right one. -/
def wrongCodes (past : Past) : ℕ := past.foldl (countCode crypto who) 0

/-- Handler `r` reports a wrong code, and `mfa_failed` computes the lockout. -/
inductive Strikes (r : ℕ) (lockout : Option ℕ) : Server × Act → Prop
  | mk {s written m} :
      s.runs r = .strike m → m.identity = who →
      (mfaFailed s.strikes m.username s.clock.instant).1 = lockout →
      Strikes r lockout (s, .step r written)

end

/-! ## Where a handler stands between its look at the lock and its report -/

/-- The identity that a handler is about to report on, no longer holding the bucket. -/
def Pc.reportsOn : Pc → Option Identity
  | .strike m => some m.identity
  | .clearStrikes c => some c.identity
  | _ => none

/-- The identity for which a handler has found no lock, and on which it has not reported. -/
def Pc.unreported : Pc → Option Identity
  | .readRecord m => some m.identity
  | .verifyCode c | .acceptCode c | .enroll c | .revokeDevices c => some c.identity
  | pc => pc.reportsOn

/-- Nobody looks at the lock of an identity while another handler is about to report on it. -/
def LooksAfterReports (s : Server) : Act → Prop
  | .step r _ => ∀ m, s.runs r = .checkLock m → ∀ r', (s.runs r').reportsOn ≠ some m.identity
  | _ => True

/-! ## What counts -/

/-- The step keeps the count of `mfa_failed` and that of the codes together: no secret that is none
is tried, no strikes are left standing by a right code that is not accepted or not saved, and no
strikes are forgotten because they are old. -/
def Counts (who : Identity) : Server × Act → Prop
  | (s, .step r written) =>
    match s.runs r with
    | .verifyCode c => c.identity = who → Totp.validSeed c.secret = true
    | .acceptCode c => c.identity = who → s.strikes.lookup c.username = none ∨
      (Totp.acceptAt ((s.otpUsed.lookup c.username).getD []) c.otp s.clock.unix).1 = true
    | .enroll c => c.identity = who → s.strikes.lookup c.username = none ∨ written = true
    | .strike m => m.identity = who → ∀ x, s.strikes.lookup m.username = some x →
      s.clock.instant - x.last ≤ mfaStrikeMemory
    | _ => True
  | _ => True

/-- Once the wrong codes of the identity reach a multiple of `mfaMaxStrikes`, no code is evaluated
for it before the handler of the last one has reported it, and before the lockout that is computed
then has run out. -/
def StopsAtLock (crypto : Crypto) (who : Identity) : Past → Prop :=
  Each fun before e => (evaluates crypto who e).isSome = true →
    ∀ pre s r written mid, before = pre ++ (s, .step r written) :: mid →
      evaluates crypto who (s, .step r written) = some false →
      mfaMaxStrikes ∣ wrongCodes crypto who (pre ++ [(s, .step r written)]) →
      (∀ q ∈ mid, q.2.isRestart = false) →
      ∃ left, ∃ k ∈ mid, Strikes who r (some left) k ∧
        k.1.clock.instant + left ≤ e.1.clock.instant

/-! ## The steps of a handler that deals with a code -/

section
variable {crypto : Crypto} {past : Past} {s s' : Server} {a : Act} {r : ℕ} {who : Identity}

variable (crypto s s') in
/-- Where a step takes a handler, as far as its dealing with a code is concerned. -/
inductive Moves (written : Bool) : Pc → Pc → Prop
  | look {m} :
      mfaLocked s.strikes m.username s.clock.instant = none →
      Moves written (.checkLock m) (.readRecord m)
  | read {m c} : c.toMfaAttempt = m → Moves written (.readRecord m) (.verifyCode c)
  | right {c} :
      Totp.verify crypto.hmacSha1 c.secret c.otp s.clock.unix = true →
      Moves written (.verifyCode c) (.acceptCode c)
  | wrong {c} :
      ¬ (Totp.validSeed c.secret &&
        Totp.verify crypto.hmacSha1 c.secret c.otp s.clock.unix) = true →
      Moves written (.verifyCode c) (.strike c.toMfaAttempt)
  | enroll {c} : Moves written (.acceptCode c) (.enroll c)
  | accept {c} : Moves written (.acceptCode c) (.clearStrikes c)
  | replay {c} :
      (Totp.acceptAt ((s.otpUsed.lookup c.username).getD []) c.otp s.clock.unix).1 = false →
      Moves written (.acceptCode c) .ended
  | enrolled {c} : s'.buckets = s.buckets → Moves written (.enroll c) (.revokeDevices c)
  | unwritten {c} : written = false → Moves written (.enroll c) .ended
  | revoked {c} : Moves written (.revokeDevices c) (.clearStrikes c)
  | struck {m pc} : pc.unreported = none → Moves written (.strike m) pc
  | cleared {c} : Moves written (.clearStrikes c) (.mfaLogin c)
  | other {pc pc'} : pc.unreported = none → pc'.unreported = none → Moves written pc pc'

theorem unreported_handle (config : Config) (current : Option (ℕ × Session)) (req : Request) :
    (req.handle config current).unreported = none := by
  cases req with
  | loginPage cookie =>
    simp only [Request.handle, loginPage]
    split <;> try split
    all_goals rfl
  | localLogin form =>
    simp only [Request.handle, localLogin]
    repeat' split
    all_goals rfl
  | oauthStart form =>
    simp only [Request.handle, oauthStart]
    repeat' split
    all_goals rfl
  | oauthCallback query =>
    simp only [Request.handle, oauthCallback]
    repeat' split
    all_goals rfl
  | mfaSubmit form =>
    simp only [Request.handle, mfaSubmit]
    repeat' split
    all_goals rfl
  | mfaCancel form =>
    simp only [Request.handle, mfaCancel]
    repeat' split
    all_goals rfl
  | logout form =>
    simp only [Request.handle, requireAuth]
    split <;> rfl
  | privatePage cookie =>
    simp only [Request.handle, requireAuth]
    split <;> rfl

/-- A handler that has not come to a code yet, or has reported on it. -/
theorem moves_goto {t : Server} {pc pc' : Pc} {written : Bool} (h : pc.unreported = none)
    (h' : pc'.unreported = none) :
    Moves crypto s s' written pc ((t.goto r pc').runs r) := by
  rw [goto_runs_self]
  exact .other h h'

theorem moves_enter {bucket : Text} {pc pc' : Pc} {written : Bool}
    (hs : s.enter r bucket pc' = some s') (h : pc.unreported = none)
    (h' : pc'.unreported = none) : Moves crypto s s' written pc (s'.runs r) := by
  rw [Server.enter] at hs
  split at hs
  · obtain rfl := Option.some.inj hs
    exact moves_goto h h'
  · cases hs

theorem moves_firstFactor {t : Server} {pc : Pc} {written : Bool} (c : Candidate)
    (h : pc.unreported = none) :
    Moves crypto s s' written pc ((t.firstFactor r c).runs r) := by
  rw [Server.firstFactor]
  repeat' split
  all_goals exact moves_goto h rfl

theorem moves_of_advance {written : Bool} (hs : s.advance crypto r written = some s') :
    Moves crypto s s' written (s.runs r) (s'.runs r) := by
  cases hpc : s.runs r <;> simp only [Server.advance, hpc] at hs
  case idle | ended | exchange => cases hs
  case enterUnlisted | enterLocal | enterMfa => exact moves_enter hs rfl rfl
  case clearOauth | readEnrolled | removeSession =>
    split at hs <;> obtain rfl := Option.some.inj hs
    · exact moves_goto rfl rfl
    · exact moves_goto rfl rfl
  case checkLock m =>
    split at hs
    · obtain rfl := Option.some.inj hs
      exact moves_goto rfl rfl
    next hunlocked =>
      obtain rfl := Option.some.inj hs
      rw [goto_runs_self]
      exact .look hunlocked
  all_goals obtain rfl := Option.some.inj hs
  case arrived req =>
    rw [Server.lookUp]
    exact moves_goto rfl (unreported_handle ..)
  case ensureSession cookie =>
    rw [Server.lookUp]
    apply moves_goto rfl
    split <;> rfl
  case logout form =>
    rw [Server.lookUp]
    apply moves_goto rfl
    simp only [logout]
    repeat' split
    all_goals rfl
  case verifyPassword c password =>
    rw [Server.verifyPassword]
    split
    · exact moves_firstFactor c rfl
    · exact moves_goto rfl rfl
  case pinSubject c sub =>
    simp only [Server.pinSubject]
    split
    · exact moves_firstFactor c rfl
    · exact moves_goto rfl rfl
  case readTrust c token =>
    rw [Server.readTrust]
    split <;> exact moves_goto rfl rfl
  case authorize c token enrolledAt =>
    simp only [Server.authorize]
    split <;> exact moves_goto rfl rfl
  case readRecord m =>
    rw [Server.readRecord, goto_runs_self]
    exact .read rfl
  case verifyCode c =>
    rw [Server.verifyCode]
    split
    next hverified =>
      rw [goto_runs_self]
      exact .right (Bool.and_eq_true_iff.mp hverified).2
    next hverified =>
      rw [goto_runs_self]
      exact .wrong hverified
  case acceptCode c =>
    simp only [Server.acceptCode]
    split
    next haccepted =>
      rw [goto_runs_self]
      exact .replay (by simpa using haccepted)
    · split <;> rw [goto_runs_self]
      · exact .enroll
      · exact .accept
  case strike m =>
    simp only [Server.strike]
    split <;> rw [goto_runs_self] <;> exact .struck rfl
  case enroll c =>
    cases written with
    | true =>
      rw [show (s.enroll r c true).runs r = .revokeDevices c from Function.update_self ..]
      exact .enrolled rfl
    | false =>
      rw [show (s.enroll r c false).runs r = .ended from Function.update_self ..]
      exact .unwritten rfl
  case revokeDevices c =>
    rw [goto_runs_self]
    exact .revoked
  case clearStrikes c =>
    rw [goto_runs_self]
    exact .cleared
  case mfaLogin c =>
    simp only [Server.mfaLogin]
    split <;> exact moves_goto rfl rfl
  all_goals exact moves_goto rfl rfl

variable (crypto s s' r) in
/-- A step of handler `r`. -/
structure Stepped (written : Bool) : Prop where
  moves : Moves crypto s s' written (s.runs r) (s'.runs r)
  others : ∀ r', r' ≠ r → Frame r' s s'
  strikes : s'.strikes = s.strikesAfter (s.runs r)
  clock : s'.clock = s.clock

variable (s s') in
/-- A step within a server run that no handler takes by itself. -/
structure Quiet : Prop where
  runs : ∀ r, Frame r s s' ∨ ((s.runs r).unreported = none ∧ (s'.runs r).unreported = none)
  strikes : s'.strikes = s.strikes
  clock : s.clock.instant ≤ s'.clock.instant

theorem quiet_goto {t : Server} {pc : Pc} (ha : Apart r s t) (hstrikes : t.strikes = s.strikes)
    (hclock : t.clock = s.clock) (h : (s.runs r).unreported = none)
    (h' : pc.unreported = none) : Quiet s (t.goto r pc) := by
  refine ⟨fun r' => ?_, hstrikes, by rw [← hclock]; rfl⟩
  by_cases hr : r' = r
  · subst hr
    rw [goto_runs_self]
    exact .inr ⟨h, h'⟩
  · exact .inl ((ha.goto pc).frame hr)

theorem quiet_exchanged {id : ℕ} {flow : Oidc.Flow} {clientId : Text} {device : Option ℕ}
    {answer : Option Oidc.Claims} (h : (s.runs r).unreported = none) :
    Quiet s (s.exchanged r id flow clientId device answer) := by
  rw [Server.exchanged]
  repeat' split
  all_goals exact quiet_goto (apart_refl r s) rfl rfl h rfl

theorem quiet_environment (henv : Environment s s') (hclock : s.clock.instant ≤ s'.clock.instant) :
    Quiet s s' :=
  ⟨fun r => .inl (henv.frame r), by rw [henv.same], hclock⟩

/-- What a step within a server run does to the handlers and to the strikes. -/
theorem codes_of_step (h : Inv crypto past s) (hs : loginStep crypto s a = some s')
    (ha : a.isRestart = false) :
    (∃ r written, a = .step r written ∧ Stepped crypto s s' r written) ∨
      (Quiet s s' ∧ ∀ r written, a ≠ .step r written) := by
  cases a with
  | step r written =>
    have hstores := stores_of_advance hs
    exact .inl ⟨r, written, rfl, moves_of_advance hs, (advance_ok h hs).others, hstores.strikes,
      hstores.clock⟩
  | arrive r req =>
    refine .inr ⟨?_, by simp⟩
    simp only [Login.loginStep] at hs
    split at hs <;> cases hs
    next hpc => exact quiet_goto (apart_refl r s) rfl rfl (by rw [hpc]; rfl) rfl
  | answer r claims =>
    refine .inr ⟨?_, by simp⟩
    simp only [Login.loginStep] at hs
    split at hs <;> cases hs
    next hpc => exact quiet_exchanged (by rw [hpc]; rfl)
  | abandon r =>
    refine .inr ⟨?_, by simp⟩
    simp only [Login.loginStep] at hs
    split at hs <;> cases hs
    next hawaits =>
      refine quiet_goto (apart_refl r s).leave rfl rfl ?_ rfl
      cases hpc : s.runs r <;> rw [hpc] at hawaits <;> first | rfl | cases hawaits
  | tick clock =>
    refine .inr ⟨?_, by simp⟩
    simp only [Login.loginStep] at hs
    split at hs <;> cases hs
    next hle => exact quiet_environment ⟨.refl _, rfl⟩ hle
  | sweep written =>
    obtain rfl := Option.some.inj hs
    exact .inr ⟨quiet_environment ⟨SessionStore.keeps_sweep .., rfl⟩ le_rfl, by simp⟩
  | sweepDevices | revokeDevice =>
    obtain rfl := Option.some.inj hs
    exact .inr ⟨quiet_environment ⟨.refl _, rfl⟩ le_rfl, by simp⟩
  | restart => cases ha

/-- No handler outlives a restart. -/
theorem unreported_of_restart (hs : loginStep crypto s a = some s') (ha : a.isRestart = true) :
    (s'.runs r).unreported = none := by
  cases a with
  | restart =>
    obtain rfl := Option.some.inj hs
    show (s.runs r).killed.unreported = none
    cases s.runs r <;> rfl
  | _ => cases ha

/-! ## Who holds the bucket, and whose strikes are written -/

variable (s r) in
/-- What the invariant of the logins leaves out. -/
def ReportOk : Pc → Prop
  | .strike m => m.username = m.identity.display
  | .revokeDevices c => s.buckets (mfaBucket c.identity) = some r
  | _ => True

theorem reportOk_of_unreported {pc : Pc} (h : pc.unreported = none) : ReportOk s r pc := by
  cases pc <;> trivial

theorem ReportOk.frame {pc : Pc} (h : ReportOk s r pc) (hf : Frame r s s') :
    ReportOk s' r pc := by
  cases pc with
  | strike => exact h
  | revokeDevices => exact hf.buckets _ h
  | _ => trivial

theorem reportOk_of_moves {written : Bool} {pc pc' : Pc} (hrun : RunOk crypto past s r pc)
    (hm : Moves crypto s s' written pc pc') : ReportOk s' r pc' := by
  cases hm with
  | wrong => exact hrun.1.username
  | enrolled hbuckets =>
    show s'.buckets _ = some r
    rw [hbuckets]
    exact hrun.2.1.bucket
  | struck hnone => exact reportOk_of_unreported hnone
  | other _ hnone => exact reportOk_of_unreported hnone
  | _ => trivial

theorem reportOk_of_trace (h : (loginSystem crypto).Trace past s) (r : ℕ) :
    ReportOk s r (s.runs r) := by
  induction h with
  | init hinit =>
    obtain ⟨config, enrollment, devices, clock, written, rfl⟩ := hinit
    trivial
  | @step past s s' a htrace hs ih =>
    have hinv := inv_of_trace htrace
    cases ha : a.isRestart with
    | true => exact reportOk_of_unreported (unreported_of_restart hs ha)
    | false =>
      obtain ⟨r', written, _, hstep⟩ | ⟨hquiet, _⟩ := codes_of_step hinv hs ha
      · by_cases hr : r = r'
        · subst hr
          exact reportOk_of_moves (hinv.runs r) hstep.moves
        · have hf := hstep.others r hr
          rw [hf.runs]
          exact ih.frame hf
      · obtain hf | ⟨_, hnone⟩ := hquiet.runs r
        · rw [hf.runs]
          exact ih.frame hf
        · exact reportOk_of_unreported hnone

/-- A handler that has found no lock holds the bucket until it is about to report. -/
theorem bucket_of_unreported (h : Inv crypto past s) (hreport : ReportOk s r (s.runs r))
    (hr : (s.runs r).unreported = some who) :
    (s.runs r).reportsOn = some who ∨ s.buckets (mfaBucket who) = some r := by
  have hrun := h.runs r
  cases hpc : s.runs r <;> rw [hpc] at hrun hreport hr <;> cases hr
  case strike | clearStrikes => exact .inl rfl
  case readRecord => exact .inr hrun.2
  case verifyCode => exact .inr hrun.2.bucket
  case acceptCode | enroll => exact .inr hrun.2.1.bucket
  case revokeDevices => exact .inr hreport

/-- A handler comes to a code only past a lock that it has found open. -/
theorem unreported_of_step (h : Inv crypto past s) (hs : loginStep crypto s a = some s')
    (hr : (s'.runs r).unreported = some who) :
    (s.runs r).unreported = some who ∨ ∃ m written, a = .step r written ∧
      s.runs r = .checkLock m ∧ m.identity = who ∧
      mfaLocked s.strikes m.username s.clock.instant = none := by
  cases ha : a.isRestart with
  | true =>
    rw [unreported_of_restart hs ha] at hr
    cases hr
  | false =>
    obtain ⟨r', written, rfl, hstep⟩ | ⟨hquiet, _⟩ := codes_of_step h hs ha
    · by_cases hne : r = r'
      · subst hne
        have hmoves := hstep.moves
        generalize hpc : s.runs r = pc, s'.runs r = pc' at hmoves hr
        cases hmoves with
        | look hunlocked => exact .inr ⟨_, written, rfl, rfl, Option.some.inj hr, hunlocked⟩
        | read hm =>
          subst hm
          exact .inl hr
        | struck hnone | other _ hnone =>
          rw [hnone] at hr
          cases hr
        | replay | unwritten | cleared => cases hr
        | right | wrong | enroll | accept | enrolled | revoked => exact .inl hr
      · rw [(hstep.others r hne).runs] at hr
        exact .inl hr
    · obtain hf | ⟨_, hnone⟩ := hquiet.runs r
      · rw [hf.runs] at hr
        exact .inl hr
      · rw [hnone] at hr
        cases hr

/-- A handler that has taken no step has come to no code. -/
theorem unreported_of_trace (h : (loginSystem crypto).Trace past s)
    (hr : ∀ e ∈ past, ∀ written, e.2 ≠ .step r written) : (s.runs r).unreported = none := by
  induction h with
  | init hinit =>
    obtain ⟨config, enrollment, devices, clock, written, rfl⟩ := hinit
    rfl
  | @step past s s' a htrace hs ih =>
    have hbefore := ih fun e he => hr e (List.mem_append_left _ he)
    refine Option.eq_none_iff_forall_ne_some.mpr fun who hwho => ?_
    obtain hold | ⟨m, written, ha, _⟩ := unreported_of_step (inv_of_trace htrace) hs hwho
    · cases hbefore.symm.trans hold
    · exact hr (s, a) (List.mem_append_right _ (List.mem_singleton_self _)) written ha

/-! ## One after the other -/

/-- At most one handler deals with a code of an identity. -/
def OneByOne (s : Server) : Prop :=
  ∀ who r r', (s.runs r).unreported = some who → (s.runs r').unreported = some who → r = r'

/-- A handler that looks at the lock after the reports is the only one. -/
theorem alone_at_lock (htrace : (loginSystem crypto).Trace past s) {m : MfaAttempt} {written : Bool}
    (hpc : s.runs r = .checkLock m) (hlook : LooksAfterReports s (.step r written)) {r' : ℕ}
    (hr' : (s.runs r').unreported = some m.identity) : r = r' := by
  have hinv := inv_of_trace htrace
  have hrun := hinv.runs r
  rw [hpc] at hrun
  obtain hreports | hbucket := bucket_of_unreported hinv (reportOk_of_trace htrace r') hr'
  · exact absurd hreports (hlook m hpc r')
  · exact Option.some.inj (hrun.2.symm.trans hbucket)

theorem OneByOne.step (h : OneByOne s) (htrace : (loginSystem crypto).Trace past s)
    (hs : loginStep crypto s a = some s') (hlook : LooksAfterReports s a) : OneByOne s' := by
  intro who r r' hr hr'
  have hinv := inv_of_trace htrace
  obtain hold | ⟨m, written, ha, hpc, rfl, _⟩ := unreported_of_step hinv hs hr
  · obtain hold' | ⟨m, written, ha, hpc, rfl, _⟩ := unreported_of_step hinv hs hr'
    · exact h who r r' hold hold'
    · exact (alone_at_lock htrace hpc (ha ▸ hlook) hold).symm
  · obtain hold' | ⟨m', written', ha', _, _, _⟩ := unreported_of_step hinv hs hr'
    · exact alone_at_lock htrace hpc (ha ▸ hlook) hold'
    · cases ha.symm.trans ha'
      rfl

theorem oneByOne_of_trace (h : (loginSystem crypto).Trace past s)
    (hok : ∀ e ∈ past, LooksAfterReports e.1 e.2) : OneByOne s := by
  induction h with
  | init hinit =>
    obtain ⟨config, enrollment, devices, clock, written, rfl⟩ := hinit
    intro who r r' hr
    cases hr
  | @step past s s' a htrace hs ih =>
    have hpast := ih fun e he => hok e (List.mem_append_left _ he)
    exact hpast.step htrace hs (hok (s, a) (List.mem_append_right _ (List.mem_singleton_self _)))

/-! ## A lockout that holds -/

/-- The lockout of an identity has run out, or is in force with no handler past the lock. -/
def Shut (who : Identity) (deadline : ℕ) (s : Server) : Prop :=
  deadline ≤ s.clock.instant ∨
    ((∃ x, s.strikes.lookup who.display = some x ∧ x.lockedUntil = some deadline) ∧
      ∀ r, (s.runs r).unreported ≠ some who)

/-- Only a handler that reports on an identity writes its strikes. -/
theorem lookup_strikesAfter (h : Inv crypto past s) (hreport : ReportOk s r (s.runs r))
    (hne : (s.runs r).reportsOn ≠ some who) :
    (s.strikesAfter (s.runs r)).lookup who.display = s.strikes.lookup who.display := by
  have hrun := h.runs r
  generalize s.runs r = pc at *
  cases pc with
  | strike m =>
    refine lookup_mfaFailed_of_ne fun heq => hne ?_
    rw [show m.username = m.identity.display from hreport] at heq
    exact congrArg some (Identity.display_injective heq.symm)
  | clearStrikes c =>
    refine lookup_mfaSucceeded_of_ne fun heq => hne ?_
    rw [hrun.1.username] at heq
    exact congrArg some (Identity.display_injective heq.symm)
  | _ => rfl

theorem reportsOn_unreported {pc : Pc} (h : pc.reportsOn = some who) :
    pc.unreported = some who := by
  cases pc <;> first | exact h | cases h

theorem Shut.step {deadline : ℕ} (h : Shut who deadline s)
    (htrace : (loginSystem crypto).Trace past s) (hs : loginStep crypto s a = some s')
    (ha : a.isRestart = false) : Shut who deadline s' := by
  have hinv := inv_of_trace htrace
  by_cases hout : deadline ≤ s.clock.instant
  · left
    obtain ⟨r, written, _, hstep⟩ | ⟨hquiet, _⟩ := codes_of_step hinv hs ha
    · rwa [hstep.clock]
    · exact hout.trans hquiet.clock
  · obtain ⟨⟨x, hx, hdeadline⟩, hnone⟩ := h.resolve_left hout
    refine .inr ⟨⟨x, ?_, hdeadline⟩, fun r hr => ?_⟩
    · obtain ⟨r, written, _, hstep⟩ | ⟨hquiet, _⟩ := codes_of_step hinv hs ha
      · rw [hstep.strikes, lookup_strikesAfter hinv (reportOk_of_trace htrace r)
          fun hreports => hnone r (reportsOn_unreported hreports)]
        exact hx
      · rw [hquiet.strikes]
        exact hx
    · obtain hold | ⟨m, written, rfl, hpc, rfl, hunlocked⟩ := unreported_of_step hinv hs hr
      · exact hnone r hold
      · have hrun := hinv.runs r
        rw [hpc] at hrun
        rw [hrun.1.username] at hunlocked
        exact hout (le_of_mfaLocked_eq_none hunlocked hx hdeadline)

/-! ## The two counts -/

/-- What a handler has found out about a code of an identity, and has not reported yet. -/
def Pc.verdict : Pc → Option (Identity × Bool)
  | .strike m => some (m.identity, false)
  | .acceptCode c | .enroll c | .revokeDevices c | .clearStrikes c => some (c.identity, true)
  | _ => none

/-- The strikes that `mfa_failed` has counted. -/
def Server.strikesOf (s : Server) (who : Identity) : ℕ :=
  ((s.strikes.lookup who.display).map MfaStrikes.count).getD 0

variable (crypto past s who) in
/-- The strikes are the wrong codes, up to what has not been reported. -/
structure Tally : Prop where
  wrong : ∀ r, (s.runs r).verdict = some (who, false) →
    s.strikesOf who + 1 = wrongCodes crypto who past
  right : ∀ r, (s.runs r).verdict = some (who, true) → wrongCodes crypto who past = 0
  reported : (∀ r b, (s.runs r).verdict ≠ some (who, b)) →
    s.strikesOf who = wrongCodes crypto who past

theorem wrongCodes_snoc (crypto : Crypto) (who : Identity) (past : Past) (e : Server × Act) :
    wrongCodes crypto who (past ++ [e]) = countCode crypto who (wrongCodes crypto who past) e := by
  rw [wrongCodes, List.foldl_append]
  rfl

theorem unreported_of_verdict {pc : Pc} {b : Bool} (h : pc.verdict = some (who, b)) :
    pc.unreported = some who := by
  cases pc with
  | strike | acceptCode | enroll | revokeDevices | clearStrikes =>
    exact congrArg some (Prod.mk.inj (Option.some.inj h)).1
  | _ => cases h

/-- A step that evaluates no code for the identity leaves the count as it is. -/
theorem countCode_of_evaluates {n : ℕ} (ha : a.isRestart = false)
    (h : evaluates crypto who (s, a) = none) : countCode crypto who n (s, a) = n := by
  simp only [countCode, ha, h]
  rfl

theorem evaluates_step (r : ℕ) (written : Bool) :
    evaluates crypto who (s, .step r written) =
      match s.runs r with
      | .verifyCode c =>
        if c.identity = who ∧ Totp.validSeed c.secret = true then
          some (Totp.verify crypto.hmacSha1 c.secret c.otp s.clock.unix)
        else none
      | _ => none := rfl

/-- What neither evaluates a code of the identity nor reports on it. -/
theorem Tally.same (h : Tally crypto past s who)
    (hverdict : ∀ r b, (s'.runs r).verdict = some (who, b) ↔ (s.runs r).verdict = some (who, b))
    (hlookup : s'.strikes.lookup who.display = s.strikes.lookup who.display)
    (ha : a.isRestart = false) (hevaluates : evaluates crypto who (s, a) = none) :
    Tally crypto (past ++ [(s, a)]) s' who := by
  have hcount : wrongCodes crypto who (past ++ [(s, a)]) = wrongCodes crypto who past := by
    rw [wrongCodes_snoc, countCode_of_evaluates ha hevaluates]
  have hstrikes : s'.strikesOf who = s.strikesOf who := by
    rw [Server.strikesOf, hlookup, Server.strikesOf]
  refine ⟨fun r hr => ?_, fun r hr => ?_, fun hnone => ?_⟩
  · rw [hcount, hstrikes]
    exact h.wrong r ((hverdict r false).mp hr)
  · rw [hcount]
    exact h.right r ((hverdict r true).mp hr)
  · rw [hcount, hstrikes]
    exact h.reported fun r b hr => hnone r b ((hverdict r b).mpr hr)

/-- What the count of `mfa_failed` comes to, when the run of wrong codes is not forgotten. -/
theorem strikeCount_eq (h : ∀ x, s.strikes.lookup who.display = some x →
    s.clock.instant - x.last ≤ mfaStrikeMemory) :
    strikeCount s.strikes who.display s.clock.instant = s.strikesOf who + 1 := by
  rw [strikeCount, Server.strikesOf]
  cases hx : s.strikes.lookup who.display with
  | none => rfl
  | some x => exact congrArg (· + 1) (if_neg (Nat.not_lt.mpr (h x hx)))

/-- A handler that has no code of the identity to deal with. -/
theorem Tally.apart (h : Tally crypto past s who) (hinv : Inv crypto past s)
    (hreport : ReportOk s r (s.runs r)) {written : Bool} (hstep : Stepped crypto s s' r written)
    (hown : (s.runs r).unreported ≠ some who) :
    Tally crypto (past ++ [(s, .step r written)]) s' who := by
  have hverdict : ∀ b, (s'.runs r).verdict ≠ some (who, b) := by
    have hmoves := hstep.moves
    generalize s.runs r = pc, s'.runs r = pc' at hmoves hown
    intro b hb
    have hnew := unreported_of_verdict hb
    cases hmoves with
    | look | read | replay | unwritten | cleared => cases hb
    | right | wrong | enroll | accept | enrolled | revoked => exact hown hnew
    | struck hnone | other _ hnone => cases hnone.symm.trans hnew
  refine h.same (fun r' b => ?_) ?_ rfl ?_
  · by_cases hr : r' = r
    · subst hr
      exact iff_of_false (hverdict b) fun hb => hown (unreported_of_verdict hb)
    · rw [(hstep.others r' hr).runs]
  · rw [hstep.strikes]
    exact lookup_strikesAfter hinv hreport fun hr => hown (reportsOn_unreported hr)
  · rw [evaluates_step]
    split
    next c hpc => exact if_neg fun hc => hown (by rw [hpc, ← hc.1]; rfl)
    · rfl

theorem tally_of_none (hnone : ∀ r b, (s.runs r).verdict ≠ some (who, b))
    (hcount : s.strikesOf who = wrongCodes crypto who past) : Tally crypto past s who :=
  ⟨fun r hr => absurd hr (hnone r false), fun r hr => absurd hr (hnone r true), fun _ => hcount⟩

theorem tally_of_alone {b : Bool} (hb : (s.runs r).verdict = some (who, b))
    (halone : ∀ r' b', (s.runs r').verdict = some (who, b') → r' = r)
    (hwrong : b = false → s.strikesOf who + 1 = wrongCodes crypto who past)
    (hright : b = true → wrongCodes crypto who past = 0) : Tally crypto past s who := by
  refine ⟨fun r' hr => hwrong ?_, fun r' hr => hright ?_, fun hnone => absurd hb (hnone r b)⟩
  · rw [halone r' false hr, hb, Option.some.injEq, Prod.mk.injEq] at hr
    exact hr.2
  · rw [halone r' true hr, hb, Option.some.injEq, Prod.mk.injEq] at hr
    exact hr.2

/-- A code is evaluated while nobody is about to report. -/
theorem tally_of_evaluates {b written : Bool}
    (hreported : s.strikesOf who = wrongCodes crypto who past)
    (heval : evaluates crypto who (s, .step r written) = some b)
    (hb : (s'.runs r).verdict = some (who, b))
    (halone : ∀ r' b', (s'.runs r').verdict = some (who, b') → r' = r)
    (hlookup : s'.strikes.lookup who.display = s.strikes.lookup who.display) :
    Tally crypto (past ++ [(s, .step r written)]) s' who := by
  have hcount := wrongCodes_snoc crypto who past (s, .step r written)
  simp only [countCode, heval] at hcount
  refine tally_of_alone hb halone (fun hwrong => ?_) fun hright => ?_
  · subst hwrong
    rw [hcount, ← hreported, Server.strikesOf, hlookup]
    rfl
  · subst hright
    exact hcount

/-- A wrong code is reported, in a run of wrong codes that is not forgotten. -/
theorem strikesOf_strike {m : MfaAttempt} (husername : m.username = who.display)
    (hremembered : ∀ x, s.strikes.lookup m.username = some x →
      s.clock.instant - x.last ≤ mfaStrikeMemory)
    (hstrikes : s'.strikes = s.strikesAfter (.strike m)) :
    s'.strikesOf who = s.strikesOf who + 1 := by
  obtain ⟨x, heq, hcount, _⟩ := mfaFailed_cases s.strikes m.username s.clock.instant
  rw [Server.strikesOf, hstrikes, Server.strikesAfter, heq, husername, AList.lookup_insert]
  rw [husername] at hremembered hcount
  exact hcount.trans (strikeCount_eq hremembered)

theorem strikesOf_clearStrikes {c : MfaCheck} (husername : c.username = who.display)
    (hstrikes : s'.strikes = s.strikesAfter (.clearStrikes c)) : s'.strikesOf who = 0 := by
  rw [Server.strikesOf, hstrikes, Server.strikesAfter, mfaSucceeded, husername,
    AList.lookup_erase]
  rfl

/-- A handler that deals with a code of the identity. -/
theorem Tally.own (h : Tally crypto past s who) (hinv : Inv crypto past s)
    (hreport : ReportOk s r (s.runs r)) {written : Bool} (hstep : Stepped crypto s s' r written)
    (hone : OneByOne s) (hcounts : Counts who (s, .step r written))
    (hown : (s.runs r).unreported = some who) :
    Tally crypto (past ++ [(s, .step r written)]) s' who := by
  have hbefore : ∀ r' b, (s.runs r').verdict = some (who, b) → r' = r :=
    fun r' b hb => hone who r' r (unreported_of_verdict hb) hown
  have hafter : ∀ r' b, (s'.runs r').verdict = some (who, b) → r' = r := by
    intro r' b hb
    by_contra hne
    rw [(hstep.others r' hne).runs] at hb
    exact hne (hbefore r' b hb)
  have hlookup : (s.runs r).reportsOn ≠ some who →
      s'.strikes.lookup who.display = s.strikes.lookup who.display := fun hne => by
    rw [hstep.strikes, lookup_strikesAfter hinv hreport hne]
  have hsame : (∀ b, (s'.runs r).verdict = some (who, b) ↔ (s.runs r).verdict = some (who, b)) →
      (s.runs r).reportsOn ≠ some who →
      evaluates crypto who (s, .step r written) = none →
      Tally crypto (past ++ [(s, .step r written)]) s' who := by
    refine fun hverdict hne heval => h.same (fun r' b => ?_) (hlookup hne) rfl heval
    by_cases hr : r' = r
    · subst hr
      exact hverdict b
    · rw [(hstep.others r' hr).runs]
  have hreported : (s.runs r).verdict = none → s.strikesOf who = wrongCodes crypto who past :=
    fun hnone => h.reported fun r' b hb => by
      rw [hbefore r' b hb, hnone] at hb
      cases hb
  have hnone : (s'.runs r).unreported = none → ∀ r' b, (s'.runs r').verdict ≠ some (who, b) := by
    intro hended r' b hb
    obtain rfl := hafter r' b hb
    cases hended.symm.trans (unreported_of_verdict hb)
  have hsilent : evaluates crypto who (s, .step r written) = none →
      wrongCodes crypto who (past ++ [(s, .step r written)]) = wrongCodes crypto who past :=
    fun heval => by rw [wrongCodes_snoc, countCode_of_evaluates rfl heval]
  -- a right code that is not reported, when there are no strikes to leave standing
  have hdropped : s.strikes.lookup who.display = none → (s.runs r).reportsOn ≠ some who →
      (s'.runs r).unreported = none → (s.runs r).verdict = some (who, true) →
      evaluates crypto who (s, .step r written) = none →
      Tally crypto (past ++ [(s, .step r written)]) s' who := by
    intro hclean hne hended hverdict heval
    refine tally_of_none (hnone hended) ?_
    rw [hsilent heval, h.right r hverdict, Server.strikesOf, hlookup hne, hclean]
    rfl
  have hmoves := hstep.moves
  have hstrikes := hstep.strikes
  have hrun := hinv.runs r
  have hwrong := h.wrong r
  have hright := h.right r
  have heval : evaluates crypto who (s, .step r written) = _ := evaluates_step r written
  simp only [Counts] at hcounts
  generalize hpc : s.runs r = pc, hpc' : s'.runs r = pc' at *
  cases hmoves with
  | look => cases hown
  | other hnone => cases hnone.symm.trans hown
  | read => exact hsame (fun b => iff_of_false nofun nofun) nofun heval
  | enroll | accept | enrolled | revoked => exact hsame (fun b => Iff.rfl) nofun heval
  | @right c hverify =>
    have hc : c.identity = who := Option.some.inj hown
    have htrue := heval.trans ((if_pos ⟨hc, hcounts hc⟩).trans (congrArg some hverify))
    exact tally_of_evaluates (hreported rfl) htrue (by rw [hpc', ← hc]; rfl) hafter
      (hlookup nofun)
  | @wrong c hverify =>
    have hc : c.identity = who := Option.some.inj hown
    rw [hcounts hc, Bool.true_and, Bool.not_eq_true] at hverify
    have hfalse := heval.trans ((if_pos ⟨hc, hcounts hc⟩).trans (congrArg some hverify))
    exact tally_of_evaluates (hreported rfl) hfalse (by rw [hpc', ← hc]; rfl) hafter
      (hlookup nofun)
  | @struck m _ hended =>
    obtain rfl : m.identity = who := Option.some.inj hown
    refine tally_of_none (hnone hended) ?_
    rw [strikesOf_strike hreport (hcounts rfl) hstrikes, hwrong rfl, hsilent heval]
  | @cleared c =>
    obtain rfl : c.identity = who := Option.some.inj hown
    refine tally_of_none (hnone rfl) ?_
    rw [strikesOf_clearStrikes hrun.1.username hstrikes, hsilent heval, hright rfl]
  | @replay c hreplayed =>
    obtain rfl : c.identity = who := Option.some.inj hown
    have hclean := (hcounts rfl).resolve_right (by rw [hreplayed]; exact Bool.false_ne_true)
    rw [hrun.1.username] at hclean
    exact hdropped hclean nofun rfl rfl heval
  | @unwritten c hwritten =>
    obtain rfl : c.identity = who := Option.some.inj hown
    have hclean := (hcounts rfl).resolve_right (by rw [hwritten]; exact Bool.false_ne_true)
    rw [hrun.1.username] at hclean
    exact hdropped hclean nofun rfl rfl heval

theorem Tally.step (h : Tally crypto past s who) (htrace : (loginSystem crypto).Trace past s)
    (hone : OneByOne s) (hcounts : Counts who (s, a)) (hs : loginStep crypto s a = some s') :
    Tally crypto (past ++ [(s, a)]) s' who := by
  have hinv := inv_of_trace htrace
  cases ha : a.isRestart with
  | true =>
    have hverdict : ∀ r b, (s'.runs r).verdict ≠ some (who, b) := fun r b hb => by
      cases (unreported_of_restart hs ha).symm.trans (unreported_of_verdict hb)
    have hcount : wrongCodes crypto who (past ++ [(s, a)]) = 0 := by
      rw [wrongCodes_snoc, countCode, if_pos ha]
    refine ⟨fun r hr => absurd hr (hverdict r false), fun _ _ => hcount, fun _ => ?_⟩
    rw [hcount]
    cases a with
    | restart =>
      obtain rfl := Option.some.inj hs
      rfl
    | _ => cases ha
  | false =>
    obtain ⟨r, written, rfl, hstep⟩ | ⟨hquiet, hnot⟩ := codes_of_step hinv hs ha
    · by_cases hown : (s.runs r).unreported = some who
      · exact h.own hinv (reportOk_of_trace htrace r) hstep hone hcounts hown
      · exact h.apart hinv (reportOk_of_trace htrace r) hstep hown
    · refine h.same (fun r b => ?_) (by rw [hquiet.strikes]) ha ?_
      · obtain hf | ⟨hnone, hnone'⟩ := hquiet.runs r
        · rw [hf.runs]
        · refine iff_of_false (fun hb => ?_) fun hb => ?_
          · cases hnone'.symm.trans (unreported_of_verdict hb)
          · cases hnone.symm.trans (unreported_of_verdict hb)
      · cases a with
        | step r written => exact absurd rfl (hnot r written)
        | _ => rfl

theorem tally_of_trace (h : (loginSystem crypto).Trace past s)
    (hok : ∀ e ∈ past, LooksAfterReports e.1 e.2) (hcounts : ∀ e ∈ past, Counts who e) :
    Tally crypto past s who := by
  induction h with
  | init hinit =>
    obtain ⟨config, enrollment, devices, clock, written, rfl⟩ := hinit
    exact tally_of_none (fun r b hb => by cases hb) rfl
  | @step past s s' a htrace hs ih =>
    have hpast : ∀ e ∈ past, LooksAfterReports e.1 e.2 :=
      fun e he => hok e (List.mem_append_left _ he)
    have htally := ih hpast fun e he => hcounts e (List.mem_append_left _ he)
    have hlast := hcounts (s, a) (List.mem_append_right _ (List.mem_singleton_self _))
    exact htally.step htrace (oneByOne_of_trace htrace hpast) hlast hs

/-! ## After a wrong code -/

variable (crypto who r) in
/-- What has become of the wrong code that a step evaluated after `pre`, when `mid` has followed:
its handler is about to report it, or has reported it and the lockout is `Shut`. -/
def Followed (pre : Past) (w : Server × Act) (mid : Past) (s : Server) : Prop :=
  (∃ m, s.runs r = .strike m ∧ m.identity = who ∧
      wrongCodes crypto who (pre ++ w :: mid) = wrongCodes crypto who (pre ++ [w])) ∨
    ∃ left, ∃ k ∈ mid, Strikes who r (some left) k ∧ Shut who (k.1.clock.instant + left) s

/-- A code that is evaluated is in the hands of a handler past the lock. -/
theorem verifyCode_of_evaluates {e : Server × Act} {b : Bool}
    (h : evaluates crypto who e = some b) :
    ∃ r written c, e.2 = .step r written ∧ e.1.runs r = .verifyCode c ∧ c.identity = who ∧
      Totp.validSeed c.secret = true ∧
      Totp.verify crypto.hmacSha1 c.secret c.otp e.1.clock.unix = b := by
  rw [evaluates] at h
  split at h
  next r written ha =>
    split at h
    next c hpc =>
      split at h
      next hc => exact ⟨r, written, c, ha, hpc, hc.1, hc.2, Option.some.inj h⟩
      · cases h
    · cases h
  · cases h

/-- While somebody has a verdict on a code of the identity, no code is evaluated for it. -/
theorem evaluates_eq_none (hone : OneByOne s) {m : MfaAttempt} (hpc : s.runs r = .strike m)
    (hm : m.identity = who) : evaluates crypto who (s, a) = none := by
  cases heval : evaluates crypto who (s, a) with
  | none => rfl
  | some b =>
    obtain ⟨r', written, c, _, hpc', hc, _⟩ := verifyCode_of_evaluates heval
    have hr' : (s.runs r').unreported = some who := by
      rw [← hc, hpc']
      rfl
    obtain rfl : r' = r := hone who r' r hr' (by rw [hpc, ← hm]; rfl)
    cases hpc.symm.trans hpc'

/-- The step that finds a code wrong. -/
theorem followed_of_evaluates {written : Bool}
    (hs : loginStep crypto s (.step r written) = some s')
    (hwrong : evaluates crypto who (s, .step r written) = some false) (pre : Past) :
    Followed crypto r who pre (s, .step r written) [] s' := by
  obtain ⟨r', written', c, ha, hpc, hc, hseed, hverify⟩ := verifyCode_of_evaluates hwrong
  cases ha
  have hpc' : s.runs r = .verifyCode c := hpc
  refine .inl ⟨c.toMfaAttempt, ?_, hc, rfl⟩
  simp only [loginStep, Server.advance, hpc', Option.some.injEq] at hs
  rw [← hs, Server.verifyCode, if_neg, goto_runs_self]
  rw [show Totp.verify crypto.hmacSha1 c.secret c.otp s.clock.unix = false from hverify,
    Bool.and_false]
  exact Bool.false_ne_true

/-- The handler of a wrong code reports it. -/
theorem followed_of_strike {pre mid : Past} {w : Server × Act} {m : MfaAttempt} {written : Bool}
    (htrace : (loginSystem crypto).Trace (pre ++ w :: mid) s)
    (hok : ∀ e ∈ pre ++ w :: mid, LooksAfterReports e.1 e.2)
    (hcounts : ∀ e ∈ pre ++ w :: mid, Counts who e) (hlast : Counts who (s, .step r written))
    (hs : loginStep crypto s (.step r written) = some s')
    (hstep : Stepped crypto s s' r written) (hpc : s.runs r = .strike m) (hm : m.identity = who)
    (hdvd : mfaMaxStrikes ∣ wrongCodes crypto who (pre ++ [w]))
    (hcount : wrongCodes crypto who (pre ++ w :: mid) = wrongCodes crypto who (pre ++ [w])) :
    Followed crypto r who pre w (mid ++ [(s, .step r written)]) s' := by
  have hinv := inv_of_trace htrace
  have hone := oneByOne_of_trace htrace hok
  have husername := reportOk_of_trace htrace r
  rw [hpc] at husername
  have husername' : m.username = who.display := by
    rw [← hm]
    exact husername
  obtain ⟨x, heq, hxcount, hcases⟩ := mfaFailed_cases s.strikes m.username s.clock.instant
  have hlookup : s'.strikes.lookup who.display = some x := by
    rw [hstep.strikes, hpc, Server.strikesAfter, heq, husername', AList.lookup_insert]
  have hr : (s.runs r).unreported = some who := by
    rw [hpc, ← hm]
    rfl
  have hnone : ∀ r', (s'.runs r').unreported ≠ some who := by
    intro r' hr'
    obtain hold | ⟨m', written', ha, hpc', _⟩ := unreported_of_step hinv hs hr'
    · obtain rfl := hone who r' r hold hr
      have hmoves := hstep.moves
      rw [hpc] at hmoves
      generalize s'.runs r' = pc' at hmoves hr'
      cases hmoves with
      | struck hended => cases hended.symm.trans hr'
      | other hended => cases hended
    · cases ha
      cases hpc.symm.trans hpc'
  have hremembered : ∀ x, s.strikes.lookup who.display = some x →
      s.clock.instant - x.last ≤ mfaStrikeMemory := by
    simp only [Counts, hpc] at hlast
    rw [← husername']
    exact hlast hm
  -- the strike is the one of the wrong code, so it is a multiple as well
  have hlocks : mfaMaxStrikes ∣ x.count := by
    rw [hxcount, husername', strikeCount_eq hremembered,
      (tally_of_trace htrace hok hcounts).wrong r (by rw [hpc, ← hm]; rfl), hcount]
    exact hdvd
  obtain ⟨_, hopen⟩ | ⟨left, hleft, hdeadline⟩ := hcases
  · exact absurd hlocks hopen
  · exact .inr ⟨left, (s, .step r written), List.mem_append_right _ (List.mem_singleton_self _),
      .mk hpc hm hleft, .inr ⟨⟨x, hlookup, hdeadline⟩, hnone⟩⟩

theorem Followed.step {pre mid : Past} {w : Server × Act}
    (h : Followed crypto r who pre w mid s)
    (htrace : (loginSystem crypto).Trace (pre ++ w :: mid) s)
    (hok : ∀ e ∈ pre ++ w :: mid, LooksAfterReports e.1 e.2)
    (hcounts : ∀ e ∈ pre ++ w :: mid, Counts who e) (hlast : Counts who (s, a))
    (hdvd : mfaMaxStrikes ∣ wrongCodes crypto who (pre ++ [w]))
    (hs : loginStep crypto s a = some s') (ha : a.isRestart = false) :
    Followed crypto r who pre w (mid ++ [(s, a)]) s' := by
  have hinv := inv_of_trace htrace
  obtain ⟨m, hpc, hm, hcount⟩ | ⟨left, k, hk, hstrikes, hshut⟩ := h
  · have hstill : s'.runs r = s.runs r → Followed crypto r who pre w (mid ++ [(s, a)]) s' := by
      refine fun hruns => .inl ⟨m, hruns.trans hpc, hm, ?_⟩
      rw [← List.cons_append, ← List.append_assoc, wrongCodes_snoc, countCode_of_evaluates ha
        (evaluates_eq_none (oneByOne_of_trace htrace hok) hpc hm), hcount]
    obtain ⟨r', written, rfl, hstep⟩ | ⟨hquiet, _⟩ := codes_of_step hinv hs ha
    · by_cases hr : r = r'
      · subst hr
        exact followed_of_strike htrace hok hcounts hlast hs hstep hpc hm hdvd hcount
      · exact hstill (hstep.others r hr).runs
    · obtain hf | ⟨hnone, _⟩ := hquiet.runs r
      · exact hstill hf.runs
      · rw [hpc] at hnone
        cases hnone
  · exact .inr ⟨left, k, List.mem_append_left _ hk, hstrikes, hshut.step htrace hs ha⟩

variable (crypto) in
/-- In every run in which nobody looks at the lock of an identity while somebody else is about to
report on it, and in which the two counts of the identity stay together, its wrong codes stop at the
lock. -/
theorem stops_at_lock (h : (loginSystem crypto).Trace past s)
    (hok : ∀ e ∈ past, LooksAfterReports e.1 e.2) (hcounts : ∀ e ∈ past, Counts who e) :
    StopsAtLock crypto who past := by
  rintro before e after rfl heval pre t r written mid rfl hwrong hdvd hmid
  have hbefore : ∀ q ∈ pre ++ (t, .step r written) :: mid, LooksAfterReports q.1 q.2 :=
    fun q hq => hok q (List.mem_append_left _ hq)
  have hcounted : ∀ q ∈ pre ++ (t, .step r written) :: mid, Counts who q :=
    fun q hq => hcounts q (List.mem_append_left _ hq)
  have htrace := h.before
  have hfollowed : Followed crypto r who pre (t, .step r written) mid e.1 := by
    refine htrace.after (I := fun mid s => (∀ q ∈ mid, q.2.isRestart = false) →
      (∀ q ∈ pre ++ (t, .step r written) :: mid, LooksAfterReports q.1 q.2) →
      (∀ q ∈ pre ++ (t, .step r written) :: mid, Counts who q) →
      Followed crypto r who pre (t, .step r written) mid s) (fun s' _ hs _ _ _ => ?_)
      (fun mid s a s' htrace ih hs hmid hok hcounts => ?_) hmid hbefore hcounted
    · exact followed_of_evaluates hs hwrong pre
    · rw [← List.cons_append, ← List.append_assoc] at hok hcounts
      have hok' : ∀ q ∈ pre ++ (t, .step r written) :: mid, LooksAfterReports q.1 q.2 :=
        fun q hq => hok q (List.mem_append_left _ hq)
      have hcounts' : ∀ q ∈ pre ++ (t, .step r written) :: mid, Counts who q :=
        fun q hq => hcounts q (List.mem_append_left _ hq)
      have hlast := hcounts (s, a) (List.mem_append_right _ (List.mem_singleton_self _))
      have hfollowed := ih (fun q hq => hmid q (List.mem_append_left _ hq)) hok' hcounts'
      exact hfollowed.step htrace hok' hcounts' hlast hdvd hs
        (hmid (s, a) (List.mem_append_right _ (List.mem_singleton_self _)))
  obtain ⟨b, hb⟩ := Option.isSome_iff_exists.mp heval
  obtain ⟨m, hpc, hm, _⟩ | ⟨left, k, hk, hstrikes, hshut⟩ := hfollowed
  · have hnone : evaluates crypto who (e.1, e.2) = none :=
      evaluates_eq_none (oneByOne_of_trace htrace hbefore) hpc hm
    cases hnone.symm.trans hb
  · refine ⟨left, k, hk, hstrikes, hshut.resolve_right fun hlocked => ?_⟩
    obtain ⟨r', _, c, _, hpc, hc, _⟩ := verifyCode_of_evaluates hb
    exact hlocked.2 r' (by rw [hpc, ← hc]; rfl)

end

end

/-! ## A handler that pauses before its report -/

namespace Sample

open Text.Ascii

def wrongForm : MfaForm := { rightForm with otp := "000001".toList }

/-- A handler comes and takes `n` steps: the fifth one evaluates the code, the sixth reports it. -/
def submit (r n : ℕ) : List Act := .arrive r (.mfaSubmit wrongForm) :: .replicate n (.step r true)

/-- Alice's password, and four wrong codes that are reported. -/
def fourWrong : List Act := loginRun ++ submit 2 6 ++ submit 3 6 ++ submit 4 6 ++ submit 5 6

/-- The fifth one is reported as well, and the next two submissions get their turn a quarter of an
hour later: another wrong code, and the right one. -/
def patientRun : List Act :=
  fourWrong ++ submit 7 1 ++ [.arrive 8 (.mfaSubmit rightForm), .step 8 true] ++ submit 6 6 ++
    .tick ⟨mfaLockoutBase, clock.unix⟩ :: .replicate 5 (.step 7 true) ++ .replicate 9 (.step 8 true)

def looksAfterReports (e : Server × Act) : Bool :=
  match e.2 with
  | .step r _ =>
    match e.1.runs r with
    | .checkLock m => (List.range 9).all fun r' => (e.1.runs r').reportsOn ≠ some m.identity
    | _ => true
  | _ => true

theorem patientRun_trace : ∃ s,
    (loginSystem crypto).Trace ((loginSystem crypto).steps mfaStarted patientRun) s := by
  have hinit : (loginSystem crypto).init mfaStarted := ⟨_, _, _, _, _, rfl⟩
  have hruns : ((loginSystem crypto).run mfaStarted patientRun).isSome = true := by decide
  obtain ⟨s, hs⟩ := Option.isSome_iff_exists.mp hruns
  exact ⟨s, (System.Trace.init hinit).run_steps hs⟩

theorem patientRun_looks :
    ∀ e ∈ (loginSystem crypto).steps mfaStarted patientRun, LooksAfterReports e.1 e.2 := by
  intro e he
  obtain ⟨t, htrace⟩ := patientRun_trace
  obtain ⟨before, after, heq⟩ := List.append_of_mem he
  have hall :
      (((loginSystem crypto).steps mfaStarted patientRun).all looksAfterReports) = true := by
    decide
  have hlook := List.all_eq_true.mp hall e he
  have hnumbers :
      patientRun.all (fun a => match a with | .step r _ => r < 9 | _ => true) = true := by
    decide
  rw [heq] at htrace
  obtain ⟨s, a⟩ := e
  cases a with
  | step r written =>
    intro m (hpc : s.runs r = .checkLock m) r' hreports
    simp only [looksAfterReports, hpc, List.all_eq_true, List.mem_range, decide_eq_true_eq] at hlook
    by_cases hr' : r' < 9
    · exact hlook r' hr' hreports
    · have hnone : (s.runs r').unreported = none := by
        refine unreported_of_trace htrace.before fun q hq written' hstep => hr' ?_
        have hmem : q ∈ (loginSystem crypto).steps mfaStarted patientRun := by
          rw [heq]
          exact List.mem_append_left _ hq
        have hlt := List.all_eq_true.mp hnumbers q.2 (System.mem_of_mem_steps hmem)
        rw [hstep] at hlt
        exact of_decide_eq_true hlt
      cases hnone.symm.trans (reportsOn_unreported hreports)
  | _ => trivial

/-- Where the code is accepted and saved, the step does as `Counts` says. -/
def counts (e : Server × Act) : Bool :=
  match e.2 with
  | .step r written =>
    match e.1.runs r with
    | .verifyCode c => Totp.validSeed c.secret
    | .acceptCode c =>
      (Totp.acceptAt ((e.1.otpUsed.lookup c.username).getD []) c.otp e.1.clock.unix).1
    | .enroll _ => written
    | .strike m => (e.1.strikes.lookup m.username).all fun x =>
      e.1.clock.instant - x.last ≤ mfaStrikeMemory
    | _ => true
  | _ => true

theorem counts_of_counts {e : Server × Act} (who : Identity) (h : counts e = true) :
    Counts who e := by
  obtain ⟨s, a⟩ := e
  cases a with
  | step r written =>
    simp only [counts, Counts] at h ⊢
    generalize s.runs r = pc at h ⊢
    cases pc with
    | verifyCode c => exact fun _ => h
    | acceptCode c => exact fun _ => .inr h
    | enroll c => exact fun _ => .inr h
    | strike m =>
      intro _ x hx
      simp only [hx, Option.all_some, decide_eq_true_eq] at h
      exact h
    | _ => trivial
  | _ => trivial

theorem patientRun_counts :
    ∀ e ∈ (loginSystem crypto).steps mfaStarted patientRun, Counts alice e := by
  have hall : (((loginSystem crypto).steps mfaStarted patientRun).all counts) = true := by decide
  exact fun e he => counts_of_counts alice (List.all_eq_true.mp hall e he)

end Sample

open Sample Text.Ascii

theorem stops_at_lock_patientRun :
    ∃ past s, (loginSystem crypto).Trace past s ∧
      past.filterMap (evaluates crypto alice) = [false, false, false, false, false, false, true] ∧
      StopsAtLock crypto alice past := by
  obtain ⟨s, htrace⟩ := patientRun_trace
  refine ⟨_, s, htrace, by decide, ?_⟩
  exact stops_at_lock crypto htrace patientRun_looks patientRun_counts

/-- The handler of the fifth wrong code pauses before its report, and a sixth code is evaluated. -/
def overtakes : Bool :=
  ((loginSystem crypto).run mfaStarted (fourWrong ++ submit 6 4)).any fun s =>
    evaluates crypto alice (s, .step 6 true) == some false &&
      ((loginSystem crypto).step s (.step 6 true)).any fun s' =>
        ((loginSystem crypto).run s' (submit 7 4)).any fun t =>
          (evaluates crypto alice (t, .step 7 true)).isSome &&
            ((loginSystem crypto).step t (.step 7 true)).isSome

theorem code_evaluated_before_report :
    ¬ ∀ (_ : Lowercase) (crypto : Crypto) (who : Identity) (past : Past) (s : Server),
      (loginSystem crypto).Trace past s → StopsAtLock crypto who past := by
  intro h
  have hovertakes : overtakes = true := by decide
  obtain ⟨s, hs, hrest⟩ := (Option.any_eq_true ..).mp hovertakes
  obtain ⟨hwrong, hrest⟩ := Bool.and_eq_true_iff.mp hrest
  obtain ⟨s', hs', hrest⟩ := (Option.any_eq_true ..).mp hrest
  obtain ⟨t, ht, hrest⟩ := (Option.any_eq_true ..).mp hrest
  obtain ⟨heval, hstep⟩ := Bool.and_eq_true_iff.mp hrest
  obtain ⟨t', ht'⟩ := Option.isSome_iff_exists.mp hstep
  have hwrong := eq_of_beq hwrong
  have hinit : (loginSystem crypto).init mfaStarted := ⟨_, _, _, _, _, rfl⟩
  have htrace := ((((System.Trace.init hinit).run_steps hs).step hs').run_steps ht).step ht'
  have hfour : wrongCodes crypto alice
      ([] ++ (loginSystem crypto).steps mfaStarted (fourWrong ++ submit 6 4)) = 4 := by decide
  have hstops := h asciiLowercase crypto alice _ t' htrace _ _ [] rfl heval
    ([] ++ (loginSystem crypto).steps mfaStarted (fourWrong ++ submit 6 4)) s 6 true
    ((loginSystem crypto).steps s' (submit 7 4)) (by rw [List.append_assoc]; rfl) hwrong
    (by rw [wrongCodes_snoc, hfour, countCode, hwrong]; exact Nat.dvd_refl 5) fun q hq => ?_
  · obtain ⟨left, k, hk, hstrikes, _⟩ := hstops
    have hmem := System.mem_of_mem_steps hk
    cases hstrikes
    simp [submit] at hmem
  · have hmem := System.mem_of_mem_steps hq
    obtain heq | hmem := List.mem_cons.mp hmem
    · rw [heq]
      rfl
    · rw [List.eq_of_mem_replicate hmem]
      rfl

end Webshell.Login
