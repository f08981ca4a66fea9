import Webshell.Auth.Lockout

/-!
# An enrolled secret

The secret of an identity within one server process. A handler reads the record, has the code
checked and writes the secret while it holds the bucket of the identity, so that the secret it has
read is the stored one as long as it deals with the code, and the first candidate that a code proves
is the one that is stored.

## Main definitions

- `provedBy`, `firstProved`: the secret that a right code is evaluated against, and the first one
  of the process
- `Unenrolled`: what has come of the codes of an identity that has no secret

## Main results

- `secret_never_replaced`: the stored secret changes at most once, to the first one proved, and
  codes are evaluated against it
-/

namespace Webshell.Login

open Transition History
open Text (Lowercase)

section
variable [Lowercase]

/-! ## Seeds that are proved -/

section
variable (crypto : Crypto) (who : Identity)

/-- The secret that a step finds a right code of the identity for. -/
def provedBy (e : Server × Act) : Option Text :=
  match e.2 with
  | .step r _ =>
    match e.1.runs r with
    | .verifyCode c =>
      if c.identity = who ∧ (Totp.validSeed c.secret &&
          Totp.verify crypto.hmacSha1 c.secret c.otp e.1.clock.unix) = true then some c.secret
      else none
    | _ => none
  | _ => none

/-- The first proved secret after one more step. A restart begins a new process. -/
def nextProved (first : Option Text) (e : Server × Act) : Option Text :=
  if e.2.isRestart then none else first.or (provedBy crypto who e)

/-- The first secret that a code of the identity has proved in this process. -/
def firstProved (past : Past) : Option Text := past.foldl (nextProved crypto who) none

end

/-- The submission whose code has just proved its secret. -/
def Pc.proved : Pc → Option MfaCheck
  | .acceptCode c | .enroll c => some c
  | _ => none

/-- The secret of an identity that a handler's step leaves. -/
def Server.secretAfter (s : Server) (who : Identity) : Pc → Option Text
  | .enroll c => if who = c.identity then some c.secret else s.enrollment.secret who
  | _ => s.enrollment.secret who

section
variable {crypto : Crypto} {past : Past} {s s' : Server} {a : Act} {r : ℕ} {who : Identity}

theorem firstProved_snoc (crypto : Crypto) (who : Identity) (past : Past) (e : Server × Act) :
    firstProved crypto who (past ++ [e]) =
      nextProved crypto who (firstProved crypto who past) e := by
  rw [firstProved, List.foldl_append]
  rfl

theorem firstProved_step (ha : a.isRestart = false) :
    firstProved crypto who (past ++ [(s, a)]) =
      (firstProved crypto who past).or (provedBy crypto who (s, a)) := by
  rw [firstProved_snoc, nextProved, ha]
  rfl

/-- What has been proved first stays first. -/
theorem firstProved_of_some {x : Text} (ha : a.isRestart = false)
    (h : firstProved crypto who past = some x) :
    firstProved crypto who (past ++ [(s, a)]) = some x := by
  rw [firstProved_step ha, h, Option.some_or]

/-- A secret is proved by a handler that evaluates a code for it. -/
theorem verifyCode_of_provedBy {x : Text} (h : provedBy crypto who (s, a) = some x) :
    ∃ r written c, a = .step r written ∧ s.runs r = .verifyCode c ∧ c.identity = who ∧
      c.secret = x ∧ (Totp.validSeed c.secret &&
        Totp.verify crypto.hmacSha1 c.secret c.otp s.clock.unix) = true := by
  simp only [provedBy] at h
  split at h
  next r written =>
    split at h
    next c hpc =>
      split at h
      next hc => exact ⟨r, written, c, rfl, hpc, hc.1, Option.some.inj h, hc.2⟩
      · cases h
    · cases h
  · cases h

/-! ## What a step leaves of the secrets and of the replay guards -/

theorem secret_enroll {enrollment : EnrollmentStore} {id : Identity} {secret : Text} {now : ℕ}
    (written : Bool) :
    (enrollment.enroll id secret now written).2.secret who =
      if who = id then some secret else enrollment.secret who := by
  split
  next heq =>
    subst heq
    exact EnrollmentStore.secret_enroll_self
  next hne => exact EnrollmentStore.secret_enroll_of_ne hne

theorem memory_of_advance {written : Bool} (hs : s.advance crypto r written = some s') :
    s'.otpUsed = s.otpUsedAfter (s.runs r) ∧
      ∀ who, s'.enrollment.secret who = s.secretAfter who (s.runs r) := by
  have hstores := stores_of_advance hs
  refine ⟨hstores.otpUsed, fun who => ?_⟩
  rw [hstores.enrollment]
  cases s.runs r with
  | pinSubject c sub => exact EnrollmentStore.secret_pinSubject
  | enroll c => exact secret_enroll written
  | _ => rfl

/-- What no handler does by itself leaves the secrets and the guards alone. -/
theorem memory_of_step (hs : loginStep crypto s a = some s') (ha : a.isRestart = false)
    (hnot : ∀ r written, a ≠ .step r written) :
    s'.otpUsed = s.otpUsed ∧ ∀ who, s'.enrollment.secret who = s.enrollment.secret who := by
  obtain ⟨hused, henrollment, -⟩ := stores_of_step hs ha hnot
  exact ⟨hused, fun who => by rw [henrollment]⟩

/-! ## One at a time -/

theorem holds_of_verifyCode (h : Inv crypto past s) {c : MfaCheck}
    (hpc : s.runs r = .verifyCode c) : Holds s r c := by
  have hrun := h.runs r
  rw [hpc] at hrun
  exact hrun.2

/-- Two handlers that hold the bucket of one identity are one. -/
theorem Holds.eq {c c' : MfaCheck} {r' : ℕ} (h : Holds s r c) (h' : Holds s r' c')
    (hc : c.identity = c'.identity) : r = r' := by
  have hbucket := h.bucket
  rw [hc, h'.bucket, Option.some.injEq] at hbucket
  exact hbucket.symm

theorem proved_eq_some {pc : Pc} {c : MfaCheck} (h : pc.proved = some c) :
    pc = .acceptCode c ∨ pc = .enroll c := by
  cases pc with
  | acceptCode => exact .inl (congrArg Pc.acceptCode (Option.some.inj h))
  | enroll => exact .inr (congrArg Pc.enroll (Option.some.inj h))
  | _ => cases h

/-- A handler whose code has proved its secret holds the bucket. -/
theorem holds_of_proved (h : Inv crypto past s) {c : MfaCheck}
    (hc : (s.runs r).proved = some c) : Holds s r c := by
  have hrun := h.runs r
  obtain hpc | hpc := proved_eq_some hc
  · rw [hpc] at hrun
    exact hrun.2.1
  · rw [hpc] at hrun
    exact hrun.2.1

theorem proved_of_unreported {pc : Pc} (h : pc.unreported = none) : pc.proved = none := by
  cases pc <;> first | rfl | cases h

/-- Where a handler comes from whose code has proved its secret. -/
theorem proved_of_moves {written : Bool} {pc pc' : Pc} {c : MfaCheck}
    (h : Moves crypto s s' written pc pc') (hc : pc'.proved = some c) :
    pc = .verifyCode c ∨ pc = .acceptCode c := by
  cases h with
  | right => exact .inl (congrArg Pc.verifyCode (Option.some.inj hc))
  | enroll => exact .inr (congrArg Pc.acceptCode (Option.some.inj hc))
  | struck hnone | other _ hnone => cases (proved_of_unreported hnone).symm.trans hc
  | _ => cases hc

/-! ## The first secret that is proved -/

variable (crypto past s who) in
/-- What has come of the codes of an identity that has no secret: the one that has been right, if
any, is in the hands of the handler that is about to store its secret. -/
structure Unenrolled : Prop where
  proved : ∀ r c, (s.runs r).proved = some c → c.identity = who →
    firstProved crypto who past = some c.secret
  unused : (∀ r c, s.runs r = .enroll c → c.identity ≠ who) →
    (s.otpUsed.lookup who.display).getD [] = []
  fresh : (∀ r c, (s.runs r).proved = some c → c.identity ≠ who) →
    firstProved crypto who past = none

theorem Unenrolled.accept (h : Unenrolled crypto past s who) (hinv : Inv crypto past s)
    {c : MfaCheck} {written : Bool} (hsecret : s.enrollment.secret who = none)
    (hpc : s.runs r = .acceptCode c) (hc : c.identity = who)
    (hs : loginStep crypto s (.step r written) = some s') : s'.runs r = .enroll c := by
  have hholds := holds_of_proved hinv (c := c) (by rw [hpc]; rfl)
  have hunused : (s.otpUsed.lookup c.username).getD [] = [] := by
    have hrun := hinv.runs r
    rw [hpc] at hrun
    rw [hrun.1.username, hc]
    refine h.unused fun r' c' hpc' hc' => ?_
    have hholds' := holds_of_proved hinv (r := r') (c := c') (by rw [hpc']; rfl)
    obtain rfl := hholds.eq hholds' (hc.trans hc'.symm)
    cases hpc.symm.trans hpc'
  have haccepted :
      (Totp.acceptAt ((s.otpUsed.lookup c.username).getD []) c.otp s.clock.unix).1 = true := by
    rw [hunused]
    rfl
  have henrolling : c.enrolling = true := by
    have hread := hholds.secret
    rw [hc, hsecret] at hread
    by_contra hno
    rw [if_neg hno] at hread
    cases hread
  simp only [loginStep, Server.advance, hpc, Option.some.injEq] at hs
  rw [← hs, Server.acceptCode]
  simp only [haccepted, henrolling, Bool.not_true, Bool.false_eq_true, if_false, if_true]
  exact goto_runs_self ..

/-- A handler's step, as far as an identity without a secret is concerned. -/
theorem Unenrolled.own (h : Unenrolled crypto past s who) (hinv : Inv crypto past s)
    {written : Bool} (hs : loginStep crypto s (.step r written) = some s')
    (hstep : Stepped crypto s s' r written) (hnone : s.enrollment.secret who = none)
    (hnone' : s'.enrollment.secret who = none) :
    Unenrolled crypto (past ++ [(s, .step r written)]) s' who := by
  obtain ⟨hused, hsecret⟩ := memory_of_advance hs
  have hothers : ∀ r', r' ≠ r → s'.runs r' = s.runs r' := fun r' hr => (hstep.others r' hr).runs
  -- the handler is not about to store a secret of this identity, which has none afterwards
  have henroll : ∀ c, s.runs r = .enroll c → c.identity ≠ who := by
    rintro c hpc rfl
    rw [hsecret, hpc, Server.secretAfter, if_pos rfl] at hnone'
    cases hnone'
  have haccept : ∀ c, s.runs r = .acceptCode c → c.identity = who → s'.runs r = .enroll c :=
    fun c hpc hc => h.accept hinv hnone hpc hc hs
  refine ⟨fun r' c hproved hc => ?_, fun hno => ?_, fun hno => ?_⟩
  · by_cases hr : r' = r
    · subst hr
      obtain hpc | hpc := proved_of_moves hstep.moves hproved
      · have hfirst : firstProved crypto who past = none := by
          refine h.fresh fun r₁ c₁ hproved₁ hc₁ => ?_
          have hholds₁ := holds_of_proved hinv hproved₁
          obtain rfl := (holds_of_verifyCode hinv hpc).eq hholds₁ (hc.trans hc₁.symm)
          rw [hpc] at hproved₁
          cases hproved₁
        have hright : (Totp.validSeed c.secret &&
            Totp.verify crypto.hmacSha1 c.secret c.otp s.clock.unix) = true := by
          by_contra hwrong
          simp only [loginStep, Server.advance, hpc, Option.some.injEq] at hs
          rw [← hs, Server.verifyCode, if_neg hwrong, goto_runs_self] at hproved
          cases hproved
        rw [firstProved_step rfl, hfirst, Option.none_or]
        simp only [provedBy, hpc]
        exact if_pos ⟨hc, hright⟩
      · exact firstProved_of_some rfl (h.proved r' c (by rw [hpc]; rfl) hc)
    · rw [hothers r' hr] at hproved
      exact firstProved_of_some rfl (h.proved r' c hproved hc)
  · have hbefore : ∀ r' c, s.runs r' = .enroll c → c.identity ≠ who := by
      intro r' c hpc
      by_cases hr : r' = r
      · subst hr
        exact henroll c hpc
      · exact hno r' c (by rw [hothers r' hr, hpc])
    rw [hused]
    have hunused := h.unused hbefore
    cases hpc : s.runs r with
    | acceptCode c =>
      have hrun := hinv.runs r
      rw [hpc] at hrun
      have hne : who.display ≠ c.username := by
        rw [hrun.1.username]
        intro heq
        have hc : c.identity = who := (Identity.display_injective heq).symm
        exact hno r c (haccept c hpc hc) hc
      rw [Server.otpUsedAfter, AList.lookup_insert_ne hne]
      exact hunused
    | _ => exact hunused
  · have hbefore : ∀ r' c, (s.runs r').proved = some c → c.identity ≠ who := by
      intro r' c hproved hc
      by_cases hr : r' = r
      · subst hr
        obtain hpc | hpc := proved_eq_some hproved
        · exact hno r' c (by rw [haccept c hpc hc]; rfl) hc
        · exact henroll c hpc hc
      · exact hno r' c (by rw [hothers r' hr]; exact hproved) hc
    rw [firstProved_step rfl, h.fresh hbefore, Option.none_or]
    cases hp : provedBy crypto who (s, .step r written) with
    | none => rfl
    | some x =>
      obtain ⟨r', written', c, ha, hpc, hc, _, hright⟩ := verifyCode_of_provedBy hp
      cases ha
      refine absurd hc (hno r c ?_)
      simp only [loginStep, Server.advance, hpc, Option.some.injEq] at hs
      rw [← hs, Server.verifyCode, if_pos hright, goto_runs_self]
      rfl

/-- A step that no handler takes by itself. -/
theorem Unenrolled.quiet (h : Unenrolled crypto past s who) (hquiet : Quiet s s')
    (hused : s'.otpUsed = s.otpUsed) (ha : a.isRestart = false)
    (hnot : ∀ r written, a ≠ .step r written) :
    Unenrolled crypto (past ++ [(s, a)]) s' who := by
  have hsame : ∀ r, (s'.runs r).proved = (s.runs r).proved := by
    intro r
    obtain hf | ⟨hold, hnew⟩ := hquiet.runs r
    · rw [hf.runs]
    · rw [proved_of_unreported hold, proved_of_unreported hnew]
  have henroll : ∀ r c, s.runs r = .enroll c → s'.runs r = .enroll c := by
    intro r c hpc
    obtain hf | ⟨hold, -⟩ := hquiet.runs r
    · rw [hf.runs, hpc]
    · rw [hpc] at hold
      cases hold
  have hfirst : firstProved crypto who (past ++ [(s, a)]) = firstProved crypto who past := by
    rw [firstProved_step ha]
    cases hp : provedBy crypto who (s, a) with
    | none => exact Option.or_none
    | some x =>
      obtain ⟨r, written, _, rfl, _⟩ := verifyCode_of_provedBy hp
      exact absurd rfl (hnot r written)
  refine ⟨fun r c hproved hc => ?_, fun hno => ?_, fun hno => ?_⟩
  · rw [hfirst]
    exact h.proved r c (by rw [← hsame r]; exact hproved) hc
  · rw [hused]
    exact h.unused fun r c hpc => hno r c (henroll r c hpc)
  · rw [hfirst]
    exact h.fresh fun r c hproved => hno r c (by rw [hsame r]; exact hproved)

/-- A process that begins has evaluated no code. -/
theorem unenrolled_of_no_runs (hruns : ∀ r, (s.runs r).proved = none) (hused : s.otpUsed = ∅)
    (hfirst : firstProved crypto who past = none) : Unenrolled crypto past s who := by
  refine ⟨fun r c hproved => ?_, fun _ => ?_, fun _ => hfirst⟩
  · cases (hruns r).symm.trans hproved
  · rw [hused]
    rfl

/-- An identity that has a secret keeps it until the process ends. -/
theorem secret_of_step (hinv : Inv crypto past s) (hs : loginStep crypto s a = some s')
    (ha : a.isRestart = false) {x : Text} (h : s.enrollment.secret who = some x) :
    s'.enrollment.secret who = some x := by
  obtain ⟨r, hok⟩ | henv | ⟨_, _, _, _, _, rfl, _⟩ := loginStep_cases hinv hs
  · exact (hok.others (r + 1) (Nat.succ_ne_self r)).enrolled who x h
  · exact (henv.frame 0).enrolled who x h
  · cases ha

theorem unenrolled_of_trace (h : (loginSystem crypto).Trace past s)
    (hnone : s.enrollment.secret who = none) : Unenrolled crypto past s who := by
  induction h with
  | init hinit =>
    obtain ⟨config, enrollment, devices, clock, written, rfl⟩ := hinit
    exact unenrolled_of_no_runs (fun _ => rfl) rfl rfl
  | @step past s s' a htrace hs ih =>
    have hinv := inv_of_trace htrace
    cases ha : a.isRestart with
    | true =>
      refine unenrolled_of_no_runs
        (fun r => proved_of_unreported (unreported_of_restart hs ha)) ?_ ?_
      · cases a with
        | restart =>
          obtain rfl := Option.some.inj hs
          rfl
        | _ => cases ha
      · rw [firstProved_snoc, nextProved, ha]
        rfl
    | false =>
      have hbefore : s.enrollment.secret who = none := by
        cases hsecret : s.enrollment.secret who with
        | none => rfl
        | some x => cases (secret_of_step hinv hs ha hsecret).symm.trans hnone
      obtain ⟨r, written, rfl, hstep⟩ | ⟨hquiet, hnot⟩ := codes_of_step hinv hs ha
      · exact (ih hbefore).own hinv hs hstep hbefore hnone
      · exact (ih hbefore).quiet hquiet (memory_of_step hs ha hnot).1 ha hnot

/-- An identity gets the secret that has been proved first. -/
theorem firstProved_of_step (htrace : (loginSystem crypto).Trace past s)
    (hs : loginStep crypto s a = some s') (ha : a.isRestart = false)
    (hnone : s.enrollment.secret who = none) {x : Text} (hx : s'.enrollment.secret who = some x) :
    firstProved crypto who (past ++ [(s, a)]) = some x := by
  have hinv := inv_of_trace htrace
  have h := unenrolled_of_trace htrace hnone
  obtain ⟨r, written, rfl, hstep⟩ | ⟨-, hnot⟩ := codes_of_step hinv hs ha
  · rw [(memory_of_advance hs).2] at hx
    cases hpc : s.runs r with
    | enroll c =>
      rw [hpc, Server.secretAfter] at hx
      split at hx
      next hc =>
        obtain rfl := Option.some.inj hx
        exact firstProved_of_some rfl (h.proved r c (by rw [hpc]; rfl) hc.symm)
      · cases hnone.symm.trans hx
    | _ =>
      rw [hpc] at hx
      cases hnone.symm.trans hx
  · rw [(memory_of_step hs ha hnot).2] at hx
    cases hnone.symm.trans hx

/-! ## The secret that is evaluated -/

/-- A candidate is the seed of its form. -/
theorem seed_of_trace (h : (loginSystem crypto).Trace past s) {c : MfaCheck}
    (hpc : s.runs r = .verifyCode c) (henrolling : c.enrolling = true) :
    c.secret = c.seed.getD [] := by
  induction h generalizing c with
  | init hinit =>
    obtain ⟨config, enrollment, devices, clock, written, rfl⟩ := hinit
    cases hpc
  | @step past s s' a htrace hs ih =>
    have hinv := inv_of_trace htrace
    cases ha : a.isRestart with
    | true =>
      have hnone := unreported_of_restart (r := r) hs ha
      rw [hpc] at hnone
      cases hnone
    | false =>
      obtain ⟨r', written, rfl, hstep⟩ | ⟨hquiet, -⟩ := codes_of_step hinv hs ha
      · by_cases hr : r = r'
        · subst hr
          have hmoves := hstep.moves
          generalize hbefore : s.runs r = pc at hmoves
          rw [hpc] at hmoves
          cases hmoves with
          | @read m _ hm =>
            have hs : s.advance crypto r written = some s' := hs
            simp only [Server.advance, hbefore, Option.some.injEq] at hs
            rw [← hs, Server.readRecord, goto_runs_self] at hpc
            obtain rfl := Pc.verifyCode.inj hpc
            have hrecord : (s.enrollment.entry m.identity).mfaSecret = none := by
              simpa [Record.enrolled] using henrolling
            show (s.enrollment.entry m.identity).mfaSecret.getD (m.seed.getD []) = _
            rw [hrecord, Option.getD_none]
          | struck hnone | other _ hnone => cases hnone
        · exact ih (by rw [← (hstep.others r hr).runs]; exact hpc) henrolling
      · obtain hf | ⟨-, hnew⟩ := hquiet.runs r
        · exact ih (by rw [← hf.runs]; exact hpc) henrolling
        · rw [hpc] at hnew
          cases hnew

/-- A code is evaluated against the stored secret, or against the seed of its form as long as there
is none. -/
theorem secret_of_verifyCode (h : (loginSystem crypto).Trace past s) {c : MfaCheck}
    (hpc : s.runs r = .verifyCode c) :
    c.secret = (s.enrollment.secret c.identity).getD (c.seed.getD []) := by
  have hread := (holds_of_verifyCode (inv_of_trace h) hpc).secret
  rw [hread]
  split
  next henrolling => exact seed_of_trace h hpc henrolling
  · rfl

variable (crypto who) in
/-- Within one process the stored secret of an identity is never replaced: once there is one it
stays, and codes are evaluated against it from then on; it is the first one that a code has proved
in this process, unless it was there already. -/
theorem secret_never_replaced {before after : Past} {e : Server × Act}
    (h : (loginSystem crypto).Trace (before ++ e :: after) s)
    (hsame : ∀ q ∈ e :: after, q.2.isRestart = false) :
    (∀ x, e.1.enrollment.secret who = some x →
      s.enrollment.secret who = some x ∧
        ∀ r c, s.runs r = .verifyCode c → c.identity = who → c.secret = x) ∧
    (e.1.enrollment.secret who = none →
      (∀ x, s.enrollment.secret who = some x →
        firstProved crypto who (before ++ e :: after) = some x) ∧
      (s.enrollment.secret who = none → ∀ r c, s.runs r = .verifyCode c → c.identity = who →
        c.secret = c.seed.getD [])) := by
  refine ⟨fun x hx => ?_, fun hnone => ⟨?_, fun hstill r c hpc hc => ?_⟩⟩
  · have hkept : s.enrollment.secret who = some x := by
      refine h.after (I := fun mid s => (∀ q ∈ e :: mid, q.2.isRestart = false) →
        s.enrollment.secret who = some x) (fun s' htrace hs hall => ?_)
        (fun mid s a s' htrace ih hs hall => ?_) hsame
      · exact secret_of_step (inv_of_trace htrace) hs (hall e List.mem_cons_self) hx
      · refine secret_of_step (inv_of_trace htrace) hs (hall (s, a) (by simp)) (ih fun q hq => ?_)
        exact hall q (List.mem_append_left [(s, a)] hq)
    refine ⟨hkept, fun r c hpc hc => ?_⟩
    rw [secret_of_verifyCode h hpc, hc, hkept, Option.getD_some]
  · have hfirst : s.enrollment.secret who = none ∨ ∃ x, s.enrollment.secret who = some x ∧
        firstProved crypto who (before ++ e :: after) = some x := by
      refine h.after (I := fun mid s => (∀ q ∈ e :: mid, q.2.isRestart = false) →
        s.enrollment.secret who = none ∨ ∃ x, s.enrollment.secret who = some x ∧
          firstProved crypto who (before ++ e :: mid) = some x) (fun s' htrace hs hall => ?_)
        (fun mid s a s' htrace ih hs hall => ?_) hsame
      · cases hx : s'.enrollment.secret who with
        | none => exact .inl rfl
        | some x =>
          exact .inr ⟨x, rfl, firstProved_of_step htrace hs (hall e List.mem_cons_self) hnone hx⟩
      · have ha : a.isRestart = false := hall (s, a) (by simp)
        rw [← List.cons_append, ← List.append_assoc]
        obtain hbefore | ⟨x, hx, hproved⟩ :=
          ih fun q hq => hall q (List.mem_append_left [(s, a)] hq)
        · cases hx : s'.enrollment.secret who with
          | none => exact .inl rfl
          | some x => exact .inr ⟨x, rfl, firstProved_of_step htrace hs ha hbefore hx⟩
        · exact .inr ⟨x, secret_of_step (inv_of_trace htrace) hs ha hx,
            firstProved_of_some ha hproved⟩
    intro x hx
    obtain hno | ⟨y, hy, hproved⟩ := hfirst
    · cases hno.symm.trans hx
    · rw [hproved, ← hy, hx]
  · rw [secret_of_verifyCode h hpc, hc, hstill, Option.getD_none]

end

end

namespace Sample

open Text.Ascii

/-- Alice's password, and a submission up to where its secret is stored. -/
def enrollRun : List Act :=
  loginRun ++ .arrive 2 (.mfaSubmit rightForm) :: .replicate 7 (.step 2 true)

end Sample

open Sample Text.Ascii

theorem secret_never_replaced_enrollRun :
    ∃ s, (loginSystem crypto).run mfaStarted enrollRun = some s ∧
      firstProved crypto alice ((loginSystem crypto).steps mfaStarted enrollRun) =
        rightForm.seed := by
  have hinit : (loginSystem crypto).init mfaStarted := ⟨_, _, _, _, _, rfl⟩
  have hsecret : (((loginSystem crypto).run mfaStarted enrollRun).any fun s =>
      s.enrollment.secret alice == rightForm.seed) = true := by decide
  obtain ⟨s, hs, hseed⟩ := (Option.any_eq_true ..).mp hsecret
  have htrace := (System.Trace.init hinit).run_steps hs
  have hsame : ∀ q ∈ (loginSystem crypto).steps mfaStarted enrollRun, q.2.isRestart = false := by
    intro q hq
    have hall : (enrollRun.all fun a => !a.isRestart) = true := by decide
    simpa using List.all_eq_true.mp hall q.2 (System.mem_of_mem_steps hq)
  rw [List.nil_append] at htrace
  cases hsteps : (loginSystem crypto).steps mfaStarted enrollRun with
  | nil =>
    have hne : ((loginSystem crypto).steps mfaStarted enrollRun).isEmpty = false := by decide
    rw [hsteps] at hne
    cases hne
  | cons e after =>
    rw [hsteps] at htrace hsame
    have htrace : (loginSystem crypto).Trace ([] ++ e :: after) s := htrace
    have hfirst : ((loginSystem crypto).steps mfaStarted enrollRun).head?.any (fun e =>
        (e.1.enrollment.secret alice).isNone) = true := by decide
    rw [hsteps] at hfirst
    have hnone := Option.isNone_iff_eq_none.mp hfirst
    have h := secret_never_replaced crypto alice htrace hsame
    exact ⟨s, hs, (h.2 hnone).1 _ (eq_of_beq hseed)⟩

end Webshell.Login
