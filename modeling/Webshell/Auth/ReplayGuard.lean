import Webshell.Auth.Totp
import Webshell.Lib.Transition

/-!
# Single use of TOTP codes

The submissions of one identity against its replay guard, in the order of the clock. A code that
was accepted for a time step stays in the guard's memory while that step is inside `verify`'s
window, unless the memory's bound of three entries pushes it out first. The guard reads the clock
after `verify` has, and goes by its own reading.

## Main definitions

- `guardSystem`: the submissions of one identity
- `Reuses`, `SingleUse`: a spent code accepted again inside its window, and runs without that
- `Evicts`: a submission of a new code to a full memory whose oldest code may still verify
- `Outlasts`: a submission whose code the guard forgets between the two readings

## Main results

- `single_use_of_kept`: codes are single-use in every run without such submissions; the latter use
  a code again at once, and the former let the next submission do so
- `reordered_steps_reuse_a_code`: four codes of neighbouring steps, submitted out of order, and
  the first of them accepted once more; and a handler that pauses between the two readings
-/

namespace Webshell.Totp

open Transition

/-- One submission of the form: the text, and the two moments the clock is read, by `verify` and
then by the guard. -/
structure Submission where
  otp : Text
  verifyAt : ℕ
  acceptAt : ℕ

/-- The guard of one identity, the last moment its clock was read, and every code accepted so
far with each step it was accepted for. -/
structure Guard where
  recent : Recent
  clock : ℕ
  spent : List (Text × ℕ)
deriving DecidableEq

section
variable (hmacSha1 : HmacSha1) (seed : Text)

/-- `verified` and `accepted` of `mfa_submit`, and the guard's memory afterwards. -/
def submit (recent : Recent) (sub : Submission) : Bool × Recent :=
  if validSeed seed && verify hmacSha1 seed sub.otp sub.verifyAt then
    acceptAt recent sub.otp sub.acceptAt
  else (false, recent)

/-- The steps of the window that show the submitted code. -/
def shownBy (sub : Submission) : List ℕ :=
  (window sub.verifyAt).filter fun k => codeAt hmacSha1 seed k == some sub.otp.trim

/-- Submissions in the order of the clock. -/
def guardStep (s : Guard) (sub : Submission) : Option Guard :=
  if s.clock ≤ sub.verifyAt ∧ sub.verifyAt ≤ sub.acceptAt then
    let outcome := submit hmacSha1 seed s.recent sub
    some {
      recent := outcome.2
      clock := sub.acceptAt
      spent := if outcome.1 then
        s.spent ++ (shownBy hmacSha1 seed sub).map fun k => (sub.otp.trim, k) else s.spent }
  else none

def guardSystem : System Guard Submission where
  init s := s = { recent := [], clock := 0, spent := [] }
  step := guardStep hmacSha1 seed

/-- The submission is accepted, and its code was spent for a step that `verify` finds inside the
window. -/
def Reuses (s : Guard) (sub : Submission) : Prop :=
  (submit hmacSha1 seed s.recent sub).1 = true ∧
    ∃ k, (sub.otp.trim, k) ∈ s.spent ∧ k ∈ window sub.verifyAt

/-- No submission of the run has used a code again. -/
def SingleUse (past : List (Guard × Submission)) : Prop :=
  ∀ e ∈ past, ¬ Reuses hmacSha1 seed e.1 e.2

/-- A code that verifies and that the guard does not hold comes to a full memory, and the oldest
code in it was spent for a step that a later reading of the clock may find inside the window. -/
def Evicts (s : Guard) (sub : Submission) : Prop :=
  (validSeed seed = true ∧ verify hmacSha1 seed sub.otp sub.verifyAt = true ∧
      ∀ time, (sub.otp.trim, time) ∉ live s.recent sub.acceptAt) ∧
    ∃ code time rest k later, live s.recent sub.acceptAt = (code, time) :: rest ∧
      rest.length + 1 = replayMemory ∧ (code, k) ∈ s.spent ∧
      sub.acceptAt ≤ later ∧ k ∈ window later

/-- The code was spent for a step that `verify` finds inside the window, and the guard reads the
clock when its entry of the code is too old. -/
def Outlasts (s : Guard) (sub : Submission) : Prop :=
  ∃ k, (sub.otp.trim, k) ∈ s.spent ∧ k ∈ window sub.verifyAt ∧
    ∃ time, (sub.otp.trim, time) ∈ s.recent ∧ replayWindowSecs ≤ sub.acceptAt - time

/-- The guard keeps every code that may still verify. -/
def Keeps (s : Guard) (sub : Submission) : Prop :=
  ¬ Evicts hmacSha1 seed s sub ∧ ¬ Outlasts s sub

/-! ## The invariant -/

/-- A text that `verify` accepts whenever `k` is inside the window. -/
structure Shows (k : ℕ) (code : Text) : Prop where
  valid : validSeed seed = true
  length : code.byteLength = 6
  digits : code.all Text.isDigit = true
  shown : codeAt hmacSha1 seed k = some code

theorem Shows.trim {hmacSha1 seed k code} (h : Shows hmacSha1 seed k code) : code.trim = code :=
  Text.trim_of_digits h.digits

theorem Shows.verify {hmacSha1 seed k code} (h : Shows hmacSha1 seed k code) {otp : Text}
    (hotp : otp.trim = code) {now : ℕ} (hk : k ∈ window now) :
    verify hmacSha1 seed otp now = true := by
  have hmem : code ∈ (window now).filterMap (codeAt hmacSha1 seed) :=
    List.mem_filterMap.mpr ⟨k, hk, h.shown⟩
  simp only [Totp.verify, hotp, h.length, h.digits, ne_eq, not_true_eq_false, Bool.true_eq_false,
    or_self, if_false]
  exact List.any_eq_true.mpr ⟨code, hmem, beq_self_eq_true _⟩

/-- What every state of a run without evictions keeps. -/
structure GuardInv (s : Guard) : Prop where
  /-- A code is remembered once. -/
  nodup : (s.recent.map Prod.fst).Nodup
  times : ∀ entry ∈ s.recent, entry.2 ≤ s.clock
  shows : ∀ code k, (code, k) ∈ s.spent → Shows hmacSha1 seed k code ∧ k ≤ s.clock / stepSecs + 1
  /-- A spent code is past its window or still remembered. -/
  remembered : ∀ code k, (code, k) ∈ s.spent → k + 1 < s.clock / stepSecs ∨
    ∃ time, (code, time) ∈ s.recent ∧ k ≤ time / stepSecs + 1

variable {hmacSha1 seed}

theorem guardInv_init : GuardInv hmacSha1 seed { recent := [], clock := 0, spent := [] } :=
  ⟨List.nodup_nil, by simp, by simp, by simp⟩

theorem submit_eq_true {recent : Recent} {sub : Submission} :
    (submit hmacSha1 seed recent sub).1 = true ↔
      validSeed seed = true ∧ verify hmacSha1 seed sub.otp sub.verifyAt = true ∧
        ∀ time, (sub.otp.trim, time) ∉ live recent sub.acceptAt := by
  by_cases hv : (validSeed seed && verify hmacSha1 seed sub.otp sub.verifyAt) = true
  · obtain ⟨hseed, hver⟩ := Bool.and_eq_true_iff.mp hv
    rw [submit, if_pos hv]
    rcases acceptAt_cases recent sub.otp sub.acceptAt with ⟨heq, time, hmem⟩ | ⟨heq, hfresh⟩
    · exact iff_of_false (by simp [heq]) fun h => h.2.2 time hmem
    · exact iff_of_true (by rw [heq]) ⟨hseed, hver, hfresh⟩
  · rw [submit, if_neg hv]
    exact iff_of_false Bool.false_ne_true fun h => hv (Bool.and_eq_true_iff.mpr ⟨h.1, h.2.1⟩)

/-- A spent code whose window is open is still in the memory, so it is accepted again exactly when
the guard finds its entry too old. -/
theorem GuardInv.reuses_iff {s : Guard} (h : GuardInv hmacSha1 seed s) {sub : Submission}
    (hclock : s.clock ≤ sub.verifyAt) : Reuses hmacSha1 seed s sub ↔ Outlasts s sub := by
  constructor
  · rintro ⟨hacc, k, hspent, hk⟩
    refine ⟨k, hspent, hk, ?_⟩
    have hnow : s.clock / stepSecs ≤ k + 1 :=
      (Nat.div_le_div_right hclock).trans (mem_window.mp hk).2
    rcases h.remembered _ k hspent with hpast | ⟨time, hmem, _⟩
    · omega
    · refine ⟨time, hmem, ?_⟩
      by_contra hlt
      exact (submit_eq_true.mp hacc).2.2 time (mem_live.mpr ⟨hmem, not_le.mp hlt⟩)
  · rintro ⟨k, hspent, hk, time, hmem, hold⟩
    have hshow := (h.shows _ k hspent).1
    refine ⟨submit_eq_true.mpr ⟨hshow.valid, hshow.verify rfl hk, fun t ht => ?_⟩, k, hspent, hk⟩
    -- the memory has one entry of the code
    obtain ⟨hmem', hlt⟩ := mem_live.mp ht
    have hsame : (sub.otp.trim, t) = (sub.otp.trim, time) :=
      List.inj_on_of_nodup_map h.nodup hmem' hmem rfl
    obtain rfl := (Prod.mk.inj hsame).2
    exact absurd hlt (not_lt.mpr hold)

/-- What a step does: the clock moves, and the memory either forgets its old entries, or also
takes in a verified code that it did not hold. -/
theorem guardStep_cases {s s' : Guard} {sub : Submission}
    (hstep : guardStep hmacSha1 seed s sub = some s') :
    s.clock ≤ sub.verifyAt ∧ sub.verifyAt ≤ sub.acceptAt ∧ s'.clock = sub.acceptAt ∧
      (((submit hmacSha1 seed s.recent sub).1 = false ∧ s'.spent = s.spent ∧
          (s'.recent = s.recent ∨ s'.recent = live s.recent sub.acceptAt)) ∨
        ((submit hmacSha1 seed s.recent sub).1 = true ∧
          validSeed seed = true ∧ verify hmacSha1 seed sub.otp sub.verifyAt = true ∧
          (∀ time, (sub.otp.trim, time) ∉ live s.recent sub.acceptAt) ∧
          s'.recent = kept (live s.recent sub.acceptAt) ++ [(sub.otp.trim, sub.acceptAt)] ∧
          s'.spent =
            s.spent ++ (shownBy hmacSha1 seed sub).map fun k => (sub.otp.trim, k))) := by
  unfold guardStep at hstep
  split at hstep
  case isFalse => simp at hstep
  case isTrue hclock =>
    rw [Option.some.injEq] at hstep
    subst hstep
    refine ⟨hclock.1, hclock.2, rfl, ?_⟩
    by_cases hv : (validSeed seed && verify hmacSha1 seed sub.otp sub.verifyAt) = true
    · obtain ⟨hseed, hver⟩ := Bool.and_eq_true_iff.mp hv
      rcases acceptAt_cases s.recent sub.otp sub.acceptAt with ⟨heq, _⟩ | ⟨heq, hfresh⟩
      · exact .inl ⟨by simp [submit, hv, heq], by simp [submit, hv, heq],
          .inr (by simp [submit, hv, heq])⟩
      · exact .inr ⟨by simp [submit, hv, heq], hseed, hver, hfresh, by simp [submit, hv, heq],
          by simp [submit, hv, heq]⟩
    · exact .inl ⟨by simp [submit, hv], by simp [submit, hv], .inl (by simp [submit, hv])⟩

theorem exists_guardStep {s : Guard} {sub : Submission}
    (h : s.clock ≤ sub.verifyAt ∧ sub.verifyAt ≤ sub.acceptAt) :
    ∃ s', (guardSystem hmacSha1 seed).step s sub = some s' := by
  simp only [guardSystem, guardStep, if_pos h, Option.some.injEq, exists_eq']

/-- A verified code shows every step it is spent for. -/
theorem shows_of_shownBy {sub : Submission} {k : ℕ} (hseed : validSeed seed = true)
    (hver : verify hmacSha1 seed sub.otp sub.verifyAt = true)
    (hk : k ∈ shownBy hmacSha1 seed sub) :
    Shows hmacSha1 seed k sub.otp.trim ∧ k ≤ sub.verifyAt / stepSecs + 1 := by
  obtain ⟨hwin, hcode⟩ := List.mem_filter.mp hk
  dsimp only [verify] at hver
  split at hver
  case isTrue => simp at hver
  case isFalse hshape =>
    simp only [ne_eq, not_or, Decidable.not_not, Bool.not_eq_false] at hshape
    exact ⟨⟨hseed, hshape.1, hshape.2, eq_of_beq hcode⟩, (mem_window.mp hwin).1⟩

/-- Without an eviction, the entries whose window is still open survive the acceptance. -/
theorem mem_kept_of_not_evicts {s : Guard} {sub : Submission} {code : Text} {time k : ℕ}
    (hne : ¬ Evicts hmacSha1 seed s sub) (hacc : (submit hmacSha1 seed s.recent sub).1 = true)
    (hspent : (code, k) ∈ s.spent) (hk : k ∈ window sub.acceptAt)
    (hlive : (code, time) ∈ live s.recent sub.acceptAt) :
    (code, time) ∈ kept (live s.recent sub.acceptAt) := by
  unfold kept
  split
  case isFalse => exact hlive
  case isTrue hfull =>
    cases hrec : live s.recent sub.acceptAt with
    | nil => rw [hrec] at hlive; exact absurd hlive List.not_mem_nil
    | cons oldest rest =>
      rw [hrec] at hlive hfull
      rcases List.mem_cons.mp hlive with rfl | hrest
      · exact absurd ⟨submit_eq_true.mp hacc, code, time, rest, k, _, hrec, hfull, hspent, le_rfl,
          hk⟩ hne
      · exact hrest

/-- A memory with room for one more code pushes none out. -/
theorem not_evicts_of_length_lt {s : Guard} {sub : Submission}
    (h : (live s.recent sub.acceptAt).length < replayMemory) : ¬ Evicts hmacSha1 seed s sub := by
  rintro ⟨_, code, time, rest, k, later, hlive, hfull, _⟩
  rw [hlive, List.length_cons, hfull] at h
  exact lt_irrefl _ h

/-- A spent code whose window is still open is among the entries that are young enough. -/
theorem GuardInv.live_of_open {s : Guard} (h : GuardInv hmacSha1 seed s) {now k : ℕ} {code : Text}
    (hclock : s.clock ≤ now) (hspent : (code, k) ∈ s.spent) (hopen : ¬ k + 1 < now / stepSecs) :
    ∃ time, (code, time) ∈ live s.recent now ∧ k ≤ time / stepSecs + 1 ∧ k ∈ window now := by
  have hdiv : s.clock / stepSecs ≤ now / stepSecs := Nat.div_le_div_right hclock
  have hk : k ∈ window now := by
    have := (h.shows code k hspent).2
    exact mem_window.mpr ⟨by omega, by omega⟩
  rcases h.remembered code k hspent with hold | ⟨time, hmem, htime⟩
  · omega
  · exact ⟨time, live_of_window hmem htime hk, htime, hk⟩

theorem GuardInv.shows_mono {s : Guard} (h : GuardInv hmacSha1 seed s) {now k : ℕ} {code : Text}
    (hclock : s.clock ≤ now) (hspent : (code, k) ∈ s.spent) :
    Shows hmacSha1 seed k code ∧ k ≤ now / stepSecs + 1 := by
  obtain ⟨hshows, hle⟩ := h.shows code k hspent
  have hdiv : s.clock / stepSecs ≤ now / stepSecs := Nat.div_le_div_right hclock
  exact ⟨hshows, by omega⟩

/-- A submission that is refused: at most old entries are forgotten. -/
theorem GuardInv.refused {s s' : Guard} (h : GuardInv hmacSha1 seed s) (hle : s.clock ≤ s'.clock)
    (hspent' : s'.spent = s.spent)
    (hrecent' : s'.recent = s.recent ∨ s'.recent = live s.recent s'.clock) :
    GuardInv hmacSha1 seed s' := by
  have hlive := live_sublist s.recent s'.clock
  have hsub : s'.recent.Sublist s.recent := by
    rcases hrecent' with heq | heq <;> rw [heq]
    exact hlive
  refine ⟨h.nodup.sublist (hsub.map _), fun e he => (h.times e (hsub.subset he)).trans hle, ?_, ?_⟩
  · intro code k hmem
    rw [hspent'] at hmem
    exact h.shows_mono hle hmem
  · intro code k hmem
    rw [hspent'] at hmem
    by_cases hpast : k + 1 < s'.clock / stepSecs
    · exact .inl hpast
    · obtain ⟨time, hmem', htime, _⟩ := h.live_of_open hle hmem hpast
      refine .inr ⟨time, ?_, htime⟩
      rcases hrecent' with heq | heq <;> rw [heq]
      exacts [hlive.subset hmem', hmem']

/-- A submission that is accepted: its code is new to the memory, and no code whose window is still
open is pushed out. -/
theorem GuardInv.accepted {s s' : Guard} {sub : Submission} (h : GuardInv hmacSha1 seed s)
    (hclock : s.clock ≤ sub.verifyAt) (hread : sub.verifyAt ≤ s'.clock)
    (hseed : validSeed seed = true) (hver : verify hmacSha1 seed sub.otp sub.verifyAt = true)
    (hfresh : ∀ time, (sub.otp.trim, time) ∉ live s.recent s'.clock)
    (hkeeps : ∀ code k time, (code, k) ∈ s.spent → k ∈ window s'.clock →
      (code, time) ∈ live s.recent s'.clock → (code, time) ∈ kept (live s.recent s'.clock))
    (hrecent' : s'.recent = kept (live s.recent s'.clock) ++ [(sub.otp.trim, s'.clock)])
    (hspent' : s'.spent =
      s.spent ++ (shownBy hmacSha1 seed sub).map fun k => (sub.otp.trim, k)) :
    GuardInv hmacSha1 seed s' := by
  have hle := hclock.trans hread
  have hkept : (kept (live s.recent s'.clock)).Sublist s.recent :=
    (kept_sublist _).trans (live_sublist ..)
  have hnew : ∀ k ∈ shownBy hmacSha1 seed sub,
      Shows hmacSha1 seed k sub.otp.trim ∧ k ≤ s'.clock / stepSecs + 1 := by
    intro k hk
    obtain ⟨hshows, hk⟩ := shows_of_shownBy hseed hver hk
    have hdiv : sub.verifyAt / stepSecs ≤ s'.clock / stepSecs := Nat.div_le_div_right hread
    exact ⟨hshows, by omega⟩
  refine ⟨?_, ?_, ?_, ?_⟩
  · rw [hrecent', List.map_append, List.nodup_append]
    refine ⟨h.nodup.sublist (hkept.map _), by simp, ?_⟩
    intro code hcode code' hcode' heq
    obtain ⟨⟨c, time⟩, hmem, rfl⟩ := List.mem_map.mp hcode
    simp only [List.map_cons, List.map_nil, List.mem_singleton] at hcode'
    refine hfresh time ?_
    rw [← hcode', ← heq]
    exact (kept_sublist _).subset hmem
  · intro e he
    rw [hrecent', List.mem_append, List.mem_singleton] at he
    rcases he with he | rfl
    · exact (h.times e (hkept.subset he)).trans hle
    · exact le_rfl
  · intro code k hmem
    rw [hspent', List.mem_append] at hmem
    rcases hmem with hmem | hmem
    · exact h.shows_mono hle hmem
    · obtain ⟨k', hk', heq⟩ := List.mem_map.mp hmem
      obtain ⟨rfl, rfl⟩ := Prod.mk.inj heq
      exact hnew k' hk'
  · intro code k hmem
    rw [hspent', List.mem_append] at hmem
    rcases hmem with hmem | hmem
    · by_cases hpast : k + 1 < s'.clock / stepSecs
      · exact .inl hpast
      · obtain ⟨time, hmem', htime, hk⟩ := h.live_of_open hle hmem hpast
        refine .inr ⟨time, ?_, htime⟩
        rw [hrecent', List.mem_append]
        exact .inl (hkeeps code k time hmem hk hmem')
    · obtain ⟨k', hk', heq⟩ := List.mem_map.mp hmem
      obtain ⟨rfl, rfl⟩ := Prod.mk.inj heq
      refine .inr ⟨s'.clock, ?_, (hnew k' hk').2⟩
      rw [hrecent', List.mem_append, List.mem_singleton]
      exact .inr rfl

theorem GuardInv.step {s s' : Guard} {sub : Submission} (h : GuardInv hmacSha1 seed s)
    (hne : ¬ Evicts hmacSha1 seed s sub) (hstep : guardStep hmacSha1 seed s sub = some s') :
    GuardInv hmacSha1 seed s' := by
  obtain ⟨hclock, hread, hnow, hcase⟩ := guardStep_cases hstep
  rcases hcase with ⟨_, hspent', hrecent'⟩ | ⟨hacc, hseed, hver, hfresh, hrecent', hspent'⟩
  · rw [← hnow] at hrecent'
    exact h.refused (hnow ▸ hclock.trans hread) hspent' hrecent'
  · have hkeeps : ∀ code k time, (code, k) ∈ s.spent → k ∈ window sub.acceptAt →
        (code, time) ∈ live s.recent sub.acceptAt →
        (code, time) ∈ kept (live s.recent sub.acceptAt) :=
      fun _ _ _ hspent hk hlive => mem_kept_of_not_evicts hne hacc hspent hk hlive
    rw [← hnow] at hread hfresh hrecent' hkeeps
    exact h.accepted hclock hread hseed hver hfresh hkeeps hrecent' hspent'

/-! ## Evictions -/

/-- The code an eviction forgets is accepted again as long as it verifies. -/
theorem GuardInv.reuses_of_evicts {s s' : Guard} {sub : Submission}
    (h : GuardInv hmacSha1 seed s) (hev : Evicts hmacSha1 seed s sub)
    (hstep : guardStep hmacSha1 seed s sub = some s') :
    ∃ again s'', guardStep hmacSha1 seed s' again = some s'' ∧ Reuses hmacSha1 seed s' again := by
  obtain ⟨haccepts, code, time, rest, k, later, hlive, hfull, hspent, hlater, hk⟩ := hev
  have hacc := submit_eq_true.mpr haccepts
  obtain ⟨_, _, hnow, ⟨hrefused, _⟩ | ⟨_, _, _, hfresh, hrecent', hspent'⟩⟩ := guardStep_cases hstep
  · exact absurd hacc (by simp [hrefused])
  · have hshow := (h.shows code k hspent).1
    have hkept : kept (live s.recent sub.acceptAt) = rest := by
      rw [kept, hlive, List.length_cons, if_pos hfull, List.tail_cons]
    have hnodup : code ∉ rest.map Prod.fst := by
      have hlive' := h.nodup.sublist ((live_sublist s.recent sub.acceptAt).map Prod.fst)
      rw [hlive, List.map_cons] at hlive'
      exact (List.nodup_cons.mp hlive').1
    have hne : code ≠ sub.otp.trim := by
      rintro rfl
      exact hfresh time (hlive ▸ List.mem_cons_self)
    have hgone : ∀ t, (code, t) ∉ s'.recent := by
      intro t hmem
      rw [hrecent', hkept, List.mem_append, List.mem_singleton] at hmem
      rcases hmem with hmem | heq
      · exact hnodup (List.mem_map.mpr ⟨_, hmem, rfl⟩)
      · exact hne (Prod.mk.inj heq).1
    refine ⟨⟨code, later, later⟩, _, if_pos ⟨hnow.le.trans hlater, le_rfl⟩, ?_, k, ?_, hk⟩
    · refine submit_eq_true.mpr ⟨hshow.valid, hshow.verify hshow.trim hk, fun t hmem => ?_⟩
      rw [hshow.trim] at hmem
      exact hgone t (mem_live.mp hmem).1
    · rw [hshow.trim, hspent']
      exact List.mem_append_left _ hspent

variable (hmacSha1 seed) in
/-- In a run whose submissions all keep the codes that may still verify, no code is used twice. The
next submission uses a code again exactly if the guard forgets the code between the two readings of
the clock; and after one that pushes out a code that may still verify, that code can be used
again. -/
theorem single_use_of_kept {past : List (Guard × Submission)} {s : Guard}
    (h : (guardSystem hmacSha1 seed).Trace past s)
    (hkeeps : ∀ e ∈ past, Keeps hmacSha1 seed e.1 e.2) :
    SingleUse hmacSha1 seed past ∧
      ∀ sub s', (guardSystem hmacSha1 seed).step s sub = some s' →
        (Reuses hmacSha1 seed s sub ↔ Outlasts s sub) ∧
        (Evicts hmacSha1 seed s sub →
          ∃ again s'', (guardSystem hmacSha1 seed).step s' again = some s'' ∧
            Reuses hmacSha1 seed s' again) := by
  have hinv : GuardInv hmacSha1 seed s ∧ SingleUse hmacSha1 seed past := by
    induction h with
    | init hinit =>
      obtain rfl := hinit
      exact ⟨guardInv_init, fun e he => absurd he List.not_mem_nil⟩
    | @step past s s' sub _ hstep ih =>
      obtain ⟨hinv, hsingle⟩ := ih fun e he => hkeeps e (List.mem_append_left _ he)
      obtain ⟨hevicts, houtlasts⟩ :=
        hkeeps (s, sub) (List.mem_append_right _ (List.mem_singleton_self _))
      refine ⟨hinv.step hevicts hstep, fun e he hreuses => ?_⟩
      obtain he | he := List.mem_append.mp he
      · exact hsingle e he hreuses
      · obtain rfl := List.mem_singleton.mp he
        exact houtlasts ((hinv.reuses_iff (guardStep_cases hstep).1).mp hreuses)
  refine ⟨hinv.2, fun sub s' hstep => ⟨?_, fun hev => hinv.1.reuses_of_evicts hev hstep⟩⟩
  exact hinv.1.reuses_iff (guardStep_cases hstep).1

end

/-! ## The run that reuses a code -/

/-- The codes of the next, the current and the previous step of a second, in the order in which
they are submitted. -/
def sampleCodes : List (Text × ℕ) :=
  [("119644".toList, 58907521), ("745690".toList, 58907520), ("815958".toList, 58907519)]

def sampleSubmission (i : ℕ) : Submission :=
  ⟨(sampleCodes.getD i ([], 0)).1, 1767225600, 1767225600⟩

/-- The guard after the first `n` of them. -/
def sampleGuard (n : ℕ) : Guard where
  recent := (sampleCodes.take n).map fun entry => (entry.1, 1767225600)
  clock := if n = 0 then 0 else 1767225600
  spent := sampleCodes.take n

/-- The second of them once more, by a handler that takes its time between the two readings. -/
def repeatedSubmission : Submission := ⟨"745690".toList, 1767225605, 1767225620⟩

def repeatedGuard : Guard := { sampleGuard 3 with clock := 1767225620 }

/-- The three of them, and the repetition. -/
def samplePast : List (Guard × Submission) :=
  [(sampleGuard 0, sampleSubmission 0), (sampleGuard 1, sampleSubmission 1),
    (sampleGuard 2, sampleSubmission 2), (sampleGuard 3, repeatedSubmission)]

/-- The code of the step after those, thirty seconds later. -/
def lateSubmission : Submission := ⟨"582485".toList, 1767225630, 1767225630⟩

def lateGuard : Guard where
  recent := [("745690".toList, 1767225600), ("815958".toList, 1767225600),
    ("582485".toList, 1767225630)]
  clock := 1767225630
  spent := sampleCodes ++ [("582485".toList, 58907522)]

theorem trace_sampleGuard : (guardSystem sampleHmac sampleSeed).Trace
    [(sampleGuard 0, sampleSubmission 0), (sampleGuard 1, sampleSubmission 1),
      (sampleGuard 2, sampleSubmission 2)] (sampleGuard 3) := by
  have hstart : (guardSystem sampleHmac sampleSeed).Trace [] (sampleGuard 0) := .init rfl
  have hfirst : (guardSystem sampleHmac sampleSeed).step (sampleGuard 0) (sampleSubmission 0) =
      some (sampleGuard 1) := by decide
  have hsecond : (guardSystem sampleHmac sampleSeed).step (sampleGuard 1) (sampleSubmission 1) =
      some (sampleGuard 2) := by decide
  have hthird : (guardSystem sampleHmac sampleSeed).step (sampleGuard 2) (sampleSubmission 2) =
      some (sampleGuard 3) := by decide
  exact ((hstart.step hfirst).step hsecond).step hthird

theorem trace_samplePast :
    (guardSystem sampleHmac sampleSeed).Trace samplePast repeatedGuard := by
  have hstep : (guardSystem sampleHmac sampleSeed).step (sampleGuard 3) repeatedSubmission =
      some repeatedGuard := by decide +kernel
  exact trace_sampleGuard.step hstep

theorem samplePast_keeps : ∀ e ∈ samplePast, Keeps sampleHmac sampleSeed e.1 e.2 := by
  have hroom : ∀ i < 3, (live (sampleGuard i).recent (sampleSubmission i).acceptAt).length <
      replayMemory := by decide
  have hheld : ("745690".toList, 1767225600) ∈
      live (sampleGuard 3).recent repeatedSubmission.acceptAt := by decide
  have hyoung : ∀ e ∈ samplePast, ∀ entry ∈ e.1.recent,
      e.2.acceptAt - entry.2 < replayWindowSecs := by decide
  intro e he
  refine ⟨?_, fun ⟨_, _, _, time, hmem, hold⟩ => ?_⟩
  · simp only [samplePast, List.mem_cons, List.not_mem_nil, or_false] at he
    rcases he with rfl | rfl | rfl | rfl
    · exact not_evicts_of_length_lt (hroom 0 (by decide))
    · exact not_evicts_of_length_lt (hroom 1 (by decide))
    · exact not_evicts_of_length_lt (hroom 2 (by decide))
    · exact fun hev => hev.1.2.2 1767225600 hheld
  · exact absurd (hyoung e he _ hmem) (not_lt.mpr hold)

theorem guardStep_lateSubmission : (guardSystem sampleHmac sampleSeed).step
    repeatedGuard lateSubmission = some lateGuard := by
  decide

theorem single_use_of_kept_sample :
    SingleUse sampleHmac sampleSeed samplePast ∧
      (Reuses sampleHmac sampleSeed repeatedGuard lateSubmission ↔
        Outlasts repeatedGuard lateSubmission) ∧
      (Evicts sampleHmac sampleSeed repeatedGuard lateSubmission →
        ∃ again s'', (guardSystem sampleHmac sampleSeed).step lateGuard again = some s'' ∧
          Reuses sampleHmac sampleSeed lateGuard again) := by
  obtain ⟨hsingle, hnext⟩ :=
    single_use_of_kept sampleHmac sampleSeed trace_samplePast samplePast_keeps
  exact ⟨hsingle, hnext _ _ guardStep_lateSubmission⟩

/-- The first code once more, when the fourth one has pushed it out. -/
def forgottenSubmission : Submission := ⟨"119644".toList, 1767225630, 1767225630⟩

/-- The first code once more, by a handler whose two readings are on both sides of the moment in
which the guard forgets it. -/
def pausedSubmission : Submission := ⟨"119644".toList, 1767225689, 1767225690⟩

/-- The codes of the next and the current step are spent before the one of the previous step, so
the code of a fourth step pushes out one that is still inside the window. And a code that is sent a
second time late in its window is used again if its handler pauses between the two readings. -/
theorem reordered_steps_reuse_a_code :
    (∃ past s, (guardSystem sampleHmac sampleSeed).Trace past s ∧
        past.map Prod.snd = [sampleSubmission 0, sampleSubmission 1, sampleSubmission 2,
          repeatedSubmission, lateSubmission, forgottenSubmission] ∧
        ¬ SingleUse sampleHmac sampleSeed past) ∧
      ∃ past s, (guardSystem sampleHmac sampleSeed).Trace past s ∧
        past.map Prod.snd = [sampleSubmission 0, pausedSubmission] ∧
        ¬ SingleUse sampleHmac sampleSeed past := by
  have hforgotten : Reuses sampleHmac sampleSeed lateGuard forgottenSubmission :=
    ⟨by decide, 58907521, by decide, by decide⟩
  have hpaused : Reuses sampleHmac sampleSeed (sampleGuard 1) pausedSubmission :=
    ⟨by decide, 58907521, by decide, by decide⟩
  refine ⟨?_, ?_⟩
  · obtain ⟨s, hstep⟩ : ∃ s, (guardSystem sampleHmac sampleSeed).step lateGuard
        forgottenSubmission = some s := exists_guardStep (by decide)
    refine ⟨_, _, (trace_samplePast.step guardStep_lateSubmission).step hstep, rfl, fun h => ?_⟩
    exact h _ (List.mem_append_right _ (List.mem_singleton_self _)) hforgotten
  · have hstart : (guardSystem sampleHmac sampleSeed).Trace [] (sampleGuard 0) := .init rfl
    have hstep : (guardSystem sampleHmac sampleSeed).step (sampleGuard 0) (sampleSubmission 0) =
        some (sampleGuard 1) := by decide
    obtain ⟨s, hpause⟩ : ∃ s, (guardSystem sampleHmac sampleSeed).step (sampleGuard 1)
        pausedSubmission = some s := exists_guardStep (by decide)
    refine ⟨_, _, (hstart.step hstep).step hpause, rfl, fun h => ?_⟩
    exact h _ (List.mem_append_right _ (List.mem_singleton_self _)) hpaused

end Webshell.Totp
