import Webshell.Browser.Mouse

/-!
# The length cap of the mode tracker

The tracker drops the parameter bytes of a sequence that come after the first 32, and dispatches
what it has when the sequence ends. Beside it stands the same scanner without the cap. Both finish
the same sequences at the same bytes; a long one, of which the beginning reads as something else,
is misread.

## Main definitions

- `ModeTracker.feedUncapped`: the tracker without the cap
- `Faithful`: a sequence that the cap does not spoil
- `Harmless`: what its first 32 bytes have to say for that

## Main results

- `faithful_iff`: a sequence is faithful exactly if it is harmless
- `truncation_faithful_iff`: when the tracker reads a stream as it is
-/

namespace Webshell

namespace ModeTracker

/-- `feedByte` without the cap. -/
def feedByteUncapped (t : ModeTracker) (b : UInt8) : ModeTracker :=
  match t.st with
  | .ground => { t with st := if b = 0x1b then .esc else .ground }
  | .esc => { t with st := if b = 0x5b then .csi [] else if b = 0x1b then .esc else .ground }
  | .csi buf =>
    if 0x20 ≤ b ∧ b ≤ 0x3f then { t with st := .csi (buf ++ [b]) }
    else if 0x40 ≤ b ∧ b ≤ 0x7e then { t.dispatch buf b with st := .ground }
    else if b = 0x1b then { t with st := .esc }
    else { t with st := .csi buf }

def feedUncapped (t : ModeTracker) (bytes : List UInt8) : ModeTracker :=
  bytes.foldl feedByteUncapped t

end ModeTracker

/-- The stream finishes the sequence. -/
def Finishes (stream : List UInt8) (seq : List UInt8 × UInt8) : Prop :=
  ∃ before b after, stream = before ++ b :: after ∧
    (ModeTracker.new.feedUncapped before).st.completed b = some seq

/-- The tracker takes the sequence for what it is, or does nothing. -/
def Faithful (seq : List UInt8 × UInt8) : Prop :=
  (∀ m : Modes, m.dispatch (seq.1.take 32) seq.2 = m.dispatch seq.1 seq.2) ∨
    ∀ m : Modes, m.dispatch (seq.1.take 32) seq.2 = m

/-- The mode that a parameter is about. -/
def about (n : ℕ) : Option Mode :=
  if n = 1 then some .appCursor
  else if n = 25 then some .cursorHidden
  else if n ∈ altCodes then some .altScreen
  else if n = 2004 then some .bracketedPaste
  else if n ∈ mouseCodes then some (.mouse n)
  else none

/-- The variant of the alt screen that comes last. -/
def lastAlt (ns : List ℕ) : Option ℕ := (ns.filter (· ∈ altCodes)).getLast?

/-- The parameters are about the same modes, and a set sequence ends with the same variant of the
alt screen. -/
def SameModes (set : Bool) (ns ns' : List ℕ) : Prop :=
  (∀ mode, (∃ n ∈ ns, about n = some mode) ↔ ∃ n ∈ ns', about n = some mode) ∧
    (set = true → lastAlt ns = lastAlt ns')

/-- The first 32 bytes name no mode, or what all the bytes name. -/
def Harmless (seq : List UInt8 × UInt8) : Prop :=
  seq.2 = 0x68 ∨ seq.2 = 0x6c →
    (∀ n ∈ params (seq.1.take 32), about n = none) ∨
      SameModes (seq.2 = 0x68) (params (seq.1.take 32)) (params seq.1)

/-! ## What a parameter writes -/

/-- What a parameter leaves in the mode that it is about. -/
def wrote (set : Bool) (n : ℕ) : Option ℕ :=
  if n = 25 then (if set then none else some n) else if set then some n else none

theorem setting_eq (set : Bool) (n : ℕ) :
    setting set n = (about n).map fun mode => (mode, wrote set n) := by
  have halt : ∀ n ∈ altCodes, n ≠ 25 := by decide
  have hmouse : ∀ n ∈ mouseCodes, n ≠ 25 := by decide
  rw [setting, about]
  by_cases h1 : n = 1
  · subst h1
    rfl
  by_cases h25 : n = 25
  · subst h25
    rfl
  have hwrote : wrote set n = if set then some n else none := if_neg h25
  simp only [if_neg h1, if_neg h25, hwrote]
  split
  · rfl
  · split
    · rfl
    · split <;> rfl

theorem about_eq_altScreen {n : ℕ} : about n = some .altScreen ↔ n ∈ altCodes := by
  have hother : ∀ n ∈ altCodes, n ≠ 1 ∧ n ≠ 25 := by decide
  rw [about]
  by_cases halt : n ∈ altCodes
  · rw [if_neg (hother n halt).1, if_neg (hother n halt).2, if_pos halt]
    exact iff_of_true rfl halt
  · refine iff_of_false ?_ halt
    rw [if_neg halt]
    split_ifs <;> simp

/-- The number of a mode; the alt screen goes by several. -/
def Mode.code : Mode → ℕ
  | appCursor => 1
  | cursorHidden => 25
  | altScreen => 0
  | bracketedPaste => 2004
  | mouse n => n

theorem eq_code_of_about {n : ℕ} {mode : Mode} (hn : about n = some mode)
    (hmode : mode ≠ .altScreen) : n = mode.code := by
  rw [about] at hn
  by_cases h1 : n = 1
  · rw [if_pos h1] at hn
    obtain rfl := Option.some.inj hn
    exact h1
  by_cases h25 : n = 25
  · rw [if_neg h1, if_pos h25] at hn
    obtain rfl := Option.some.inj hn
    exact h25
  rw [if_neg h1, if_neg h25] at hn
  split at hn
  · exact absurd (Option.some.inj hn).symm hmode
  · split at hn
    next h2004 =>
      obtain rfl := Option.some.inj hn
      exact h2004
    next =>
      split at hn
      · obtain rfl := Option.some.inj hn
        rfl
      · cases hn

/-- What is written to a mode depends on the variant of the alt screen at most. -/
theorem wrote_eq {set : Bool} {n k : ℕ} {mode : Mode} (hn : about n = some mode)
    (hk : about k = some mode) (h : mode = .altScreen → set = false) :
    wrote set n = wrote set k := by
  by_cases hmode : mode = .altScreen
  · have halt : ∀ n ∈ altCodes, wrote false n = none := by decide
    subst hmode
    rw [h rfl, halt n (about_eq_altScreen.mp hn), halt k (about_eq_altScreen.mp hk)]
  · rw [eq_code_of_about hn hmode, eq_code_of_about hk hmode]

/-- The last parameter about a mode decides. -/
theorem last_settings (set : Bool) (ns : List ℕ) (mode : Mode) :
    WriteLog.last (ns.filterMap (setting set)) mode =
      ((ns.filter (about · = some mode)).getLast?).map (wrote set) := by
  induction ns using List.reverseRecOn with
  | nil => rfl
  | append_singleton ns n ih =>
    rw [List.filterMap_append, WriteLog.last_append, ih, List.filter_append]
    by_cases hn : about n = some mode
    · have hset : setting set n = some (mode, wrote set n) := by
        rw [setting_eq, hn]
        rfl
      simp [hset, hn, WriteLog.last]
    · have hnone : WriteLog.last ([n].filterMap (setting set)) mode = none := by
        rw [List.filterMap_cons, setting_eq, List.filterMap_nil]
        cases habout : about n with
        | none => rfl
        | some mode' =>
          have hne : mode' ≠ mode := fun heq => hn (heq ▸ habout)
          simp [WriteLog.last, hne]
      simp [hnone, hn]

/-- Something is written to a mode by a parameter about it. -/
theorem last_settings_ne_none {set : Bool} {ns : List ℕ} {mode : Mode} :
    WriteLog.last (ns.filterMap (setting set)) mode ≠ none ↔ ∃ n ∈ ns, about n = some mode := by
  rw [last_settings, ne_eq, Option.map_eq_none_iff, List.getLast?_eq_none_iff,
    List.filter_eq_nil_iff]
  simp

theorem lastAlt_eq (ns : List ℕ) :
    lastAlt ns = (ns.filter (about · = some .altScreen)).getLast? := by
  rw [lastAlt]
  congr 2
  funext n
  rw [decide_eq_decide]
  exact about_eq_altScreen.symm

theorem about_of_getLast? {ns : List ℕ} {mode : Mode} {n : ℕ}
    (h : (ns.filter (about · = some mode)).getLast? = some n) : about n = some mode :=
  of_decide_eq_true (List.mem_filter.mp (List.mem_of_getLast? h)).2

/-- Two lists of parameters leave the same in every mode if they are about the same modes. -/
theorem last_settings_eq_iff (set : Bool) (ns ns' : List ℕ) :
    (∀ mode, WriteLog.last (ns.filterMap (setting set)) mode =
      WriteLog.last (ns'.filterMap (setting set)) mode) ↔ SameModes set ns ns' := by
  constructor
  · intro h
    refine ⟨fun mode => ?_, fun hset => ?_⟩
    · rw [← last_settings_ne_none, ← last_settings_ne_none, h mode]
    · -- a set sequence writes the variant itself
      have hwrote : ∀ n ∈ altCodes, wrote true n = some n := by decide
      have halt := h .altScreen
      subst hset
      rw [last_settings, last_settings] at halt
      rw [lastAlt_eq, lastAlt_eq]
      cases hn : (ns.filter (about · = some .altScreen)).getLast? with
      | none =>
        rw [hn, Option.map_none, eq_comm, Option.map_eq_none_iff] at halt
        exact halt.symm
      | some n =>
        rw [hn, Option.map_some, hwrote n (about_eq_altScreen.mp (about_of_getLast? hn))] at halt
        obtain ⟨k, hk, hnk⟩ := Option.map_eq_some_iff.mp halt.symm
        rw [hwrote k (about_eq_altScreen.mp (about_of_getLast? hk))] at hnk
        rw [hk]
        exact hnk.symm
  · rintro ⟨habout, halt⟩ mode
    by_cases hvariant : mode = .altScreen ∧ set = true
    · obtain ⟨rfl, rfl⟩ := hvariant
      rw [last_settings, last_settings, ← lastAlt_eq, ← lastAlt_eq, halt rfl]
    · have hboth := habout mode
      rw [← @last_settings_ne_none set, ← @last_settings_ne_none set] at hboth
      rw [last_settings, last_settings] at hboth ⊢
      cases hn : (ns.filter (about · = some mode)).getLast? with
      | none =>
        rw [hn] at hboth
        exact (not_not.mp fun hne => hboth.mpr (Ne.symm hne) rfl)
      | some n =>
        rw [hn] at hboth
        cases hk : (ns'.filter (about · = some mode)).getLast? with
        | none =>
          rw [hk] at hboth
          exact absurd rfl (hboth.mp (Option.some_ne_none _))
        | some k =>
          rw [Option.map_some, Option.map_some]
          refine congrArg some (wrote_eq (about_of_getLast? hn) (about_of_getLast? hk) ?_)
          exact fun hmode => Bool.eq_false_of_not_eq_true fun hset => hvariant ⟨hmode, hset⟩

/-! ## When two sequences do the same -/

/-- Every tracked mode is on. -/
def Modes.allOn : Modes where
  appCursor := true
  cursorHidden := true
  altScreen := some 47
  bracketedPaste := true
  mouse := mouseCodes.toFinset
  altScreen_mem n hn := by
    obtain rfl := Option.mem_some_iff.mp hn
    decide
  mouse_mem n hn := List.mem_toFinset.mp hn

theorem value_allOn {n : ℕ} {mode : Mode} (h : about n = some mode) :
    Modes.allOn.value mode ≠ none := by
  cases mode with
  | mouse k =>
    have hmouse : k ∈ mouseCodes := by
      have hn : n = k := eq_code_of_about h (by simp)
      subst hn
      by_contra hno
      rw [about] at h
      split_ifs at h <;> simp_all
    simp [Modes.value, Modes.allOn, hmouse]
  | _ => simp [Modes.value, Modes.allOn]

/-- No value is that of a tracked mode in all states. -/
theorem exists_value_ne {n : ℕ} {mode : Mode} (h : about n = some mode) (v : Option ℕ) :
    ∃ m : Modes, m.value mode ≠ v := by
  cases v with
  | none => exact ⟨.allOn, value_allOn h⟩
  | some k =>
    refine ⟨.new, ?_⟩
    rw [Modes.value_new]
    exact (Option.some_ne_none k).symm

/-- What leaves a mode alone does not do to every state what another one does that writes to it. -/
theorem last_settings_ne_some {set : Bool} {ns ns' : List ℕ} {mode : Mode} {v : Option ℕ}
    (hsame : ∀ m : Modes, WriteLog.read m.value (ns.filterMap (setting set)) mode =
      WriteLog.read m.value (ns'.filterMap (setting set)) mode)
    (hnone : WriteLog.last (ns.filterMap (setting set)) mode = none) :
    WriteLog.last (ns'.filterMap (setting set)) mode ≠ some v := by
  intro hsome
  have hwritten : WriteLog.last (ns'.filterMap (setting set)) mode ≠ none :=
    hsome ▸ Option.some_ne_none v
  obtain ⟨n, -, habout⟩ := last_settings_ne_none.mp hwritten
  -- the mode can hold something else than what is written to it
  obtain ⟨m, hm⟩ := exists_value_ne habout v
  have hread := hsame m
  rw [WriteLog.read, WriteLog.read, hnone, hsome] at hread
  exact hm hread

/-- Two sequences of parameters do the same to every state if they leave the same in every mode. -/
theorem read_settings_eq_iff (set : Bool) (ns ns' : List ℕ) :
    (∀ m : Modes, WriteLog.read m.value (ns.filterMap (setting set)) =
      WriteLog.read m.value (ns'.filterMap (setting set))) ↔
    ∀ mode, WriteLog.last (ns.filterMap (setting set)) mode =
      WriteLog.last (ns'.filterMap (setting set)) mode := by
  constructor
  · intro h mode
    have hread : ∀ m : Modes, WriteLog.read m.value (ns.filterMap (setting set)) mode =
        WriteLog.read m.value (ns'.filterMap (setting set)) mode := fun m => congrFun (h m) mode
    cases hx : WriteLog.last (ns.filterMap (setting set)) mode with
    | none =>
      cases hy : WriteLog.last (ns'.filterMap (setting set)) mode with
      | none => rfl
      | some v => exact absurd hy (last_settings_ne_some hread hx)
    | some u =>
      cases hy : WriteLog.last (ns'.filterMap (setting set)) mode with
      | none => exact absurd hx (last_settings_ne_some (fun m => (hread m).symm) hy)
      | some v =>
        have hboth := hread .new
        rw [WriteLog.read, WriteLog.read, hx, hy] at hboth
        exact congrArg some hboth
  · intro h m
    funext mode
    rw [WriteLog.read, WriteLog.read, h mode]

/-- Parameters leave every state as it is if they are about no mode. -/
theorem read_settings_eq_self_iff (set : Bool) (ns : List ℕ) :
    (∀ m : Modes, WriteLog.read m.value (ns.filterMap (setting set)) = m.value) ↔
      ∀ n ∈ ns, about n = none := by
  refine (read_settings_eq_iff set ns []).trans ?_
  constructor
  · intro h n hn
    by_contra habout
    obtain ⟨mode, hmode⟩ := Option.ne_none_iff_exists'.mp habout
    exact last_settings_ne_none.mpr ⟨n, hn, hmode⟩ (h mode)
  · intro h mode
    by_contra hwritten
    obtain ⟨n, hn, habout⟩ := last_settings_ne_none.mp hwritten
    rw [h n hn] at habout
    cases habout

/-- A sequence is read as it is, or not at all, exactly if its beginning says so. -/
theorem faithful_iff (seq : List UInt8 × UInt8) : Faithful seq ↔ Harmless seq := by
  -- the two kinds of sequences that are dispatched
  have hkind : ∀ set, (∀ buf, settings (buf, seq.2) = (params buf).filterMap (setting set)) →
      (Faithful seq ↔ (∀ n ∈ params (seq.1.take 32), about n = none) ∨
        SameModes set (params (seq.1.take 32)) (params seq.1)) := by
    intro set hset
    have hdispatch : ∀ (m : Modes) buf, (m.dispatch buf seq.2).value =
        WriteLog.read m.value ((params buf).filterMap (setting set)) := by
      intro m buf
      rw [m.value_dispatch, hset]
    have hsame : (∀ m : Modes, m.dispatch (seq.1.take 32) seq.2 = m.dispatch seq.1 seq.2) ↔
        SameModes set (params (seq.1.take 32)) (params seq.1) := by
      rw [← last_settings_eq_iff, ← read_settings_eq_iff]
      refine forall_congr' fun m => ?_
      rw [← hdispatch, ← hdispatch, Modes.value_injective.eq_iff]
    have hnothing : (∀ m : Modes, m.dispatch (seq.1.take 32) seq.2 = m) ↔
        ∀ n ∈ params (seq.1.take 32), about n = none := by
      rw [← read_settings_eq_self_iff set]
      refine forall_congr' fun m => ?_
      rw [← hdispatch]
      exact Modes.value_injective.eq_iff.symm
    rw [Faithful, hsame, hnothing, or_comm]
  by_cases hh : seq.2 = 0x68
  · rw [hkind true fun buf => by rw [settings, if_pos hh], Harmless, hh]
    simp
  by_cases hl : seq.2 = 0x6c
  · rw [hkind false fun buf => by rw [settings, if_neg hh, if_pos hl], Harmless, hl]
    simp
  · refine iff_of_true (.inr fun m => ?_) fun hboth => absurd hboth (not_or.mpr ⟨hh, hl⟩)
    rw [Modes.dispatch, if_neg hh, if_neg hl]

/-! ## The two scanners -/

namespace ModeTracker

theorem feedByteUncapped_st (t : ModeTracker) (b : UInt8) :
    (t.feedByteUncapped b).st = t.st.nextControl b := by
  unfold feedByteUncapped Scan.nextControl
  cases t.st with
  | ground => rfl
  | esc => rfl
  | csi buf =>
    simp only
    split_ifs <;> rfl

theorem feedByteUncapped_toModes (t : ModeTracker) (b : UInt8) :
    (t.feedByteUncapped b).toModes = ((t.st.completed b).toList).foldl
      (fun m seq => m.dispatch seq.1 seq.2) t.toModes := by
  -- the cap is about what the scanner keeps, not about what it completes
  have hsame : (t.feedByteUncapped b).toModes = (t.feedByte b).toModes := by
    unfold feedByteUncapped feedByte
    cases t.st with
    | ground => rfl
    | esc => rfl
    | csi buf =>
      simp only
      split_ifs <;> rfl
  rw [hsame, feedByte_toModes]

/-- **Step lemma**: the tracker stays where the scanner without the cap is, less the bytes for
which it has no room. -/
theorem feed_st_eq_cut (stream : List UInt8) :
    (new.feed stream).st = (new.feedUncapped stream).st.cut := by
  induction stream using List.reverseRecOn with
  | nil => rfl
  | append_singleton stream b ih =>
    rw [feed, feedUncapped, List.foldl_append, List.foldl_append]
    show ((new.feed stream).feedByte b).st = ((new.feedUncapped stream).feedByteUncapped b).st.cut
    rw [feedByte_st, feedByteUncapped_st, ih, Scan.next_cut]

end ModeTracker

open ModeTracker in
/-- **When the cap does not misread a mode.** However a stream is split up, the tracker and the
scanner without the cap finish the same sequences at the same bytes; the tracker dispatches the
first 32 bytes of each. It reads all of them as they are, or not at all, exactly if the first 32
bytes of each one that sets or resets private modes name no tracked mode, or the same modes as all
its bytes do, with the same last variant of the alt screen. -/
theorem truncation_faithful_iff (chunks : List (List UInt8)) :
    let stream := chunks.flatten
    (chunks.foldl feed new = new.feed stream ∧
      chunks.foldl feedUncapped new = new.feedUncapped stream) ∧
    (∀ before b after, stream = before ++ b :: after →
      let finished := (new.feedUncapped before).st.completed b
      (new.feed before).st.completed b = finished.map cutSequence ∧
      ((new.feed before).feedByte b).toModes =
        finished.elim (new.feed before).toModes
          (fun seq => (new.feed before).toModes.dispatch (seq.1.take 32) seq.2) ∧
      ((new.feedUncapped before).feedByteUncapped b).toModes =
        finished.elim (new.feedUncapped before).toModes
          (fun seq => (new.feedUncapped before).toModes.dispatch seq.1 seq.2)) ∧
    ((∀ seq, Finishes stream seq → Faithful seq) ↔ ∀ seq, Finishes stream seq → Harmless seq) := by
  intro stream
  refine ⟨⟨List.foldl_flatten.symm, List.foldl_flatten.symm⟩, fun before b after _ => ?_, ?_⟩
  · intro finished
    have hcompleted : (new.feed before).st.completed b = finished.map cutSequence := by
      rw [feed_st_eq_cut, Scan.completed_cut]
    refine ⟨hcompleted, ?_, ?_⟩
    · rw [feedByte_toModes, hcompleted]
      cases finished <;> rfl
    · rw [feedByteUncapped_toModes]
      show (finished.toList).foldl _ _ = _
      cases finished <;> rfl
  · exact forall_congr' fun seq => imp_congr_right fun _ => faithful_iff seq

/-! ## A number that is cut -/

/-- `CSI ?`, thirteen zeros and an empty parameter, and then `20041`, of which the last digit is
the 33rd byte. -/
def cutNumber : List UInt8 :=
  [0x1b, 0x5b, 0x3f] ++ (List.replicate 13 [0x30, 0x3b]).flatten ++
    [0x3b, 0x32, 0x30, 0x30, 0x34, 0x31, 0x68]

/-- The tracker reads the 2004 of bracketed paste, which the stream does not contain. -/
theorem cutNumber_misread :
    ¬ ∀ seq, Finishes cutNumber seq → Faithful seq := by
  intro h
  have hfinishes : Finishes cutNumber ((cutNumber.drop 2).dropLast, 0x68) :=
    ⟨cutNumber.dropLast, 0x68, [], by decide, by decide⟩
  obtain hsame | hnothing := h _ hfinishes
  · have hpaste := congrArg Modes.bracketedPaste (hsame .new)
    revert hpaste
    decide
  · have hpaste := congrArg Modes.bracketedPaste (hnothing .new)
    revert hpaste
    decide

end Webshell
