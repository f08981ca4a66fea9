import Webshell.Terminals.Scrollback

/-!
# Modes of a full replay

A client that restarts parses the tracker's synthesis and then the ring. The synthesis puts it
in the modes the evicted bytes left, but on the ground, while the evicted bytes may end within a
control sequence that the ring completes.

## Main definitions

- `CutHarmless`: what a boundary within a control sequence may not change

## Main results

- `ModeTracker.feed_synth`: a fresh tracker fed the synthesis has the tracker's modes
- `replay_modes_iff`: when a full replay ends in the modes of the whole stream
- `split_sequence_loses_alt_screen`: a boundary that loses the alt screen
-/

namespace Webshell

/-! ## The synthesis -/

/-- What a stream sets, read from the ground. -/
def settingsOf (bytes : List UInt8) : List (Mode × Option ℕ) :=
  (sequences .ground bytes).flatMap settings

/-- A stream after which the scanner is back on the ground. -/
def Whole (bytes : List UInt8) : Prop := Scan.ground.after bytes = .ground

instance : DecidablePred Whole := fun _ => inferInstanceAs (Decidable (_ = _))

theorem Whole.append {a b : List UInt8} (ha : Whole a) (hb : Whole b) : Whole (a ++ b) := by
  rw [Whole, Scan.after, List.foldl_append]
  exact (congrArg (fun st => Scan.after st b) ha).trans hb

theorem whole_nil : Whole [] := rfl

theorem whole_flatMap {ns : List ℕ} {f : ℕ → List UInt8} (h : ∀ n ∈ ns, Whole (f n)) :
    Whole (ns.flatMap f) := by
  induction ns with
  | nil => exact whole_nil
  | cons n ns ih =>
    exact (h n List.mem_cons_self).append (ih fun k hk => h k (List.mem_cons_of_mem n hk))

theorem settingsOf_append {a b : List UInt8} (ha : Whole a) :
    settingsOf (a ++ b) = settingsOf a ++ settingsOf b := by
  rw [settingsOf, sequences_append, List.flatMap_append, ha]
  rfl

theorem settingsOf_flatMap {ns : List ℕ} {f : ℕ → List UInt8} (h : ∀ n ∈ ns, Whole (f n)) :
    settingsOf (ns.flatMap f) = ns.flatMap fun n => settingsOf (f n) := by
  induction ns with
  | nil => rfl
  | cons n ns ih =>
    rw [List.flatMap_cons, settingsOf_append (h n List.mem_cons_self),
      ih fun k hk => h k (List.mem_cons_of_mem n hk), List.flatMap_cons]

/-- The parameters the tracker knows. -/
def trackedCodes : List ℕ := [1, 25, 2004] ++ altCodes ++ mouseCodes

theorem whole_decset : ∀ n ∈ trackedCodes, ∀ f ∈ [0x68, 0x6c], Whole (Modes.decset n f) := by
  have hall : ∀ n ∈ trackedCodes, Whole (Modes.decset n 0x68) ∧ Whole (Modes.decset n 0x6c) := by
    decide
  intro n hn f hf
  obtain rfl | hf := List.mem_cons.mp hf
  · exact (hall n hn).1
  · obtain rfl := List.mem_singleton.mp hf
    exact (hall n hn).2

theorem settingsOf_decset : ∀ n ∈ trackedCodes,
    settingsOf (Modes.decset n 0x68) = (setting true n).toList ∧
      settingsOf (Modes.decset n 0x6c) = (setting false n).toList := by
  decide

theorem setting_altCodes : ∀ n ∈ altCodes, setting true n = some (.altScreen, some n) := by decide

theorem setting_mouseCodes : ∀ n ∈ mouseCodes, setting true n = some (.mouse n, some n) := by
  decide

/-- What a fresh tracker reads in the synthesis. -/
def Modes.log (m : Modes) : List (Mode × Option ℕ) :=
  (m.altScreen.map fun n => (Mode.altScreen, some n)).toList ++
    (if m.appCursor then [(.appCursor, some 1)] else []) ++
    (if m.bracketedPaste then [(.bracketedPaste, some 2004)] else []) ++
    (m.mouse.sort (· ≤ ·)).map (fun n => (Mode.mouse n, some n)) ++
    (if m.cursorHidden then [(.cursorHidden, some 25)] else [])

theorem altCodes_tracked {n : ℕ} (h : n ∈ altCodes) : n ∈ trackedCodes := by
  simp [trackedCodes, h]

theorem mouseCodes_tracked {n : ℕ} (h : n ∈ mouseCodes) : n ∈ trackedCodes := by
  simp [trackedCodes, h]

/-- One optional part of the synthesis. -/
theorem whole_if (flag : Bool) {bytes : List UInt8} (h : Whole bytes) :
    Whole (if flag then bytes else []) := by
  cases flag
  · exact whole_nil
  · exact h

theorem settingsOf_if (flag : Bool) (bytes : List UInt8) :
    settingsOf (if flag then bytes else []) = if flag then settingsOf bytes else [] := by
  cases flag <;> rfl

namespace Modes

theorem whole_altScreen (m : Modes) :
    Whole (m.altScreen.elim [] (decset · 0x68)) := by
  cases h : m.altScreen with
  | none => exact whole_nil
  | some n => exact whole_decset n (altCodes_tracked (m.altScreen_mem n h)) 0x68 (by decide)

theorem settingsOf_altScreen (m : Modes) :
    settingsOf (m.altScreen.elim [] (decset · 0x68)) =
      (m.altScreen.map fun n => (Mode.altScreen, some n)).toList := by
  cases h : m.altScreen with
  | none => rfl
  | some n =>
    have hn : n ∈ altCodes := m.altScreen_mem n h
    exact (settingsOf_decset n (altCodes_tracked hn)).1.trans (by rw [setting_altCodes n hn]; rfl)

theorem mem_sort_tracked (m : Modes) {n : ℕ} (h : n ∈ m.mouse.sort (· ≤ ·)) :
    n ∈ mouseCodes :=
  m.mouse_mem n ((Finset.mem_sort _).mp h)

theorem whole_mouse (m : Modes) :
    Whole ((m.mouse.sort (· ≤ ·)).flatMap (decset · 0x68)) :=
  whole_flatMap fun n hn => whole_decset n (mouseCodes_tracked (m.mem_sort_tracked hn)) 0x68
    (by decide)

theorem settingsOf_mouse (m : Modes) :
    settingsOf ((m.mouse.sort (· ≤ ·)).flatMap (decset · 0x68)) =
      (m.mouse.sort (· ≤ ·)).map fun n => (Mode.mouse n, some n) := by
  rw [settingsOf_flatMap fun n hn =>
    whole_decset n (mouseCodes_tracked (m.mem_sort_tracked hn)) 0x68 (by decide)]
  rw [← List.flatMap_pure_eq_map]
  refine List.flatMap_congr fun n hn => ?_
  have hcode := m.mem_sort_tracked hn
  rw [(settingsOf_decset n (mouseCodes_tracked hcode)).1, setting_mouseCodes n hcode]
  rfl

theorem whole_synth (m : Modes) : Whole m.synth :=
  (((m.whole_altScreen.append (whole_if _ (whole_decset 1 (by decide) 0x68 (by decide)))).append
    (whole_if _ (whole_decset 2004 (by decide) 0x68 (by decide)))).append m.whole_mouse).append
    (whole_if _ (whole_decset 25 (by decide) 0x6c (by decide)))

theorem settingsOf_synth (m : Modes) : settingsOf m.synth = m.log := by
  have h1 := whole_decset 1 (by decide) 0x68 (by decide)
  have h2004 := whole_decset 2004 (by decide) 0x68 (by decide)
  have happ := m.whole_altScreen.append (whole_if m.appCursor h1)
  have hpaste := happ.append (whole_if m.bracketedPaste h2004)
  rw [synth, settingsOf_append (hpaste.append m.whole_mouse), settingsOf_append hpaste,
    settingsOf_append happ, settingsOf_append m.whole_altScreen, settingsOf_altScreen,
    settingsOf_mouse, settingsOf_if, settingsOf_if, settingsOf_if]
  rfl

/-- The last entry for a mode in the part of the log about the mouse. -/
theorem last_mouse (ns : List ℕ) (mode : Mode) :
    WriteLog.last (ns.map fun n => (Mode.mouse n, some n)) mode =
      match mode with
      | .mouse n => if n ∈ ns then some (some n) else none
      | _ => none := by
  induction ns with
  | nil => cases mode <;> rfl
  | cons k ns ih =>
    rw [List.map_cons, WriteLog.last_cons, ih]
    cases mode with
    | mouse n =>
      by_cases hn : n ∈ ns
      · simp [hn]
      · by_cases hk : k = n
        · simp [hn, hk]
        · simp [hn, hk, Ne.symm hk]
    | _ => rfl

theorem last_altScreen (alt : Option ℕ) (mode : Mode) :
    WriteLog.last (alt.map fun n => (Mode.altScreen, some n)).toList mode =
      if mode = .altScreen then alt.map some else none := by
  cases alt with
  | none => simp
  | some n => cases mode <;> rfl

/-- The synthesis writes exactly the modes that are on. -/
theorem read_log (m : Modes) : WriteLog.read new.value m.log = m.value := by
  funext mode
  rw [value_new, WriteLog.read, log]
  simp only [WriteLog.last_append, WriteLog.last_if, last_mouse, last_altScreen]
  cases mode with
  | appCursor => cases h : m.appCursor <;> simp [value, h]
  | cursorHidden => cases h : m.cursorHidden <;> simp [value, h]
  | altScreen => cases h : m.altScreen <;> simp [value, h]
  | bracketedPaste => cases h : m.bracketedPaste <;> simp [value, h]
  | mouse n => by_cases h : n ∈ m.mouse <;> simp [value, h]

end Modes

/-- A fresh tracker fed the synthesis of some modes is on the ground in these modes. -/
theorem ModeTracker.feed_synth (m : Modes) : new.feed m.synth = { m with st := .ground } := by
  have hmodes : (new.feed m.synth).toModes = m := by
    refine Modes.value_injective ?_
    exact (value_feed _ _).trans (by rw [← m.read_log, ← m.settingsOf_synth]; rfl)
  have hst : (new.feed m.synth).st = .ground := (feed_st _ _).trans m.whole_synth
  calc new.feed m.synth
      = { (new.feed m.synth).toModes with st := (new.feed m.synth).st } := rfl
    _ = { m with st := .ground } := by rw [hmodes, hst]

/-! ## The eviction boundary -/

/-- A control sequence that the evicted bytes begin and the ring completes sets no mode, except
to what the evicted bytes last set it to, or where a sequence within the ring sets it again. -/
def CutHarmless (evicted ring : List UInt8) : Prop :=
  ∀ seq ∈ straddling (Scan.ground.after evicted) ring, ∀ mode v,
    WriteLog.last (settings seq) mode = some v →
      WriteLog.last (settingsOf ring) mode ≠ none ∨
        (WriteLog.last (settingsOf evicted) mode).getD none = v

theorem value_feed_new (bytes : List UInt8) :
    (ModeTracker.new.feed bytes).toModes.value = WriteLog.read (fun _ => none) (settingsOf bytes) :=
  (ModeTracker.value_feed _ _).trans (by rw [← Modes.value_new]; rfl)

/-- The modes a replay ends in, and those of the whole stream: they differ by the sequence that
straddles the boundary. -/
theorem value_replay (evicted ring : List UInt8) :
    (ModeTracker.new.feed ((ModeTracker.new.feed evicted).synth ++ ring)).toModes.value =
      WriteLog.read (ModeTracker.new.feed evicted).toModes.value (settingsOf ring) := by
  rw [ModeTracker.feed_append, ModeTracker.feed_synth]
  exact ModeTracker.value_feed _ _

theorem value_stream (evicted ring : List UInt8) :
    (ModeTracker.new.feed (evicted ++ ring)).toModes.value =
      WriteLog.read (ModeTracker.new.feed evicted).toModes.value
        ((straddling (Scan.ground.after evicted) ring).toList.flatMap settings
          ++ settingsOf ring) := by
  rw [ModeTracker.feed_append, ModeTracker.value_feed, ModeTracker.feed_st,
    sequences_eq_straddling_append, List.flatMap_append]
  rfl

theorem replay_eq_stream_iff (evicted ring : List UInt8) :
    (ModeTracker.new.feed ((ModeTracker.new.feed evicted).synth ++ ring)).toModes =
        (ModeTracker.new.feed (evicted ++ ring)).toModes ↔ CutHarmless evicted ring := by
  rw [← Modes.value_injective.eq_iff, value_replay, value_stream, WriteLog.read_drop_middle_iff,
    value_feed_new, CutHarmless]
  cases straddling (Scan.ground.after evicted) ring with
  | none => simp
  | some seq =>
    simp only [Option.toList_some, List.flatMap_cons, List.flatMap_nil, List.append_nil,
      Option.mem_some_iff, forall_eq']
    rfl

/-- **Modes of a full replay**: however the stream was pushed, a client that restarts from the
synthesis and the ring ends in the modes of the whole stream exactly if the eviction boundary
is harmless. -/
theorem replay_modes_iff {P : Type} [Vt100 P] (cap cols rows : ℕ) (chunks : List (List UInt8)) :
    let s : Scrollback P := chunks.foldl Scrollback.push (Scrollback.new cap cols rows)
    let stream := chunks.flatten
    (ModeTracker.new.feed (s.frontInit ++ s.snapshot)).toModes =
        (ModeTracker.new.feed stream).toModes ↔
      CutHarmless (stream.take (stream.length - cap)) (stream.drop (stream.length - cap)) := by
  intro s stream
  obtain ⟨hs, hcap⟩ := Scrollback.holds_pushes (P := P) cap cols rows chunks
  rw [← replay_eq_stream_iff, List.take_append_drop, Scrollback.frontInit, Scrollback.snapshot,
    hs.frontState, hs.buf, hcap]

/-- `ESC [ ? 1 0 4 9 h` in two chunks through a ring of four bytes: the evicted half sets
nothing, and what the ring holds of it is text. -/
theorem split_sequence_loses_alt_screen :
    ¬ ∀ (P : Type) [Vt100 P] (cap cols rows : ℕ) (chunks : List (List UInt8)),
      let s : Scrollback P := chunks.foldl Scrollback.push (Scrollback.new cap cols rows)
      (ModeTracker.new.feed (s.frontInit ++ s.snapshot)).toModes =
        (ModeTracker.new.feed chunks.flatten).toModes := by
  intro h
  have hmodes := h Unit 4 80 24 [[0x1b, 0x5b, 0x3f, 0x31, 0x30], [0x34, 0x39, 0x68]]
  dsimp only [Scrollback.frontInit] at hmodes
  rw [ModeTracker.feed_append, ModeTracker.feed_synth] at hmodes
  have halt := congrArg Modes.altScreen hmodes
  exact absurd halt (by decide)

end Webshell
