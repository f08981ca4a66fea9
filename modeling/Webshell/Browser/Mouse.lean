import Webshell.Terminals.Replay

/-!
# Mouse wishes

The page swallows the sequences by which a program asks for mouse reports and keeps two flags
instead, which the last such sequence overwrites. It takes only sequences that are about the mouse
and nothing else. The shell's tracker keeps the modes apart, and reads every sequence, up to the
bytes for which it has room. A replay resets the flags, and the tracker's synthesis sets them again.

## Main definitions

- `Wishes`: the two flags, with `swallowMouse`
- `controls`: the control sequences of a stream with all their parameter bytes
- `Recalled`: when the synthesis says the same about a wish as the sequences it stands for

## Main results

- `sequences_eq_controls`: the tracker sees the same sequences, cut off after 32 bytes
- `replayed_wishes_iff`: when a replay leaves the wishes of the whole stream
- `disabled_mode_forgets_others`: a stream whose replay does not
-/

namespace Webshell

/-! ## The two flags -/

def trackModes : List ℕ := [9, 1000, 1001, 1002, 1003]

/-- `appMouseTrack` and `appMouseSGR`. -/
@[ext]
structure Wishes where
  appMouseTrack : Bool
  appMouseSGR : Bool
deriving DecidableEq

namespace Wishes

/-- `resetMouseState` -/
def reset : Wishes := ⟨false, false⟩

/-- What is remembered of one parameter. -/
def remember (w : Wishes) (on : Bool) (p : ℕ) : Wishes where
  appMouseTrack := if p ∈ trackModes then on else w.appMouseTrack
  appMouseSGR := if p = 1006 then on else w.appMouseSGR

/-- Whether the sequence is swallowed, and the flags after it. -/
def swallowMouse (w : Wishes) (on : Bool) (params : List ℕ) : Bool × Wishes :=
  if params.all fun p => p ∈ mouseCodes then (true, params.foldl (remember · on) w)
  else (false, w)

end Wishes

/-! ## The sequences that the handlers see -/

/-- The scanner's position after a byte, with room for all parameter bytes. This idealizes the
page's parser, which also gives a sequence up at `CAN` or `SUB`, and begins one at `U+009B`. -/
def Scan.nextControl (st : Scan) (b : UInt8) : Scan :=
  match st with
  | .ground => if b = 0x1b then .esc else .ground
  | .esc => if b = 0x5b then .csi [] else if b = 0x1b then .esc else .ground
  | .csi buf =>
    if 0x20 ≤ b ∧ b ≤ 0x3f then .csi (buf ++ [b])
    else if 0x40 ≤ b ∧ b ≤ 0x7e then .ground
    else if b = 0x1b then .esc
    else .csi buf

/-- The control sequences that a stream completes: all parameter bytes, and the final byte. -/
def controls : Scan → List UInt8 → List (List UInt8 × UInt8)
  | _, [] => []
  | st, b :: bytes => (st.completed b).toList ++ controls (st.nextControl b) bytes

/-- A parameter; an empty one is zero. -/
def paramValue (p : List UInt8) : ℕ := p.foldl (fun n b => 10 * n + (b.toNat - 0x30)) 0

/-- The parameter list of a private-mode sequence. With any other byte in it, a sequence goes to
other handlers, or one of its parameters is no number. -/
def controlParams (buf : List UInt8) : Option (List ℕ) :=
  match buf with
  | 0x3f :: rest =>
    if rest.all fun b => (0x30 ≤ b ∧ b ≤ 0x39) ∨ b = 0x3b then
      some ((rest.splitOn 0x3b).map paramValue)
    else none
  | _ => none

/-- The handlers of `CSI ? … h` and `CSI ? … l`. -/
def Wishes.handle (w : Wishes) (seq : List UInt8 × UInt8) : Wishes :=
  match controlParams seq.1 with
  | some params =>
    if seq.2 = 0x68 then (w.swallowMouse true params).2
    else if seq.2 = 0x6c then (w.swallowMouse false params).2
    else w
  | none => w

/-- The flags after a stream, which begins outside of any sequence. -/
def Wishes.parse (w : Wishes) (bytes : List UInt8) : Wishes :=
  (controls .ground bytes).foldl handle w

/-! ## What a sequence says about a wish -/

/-- Whether a sequence about nothing but the mouse that names one of the modes sets or resets. -/
def wish (modes : List ℕ) (seq : List UInt8 × UInt8) : Option Bool :=
  match controlParams seq.1 with
  | some params =>
    if (params.all fun p => p ∈ mouseCodes) ∧ params.any fun p => p ∈ modes then
      if seq.2 = 0x68 then some true else if seq.2 = 0x6c then some false else none
    else none
  | none => none

/-- What a stream says about a wish, in order. -/
def wishesOf (modes : List ℕ) (bytes : List UInt8) : List Bool :=
  (controls .ground bytes).filterMap (wish modes)

/-- The last setting that the tracker reads for one of the modes turns it on. -/
def LeftOn (modes : List ℕ) (bytes : List UInt8) : Prop :=
  ∃ n ∈ modes, WriteLog.last (settingsOf bytes) (.mouse n) = some (some n)

/-- The ring speaks about the modes, or the last sequence before it that does sets them exactly if
the tracker has read that one of them is on. -/
def Recalled (modes : List ℕ) (evicted ring : List UInt8) : Prop :=
  wishesOf modes ring = [] →
    ((wishesOf modes evicted).getLast? = some true ↔ LeftOn modes evicted)

/-! ## Two readings of one stream -/

/-- What the tracker has of a position. -/
def Scan.cut : Scan → Scan
  | .csi buf => .csi (buf.take 32)
  | st => st

def cutSequence (seq : List UInt8 × UInt8) : List UInt8 × UInt8 := (seq.1.take 32, seq.2)

theorem Scan.next_cut (st : Scan) (b : UInt8) : st.cut.next b = (st.nextControl b).cut := by
  cases st with
  | ground =>
    simp only [cut, next, nextControl]
    split <;> rfl
  | esc =>
    simp only [cut, next, nextControl]
    split
    · rfl
    · split <;> rfl
  | csi buf =>
    simp only [cut, next, nextControl]
    split
    · show Scan.csi _ = Scan.csi _
      congr 1
      rw [List.length_take]
      by_cases hlen : buf.length < 32
      · rw [if_pos (by omega), List.take_of_length_le (by omega : buf.length ≤ 32),
          List.take_of_length_le (by rw [List.length_append, List.length_singleton]; omega)]
      · rw [if_neg (by omega), List.take_append_of_le_length (by omega)]
    · split
      · rfl
      · split <;> rfl

theorem Scan.completed_cut (st : Scan) (b : UInt8) :
    st.cut.completed b = (st.completed b).map cutSequence := by
  cases st with
  | ground => rfl
  | esc => rfl
  | csi buf =>
    simp only [cut, completed]
    split <;> rfl

/-- The tracker sees the same sequences, with at most 32 parameter bytes of each. -/
theorem sequences_eq_controls (st : Scan) (bytes : List UInt8) :
    sequences st.cut bytes = (controls st bytes).map cutSequence := by
  induction bytes generalizing st with
  | nil => rfl
  | cons b bytes ih =>
    rw [sequences, controls, List.map_append, st.completed_cut, st.next_cut, ih]
    cases st.completed b <;> rfl

theorem Scan.after_cut (st : Scan) (bytes : List UInt8) :
    st.cut.after bytes = (bytes.foldl nextControl st).cut := by
  induction bytes generalizing st with
  | nil => rfl
  | cons b bytes ih =>
    show (st.cut.next b).after bytes = _
    rw [st.next_cut, ih]
    rfl

theorem controls_append_of_whole {a b : List UInt8} (ha : Whole a) :
    controls .ground (a ++ b) = controls .ground a ++ controls .ground b := by
  have happend : ∀ st, controls st (a ++ b) =
      controls st a ++ controls (a.foldl Scan.nextControl st) b := by
    clear ha
    induction a with
    | nil => exact fun st => rfl
    | cons x a ih =>
      intro st
      rw [List.cons_append, controls, ih, controls, List.append_assoc]
      rfl
  have hground : a.foldl Scan.nextControl .ground = .ground := by
    have hcut := Scan.after_cut .ground a
    have hwhole : Scan.ground.cut.after a = .ground := ha
    rw [hwhole] at hcut
    generalize a.foldl Scan.nextControl .ground = st at hcut
    cases st with
    | ground => rfl
    | esc => cases hcut
    | csi buf => cases hcut
  rw [happend, hground]

theorem wishesOf_append (modes : List ℕ) {a b : List UInt8} (ha : Whole a) :
    wishesOf modes (a ++ b) = wishesOf modes a ++ wishesOf modes b := by
  rw [wishesOf, controls_append_of_whole ha, List.filterMap_append]
  rfl

/-! ## The flags are the last wishes -/

namespace Wishes

theorem foldl_remember (on : Bool) (params : List ℕ) (w : Wishes) :
    params.foldl (remember · on) w =
      ⟨if params.any (· ∈ trackModes) then on else w.appMouseTrack,
        if params.any (· ∈ [1006]) then on else w.appMouseSGR⟩ := by
  induction params generalizing w with
  | nil => rfl
  | cons p params ih =>
    rw [List.foldl_cons, ih, List.any_cons, List.any_cons]
    ext1
    · by_cases hp : p ∈ trackModes <;> simp [remember, hp]
    · by_cases hp : p = 1006 <;> simp [remember, hp]

theorem handle_eq (w : Wishes) (seq : List UInt8 × UInt8) :
    w.handle seq =
      ⟨(wish trackModes seq).getD w.appMouseTrack, (wish [1006] seq).getD w.appMouseSGR⟩ := by
  have hgetD : ∀ (c : Prop) [Decidable c] (on x : Bool),
      (if c then some on else none).getD x = if c then on else x := by
    intro c _ on x
    split <;> rfl
  rw [handle, wish, wish]
  cases controlParams seq.1 with
  | none => rfl
  | some params =>
    simp only [swallowMouse, foldl_remember]
    by_cases hall : params.all fun p => p ∈ mouseCodes
    · by_cases hh : seq.2 = 0x68
      · simp only [hall, hh, if_true, true_and, hgetD]
      · by_cases hl : seq.2 = 0x6c
        · simp only [hall, if_true, if_neg hh, if_pos hl, true_and, hgetD]
        · simp only [hh, hl, if_false, ite_self, Option.getD_none]
    · simp only [hall, Bool.false_eq_true, if_false, false_and, ite_self, Option.getD_none]

/-- A flag that every sequence may overwrite holds what the last one says. -/
theorem foldl_handle {flag : Wishes → Bool} {told : List UInt8 × UInt8 → Option Bool}
    (h : ∀ w seq, flag (w.handle seq) = (told seq).getD (flag w))
    (seqs : List (List UInt8 × UInt8)) (w : Wishes) :
    flag (seqs.foldl handle w) = (seqs.filterMap told).getLast?.getD (flag w) := by
  induction seqs using List.reverseRecOn with
  | nil => rfl
  | append_singleton seqs seq ih =>
    rw [List.foldl_append, List.foldl_cons, List.foldl_nil, h, List.filterMap_append, ih]
    cases hs : told seq with
    | none => simp [hs]
    | some on => simp [hs]

theorem parse_eq (w : Wishes) (bytes : List UInt8) :
    w.parse bytes =
      ⟨(wishesOf trackModes bytes).getLast?.getD w.appMouseTrack,
        (wishesOf [1006] bytes).getLast?.getD w.appMouseSGR⟩ := by
  ext1
  · exact foldl_handle (fun w seq => by rw [handle_eq]) _ w
  · exact foldl_handle (fun w seq => by rw [handle_eq]) _ w

end Wishes

/-! ## The synthesis -/

/-- The two kinds of wishes. -/
def wishModes : List (List ℕ) := [trackModes, [1006]]

theorem wishesOf_decset : ∀ modes ∈ wishModes, ∀ n ∈ trackedCodes,
    wishesOf modes (Modes.decset n 0x68) = if n ∈ modes then [true] else [] := by
  decide +kernel

theorem wishesOf_showCursor : ∀ modes ∈ wishModes, wishesOf modes (Modes.decset 25 0x6c) = [] := by
  decide +kernel

/-- Neither the screen nor the keys are wishes about the mouse. -/
theorem not_mem_wishModes : ∀ modes ∈ wishModes,
    (∀ n ∈ altCodes, n ∉ modes) ∧ 1 ∉ modes ∧ 2004 ∉ modes ∧ ∀ n ∈ modes, n ∈ mouseCodes := by
  decide

theorem wishesOf_if (modes : List ℕ) (flag : Bool) {bytes : List UInt8}
    (h : wishesOf modes bytes = []) : wishesOf modes (if flag then bytes else []) = [] := by
  cases flag
  · rfl
  · exact h

/-- The synthesis wishes for what is among the modes that are on. -/
theorem wishesOf_synth {modes : List ℕ} (hmodes : modes ∈ wishModes) (m : Modes) :
    wishesOf modes m.synth =
      (m.mouse.sort (· ≤ ·)).flatMap fun n => if n ∈ modes then [true] else [] := by
  obtain ⟨halt, hkeys, hpaste, _⟩ := not_mem_wishModes modes hmodes
  have hdecset := wishesOf_decset modes hmodes
  have hscreen : wishesOf modes (m.altScreen.elim [] (Modes.decset · 0x68)) = [] := by
    cases h : m.altScreen with
    | none => rfl
    | some n =>
      have hn : n ∈ altCodes := m.altScreen_mem n h
      exact (hdecset n (altCodes_tracked hn)).trans (if_neg (halt n hn))
  have hmouse : ∀ ns : List ℕ, (∀ n ∈ ns, n ∈ mouseCodes) →
      wishesOf modes (ns.flatMap (Modes.decset · 0x68)) =
        ns.flatMap fun n => if n ∈ modes then [true] else [] := by
    intro ns
    induction ns with
    | nil => exact fun _ => rfl
    | cons n ns ih =>
      intro hns
      have hn := mouseCodes_tracked (hns n List.mem_cons_self)
      rw [List.flatMap_cons, wishesOf_append modes (whole_decset n hn 0x68 (by decide)),
        hdecset n hn, ih fun k hk => hns k (List.mem_cons_of_mem n hk), List.flatMap_cons]
  have h1 := whole_decset 1 (by decide) 0x68 (by decide)
  have h2004 := whole_decset 2004 (by decide) 0x68 (by decide)
  have happ := m.whole_altScreen.append (whole_if m.appCursor h1)
  have hfour := happ.append (whole_if m.bracketedPaste h2004)
  rw [Modes.synth, wishesOf_append modes (hfour.append m.whole_mouse),
    wishesOf_append modes hfour, wishesOf_append modes happ,
    wishesOf_append modes m.whole_altScreen, hscreen,
    wishesOf_if modes _ ((hdecset 1 (by decide)).trans (if_neg hkeys)),
    wishesOf_if modes _ ((hdecset 2004 (by decide)).trans (if_neg hpaste)),
    wishesOf_if modes _ (wishesOf_showCursor modes hmodes), List.append_nil,
    hmouse _ fun n hn => m.mouse_mem n ((Finset.mem_sort _).mp hn)]
  rfl

theorem getLast?_synth {modes : List ℕ} (hmodes : modes ∈ wishModes) (m : Modes) :
    (wishesOf modes m.synth).getLast? = some true ↔ ∃ n ∈ modes, n ∈ m.mouse := by
  have htrue : ∀ on ∈ wishesOf modes m.synth, on = true := by
    intro on hon
    rw [wishesOf_synth hmodes] at hon
    obtain ⟨n, _, hn⟩ := List.mem_flatMap.mp hon
    split at hn
    · exact List.mem_singleton.mp hn
    · cases hn
  constructor
  · intro hlast
    have hmem := List.mem_of_getLast? hlast
    rw [wishesOf_synth hmodes] at hmem
    obtain ⟨n, hn, hif⟩ := List.mem_flatMap.mp hmem
    split at hif
    next hnm => exact ⟨n, hnm, (Finset.mem_sort _).mp hn⟩
    · cases hif
  · rintro ⟨n, hnm, hn⟩
    have hmem : true ∈ wishesOf modes m.synth := by
      rw [wishesOf_synth hmodes, List.mem_flatMap]
      exact ⟨n, (Finset.mem_sort _).mpr hn, by rw [if_pos hnm]; exact List.mem_singleton_self _⟩
    have hne : wishesOf modes m.synth ≠ [] := List.ne_nil_of_mem hmem
    rw [List.getLast?_eq_some_getLast hne, htrue _ (List.getLast_mem hne)]

/-- The modes that are on after some bytes. -/
theorem leftOn_iff (modes : List ℕ) (bytes : List UInt8) :
    LeftOn modes bytes ↔ ∃ n ∈ modes, n ∈ (ModeTracker.new.feed bytes).mouse := by
  have hmem : ∀ n, n ∈ (ModeTracker.new.feed bytes).mouse ↔
      WriteLog.last (settingsOf bytes) (.mouse n) = some (some n) := by
    intro n
    have hvalue := congrFun (value_feed_new bytes) (.mouse n)
    rw [WriteLog.read, Modes.value] at hvalue
    constructor
    · intro hn
      rw [if_pos hn] at hvalue
      cases hlast : WriteLog.last (settingsOf bytes) (.mouse n) with
      | none =>
        rw [hlast] at hvalue
        cases hvalue
      | some v =>
        rw [hlast, Option.getD_some] at hvalue
        rw [hvalue]
    · intro hlast
      by_contra hn
      rw [if_neg hn, hlast] at hvalue
      cases hvalue
  exact exists_congr fun n => and_congr_right fun _ => (hmem n).symm

/-! ## The replay -/

/-- One wish after a replay and after the whole stream. -/
theorem recalled_iff {modes : List ℕ} (hmodes : modes ∈ wishModes) {evicted : List UInt8}
    (hwhole : Whole evicted) (ring : List UInt8) :
    ((wishesOf modes ((ModeTracker.new.feed evicted).synth ++ ring)).getLast?.getD false =
      (wishesOf modes (evicted ++ ring)).getLast?.getD false) ↔ Recalled modes evicted ring := by
  rw [wishesOf_append modes (Modes.whole_synth _), wishesOf_append modes hwhole, Recalled,
    leftOn_iff, ← getLast?_synth hmodes]
  cases hring : wishesOf modes ring with
  | nil =>
    rw [List.append_nil, List.append_nil]
    generalize (wishesOf modes (ModeTracker.new.feed evicted).synth).getLast? = a
    generalize (wishesOf modes evicted).getLast? = b
    rcases a with _ | _ | _ <;> rcases b with _ | _ | _ <;> decide
  | cons on rest => simp [List.getLast?_cons]

/-- **Mouse wishes of a full replay**: when the evicted bytes end outside of any sequence, a page
that resets its flags, parses the synthesis and then the ring has the wishes of a page that has
parsed the whole stream exactly if both wishes are recalled. -/
theorem replayed_wishes_iff {P : Type} [Vt100 P] (cap cols rows : ℕ)
    (chunks : List (List UInt8)) :
    let s : Scrollback P := chunks.foldl Scrollback.push (Scrollback.new cap cols rows)
    let stream := chunks.flatten
    let evicted := stream.take (stream.length - cap)
    let ring := stream.drop (stream.length - cap)
    Whole evicted →
      (Wishes.reset.parse (s.frontInit ++ s.snapshot) = Wishes.reset.parse stream ↔
        Recalled trackModes evicted ring ∧ Recalled [1006] evicted ring) := by
  intro s stream evicted ring hwhole
  obtain ⟨hs, hcap⟩ := Scrollback.holds_pushes (P := P) cap cols rows chunks
  have hreplay : s.frontInit ++ s.snapshot = (ModeTracker.new.feed evicted).synth ++ ring := by
    rw [Scrollback.frontInit, Scrollback.snapshot, hs.frontState, hs.buf, hcap]
  have hstream : stream = evicted ++ ring := (List.take_append_drop ..).symm
  rw [hreplay, hstream, Wishes.parse_eq, Wishes.parse_eq, Wishes.mk.injEq]
  exact and_congr (recalled_iff (by decide) hwhole ring) (recalled_iff (by decide) hwhole ring)

/-- Text alone completes no sequence. -/
theorem controls_text (n : ℕ) : controls .ground (List.replicate n 0x61) = [] := by
  induction n with
  | zero => rfl
  | succ n ih =>
    rw [List.replicate_succ, controls]
    exact ih

/-- `?1000h`, `?1002h` and `?1000l`. -/
def handover : List UInt8 :=
  Modes.decset 1000 0x68 ++ Modes.decset 1002 0x68 ++ Modes.decset 1000 0x6c

theorem handover_evicted :
    let stream := [handover, List.replicate 4096 (0x61 : UInt8)].flatten
    stream.take (stream.length - 4096) = handover ∧
      stream.drop (stream.length - 4096) = List.replicate 4096 0x61 := by
  intro stream
  have hstream : stream = handover ++ List.replicate 4096 0x61 := by
    show [handover, List.replicate 4096 0x61].flatten = _
    rw [List.flatten_cons, List.flatten_singleton]
  have hlen : stream.length - 4096 = handover.length := by
    rw [hstream, List.length_append, List.length_replicate, Nat.add_sub_cancel]
  rw [hlen, hstream]
  exact ⟨List.take_left, List.drop_left⟩

/-- The flag says that the program has let go of the mouse, and the tracker that `?1002` is on. -/
theorem not_recalled_handover :
    ¬ Recalled trackModes handover (List.replicate 4096 0x61) := by
  intro h
  have hring : wishesOf trackModes (List.replicate 4096 0x61) = [] := by
    rw [wishesOf, controls_text]
    rfl
  have hlast : (wishesOf trackModes handover).getLast? = some false := by decide +kernel
  have hon : LeftOn trackModes handover := ⟨1002, by decide, by decide +kernel⟩
  cases hlast.symm.trans ((h hring).mpr hon)

theorem replayed_wishes_iff_handover :
    let s : Scrollback Unit :=
      [handover, List.replicate 4096 0x61].foldl Scrollback.push (Scrollback.new 4096 80 24)
    Wishes.reset.parse (s.frontInit ++ s.snapshot) =
        Wishes.reset.parse [handover, List.replicate 4096 0x61].flatten ↔
      Recalled trackModes handover (List.replicate 4096 0x61) ∧
        Recalled [1006] handover (List.replicate 4096 0x61) := by
  have hiff := replayed_wishes_iff (P := Unit) 4096 80 24 [handover, List.replicate 4096 0x61]
  dsimp only at hiff
  rw [handover_evicted.1, handover_evicted.2] at hiff
  exact hiff (by decide +kernel)

/-- A program turns on two kinds of tracking and turns one of them off; when that has left the
ring, a replay turns tracking on. -/
theorem disabled_mode_forgets_others :
    ¬ ∀ (P : Type) [Vt100 P] (cap cols rows : ℕ) (chunks : List (List UInt8)),
      let s : Scrollback P := chunks.foldl Scrollback.push (Scrollback.new cap cols rows)
      Whole (chunks.flatten.take (chunks.flatten.length - cap)) →
        Wishes.reset.parse (s.frontInit ++ s.snapshot) = Wishes.reset.parse chunks.flatten := by
  intro h
  have hsame := h Unit 4096 80 24 [handover, List.replicate 4096 0x61]
  dsimp only at hsame
  rw [handover_evicted.1] at hsame
  obtain ⟨hs, hcap⟩ := Scrollback.holds_pushes (P := Unit) 4096 80 24
    [handover, List.replicate 4096 0x61]
  have hwhole : Whole handover := by decide +kernel
  have heq := hsame hwhole
  rw [Scrollback.frontInit, Scrollback.snapshot, hs.frontState, hs.buf, hcap,
    handover_evicted.1, handover_evicted.2, List.flatten_cons, List.flatten_singleton,
    Wishes.parse_eq, Wishes.parse_eq, Wishes.mk.injEq] at heq
  exact not_recalled_handover ((recalled_iff (by decide) hwhole _).mp heq.1)

end Webshell
