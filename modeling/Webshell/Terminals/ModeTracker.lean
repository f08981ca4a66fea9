import Mathlib.Data.Finset.Sort
import Mathlib.Tactic
import Webshell.Lib.WriteLog

/-!
# The mode tracker

A scanner for the DECSET and DECRST sequences of a byte stream, and the private modes they
leave. What it computes is split in two: the control sequences a stream completes, which only
the scanner's position decides, and the settings these make, of which the last one for a mode
counts.

## Main definitions

- `ModeTracker.feed`, `ModeTracker.synth`: the tracker, and the sequences reinstating its modes
- `sequences`: the control sequences completed in a stream
- `settings`: what a control sequence sets

## Main results

- `ModeTracker.value_feed`: the modes after a stream are the last settings made in it
- `sequences_eq_straddling_append`: a scanner that starts within a sequence completes at most
  that one more than a scanner starting fresh
-/

namespace Webshell

/-- Scanner position of a `ModeTracker` between feeds. -/
inductive Scan
  | ground
  | esc
  | csi (buf : List UInt8)
deriving DecidableEq

/-- `?47`, `?1047` and `?1049` switch to the alt screen. -/
def altCodes : List ℕ := [47, 1047, 1049]

/-- Mouse tracking and mouse encodings. -/
def mouseCodes : List ℕ := [9, 1000, 1001, 1002, 1003, 1005, 1006, 1015, 1016]

/-- The tracked modes: what a `ModeTracker` holds besides its position. -/
@[ext]
structure Modes where
  appCursor : Bool
  cursorHidden : Bool
  altScreen : Option ℕ
  bracketedPaste : Bool
  mouse : Finset ℕ
  altScreen_mem : ∀ n ∈ altScreen, n ∈ altCodes
  mouse_mem : ∀ n ∈ mouse, n ∈ mouseCodes

structure ModeTracker extends Modes where
  st : Scan

/-- `str::parse::<u16>` on the bytes of a parameter. -/
def parseU16 (p : List UInt8) : Option ℕ :=
  let digits := if p.head? = some 0x2b then p.tail else p
  if digits ≠ [] ∧ digits.all (fun b => 0x30 ≤ b ∧ b ≤ 0x39) then
    let n := digits.foldl (fun n b => 10 * n + (b.toNat - 0x30)) 0
    if n < 65536 then some n else none
  else none

/-- `format!("{n}")` as bytes. -/
def decimal (n : ℕ) : List UInt8 := (Nat.toDigits 10 n).map fun c => c.toNat.toUInt8

/-- The parameters of a private-mode sequence, when the buffer holds one. -/
def params (buf : List UInt8) : List ℕ :=
  match buf with
  | 0x3f :: rest => (rest.splitOn 0x3b).filterMap parseU16
  | _ => []

namespace Modes

def new : Modes where
  appCursor := false
  cursorHidden := false
  altScreen := none
  bracketedPaste := false
  mouse := ∅
  altScreen_mem := by simp
  mouse_mem := by simp

/-- One parameter of a `dispatch`. -/
def assign (m : Modes) (set : Bool) (n : ℕ) : Modes :=
  if n = 1 then { m with appCursor := set }
  else if n = 25 then { m with cursorHidden := !set }
  else if hn : n ∈ altCodes then
    { m with
      altScreen := if set then some n else none
      altScreen_mem := by
        intro k hk
        cases set <;> simp_all }
  else if n = 2004 then { m with bracketedPaste := set }
  else if hn : n ∈ mouseCodes then
    { m with
      mouse := if set then insert n m.mouse else m.mouse.erase n
      mouse_mem := by
        intro k hk
        cases set with
        | true =>
          rcases Finset.mem_insert.mp hk with rfl | hk
          exacts [hn, m.mouse_mem k hk]
        | false => exact m.mouse_mem k (Finset.mem_of_mem_erase hk) }
  else m

def dispatch (m : Modes) (buf : List UInt8) (finalByte : UInt8) : Modes :=
  if finalByte = 0x68 then (params buf).foldl (assign · true) m
  else if finalByte = 0x6c then (params buf).foldl (assign · false) m
  else m

/-- `ESC [ ? n` and a final byte. -/
def decset (n : ℕ) (finalByte : UInt8) : List UInt8 :=
  [0x1b, 0x5b, 0x3f] ++ decimal n ++ [finalByte]

def synth (m : Modes) : List UInt8 :=
  m.altScreen.elim [] (decset · 0x68) ++
  (if m.appCursor then decset 1 0x68 else []) ++
  (if m.bracketedPaste then decset 2004 0x68 else []) ++
  (m.mouse.sort (· ≤ ·)).flatMap (decset · 0x68) ++
  (if m.cursorHidden then decset 25 0x6c else [])

end Modes

namespace ModeTracker

def new : ModeTracker := { Modes.new with st := .ground }

/-- One byte of the loop in `feed`. -/
def feedByte (t : ModeTracker) (b : UInt8) : ModeTracker :=
  match t.st with
  | .ground => { t with st := if b = 0x1b then .esc else .ground }
  | .esc => { t with st := if b = 0x5b then .csi [] else if b = 0x1b then .esc else .ground }
  | .csi buf =>
    if 0x20 ≤ b ∧ b ≤ 0x3f then
      { t with st := .csi (if buf.length < 32 then buf ++ [b] else buf) }
    else if 0x40 ≤ b ∧ b ≤ 0x7e then
      { t.dispatch buf b with st := .ground }
    else if b = 0x1b then { t with st := .esc }
    else { t with st := .csi buf }

def feed (t : ModeTracker) (bytes : List UInt8) : ModeTracker := bytes.foldl feedByte t

end ModeTracker

/-! ## The scanner alone -/

/-- The position after a byte. -/
def Scan.next (st : Scan) (b : UInt8) : Scan :=
  match st with
  | .ground => if b = 0x1b then .esc else .ground
  | .esc => if b = 0x5b then .csi [] else if b = 0x1b then .esc else .ground
  | .csi buf =>
    if 0x20 ≤ b ∧ b ≤ 0x3f then .csi (if buf.length < 32 then buf ++ [b] else buf)
    else if 0x40 ≤ b ∧ b ≤ 0x7e then .ground
    else if b = 0x1b then .esc
    else .csi buf

/-- The control sequence a byte completes: its parameter bytes and itself. -/
def Scan.completed (st : Scan) (b : UInt8) : Option (List UInt8 × UInt8) :=
  match st with
  | .csi buf => if 0x40 ≤ b ∧ b ≤ 0x7e then some (buf, b) else none
  | _ => none

/-- The position after a stream. -/
def Scan.after (st : Scan) (bytes : List UInt8) : Scan := bytes.foldl Scan.next st

/-- The control sequences a stream completes, from a given position on. -/
def sequences : Scan → List UInt8 → List (List UInt8 × UInt8)
  | _, [] => []
  | st, b :: bytes => (st.completed b).toList ++ sequences (st.next b) bytes

/-- The sequence a stream completes without having begun it. -/
def straddling : Scan → List UInt8 → Option (List UInt8 × UInt8)
  | _, [] => none
  | st, b :: bytes =>
    if st = .ground ∨ b = 0x1b then none
    else (st.completed b).or (straddling (st.next b) bytes)

theorem sequences_append (st : Scan) (a b : List UInt8) :
    sequences st (a ++ b) = sequences st a ++ sequences (st.after a) b := by
  induction a generalizing st with
  | nil => rfl
  | cons x a ih => rw [List.cons_append, sequences, ih, sequences, List.append_assoc]; rfl

/-- No byte is both a parameter and a final byte. -/
theorem not_final_of_param {b : UInt8} (h : 0x20 ≤ b ∧ b ≤ 0x3f) : ¬(0x40 ≤ b ∧ b ≤ 0x7e) :=
  fun hfinal => absurd (UInt8.le_trans hfinal.1 h.2) (by decide)

theorem completed_ground (b : UInt8) : Scan.ground.completed b = none := rfl

/-- `ESC` starts over, from any position. -/
theorem next_escape (st : Scan) : st.next 0x1b = .esc := by
  cases st <;> rfl

theorem completed_escape (st : Scan) : st.completed 0x1b = none := by
  cases st <;> rfl

theorem straddling_ground (bytes : List UInt8) : straddling .ground bytes = none := by
  cases bytes <;> simp [straddling]

/-- A completed sequence leaves the scanner on the ground. -/
theorem next_of_completed {st : Scan} {b : UInt8} {seq : List UInt8 × UInt8}
    (h : st.completed b = some seq) : st.next b = .ground := by
  cases st with
  | ground => simp [Scan.completed] at h
  | esc => simp [Scan.completed] at h
  | csi buf =>
    simp only [Scan.completed] at h
    split at h
    case isFalse => simp at h
    case isTrue hb =>
      have hparam : ¬(0x20 ≤ b ∧ b ≤ 0x3f) := fun hp => not_final_of_param hp hb
      simp only [Scan.next, if_neg hparam, if_pos hb]

/-- Starting within a sequence instead of on the ground adds that sequence, if the stream
completes it, and nothing else. -/
theorem sequences_eq_straddling_append (st : Scan) (bytes : List UInt8) :
    sequences st bytes = (straddling st bytes).toList ++ sequences .ground bytes := by
  induction bytes generalizing st with
  | nil => rfl
  | cons b bytes ih =>
    by_cases hesc : b = 0x1b
    · subst hesc
      simp only [sequences, straddling, next_escape, completed_escape, or_true, if_true]
      rfl
    · by_cases hst : st = .ground
      · subst hst
        rw [straddling_ground]
        rfl
      · have hground : Scan.ground.next b = .ground := if_neg hesc
        rw [straddling, if_neg (not_or.mpr ⟨hst, hesc⟩), sequences, sequences, completed_ground,
          hground]
        cases hc : st.completed b with
        | some seq => rw [next_of_completed hc]; rfl
        | none => rw [Option.none_or, ih (st.next b)]; rfl

/-! ## Settings -/

/-- The modes a tracker keeps apart. -/
inductive Mode
  | appCursor
  | cursorHidden
  | altScreen
  | bracketedPaste
  | mouse (n : ℕ)
deriving DecidableEq

/-- What a parameter sets: the mode, and the parameter if it is now on. -/
def setting (set : Bool) (n : ℕ) : Option (Mode × Option ℕ) :=
  if n = 1 then some (.appCursor, if set then some n else none)
  else if n = 25 then some (.cursorHidden, if set then none else some n)
  else if n ∈ altCodes then some (.altScreen, if set then some n else none)
  else if n = 2004 then some (.bracketedPaste, if set then some n else none)
  else if n ∈ mouseCodes then some (.mouse n, if set then some n else none)
  else none

/-- What a control sequence sets, in order. -/
def settings (seq : List UInt8 × UInt8) : List (Mode × Option ℕ) :=
  if seq.2 = 0x68 then (params seq.1).filterMap (setting true)
  else if seq.2 = 0x6c then (params seq.1).filterMap (setting false)
  else []

namespace Modes

/-- The parameter that turned a mode on. -/
def value (m : Modes) : Mode → Option ℕ
  | .appCursor => if m.appCursor then some 1 else none
  | .cursorHidden => if m.cursorHidden then some 25 else none
  | .altScreen => m.altScreen
  | .bracketedPaste => if m.bracketedPaste then some 2004 else none
  | .mouse n => if n ∈ m.mouse then some n else none

theorem value_injective : Function.Injective value := by
  intro a b h
  have flag : ∀ {x y : Bool} {n : ℕ},
      (if x then some n else none) = (if y then some n else none) → x = y := by
    intro x y n hxy
    cases x <;> cases y <;> simp_all
  ext1
  · exact flag (congrFun h .appCursor)
  · exact flag (congrFun h .cursorHidden)
  · exact congrFun h .altScreen
  · exact flag (congrFun h .bracketedPaste)
  · ext n
    have hn := congrFun h (.mouse n)
    simp only [value] at hn
    by_cases ha : n ∈ a.mouse <;> by_cases hb : n ∈ b.mouse <;> simp_all

theorem value_new : new.value = fun _ => none := by
  funext mode
  cases mode <;> simp [new, value]

/-- A parameter changes the one mode it is about. -/
theorem value_assign (m : Modes) (set : Bool) (n : ℕ) :
    (m.assign set n).value = WriteLog.read m.value (setting set n).toList := by
  by_cases h1 : n = 1
  · subst h1
    funext mode
    cases mode <;> cases set <;>
      simp [assign, setting, value, WriteLog.read_single, Function.update]
  by_cases h25 : n = 25
  · subst h25
    funext mode
    cases mode <;> cases set <;>
      simp [assign, setting, value, WriteLog.read_single, Function.update]
  by_cases halt : n ∈ altCodes
  · funext mode
    cases mode <;>
      simp [assign, setting, h1, h25, halt, value, WriteLog.read_single, Function.update]
  by_cases h2004 : n = 2004
  · subst h2004
    funext mode
    cases mode <;> cases set <;>
      simp [assign, setting, altCodes, value, WriteLog.read_single, Function.update]
  by_cases hmouse : n ∈ mouseCodes
  · funext mode
    cases mode with
    | mouse k =>
      by_cases hk : k = n
      · subst hk
        cases set <;> simp [assign, setting, h1, h25, halt, h2004, hmouse, value,
          WriteLog.read_single]
      · cases set <;> simp [assign, setting, h1, h25, halt, h2004, hmouse, value,
          WriteLog.read_single, Function.update, hk]
    | _ => simp [assign, setting, h1, h25, halt, h2004, hmouse, value, WriteLog.read_single]
  · simp [assign, setting, h1, h25, halt, h2004, hmouse]

theorem value_foldl_assign (m : Modes) (set : Bool) (ns : List ℕ) :
    (ns.foldl (assign · set) m).value = WriteLog.read m.value (ns.filterMap (setting set)) := by
  induction ns generalizing m with
  | nil => rfl
  | cons n ns ih =>
    rw [List.foldl_cons, ih, value_assign, ← WriteLog.read_append]
    congr 1
    cases h : setting set n <;> simp [h]

theorem value_dispatch (m : Modes) (buf : List UInt8) (finalByte : UInt8) :
    (m.dispatch buf finalByte).value = WriteLog.read m.value (settings (buf, finalByte)) := by
  unfold dispatch settings
  split_ifs
  · exact value_foldl_assign m true _
  · exact value_foldl_assign m false _
  · rfl

end Modes

/-! ## Feeding -/

namespace ModeTracker

theorem feedByte_st (t : ModeTracker) (b : UInt8) : (t.feedByte b).st = t.st.next b := by
  unfold feedByte Scan.next
  cases t.st with
  | ground => rfl
  | esc => rfl
  | csi buf =>
    simp only
    split_ifs <;> rfl

theorem feedByte_toModes (t : ModeTracker) (b : UInt8) :
    (t.feedByte b).toModes = ((t.st.completed b).toList).foldl
      (fun m seq => m.dispatch seq.1 seq.2) t.toModes := by
  unfold feedByte Scan.completed
  cases t.st with
  | ground => rfl
  | esc => rfl
  | csi buf =>
    by_cases hparam : 0x20 ≤ b ∧ b ≤ 0x3f
    · simp only [if_pos hparam, if_neg (not_final_of_param hparam)]
      rfl
    · simp only [if_neg hparam]
      split_ifs <;> rfl

theorem feed_append (t : ModeTracker) (a b : List UInt8) : t.feed (a ++ b) = (t.feed a).feed b :=
  List.foldl_append

theorem feed_st (t : ModeTracker) (bytes : List UInt8) : (t.feed bytes).st = t.st.after bytes := by
  induction bytes generalizing t with
  | nil => rfl
  | cons b bytes ih => exact (ih (t.feedByte b)).trans (by rw [feedByte_st]; rfl)

theorem feed_toModes (t : ModeTracker) (bytes : List UInt8) :
    (t.feed bytes).toModes = (sequences t.st bytes).foldl
      (fun m seq => m.dispatch seq.1 seq.2) t.toModes := by
  induction bytes generalizing t with
  | nil => rfl
  | cons b bytes ih =>
    change ((t.feedByte b).feed bytes).toModes = _
    rw [ih, feedByte_st, feedByte_toModes, sequences, List.foldl_append]

/-- The modes after a stream: those before it, with the last setting the stream makes for each. -/
theorem value_feed (t : ModeTracker) (bytes : List UInt8) :
    (t.feed bytes).toModes.value =
      WriteLog.read t.toModes.value ((sequences t.st bytes).flatMap settings) := by
  rw [feed_toModes]
  generalize t.toModes = m
  induction sequences t.st bytes generalizing m with
  | nil => rfl
  | cons seq seqs ih =>
    rw [List.foldl_cons, ih, Modes.value_dispatch, List.flatMap_cons, WriteLog.read_append]

end ModeTracker

end Webshell
