import Webshell.Terminals.ModeTracker

/-!
# The scrollback ring

The last `cap` bytes of a shell's output, the mode tracker of what has left them, and the
server's own model of the screen. The screen emulator is a parameter.

## Main definitions

- `Scrollback`: `push`, `resize`, `screenSnapshot`, `frontInit`, `cut`
- `Scrollback.Holds`: the buffer is the tail of a stream, and the tracker has read the rest

## Main results

- `Scrollback.Holds.push`, `Scrollback.holds_pushes`: pushing appends to the stream
- `Scrollback.Holds.cut_cases`: a cut is a tail of the stream
-/

namespace Webshell

/-- A screen emulator: an empty screen of `rows` and `cols`, its rendering of more output, and
its contents as escape sequences. -/
class Vt100 (P : Type) where
  parser : ℕ → ℕ → P
  process : P → List UInt8 → P
  contentsFormatted : P → List UInt8

/-- A screen that shows nothing. -/
instance : Vt100 Unit := ⟨fun _ _ => (), fun _ _ => (), fun _ => []⟩

/-- How an attachment's replay relates to what the client already has. -/
inductive AttachMode
  | resume
  | replay
deriving DecidableEq

structure Scrollback (P : Type) where
  buf : List UInt8
  cap : ℕ
  total : ℕ
  frontState : ModeTracker
  screen : P
  size : ℕ × ℕ
  stale : Bool

/-- The `pop_front` loop of `push`: what leaves a buffer of the given capacity, and what is left. -/
def popFront (cap : ℕ) : List UInt8 → List UInt8 × List UInt8
  | [] => ([], [])
  | b :: buf =>
    if cap < (b :: buf).length then
      let (evicted, rest) := popFront cap buf
      (b :: evicted, rest)
    else ([], b :: buf)

namespace Scrollback

variable {P : Type} [Vt100 P]

/-- An empty screen; a degenerate size becomes one cell. -/
def screenModel (cols rows : ℕ) : P := Vt100.parser (max rows 1) (max cols 1)

def new (cap cols rows : ℕ) : Scrollback P where
  buf := []
  cap := cap
  total := 0
  frontState := ModeTracker.new
  screen := screenModel cols rows
  size := (cols, rows)
  stale := false

def push (s : Scrollback P) (data : List UInt8) : Scrollback P :=
  let (evicted, buf) := popFront s.cap (s.buf ++ data)
  { s with
    total := s.total + data.length
    buf := buf
    frontState := s.frontState.feed evicted
    screen := Vt100.process s.screen data }

def resize (s : Scrollback P) (cols rows : ℕ) : Scrollback P :=
  if s.size ≠ (cols, rows) then { s with size := (cols, rows), stale := true } else s

/-- Escape sequences a full replay is prefixed with. -/
def frontInit (s : Scrollback P) : List UInt8 := s.frontState.synth

def snapshot (s : Scrollback P) : List UInt8 := s.buf

def screenSnapshot (s : Scrollback P) : List UInt8 × Scrollback P :=
  let s :=
    if s.stale then
      { s with
        screen := Vt100.process
          (Vt100.process (screenModel s.size.1 s.size.2) s.frontInit) s.buf
        stale := false }
    else s
  (Vt100.contentsFormatted s.screen, s)

def cut (s : Scrollback P) (offset : Option ℕ) : AttachMode × ℕ × List UInt8 :=
  match offset with
  | some off =>
    if off ≤ s.total ∧ s.total - off ≤ s.buf.length then
      (.resume, off, s.buf.drop (s.buf.length - (s.total - off)))
    else (.replay, s.total - s.snapshot.length, s.snapshot)
  | none => (.replay, s.total - s.snapshot.length, s.snapshot)

end Scrollback

theorem popFront_eq (cap : ℕ) (buf : List UInt8) :
    popFront cap buf = (buf.take (buf.length - cap), buf.drop (buf.length - cap)) := by
  induction buf with
  | nil => simp [popFront]
  | cons b buf ih =>
    rw [popFront]
    split
    case isTrue h =>
      have hlen : (b :: buf).length - cap = (buf.length - cap) + 1 := by
        rw [List.length_cons] at h ⊢
        omega
      rw [ih, hlen, List.take_succ_cons, List.drop_succ_cons]
    case isFalse h =>
      rw [Nat.sub_eq_zero_of_le (not_lt.mp h), List.take_zero, List.drop_zero]

namespace Scrollback

variable {P : Type}

/-- The ring holds the last `cap` bytes of the stream, and the tracker has read those before. -/
structure Holds (s : Scrollback P) (stream : List UInt8) : Prop where
  buf : s.buf = stream.drop (stream.length - s.cap)
  total : s.total = stream.length
  frontState : s.frontState = ModeTracker.new.feed (stream.take (stream.length - s.cap))

theorem holds_new [Vt100 P] (cap cols rows : ℕ) : (new cap cols rows : Scrollback P).Holds [] :=
  ⟨by simp [new], rfl, by simp [new, ModeTracker.feed]⟩

theorem Holds.push [Vt100 P] {s : Scrollback P} {stream : List UInt8} (h : s.Holds stream)
    (data : List UInt8) : (s.push data).Holds (stream ++ data) := by
  -- the bytes evicted now are the ones right after those evicted before
  have hkeep : s.buf ++ data = (stream ++ data).drop (stream.length - s.cap) := by
    rw [h.buf, List.drop_append_of_le_length (Nat.sub_le _ _)]
  have hlen : (stream ++ data).length - s.cap
      = stream.length - s.cap + ((s.buf ++ data).length - s.cap) := by
    rw [hkeep, List.length_drop, List.length_append]
    omega
  refine ⟨?_, ?_, ?_⟩
  · change (popFront s.cap (s.buf ++ data)).2 =
      (stream ++ data).drop ((stream ++ data).length - s.cap)
    rw [popFront_eq, hlen, ← List.drop_drop, ← hkeep]
  · change s.total + data.length = _
    rw [h.total, List.length_append]
  · change s.frontState.feed (popFront s.cap (s.buf ++ data)).1 =
      ModeTracker.new.feed ((stream ++ data).take ((stream ++ data).length - s.cap))
    rw [popFront_eq, h.frontState, ← ModeTracker.feed_append, hlen, List.take_add, ← hkeep,
      List.take_append_of_le_length (Nat.sub_le _ _)]

theorem Holds.resize {s : Scrollback P} {stream : List UInt8} (h : s.Holds stream)
    (cols rows : ℕ) : (s.resize cols rows).Holds stream := by
  unfold Scrollback.resize
  split
  · exact ⟨h.buf, h.total, h.frontState⟩
  · exact h

theorem Holds.screenSnapshot [Vt100 P] {s : Scrollback P} {stream : List UInt8}
    (h : s.Holds stream) : s.screenSnapshot.2.Holds stream := by
  unfold Scrollback.screenSnapshot
  dsimp only
  split
  · exact ⟨h.buf, h.total, h.frontState⟩
  · exact h

/-- A cut within the ring is the tail the client misses; any other is the whole ring. -/
theorem Holds.cut_cases {s : Scrollback P} {stream : List UInt8} (h : s.Holds stream)
    (offset : Option ℕ) :
    (∃ off, offset = some off ∧ off ≤ stream.length ∧
        s.cut offset = (.resume, off, stream.drop off)) ∨
      ∃ base ≤ stream.length, s.cut offset = (.replay, base, stream.drop base) := by
  have hlen : s.buf.length = stream.length - (stream.length - s.cap) := by
    rw [h.buf, List.length_drop]
  have hreplay : (AttachMode.replay, s.total - s.snapshot.length, s.snapshot) =
      (.replay, stream.length - s.cap, stream.drop (stream.length - s.cap)) := by
    rw [snapshot, h.total, hlen, h.buf]
    congr 2
    omega
  cases offset with
  | none => exact .inr ⟨_, Nat.sub_le _ _, hreplay⟩
  | some off =>
    by_cases hin : off ≤ s.total ∧ s.total - off ≤ s.buf.length
    · refine .inl ⟨off, rfl, h.total ▸ hin.1, ?_⟩
      have hdrop : s.buf.drop (s.buf.length - (s.total - off)) = stream.drop off := by
        rw [h.total, hlen] at hin
        rw [hlen, h.total, h.buf, List.drop_drop]
        congr 1
        omega
      rw [cut, if_pos hin, hdrop]
    · exact .inr ⟨_, Nat.sub_le _ _, by rw [cut, if_neg hin, hreplay]⟩

/-- Pushing a stream in chunks, however it is cut up. -/
theorem holds_pushes [Vt100 P] (cap cols rows : ℕ) (chunks : List (List UInt8)) :
    (chunks.foldl push (new cap cols rows : Scrollback P)).Holds chunks.flatten ∧
      (chunks.foldl push (new cap cols rows : Scrollback P)).cap = cap := by
  induction chunks using List.reverseRecOn with
  | nil => exact ⟨holds_new cap cols rows, rfl⟩
  | append_singleton chunks data ih =>
    rw [List.foldl_append, List.flatten_append, List.flatten_singleton]
    exact ⟨ih.1.push data, ih.2⟩

end Scrollback

end Webshell
