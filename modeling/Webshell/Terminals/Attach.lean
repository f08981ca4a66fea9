import Webshell.Lib.Broadcast
import Webshell.Terminals.Scrollback

/-!
# Attaching to a shell

A running shell as the reader thread and the attachments see it: the ring and the broadcast
channel, changed together under one lock. The stream of a shell is all it ever broadcast, and a
receiver's place in that stream is the length of what was broadcast before it.

## Main definitions

- `Shell.readChunk`: the reader thread's critical section
- `attachment`: cut and subscribe, the part `attach` and `attach_view` share
- `Shell.redraw`: the periodic redraw's drain and snapshot

## Main results

- `attachment_cases`: an attachment continues where its client is, or restarts it; either way its
  replay ends where its receiver begins
- `Shell.redraw_cases`: a redraw forwards everything before its snapshot, or closes the channel
-/

namespace Webshell

structure Shell (P : Type) where
  alive : Bool
  scrollback : Scrollback P
  output : Broadcast.Channel (List UInt8)

/-- What a client needs to bridge a socket to a terminal. -/
structure Attachment where
  mode : AttachMode
  epoch : ℕ
  baseOffset : ℕ
  init : List UInt8
  replay : List UInt8
  outputRx : ℕ

structure Redraw where
  pending : List (List UInt8)
  lagged : Bool
  cols : ℕ
  rows : ℕ
  screen : List UInt8

namespace Shell

variable {P : Type}

/-- `spawn_terminal`, as far as output is concerned. -/
def spawn [Vt100 P] (scrollbackCap cols rows : ℕ) : Shell P where
  alive := true
  scrollback := Scrollback.new scrollbackCap cols rows
  output := { capacity := 64, sent := [] }

/-- Everything the shell has put out. -/
def stream (sh : Shell P) : List UInt8 := sh.output.sent.flatten

/-- The reader thread's append and broadcast, under one lock. -/
def readChunk [Vt100 P] (sh : Shell P) (chunk : List UInt8) : Shell P :=
  { sh with
    scrollback := sh.scrollback.push chunk
    output := sh.output.send chunk }

/-- The ring and the tracker of the shell agree with its stream. -/
def Consistent (sh : Shell P) : Prop := sh.scrollback.Holds sh.stream

/-- The stream position of a receiver. -/
def position (sh : Shell P) (rx : ℕ) : ℕ := (sh.output.sent.take rx).flatten.length

/-- A snapshot consistent with the receiver's position in the stream. -/
def redraw [Vt100 P] (sh : Shell P) (rx : ℕ) : Redraw × Shell P × ℕ :=
  let (pending, lagged, rx) := sh.output.drain rx
  let (screen, scrollback) := sh.scrollback.screenSnapshot
  ({ pending := pending, lagged := lagged, cols := sh.scrollback.size.1,
     rows := sh.scrollback.size.2, screen := screen },
    { sh with scrollback := scrollback }, rx)

end Shell

/-- Cut and subscribe, under the lock the reader thread uses. An offset counts only against the
shell whose epoch it comes with. -/
def attachment {P : Type} (epoch : ℕ) (sh : Shell P) (resume : Option (ℕ × ℕ)) : Attachment :=
  let clientOffset := resume.bind fun r => if r.1 = epoch then some r.2 else none
  let (mode, baseOffset, replay) := sh.scrollback.cut clientOffset
  { mode := mode
    epoch := epoch
    baseOffset := baseOffset
    init := if mode = .replay then sh.scrollback.frontInit else []
    replay := replay
    outputRx := sh.output.subscribe }

namespace Shell

variable {P : Type} [Vt100 P]

theorem consistent_spawn (scrollbackCap cols rows : ℕ) :
    (spawn scrollbackCap cols rows : Shell P).Consistent :=
  Scrollback.holds_new scrollbackCap cols rows

theorem stream_readChunk (sh : Shell P) (chunk : List UInt8) :
    (sh.readChunk chunk).stream = sh.stream ++ chunk := by
  simp [stream, readChunk, Broadcast.Channel.send]

theorem Consistent.readChunk {sh : Shell P} (h : sh.Consistent) (chunk : List UInt8) :
    (sh.readChunk chunk).Consistent := by
  rw [Consistent, stream_readChunk]
  exact Scrollback.Holds.push h chunk

omit [Vt100 P] in
theorem position_length (sh : Shell P) : sh.position sh.output.sent.length = sh.stream.length := by
  rw [position, List.take_length, stream]

omit [Vt100 P] in
/-- The bytes between two receiver positions are those broadcast in between. -/
theorem take_position (sh : Shell P) (rx : ℕ) :
    sh.stream.take (sh.position rx) = (sh.output.sent.take rx).flatten := by
  have hsplit : sh.stream =
      (sh.output.sent.take rx).flatten ++ (sh.output.sent.drop rx).flatten := by
    rw [← List.flatten_append, List.take_append_drop, stream]
  rw [hsplit, position, List.take_left']
  rfl

omit [Vt100 P] in
theorem position_le (sh : Shell P) (rx : ℕ) : sh.position rx ≤ sh.stream.length := by
  have htake := congrArg List.length (sh.take_position rx)
  rw [List.length_take] at htake
  change min (sh.position rx) sh.stream.length = sh.position rx at htake
  omega

/-- A redraw forwards everything before its snapshot, or nothing on a lag. It leaves the stream
alone. -/
theorem redraw_cases {sh : Shell P} {rx : ℕ} (hrx : rx ≤ sh.output.sent.length) :
    ∃ scrollback, (sh.redraw rx).2.1 = { sh with scrollback := scrollback } ∧
      (sh.Consistent → ({ sh with scrollback := scrollback } : Shell P).Consistent) ∧
      (((sh.redraw rx).1.lagged = true ∧ (sh.redraw rx).1.pending = []) ∨
        ((sh.redraw rx).1.lagged = false ∧
          (sh.redraw rx).1.pending = sh.output.sent.drop rx ∧
          (sh.redraw rx).2.2 = sh.output.sent.length)) := by
  refine ⟨sh.scrollback.screenSnapshot.2, rfl, fun h => Scrollback.Holds.screenSnapshot h, ?_⟩
  rcases sh.output.drain_eq hrx with heq | ⟨rx', heq⟩
  · exact .inr ⟨by simp [redraw, heq], by simp [redraw, heq], by simp [redraw, heq]⟩
  · exact .inl ⟨by simp [redraw, heq], by simp [redraw, heq]⟩

end Shell

/-! ## The seam -/

/-- An attachment resumes at the position its client carries for this shell, or replays from a
base of its own; its replay is the stream from there on, and its receiver gets what follows. -/
theorem attachment_cases {P : Type} {sh : Shell P} (h : sh.Consistent) (epoch : ℕ)
    (resume : Option (ℕ × ℕ)) :
    (attachment epoch sh resume).epoch = epoch ∧
      (attachment epoch sh resume).outputRx = sh.output.sent.length ∧
      (attachment epoch sh resume).baseOffset ≤ sh.stream.length ∧
      (attachment epoch sh resume).replay =
        sh.stream.drop (attachment epoch sh resume).baseOffset ∧
      ((attachment epoch sh resume).mode = .resume →
        resume = some (epoch, (attachment epoch sh resume).baseOffset)) := by
  have hcut := h.cut_cases (resume.bind fun r => if r.1 = epoch then some r.2 else none)
  rcases hcut with ⟨off, hoff, hle, heq⟩ | ⟨base, hle, heq⟩
  · simp only [attachment, heq]
    refine ⟨trivial, rfl, hle, trivial, fun _ => ?_⟩
    obtain ⟨⟨e, off'⟩, rfl, hsome⟩ := Option.bind_eq_some_iff.mp hoff
    by_cases he : e = epoch
    · rw [if_pos he, Option.some.injEq] at hsome
      rw [← he, ← hsome]
    · rw [if_neg he] at hsome
      cases hsome
  · simp only [attachment, heq]
    exact ⟨trivial, rfl, hle, trivial, fun hmode => by cases hmode⟩

end Webshell
