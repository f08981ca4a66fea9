import Webshell.Terminals.Attach
import Webshell.Terminals.Ring

/-!
# When the screen is built anew

A ring is pushed to, resized and asked for snapshots in any order. Beside it stands a record of
what its screen should have been fed: what the last rebuild replayed, and every byte since.

## Main definitions

- `LawfulVt100`: an emulator that does not mind where its input is cut up
- `ScreenOp`, `Screening`: what is done to a ring, and the record beside it
- `clientScreen`: the screen of a client that resets and replays

## Main results

- `screening_fed`: the screen was fed what the record says, unless a resize is pending
- `screen_is_clients`: a snapshot shows what a client would see
-/

namespace Webshell

/-- Feeding an emulator is an action of the streams. -/
class LawfulVt100 (P : Type) [Vt100 P] : Prop where
  process_nil : ∀ p : P, Vt100.process p [] = p
  process_append : ∀ (p : P) (a b : List UInt8),
    Vt100.process p (a ++ b) = Vt100.process (Vt100.process p a) b

inductive ScreenOp
  | push (data : List UInt8)
  | resize (cols rows : ℕ)
  | snapshot

/-- The bytes that are pushed. -/
def ScreenOp.pushed : ScreenOp → List UInt8
  | push data => data
  | _ => []

/-- A ring with the record: its grid, whether a resize is pending, what the last rebuild replayed,
and the bytes pushed before and since. -/
structure Screening (P : Type) where
  ring : Scrollback P
  grid : ℕ × ℕ
  pending : Bool
  base : List UInt8
  before : List UInt8
  since : List UInt8

section
variable {P : Type} [Vt100 P]

namespace Screening

def new (cap cols rows : ℕ) : Screening P where
  ring := Scrollback.new cap cols rows
  grid := (cols, rows)
  pending := false
  base := []
  before := []
  since := []

/-- The first snapshot after a resize is a rebuild. -/
def exec (x : Screening P) : ScreenOp → Screening P
  | .push data => { x with ring := x.ring.push data, since := x.since ++ data }
  | .resize cols rows =>
    { x with
      ring := x.ring.resize cols rows
      grid := (cols, rows)
      pending := x.pending || x.grid != (cols, rows) }
  | .snapshot =>
    let ring := x.ring.screenSnapshot.2
    if x.pending then
      { ring := ring
        grid := x.grid
        pending := false
        base := x.ring.frontInit ++ x.ring.buf
        before := x.before ++ x.since
        since := [] }
    else { x with ring := ring }

end Screening

/-- A ring after some operations. -/
def screening (cap cols rows : ℕ) (ops : List ScreenOp) : Screening P :=
  ops.foldl Screening.exec (Screening.new cap cols rows)

theorem screening_snoc (cap cols rows : ℕ) (ops : List ScreenOp) (op : ScreenOp) :
    screening cap cols rows (ops ++ [op]) =
      (screening cap cols rows ops : Screening P).exec op := by
  rw [screening, List.foldl_append]
  rfl

/-- The screen of a fresh emulator that is fed a stream. -/
def shown (grid : ℕ × ℕ) (stream : List UInt8) : P :=
  Vt100.process (Scrollback.screenModel grid.1 grid.2) stream

/-- A reset, the modes of the hello, and the replay, at some grid. -/
def clientScreen (grid : ℕ × ℕ) (a : Attachment) : P :=
  Vt100.process (Vt100.process (Scrollback.screenModel grid.1 grid.2) a.init) a.replay

/-- What a rebuild replays once a stream has been pushed: the modes that its lost part sets, and
the ring. -/
def replayOf (cap : ℕ) (stream : List UInt8) : List UInt8 :=
  (ModeTracker.new.feed (stream.take (stream.length - cap))).synth ++
    stream.drop (stream.length - cap)

theorem synth_new : ModeTracker.new.synth = [] := by
  simp [ModeTracker.new, Modes.new, Modes.synth]

theorem replayOf_nil (cap : ℕ) : replayOf cap [] = [] := by
  rw [replayOf, List.take_nil, List.drop_nil, List.append_nil, ModeTracker.feed, List.foldl_nil,
    synth_new]

omit [Vt100 P] in
theorem Scrollback.Holds.replayOf_eq {s : Scrollback P} {stream : List UInt8}
    (h : s.Holds stream) : s.frontInit ++ s.buf = replayOf s.cap stream := by
  rw [Scrollback.frontInit, h.frontState, h.buf, replayOf]

/-! ## The record is right -/

/-- The ring and its record agree about a stream. -/
structure Screening.Fed (x : Screening P) (capacity : ℕ) (stream : List UInt8) : Prop where
  holds : x.ring.Holds stream
  cap : x.ring.cap = capacity
  grid : x.ring.size = x.grid
  pending : x.ring.stale = x.pending
  screen : x.pending = false → x.ring.screen = shown x.grid (x.base ++ x.since)
  stream : x.before ++ x.since = stream
  base : x.base = replayOf capacity x.before

variable {x : Screening P} {cap : ℕ} {stream : List UInt8}

namespace Screening

theorem exec_snapshot_of_pending (h : x.pending = true) :
    x.exec .snapshot = ⟨x.ring.screenSnapshot.2, x.grid, false, x.ring.frontInit ++ x.ring.buf,
      x.before ++ x.since, []⟩ := by
  simp only [exec, h, if_true]

/-- Without a pending resize a snapshot only looks. -/
theorem Fed.exec_snapshot_of_not_pending (h : x.Fed cap stream) (hpending : x.pending = false) :
    x.exec .snapshot = x ∧ x.ring.screenSnapshot.2 = x.ring := by
  have hstale : x.ring.stale = false := h.pending.trans hpending
  have hring : x.ring.screenSnapshot.2 = x.ring := by
    simp only [Scrollback.screenSnapshot, hstale, Bool.false_eq_true, if_false]
  refine ⟨?_, hring⟩
  simp only [exec, hpending, Bool.false_eq_true, if_false, hring]
  rw [← hpending]

theorem Fed.grid_snapshot (h : x.Fed cap stream) : (x.exec .snapshot).grid = x.grid := by
  cases hpending : x.pending with
  | true => rw [exec_snapshot_of_pending hpending]
  | false => rw [(h.exec_snapshot_of_not_pending hpending).1]

end Screening

variable [LawfulVt100 P]

theorem shown_append (grid : ℕ × ℕ) (a b : List UInt8) :
    (shown grid (a ++ b) : P) = Vt100.process (shown grid a) b :=
  LawfulVt100.process_append _ a b

namespace Screening

theorem fed_new (cap cols rows : ℕ) : (new cap cols rows : Screening P).Fed cap [] where
  holds := Scrollback.holds_new cap cols rows
  cap := rfl
  grid := rfl
  pending := rfl
  screen _ := (LawfulVt100.process_nil _).symm
  stream := rfl
  base := (replayOf_nil cap).symm

theorem Fed.push (h : x.Fed cap stream) (data : List UInt8) :
    (x.exec (.push data)).Fed cap (stream ++ data) where
  holds := h.holds.push data
  cap := h.cap
  grid := h.grid
  pending := h.pending
  screen hpending := by
    show Vt100.process x.ring.screen data = shown x.grid (x.base ++ (x.since ++ data))
    rw [← List.append_assoc, shown_append, h.screen hpending]
  stream := by
    show x.before ++ (x.since ++ data) = stream ++ data
    rw [← List.append_assoc, h.stream]
  base := h.base

omit [LawfulVt100 P] in
theorem Fed.resize (h : x.Fed cap stream) (cols rows : ℕ) :
    (x.exec (.resize cols rows)).Fed cap stream := by
  have hholds := h.holds.resize cols rows
  by_cases hsize : x.ring.size = (cols, rows)
  · -- nothing happens to the ring, and the grid of the record stays
    have hring : x.ring.resize cols rows = x.ring := if_neg (not_not.mpr hsize)
    have hgrid : x.grid = (cols, rows) := h.grid.symm.trans hsize
    have hexec : x.exec (.resize cols rows) = x := by
      rw [exec, hring, ← hgrid, bne_self_eq_false, Bool.or_false]
    rwa [hexec]
  · have hring : x.ring.resize cols rows =
        { x.ring with size := (cols, rows), stale := true } := if_pos hsize
    have hgrid : x.grid ≠ (cols, rows) := h.grid ▸ hsize
    have hpending : (x.exec (.resize cols rows)).pending = true := by
      show (x.pending || x.grid != (cols, rows)) = true
      rw [bne_iff_ne.mpr hgrid, Bool.or_true]
    refine ⟨hholds, ?_, ?_, ?_, fun hfalse => ?_, h.stream, h.base⟩
    · show (x.ring.resize cols rows).cap = cap
      rw [hring]
      exact h.cap
    · show (x.ring.resize cols rows).size = (cols, rows)
      rw [hring]
    · show (x.ring.resize cols rows).stale = _
      rw [hring, hpending]
    · rw [hpending] at hfalse
      cases hfalse

/-- A rebuild replays what the ring holds then; any other snapshot leaves the screen alone. -/
theorem Fed.snapshot (h : x.Fed cap stream) : (x.exec .snapshot).Fed cap stream := by
  have hholds := h.holds.screenSnapshot
  cases hpending : x.pending with
  | true =>
    have hstale : x.ring.stale = true := h.pending.trans hpending
    rw [exec_snapshot_of_pending hpending]
    -- the record begins anew at the rebuild, with nothing since
    refine ⟨hholds, ?_, ?_, ?_, fun _ => ?_, ?_, ?_⟩
    · simp only [Scrollback.screenSnapshot, hstale, if_true]
      exact h.cap
    · simp only [Scrollback.screenSnapshot, hstale, if_true]
      exact h.grid
    · simp only [Scrollback.screenSnapshot, hstale, if_true]
    · simp only [Scrollback.screenSnapshot, hstale, if_true, List.append_nil, h.grid]
      rw [shown_append]
      rfl
    · rw [List.append_nil, h.stream]
    · rw [h.holds.replayOf_eq, h.cap, h.stream]
  | false =>
    rwa [(h.exec_snapshot_of_not_pending hpending).1]

theorem Fed.exec (h : x.Fed cap stream) (op : ScreenOp) :
    (x.exec op).Fed cap (stream ++ op.pushed) := by
  cases op with
  | push data => exact h.push data
  | resize cols rows =>
    show (x.exec (.resize cols rows)).Fed cap (stream ++ [])
    rw [List.append_nil]
    exact h.resize cols rows
  | snapshot =>
    show (x.exec .snapshot).Fed cap (stream ++ [])
    rw [List.append_nil]
    exact h.snapshot

/-- What a snapshot returns, once its rebuild is done. -/
theorem Fed.contents (h : x.Fed cap stream) :
    x.ring.screenSnapshot.1 =
      Vt100.contentsFormatted (shown (x.exec .snapshot).grid
        ((x.exec .snapshot).base ++ (x.exec .snapshot).since) : P) := by
  have hexec : (x.exec .snapshot).pending = false ∧
      (x.exec .snapshot).ring = x.ring.screenSnapshot.2 := by
    cases hpending : x.pending with
    | true => exact exec_snapshot_of_pending hpending ▸ ⟨rfl, rfl⟩
    | false =>
      obtain ⟨hexec, hring⟩ := h.exec_snapshot_of_not_pending hpending
      rw [hexec, hring]
      exact ⟨hpending, rfl⟩
  rw [← h.snapshot.screen hexec.1, hexec.2]
  rfl

end Screening

/-- The record is right after any operations. -/
theorem screening_fed (cap cols rows : ℕ) (ops : List ScreenOp) :
    (screening cap cols rows ops : Screening P).Fed cap (ops.flatMap ScreenOp.pushed) := by
  induction ops using List.reverseRecOn with
  | nil => exact Screening.fed_new cap cols rows
  | append_singleton ops op ih =>
    rw [screening_snoc, List.flatMap_append, List.flatMap_singleton]
    exact ih.exec op

/-- **The server's screen is the one that a client would have.** After any operations, a snapshot
is of a fresh emulator of the current grid that was fed what the last rebuild replayed and then
every byte since: those and the bytes before the rebuild are the stream, and the rebuild replayed
the modes and the ring of then. While a resize is pending it is of the screen of a client that
attaches anew at that grid. -/
theorem screen_is_clients (cap cols rows : ℕ) (ops : List ScreenOp) :
    let x : Screening P := screening cap cols rows ops
    let x' := x.exec .snapshot
    x.ring.screenSnapshot.1 = Vt100.contentsFormatted (shown x'.grid (x'.base ++ x'.since) : P) ∧
    x'.grid = x.ring.size ∧
    ops.flatMap ScreenOp.pushed = x'.before ++ x'.since ∧
    x'.base = replayOf cap x'.before ∧
    (x.pending = true →
      x'.base = x.ring.frontInit ++ x.ring.buf ∧ x'.since = [] ∧
      ∀ epoch (sh : Shell P), sh.scrollback = x.ring →
        x.ring.screenSnapshot.1 =
          Vt100.contentsFormatted (clientScreen x.ring.size (attachment epoch sh none) : P)) := by
  intro x x'
  have hfed : x.Fed cap (ops.flatMap ScreenOp.pushed) := screening_fed cap cols rows ops
  have hfed' : x'.Fed cap (ops.flatMap ScreenOp.pushed) := hfed.snapshot
  have hgrid : x'.grid = x.grid := hfed.grid_snapshot
  refine ⟨hfed.contents, hgrid.trans hfed.grid.symm, hfed'.stream.symm, hfed'.base,
    fun hpending => ?_⟩
  have hbase : x'.base = x.ring.frontInit ++ x.ring.buf := by
    simp only [x', Screening.exec, hpending, if_true]
  have hsince : x'.since = [] := by
    simp only [x', Screening.exec, hpending, if_true]
  refine ⟨hbase, hsince, fun epoch sh hring => ?_⟩
  -- a client writes the mode prefix and then the ring, as the rebuild does
  have hattach : (clientScreen x.ring.size (attachment epoch sh none) : P) =
      shown x.ring.size (x.ring.frontInit ++ x.ring.buf) := by
    rw [shown_append, ← hring]
    rfl
  rw [hattach, hfed.grid, ← hgrid, ← hbase]
  have hcontents := hfed.contents
  rwa [show (x.exec .snapshot).since = [] from hsince, List.append_nil] at hcontents

end

/-! ## One line of text -/

/-- An emulator of a single line of plain text: the grid, and what was written. -/
structure OneLine where
  grid : ℕ × ℕ
  text : List UInt8

/-- The contents clear the display, and write the line anew. -/
instance : Vt100 OneLine where
  parser rows cols := ⟨(cols, rows), []⟩
  process p data := { p with text := p.text ++ data }
  contentsFormatted p :=
    [0x1b, 0x5b, 0x3f, 0x32, 0x35, 0x68, 0x1b, 0x5b, 0x6d, 0x1b, 0x5b, 0x48, 0x1b, 0x5b, 0x4a] ++
      p.text

instance : LawfulVt100 OneLine where
  process_nil p := congrArg (OneLine.mk p.grid) (List.append_nil p.text)
  process_append p a b := congrArg (OneLine.mk p.grid) (List.append_assoc p.text a b).symm

/-- Four letters, of which the ring keeps two, and a resize. -/
def twoOfFour : List ScreenOp := [.push [0x61, 0x62, 0x63], .push [0x64], .resize 100 30]

/-- The rebuilt screen shows what a client would be sent. -/
theorem screen_is_clients_twoOfFour :
    (screening 2 80 24 twoOfFour : Screening OneLine).ring.screenSnapshot.1 =
      Vt100.contentsFormatted (⟨(100, 30), [0x63, 0x64]⟩ : OneLine) := by
  let ring : Scrollback OneLine := (screening 2 80 24 twoOfFour).ring
  let sh : Shell OneLine := ⟨true, ring, ⟨64, []⟩⟩
  have hclient := ((screen_is_clients 2 80 24 twoOfFour).2.2.2.2 rfl).2.2 0 sh rfl
  have hinit : ring.frontInit = [] := synth_new
  have hscreen : (clientScreen (100, 30) (attachment 0 sh none) : OneLine) =
      ⟨(100, 30), ring.frontInit ++ [0x63, 0x64]⟩ := rfl
  rw [hinit] at hscreen
  exact hclient.trans (congrArg Vt100.contentsFormatted hscreen)

end Webshell
