import Webshell.Lib.Transition
import Webshell.Pty.Client
import Webshell.Pty.Mux

/-!
# A slot and its clients

One slot of a user, the shells spawned for it one after the other, and any number of clients
that reach it over connections of their own. A step is one critical section or one await of the
source: a chunk of the reader thread, a received frame of the client, an attach, a frame queued
by the connection loop or by the forward task, a frame delivered. A share viewer is the same
machine with a single open, sent in its upgrade request.

Epochs of different spawns, those of earlier server runs included, are assumed to be distinct, so
a shell is named by its epoch.

## Main definitions

- `slotStep`, `slotSystem`: the steps, and the runs from an empty slot
-/

namespace Webshell

open Transition
open MuxBridge (validSize)

/-- A forward task: its receiver, the frames it has yet to queue, and whether it ends then. -/
structure Forward where
  epoch : ℕ
  rx : ℕ
  hand : List Frame
  last : Bool

/-- Where the connection loop stands with an open. -/
inductive Phase
  | reading
  /-- The old forward task was aborted, and its end is awaited. -/
  | stopping (resume : Option (ℕ × ℕ))
  /-- The frames to queue before the forward task of this epoch and receiver is spawned. -/
  | queueing (frames : List Frame) (forward : Option (ℕ × ℕ))

structure Conn where
  /-- A share viewer's connection. -/
  view : Bool
  /-- The opens sent and not yet read, with what they carry. -/
  opens : List (Option (ℕ × ℕ))
  phase : Phase
  forward : Option Forward
  /-- Frames queued and not yet delivered. -/
  wire : List Frame

/-- A client, with the opens sent and the hellos received on its connection. -/
structure Peer where
  view : View
  opened : ℕ
  greeted : ℕ
  conn : Option Conn

/-- The shells by their epochs, and the one in the slot. -/
structure World (P : Type) where
  shells : ℕ → Option (Shell P)
  slot : Option ℕ

structure State (P : Type) extends World P where
  peers : ℕ → Peer

inductive Act
  | output (epoch : ℕ) (chunk : List UInt8)
  | exit (epoch : ℕ)
  | resize (epoch cols rows : ℕ)
  | reset
  | connect (c : ℕ)
  | connectView (c : ℕ) (carry : Bool)
  | drop (c : ℕ)
  | sendOpen (c : ℕ) (carry : Bool)
  | readOpen (c : ℕ)
  | endForward (c : ℕ)
  | attach (c cols rows : ℕ) (spawn : Option ℕ)
  | queue (c : ℕ)
  | receive (c : ℕ)
  | redraw (c : ℕ)
  | shutdown (c : ℕ)
  | queueHand (c : ℕ)
  | deliver (c : ℕ)

namespace World

variable {P : Type}

def setShell (w : World P) (epoch : ℕ) (sh : Shell P) : World P :=
  { w with shells := Function.update w.shells epoch (some sh) }

/-- The slot's shell, if it is alive. -/
def running (w : World P) : Option (ℕ × Shell P) :=
  w.slot.bind fun epoch => (w.shells epoch).bind fun sh =>
    if sh.alive then some (epoch, sh) else none

end World

namespace Conn

def mux : Conn := { view := false, opens := [], phase := .reading, forward := none, wire := [] }

/-- The connection after a successful attach: hello and replay, then the forward task. -/
def attached (conn : Conn) (att : Attachment) : Conn :=
  { conn with phase := .queueing [att.hello, .data att.replay] (some (att.epoch, att.outputRx)) }

/-- The connection loop queues its next frame, or spawns the forward task after the last one. -/
def queue (conn : Conn) : Option Conn :=
  match conn.phase with
  | .queueing (f :: frames) forward =>
    some { conn with phase := .queueing frames forward, wire := conn.wire ++ [f] }
  | .queueing [] (some (epoch, rx)) =>
    some { conn with
      phase := .reading, forward := some { epoch := epoch, rx := rx, hand := [], last := false } }
  | .queueing [] none => some { conn with phase := .reading }
  | _ => none

/-- The forward task queues its next frame, or ends after the last one. -/
def queueHand (conn : Conn) : Option Conn := do
  let fwd ← conn.forward
  match fwd.hand with
  | f :: hand =>
    some { conn with forward := some { fwd with hand := hand }, wire := conn.wire ++ [f] }
  | [] => if fwd.last then some { conn with forward := none } else none

/-- The forward task, when it is about to select its next arm. -/
def selecting (conn : Conn) : Option Forward := do
  let fwd ← conn.forward
  if fwd.hand = [] ∧ fwd.last = false then some fwd else none

end Conn

namespace Forward

/-- The `output_rx.recv()` arm: the next chunk, or the end of the channel on a lag. -/
def receive {P : Type} (fwd : Forward) (sh : Shell P) : Option Forward :=
  match sh.output.tryRecv fwd.rx with
  | (.value bytes, rx) => some { fwd with rx := rx, hand := [.data bytes] }
  | (.lagged, rx) => some { fwd with rx := rx, hand := [.closed .error], last := true }
  | (.empty, _) => none

/-- The redraw arm: what was broadcast before the snapshot, then the snapshot. -/
def redraw (fwd : Forward) (r : Redraw) (rx : ℕ) : Forward :=
  { fwd with
    rx := rx
    hand := r.pending.map Frame.data ++ [if r.lagged then .closed .error else r.frame]
    last := r.lagged }

end Forward

namespace State

variable {P : Type}

def setPeer (s : State P) (c : ℕ) (p : Peer) : State P :=
  { s with peers := Function.update s.peers c p }

def setWorld (s : State P) (w : World P) : State P := { s with toWorld := w }

def setConn (s : State P) (c : ℕ) (conn : Option Conn) : State P :=
  s.setPeer c { s.peers c with conn := conn }

end State

variable {P : Type} [Vt100 P]

/-- `attach` and `attach_view`: the slot's shell if it is alive; a view of none is refused before
the connection is up, a mux open spawns one, or reports that it could not. -/
def attachStep (scrollbackCap : ℕ) (foreign : List ℕ) (s : State P) (c cols rows : ℕ)
    (spawn : Option ℕ) : Option (State P) := do
  let conn ← (s.peers c).conn
  match conn.phase, conn.forward with
  | .stopping resume, none =>
    match s.running, conn.view, spawn with
    | some (epoch, sh), _, _ => s.setConn c (conn.attached (attachment epoch sh resume))
    | none, true, _ => s.setConn c none
    | none, false, none =>
      s.setConn c (some { conn with phase := .queueing [.closed .error] none })
    | none, false, some epoch =>
      if s.shells epoch = none ∧ epoch ∉ foreign then
        let sh := Shell.spawn scrollbackCap cols rows
        ((s.setWorld { s.toWorld.setShell epoch sh with slot := some epoch }).setConn c
          (conn.attached (attachment epoch sh resume)))
      else none
  | _, _ => none

def slotStep (scrollbackCap : ℕ) (foreign : List ℕ) (s : State P) : Act → Option (State P)
  | .output epoch chunk => do
    let sh ← s.shells epoch
    if sh.alive then some (s.setWorld (s.setShell epoch (sh.readChunk chunk))) else none
  | .exit epoch => do
    let sh ← s.shells epoch
    s.setWorld (s.setShell epoch { sh with alive := false })
  | .resize epoch cols rows => do
    let sh ← s.shells epoch
    let size := validSize cols rows
    s.setWorld (s.setShell epoch { sh with scrollback := sh.scrollback.resize size.1 size.2 })
  | .reset => some (s.setWorld { s.toWorld with slot := none })
  | .connect c =>
    some (s.setPeer c { view := (s.peers c).view, opened := 0, greeted := 0, conn := some .mux })
  | .connectView c carry =>
    let view := (s.peers c).view
    let opens := [if carry then view.position else none]
    some (s.setPeer c
      { view := view.sendOpen, opened := 1, greeted := 0,
        conn := some { Conn.mux with view := true, opens := opens } })
  | .drop c => some (s.setConn c none)
  | .sendOpen c carry => do
    let p := s.peers c
    let conn ← p.conn
    -- an open carries an offset only if the client stays there until it is answered
    if conn.view = false ∧ (carry = true → p.opened = p.greeted) then
      let opens := conn.opens ++ [if carry then p.view.position else none]
      some (s.setPeer c
        { p with
          view := p.view.sendOpen, opened := p.opened + 1
          conn := some { conn with opens := opens } })
    else none
  | .readOpen c => do
    let conn ← (s.peers c).conn
    match conn.phase, conn.opens with
    | .reading, resume :: opens =>
      s.setConn c (some { conn with phase := .stopping resume, opens := opens })
    | _, _ => none
  | .endForward c => do
    let conn ← (s.peers c).conn
    s.setConn c (some { conn with forward := none })
  | .attach c cols rows spawn =>
    let size := validSize cols rows
    attachStep scrollbackCap foreign s c size.1 size.2 spawn
  | .queue c => do
    let conn ← (s.peers c).conn
    s.setConn c (some (← conn.queue))
  | .receive c => do
    let conn ← (s.peers c).conn
    let fwd ← conn.selecting
    let sh ← s.shells fwd.epoch
    s.setConn c (some { conn with forward := some (← fwd.receive sh) })
  | .redraw c => do
    let conn ← (s.peers c).conn
    let fwd ← conn.selecting
    let sh ← s.shells fwd.epoch
    let (r, sh, rx) := sh.redraw fwd.rx
    ((s.setWorld (s.setShell fwd.epoch sh)).setConn c
      (some { conn with forward := some (fwd.redraw r rx) }))
  | .shutdown c => do
    let conn ← (s.peers c).conn
    let fwd ← conn.selecting
    let sh ← s.shells fwd.epoch
    if sh.alive = false ∨ s.slot ≠ some fwd.epoch then
      s.setConn c
        (some { conn with forward := some { fwd with hand := [.closed .exit], last := true } })
    else none
  | .queueHand c => do
    let conn ← (s.peers c).conn
    s.setConn c (some (← conn.queueHand))
  | .deliver c => do
    let p := s.peers c
    let conn ← p.conn
    match conn.wire with
    | f :: wire =>
      some (s.setPeer c
        { p with
          view := p.view.receive f, greeted := p.greeted + (helloModes [f]).length
          conn := some { conn with wire := wire } })
    | [] => none

/-- The runs of a server from an empty slot. Its clients may hold bytes of shells of earlier
server runs. -/
def slotSystem (P : Type) [Vt100 P] (scrollbackCap : ℕ) (foreign : List ℕ) :
    System (State P) Act where
  init s := (∀ epoch, s.shells epoch = none) ∧ s.slot = none ∧
    ∀ c, (s.peers c).conn = none ∧ ∀ h ∈ (s.peers c).view.held, h.epoch ∈ foreign
  step := slotStep scrollbackCap foreign

end Webshell
