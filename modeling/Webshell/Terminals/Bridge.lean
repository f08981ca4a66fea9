import Webshell.Lib.Table
import Webshell.Lib.Text
import Webshell.Pty.Mux
import Webshell.Terminals.Pools

/-!
# Viewers of the terminals

The sockets of share viewers. Each is a call of `attach_view` and then a bridge, which forwards the
output of the shell and what its client sends. A bridge holds a clone of the sender of the shell's
input, a receiver of its output and the screen, besides those who share them.

## Main definitions

- `Bridge`: where the bridge of a viewer stands
- `bridgeStep`: the steps of `bridge`, for a client that may be read-only or not
- `Watched`, `watchedSystem`: the terminals with everyone else's steps, and the viewers'
-/

namespace Webshell.Terminals

open Transition
open MuxBridge (PtyCmd validSize)

/-- A frame for the client. -/
inductive Outgoing
  | hello (attachment : Attachment)
  | binary (bytes : List UInt8)
  | redraw (r : Redraw)

/-- What the socket yields; `other` is a ping or a pong. -/
inductive Incoming
  | binary (bytes : List UInt8)
  | text (text : Text)
  | close
  | other
  | error
  | ended

/-- Where a bridge stands. In a send, the frames that come after it, and whether the bridge closes
then because its receiver lagged. -/
inductive BridgePc
  | attaching
  | sending (frame : Outgoing) (todo : List Outgoing) (lagged : Bool)
  | selecting
  | closing
  | returned

structure Bridge where
  pc : BridgePc
  outputRx : ℕ

/-- The arms of the `select!`. How a timer, a lease or the peer ends them is not looked at. -/
inductive Arm
  | expiry
  | revocation
  | audit (valid : Bool)
  | redraw
  | shutdown
  | output
  | outputClosed
  | client (frame : Incoming)

inductive BridgeAct
  /-- `attach_view` is called. -/
  | attach (user : String) (index : ℕ) (resume : Option (ℕ × ℕ))
  | go (outcome : Outcome)
  /-- The socket is open. -/
  | upgrade
  /-- There is no attachment, or no socket. -/
  | refuse
  /-- A send ends, or fails, or is refused by the lease. -/
  | sent (ok : Bool)
  | select (arm : Arm)
  /-- The Close is on its way, or given up. -/
  | closed

/-- The next frame to send; after the last, the `select!`, or the end if the receiver lagged. -/
def sendAll : List Outgoing → Bool → BridgePc
  | [], true => .closing
  | [], false => .selecting
  | frame :: todo, lagged => .sending frame todo lagged

variable {P : Type}

/-- `input_tx.try_send`, whose result is ignored. -/
def State.offer (s : State P) (t : ℕ) (cmd : PtyCmd) : State P :=
  match s.terminals[t]? with
  | some term => s.setTerminal t (term.offer cmd)
  | none => s

/-- What a frame of the client does to the shell. `resizeOf` reads a text as a `ClientControl`. -/
def State.receive (resizeOf : Text → Option (ℕ × ℕ)) (readOnly : Bool) (s : State P) (t : ℕ) :
    Incoming → State P
  | .binary bytes => if !readOnly then s.offer t (.input bytes) else s
  | .text text =>
    if !readOnly then
      match resizeOf text with
      | some (cols, rows) =>
        s.offer t (.resize (validSize cols rows).1 (validSize cols rows).2)
      | none => s
    else s
  | _ => s

def Incoming.next : Incoming → BridgePc
  | .binary _ | .text _ | .other => .selecting
  | .close | .error | .ended => .returned

/-- What an arm of the `select!` does, for the call `c`, whose terminal is `t`. -/
def Arm.run [Vt100 P] (resizeOf : Text → Option (ℕ × ℕ)) (readOnly : Bool) (s : State P)
    (c t : ℕ) (term : Terminal P) (b : Bridge) : Arm → Option (State P × Bridge)
  | .expiry | .revocation => some (s, { b with pc := .closing })
  | .audit valid => some (s, { b with pc := if valid then .selecting else .closing })
  | .redraw => do
    let (r, _, outputRx) := term.shell.redraw b.outputRx
    let s ← terminalsStep s (.redraw c b.outputRx)
    let frames := r.pending.map .binary ++ if r.lagged then [] else [.redraw r]
    some (s, ⟨sendAll frames r.lagged, outputRx⟩)
  | .shutdown =>
    some (s, { b with pc := if term.shutdown.value then .closing else .selecting })
  | .output =>
    match term.shell.output.tryRecv b.outputRx with
    | (.value bytes, outputRx) => some (s, ⟨sendAll [.binary bytes] false, outputRx⟩)
    | (.lagged, outputRx) => some (s, ⟨.closing, outputRx⟩)
    | (.empty, _) => none
  | .outputClosed => some (s, { b with pc := .returned })
  | .client frame => some (s.receive resizeOf readOnly t frame, { b with pc := frame.next })

/-- The next step of a bridge once `attach_view` has been called. -/
def bridgeStep [Vt100 P] (resizeOf : Text → Option (ℕ × ℕ)) (readOnly : Bool) (s : State P)
    (c : ℕ) (b : Bridge) : BridgeAct → Option (State P × Bridge)
  | .attach _ _ _ => none
  | .go outcome => do
    let s ← terminalsStep s (.go c outcome)
    some (s, b)
  | .upgrade =>
    match b.pc, (s.calls c).map Call.pc with
    | .attaching, some (.returned (.attached _ attachment)) =>
      some (s, ⟨sendAll [.hello attachment, .binary attachment.replay] false,
        attachment.outputRx⟩)
    | _, _ => none
  | .refuse =>
    match b.pc with
    | .attaching => some (s, { b with pc := .returned })
    | _ => none
  | .sent ok =>
    match b.pc with
    | .sending _ todo lagged =>
      some (s, { b with pc := if ok then sendAll todo lagged else .returned })
    | _ => none
  | .select arm =>
    match b.pc with
    | .selecting => do
      let call ← s.calls c
      let t ← call.attachedTo
      let term ← s.terminals[t]?
      arm.run resizeOf readOnly s c t term b
    | _ => none
  | .closed =>
    match b.pc with
    | .closing => some (s, { b with pc := .returned })
    | _ => none

/-! ## The system -/

/-- The terminals, and the bridges of the viewers, each under the number of its call. -/
structure Watched (P : Type) where
  terminals : State P
  bridges : Table ℕ Bridge

/-- The call that a step is one of. -/
def Act.caller : Act → Option ℕ
  | .call c _ _ _ | .go c _ | .send c _ | .redraw c _ => some c
  | .thread _ _ => none

inductive WatchedAct
  /-- A step that is none of a viewer. -/
  | others (a : Act)
  | viewer (c : ℕ) (a : BridgeAct)

namespace Watched

/-- A viewer has a sender of the shell's input. -/
def sending (s : Watched P) (t : ℕ) : Bool :=
  s.bridges.entries.any fun entry =>
    (match entry.2.pc with
    | .returned => false
    | _ => true) && (s.terminals.calls entry.1).bind Call.attachedTo = some t

/-- The command thread of a shell waits while anyone has a sender. -/
def blocks (s : Watched P) : Act → Bool
  | .thread t .recvEnds => s.sending t
  | _ => false

end Watched

/-- A step of the system. The calls with the numbers of `viewer` are those of the viewers, which
are all read-only. -/
def watchedStep [Vt100 P] (resizeOf : Text → Option (ℕ × ℕ)) (viewer : ℕ → Bool)
    (s : Watched P) : WatchedAct → Option (Watched P)
  | .others a =>
    if !s.blocks a ∧ a.caller.all fun c => !viewer c then do
      let terminals ← terminalsStep s.terminals a
      some { s with terminals := terminals }
    else none
  | .viewer c (.attach user index resume) =>
    if viewer c then do
      let terminals ← terminalsStep s.terminals (.call c user index (.attachView resume))
      some ⟨terminals, s.bridges.insert c ⟨.attaching, 0⟩⟩
    else none
  | .viewer c a => do
    let b ← s.bridges.lookup c
    let (terminals, b) ← bridgeStep resizeOf true s.terminals c b a
    some ⟨terminals, s.bridges.insert c b⟩

def watchedSystem (P : Type) [Vt100 P] (resizeOf : Text → Option (ℕ × ℕ)) (viewer : ℕ → Bool) :
    System (Watched P) WatchedAct where
  init s := ∃ slotsPerUser scrollbackCap, s = ⟨newTerminals P slotsPerUser scrollbackCap, ∅⟩
  step := watchedStep resizeOf viewer

end Webshell.Terminals
