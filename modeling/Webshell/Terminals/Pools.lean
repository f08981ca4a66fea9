import Webshell.Lib.Transition
import Webshell.Terminals.Spawned

/-!
# The pools of the users

The slots of every user, the shells spawned for them, and the calls of `Terminals` under way. A
pool is made when the first call asks for it, under the lock of the map; a call then holds on to
the pool it got, and every slot of it has a lock of its own. A call goes on one step at a time,
between the steps of the others, of the shells' children and threads, and of the clients.

## Main definitions

- `Slot`, `Call`, `State`: what a slot holds, where a call stands, and everything together
- `State.go`: the next step of a call of `list`, `attach`, `attach_view`, `current_size` or `reset`
- `terminalsSystem`: the steps of the calls and of everything around them
- `State.userPool`, `State.slotAt`: the pool and the slots of a user
-/

namespace Webshell.Terminals

open Transition
open MuxBridge (PtyCmd)

/-- A slot's lock, by the call that holds it, and its terminal, by its place among those
spawned. -/
structure Slot where
  holder : Option ℕ
  occupant : Option ℕ
deriving DecidableEq

def Slot.empty : Slot := ⟨none, none⟩

abbrev UserPool := List Slot

def UserPool.new (n : ℕ) : UserPool := List.replicate n Slot.empty

/-! ## Calls -/

inductive Op
  | list
  | attach (cols rows : ℕ) (resume : Option (ℕ × ℕ))
  | attachView (resume : Option (ℕ × ℕ))
  | currentSize
  | reset
deriving DecidableEq

structure SlotStatus where
  index : ℕ
  running : Bool
deriving DecidableEq

inductive Result
  | listed (statuses : List SlotStatus)
  | attached (t : ℕ) (attachment : Attachment)
  | size (grid : Option (ℕ × ℕ))
  | done
  | failed (e : String)

inductive Pc
  /-- It wants the user's pool. -/
  | pooling
  /-- It wants the lock of its slot. -/
  | locking
  | listing (statuses : List SlotStatus)
  /-- An attach has the lock. -/
  | checking
  | stopping (t : ℕ) (stage : StopStage)
  | spawning
  /-- The child is there, its handles and threads are not. -/
  | starting (t : ℕ)
  | killing (t : ℕ) (e : String)
  | reaping (t : ℕ) (e : String)
  | inserting (t : ℕ)
  | resizing (t : ℕ)
  /-- An `attach_view` or a `current_size` has the lock. -/
  | viewing
  | cutting (t : ℕ)
  | subscribing (t : ℕ) (attachment : Attachment)
  /-- A reset has given the lock back. -/
  | resetting (t : ℕ) (stage : StopStage)
  | returned (r : Result)

structure Call where
  user : String
  index : ℕ
  op : Op
  /-- The pool it has got. -/
  pool : Option ℕ
  pc : Pc

/-- What an operation returns for a slot that is out of range; `list` has no slot. -/
def Op.outOfRange : Op → Option Result
  | .list => none
  | .attach _ _ _ => some (.failed "slot out of range")
  | .attachView _ => some (.failed "slot out of range")
  | .currentSize => some (.size none)
  | .reset => some .done

def Op.resume : Op → Option (ℕ × ℕ)
  | .attach _ _ resume => resume
  | .attachView resume => resume
  | _ => none

def Op.isAttach : Op → Bool
  | .attach _ _ _ => true
  | _ => false

/-- Where an operation goes on once it has the pool. -/
def Op.pooled : Op → Pc
  | .list => .listing []
  | _ => .locking

/-- The terminal of a client, which an attach or an `attach_view` has returned to it. -/
def Call.attachedTo (call : Call) : Option ℕ :=
  match call.pc with
  | .returned (.attached t _) => some t
  | _ => none

/-! ## The state -/

inductive Event
  /-- The call has taken the terminal out of its slot. -/
  | took (c t : ℕ)
  /-- The call has told the terminal to stop. -/
  | stopped (c t : ℕ)
  | spawned (c t : ℕ)
  | returned (c : ℕ)
  | queued (t : ℕ) (cmd : PtyCmd)
deriving DecidableEq

structure State (P : Type) where
  slotsPerUser : ℕ
  scrollbackCap : ℕ
  /-- The map of the pools, each by its place in `heap`. -/
  pools : String → Option ℕ
  heap : List UserPool
  terminals : List (Terminal P)
  calls : ℕ → Option Call
  history : List Event

/-- How an attempt of a spawn ends: it works, with the epoch drawn for it, or fails. -/
inductive Outcome
  | works (epoch : ℕ)
  | fails (e : String)

namespace State

variable {P : Type}

/-- `Terminals::pool`, under the lock of the map. -/
def pool (s : State P) (user : String) : State P × ℕ :=
  match s.pools user with
  | some p => (s, p)
  | none =>
    ({ s with
        pools := Function.update s.pools user (some s.heap.length)
        heap := s.heap ++ [UserPool.new s.slotsPerUser] }, s.heap.length)

def slot (s : State P) (p i : ℕ) : Option Slot := s.heap[p]?.bind fun pool => pool[i]?

def setSlot (s : State P) (p i : ℕ) (slot : Slot) : State P :=
  { s with heap := s.heap.modify p fun pool => pool.set i slot }

/-- The slot of a call, in the pool it has got. -/
def slotOf (s : State P) (call : Call) : Option Slot := call.pool.bind fun p => s.slot p call.index

def setSlotOf (s : State P) (call : Call) (slot : Slot) : State P :=
  match call.pool with
  | some p => s.setSlot p call.index slot
  | none => s

/-- The lock of the slot is given back. -/
def release (s : State P) (call : Call) : State P :=
  match s.slotOf call with
  | some slot => s.setSlotOf call { slot with holder := none }
  | none => s

def setCall (s : State P) (c : ℕ) (call : Call) : State P :=
  { s with calls := Function.update s.calls c (some call) }

def goTo (s : State P) (c : ℕ) (call : Call) (pc : Pc) : State P :=
  s.setCall c { call with pc := pc }

def record (s : State P) (events : List Event) : State P :=
  { s with history := s.history ++ events }

def finish (s : State P) (c : ℕ) (call : Call) (r : Result) : State P :=
  (s.goTo c call (.returned r)).record [.returned c]

/-- A terminal goes on, and what it queues is recorded. -/
def setTerminal (s : State P) (t : ℕ) (r : Terminal P × List PtyCmd) : State P :=
  { s with
    terminals := s.terminals.set t r.1
    history := s.history ++ r.2.map (Event.queued t) }

/-- The shell is not marked dead. -/
def alive (s : State P) (t : ℕ) : Bool := s.terminals[t]?.any fun term => term.shell.alive

/-- The next step of a call. A spawn may fail, before or after there is a child. -/
def go [Vt100 P] (s : State P) (c : ℕ) (call : Call) (outcome : Outcome) : Option (State P) :=
  match call.pc with
  | .pooling =>
    let (s, p) := s.pool call.user
    some (s.setCall c { call with pool := some p, pc := call.op.pooled })
  | .listing statuses => do
    let p ← call.pool
    let pool ← s.heap[p]?
    match pool[statuses.length]? with
    | some slot =>
      if slot.holder = none then
        let status := ⟨statuses.length, slot.occupant.any s.alive⟩
        some (s.goTo c call (.listing (statuses ++ [status])))
      else none
    | none => some (s.finish c call (.listed statuses))
  | .locking => do
    let slot ← s.slotOf call
    if slot.holder = none then
      match call.op with
      | .reset =>
        -- the lock is held for the `take` only
        match slot.occupant with
        | none => some (s.finish c call .done)
        | some t =>
          let s := s.setSlotOf call { slot with occupant := none }
          some ((s.goTo c call (.resetting t .shutdown)).record [.took c t])
      | .attach _ _ _ =>
        some ((s.setSlotOf call { slot with holder := some c }).goTo c call .checking)
      | _ => some ((s.setSlotOf call { slot with holder := some c }).goTo c call .viewing)
    else none
  | .checking => do
    let slot ← s.slotOf call
    match slot.occupant with
    | none => some (s.goTo c call .spawning)
    | some t =>
      if s.alive t then some (s.goTo c call (.resizing t))
      else
        let s := s.setSlotOf call { slot with occupant := none }
        some ((s.goTo c call (.stopping t .shutdown)).record [.took c t])
  | .stopping t stage => do
    let term ← s.terminals[t]?
    let s := s.setTerminal t (term.stopStep stage)
    match Terminal.nextStage stage with
    | some stage => some (s.goTo c call (.stopping t stage))
    | none => some ((s.goTo c call .spawning).record [.stopped c t])
  | .spawning =>
    match call.op, outcome with
    | .attach cols rows _, .works _ =>
      let t := s.terminals.length
      let term := Terminal.spawn (call.user, call.index) s.scrollbackCap cols rows
      let s := { s with terminals := s.terminals ++ [term] }
      some ((s.goTo c call (.starting t)).record [.spawned c t])
    | .attach _ _ _, .fails e => some ((s.release call).finish c call (.failed e))
    | _, _ => none
  | .starting t => do
    let term ← s.terminals[t]?
    match outcome with
    | .works epoch => some ((s.setTerminal t (term.start epoch, [])).goTo c call (.inserting t))
    | .fails e => some (s.goTo c call (.killing t e))
  | .killing t e => do
    let term ← s.terminals[t]?
    some ((s.setTerminal t ({ term with hungUp := true }, [])).goTo c call (.reaping t e))
  | .reaping t e => do
    let term ← s.terminals[t]?
    if term.exited then some ((s.release call).finish c call (.failed e)) else none
  | .inserting t => do
    let slot ← s.slotOf call
    some ((s.setSlotOf call { slot with occupant := some t }).goTo c call (.resizing t))
  | .resizing t => do
    let term ← s.terminals[t]?
    match call.op with
    | .attach cols rows _ =>
      some ((s.setTerminal t (term.offer (.resize cols rows))).goTo c call (.cutting t))
    | _ => none
  | .viewing => do
    let slot ← s.slotOf call
    match call.op, slot.occupant.filter s.alive with
    | .attachView _, some t => some (s.goTo c call (.cutting t))
    | .attachView _, none =>
      some ((s.release call).finish c call (.failed "session not running"))
    | .currentSize, live =>
      let grid := live.bind fun t => s.terminals[t]?.map Terminal.size
      some ((s.release call).finish c call (.size grid))
    | _, _ => none
  | .cutting t => do
    -- cut and subscribe are one critical section of the scrollback's lock
    let term ← s.terminals[t]?
    let attachment := attachment term.epoch term.shell call.op.resume
    some (s.goTo c call (.subscribing t attachment))
  | .subscribing t attachment => do
    let term ← s.terminals[t]?
    let s := s.setTerminal t ({ term with shutdown := term.shutdown.subscribe c }, [])
    some ((s.release call).finish c call (.attached t attachment))
  | .resetting t stage => do
    let term ← s.terminals[t]?
    let s := s.setTerminal t (term.stopStep stage)
    match Terminal.nextStage stage with
    | some stage => some (s.goTo c call (.resetting t stage))
    | none => some ((s.record [.stopped c t]).finish c call .done)
  | .returned _ => none

end State

inductive Act
  | call (c : ℕ) (user : String) (index : ℕ) (op : Op)
  | go (c : ℕ) (outcome : Outcome)
  | thread (t : ℕ) (a : ThreadAct)
  /-- Input or a resize of the client that the call `c` has attached. -/
  | send (c : ℕ) (cmd : PtyCmd)
  /-- A redraw for that client, whose receiver stands at `rx`. -/
  | redraw (c rx : ℕ)

def terminalsStep {P : Type} [Vt100 P] (s : State P) : Act → Option (State P)
  | .call c user index op =>
    if s.calls c = none then
      let call : Call := { user := user, index := index, op := op, pool := none, pc := .pooling }
      match op.outOfRange with
      | some r => if index < s.slotsPerUser then some (s.setCall c call) else
        some (s.finish c call r)
      | none => some (s.setCall c call)
    else none
  | .go c outcome => do
    let call ← s.calls c
    s.go c call outcome
  | .thread t a => do
    let term ← s.terminals[t]?
    let r ← term.step a
    some (s.setTerminal t r)
  | .send c cmd => do
    let call ← s.calls c
    let t ← call.attachedTo
    let term ← s.terminals[t]?
    if call.op.isAttach = true ∧ cmd ≠ .kill then some (s.setTerminal t (term.offer cmd)) else none
  | .redraw c rx => do
    let call ← s.calls c
    let t ← call.attachedTo
    let term ← s.terminals[t]?
    some (s.setTerminal t ({ term with shell := (term.shell.redraw rx).2.1 }, []))

/-- `Terminals::new` -/
def newTerminals (P : Type) (slotsPerUser scrollbackCap : ℕ) : State P where
  slotsPerUser := slotsPerUser
  scrollbackCap := scrollbackCap
  pools _ := none
  heap := []
  terminals := []
  calls _ := none
  history := []

def terminalsSystem (P : Type) [Vt100 P] : System (State P) Act where
  init s := ∃ slotsPerUser scrollbackCap, s = newTerminals P slotsPerUser scrollbackCap
  step := terminalsStep

/-! ## Pools and slots -/

namespace State

variable {P : Type}

def userPool (s : State P) (user : String) : Option UserPool :=
  (s.pools user).bind fun p => s.heap[p]?

/-- A slot of a user, if there is such a pool. -/
def slotAt (s : State P) (user : String) (i : ℕ) : Option Slot :=
  (s.userPool user).bind fun pool => pool[i]?

end State

end Webshell.Terminals
