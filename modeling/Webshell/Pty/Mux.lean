import Webshell.Lib.SyncChannel
import Webshell.Lib.Transition

/-!
# A mux connection and the shells behind it

One mux connection of a user, the slots of that user, and every terminal spawned for them, by
epoch. The connection loop takes one frame at a time; an open goes through several phases, between
which the reader and command threads, other connections and the writer task may act. What an
attachment replays is the business of `Terminals.Attach` and left out here.

## Main definitions

- `Terminal`, `Mux`: a shell with its bounded input queue; the state of the connection
- `Mux.handle`, `Mux.attach`: one client frame; the spawning part of `Terminals::attach`
- `muxStep`, `muxSystem`: the steps of the connection and of everything around it

## Main results

- `muxInv_of_reachable`: slots, channels and the open under way name terminals of their own slot
-/

namespace Webshell.MuxBridge

open Transition

/-! ## Terminals -/

inductive PtyCmd
  | input (bytes : List UInt8)
  | resize (cols rows : ℕ)
  | kill
deriving DecidableEq

inductive CommandThread
  | receiving
  | writing (bytes : List UInt8)
  /-- It has left its loop and kills and reaps the child. -/
  | reaping
  | ended
deriving DecidableEq

/-- One spawned shell: the flag its reader thread clears, and its command thread with the queue it
takes from, the input it has written to the PTY, and the PTY's grid. -/
structure Terminal where
  slot : ℕ
  alive : Bool
  /-- The reader thread has made its last send. -/
  nudged : Bool
  queue : SyncChannel PtyCmd 128
  thread : CommandThread
  input : List UInt8
  size : ℕ × ℕ

/-- `spawn_terminal` -/
def Terminal.spawn (slot cols rows : ℕ) : Terminal :=
  { slot := slot, alive := true, nudged := false, queue := .fresh PtyCmd 128, thread := .receiving
    input := [], size := (cols, rows) }

/-- One command taken by the command thread. -/
def Terminal.obey (term : Terminal) : PtyCmd → Terminal
  | .input bytes => { term with thread := .writing bytes }
  | .resize cols rows => { term with size := (cols, rows) }
  | .kill => { term with thread := .reaping }

def validSize (cols rows : ℕ) : ℕ × ℕ := (max 2 (min cols 500), max 2 (min rows 300))

/-! ## The connection -/

/-- The payload of `MuxControl::Open`. -/
structure Open where
  term : ℕ
  cols : ℕ
  rows : ℕ
  ro : Bool
deriving DecidableEq

inductive Frame
  | binary (bytes : List UInt8)
  | openSlot (o : Open)
  | resize (term cols rows : ℕ)
  | mode (term : ℕ) (ro : Bool)
  | close (term : ℕ)
  /-- A text frame that is no `MuxControl`. -/
  | malformed

/-- The slot a frame is addressed to. -/
def Frame.term : Frame → Option ℕ
  | .binary [] => none
  | .binary (b :: _) => some b.toNat
  | .openSlot o => some o.term
  | .resize term _ _ => some term
  | .mode term _ => some term
  | .close term => some term
  | .malformed => none

/-- An open channel: the terminal `input_tx` leads to, and whether the forward task has ended. -/
structure Channel where
  epoch : ℕ
  readOnly : Bool
  forwardEnded : Bool
deriving DecidableEq

/-- Where the loop stands with an open. `wasReadOnly` remembers whether the channel it replaced
was read-only. -/
inductive Phase
  | reading
  | attaching (o : Open) (wasReadOnly : Bool)
  | resizing (o : Open) (wasReadOnly : Bool) (epoch : ℕ) (spawned : Bool)
  | greeting (o : Open) (epoch : ℕ)
  | replaying (o : Open) (epoch : ℕ)
  | refusing (o : Open)
deriving DecidableEq

/-- The open being handled. -/
def Phase.opening : Phase → Option Open
  | .reading => none
  | .attaching o _ => some o
  | .resizing o _ _ _ => some o
  | .greeting o _ => some o
  | .replaying o _ => some o
  | .refusing o => some o

/-- The terminal it has attached to. -/
def Phase.epoch : Phase → Option ℕ
  | .resizing _ _ epoch _ => some epoch
  | .greeting _ epoch => some epoch
  | .replaying _ epoch => some epoch
  | _ => none

/-- The slot whose lock `Terminals::attach` holds for this connection. -/
def Phase.locks : Phase → Option ℕ
  | .resizing o _ _ _ => some o.term
  | _ => none

structure Mux where
  slotsPerUser : ℕ
  /-- Every terminal spawned so far, by epoch. -/
  terminals : ℕ → Option Terminal
  slots : ℕ → Option ℕ
  nextEpoch : ℕ
  channels : ℕ → Option Channel
  phase : Phase
  /-- The connection loop runs. -/
  looping : Bool
  /-- The writer task takes frames. -/
  writer : Bool

namespace Mux

/-- The connection is up: it reads frames and writes them. -/
def Up (s : Mux) : Prop := s.looping = true ∧ s.writer = true

def setTerminal (s : Mux) (epoch : ℕ) (term : Terminal) : Mux :=
  { s with terminals := Function.update s.terminals epoch (some term) }

/-- A `try_send` to a terminal whose result is ignored. -/
def offer (s : Mux) (epoch : ℕ) (cmd : PtyCmd) : Mux :=
  match s.terminals epoch with
  | none => s
  | some term => s.setTerminal epoch { term with queue := term.queue.offer cmd }

/-- The epoch of the live terminal in a slot. -/
def live (s : Mux) (index : ℕ) : Option ℕ := do
  let epoch ← s.slots index
  let term ← s.terminals epoch
  if term.alive then some epoch else none

/-- The terminal is taken out of the slot and stopped. -/
def takeSlot (s : Mux) (index : ℕ) : Mux :=
  match s.slots index with
  | none => s
  | some epoch => { s.offer epoch .kill with slots := Function.update s.slots index none }

def putSlot (s : Mux) (index cols rows : ℕ) : Mux :=
  { s.setTerminal s.nextEpoch (.spawn index cols rows) with
    slots := Function.update s.slots index (some s.nextEpoch)
    nextEpoch := s.nextEpoch + 1 }

/-- `Terminals::attach` up to the resize: the terminal it attaches to, and whether it spawned it.
`spawns` tells whether a spawn works. -/
def attach (s : Mux) (index cols rows : ℕ) (spawns : Bool) : Mux × Option (ℕ × Bool) :=
  if index < s.slotsPerUser then
    match s.live index with
    | some epoch => (s, some (epoch, false))
    | none =>
      let s := s.takeSlot index
      if spawns then (s.putSlot index cols rows, some (s.nextEpoch, true)) else (s, none)
  else (s, none)

/-- The loop is left: every channel is stopped and the writer aborted. -/
def leave (s : Mux) : Mux :=
  { s with phase := .reading, looping := false, writer := false, channels := fun _ => none }

/-- Input for a terminal, from a channel that is not read-only. -/
def sendInput (s : Mux) (epoch : ℕ) (bytes : List UInt8) : Mux :=
  match s.terminals epoch with
  | none => s
  | some term =>
    match term.queue.trySend (.input bytes) with
    | .ok queue => s.setTerminal epoch { term with queue := queue }
    | .error _ => s.leave

def channelReadOnly (s : Mux) (term : ℕ) : Bool := (s.channels term).any Channel.readOnly

/-- One client frame, as far as it is handled without waiting. -/
def handle (s : Mux) : Frame → Mux
  | .binary [] => s
  | .binary (b :: bytes) =>
    match s.channels b.toNat with
    | none => s
    | some ch => if ch.readOnly then s else s.sendInput ch.epoch bytes
  | .openSlot o =>
    { s with
      channels := Function.update s.channels o.term none
      phase := .attaching o (s.channelReadOnly o.term) }
  | .resize term cols rows =>
    match s.channels term with
    | none => s
    | some ch =>
      if ch.readOnly then s
      else
        let size := validSize cols rows
        s.offer ch.epoch (.resize size.1 size.2)
  | .mode term ro =>
    match s.channels term with
    | none => s
    | some ch =>
      { s with channels := Function.update s.channels term (some { ch with readOnly := ro }) }
  | .close term => { s with channels := Function.update s.channels term none }
  | .malformed => s

end Mux

inductive Act
  | frame (f : Frame)
  | attach (spawns : Bool)
  | resizePty
  | queueHello
  | queueReplay
  | queueRefusal
  /-- The deadline, a revoked session, or the end of the client's stream. -/
  | hangUp
  | writerEnds
  | forwardEnds (term : ℕ)
  | exit (epoch : ℕ)
  | nudge (epoch : ℕ)
  | take (epoch : ℕ)
  | wrote (epoch : ℕ) (ok : Bool)
  | reap (epoch : ℕ)
  /-- A send of another connection. -/
  | foreignSend (epoch : ℕ) (cmd : PtyCmd)
  | foreignAttach (term cols rows : ℕ) (spawns : Bool)
  /-- The slot is emptied; the `Kill` of the terminal it held is a `foreignSend`. -/
  | reset (term : ℕ)

/-- A step of a terminal's own threads. -/
def Terminal.step (term : Terminal) : Act → Option Terminal
  | .exit _ => some { term with alive := false }
  | .nudge _ =>
    if term.alive = false ∧ term.nudged = false then
      some { term with queue := term.queue.offer .kill, nudged := true }
    else none
  | .take _ =>
    match term.thread, term.queue.recv with
    | .receiving, some (cmd, queue) => some ({ term with queue := queue }.obey cmd)
    | _, _ => none
  | .wrote _ ok =>
    match term.thread with
    | .writing bytes =>
      if ok then some { term with thread := .receiving, input := term.input ++ bytes }
      else some { term with thread := .reaping }
    | _ => none
  | .reap _ =>
    match term.thread with
    | .reaping => some { term with thread := .ended, queue := term.queue.disconnect }
    | _ => none
  | .foreignSend _ cmd => some { term with queue := term.queue.offer cmd }
  | _ => none

/-- A step that one terminal takes. -/
def Mux.stepTerminal (s : Mux) (epoch : ℕ) (a : Act) : Option Mux := do
  let term ← s.terminals epoch
  let term' ← term.step a
  some (s.setTerminal epoch term')

def muxStep (s : Mux) : Act → Option Mux
  | .frame f => if s.looping = true ∧ s.phase = .reading then some (s.handle f) else none
  | .attach spawns =>
    match s.phase with
    | .attaching o wasReadOnly =>
      let size := validSize o.cols o.rows
      match s.attach o.term size.1 size.2 spawns with
      | (s', some (epoch, spawned)) =>
        some { s' with phase := .resizing o wasReadOnly epoch spawned }
      | (s', none) => some { s' with phase := .refusing o }
    | _ => none
  | .resizePty =>
    match s.phase with
    | .resizing o _ epoch _ =>
      let size := validSize o.cols o.rows
      some { s.offer epoch (.resize size.1 size.2) with phase := .greeting o epoch }
    | _ => none
  | .queueHello =>
    match s.phase with
    | .greeting o epoch =>
      some (if s.writer then { s with phase := .replaying o epoch } else s.leave)
    | _ => none
  | .queueReplay =>
    match s.phase with
    | .replaying o epoch =>
      let ch : Channel := { epoch := epoch, readOnly := o.ro, forwardEnded := false }
      some (if s.writer then
        { s with phase := .reading, channels := Function.update s.channels o.term (some ch) }
      else s.leave)
    | _ => none
  | .queueRefusal =>
    match s.phase with
    | .refusing _ => some (if s.writer then { s with phase := .reading } else s.leave)
    | _ => none
  | .hangUp => if s.looping = true ∧ s.phase = .reading then some s.leave else none
  | .writerEnds => some { s with writer := false }
  | .forwardEnds term => do
    let ch ← s.channels term
    let ch := { ch with forwardEnded := true }
    some { s with channels := Function.update s.channels term (some ch) }
  | .foreignAttach term cols rows spawns =>
    if s.phase.locks = some term then none
    else
      let size := validSize cols rows
      some (s.attach term size.1 size.2 spawns).1
  | .reset term =>
    if s.phase.locks = some term then none
    else some { s with slots := Function.update s.slots term none }
  | .exit epoch => s.stepTerminal epoch (.exit epoch)
  | .nudge epoch => s.stepTerminal epoch (.nudge epoch)
  | .take epoch => s.stepTerminal epoch (.take epoch)
  | .wrote epoch ok => s.stepTerminal epoch (.wrote epoch ok)
  | .reap epoch => s.stepTerminal epoch (.reap epoch)
  | .foreignSend epoch cmd => s.stepTerminal epoch (.foreignSend epoch cmd)

/-- A new connection, nothing being spawned yet. -/
def emptyMux (slotsPerUser : ℕ) : Mux :=
  { slotsPerUser := slotsPerUser, terminals := fun _ => none, slots := fun _ => none, nextEpoch := 0
    channels := fun _ => none, phase := .reading, looping := true, writer := true }

def muxSystem : System Mux Act where
  init s := ∃ slotsPerUser, s = emptyMux slotsPerUser
  step := muxStep

/-! ## What the parts of a step leave alone -/

namespace Mux

variable {s : Mux}

section
variable (s) (epoch : ℕ) (cmd : PtyCmd)

@[simp] theorem offer_slots : (s.offer epoch cmd).slots = s.slots := by
  rw [offer]; split <;> rfl

@[simp] theorem offer_channels : (s.offer epoch cmd).channels = s.channels := by
  rw [offer]; split <;> rfl

@[simp] theorem offer_phase : (s.offer epoch cmd).phase = s.phase := by
  rw [offer]; split <;> rfl

@[simp] theorem offer_nextEpoch : (s.offer epoch cmd).nextEpoch = s.nextEpoch := by
  rw [offer]; split <;> rfl

@[simp] theorem offer_looping : (s.offer epoch cmd).looping = s.looping := by
  rw [offer]; split <;> rfl

@[simp] theorem offer_writer : (s.offer epoch cmd).writer = s.writer := by
  rw [offer]; split <;> rfl

end

theorem offer_terminals {epoch : ℕ} {term : Terminal} (h : s.terminals epoch = some term)
    (cmd : PtyCmd) :
    s.offer epoch cmd = s.setTerminal epoch { term with queue := term.queue.offer cmd } := by
  rw [offer, h]

/-- An attach finds its slot out of range or a live terminal in it, or it takes out what is there
and fails to spawn, or spawns. -/
theorem attach_cases (s : Mux) (index cols rows : ℕ) (spawns : Bool) :
    s.attach index cols rows spawns = (s, none) ∨
    (∃ epoch, s.live index = some epoch ∧
      s.attach index cols rows spawns = (s, some (epoch, false))) ∨
    (s.live index = none ∧ s.attach index cols rows spawns = (s.takeSlot index, none)) ∨
    (s.live index = none ∧ s.attach index cols rows spawns =
      ((s.takeSlot index).putSlot index cols rows, some ((s.takeSlot index).nextEpoch, true))) := by
  by_cases hindex : index < s.slotsPerUser
  · cases hlive : s.live index with
    | some epoch =>
      refine .inr (.inl ⟨epoch, rfl, ?_⟩)
      simp only [attach, if_pos hindex, hlive]
    | none =>
      cases spawns with
      | true =>
        refine .inr (.inr (.inr ⟨rfl, ?_⟩))
        simp only [attach, if_pos hindex, hlive, if_true]
      | false =>
        refine .inr (.inr (.inl ⟨rfl, ?_⟩))
        simp [attach, hindex, hlive]
  · refine .inl ?_
    simp only [attach, if_neg hindex]

theorem live_eq_some {index epoch : ℕ} (h : s.live index = some epoch) :
    s.slots index = some epoch ∧ ∃ term, s.terminals epoch = some term ∧ term.alive = true := by
  obtain ⟨e, hslot, hrest⟩ := Option.bind_eq_some_iff.mp h
  obtain ⟨term, hterm, hif⟩ := Option.bind_eq_some_iff.mp hrest
  simp only [Option.ite_none_right_eq_some, Option.some.injEq] at hif
  obtain ⟨halive, rfl⟩ := hif
  exact ⟨hslot, term, hterm, halive⟩

/-- The terminal of an epoch was spawned for the slot. -/
def Holds (s : Mux) (epoch slot : ℕ) : Prop :=
  ∃ term, s.terminals epoch = some term ∧ term.slot = slot

theorem holds_setTerminal {epoch : ℕ} {term term' : Terminal}
    (h : s.terminals epoch = some term) (hslot : term'.slot = term.slot) (e slot : ℕ) :
    (s.setTerminal epoch term').Holds e slot ↔ s.Holds e slot := by
  by_cases he : e = epoch
  · subst he
    simp [Holds, setTerminal, h, hslot]
  · simp [Holds, setTerminal, he]

@[simp] theorem holds_offer (epoch : ℕ) (cmd : PtyCmd) (e slot : ℕ) :
    (s.offer epoch cmd).Holds e slot ↔ s.Holds e slot := by
  cases h : s.terminals epoch with
  | none => rw [offer, h]
  | some term =>
    rw [offer_terminals h]
    refine holds_setTerminal h ?_ e slot
    rfl

end Mux

/-- What a step of a terminal's own threads, or a send of another connection, makes of it. -/
inductive Terminal.Steps (term : Terminal) : Terminal → Prop
  | exit : Terminal.Steps term { term with alive := false }
  | nudge : Terminal.Steps term { term with queue := term.queue.offer .kill, nudged := true }
  | take (cmd : PtyCmd) (queue : SyncChannel PtyCmd 128) : term.thread = .receiving →
      term.queue.recv = some (cmd, queue) →
      Terminal.Steps term ({ term with queue := queue }.obey cmd)
  | wrote (bytes : List UInt8) : term.thread = .writing bytes →
      Terminal.Steps term { term with thread := .receiving, input := term.input ++ bytes }
  | failed (bytes : List UInt8) : term.thread = .writing bytes →
      Terminal.Steps term { term with thread := .reaping }
  | reap : term.thread = .reaping →
      Terminal.Steps term { term with thread := .ended, queue := term.queue.disconnect }
  | send (cmd : PtyCmd) : Terminal.Steps term { term with queue := term.queue.offer cmd }

theorem Terminal.steps_of_step {term term' : Terminal} {a : Act} (h : term.step a = some term') :
    term.Steps term' := by
  cases a with
  | exit epoch => exact Option.some.inj h ▸ .exit
  | nudge epoch =>
    simp only [Terminal.step, Option.ite_none_right_eq_some] at h
    exact Option.some.inj h.2 ▸ .nudge
  | take epoch =>
    simp only [Terminal.step] at h
    split at h
    · next cmd queue hthread hrecv => exact Option.some.inj h ▸ .take cmd queue hthread hrecv
    · cases h
  | wrote epoch ok =>
    simp only [Terminal.step] at h
    split at h
    · next bytes hthread =>
      split at h
      · exact Option.some.inj h ▸ .wrote bytes hthread
      · exact Option.some.inj h ▸ .failed bytes hthread
    · cases h
  | reap epoch =>
    simp only [Terminal.step] at h
    split at h
    · next hthread => exact Option.some.inj h ▸ .reap hthread
    · cases h
  | foreignSend epoch cmd => exact Option.some.inj h ▸ .send cmd
  | _ => cases h

/-- A step of a terminal does not move it to another slot. -/
theorem Terminal.Steps.slot_eq {term term' : Terminal} (h : term.Steps term') :
    term'.slot = term.slot := by
  cases h with
  | take cmd => cases cmd <;> rfl
  | _ => rfl

/-! ## The steps of an open -/

section
variable {s s' : Mux}

attribute [local simp] muxStep

theorem muxStep_frame {f : Frame} (h : muxStep s (.frame f) = some s') :
    s.looping = true ∧ s.phase = .reading ∧ s' = s.handle f := by
  simp only [muxStep, Option.ite_none_right_eq_some, Option.some.injEq] at h
  exact ⟨h.1.1, h.1.2, h.2.symm⟩

theorem muxStep_attach {spawns : Bool} (h : muxStep s (.attach spawns) = some s') :
    ∃ o wasReadOnly phase, s.phase = .attaching o wasReadOnly ∧
      s' = { (s.attach o.term (validSize o.cols o.rows).1 (validSize o.cols o.rows).2 spawns).1 with
        phase := phase } ∧
      (phase = .refusing o ∨ ∃ epoch spawned,
        (s.attach o.term (validSize o.cols o.rows).1 (validSize o.cols o.rows).2 spawns).2 =
          some (epoch, spawned) ∧ phase = .resizing o wasReadOnly epoch spawned) := by
  cases hphase : s.phase with
  | attaching o wasReadOnly =>
    simp only [muxStep, hphase] at h
    split at h
    · next epoch spawned heq =>
      refine ⟨o, wasReadOnly, _, rfl, ?_, .inr ⟨epoch, spawned, congrArg Prod.snd heq, rfl⟩⟩
      rw [heq]
      exact (Option.some.inj h).symm
    · next heq =>
      refine ⟨o, wasReadOnly, _, rfl, ?_, .inl rfl⟩
      rw [heq]
      exact (Option.some.inj h).symm
  | _ => simp [hphase] at h

theorem muxStep_resizePty (h : muxStep s .resizePty = some s') :
    ∃ o wasReadOnly epoch spawned, s.phase = .resizing o wasReadOnly epoch spawned ∧
      s' = { s.offer epoch (.resize (validSize o.cols o.rows).1 (validSize o.cols o.rows).2) with
        phase := .greeting o epoch } := by
  cases hphase : s.phase with
  | resizing o wasReadOnly epoch spawned =>
    simp only [muxStep, hphase] at h
    exact ⟨o, wasReadOnly, epoch, spawned, rfl, (Option.some.inj h).symm⟩
  | _ => simp [hphase] at h

theorem muxStep_queueHello (h : muxStep s .queueHello = some s') :
    ∃ o epoch, s.phase = .greeting o epoch ∧
      s' = if s.writer then { s with phase := .replaying o epoch } else s.leave := by
  cases hphase : s.phase with
  | greeting o epoch =>
    simp only [muxStep, hphase] at h
    exact ⟨o, epoch, rfl, (Option.some.inj h).symm⟩
  | _ => simp [hphase] at h

theorem muxStep_queueReplay (h : muxStep s .queueReplay = some s') :
    ∃ o epoch, s.phase = .replaying o epoch ∧
      s' = if s.writer then
        { s with
          phase := .reading
          channels := Function.update s.channels o.term (some ⟨epoch, o.ro, false⟩) }
      else s.leave := by
  cases hphase : s.phase with
  | replaying o epoch =>
    simp only [muxStep, hphase] at h
    exact ⟨o, epoch, rfl, (Option.some.inj h).symm⟩
  | _ => simp [hphase] at h

theorem muxStep_queueRefusal (h : muxStep s .queueRefusal = some s') :
    ∃ o, s.phase = .refusing o ∧
      s' = if s.writer then { s with phase := .reading } else s.leave := by
  cases hphase : s.phase with
  | refusing o =>
    simp only [muxStep, hphase] at h
    exact ⟨o, rfl, (Option.some.inj h).symm⟩
  | _ => simp [hphase] at h

end

/-! ## Slots, channels and terminals -/

/-- What is in a slot, open as a channel or being attached to was spawned for that slot. -/
structure MuxInv (s : Mux) : Prop where
  numbered : ∀ epoch slot, s.Holds epoch slot → epoch < s.nextEpoch
  slots : ∀ slot epoch, s.slots slot = some epoch → s.Holds epoch slot
  channels : ∀ slot ch, s.channels slot = some ch → s.Holds ch.epoch slot
  phase : ∀ o epoch, s.phase.opening = some o → s.phase.epoch = some epoch → s.Holds epoch o.term

variable {s s' : Mux}

theorem muxInv_empty (slotsPerUser : ℕ) : MuxInv (emptyMux slotsPerUser) := by
  refine ⟨fun epoch slot h => ?_, nofun, nofun, nofun⟩
  obtain ⟨term, hterm, _⟩ := h
  cases hterm

/-- The terminals go on as they are, or their own threads step. -/
theorem MuxInv.congr (h : MuxInv s)
    (hholds : ∀ epoch slot, s'.Holds epoch slot ↔ s.Holds epoch slot)
    (hnext : s'.nextEpoch = s.nextEpoch)
    (hslots : ∀ slot epoch, s'.slots slot = some epoch → s.slots slot = some epoch)
    (hchannels : ∀ slot ch, s'.channels slot = some ch → s.Holds ch.epoch slot)
    (hphase : ∀ o epoch, s'.phase.opening = some o → s'.phase.epoch = some epoch →
      s.Holds epoch o.term) : MuxInv s' := by
  refine ⟨fun epoch slot he => ?_, fun slot epoch hs => ?_, fun slot ch hc => ?_,
    fun o epoch ho he => ?_⟩
  · rw [hnext]
    exact h.numbered epoch slot ((hholds epoch slot).mp he)
  · exact (hholds epoch slot).mpr (h.slots slot epoch (hslots slot epoch hs))
  · exact (hholds ch.epoch slot).mpr (hchannels slot ch hc)
  · exact (hholds epoch o.term).mpr (hphase o epoch ho he)

theorem MuxInv.offer (h : MuxInv s) (epoch : ℕ) (cmd : PtyCmd) : MuxInv (s.offer epoch cmd) :=
  h.congr (Mux.holds_offer epoch cmd) (by simp) (by simp)
    (fun slot ch hc => h.channels slot ch (by simpa using hc))
    (fun o e ho he => h.phase o e (by simpa using ho) (by simpa using he))

theorem MuxInv.setTerminal (h : MuxInv s) {epoch : ℕ} {term term' : Terminal}
    (ht : s.terminals epoch = some term) (hslot : term'.slot = term.slot) :
    MuxInv (s.setTerminal epoch term') :=
  h.congr (Mux.holds_setTerminal ht hslot) rfl (fun _ _ => id) h.channels h.phase

/-- The loop waits for another part of an open, or for the next frame. -/
theorem MuxInv.setPhase (h : MuxInv s) (phase : Phase)
    (hphase : ∀ o epoch, phase.opening = some o → phase.epoch = some epoch →
      s.Holds epoch o.term) : MuxInv { s with phase := phase } :=
  h.congr (fun _ _ => Iff.rfl) rfl (fun _ _ => id) h.channels hphase

theorem MuxInv.setChannel (h : MuxInv s) (slot : ℕ) (ch : Option Channel)
    (hch : ∀ c, ch = some c → s.Holds c.epoch slot) :
    MuxInv { s with channels := Function.update s.channels slot ch } := by
  refine h.congr (fun _ _ => Iff.rfl) rfl (fun _ _ => id) (fun u c hc => ?_) h.phase
  by_cases hu : u = slot
  · subst hu
    exact hch c (by simpa using hc)
  · simp only [Function.update_of_ne hu] at hc
    exact h.channels u c hc

theorem MuxInv.clearSlot (h : MuxInv s) (slot : ℕ) :
    MuxInv { s with slots := Function.update s.slots slot none } := by
  refine h.congr (fun _ _ => Iff.rfl) rfl (fun u epoch hu => ?_) h.channels h.phase
  by_cases hus : u = slot
  · subst hus
    simp at hu
  · simpa only [Function.update_of_ne hus] using hu

theorem MuxInv.takeSlot (h : MuxInv s) (slot : ℕ) : MuxInv (s.takeSlot slot) := by
  rw [Mux.takeSlot]
  split
  · exact h
  · next epoch _ =>
    have hoffer := (h.offer epoch .kill).clearSlot slot
    rwa [Mux.offer_slots] at hoffer

/-- No terminal has the epoch that comes next. -/
theorem MuxInv.next_eq_none (h : MuxInv s) : s.terminals s.nextEpoch = none := by
  cases ht : s.terminals s.nextEpoch with
  | none => rfl
  | some term => exact absurd (h.numbered _ term.slot ⟨term, ht, rfl⟩) (lt_irrefl _)

theorem MuxInv.holds_putSlot (h : MuxInv s) (index cols rows : ℕ) {epoch slot : ℕ}
    (hold : s.Holds epoch slot) : (s.putSlot index cols rows).Holds epoch slot := by
  obtain ⟨term, hterm, hslot⟩ := hold
  have hne : epoch ≠ s.nextEpoch := by
    rintro rfl
    rw [h.next_eq_none] at hterm
    cases hterm
  exact ⟨term, (Function.update_of_ne hne ..).trans hterm, hslot⟩

theorem holds_putSlot_self (s : Mux) (index cols rows : ℕ) :
    (s.putSlot index cols rows).Holds s.nextEpoch index :=
  ⟨_, Function.update_self .., rfl⟩

theorem MuxInv.putSlot (h : MuxInv s) (index cols rows : ℕ) :
    MuxInv (s.putSlot index cols rows) := by
  have hold : ∀ {epoch slot}, s.Holds epoch slot → (s.putSlot index cols rows).Holds epoch slot :=
    fun hs => h.holds_putSlot index cols rows hs
  refine ⟨fun epoch slot he => ?_, fun slot epoch hs => ?_,
    fun slot ch hc => hold (h.channels slot ch hc),
    fun o epoch ho he => hold (h.phase o epoch ho he)⟩
  · obtain ⟨term, hterm, hslot⟩ := he
    by_cases hne : epoch = s.nextEpoch
    · exact hne ▸ Nat.lt_succ_self _
    · have hterm' : s.terminals epoch = some term :=
        (Function.update_of_ne hne ..).symm.trans hterm
      exact Nat.lt_succ_of_lt (h.numbered epoch slot ⟨term, hterm', hslot⟩)
  · by_cases hi : slot = index
    · subst hi
      obtain rfl : s.nextEpoch = epoch := by simpa [Mux.putSlot] using hs
      exact holds_putSlot_self s slot cols rows
    · have hs' : s.slots slot = some epoch := (Function.update_of_ne hi ..).symm.trans hs
      exact hold (h.slots slot epoch hs')

theorem MuxInv.attach (h : MuxInv s) (index cols rows : ℕ) (spawns : Bool) :
    MuxInv (s.attach index cols rows spawns).1 := by
  obtain heq | ⟨epoch, _, heq⟩ | ⟨_, heq⟩ | ⟨_, heq⟩ := s.attach_cases index cols rows spawns
  · exact heq ▸ h
  · exact heq ▸ h
  · exact heq ▸ h.takeSlot index
  · exact heq ▸ (h.takeSlot index).putSlot index cols rows

/-- What an attach returns was spawned for its slot. -/
theorem MuxInv.holds_attach (h : MuxInv s) {index cols rows : ℕ} {spawns spawned : Bool}
    {epoch : ℕ} (hatt : (s.attach index cols rows spawns).2 = some (epoch, spawned)) :
    (s.attach index cols rows spawns).1.Holds epoch index := by
  obtain heq | ⟨e, hlive, heq⟩ | ⟨_, heq⟩ | ⟨_, heq⟩ := s.attach_cases index cols rows spawns
  all_goals rw [heq] at hatt ⊢
  · cases hatt
  · cases hatt
    exact h.slots index epoch (Mux.live_eq_some hlive).1
  · cases hatt
  · cases hatt
    exact holds_putSlot_self ..

theorem MuxInv.leave (h : MuxInv s) : MuxInv s.leave :=
  h.congr (fun _ _ => Iff.rfl) rfl (fun _ _ => id) nofun nofun

theorem MuxInv.sendInput (h : MuxInv s) (epoch : ℕ) (bytes : List UInt8) :
    MuxInv (s.sendInput epoch bytes) := by
  rw [Mux.sendInput]
  split
  · exact h
  · next term ht =>
    split
    · exact h.setTerminal ht rfl
    · exact h.leave

theorem MuxInv.handle (h : MuxInv s) (f : Frame) : MuxInv (s.handle f) := by
  cases f with
  | binary bytes =>
    cases bytes with
    | nil => exact h
    | cons b bytes =>
      simp only [Mux.handle]
      split
      · exact h
      · split
        · exact h
        · exact h.sendInput _ bytes
  | openSlot o => exact (h.setChannel o.term none nofun).setPhase (.attaching o _) nofun
  | resize term cols rows =>
    simp only [Mux.handle]
    split
    · exact h
    · split
      · exact h
      · exact h.offer _ _
  | mode term ro =>
    simp only [Mux.handle]
    split
    · exact h
    · next ch hch =>
      refine h.setChannel term _ fun c hc => ?_
      obtain rfl := Option.some.inj hc
      exact h.channels term ch hch
  | close term => exact h.setChannel term none nofun
  | malformed => exact h

theorem MuxInv.stepTerminal (h : MuxInv s) {epoch : ℕ} {a : Act}
    (hstep : s.stepTerminal epoch a = some s') : MuxInv s' := by
  obtain ⟨term, hterm, hrest⟩ := Option.bind_eq_some_iff.mp hstep
  obtain ⟨term', hterm', hs'⟩ := Option.bind_eq_some_iff.mp hrest
  obtain rfl := Option.some.inj hs'
  exact h.setTerminal hterm (Terminal.steps_of_step hterm').slot_eq

/-- An attach under way has found its terminal, or is refused. -/
theorem MuxInv.stepAttach (h : MuxInv s) {spawns : Bool}
    (hstep : muxStep s (.attach spawns) = some s') : MuxInv s' := by
  obtain ⟨o, wasReadOnly, phase, _, rfl, hor⟩ := muxStep_attach hstep
  have hinv := h.attach o.term (validSize o.cols o.rows).1 (validSize o.cols o.rows).2 spawns
  obtain rfl | ⟨epoch, spawned, hatt, rfl⟩ := hor
  · exact hinv.setPhase _ nofun
  · refine hinv.setPhase _ fun o' e ho he => ?_
    cases ho
    cases he
    exact h.holds_attach hatt

theorem MuxInv.stepResizePty (h : MuxInv s) (hstep : muxStep s .resizePty = some s') :
    MuxInv s' := by
  obtain ⟨o, wasReadOnly, epoch, spawned, hphase, rfl⟩ := muxStep_resizePty hstep
  refine (h.offer epoch _).setPhase (.greeting o epoch) fun o' e ho he => ?_
  cases ho
  cases he
  exact (Mux.holds_offer epoch _ epoch o.term).mpr
    (h.phase o epoch (by rw [hphase]; rfl) (by rw [hphase]; rfl))

theorem MuxInv.stepQueueHello (h : MuxInv s) (hstep : muxStep s .queueHello = some s') :
    MuxInv s' := by
  obtain ⟨o, epoch, hphase, rfl⟩ := muxStep_queueHello hstep
  split
  · refine h.setPhase (.replaying o epoch) fun o' e ho he => ?_
    cases ho
    cases he
    exact h.phase o epoch (by rw [hphase]; rfl) (by rw [hphase]; rfl)
  · exact h.leave

theorem MuxInv.stepQueueReplay (h : MuxInv s) (hstep : muxStep s .queueReplay = some s') :
    MuxInv s' := by
  obtain ⟨o, epoch, hphase, rfl⟩ := muxStep_queueReplay hstep
  split
  · refine (h.setChannel o.term _ fun c hc => ?_).setPhase .reading nofun
    obtain rfl := Option.some.inj hc
    exact h.phase o epoch (by rw [hphase]; rfl) (by rw [hphase]; rfl)
  · exact h.leave

theorem MuxInv.stepQueueRefusal (h : MuxInv s) (hstep : muxStep s .queueRefusal = some s') :
    MuxInv s' := by
  obtain ⟨o, _, rfl⟩ := muxStep_queueRefusal hstep
  split
  · exact h.setPhase .reading nofun
  · exact h.leave

theorem MuxInv.step (h : MuxInv s) {a : Act} (hstep : muxStep s a = some s') : MuxInv s' := by
  cases a with
  | frame f => exact (muxStep_frame hstep).2.2 ▸ h.handle f
  | attach spawns => exact h.stepAttach hstep
  | resizePty => exact h.stepResizePty hstep
  | queueHello => exact h.stepQueueHello hstep
  | queueReplay => exact h.stepQueueReplay hstep
  | queueRefusal => exact h.stepQueueRefusal hstep
  | hangUp =>
    simp only [muxStep, Option.ite_none_right_eq_some, Option.some.injEq] at hstep
    exact hstep.2 ▸ h.leave
  | writerEnds =>
    obtain rfl := Option.some.inj hstep
    exact h.congr (fun _ _ => Iff.rfl) rfl (fun _ _ => id) h.channels h.phase
  | forwardEnds term =>
    obtain ⟨ch, hch, hs'⟩ := Option.bind_eq_some_iff.mp hstep
    obtain rfl := Option.some.inj hs'
    refine h.setChannel term _ fun c hc => ?_
    obtain rfl := Option.some.inj hc
    exact h.channels term ch hch
  | foreignAttach term cols rows spawns =>
    simp only [muxStep, Option.ite_none_left_eq_some, Option.some.injEq] at hstep
    exact hstep.2 ▸ h.attach term _ _ spawns
  | reset term =>
    simp only [muxStep, Option.ite_none_left_eq_some, Option.some.injEq] at hstep
    exact hstep.2 ▸ h.clearSlot term
  | exit epoch => exact h.stepTerminal hstep
  | nudge epoch => exact h.stepTerminal hstep
  | take epoch => exact h.stepTerminal hstep
  | wrote epoch ok => exact h.stepTerminal hstep
  | reap epoch => exact h.stepTerminal hstep
  | foreignSend epoch cmd => exact h.stepTerminal hstep

theorem muxInv_of_reachable (hs : muxSystem.Reachable s) : MuxInv s := by
  refine System.Reach.invariant ?_ ?_ hs
  · rintro s ⟨slotsPerUser, rfl⟩
    exact muxInv_empty slotsPerUser
  · intro s a s' _ hinv _ hstep
    exact hinv.step hstep

/-! ## What holds of every terminal -/

/-- Every terminal spawned so far has the property. -/
def Mux.All (P : Terminal → Prop) (s : Mux) : Prop :=
  ∀ epoch term, s.terminals epoch = some term → P term

/-- A property that a fresh terminal has, and that neither a send to its queue nor a step of its
own threads takes away. -/
structure Kept (P : Terminal → Prop) : Prop where
  spawn : ∀ slot cols rows, P (.spawn slot cols rows)
  send : ∀ term cmd queue, P term → term.queue.trySend cmd = .ok queue →
    P { term with queue := queue }
  step : ∀ term term', P term → term.Steps term' → P term'

section
variable {P : Terminal → Prop}

theorem Kept.offer (hP : Kept P) {term : Terminal} (h : P term) (cmd : PtyCmd) :
    P { term with queue := term.queue.offer cmd } := by
  rw [SyncChannel.offer]
  split
  · next queue hsend => exact hP.send term cmd queue h hsend
  · exact h

namespace Mux.All

theorem setTerminal (h : s.All P) {term : Terminal} (hterm : P term) (epoch : ℕ) :
    (s.setTerminal epoch term).All P := by
  intro e t ht
  by_cases he : e = epoch
  · subst he
    obtain rfl : term = t := by simpa [Mux.setTerminal] using ht
    exact hterm
  · exact h e t ((Function.update_of_ne he ..).symm.trans ht)

theorem offer (h : s.All P) (hP : Kept P) (epoch : ℕ) (cmd : PtyCmd) :
    (s.offer epoch cmd).All P := by
  cases ht : s.terminals epoch with
  | none => rwa [Mux.offer, ht]
  | some term =>
    rw [offer_terminals ht]
    exact h.setTerminal (hP.offer (h epoch term ht) cmd) epoch

theorem takeSlot (h : s.All P) (hP : Kept P) (slot : ℕ) : (s.takeSlot slot).All P := by
  rw [Mux.takeSlot]
  split
  · exact h
  · exact h.offer hP _ .kill

theorem attach (h : s.All P) (hP : Kept P) (index cols rows : ℕ) (spawns : Bool) :
    (s.attach index cols rows spawns).1.All P := by
  obtain heq | ⟨epoch, _, heq⟩ | ⟨_, heq⟩ | ⟨_, heq⟩ := s.attach_cases index cols rows spawns
  · exact heq ▸ h
  · exact heq ▸ h
  · exact heq ▸ h.takeSlot hP index
  · exact heq ▸ (h.takeSlot hP index).setTerminal (hP.spawn index cols rows) _

theorem handle (h : s.All P) (hP : Kept P) (f : Frame) : (s.handle f).All P := by
  cases f with
  | binary bytes =>
    cases bytes with
    | nil => exact h
    | cons b bytes =>
      simp only [Mux.handle, Mux.sendInput]
      split
      · exact h
      · split
        · exact h
        · split
          · exact h
          · next term ht =>
            split
            · next queue hsend => exact h.setTerminal (hP.send term _ queue (h _ term ht) hsend) _
            · exact h
  | resize term cols rows =>
    simp only [Mux.handle]
    split
    · exact h
    · split
      · exact h
      · exact h.offer hP _ _
  | mode term ro =>
    simp only [Mux.handle]
    split <;> exact h
  | _ => exact h

theorem stepTerminal (h : s.All P) (hP : Kept P) {epoch : ℕ} {a : Act}
    (hstep : s.stepTerminal epoch a = some s') : s'.All P := by
  obtain ⟨term, hterm, hrest⟩ := Option.bind_eq_some_iff.mp hstep
  obtain ⟨term', hterm', hs'⟩ := Option.bind_eq_some_iff.mp hrest
  obtain rfl := Option.some.inj hs'
  have hsteps := Terminal.steps_of_step hterm'
  exact h.setTerminal (hP.step term term' (h epoch term hterm) hsteps) epoch

theorem step (h : s.All P) (hP : Kept P) {a : Act} (hstep : muxStep s a = some s') : s'.All P := by
  cases a with
  | frame f => exact (muxStep_frame hstep).2.2 ▸ h.handle hP f
  | attach spawns =>
    obtain ⟨o, _, _, _, rfl, _⟩ := muxStep_attach hstep
    exact h.attach hP o.term (validSize o.cols o.rows).1 (validSize o.cols o.rows).2 spawns
  | resizePty =>
    obtain ⟨o, _, epoch, _, _, rfl⟩ := muxStep_resizePty hstep
    exact h.offer hP epoch _
  | queueHello =>
    obtain ⟨o, epoch, _, rfl⟩ := muxStep_queueHello hstep
    split <;> exact h
  | queueReplay =>
    obtain ⟨o, epoch, _, rfl⟩ := muxStep_queueReplay hstep
    split <;> exact h
  | queueRefusal =>
    obtain ⟨o, _, rfl⟩ := muxStep_queueRefusal hstep
    split <;> exact h
  | hangUp =>
    simp only [muxStep, Option.ite_none_right_eq_some, Option.some.injEq] at hstep
    exact hstep.2 ▸ h
  | writerEnds => exact Option.some.inj hstep ▸ h
  | forwardEnds term =>
    obtain ⟨ch, _, hs'⟩ := Option.bind_eq_some_iff.mp hstep
    exact Option.some.inj hs' ▸ h
  | foreignAttach term cols rows spawns =>
    simp only [muxStep, Option.ite_none_left_eq_some, Option.some.injEq] at hstep
    exact hstep.2 ▸ h.attach hP term _ _ spawns
  | reset term =>
    simp only [muxStep, Option.ite_none_left_eq_some, Option.some.injEq] at hstep
    exact hstep.2 ▸ h
  | exit epoch => exact h.stepTerminal hP hstep
  | nudge epoch => exact h.stepTerminal hP hstep
  | take epoch => exact h.stepTerminal hP hstep
  | wrote epoch ok => exact h.stepTerminal hP hstep
  | reap epoch => exact h.stepTerminal hP hstep
  | foreignSend epoch cmd => exact h.stepTerminal hP hstep

end Mux.All

/-- **Terminal invariants**: what sends and the terminal's own threads keep holds of every
terminal in every run. -/
theorem Kept.reachable (hP : Kept P) (hs : muxSystem.Reachable s) : s.All P := by
  refine System.Reach.invariant ?_ ?_ hs
  · rintro s ⟨slotsPerUser, rfl⟩ epoch term hterm
    cases hterm
  · intro s a s' _ hall _ hstep
    exact hall.step hP hstep

end

end Webshell.MuxBridge
