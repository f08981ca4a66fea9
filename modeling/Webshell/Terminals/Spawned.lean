import Webshell.Lib.Watch
import Webshell.Pty.Mux
import Webshell.Terminals.Attach

/-!
# A spawned shell

One spawn of a shell with everything its `Terminal` shares with others: the child, the reader
thread, the command thread, and the calls that stop it or send to it. What a step gets into the
input queue is part of its result.

## Main definitions

- `Terminal`: the child, the threads and the shared parts
- `Terminal.step`: a step of the child or of a thread
- `Terminal.stopStep`: the three things `Terminal::stop` does

## Main results

- `Terminal.Later`, `Terminal.later_step`: no step moves a terminal to another slot, brings its
  child back, or marks a dead shell alive
-/

namespace Webshell.Terminals

open MuxBridge (PtyCmd)

inductive Reader
  /-- It has not been started. -/
  | absent
  | reading
  /-- `alive.store(false)` -/
  | marked
  /-- `shutdown_tx.send(true)` -/
  | sent
  | ended
deriving DecidableEq

inductive Command
  | absent
  | receiving
  | writing (bytes : List UInt8)
  /-- The size is stored, the model not resized yet. -/
  | resizing (cols rows : ℕ)
  /-- It has left its loop and is in `child.kill()`. -/
  | killing
  | killed
  /-- The shared killer has been cleared. -/
  | retired
  | ended
deriving DecidableEq

structure Terminal (P : Type) where
  /-- The user and the slot it was spawned for. -/
  slot : String × ℕ
  epoch : ℕ
  shell : Shell P
  size : ℕ × ℕ
  /-- Its receivers are named by the calls that subscribed them. -/
  shutdown : Watch.Channel ℕ Bool
  /-- The shared killer is still there. -/
  killer : Bool
  input : SyncChannel PtyCmd 128
  reader : Reader
  command : Command
  /-- A hangup has been sent to the child. -/
  hungUp : Bool
  /-- The child has exited. -/
  exited : Bool

inductive ThreadAct
  /-- The child exits, on its own or because of a signal. -/
  | exit
  | readChunk (chunk : List UInt8)
  /-- `read` returns 0 or an error. -/
  | readEnds
  | sendShutdown
  | nudge
  | recv
  /-- `recv` fails: the last sender is gone, the reader thread's among them. -/
  | recvEnds
  | wrote (ok : Bool)
  | resizeModel
  | childKilled
  | retire
  | wait

/-- The three things `Terminal::stop` does, in this order. -/
inductive StopStage
  | shutdown
  | hangup
  | nudge
deriving DecidableEq

namespace Terminal

variable {P : Type}

/-- A child that has just been spawned. Its threads are started later, and it gets its epoch
then. -/
def spawn [Vt100 P] (slot : String × ℕ) (scrollbackCap cols rows : ℕ) : Terminal P where
  slot := slot
  epoch := 0
  shell := Shell.spawn scrollbackCap cols rows
  size := (cols, rows)
  shutdown := Watch.Channel.new false
  killer := true
  input := SyncChannel.fresh PtyCmd 128
  reader := .absent
  command := .absent
  hungUp := false
  exited := false

def start (term : Terminal P) (epoch : ℕ) : Terminal P :=
  { term with epoch := epoch, reader := .reading, command := .receiving }

/-- A `try_send` whose result is ignored, and what got into the queue. -/
def offer (term : Terminal P) (cmd : PtyCmd) : Terminal P × List PtyCmd :=
  ({ term with input := term.input.offer cmd }, if term.input.Accepts then [cmd] else [])

/-- One command taken by the command thread. -/
def obey (term : Terminal P) : PtyCmd → Terminal P
  | .input bytes => { term with command := .writing bytes }
  | .resize cols rows => { term with size := (cols, rows), command := .resizing cols rows }
  | .kill => { term with command := .killing, hungUp := true }

/-- A step of the child or of a thread, and what it queues. -/
def step [Vt100 P] (term : Terminal P) : ThreadAct → Option (Terminal P × List PtyCmd)
  | .exit => if term.exited then none else some ({ term with exited := true }, [])
  | .readChunk chunk =>
    if term.reader = .reading then some ({ term with shell := term.shell.readChunk chunk }, [])
    else none
  | .readEnds =>
    if term.reader = .reading then
      some ({ term with shell := { term.shell with alive := false }, reader := .marked }, [])
    else none
  | .sendShutdown =>
    if term.reader = .marked then
      some ({ term with shutdown := term.shutdown.send true, reader := .sent }, [])
    else none
  | .nudge =>
    if term.reader = .sent then some ({ term with reader := .ended }.offer .kill) else none
  | .recv =>
    match term.command, term.input.recv with
    | .receiving, some (cmd, input) => some ({ term with input := input }.obey cmd, [])
    | _, _ => none
  | .recvEnds =>
    if term.command = .receiving ∧ term.input.items = [] ∧ term.reader = .ended then
      some ({ term with command := .killing, hungUp := true }, [])
    else none
  | .wrote ok =>
    match term.command with
    | .writing _ =>
      if ok then some ({ term with command := .receiving }, [])
      else some ({ term with command := .killing, hungUp := true }, [])
    | _ => none
  | .resizeModel =>
    match term.command with
    | .resizing cols rows =>
      let shell := { term.shell with scrollback := term.shell.scrollback.resize cols rows }
      some ({ term with shell := shell, command := .receiving }, [])
    | _ => none
  | .childKilled =>
    if term.command = .killing then some ({ term with command := .killed }, []) else none
  | .retire =>
    if term.command = .killed then some ({ term with killer := false, command := .retired }, [])
    else none
  | .wait =>
    -- `child.wait()` returns once the child has exited; the receiver of the queue goes with it
    if term.command = .retired ∧ term.exited = true then
      some ({ term with command := .ended, input := term.input.disconnect }, [])
    else none

/-- What a stop does at a stage. The hangup goes to the child if the killer is still there. -/
def stopStep (term : Terminal P) : StopStage → Terminal P × List PtyCmd
  | .shutdown => ({ term with shutdown := term.shutdown.send true }, [])
  | .hangup => ({ term with hungUp := term.hungUp || term.killer }, [])
  | .nudge => term.offer .kill

/-- The stage that comes next. -/
def nextStage : StopStage → Option StopStage
  | .shutdown => some .hangup
  | .hangup => some .nudge
  | .nudge => none

/-! ## What no step takes back -/

/-- The terminal later on: spawned for the same slot, dead if it was, exited if it had. -/
structure Later (term term' : Terminal P) : Prop where
  slot : term'.slot = term.slot
  dead : term.shell.alive = false → term'.shell.alive = false
  exited : term.exited = true → term'.exited = true

variable {term term' term'' : Terminal P} {cmds : List PtyCmd}

theorem Later.refl (term : Terminal P) : term.Later term := ⟨rfl, id, id⟩

theorem Later.trans (h : term.Later term') (h' : term'.Later term'') : term.Later term'' :=
  ⟨h'.slot.trans h.slot, h'.dead ∘ h.dead, h'.exited ∘ h.exited⟩

/-- What runs later has been running. -/
theorem Later.exited_eq_false (h : term.Later term') (hexited : term'.exited = false) :
    term.exited = false := by
  by_contra hexit
  rw [Bool.not_eq_false] at hexit
  rw [h.exited hexit] at hexited
  cases hexited

theorem later_offer (term : Terminal P) (cmd : PtyCmd) : term.Later (term.offer cmd).1 :=
  ⟨rfl, id, id⟩

theorem later_start (term : Terminal P) (epoch : ℕ) : term.Later (term.start epoch) :=
  ⟨rfl, id, id⟩

theorem later_stopStep (term : Terminal P) (stage : StopStage) :
    term.Later (term.stopStep stage).1 := by
  cases stage <;> exact ⟨rfl, id, id⟩

theorem later_obey (term : Terminal P) (cmd : PtyCmd) : term.Later (term.obey cmd) := by
  cases cmd <;> exact ⟨rfl, id, id⟩

theorem later_step [Vt100 P] {a : ThreadAct} (h : term.step a = some (term', cmds)) :
    term.Later term' := by
  cases a with
  | exit =>
    simp only [step, Option.ite_none_left_eq_some, Option.some.injEq, Prod.mk.injEq] at h
    obtain ⟨_, rfl, _⟩ := h
    exact ⟨rfl, id, fun _ => rfl⟩
  | readEnds =>
    simp only [step, Option.ite_none_right_eq_some, Option.some.injEq, Prod.mk.injEq] at h
    obtain ⟨_, rfl, _⟩ := h
    exact ⟨rfl, fun _ => rfl, id⟩
  | nudge =>
    simp only [step, Option.ite_none_right_eq_some, Option.some.injEq] at h
    have hterm : term' = ({ term with reader := .ended }.offer .kill).1 := by rw [h.2]
    rw [hterm]
    exact ⟨rfl, id, id⟩
  | recv =>
    simp only [step] at h
    split at h
    · next cmd input _ _ =>
      obtain ⟨rfl, _⟩ := Prod.mk.inj (Option.some.inj h)
      have hlater := later_obey { term with input := input } cmd
      exact ⟨hlater.slot, hlater.dead, hlater.exited⟩
    · cases h
  | wrote ok =>
    simp only [step] at h
    split at h
    · split at h
      · obtain ⟨rfl, _⟩ := Prod.mk.inj (Option.some.inj h)
        exact ⟨rfl, id, id⟩
      · obtain ⟨rfl, _⟩ := Prod.mk.inj (Option.some.inj h)
        exact ⟨rfl, id, id⟩
    · cases h
  | resizeModel =>
    simp only [step] at h
    split at h
    · obtain ⟨rfl, _⟩ := Prod.mk.inj (Option.some.inj h)
      exact ⟨rfl, id, id⟩
    · cases h
  | readChunk chunk | sendShutdown | recvEnds | childKilled | retire | wait =>
    simp only [step, Option.ite_none_right_eq_some, Option.some.injEq, Prod.mk.injEq] at h
    obtain ⟨_, rfl, _⟩ := h
    exact ⟨rfl, id, id⟩

end Terminal

end Webshell.Terminals
