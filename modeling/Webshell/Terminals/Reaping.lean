import Webshell.Lib.Transition

/-!
# The pid of a shell

One shell, the command thread that ends it, and the calls of `Terminal::stop`, which signal its bare
pid through the killer that they share with that thread. The thread clears the killer before it
waits for the child, but `Child::kill`, which it calls before that, may collect the child too.

## Main definitions

- `Shell`, `shellSystem`: the child, the command thread in its shutdown, and the stops
- `Unstrayed`: every hangup was sent before the child had been reaped
- `Outside`: no stop signals between the two

## Main results

- `unstrayed_iff_outside`: which runs keep that
- `stop_signals_reaped_pid`: the shell exits on its own, and a stop comes between
-/

namespace Webshell.Reaping

open Transition

/-- Where the command thread is. -/
inductive Command
  | serving
  /-- In `child.kill()`: the hangup is sent, and so many calls of `try_wait` are left. -/
  | polling (left : ℕ)
  /-- `child.kill()` has returned. -/
  | killed
  /-- The shared killer has been cleared. -/
  | retired
  /-- `child.wait()` has returned. -/
  | waited
deriving DecidableEq

/-- One call of `Terminal::stop`. -/
inductive Stop
  | absent
  /-- It holds the lock of the killer. -/
  | locked
  | ended
deriving DecidableEq

structure Shell where
  exited : Bool
  /-- The pid is free for another process. -/
  reaped : Bool
  /-- The shared killer is still there. -/
  killer : Bool
  lock : Option ℕ
  command : Command
  stops : ℕ → Stop
  /-- The hangups that stops have sent, each with whether the child had been reaped. -/
  hangups : List Bool

inductive Act
  /-- The shell exits, on its own or because of a signal. -/
  | exit
  /-- The command thread leaves its loop and calls `child.kill()`. -/
  | unwind
  /-- `try_wait`, or `SIGKILL` after the last one. -/
  | poll
  | retire
  | wait
  | lockKiller (i : ℕ)
  /-- The stop signals, if there is a killer, and gives the lock back. -/
  | hangup (i : ℕ)
deriving DecidableEq

/-- `polls` is how often `Child::kill` calls `try_wait`. -/
def step (polls : ℕ) (s : Shell) : Act → Option Shell
  | .exit => if s.exited then none else some { s with exited := true }
  | .unwind => if s.command = .serving then some { s with command := .polling polls } else none
  | .poll =>
    match s.command with
    | .polling (n + 1) =>
      if s.exited then some { s with reaped := true, command := .killed }
      else some { s with command := .polling n }
    | .polling 0 => some { s with command := .killed }
    | _ => none
  | .retire =>
    if s.command = .killed ∧ s.lock = none then
      some { s with killer := false, command := .retired }
    else none
  | .wait =>
    if s.command = .retired ∧ s.exited = true then
      some { s with reaped := true, command := .waited }
    else none
  | .lockKiller i =>
    if s.stops i = .absent ∧ s.lock = none then
      some { s with lock := some i, stops := Function.update s.stops i .locked }
    else none
  | .hangup i =>
    if s.stops i = .locked then
      some { s with
        hangups := if s.killer then s.hangups ++ [s.reaped] else s.hangups
        lock := none
        stops := Function.update s.stops i .ended }
    else none

/-- A shell that has just been spawned. -/
def spawned : Shell where
  exited := false
  reaped := false
  killer := true
  lock := none
  command := .serving
  stops := fun _ => .absent
  hangups := []

def shellSystem (polls : ℕ) : System Shell Act where
  init s := s = spawned
  step := step polls

/-- No stop has signalled a pid that had been reaped. -/
def Unstrayed (s : Shell) : Prop := ∀ reaped ∈ s.hangups, reaped = false

/-- `child.kill()` has collected the child, and the shared killer is not cleared yet. -/
def Shell.Between (s : Shell) : Prop := s.command = .killed ∧ s.reaped = true

/-- No stop signals then. -/
def Outside (s : Shell) (a : Act) : Prop := s.Between → ∀ i, a ≠ .hangup i

/-- What every run keeps: the killer is there until the thread clears it, and nobody has reaped the
child before `child.kill()` does. -/
structure ShellInv (s : Shell) : Prop where
  killer : s.killer = true ↔ s.command ≠ .retired ∧ s.command ≠ .waited
  reaped : s.reaped = true → s.command ≠ .serving ∧ ∀ n, s.command ≠ .polling n

variable {polls : ℕ} {s s' : Shell} {a : Act} {i : ℕ}

theorem ShellInv.between (h : ShellInv s) (hkiller : s.killer = true) (hreaped : s.reaped = true) :
    s.Between := by
  refine ⟨?_, hreaped⟩
  obtain ⟨hserving, hpolling⟩ := h.reaped hreaped
  obtain ⟨hretired, hwaited⟩ := h.killer.mp hkiller
  cases hcommand : s.command with
  | serving => exact absurd hcommand hserving
  | polling n => exact absurd hcommand (hpolling n)
  | killed => rfl
  | retired => exact absurd hcommand hretired
  | waited => exact absurd hcommand hwaited

theorem ShellInv.step (h : ShellInv s) (hstep : step polls s a = some s') : ShellInv s' := by
  cases a with
  | exit =>
    simp only [Reaping.step, Option.ite_none_left_eq_some, Option.some.injEq] at hstep
    obtain ⟨_, rfl⟩ := hstep
    exact ⟨h.killer, h.reaped⟩
  | unwind =>
    simp only [Reaping.step, Option.ite_none_right_eq_some, Option.some.injEq] at hstep
    obtain ⟨hserving, rfl⟩ := hstep
    refine ⟨?_, fun hreaped => absurd hserving (h.reaped hreaped).1⟩
    rw [h.killer, hserving]
    simp
  | poll =>
    simp only [Reaping.step] at hstep
    split at hstep
    next n hpolling =>
      split at hstep
      · obtain rfl := Option.some.inj hstep
        refine ⟨?_, fun _ => ⟨nofun, nofun⟩⟩
        rw [h.killer, hpolling]
        simp
      · obtain rfl := Option.some.inj hstep
        refine ⟨?_, fun hreaped => absurd hpolling ((h.reaped hreaped).2 _)⟩
        rw [h.killer, hpolling]
        simp
    next hpolling =>
      obtain rfl := Option.some.inj hstep
      refine ⟨?_, fun _ => ⟨nofun, nofun⟩⟩
      rw [h.killer, hpolling]
      simp
    · cases hstep
  | retire =>
    simp only [Reaping.step, Option.ite_none_right_eq_some, Option.some.injEq] at hstep
    obtain ⟨_, rfl⟩ := hstep
    exact ⟨by simp, fun _ => ⟨nofun, nofun⟩⟩
  | wait =>
    simp only [Reaping.step, Option.ite_none_right_eq_some, Option.some.injEq] at hstep
    obtain ⟨⟨hretired, _⟩, rfl⟩ := hstep
    refine ⟨?_, fun _ => ⟨nofun, nofun⟩⟩
    rw [h.killer, hretired]
    simp
  | lockKiller i =>
    simp only [Reaping.step, Option.ite_none_right_eq_some, Option.some.injEq] at hstep
    obtain ⟨_, rfl⟩ := hstep
    exact ⟨h.killer, h.reaped⟩
  | hangup i =>
    simp only [Reaping.step, Option.ite_none_right_eq_some, Option.some.injEq] at hstep
    obtain ⟨_, rfl⟩ := hstep
    exact ⟨h.killer, h.reaped⟩

/-- Only a hangup adds to what the stops have sent. -/
theorem hangups_of_step (hstep : step polls s a = some s') :
    s'.hangups = s.hangups ∨
      ∃ i, a = .hangup i ∧ s.killer = true ∧ s'.hangups = s.hangups ++ [s.reaped] := by
  cases a with
  | hangup i =>
    simp only [step, Option.ite_none_right_eq_some, Option.some.injEq] at hstep
    obtain ⟨_, rfl⟩ := hstep
    by_cases hkiller : s.killer = true
    · exact .inr ⟨i, rfl, hkiller, if_pos hkiller⟩
    · exact .inl (if_neg hkiller)
  | poll =>
    simp only [step] at hstep
    split at hstep
    · split at hstep
      · exact .inl (Option.some.inj hstep ▸ rfl)
      · exact .inl (Option.some.inj hstep ▸ rfl)
    · exact .inl (Option.some.inj hstep ▸ rfl)
    · cases hstep
  | exit =>
    simp only [step, Option.ite_none_left_eq_some, Option.some.injEq] at hstep
    exact .inl (hstep.2 ▸ rfl)
  | unwind | retire | wait | lockKiller =>
    simp only [step, Option.ite_none_right_eq_some, Option.some.injEq] at hstep
    exact .inl (hstep.2 ▸ rfl)

theorem shellInv_of_reachable (h : (shellSystem polls).Reachable s) : ShellInv s := by
  refine System.Reach.invariant ?_ (fun _ _ _ _ hs _ hstep => hs.step hstep) h
  rintro s rfl
  exact ⟨by simp [spawned], fun hreaped => by cases hreaped⟩

/-- A step strays exactly if it is a hangup between the two. -/
theorem unstrayed_step (hinv : ShellInv s) (h : Unstrayed s) (hstep : step polls s a = some s') :
    Unstrayed s' ↔ Outside s a := by
  constructor
  · rintro h' hbetween i rfl
    simp only [step, Option.ite_none_right_eq_some, Option.some.injEq] at hstep
    obtain ⟨_, rfl⟩ := hstep
    have hkiller : s.killer = true := by
      rw [hinv.killer, hbetween.1]
      exact ⟨nofun, nofun⟩
    have hsent : s.reaped ∈ if s.killer then s.hangups ++ [s.reaped] else s.hangups := by
      rw [if_pos hkiller]
      exact List.mem_append_right _ (List.mem_singleton_self _)
    cases hbetween.2.symm.trans (h' _ hsent)
  · intro houtside
    obtain hsame | ⟨i, rfl, hkiller, hsent⟩ := hangups_of_step hstep
    · rw [Unstrayed, hsame]
      exact h
    · rw [Unstrayed, hsent]
      intro reaped hmem
      obtain hmem | hmem := List.mem_append.mp hmem
      · exact h reaped hmem
      · obtain rfl := List.mem_singleton.mp hmem
        by_contra hreaped
        rw [Bool.not_eq_false] at hreaped
        exact houtside (hinv.between hkiller hreaped) i rfl

/-- In the runs in which no stop signals between the collection of the child by `child.kill()` and
the clearing of the killer, none signals a pid that has been reaped; the first stop that does signal
then is the first to stray. -/
theorem unstrayed_iff_outside (h : (shellSystem polls).Reach Outside s) :
    Unstrayed s ∧ ∀ a s', (shellSystem polls).step s a = some s' →
      (Unstrayed s' ↔ Outside s a) := by
  have hunstrayed : Unstrayed s := by
    refine System.Reach.invariant ?_ ?_ h
    · rintro s rfl
      exact fun _ hmem => absurd hmem List.not_mem_nil
    · intro s a s' hr hs houtside hstep
      exact (unstrayed_step (shellInv_of_reachable hr.reachable) hs hstep).mpr houtside
  refine ⟨hunstrayed, fun a s' hstep => ?_⟩
  exact unstrayed_step (shellInv_of_reachable h.reachable) hunstrayed hstep

/-- A reset ends the shell, and a second one comes when the killer has been cleared. -/
def timelyResets : List Act :=
  [.lockKiller 0, .hangup 0, .exit, .unwind, .poll, .retire, .lockKiller 1, .hangup 1, .wait]

theorem unstrayed_iff_outside_timelyResets :
    ∃ s, (shellSystem 5).run spawned timelyResets = some s ∧ s.hangups = [false] ∧
      s.stops 1 = .ended ∧ Unstrayed s ∧
      ∀ a s', (shellSystem 5).step s a = some s' → (Unstrayed s' ↔ Outside s a) := by
  obtain ⟨s, hrun, hsent, hended⟩ : ∃ s, (shellSystem 5).run spawned timelyResets = some s ∧
      s.hangups = [false] ∧ s.stops 1 = .ended := ⟨_, rfl, rfl, rfl⟩
  have hretires : ∀ e ∈ (shellSystem 5).steps spawned timelyResets,
      e.1.command ≠ .killed ∨ e.2 = .retire := by decide
  have hreach : (shellSystem 5).Reach Outside s := by
    refine System.Reach.run_steps (.init rfl) (fun e he hbetween i hhangup => ?_) hrun
    obtain hcommand | hretire := hretires e he
    · exact hcommand hbetween.1
    · cases hretire.symm.trans hhangup
  exact ⟨s, hrun, hsent, hended, unstrayed_iff_outside hreach⟩

/-- The shell exits on its own, `child.kill()` collects it, and a reset comes before the killer is
cleared. -/
def lateReset : List Act := [.exit, .unwind, .poll, .lockKiller 0, .hangup 0]

theorem stop_signals_reaped_pid :
    ¬ ∀ polls s, (shellSystem polls).Reachable s → Unstrayed s := by
  intro h
  obtain ⟨s, hrun, hsent⟩ : ∃ s, (shellSystem 5).run spawned lateReset = some s ∧
      s.hangups = [true] := ⟨_, rfl, rfl⟩
  have hstray := h 5 s (System.Reachable.run (.init rfl) hrun) true
  rw [hsent] at hstray
  cases hstray List.mem_cons_self

end Webshell.Reaping
