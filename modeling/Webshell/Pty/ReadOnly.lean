import Webshell.Pty.Containment

/-!
# Read-only channels

What the frames of a read-only channel, and a read-only open of a running slot, do to the shell.

## Main definitions

- `Terminal.outcome`: the input and the grid once the queue is worked off
- `ReadOnlyStep`: a step that handles such a frame
- `Silent`: it queues no input and no resize, and leaves every input and every grid as they are

## Main results

- `silent_iff_not_resizeQueued`: such a step is silent unless it is the resize of an attach
- `read_only_open_resizes`: the attach of a read-only open resizes the running shell
-/

namespace Webshell.MuxBridge

open Transition

/-! ## Input and grid -/

/-- Input and grid after the commands, up to the first `Kill`. -/
def drain : List UInt8 × (ℕ × ℕ) → List PtyCmd → List UInt8 × (ℕ × ℕ)
  | now, [] => now
  | (input, size), .input bytes :: cmds => drain (input ++ bytes, size) cmds
  | (input, _), .resize cols rows :: cmds => drain (input, (cols, rows)) cmds
  | now, .kill :: _ => now

/-- Input and grid once the command thread has worked off its queue. -/
def Terminal.outcome (term : Terminal) : List UInt8 × (ℕ × ℕ) :=
  match term.thread with
  | .receiving => drain (term.input, term.size) term.queue.items
  | .writing bytes => drain (term.input ++ bytes, term.size) term.queue.items
  | .reaping => (term.input, term.size)
  | .ended => (term.input, term.size)

/-- The input and the resizes in the queue. -/
def Terminal.commands (term : Terminal) : List PtyCmd := term.queue.items.filter (· ≠ .kill)

/-- No input and no resize has been queued, and input and grid are as they were, now and once the
queue is worked off. -/
structure Untouched (term term' : Terminal) : Prop where
  commands : term'.commands = term.commands
  input : term'.input = term.input
  size : term'.size = term.size
  outcome : term'.outcome = term.outcome

/-- Every terminal is untouched. -/
def Silent (s s' : Mux) : Prop :=
  ∀ epoch term, s.terminals epoch = some term →
    ∃ term', s'.terminals epoch = some term' ∧ Untouched term term'

/-- The step handles a frame that was read while the channel it is addressed to was read-only, or
an open with `ro = true` for a running slot. The last steps of an open are taken in without regard
to what it was. -/
def ReadOnlyStep (s : Mux) : Act → Prop
  | .frame f => ∃ slot, f.term = some slot ∧
    (s.channelReadOnly slot = true ∨ ∃ o, f = .openSlot o ∧ o.ro = true ∧ s.live slot ≠ none)
  | .attach _ => ∃ o wasReadOnly, s.phase = .attaching o wasReadOnly ∧
    (wasReadOnly = true ∨ o.ro = true ∧ s.live o.term ≠ none)
  | .resizePty => ∃ o wasReadOnly epoch spawned, s.phase = .resizing o wasReadOnly epoch spawned ∧
    (wasReadOnly = true ∨ o.ro = true ∧ spawned = false)
  | .queueHello | .queueReplay | .queueRefusal => True
  | _ => False

/-- The resize that ends an attach, for a terminal whose command thread has not ended and whose
queue has room. -/
def ResizeQueued (s : Mux) (a : Act) : Prop :=
  a = .resizePty ∧ ∃ epoch term, s.phase.epoch = some epoch ∧ s.terminals epoch = some term ∧
    ¬ term.TakesNone

theorem Untouched.refl (term : Terminal) : Untouched term term := ⟨rfl, rfl, rfl, rfl⟩

theorem Silent.refl (s : Mux) : Silent s s := fun _ term hterm => ⟨term, hterm, .refl term⟩

/-- A `Kill` at the end of the queue changes nothing of what comes before. -/
theorem drain_kill (now : List UInt8 × (ℕ × ℕ)) (cmds : List PtyCmd) :
    drain now (cmds ++ [.kill]) = drain now cmds := by
  induction cmds generalizing now with
  | nil => rfl
  | cons cmd cmds ih =>
    cases cmd with
    | input bytes => exact ih _
    | resize cols rows => exact ih _
    | kill => rfl

theorem untouched_kill (term : Terminal) :
    Untouched term { term with queue := term.queue.offer .kill } := by
  by_cases hacc : term.queue.Accepts
  · have hitems := SyncChannel.offer_of_accepts (a := PtyCmd.kill) hacc
    refine ⟨?_, rfl, rfl, ?_⟩
    · simp [Terminal.commands, hitems]
    · cases hthread : term.thread with
      | receiving => simp only [Terminal.outcome, hthread, hitems, drain_kill]
      | writing bytes => simp only [Terminal.outcome, hthread, hitems, drain_kill]
      | reaping => simp only [Terminal.outcome, hthread]
      | ended => simp only [Terminal.outcome, hthread]
  · rw [SyncChannel.offer_of_not_accepts hacc]
    exact .refl term

/-- A resize that is taken does not leave the terminal untouched. -/
theorem not_untouched_resize {term : Terminal} (hacc : term.queue.Accepts) (cols rows : ℕ) :
    ¬ Untouched term { term with queue := term.queue.offer (.resize cols rows) } := by
  intro h
  have hcommands := h.commands
  rw [Terminal.commands, Terminal.commands, SyncChannel.offer_of_accepts hacc,
    List.filter_append] at hcommands
  have hlength := congrArg List.length hcommands
  simp at hlength

section
variable {s s' : Mux}

theorem Silent.trans {s'' : Mux} (h : Silent s s') (h' : Silent s' s'') : Silent s s'' := by
  intro epoch term hterm
  obtain ⟨term', hterm', hu⟩ := h epoch term hterm
  obtain ⟨term'', hterm'', hu'⟩ := h' epoch term' hterm'
  exact ⟨term'', hterm'', hu'.commands.trans hu.commands, hu'.input.trans hu.input,
    hu'.size.trans hu.size, hu'.outcome.trans hu.outcome⟩

theorem silent_setTerminal {epoch : ℕ} {term term' : Terminal}
    (hterm : s.terminals epoch = some term) :
    Silent s (s.setTerminal epoch term') ↔ Untouched term term' := by
  constructor
  · intro h
    obtain ⟨t, ht, hu⟩ := h epoch term hterm
    obtain rfl : term' = t := by simpa [Mux.setTerminal] using ht
    exact hu
  · intro hu e t ht
    by_cases he : e = epoch
    · subst he
      obtain rfl := Option.some.inj (hterm.symm.trans ht)
      exact ⟨term', Function.update_self .., hu⟩
    · exact ⟨t, (Function.update_of_ne he ..).trans ht, .refl t⟩

theorem silent_offer_kill (s : Mux) (epoch : ℕ) : Silent s (s.offer epoch .kill) := by
  cases hterm : s.terminals epoch with
  | none =>
    rw [Mux.offer, hterm]
    exact .refl s
  | some term =>
    rw [Mux.offer_terminals hterm]
    exact (silent_setTerminal hterm).mpr (untouched_kill term)

theorem silent_takeSlot (s : Mux) (slot : ℕ) : Silent s (s.takeSlot slot) := by
  rw [Mux.takeSlot]
  split
  · exact .refl s
  · next epoch _ => exact silent_offer_kill s epoch

/-- A spawn touches no terminal that is there already. -/
theorem silent_putSlot (hinv : MuxInv s) (slot cols rows : ℕ) :
    Silent s (s.putSlot slot cols rows) := by
  intro epoch term hterm
  have hne : epoch ≠ s.nextEpoch := (hinv.numbered epoch _ ⟨term, hterm, rfl⟩).ne
  exact ⟨term, (Function.update_of_ne hne ..).trans hterm, .refl term⟩

theorem silent_attach (hinv : MuxInv s) (slot cols rows : ℕ) (spawns : Bool) :
    Silent s (s.attach slot cols rows spawns).1 := by
  obtain heq | ⟨epoch, _, heq⟩ | ⟨_, heq⟩ | ⟨_, heq⟩ := s.attach_cases slot cols rows spawns
  · exact heq ▸ .refl s
  · exact heq ▸ .refl s
  · exact heq ▸ silent_takeSlot s slot
  · exact heq ▸ (silent_takeSlot s slot).trans (silent_putSlot (hinv.takeSlot slot) slot cols rows)

/-- Every frame handled while its channel is read-only, and every open. -/
theorem silent_handle {f : Frame} {slot : ℕ} (hf : f.term = some slot)
    (hro : s.channelReadOnly slot = true ∨ ∃ o, f = .openSlot o) : Silent s (s.handle f) := by
  have hreadOnly : ∀ ch, s.channels slot = some ch → (∀ o, f ≠ .openSlot o) →
      ch.readOnly = true := by
    intro ch hch hopen
    obtain hro | ⟨o, ho⟩ := hro
    · simpa [Mux.channelReadOnly, hch] using hro
    · exact absurd ho (hopen o)
  cases f with
  | binary bytes =>
    cases bytes with
    | nil => cases hf
    | cons b bytes =>
      obtain rfl : b.toNat = slot := Option.some.inj hf
      simp only [Mux.handle]
      split
      · exact .refl s
      · next ch hch =>
        rw [if_pos (hreadOnly ch hch (by simp))]
        exact .refl s
  | resize term cols rows =>
    obtain rfl : term = slot := Option.some.inj hf
    simp only [Mux.handle]
    split
    · exact .refl s
    · next ch hch =>
      rw [if_pos (hreadOnly ch hch (by simp))]
      exact .refl s
  | mode term ro =>
    simp only [Mux.handle]
    split <;> exact .refl s
  | openSlot o => exact .refl s
  | close term => exact .refl s
  | malformed => cases hf

/-- The resize of an attach, whether the open was read-only or not. -/
theorem silent_resizePty_iff (hs : muxSystem.Reachable s)
    (hstep : muxStep s .resizePty = some s') : Silent s s' ↔ ¬ ResizeQueued s .resizePty := by
  have hinv := muxInv_of_reachable hs
  obtain ⟨o, wasReadOnly, epoch, spawned, hphase, rfl⟩ := muxStep_resizePty hstep
  obtain ⟨term, hterm, _⟩ := hinv.phase o epoch (by rw [hphase]; rfl) (by rw [hphase]; rfl)
  have hqueued : ResizeQueued s .resizePty ↔ term.queue.Accepts := by
    rw [accepts_iff_not_takesNone hs hterm]
    constructor
    · rintro ⟨_, e, t, he, ht, hno⟩
      obtain rfl : epoch = e := by simpa [hphase, Phase.epoch] using he
      obtain rfl := Option.some.inj (hterm.symm.trans ht)
      exact hno
    · exact fun hno => ⟨rfl, epoch, term, by rw [hphase]; rfl, hterm, hno⟩
  rw [Mux.offer_terminals hterm, hqueued]
  refine (silent_setTerminal hterm).trans ⟨fun hu hacc => not_untouched_resize hacc _ _ hu, ?_⟩
  intro hno
  rw [SyncChannel.offer_of_not_accepts hno]
  exact .refl term

/-- **A read-only channel cannot act on the shell**, except by the resize of an attach. -/
theorem silent_iff_not_resizeQueued (hs : muxSystem.Reachable s) {a : Act} (hro : ReadOnlyStep s a)
    (hstep : muxStep s a = some s') : Silent s s' ↔ ¬ ResizeQueued s a := by
  have hsilent : a ≠ .resizePty → Silent s s' → (Silent s s' ↔ ¬ ResizeQueued s a) :=
    fun hne h => iff_of_true h fun hq => hne hq.1
  cases a with
  | resizePty => exact silent_resizePty_iff hs hstep
  | frame f =>
    obtain ⟨slot, hf, hor⟩ := hro
    obtain ⟨_, _, rfl⟩ := muxStep_frame hstep
    exact hsilent nofun (silent_handle hf (hor.imp_right fun ⟨o, ho, _⟩ => ⟨o, ho⟩))
  | attach spawns =>
    obtain ⟨o, _, _, _, rfl, _⟩ := muxStep_attach hstep
    exact hsilent nofun (silent_attach (muxInv_of_reachable hs) o.term _ _ spawns)
  | queueHello =>
    obtain ⟨o, epoch, _, rfl⟩ := muxStep_queueHello hstep
    refine hsilent nofun ?_
    split <;> exact Silent.refl s
  | queueReplay =>
    obtain ⟨o, epoch, _, rfl⟩ := muxStep_queueReplay hstep
    refine hsilent nofun ?_
    split <;> exact Silent.refl s
  | queueRefusal =>
    obtain ⟨o, _, rfl⟩ := muxStep_queueRefusal hstep
    refine hsilent nofun ?_
    split <;> exact Silent.refl s
  | _ => cases hro

end

/-! ## A read-only open -/

/-- The shell in slot 0 runs at 80 columns, and a read-only open with 40 columns attaches. -/
def viewRun : List Act :=
  openRun 0 ++ [.take 0, .frame (.openSlot ⟨0, 40, 10, true⟩), .attach true]

/-- What the resize does to that shell. -/
theorem silent_iff_not_resizeQueued_viewRun :
    ∃ s s', muxSystem.run (emptyMux 4) viewRun = some s ∧ muxStep s .resizePty = some s' ∧
      (Silent s s' ↔ ¬ ResizeQueued s .resizePty) := by
  have hrun : (muxSystem.run (emptyMux 4) viewRun).map Mux.phase =
      some (.resizing ⟨0, 40, 10, true⟩ false 0 false) := by decide
  have hnext : ((muxSystem.run (emptyMux 4) viewRun).bind fun s =>
      muxStep s .resizePty).isSome := by decide
  obtain ⟨s, hs, hphase⟩ := Option.map_eq_some_iff.mp hrun
  obtain ⟨s', hs'⟩ := Option.isSome_iff_exists.mp hnext
  rw [hs, Option.bind_some] at hs'
  have hempty : muxSystem.Reachable (emptyMux 4) := .init ⟨4, rfl⟩
  have hreach := System.Reachable.run hempty hs
  refine ⟨s, s', hs, hs', silent_iff_not_resizeQueued hreach ?_ hs'⟩
  exact ⟨_, _, _, _, hphase, .inr ⟨rfl, rfl⟩⟩

/-- A read-only open of a running slot resizes its PTY. -/
theorem read_only_open_resizes :
    ¬ ∀ s s' a, muxSystem.Reachable s → ReadOnlyStep s a → muxStep s a = some s' →
      Silent s s' := by
  intro h
  have hrun : (muxSystem.run (emptyMux 4) viewRun).map
      (fun s => (s.phase, (s.terminals 0).map Terminal.commands)) =
      some (.resizing ⟨0, 40, 10, true⟩ false 0 false, some []) := by decide
  have hnext : ((muxSystem.run (emptyMux 4) viewRun).bind fun s => muxStep s .resizePty).map
      (fun s => (s.terminals 0).map Terminal.commands) = some (some [.resize 40 10]) := by decide
  obtain ⟨s, hs, hstate⟩ := Option.map_eq_some_iff.mp hrun
  obtain ⟨s', hs', hqueued⟩ := Option.map_eq_some_iff.mp hnext
  rw [hs, Option.bind_some] at hs'
  obtain ⟨hphase, hbefore⟩ := Prod.mk.inj hstate
  have hempty : muxSystem.Reachable (emptyMux 4) := .init ⟨4, rfl⟩
  have hsilent := h s s' .resizePty (System.Reachable.run hempty hs)
    ⟨_, _, _, _, hphase, .inr ⟨rfl, rfl⟩⟩ hs'
  obtain ⟨term, hterm, hcommands⟩ := Option.map_eq_some_iff.mp hbefore
  obtain ⟨term', hterm', hu⟩ := hsilent 0 term hterm
  rw [hterm', Option.map_some, Option.some.injEq, hu.commands, hcommands] at hqueued
  cases hqueued

end Webshell.MuxBridge
