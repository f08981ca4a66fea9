import Webshell.Pty.Mux

/-!
# One slot's trouble

What a frame addressed to one slot does to the connection and to the other slots.

## Main definitions

- `Contained`: the connection stays up and every other slot is as it was
- `StrayInput`: input for a terminal that takes none, although the slot's shell is not a live one
  whose queue is full

## Main results

- `contained_iff_not_strayInput`: a frame is contained, or its slot's shell is alive and full,
  exactly when it is not stray input
- `stray_input_ends_connection`: input after the shell's exit
-/

namespace Webshell.MuxBridge

open Transition

/-! ## Containment -/

/-- Nothing of the slot has changed: its channel, what is in it, and the terminals spawned for
it. -/
structure Unaffected (slot : ℕ) (s s' : Mux) : Prop where
  channel : s'.channels slot = s.channels slot
  held : s'.slots slot = s.slots slot
  terminals : ∀ epoch term, s.terminals epoch = some term → term.slot = slot →
    s'.terminals epoch = some term

/-- Every slot but this one is unaffected. -/
def Confined (slot : ℕ) (s s' : Mux) : Prop := ∀ u, u ≠ slot → Unaffected u s s'

/-- The connection stays up, and every slot but this one is unaffected. -/
def Contained (slot : ℕ) (s s' : Mux) : Prop := s'.Up ∧ Confined slot s s'

/-- The step is part of handling a frame addressed to the slot. -/
def Handles (s : Mux) (slot : ℕ) : Act → Prop
  | .frame f => f.term = some slot
  | .attach _ | .resizePty | .queueHello | .queueReplay | .queueRefusal =>
    ∃ o, s.phase.opening = some o ∧ o.term = slot
  | _ => False

/-- The slot's shell is alive and its input queue is full. -/
def ShellFull (s : Mux) (slot : ℕ) : Prop :=
  ∃ epoch term, s.slots slot = some epoch ∧ s.terminals epoch = some term ∧ term.alive = true ∧
    term.queue.items.length = 128

/-- The command thread is gone, or the queue it takes from is full. -/
def Terminal.TakesNone (term : Terminal) : Prop :=
  term.thread = .ended ∨ term.queue.items.length = 128

/-- Input for an open channel that is not read-only, whose terminal takes none, although the
slot's shell is not a live one with a full queue. -/
def StrayInput (s : Mux) (slot : ℕ) (a : Act) : Prop :=
  ∃ b bytes ch term, a = .frame (.binary (b :: bytes)) ∧ b.toNat = slot ∧
    s.channels slot = some ch ∧ ch.readOnly = false ∧ s.terminals ch.epoch = some term ∧
    term.TakesNone ∧ ¬ ShellFull s slot

/-! ## The queue and its receiver -/

/-- The queue is connected as long as the command thread has not ended. -/
def Terminal.Attended (term : Terminal) : Prop :=
  term.queue.connected = true ↔ term.thread ≠ .ended

theorem kept_attended : Kept Terminal.Attended where
  spawn _ _ _ := ⟨fun _ => nofun, fun _ => rfl⟩
  send term cmd queue h hsend := by
    change queue.connected = true ↔ term.thread ≠ .ended
    rw [(SyncChannel.trySend_eq_ok hsend).2.2]
    exact h
  step term term' h hstep := by
    cases hstep with
    | exit => exact h
    | nudge => simpa [Terminal.Attended] using h
    | take cmd queue hthread hrecv =>
      have hconn : queue.connected = true := by
        rw [(SyncChannel.recv_eq_some hrecv).2]
        exact h.mpr (by rw [hthread]; exact nofun)
      cases cmd <;> simp [Terminal.Attended, Terminal.obey, hconn, hthread]
    | wrote bytes hthread => simpa [Terminal.Attended, hthread] using h
    | failed bytes hthread => simpa [Terminal.Attended, hthread] using h
    | reap hthread => simp [Terminal.Attended, SyncChannel.disconnect]
    | send cmd => simpa [Terminal.Attended] using h

/-- In a run, the queue of a terminal refuses a send when its command thread has ended or the
queue is full. -/
theorem accepts_iff_not_takesNone {s : Mux} (hs : muxSystem.Reachable s) {epoch : ℕ}
    {term : Terminal} (hterm : s.terminals epoch = some term) :
    term.queue.Accepts ↔ ¬ term.TakesNone := by
  have hattended : term.queue.connected = true ↔ term.thread ≠ .ended :=
    kept_attended.reachable hs epoch term hterm
  have hle := term.queue.length_le
  rw [SyncChannel.Accepts, hattended, Terminal.TakesNone, not_or]
  exact and_congr_right fun _ => ⟨fun hlt => hlt.ne, fun hne => hle.lt_of_ne hne⟩

/-! ## Steps that are confined to a slot -/

section
variable {s s' s'' : Mux} {slot : ℕ}

theorem Confined.refl (slot : ℕ) (s : Mux) : Confined slot s s :=
  fun _ _ => ⟨rfl, rfl, fun _ _ ht _ => ht⟩

theorem Confined.trans (h : Confined slot s s') (h' : Confined slot s' s'') :
    Confined slot s s'' := by
  intro u hu
  refine ⟨(h' u hu).channel.trans (h u hu).channel, (h' u hu).held.trans (h u hu).held, ?_⟩
  exact fun epoch term ht hslot =>
    (h' u hu).terminals epoch term ((h u hu).terminals epoch term ht hslot) hslot

theorem confined_setTerminal {epoch : ℕ} (hold : s.Holds epoch slot) (term' : Terminal) :
    Confined slot s (s.setTerminal epoch term') := by
  obtain ⟨term, hterm, hslot⟩ := hold
  refine fun u hu => ⟨rfl, rfl, fun e t ht htu => ?_⟩
  have hne : e ≠ epoch := by
    rintro rfl
    rw [hterm] at ht
    obtain rfl := Option.some.inj ht
    exact hu (htu.symm.trans hslot)
  exact (Function.update_of_ne hne ..).trans ht

theorem confined_offer {epoch : ℕ} (hold : s.Holds epoch slot) (cmd : PtyCmd) :
    Confined slot s (s.offer epoch cmd) := by
  have hsome := hold
  obtain ⟨term, hterm, _⟩ := hsome
  rw [Mux.offer_terminals hterm]
  exact confined_setTerminal hold _

theorem confined_setChannel (s : Mux) (slot : ℕ) (ch : Option Channel) :
    Confined slot s { s with channels := Function.update s.channels slot ch } :=
  fun _ hu => ⟨Function.update_of_ne hu .., rfl, fun _ _ ht _ => ht⟩

theorem confined_setSlot (s : Mux) (slot : ℕ) (epoch : Option ℕ) :
    Confined slot s { s with slots := Function.update s.slots slot epoch } :=
  fun _ hu => ⟨rfl, Function.update_of_ne hu .., fun _ _ ht _ => ht⟩

theorem Confined.setPhase (h : Confined slot s s') (phase : Phase) :
    Confined slot s { s' with phase := phase } :=
  fun u hu => ⟨(h u hu).channel, (h u hu).held, (h u hu).terminals⟩

theorem confined_takeSlot (hinv : MuxInv s) (slot : ℕ) : Confined slot s (s.takeSlot slot) := by
  rw [Mux.takeSlot]
  split
  · exact .refl slot s
  · next epoch hslot =>
    have hclear := confined_setSlot (s.offer epoch .kill) slot none
    rw [Mux.offer_slots] at hclear
    exact (confined_offer (hinv.slots slot epoch hslot) .kill).trans hclear

theorem confined_putSlot (hinv : MuxInv s) (slot cols rows : ℕ) :
    Confined slot s (s.putSlot slot cols rows) := by
  refine fun u hu => ⟨rfl, Function.update_of_ne hu .., fun epoch term ht _ => ?_⟩
  have hne : epoch ≠ s.nextEpoch := (hinv.numbered epoch _ ⟨term, ht, rfl⟩).ne
  exact (Function.update_of_ne hne ..).trans ht

theorem confined_attach (hinv : MuxInv s) (slot cols rows : ℕ) (spawns : Bool) :
    Confined slot s (s.attach slot cols rows spawns).1 := by
  obtain heq | ⟨epoch, _, heq⟩ | ⟨_, heq⟩ | ⟨_, heq⟩ := s.attach_cases slot cols rows spawns
  · exact heq ▸ .refl slot s
  · exact heq ▸ .refl slot s
  · exact heq ▸ confined_takeSlot hinv slot
  · exact heq ▸ (confined_takeSlot hinv slot).trans
      (confined_putSlot (hinv.takeSlot slot) slot cols rows)

end

section
variable {s : Mux}

theorem up_offer (hup : s.Up) (epoch : ℕ) (cmd : PtyCmd) : (s.offer epoch cmd).Up := by
  simpa [Mux.Up] using hup

theorem up_attach (hup : s.Up) (slot cols rows : ℕ) (spawns : Bool) :
    (s.attach slot cols rows spawns).1.Up := by
  have htake : (s.takeSlot slot).Up := by
    rw [Mux.takeSlot]
    split
    · exact hup
    · exact up_offer hup _ .kill
  obtain heq | ⟨epoch, _, heq⟩ | ⟨_, heq⟩ | ⟨_, heq⟩ := s.attach_cases slot cols rows spawns
  · exact heq ▸ hup
  · exact heq ▸ hup
  · exact heq ▸ htake
  · exact heq ▸ htake

end

/-! ## Frames -/

section
variable {s s' : Mux} {slot : ℕ}

theorem sendInput_of_accepts {epoch : ℕ} {term : Terminal} (hterm : s.terminals epoch = some term)
    (hacc : term.queue.Accepts) (bytes : List UInt8) :
    s.sendInput epoch bytes = s.offer epoch (.input bytes) := by
  obtain ⟨queue, hqueue, _⟩ := SyncChannel.trySend_of_accepts (a := PtyCmd.input bytes) hacc
  rw [Mux.sendInput, Mux.offer_terminals hterm, hterm]
  simp only [hqueue, SyncChannel.offer]

theorem sendInput_of_not_accepts {epoch : ℕ} {term : Terminal}
    (hterm : s.terminals epoch = some term) (hno : ¬ term.queue.Accepts) (bytes : List UInt8) :
    s.sendInput epoch bytes = s.leave := by
  obtain ⟨e, he⟩ := SyncChannel.trySend_of_not_accepts (a := PtyCmd.input bytes) hno
  rw [Mux.sendInput, hterm]
  simp only [he]

/-- A frame other than input that is refused. -/
theorem contained_handle (hinv : MuxInv s) (hup : s.Up) {f : Frame} (hf : f.term = some slot)
    (hacc : ∀ b bytes ch term, f = .binary (b :: bytes) → s.channels slot = some ch →
      ch.readOnly = false → s.terminals ch.epoch = some term → term.queue.Accepts) :
    Contained slot s (s.handle f) := by
  cases f with
  | binary bytes =>
    cases bytes with
    | nil => cases hf
    | cons b bytes =>
      obtain rfl : b.toNat = slot := Option.some.inj hf
      simp only [Mux.handle]
      split
      · exact ⟨hup, .refl _ s⟩
      · next ch hch =>
        split
        · exact ⟨hup, .refl _ s⟩
        · next hro =>
          have hold := hinv.channels _ ch hch
          obtain ⟨term, hterm, _⟩ := hinv.channels _ ch hch
          have haccepts := hacc b bytes ch term rfl hch (Bool.eq_false_iff.mpr hro) hterm
          rw [sendInput_of_accepts hterm haccepts]
          exact ⟨up_offer hup _ _, confined_offer hold _⟩
  | openSlot o =>
    obtain rfl : o.term = slot := Option.some.inj hf
    exact ⟨hup, (confined_setChannel s o.term none).setPhase _⟩
  | resize term cols rows =>
    obtain rfl : term = slot := Option.some.inj hf
    simp only [Mux.handle]
    split
    · exact ⟨hup, .refl _ s⟩
    · next ch hch =>
      split
      · exact ⟨hup, .refl _ s⟩
      · exact ⟨up_offer hup _ _, confined_offer (hinv.channels _ ch hch) _⟩
  | mode term ro =>
    obtain rfl : term = slot := Option.some.inj hf
    simp only [Mux.handle]
    split
    · exact ⟨hup, .refl _ s⟩
    · exact ⟨hup, confined_setChannel s term _⟩
  | close term =>
    obtain rfl : term = slot := Option.some.inj hf
    exact ⟨hup, confined_setChannel s term none⟩
  | malformed => cases hf

/-- The later parts of an open. -/
theorem contained_opening (hinv : MuxInv s) (hup : s.Up) {a : Act} (hframe : ∀ f, a ≠ .frame f)
    (hhandles : Handles s slot a) (hstep : muxStep s a = some s') : Contained slot s s' := by
  cases a with
  | frame f => exact absurd rfl (hframe f)
  | attach spawns =>
    obtain ⟨o, ho, rfl⟩ := hhandles
    obtain ⟨o', wasReadOnly, phase, hphase, rfl, _⟩ := muxStep_attach hstep
    obtain rfl : o' = o := by simpa [hphase, Phase.opening] using ho
    exact ⟨up_attach hup o'.term _ _ spawns, (confined_attach hinv o'.term _ _ spawns).setPhase _⟩
  | resizePty =>
    obtain ⟨o, ho, rfl⟩ := hhandles
    obtain ⟨o', wasReadOnly, epoch, spawned, hphase, rfl⟩ := muxStep_resizePty hstep
    obtain rfl : o' = o := by simpa [hphase, Phase.opening] using ho
    have hold := hinv.phase o' epoch ho (by rw [hphase]; rfl)
    exact ⟨up_offer hup epoch _, (confined_offer hold _).setPhase _⟩
  | queueHello =>
    obtain ⟨o, epoch, hphase, rfl⟩ := muxStep_queueHello hstep
    rw [if_pos hup.2]
    exact ⟨hup, (Confined.refl _ s).setPhase _⟩
  | queueReplay =>
    obtain ⟨o, ho, rfl⟩ := hhandles
    obtain ⟨o', epoch, hphase, rfl⟩ := muxStep_queueReplay hstep
    obtain rfl : o' = o := by simpa [hphase, Phase.opening] using ho
    rw [if_pos hup.2]
    exact ⟨hup, (confined_setChannel s o'.term _).setPhase _⟩
  | queueRefusal =>
    obtain ⟨o, hphase, rfl⟩ := muxStep_queueRefusal hstep
    rw [if_pos hup.2]
    exact ⟨hup, (Confined.refl _ s).setPhase _⟩
  | _ => cases hhandles

/-- **One slot's trouble** stays with that slot, unless its shell is alive and full, exactly when
the frame is not stray input. -/
theorem contained_iff_not_strayInput (hs : muxSystem.Reachable s) (hup : s.Up) {a : Act}
    (hhandles : Handles s slot a) (hstep : muxStep s a = some s') :
    ShellFull s slot ∨ Contained slot s s' ↔ ¬ StrayInput s slot a := by
  have hinv := muxInv_of_reachable hs
  constructor
  · rintro hor ⟨b, bytes, ch, term, rfl, rfl, hch, hro, hterm, hnone, hnotfull⟩
    have hno : ¬ term.queue.Accepts := fun hacc =>
      (accepts_iff_not_takesNone hs hterm).mp hacc hnone
    obtain ⟨_, _, rfl⟩ := muxStep_frame hstep
    obtain hfull | hcont := hor
    · exact hnotfull hfull
    · have hlooping := hcont.1.1
      simp [Mux.handle, hch, hro, sendInput_of_not_accepts hterm hno, Mux.leave] at hlooping
  · intro hstray
    by_cases hfull : ShellFull s slot
    · exact .inl hfull
    · refine .inr ?_
      cases a with
      | frame f =>
        obtain ⟨_, _, rfl⟩ := muxStep_frame hstep
        refine contained_handle hinv hup hhandles fun b bytes ch term hf hch hro hterm => ?_
        subst hf
        refine (accepts_iff_not_takesNone hs hterm).mpr fun hnone => hstray ?_
        exact ⟨b, bytes, ch, term, rfl, Option.some.inj hhandles, hch, hro, hterm, hnone, hfull⟩
      | _ =>
        refine contained_opening hinv hup (fun f hf => ?_) hhandles hstep
        cases hf

end

/-! ## Input after the shell's exit -/

/-- An open of a slot whose shell is spawned. -/
def openRun (slot : ℕ) : List Act :=
  [.frame (.openSlot ⟨slot, 80, 24, false⟩), .attach true, .resizePty, .queueHello, .queueReplay]

/-- Two open channels; the shell in slot 0 exits, its command thread takes the reader thread's
`Kill` and ends, and the forward task has sent its closed frame. -/
def exitRun : List Act :=
  openRun 1 ++ openRun 0 ++
    [.exit 1, .nudge 1, .take 1, .take 1, .reap 1, .forwardEnds 0]

/-- The letter `a`, typed in a slot. -/
def typed (slot : UInt8) : Act := .frame (.binary [slot, 97])

theorem ShellFull.live_ne_none {s : Mux} {slot : ℕ} (h : ShellFull s slot) :
    s.live slot ≠ none := by
  obtain ⟨epoch, term, hslot, hterm, halive, _⟩ := h
  simp [Mux.live, hslot, hterm, halive]

/-- Input for the shell that has exited, and for the other one. -/
theorem contained_iff_not_strayInput_typed :
    ∃ s, muxSystem.run (emptyMux 4) exitRun = some s ∧ ∀ slot ∈ ([0, 1] : List UInt8),
      ∃ s', muxStep s (typed slot) = some s' ∧
        (ShellFull s slot.toNat ∨ Contained slot.toNat s s' ↔
          ¬ StrayInput s slot.toNat (typed slot)) := by
  have hrun : (muxSystem.run (emptyMux 4) exitRun).map (fun s => (s.looping, s.writer)) =
      some (true, true) := by decide
  have hzero : ((muxSystem.run (emptyMux 4) exitRun).bind fun s =>
      muxStep s (typed 0)).isSome = true := by decide
  have hone : ((muxSystem.run (emptyMux 4) exitRun).bind fun s =>
      muxStep s (typed 1)).isSome = true := by decide
  obtain ⟨s, hs, hup⟩ := Option.map_eq_some_iff.mp hrun
  have hempty : muxSystem.Reachable (emptyMux 4) := .init ⟨4, rfl⟩
  have hreach := System.Reachable.run hempty hs
  have hupBoth : s.Up := ⟨congrArg Prod.fst hup, congrArg Prod.snd hup⟩
  refine ⟨s, hs, fun slot hslot => ?_⟩
  have hnext : (muxStep s (typed slot)).isSome = true := by
    rw [hs, Option.bind_some] at hzero hone
    obtain rfl | rfl := (List.mem_pair).mp hslot
    · exact hzero
    · exact hone
  obtain ⟨s', hs'⟩ := Option.isSome_iff_exists.mp hnext
  exact ⟨s', hs', contained_iff_not_strayInput hreach hupBoth rfl hs'⟩

/-- Input for a channel whose shell has exited takes the connection down. -/
theorem stray_input_ends_connection :
    ¬ ∀ s s' slot a, muxSystem.Reachable s → s.Up → Handles s slot a → muxStep s a = some s' →
      ShellFull s slot ∨ Contained slot s s' := by
  intro h
  have hrun : (muxSystem.run (emptyMux 4) exitRun).map (fun s => (s.looping, s.writer, s.live 0)) =
      some (true, true, none) := by decide
  have hnext :
      ((muxSystem.run (emptyMux 4) exitRun).bind fun s => muxStep s (typed 0)).map Mux.looping =
        some false := by decide
  obtain ⟨s, hs, hstate⟩ := Option.map_eq_some_iff.mp hrun
  obtain ⟨s', hs', hdown⟩ := Option.map_eq_some_iff.mp hnext
  rw [hs, Option.bind_some] at hs'
  obtain ⟨hlooping, hwriter, hlive⟩ : s.looping = true ∧ s.writer = true ∧ s.live 0 = none := by
    simpa using hstate
  have hempty : muxSystem.Reachable (emptyMux 4) := .init ⟨4, rfl⟩
  obtain hfull | hcont :=
    h s s' 0 (typed 0) (System.Reachable.run hempty hs) ⟨hlooping, hwriter⟩ rfl hs'
  · exact hfull.live_ne_none hlive
  · rw [hcont.1.1] at hdown
    cases hdown

end Webshell.MuxBridge
