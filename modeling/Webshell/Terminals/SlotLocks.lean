import Webshell.Terminals.PoolSteps

/-!
# The locks of the slots

Which shell a slot holds, and which ones the calls hold: a shell that neither has exited nor was
told to stop is the occupant of its slot, or in the hands of the call that has its lock, or of a
reset that has taken it out.

## Main definitions

- `Phase.Sound`: what the phase of a call says about its slot
- `State.Kept`: the terminal is in a slot, or in the hands of a call
- `SlotInv`: locks, occupants and calls agree, and no live shell is lost

## Main results

- `slotInv_of_reachable`: this holds in every run
-/

namespace Webshell.Terminals

open Transition
open MuxBridge (PtyCmd)

section
variable {P : Type}

/-- The terminal was spawned for the slot of the call. -/
def State.Spawned (s : State P) (t : ℕ) (call : Call) : Prop :=
  ∃ term, s.terminals[t]? = some term ∧ term.slot = (call.user, call.index)

/-- What the phase of a call says about its slot. -/
def Phase.Sound (s : State P) (c : ℕ) (call : Call) : Phase → Prop
  | .outside => True
  | .checking => (∃ o, s.slotAt call.user call.index = some ⟨some c, o⟩) ∧ call.op.isAttach = true
  | .viewing => ∃ o, s.slotAt call.user call.index = some ⟨some c, o⟩
  | .stopping t => s.slotAt call.user call.index = some ⟨some c, none⟩ ∧ s.Spawned t call ∧
      call.op.isAttach = true
  | .vacant => s.slotAt call.user call.index = some ⟨some c, none⟩ ∧ call.op.isAttach = true
  | .holding t => s.slotAt call.user call.index = some ⟨some c, none⟩ ∧ s.Spawned t call ∧
      call.op.isAttach = true
  | .attaching t => s.slotAt call.user call.index = some ⟨some c, some t⟩
  | .resetting t => s.Spawned t call ∧ call.op = .reset
  | .ended => True

/-- The terminal a call has in its hands, out of any slot. -/
def Phase.held : Phase → Option ℕ
  | .stopping t => some t
  | .holding t => some t
  | .resetting t => some t
  | _ => none

/-- The terminal is in a slot, or in the hands of a call. -/
def State.Kept (s : State P) (t : ℕ) : Prop :=
  (∃ user i holder, s.slotAt user i = some ⟨holder, some t⟩) ∨
    ∃ c call, s.calls c = some call ∧ call.pc.phase.held = some t

/-- What every run keeps. -/
structure SlotInv (s : State P) : Prop where
  holder : ∀ user i c o, s.slotAt user i = some ⟨some c, o⟩ →
    ∃ call, s.calls c = some call ∧ call.pc.phase.locked = true ∧ call.user = user ∧
      call.index = i
  occupant : ∀ user i holder t, s.slotAt user i = some ⟨holder, some t⟩ →
    ∃ term, s.terminals[t]? = some term ∧ term.slot = (user, i)
  sound : ∀ c call, s.calls c = some call → call.pc.phase.Sound s c call
  kept : ∀ t term, s.terminals[t]? = some term → term.exited = false →
    (∀ c, .stopped c t ∉ s.history) → s.Kept t

variable {s s' : State P} {c : ℕ} {call : Call}

/-- A call that has the lock of its slot. -/
theorem Phase.Sound.slotAt {phase : Phase} (h : phase.Sound s c call)
    (hlocked : phase.locked = true) :
    ∃ o, s.slotAt call.user call.index = some ⟨some c, o⟩ := by
  cases phase with
  | checking => exact h.1
  | viewing => exact h
  | stopping t => exact ⟨none, h.1⟩
  | vacant => exact ⟨none, h.1⟩
  | holding t => exact ⟨none, h.1⟩
  | attaching t => exact ⟨some t, h⟩
  | outside | resetting t | ended => cases hlocked

/-- What a call says about its slot stays true while the slot, as long as the call holds it, and
the terminal's slot stay the same. -/
theorem Phase.Sound.mono {phase : Phase} (h : phase.Sound s c call)
    (hslot : ∀ o, s.slotAt call.user call.index = some ⟨some c, o⟩ →
      s'.slotAt call.user call.index = some ⟨some c, o⟩)
    (hterm : ∀ t, s.Spawned t call → s'.Spawned t call) : phase.Sound s' c call := by
  cases phase with
  | outside => trivial
  | checking => exact ⟨h.1.imp hslot, h.2⟩
  | viewing => exact h.imp hslot
  | stopping t => exact ⟨hslot none h.1, hterm t h.2.1, h.2.2⟩
  | vacant => exact ⟨hslot none h.1, h.2⟩
  | holding t => exact ⟨hslot none h.1, hterm t h.2.1, h.2.2⟩
  | attaching t => exact hslot (some t) h
  | resetting t => exact ⟨hterm t h.1, h.2⟩
  | ended => trivial

theorem slotAt_after_none (s : State P) (c : ℕ) (call : Call) (pc : Pc)
    (terminals : List (Terminal P)) (events : List Event) (user : String) (i : ℕ) :
    (s.after c call pc none terminals events).slotAt user i = s.slotAt user i := rfl

theorem slotAt_after_some (hp : PoolInv s) (hcall : s.calls c = some call) {old : Slot}
    (hslot : s.slotOf call = some old) (pc : Pc) (slot : Slot) (terminals : List (Terminal P))
    (events : List Event) (user : String) (i : ℕ) :
    (s.after c call pc (some slot) terminals events).slotAt user i =
      if user = call.user ∧ i = call.index then some slot else s.slotAt user i :=
  hp.slotAt_setSlotOf hcall hslot slot user i

/-- What a step of a call that has its pool keeps, whatever it does with its own slot. -/
theorem SlotInv.after (h : SlotInv s) (hp : PoolInv s) (hcall : s.calls c = some call) {pc : Pc}
    {slot : Option Slot} {terminals : List (Terminal P)} {events : List Event}
    (hs' : s' = s.after c call pc slot terminals events)
    (hterms : ∀ (t : ℕ) (term : Terminal P), s.terminals[t]? = some term →
      ∃ term', terminals[t]? = some term' ∧ term.Later term')
    (hslot : ∀ new, slot = some new → ∃ old, s.slotOf call = some old ∧
      (old.holder = none ∨ old.holder = some c) ∧ (new.holder = none ∨ new.holder = some c))
    (hholder : ∀ o, s'.slotAt call.user call.index = some ⟨some c, o⟩ → pc.phase.locked = true)
    (hoccupant : ∀ new t, slot = some new → new.occupant = some t → s'.Spawned t call)
    (hsound : pc.phase.Sound s' c { call with pc := pc })
    (hout : ∀ new old t, slot = some new → s.slotOf call = some old → old.occupant = some t →
      new.occupant = some t ∨ pc.phase.held = some t)
    (hheld : ∀ t, call.pc.phase.held = some t → pc.phase.held = some t ∨
      (∃ new, slot = some new ∧ new.occupant = some t) ∨ .stopped c t ∈ events ∨
      ∃ term, s.terminals[t]? = some term ∧ term.exited = true)
    (hnew : ∀ t, s.terminals[t]? = none → terminals[t]? ≠ none → pc.phase.held = some t) :
    SlotInv s' := by
  have hcalls : ∀ c' call', s'.calls c' = some call' →
      (c' = c ∧ call' = { call with pc := pc }) ∨ (c' ≠ c ∧ s.calls c' = some call') := by
    intro c' call' hc'
    rw [hs'] at hc'
    by_cases hne : c' = c
    · subst hne
      exact .inl ⟨rfl, by simpa [State.after] using hc'.symm⟩
    · exact .inr ⟨hne, (Function.update_of_ne hne ..).symm.trans hc'⟩
  have hself : s'.calls c = some { call with pc := pc } := by
    rw [hs']
    exact Function.update_self ..
  have hother : ∀ c' call', c' ≠ c → s.calls c' = some call' → s'.calls c' = some call' := by
    intro c' call' hne hc'
    rw [hs']
    exact (Function.update_of_ne hne ..).trans hc'
  -- a slot is the one the step changes, or as it was
  have hslots : ∀ user i x, s'.slotAt user i = some x →
      (∃ new, slot = some new ∧ x = new ∧ user = call.user ∧ i = call.index) ∨
        s.slotAt user i = some x := by
    intro user i x hx
    cases hnewslot : slot with
    | none =>
      rw [hs', hnewslot, slotAt_after_none] at hx
      exact .inr hx
    | some new =>
      obtain ⟨old, hold, _⟩ := hslot new hnewslot
      rw [hs', hnewslot, slotAt_after_some hp hcall hold] at hx
      split at hx
      next hsame => exact .inl ⟨new, rfl, (Option.some.inj hx).symm, hsame.1, hsame.2⟩
      next => exact .inr hx
  have hkeeps : ∀ user i x, s.slotAt user i = some x →
      s'.slotAt user i = some x ∨ ∃ new, slot = some new ∧ s.slotOf call = some x ∧
        s'.slotAt user i = some new := by
    intro user i x hx
    cases hnewslot : slot with
    | none =>
      rw [hs', hnewslot, slotAt_after_none]
      exact .inl hx
    | some new =>
      obtain ⟨old, hold, _⟩ := hslot new hnewslot
      rw [hs', hnewslot, slotAt_after_some hp hcall hold]
      split
      next hsame =>
        have holdAt := hp.slotAt_of_slotOf hcall hold
        rw [← hsame.1, ← hsame.2, hx] at holdAt
        exact .inr ⟨new, rfl, holdAt ▸ hold, rfl⟩
      next => exact .inl hx
  have hspawned : ∀ t call', s.Spawned t call' → s'.Spawned t call' := by
    rintro t call' ⟨term, hterm, hfor⟩
    obtain ⟨term', hterm', hlater⟩ := hterms t term hterm
    exact ⟨term', by rw [hs']; exact hterm', hlater.slot.trans hfor⟩
  have hterminals : s'.terminals = terminals := by
    rw [hs']
    rfl
  have hhistory : s'.history = s.history ++ events := by
    rw [hs']
    rfl
  refine ⟨fun user i c' o hx => ?_, fun user i holder t hx => ?_, fun c' call' hc' => ?_,
    fun t term hterm hexited hstopped => ?_⟩
  · by_cases hc' : c' = c
    · subst hc'
      have hown : user = call.user ∧ i = call.index := by
        obtain ⟨new, _, _, hu, hi⟩ | hold := hslots user i _ hx
        · exact ⟨hu, hi⟩
        · obtain ⟨call', hcall', _, hu, hi⟩ := h.holder user i c' o hold
          obtain rfl := Option.some.inj (hcall.symm.trans hcall')
          exact ⟨hu.symm, hi.symm⟩
      obtain ⟨rfl, rfl⟩ := hown
      exact ⟨_, hself, hholder o hx, rfl, rfl⟩
    · have hold : s.slotAt user i = some ⟨some c', o⟩ := by
        obtain ⟨new, hnewslot, rfl, _⟩ | hold := hslots user i _ hx
        · obtain ⟨_, _, _, hnone | hown⟩ := hslot _ hnewslot
          · cases hnone
          · exact absurd (Option.some.inj hown) hc'
        · exact hold
      obtain ⟨call', hcall', hlocked, hu, hi⟩ := h.holder user i c' o hold
      exact ⟨call', hother c' call' hc' hcall', hlocked, hu, hi⟩
  · obtain ⟨new, hnewslot, hx', rfl, rfl⟩ | hold := hslots user i _ hx
    · exact hoccupant new t hnewslot (by rw [← hx'])
    · obtain ⟨term, hterm, hfor⟩ := h.occupant user i holder t hold
      obtain ⟨term', hterm', hlater⟩ := hterms t term hterm
      exact ⟨term', hterminals ▸ hterm', hlater.slot.trans hfor⟩
  · obtain ⟨rfl, rfl⟩ | ⟨hne, hc'⟩ := hcalls c' call' hc'
    · exact hsound
    · refine (h.sound c' call' hc').mono (fun o ho => ?_) fun t => hspawned t call'
      obtain hsame | ⟨new, hnewslot, hold, _⟩ := hkeeps _ _ _ ho
      · exact hsame
      -- the slot that changes is free or held by the call that takes the step
      · obtain ⟨old, hold', hfree, _⟩ := hslot new hnewslot
        obtain rfl := Option.some.inj (hold.symm.trans hold')
        obtain hnone | hown := hfree
        · cases hnone
        · exact absurd (Option.some.inj hown) hne
  · rw [hterminals] at hterm
    rw [hhistory] at hstopped
    have hmine : pc.phase.held = some t → s'.Kept t := fun hpc => .inr ⟨c, _, hself, hpc⟩
    cases hbefore : s.terminals[t]? with
    | none => exact hmine (hnew t hbefore (by rw [hterm]; exact Option.some_ne_none _))
    | some old =>
      obtain ⟨term', hterm', hlater⟩ := hterms t old hbefore
      obtain rfl := Option.some.inj (hterm.symm.trans hterm')
      have halive : old.exited = false := hlater.exited_eq_false hexited
      have hnot : ∀ c', .stopped c' t ∉ s.history := fun c' hmem =>
        hstopped c' (List.mem_append_left _ hmem)
      obtain ⟨user, i, holder, hx⟩ | ⟨c', call', hc', hhand⟩ := h.kept t old hbefore halive hnot
      · obtain hsame | ⟨new, hnewslot, hold, hx'⟩ := hkeeps user i _ hx
        · exact .inl ⟨user, i, holder, hsame⟩
        · obtain hstill | hpc := hout new _ t hnewslot hold rfl
          · exact .inl ⟨user, i, new.holder, by rw [hx', ← hstill]⟩
          · exact hmine hpc
      · by_cases hne : c' = c
        · subst hne
          obtain rfl := Option.some.inj (hcall.symm.trans hc')
          obtain hpc | ⟨new, hnewslot, hocc⟩ | hmem | ⟨term', hterm', hexit⟩ := hheld t hhand
          · exact hmine hpc
          · obtain ⟨_, hold, _⟩ := hslot new hnewslot
            refine .inl ⟨call.user, call.index, new.holder, ?_⟩
            rw [hs', hnewslot, slotAt_after_some hp hcall hold, if_pos ⟨rfl, rfl⟩, ← hocc]
          · exact absurd (List.mem_append_right _ hmem) (hstopped c')
          · obtain rfl := Option.some.inj (hbefore.symm.trans hterm')
            rw [halive] at hexit
            cases hexit
        · exact .inr ⟨c', call', hother c' call' hne hc', hhand⟩

theorem State.Spawned.congr {t : ℕ} {call' : Call} (h : s.Spawned t call)
    (hterms : LaterAll s.terminals s'.terminals) (huser : call'.user = call.user)
    (hindex : call'.index = call.index) : s'.Spawned t call' := by
  obtain ⟨term, hterm, hfor⟩ := h
  obtain ⟨term', hterm', hlater⟩ := hterms.exists_getElem? hterm
  exact ⟨term', hterm', by rw [hlater.slot, hfor, huser, hindex]⟩

/-- A step that changes no slot. -/
theorem SlotInv.after_none (h : SlotInv s) (hp : PoolInv s) (hcall : s.calls c = some call)
    {pc : Pc} {terminals : List (Terminal P)} {events : List Event}
    (hterms : LaterAll s.terminals terminals)
    (hlocked : call.pc.phase.locked = true → pc.phase.locked = true)
    (hsound : pc.phase.Sound (s.after c call pc none terminals events) c { call with pc := pc })
    (hheld : ∀ t, call.pc.phase.held = some t → pc.phase.held = some t ∨
      .stopped c t ∈ events) : SlotInv (s.after c call pc none terminals events) := by
  refine h.after hp hcall rfl (fun t term => hterms.exists_getElem?) (by simp)
    (fun o ho => ?_) (by simp) hsound (by simp)
    (fun t ht => (hheld t ht).imp_right fun hmem => .inr (.inl hmem))
    fun t hnone hnew => absurd (hterms.getElem?_eq_none hnone) hnew
  obtain ⟨call', hcall', hlocked', _⟩ := h.holder _ _ c o ho
  obtain rfl := Option.some.inj (hcall.symm.trans hcall')
  exact hlocked hlocked'

/-- The slot of the call after a step that changes it. -/
theorem slotAt_after_self (hp : PoolInv s) (hcall : s.calls c = some call) {old : Slot}
    (hslot : s.slotOf call = some old) (pc : Pc) (new : Slot) (terminals : List (Terminal P))
    (events : List Event) :
    (s.after c call pc (some new) terminals events).slotAt call.user call.index = some new := by
  rw [slotAt_after_some hp hcall hslot, if_pos ⟨rfl, rfl⟩]

/-- A step that changes its slot, which is free or its own. -/
theorem SlotInv.after_some (h : SlotInv s) (hp : PoolInv s) (hcall : s.calls c = some call)
    {pc : Pc} {old new : Slot} {terminals : List (Terminal P)} {events : List Event}
    (hslot : s.slotOf call = some old) (hterms : LaterAll s.terminals terminals)
    (hfree : old.holder = none ∨ old.holder = some c)
    (hnew : new.holder = none ∨ new.holder = some c ∧ pc.phase.locked = true)
    (hocc : ∀ t, new.occupant = some t → s.Spawned t call)
    (hsound : pc.phase.Sound (s.after c call pc (some new) terminals events) c
      { call with pc := pc })
    (hout : ∀ t, old.occupant = some t → new.occupant = some t ∨ pc.phase.held = some t)
    (hheld : ∀ t, call.pc.phase.held = some t → pc.phase.held = some t ∨ new.occupant = some t ∨
      ∃ term, s.terminals[t]? = some term ∧ term.exited = true) :
    SlotInv (s.after c call pc (some new) terminals events) := by
  refine h.after hp hcall rfl (fun t term => hterms.exists_getElem?) (fun x hx => ?_)
    (fun o ho => ?_) (fun x t hx ht => ?_) hsound (fun x x' t hx hx' ht => ?_) (fun t ht => ?_)
    fun t hnone hnew => absurd (hterms.getElem?_eq_none hnone) hnew
  · obtain rfl := Option.some.inj hx
    exact ⟨old, hslot, hfree, hnew.imp_right And.left⟩
  · rw [slotAt_after_self hp hcall hslot, Option.some.injEq] at ho
    obtain hnone | ⟨_, hlocked⟩ := hnew
    · rw [ho] at hnone
      cases hnone
    · exact hlocked
  · obtain rfl := Option.some.inj hx
    exact (hocc t ht).congr hterms rfl rfl
  · obtain rfl := Option.some.inj hx
    obtain rfl := Option.some.inj (hslot.symm.trans hx')
    exact hout t ht
  · obtain hpc | hocc' | hexit := hheld t ht
    · exact .inl hpc
    · exact .inr (.inl ⟨new, rfl, hocc'⟩)
    · exact .inr (.inr (.inr hexit))

variable [Vt100 P]

theorem SlotInv.goes (h : SlotInv s) (hp : PoolInv s) (hcall : s.calls c = some call) {pc : Pc}
    {slot : Option Slot} {terminals : List (Terminal P)} {events : List Event}
    (hgoes : Goes s c call pc slot terminals events) :
    SlotInv (s.after c call pc slot terminals events) := by
  have hsound := h.sound c call hcall
  cases hgoes with
  | idle _ _ t cmds hphase htouches =>
    have hterms := htouches.laterAll
    refine h.after_none hp hcall hterms (fun hlocked => by rwa [hphase]) ?_ fun t' ht' =>
      .inl (by rw [hphase]; exact ht')
    rw [hphase]
    exact hsound.mono (fun o ho => ho) fun t' ht' => ht'.congr hterms rfl rfl
  | ends r hphase =>
    refine h.after_none hp hcall (laterAll_refl _) (fun hlocked => ?_) trivial fun t ht => ?_
    · rw [hphase] at hlocked
      cases hlocked
    · rw [hphase] at ht
      cases ht
  | takes slot t hphase hop hslot hholder hocc =>
    have hold := hp.slotAt_of_slotOf hcall hslot
    have hspawned : s.Spawned t call := h.occupant _ _ slot.holder t (by rw [hold, ← hocc])
    refine h.after_some hp hcall hslot (laterAll_refl _) (.inl hholder) (.inl hholder) (by simp)
      ⟨hspawned.congr (laterAll_refl _) rfl rfl, hop⟩ (fun t' ht' => ?_) (by simp [hphase,
      Phase.held])
    rw [hocc] at ht'
    exact .inr ht'
  | locks slot _ hphase hslot hholder hpc =>
    have hold := hp.slotAt_of_slotOf hcall hslot
    have hself := fun pc => slotAt_after_self hp hcall hslot pc { slot with holder := some c }
      s.terminals []
    refine h.after_some hp hcall hslot (laterAll_refl _) (.inl hholder) (.inr ⟨rfl, ?_⟩)
      (fun t ht => ?_) ?_ (fun t ht => .inl ht) (by simp [hphase, Phase.held])
    · obtain ⟨rfl, _⟩ | rfl := hpc
      · rfl
      · rfl
    · exact h.occupant _ _ slot.holder t (by rw [hold, ← ht])
    · obtain ⟨rfl, hop⟩ | rfl := hpc
      · exact ⟨⟨slot.occupant, hself _⟩, hop⟩
      · exact ⟨slot.occupant, hself _⟩
  | vacant slot hphase hslot hocc =>
    have hold := hp.slotAt_of_slotOf hcall hslot
    rw [hphase] at hsound
    obtain ⟨⟨o, ho⟩, hop⟩ := hsound
    obtain rfl : slot = ⟨some c, o⟩ := Option.some.inj (hold.symm.trans ho)
    obtain rfl : o = none := hocc
    exact h.after_none hp hcall (laterAll_refl _) (fun _ => rfl) ⟨ho, hop⟩ (by simp [hphase,
      Phase.held])
  | uses slot t _ hphase hslot hocc hpc =>
    have hold := hp.slotAt_of_slotOf hcall hslot
    have hlocked : call.pc.phase.locked = true := by
      obtain hphase | hphase := hphase
      · rw [hphase]; rfl
      · rw [hphase]; rfl
    obtain ⟨o, ho⟩ := hsound.slotAt hlocked
    obtain rfl : slot = ⟨some c, o⟩ := Option.some.inj (hold.symm.trans ho)
    obtain rfl : o = some t := hocc
    refine h.after_none hp hcall (laterAll_refl _) (fun _ => by rw [hpc]; rfl) ?_ fun t' ht' => ?_
    · rw [hpc]
      exact ho
    · obtain hphase | hphase := hphase
      · rw [hphase] at ht'
        cases ht'
      · rw [hphase] at ht'
        cases ht'
  | replaces slot t hphase hslot hocc hdead =>
    have hold := hp.slotAt_of_slotOf hcall hslot
    rw [hphase] at hsound
    obtain ⟨⟨o, ho⟩, hop⟩ := hsound
    obtain rfl : slot = ⟨some c, o⟩ := Option.some.inj (hold.symm.trans ho)
    obtain rfl : o = some t := hocc
    have hspawned : s.Spawned t call := h.occupant _ _ (some c) t ho
    refine h.after_some hp hcall hslot (laterAll_refl _) (.inr rfl) (.inr ⟨rfl, rfl⟩) (by simp)
      ⟨slotAt_after_self hp hcall hslot .., hspawned.congr (laterAll_refl _) rfl rfl, hop⟩
      (fun t' ht' => .inr ht') (by simp [hphase, Phase.held])
  | told t _ cmds hphase htouches =>
    rw [hphase] at hsound
    refine h.after_none hp hcall htouches.laterAll (fun _ => rfl) ⟨hsound.1, hsound.2.2⟩
      fun t' ht' => ?_
    rw [hphase] at ht'
    obtain rfl : t = t' := Option.some.inj ht'
    exact .inr (by simp)
  | spawns cols rows hphase hop =>
    rw [hphase] at hsound
    refine h.after hp hcall rfl (fun t term hterm => ⟨term, ?_, .refl term⟩) (by simp)
      (fun _ _ => rfl) (by simp) ⟨hsound.1, ⟨_, List.getElem?_concat_length, rfl⟩, hop⟩ (by simp)
      (by simp [hphase, Phase.held]) fun t hnone hnew => ?_
    · exact (List.getElem?_append_left (List.getElem?_eq_some_iff.mp hterm).1).trans hterm
    · -- the only new terminal is the last one
      rw [List.getElem?_eq_none_iff] at hnone
      have hlt := Nat.lt_of_not_le fun hle => hnew (List.getElem?_eq_none hle)
      rw [List.length_append, List.length_singleton] at hlt
      show some s.terminals.length = some t
      rw [show s.terminals.length = t by omega]
  | inserts slot t hphase hslot =>
    have hold := hp.slotAt_of_slotOf hcall hslot
    rw [hphase] at hsound
    obtain ⟨ho, hspawned, _⟩ := hsound
    obtain rfl : slot = ⟨some c, none⟩ := Option.some.inj (hold.symm.trans ho)
    refine h.after_some hp hcall hslot (laterAll_refl _) (.inr rfl) (.inr ⟨rfl, rfl⟩)
      (fun t' ht' => ?_) (slotAt_after_self hp hcall hslot ..) (by simp) fun t' ht' => ?_
    · obtain rfl : t = t' := Option.some.inj ht'
      exact hspawned
    · rw [hphase] at ht'
      exact .inr (.inl ht')
  | releases r _ hlocked hstop hhold htouches =>
    obtain ⟨o, ho⟩ := hsound.slotAt hlocked
    have hgiven : ∀ t, call.pc.phase.held = some t →
        ∃ term, s.terminals[t]? = some term ∧ term.exited = true := by
      intro t ht
      cases hphase : call.pc.phase with
      | stopping t' => exact absurd hphase (hstop t')
      | holding t' =>
        rw [hphase] at ht
        obtain rfl : t' = t := Option.some.inj ht
        exact hhold t' hphase
      | resetting t' =>
        rw [hphase] at hlocked
        cases hlocked
      | _ =>
        rw [hphase] at ht
        cases ht
    obtain ⟨p, hpool⟩ := Option.ne_none_iff_exists'.mp (hp.locked c call hcall hlocked)
    cases hslot : s.slotOf call with
    | none =>
      rw [hp.slotOf_eq hcall hpool, ho] at hslot
      cases hslot
    | some slot =>
      have hold := hp.slotAt_of_slotOf hcall hslot
      obtain rfl : slot = ⟨some c, o⟩ := Option.some.inj (hold.symm.trans ho)
      refine h.after_some hp hcall hslot htouches.laterAll (.inr rfl) (.inl rfl) (fun t ht => ?_)
        trivial (fun t ht => .inl ht) fun t ht => .inr (.inr (hgiven t ht))
      exact h.occupant _ _ (some c) t (by rw [ho, ← ht])
  | done t _ cmds hphase htouches =>
    refine h.after_none hp hcall htouches.laterAll (fun hlocked => ?_) trivial fun t' ht' => ?_
    · rw [hphase] at hlocked
      cases hlocked
    · rw [hphase] at ht'
      obtain rfl : t = t' := Option.some.inj ht'
      exact .inr (by simp)

omit [Vt100 P] in
/-- A step that only adds free and empty slots, and calls that have nothing to do with a slot
yet. -/
theorem SlotInv.extend (h : SlotInv s)
    (hslots : ∀ user i, s'.slotAt user i = s.slotAt user i ∨
      s.slotAt user i = none ∧ s'.slotAt user i = some Slot.empty)
    (hterms : LaterAll s.terminals s'.terminals)
    (hcalls : ∀ c call, s'.calls c = some call → s.calls c = some call ∨
      call.pc.phase = .outside ∨ call.pc.phase = .ended)
    (hkeep : ∀ c call, s.calls c = some call → s'.calls c = some call ∨
      call.pc.phase = .outside)
    (hhistory : ∀ e ∈ s.history, e ∈ s'.history) : SlotInv s' := by
  have hold : ∀ user i x, s.slotAt user i = some x → s'.slotAt user i = some x := by
    intro user i x hx
    obtain hsame | ⟨hnone, _⟩ := hslots user i
    · exact hsame.trans hx
    · rw [hnone] at hx
      cases hx
  have hback : ∀ user i x, s'.slotAt user i = some x →
      s.slotAt user i = some x ∨ x = Slot.empty := by
    intro user i x hx
    obtain hsame | ⟨_, hempty⟩ := hslots user i
    · exact .inl (hsame.symm.trans hx)
    · exact .inr (Option.some.inj (hx.symm.trans hempty))
  refine ⟨fun user i c o hx => ?_, fun user i holder t hx => ?_, fun c call hcall => ?_,
    fun t term hterm hexited hstopped => ?_⟩
  · obtain hx | hempty := hback user i _ hx
    · obtain ⟨call, hcall, hlocked, hmine⟩ := h.holder user i c o hx
      refine ⟨call, (hkeep c call hcall).resolve_right fun hphase => ?_, hlocked, hmine⟩
      rw [hphase] at hlocked
      cases hlocked
    · cases hempty
  · obtain hx | hempty := hback user i _ hx
    · obtain ⟨term, hterm, hfor⟩ := h.occupant user i holder t hx
      obtain ⟨term', hterm', hlater⟩ := hterms.exists_getElem? hterm
      exact ⟨term', hterm', hlater.slot.trans hfor⟩
    · cases hempty
  · obtain hcall | hphase | hphase := hcalls c call hcall
    · exact (h.sound c call hcall).mono (fun o => hold _ _ _) fun t ht => ht.congr hterms rfl rfl
    · rw [hphase]
      trivial
    · rw [hphase]
      trivial
  · cases hbefore : s.terminals[t]? with
    | none =>
      rw [hterms.getElem?_eq_none hbefore] at hterm
      cases hterm
    | some old =>
      obtain ⟨term', hterm', hlater⟩ := hterms.exists_getElem? hbefore
      obtain rfl := Option.some.inj (hterm.symm.trans hterm')
      have halive : old.exited = false := hlater.exited_eq_false hexited
      obtain ⟨user, i, holder, hx⟩ | ⟨c, call, hcall, hheld⟩ :=
        h.kept t old hbefore halive fun c hmem => hstopped c (hhistory _ hmem)
      · exact .inl ⟨user, i, holder, hold user i _ hx⟩
      · refine .inr ⟨c, call, (hkeep c call hcall).resolve_right fun hphase => ?_, hheld⟩
        rw [hphase] at hheld
        cases hheld

omit [Vt100 P] in
/-- A new pool has free and empty slots. -/
theorem slotAt_pool (hp : PoolInv s) (user user' : String) (i : ℕ) :
    (s.pool user).1.slotAt user' i = s.slotAt user' i ∨
      s.slotAt user' i = none ∧ (s.pool user).1.slotAt user' i = some Slot.empty := by
  rw [State.slotAt, State.slotAt, hp.userPool_pool]
  by_cases huser : user' = user
  · subst huser
    rw [if_pos rfl, Option.bind_some]
    cases s.userPool user' with
    | some pool => exact .inl rfl
    | none =>
      rw [Option.getD_none, Option.bind_none, UserPool.new, List.getElem?_replicate]
      split
      · exact .inr ⟨rfl, rfl⟩
      · exact .inl rfl
  · rw [if_neg huser]
    exact .inl rfl

omit [Vt100 P] in
theorem SlotInv.afterPool (h : SlotInv s) (hp : PoolInv s) (hcall : s.calls c = some call)
    (hpc : call.pc = .pooling) : SlotInv (s.afterPool c call) := by
  refine h.extend (slotAt_pool hp call.user) ?_ (fun c' call' hc' => ?_) (fun c' call' hc' => ?_) ?_
  · rw [State.afterPool, State.setCall, pool_terminals]
    exact laterAll_refl _
  · by_cases hne : c' = c
    · subst hne
      obtain rfl := Option.some.inj ((setCall_calls_self ..).symm.trans hc')
      refine .inr (.inl ?_)
      cases hop : call.op <;> rfl
    · rw [State.afterPool, setCall_calls_of_ne _ hne, pool_calls] at hc'
      exact .inl hc'
  · by_cases hne : c' = c
    · subst hne
      obtain rfl := Option.some.inj (hcall.symm.trans hc')
      exact .inr (by rw [hpc]; rfl)
    · refine .inl ?_
      rw [State.afterPool, setCall_calls_of_ne _ hne, pool_calls]
      exact hc'
  · rw [State.afterPool, State.setCall, pool_history]
    exact fun e he => he

omit [Vt100 P] in
/-- A call that is new. -/
theorem SlotInv.newCall (h : SlotInv s) (hnone : s.calls c = none)
    (hphase : call.pc.phase = .outside ∨ call.pc.phase = .ended) (events : List Event) :
    SlotInv ((s.setCall c call).record events) := by
  refine h.extend (fun user i => .inl rfl) (laterAll_refl _) (fun c' call' hc' => ?_)
    (fun c' call' hc' => .inl ?_) fun e he => List.mem_append_left _ he
  · by_cases hne : c' = c
    · subst hne
      obtain rfl := Option.some.inj ((setCall_calls_self ..).symm.trans hc')
      exact .inr hphase
    · exact .inl ((setCall_calls_of_ne s hne call).symm.trans hc')
  · have hne : c' ≠ c := by
      rintro rfl
      rw [hnone] at hc'
      cases hc'
    exact (setCall_calls_of_ne s hne call).trans hc'

theorem SlotInv.step (h : SlotInv s) (hp : PoolInv s) {a : Act}
    (hstep : terminalsStep s a = some s') : SlotInv s' := by
  obtain ⟨c, user, index, op, _, hnone, rfl | ⟨r, rfl⟩⟩ | ⟨c, call, outcome, _, hcall, hgo⟩ |
    ⟨t, term, r, hterm, hlater, rfl, _⟩ := step_cases hstep
  · rw [← record_nil (s.setCall _ _)]
    exact h.newCall hnone (.inl rfl) []
  · exact h.newCall hnone (.inr rfl) _
  · obtain ⟨hpc, rfl⟩ | ⟨pc, slot, terminals, events, hgoes, rfl⟩ := goes_of_go hgo
    · exact h.afterPool hp hcall hpc
    · exact h.goes hp hcall hgoes
  · exact h.extend (fun user i => .inl rfl) (laterAll_set hterm hlater) (fun c call hc => .inl hc)
      (fun c call hc => .inl hc) fun e he => List.mem_append_left _ he

theorem slotInv_of_reachable (hs : (terminalsSystem P).Reachable s) : SlotInv s := by
  refine System.Reach.invariant ?_
    (fun _ _ _ hr h _ hstep => h.step (poolInv_of_reachable hr) hstep) hs
  rintro s ⟨slotsPerUser, scrollbackCap, rfl⟩
  refine ⟨fun _ _ _ _ h => ?_, fun _ _ _ _ h => ?_, fun _ _ h => ?_, fun _ _ h => ?_⟩ <;> cases h

end

end Webshell.Terminals
