import Webshell.Lib.Erasure
import Webshell.Terminals.Pools

/-!
# The steps of the calls

What a step of a call may do, seen from its slot: the phase it is in and goes to, what its slot
becomes, what becomes of the shells, and what happens. What holds of the calls is derived from
this and does not look at the code again.

## Main definitions

- `Phase`: what a call is doing with its slot
- `Goes`: what a step of a call that has its pool may do
- `PoolInv`: what holds of the pools

## Main results

- `goes_of_go`: a step of a call gets the pool, or does one of the things `Goes` lists
- `poolInv_of_reachable`: a call holds on to the one pool of its user
-/

namespace Webshell.Terminals

open Transition
open MuxBridge (PtyCmd)

/-- What a call is doing with its slot. -/
inductive Phase
  | outside
  | checking
  | viewing
  /-- It has taken the terminal out and stops it, with the lock. -/
  | stopping (t : ℕ)
  | vacant
  /-- The shell it spawned is not in the slot yet. -/
  | holding (t : ℕ)
  | attaching (t : ℕ)
  | resetting (t : ℕ)
  | ended
deriving DecidableEq

def Pc.phase : Pc → Phase
  | .pooling => .outside
  | .locking => .outside
  | .listing _ => .outside
  | .checking => .checking
  | .stopping t _ => .stopping t
  | .spawning => .vacant
  | .starting t => .holding t
  | .killing t _ => .holding t
  | .reaping t _ => .holding t
  | .inserting t => .holding t
  | .resizing t => .attaching t
  | .viewing => .viewing
  | .cutting t => .attaching t
  | .subscribing t _ => .attaching t
  | .resetting t _ => .resetting t
  | .returned _ => .ended

/-- In this phase the call has the lock of its slot. -/
def Phase.locked : Phase → Bool
  | .outside => false
  | .resetting _ => false
  | .ended => false
  | _ => true

/-- The terminal the call has to do with. -/
def Phase.terminal : Phase → Option ℕ
  | .stopping t => some t
  | .holding t => some t
  | .attaching t => some t
  | .resetting t => some t
  | _ => none

/-- Every terminal has gone on. -/
abbrev LaterAll {P : Type} (terminals terminals' : List (Terminal P)) : Prop :=
  List.Forall₂ Terminal.Later terminals terminals'

/-- At most the terminal of the call has gone on. -/
def Touches {P : Type} (s : State P) (call : Call) (terminals : List (Terminal P)) : Prop :=
  terminals = s.terminals ∨ ∃ t term term', call.pc.phase.terminal = some t ∧
    s.terminals[t]? = some term ∧ term.Later term' ∧ terminals = s.terminals.set t term'

/-- What a step of a call that has its pool may do: where the call goes on, what its slot becomes
if it changes, what becomes of the terminals, and what happens. -/
inductive Goes {P : Type} [Vt100 P] (s : State P) (c : ℕ) (call : Call) :
    Pc → Option Slot → List (Terminal P) → List Event → Prop
  | idle (pc : Pc) (terminals : List (Terminal P)) (t : ℕ) (cmds : List PtyCmd) :
      pc.phase = call.pc.phase → Touches s call terminals →
      Goes s c call pc none terminals (cmds.map (.queued t))
  | ends (r : Result) : call.pc.phase = .outside →
      Goes s c call (.returned r) none s.terminals [.returned c]
  | takes (slot : Slot) (t : ℕ) : call.pc.phase = .outside → call.op = .reset →
      s.slotOf call = some slot → slot.holder = none → slot.occupant = some t →
      Goes s c call (.resetting t .shutdown) (some { slot with occupant := none }) s.terminals
        [.took c t]
  | locks (slot : Slot) (pc : Pc) : call.pc.phase = .outside →
      s.slotOf call = some slot → slot.holder = none →
      pc = .checking ∧ call.op.isAttach = true ∨ pc = .viewing →
      Goes s c call pc (some { slot with holder := some c }) s.terminals []
  | vacant (slot : Slot) : call.pc.phase = .checking → s.slotOf call = some slot →
      slot.occupant = none → Goes s c call .spawning none s.terminals []
  | uses (slot : Slot) (t : ℕ) (pc : Pc) : call.pc.phase = .checking ∨ call.pc.phase = .viewing →
      s.slotOf call = some slot → slot.occupant = some t → pc.phase = .attaching t →
      Goes s c call pc none s.terminals []
  | replaces (slot : Slot) (t : ℕ) : call.pc.phase = .checking → s.slotOf call = some slot →
      slot.occupant = some t → s.alive t = false →
      Goes s c call (.stopping t .shutdown) (some { slot with occupant := none }) s.terminals
        [.took c t]
  | told (t : ℕ) (terminals : List (Terminal P)) (cmds : List PtyCmd) :
      call.pc.phase = .stopping t → Touches s call terminals →
      Goes s c call .spawning none terminals (cmds.map (.queued t) ++ [.stopped c t])
  | spawns (cols rows : ℕ) : call.pc.phase = .vacant → call.op.isAttach = true →
      Goes s c call (.starting s.terminals.length) none
        (s.terminals ++ [.spawn (call.user, call.index) s.scrollbackCap cols rows])
        [.spawned c s.terminals.length]
  | inserts (slot : Slot) (t : ℕ) : call.pc.phase = .holding t → s.slotOf call = some slot →
      Goes s c call (.resizing t) (some { slot with occupant := some t }) s.terminals []
  | releases (r : Result) (terminals : List (Terminal P)) : call.pc.phase.locked = true →
      (∀ t, call.pc.phase ≠ .stopping t) →
      (∀ t, call.pc.phase = .holding t → ∃ term, s.terminals[t]? = some term ∧
        term.exited = true) →
      Touches s call terminals →
      Goes s c call (.returned r) ((s.slotOf call).map fun slot => { slot with holder := none })
        terminals [.returned c]
  | done (t : ℕ) (terminals : List (Terminal P)) (cmds : List PtyCmd) :
      call.pc.phase = .resetting t → Touches s call terminals →
      Goes s c call (.returned .done) none terminals
        (cmds.map (.queued t) ++ [.stopped c t, .returned c])

namespace State

variable {P : Type}

/-- The state after such a step. -/
def after (s : State P) (c : ℕ) (call : Call) (pc : Pc) (slot : Option Slot)
    (terminals : List (Terminal P)) (events : List Event) : State P :=
  { slot.elim s (s.setSlotOf call) with
    calls := Function.update s.calls c (some { call with pc := pc })
    terminals := terminals
    history := s.history ++ events }

/-- The state after a call has got its pool. -/
def afterPool (s : State P) (c : ℕ) (call : Call) : State P :=
  (s.pool call.user).1.setCall c
    { call with pool := some (s.pool call.user).2, pc := call.op.pooled }

end State

section
variable {P : Type}

theorem laterAll_refl (terminals : List (Terminal P)) : LaterAll terminals terminals :=
  List.forall₂_same.mpr fun term _ => .refl term

theorem laterAll_set {terminals : List (Terminal P)} {t : ℕ} {term term' : Terminal P}
    (hterm : terminals[t]? = some term) (h : term.Later term') :
    LaterAll terminals (terminals.set t term') :=
  (laterAll_refl terminals).set_right hterm h

theorem Touches.laterAll {s : State P} {call : Call} {terminals : List (Terminal P)}
    (h : Touches s call terminals) : LaterAll s.terminals terminals := by
  obtain rfl | ⟨t, term, term', _, hterm, hlater, rfl⟩ := h
  · exact laterAll_refl _
  · exact laterAll_set hterm hlater

theorem touches_set {s : State P} {call : Call} {t : ℕ} {term term' : Terminal P}
    (ht : call.pc.phase.terminal = some t) (hterm : s.terminals[t]? = some term)
    (hlater : term.Later term') : Touches s call (s.terminals.set t term') :=
  .inr ⟨t, term, term', ht, hterm, hlater, rfl⟩

theorem setCall_calls_self (s : State P) (c : ℕ) (call : Call) :
    (s.setCall c call).calls c = some call := Function.update_self ..

theorem setCall_calls_of_ne (s : State P) {c c' : ℕ} (h : c' ≠ c) (call : Call) :
    (s.setCall c call).calls c' = s.calls c' := Function.update_of_ne h ..

@[simp] theorem setSlotOf_terminals (s : State P) (call : Call) (slot : Slot) :
    (s.setSlotOf call slot).terminals = s.terminals := by
  rw [State.setSlotOf]; split <;> rfl

@[simp] theorem setSlotOf_calls (s : State P) (call : Call) (slot : Slot) :
    (s.setSlotOf call slot).calls = s.calls := by
  rw [State.setSlotOf]; split <;> rfl

@[simp] theorem setSlotOf_history (s : State P) (call : Call) (slot : Slot) :
    (s.setSlotOf call slot).history = s.history := by
  rw [State.setSlotOf]; split <;> rfl

@[simp] theorem setSlotOf_pools (s : State P) (call : Call) (slot : Slot) :
    (s.setSlotOf call slot).pools = s.pools := by
  rw [State.setSlotOf]; split <;> rfl

@[simp] theorem setSlotOf_slotsPerUser (s : State P) (call : Call) (slot : Slot) :
    (s.setSlotOf call slot).slotsPerUser = s.slotsPerUser := by
  rw [State.setSlotOf]; split <;> rfl

theorem setSlotOf_scrollbackCap (s : State P) (call : Call) (slot : Slot) :
    (s.setSlotOf call slot).scrollbackCap = s.scrollbackCap := by
  rw [State.setSlotOf]
  split <;> rfl

/-- Where a change of the slot stands among the others does not matter. -/
theorem after_some (s : State P) (c : ℕ) (call : Call) (pc : Pc) (slot : Slot)
    (events : List Event) :
    ((s.setSlotOf call slot).goTo c call pc).record events =
      s.after c call pc (some slot) s.terminals events := by
  rw [State.after, Option.elim_some, State.setSlotOf]
  split <;> rfl

/-- A step that changes a terminal, and what the call does with its slot then. -/
theorem after_setTerminal (s : State P) (c : ℕ) (call : Call) (pc : Pc) (t : ℕ)
    (r : Terminal P × List PtyCmd) (events : List Event) :
    ((s.setTerminal t r).goTo c call pc).record events =
      s.after c call pc none (s.terminals.set t r.1) (r.2.map (.queued t) ++ events) := by
  rw [State.after, Option.elim_none, ← List.append_assoc]
  rfl

/-- Nothing but the call itself goes on. -/
theorem goTo_eq_after (s : State P) (c : ℕ) (call : Call) (pc : Pc) :
    s.goTo c call pc = s.after c call pc none s.terminals [] := by
  rw [State.after, List.append_nil]
  rfl

theorem record_nil (s : State P) : s.record [] = s := by
  rw [State.record, List.append_nil]

theorem after_release (s : State P) (c : ℕ) (call : Call) (r : Result) :
    (s.release call).finish c call r =
      s.after c call (.returned r) ((s.slotOf call).map fun slot => { slot with holder := none })
        s.terminals [.returned c] := by
  rw [State.release]
  split
  next slot hslot => rw [hslot, Option.map_some, State.finish, after_some]
  next hslot =>
    rw [hslot, Option.map_none]
    rfl

end

/-! ## What a step of a call does -/

section
variable {P : Type} [Vt100 P] {s s' : State P} {c : ℕ} {call : Call} {outcome : Outcome}

/-- The call goes on to some `pc`, as `Goes` allows. -/
def GoesTo (s : State P) (c : ℕ) (call : Call) (s' : State P) : Prop :=
  ∃ pc slot terminals events, Goes s c call pc slot terminals events ∧
    s' = s.after c call pc slot terminals events

theorem goesTo_idle {pc : Pc} {t : ℕ} {term : Terminal P} {r : Terminal P × List PtyCmd}
    (hpc : pc.phase = call.pc.phase) (ht : call.pc.phase.terminal = some t)
    (hterm : s.terminals[t]? = some term) (hlater : term.Later r.1) :
    GoesTo s c call ((s.setTerminal t r).goTo c call pc) := by
  have hafter := after_setTerminal s c call pc t r []
  rw [List.append_nil] at hafter
  refine ⟨pc, none, _, _, .idle pc _ t r.2 hpc (touches_set ht hterm hlater), ?_⟩
  rw [← hafter, State.record, List.append_nil]

theorem goesTo_stays {pc : Pc} (hpc : pc.phase = call.pc.phase) :
    GoesTo s c call (s.goTo c call pc) :=
  ⟨pc, none, s.terminals, [], .idle pc s.terminals 0 [] hpc (.inl rfl),
    goTo_eq_after s c call pc⟩

theorem goesTo_ends (r : Result) (h : call.pc.phase = .outside) :
    GoesTo s c call (s.finish c call r) :=
  ⟨.returned r, none, s.terminals, _, .ends r h, rfl⟩

theorem goesTo_releases (r : Result) (h : call.pc.phase.locked = true)
    (hstop : ∀ t, call.pc.phase ≠ .stopping t)
    (hhold : ∀ t, call.pc.phase = .holding t → ∃ term, s.terminals[t]? = some term ∧
      term.exited = true) : GoesTo s c call ((s.release call).finish c call r) :=
  ⟨.returned r, _, s.terminals, _, .releases r s.terminals h hstop hhold (.inl rfl),
    after_release s c call r⟩

theorem goesTo_setSlotOf {pc : Pc} {slot : Slot} {events : List Event}
    (h : Goes s c call pc (some slot) s.terminals events) :
    GoesTo s c call (((s.setSlotOf call slot).goTo c call pc).record events) :=
  ⟨pc, some slot, s.terminals, events, h, after_some s c call pc slot events⟩

/-- A terminal changes just before the lock is given back. -/
theorem goesTo_releases_set {t : ℕ} {term term' : Terminal P} (r : Result)
    (hpc : call.pc.phase = .attaching t) (hterm : s.terminals[t]? = some term)
    (hlater : term.Later term') :
    GoesTo s c call (((s.setTerminal t (term', [])).release call).finish c call r) := by
  refine ⟨.returned r, _, _, _, .releases r _ (by rw [hpc]; rfl) (by simp [hpc]) (by simp [hpc])
    (touches_set (by rw [hpc]; rfl) hterm hlater), ?_⟩
  have hsame : (s.setTerminal t (term', [])).slotOf call = s.slotOf call := rfl
  rw [after_release, hsame]
  cases s.slotOf call with
  | none => simp [State.after, State.setTerminal]
  | some slot =>
    simp only [State.after, Option.map_some, Option.elim_some, State.setSlotOf,
      State.setTerminal, List.map_nil, List.append_nil]
    split <;> rfl

/-- **What a step of a call does.** It gets the pool, or does one of the things `Goes` lists. -/
theorem goes_of_go (h : s.go c call outcome = some s') :
    (call.pc = .pooling ∧ s' = s.afterPool c call) ∨ GoesTo s c call s' := by
  cases hpc : call.pc with
  | pooling =>
    simp only [State.go, hpc, Option.some.injEq] at h
    exact .inl ⟨rfl, h.symm⟩
  | listing statuses =>
    refine .inr ?_
    simp only [State.go, hpc] at h
    obtain ⟨p, _, h⟩ := Option.bind_eq_some_iff.mp h
    obtain ⟨pool, _, h⟩ := Option.bind_eq_some_iff.mp h
    split at h
    · simp only [Option.ite_none_right_eq_some, Option.some.injEq] at h
      exact h.2 ▸ goesTo_stays (by rw [hpc]; rfl)
    · exact Option.some.inj h ▸ goesTo_ends _ (by rw [hpc]; rfl)
  | locking =>
    refine .inr ?_
    simp only [State.go, hpc] at h
    obtain ⟨slot, hslot, h⟩ := Option.bind_eq_some_iff.mp h
    simp only [Option.ite_none_right_eq_some] at h
    obtain ⟨hholder, h⟩ := h
    have hphase : call.pc.phase = .outside := by rw [hpc]; rfl
    split at h
    next hop =>
      split at h
      · exact Option.some.inj h ▸ goesTo_ends _ hphase
      next t hoccupant =>
        rw [← Option.some.inj h]
        exact goesTo_setSlotOf (.takes slot t hphase hop hslot hholder hoccupant)
    next hop =>
      rw [← Option.some.inj h, ← record_nil (State.goTo _ _ _ _)]
      exact goesTo_setSlotOf (.locks slot _ hphase hslot hholder (.inl ⟨rfl, by rw [hop]; rfl⟩))
    next =>
      rw [← Option.some.inj h, ← record_nil (State.goTo _ _ _ _)]
      exact goesTo_setSlotOf (.locks slot _ hphase hslot hholder (.inr rfl))
  | checking =>
    refine .inr ?_
    simp only [State.go, hpc] at h
    obtain ⟨slot, hslot, h⟩ := Option.bind_eq_some_iff.mp h
    have hphase : call.pc.phase = .checking := by rw [hpc]; rfl
    split at h
    next hoccupant =>
      rw [← Option.some.inj h, goTo_eq_after]
      exact ⟨_, _, _, _, .vacant slot hphase hslot hoccupant, rfl⟩
    next t hoccupant =>
      split at h
      · rw [← Option.some.inj h, goTo_eq_after]
        exact ⟨_, _, _, _, .uses slot t _ (.inl hphase) hslot hoccupant rfl, rfl⟩
      next hdead =>
        rw [← Option.some.inj h]
        have halive : s.alive t = false := Bool.eq_false_iff.mpr hdead
        exact goesTo_setSlotOf (.replaces slot t hphase hslot hoccupant halive)
  | stopping t stage =>
    refine .inr ?_
    simp only [State.go, hpc] at h
    obtain ⟨term, hterm, h⟩ := Option.bind_eq_some_iff.mp h
    split at h
    · rw [← Option.some.inj h]
      exact goesTo_idle (by rw [hpc]; rfl) (by rw [hpc]; rfl) hterm (Terminal.later_stopStep ..)
    · rw [← Option.some.inj h, after_setTerminal]
      exact ⟨_, _, _, _, .told t _ _ (by rw [hpc]; rfl)
        (touches_set (by rw [hpc]; rfl) hterm (Terminal.later_stopStep ..)), rfl⟩
  | spawning =>
    refine .inr ?_
    have hphase : call.pc.phase = .vacant := by rw [hpc]; rfl
    simp only [State.go, hpc] at h
    split at h
    next cols rows _ _ hop =>
      rw [← Option.some.inj h]
      exact ⟨_, none, _, _, .spawns cols rows hphase (by rw [hop]; rfl), rfl⟩
    · rw [← Option.some.inj h]
      exact goesTo_releases _ (by rw [hphase]; rfl) (by simp [hphase]) (by simp [hphase])
    · cases h
  | starting t =>
    refine .inr ?_
    simp only [State.go, hpc] at h
    obtain ⟨term, hterm, h⟩ := Option.bind_eq_some_iff.mp h
    split at h
    · rw [← Option.some.inj h]
      exact goesTo_idle (by rw [hpc]; rfl) (by rw [hpc]; rfl) hterm (Terminal.later_start ..)
    · rw [← Option.some.inj h]
      exact goesTo_stays (by rw [hpc]; rfl)
  | killing t e =>
    refine .inr ?_
    simp only [State.go, hpc] at h
    obtain ⟨term, hterm, h⟩ := Option.bind_eq_some_iff.mp h
    rw [← Option.some.inj h]
    exact goesTo_idle (by rw [hpc]; rfl) (by rw [hpc]; rfl) hterm ⟨rfl, id, id⟩
  | reaping t e =>
    refine .inr ?_
    simp only [State.go, hpc] at h
    obtain ⟨term, hterm, h⟩ := Option.bind_eq_some_iff.mp h
    simp only [Option.ite_none_right_eq_some, Option.some.injEq] at h
    have hphase : call.pc.phase = .holding t := by rw [hpc]; rfl
    rw [← h.2]
    refine goesTo_releases _ (by rw [hphase]; rfl) (by simp [hphase]) fun t' ht' => ?_
    obtain rfl : t = t' := Phase.holding.inj (hphase.symm.trans ht')
    exact ⟨term, hterm, h.1⟩
  | inserting t =>
    refine .inr ?_
    simp only [State.go, hpc] at h
    obtain ⟨slot, hslot, h⟩ := Option.bind_eq_some_iff.mp h
    rw [← Option.some.inj h, ← record_nil (State.goTo _ _ _ _)]
    exact goesTo_setSlotOf (.inserts slot t (by rw [hpc]; rfl) hslot)
  | resizing t =>
    refine .inr ?_
    simp only [State.go, hpc] at h
    obtain ⟨term, hterm, h⟩ := Option.bind_eq_some_iff.mp h
    split at h
    · rw [← Option.some.inj h]
      exact goesTo_idle (by rw [hpc]; rfl) (by rw [hpc]; rfl) hterm (Terminal.later_offer ..)
    · cases h
  | viewing =>
    refine .inr ?_
    simp only [State.go, hpc] at h
    obtain ⟨slot, hslot, h⟩ := Option.bind_eq_some_iff.mp h
    have hphase : call.pc.phase = .viewing := by rw [hpc]; rfl
    have hreleases : ∀ r, GoesTo s c call ((s.release call).finish c call r) := fun r =>
      goesTo_releases r (by rw [hphase]; rfl) (by simp [hphase]) (by simp [hphase])
    split at h
    next t _ hlive =>
      have hoccupant := (Option.filter_eq_some_iff.mp hlive).1
      rw [← Option.some.inj h, goTo_eq_after]
      exact ⟨_, _, _, _, .uses slot t _ (.inr hphase) hslot hoccupant rfl, rfl⟩
    · exact Option.some.inj h ▸ hreleases _
    · exact Option.some.inj h ▸ hreleases _
    · cases h
  | cutting t =>
    refine .inr ?_
    simp only [State.go, hpc] at h
    obtain ⟨term, _, h⟩ := Option.bind_eq_some_iff.mp h
    rw [← Option.some.inj h]
    exact goesTo_stays (by rw [hpc]; rfl)
  | subscribing t attachment =>
    refine .inr ?_
    simp only [State.go, hpc] at h
    obtain ⟨term, hterm, h⟩ := Option.bind_eq_some_iff.mp h
    rw [← Option.some.inj h]
    exact goesTo_releases_set _ (by rw [hpc]; rfl) hterm ⟨rfl, id, id⟩
  | resetting t stage =>
    refine .inr ?_
    simp only [State.go, hpc] at h
    obtain ⟨term, hterm, h⟩ := Option.bind_eq_some_iff.mp h
    split at h
    · rw [← Option.some.inj h]
      exact goesTo_idle (by rw [hpc]; rfl) (by rw [hpc]; rfl) hterm (Terminal.later_stopStep ..)
    · rw [← Option.some.inj h]
      refine ⟨.returned .done, none, _, _, .done t _ (term.stopStep stage).2 (by rw [hpc]; rfl)
        (touches_set (by rw [hpc]; rfl) hterm (Terminal.later_stopStep term stage)), ?_⟩
      simp [State.after, State.finish, State.record, State.goTo, State.setCall, State.setTerminal]
  | returned r => simp [State.go, hpc] at h

end

/-! ## The pools -/

/-- Pools are as large as configured, no two users share one, and the pool a call has got is that
of its user. A call that has a lock has got one. -/
structure PoolInv {P : Type} (s : State P) : Prop where
  lookup : ∀ user p, s.pools user = some p →
    ∃ pool, s.heap[p]? = some pool ∧ pool.length = s.slotsPerUser
  inj : ∀ user user' p, s.pools user = some p → s.pools user' = some p → user = user'
  call : ∀ c call p, s.calls c = some call → call.pool = some p → s.pools call.user = some p
  locked : ∀ c call, s.calls c = some call → call.pc.phase.locked = true → call.pool ≠ none

section
variable {P : Type} {s : State P} {c p : ℕ} {call : Call}

/-- The slot of a call is that of its user. -/
theorem PoolInv.slotOf_eq (h : PoolInv s) (hcall : s.calls c = some call)
    (hpool : call.pool = some p) : s.slotOf call = s.slotAt call.user call.index := by
  have hlookup := h.call c call p hcall hpool
  rw [State.slotOf, hpool, Option.bind_some, State.slotAt, State.userPool, hlookup,
    Option.bind_some, State.slot]

/-- A slot that a call has found in its pool. -/
theorem PoolInv.slotAt_of_slotOf (h : PoolInv s) (hcall : s.calls c = some call) {slot : Slot}
    (hslot : s.slotOf call = some slot) : s.slotAt call.user call.index = some slot := by
  obtain ⟨p, hpool, _⟩ := Option.bind_eq_some_iff.mp hslot
  rw [← h.slotOf_eq hcall hpool, hslot]

theorem PoolInv.userPool_setSlotOf (h : PoolInv s) (hcall : s.calls c = some call)
    (hpool : call.pool = some p) (slot : Slot) (user : String) :
    (s.setSlotOf call slot).userPool user =
      if user = call.user then (s.userPool user).map fun pool => pool.set call.index slot
      else s.userPool user := by
  have hlookup := h.call c call p hcall hpool
  simp only [State.setSlotOf, hpool, State.userPool, State.setSlot]
  by_cases huser : user = call.user
  · subst huser
    rw [if_pos rfl, hlookup, Option.bind_some, Option.bind_some, List.getElem?_modify_eq]
    rfl
  · rw [if_neg huser]
    cases hother : s.pools user with
    | none => rfl
    | some q =>
      have hne : p ≠ q := by
        rintro rfl
        exact huser (h.inj user call.user p hother hlookup)
      rw [Option.bind_some, Option.bind_some, List.getElem?_modify_ne _ _ hne]

theorem PoolInv.slotAt_setSlotOf (h : PoolInv s) (hcall : s.calls c = some call) {old : Slot}
    (hslot : s.slotOf call = some old) (slot : Slot) (user : String) (i : ℕ) :
    (s.setSlotOf call slot).slotAt user i =
      if user = call.user ∧ i = call.index then some slot else s.slotAt user i := by
  obtain ⟨p, hpool, _⟩ := Option.bind_eq_some_iff.mp hslot
  have hold := h.slotAt_of_slotOf hcall hslot
  rw [State.slotAt, h.userPool_setSlotOf hcall hpool]
  by_cases huser : user = call.user
  · subst huser
    obtain ⟨pool, huserPool, hget⟩ := Option.bind_eq_some_iff.mp hold
    rw [if_pos rfl, State.slotAt, huserPool, Option.map_some, Option.bind_some, Option.bind_some]
    by_cases hi : i = call.index
    · subst hi
      have hlt := (List.getElem?_eq_some_iff.mp hget).1
      rw [if_pos ⟨rfl, rfl⟩, List.getElem?_set_self hlt]
    · rw [if_neg fun hboth => hi hboth.2, List.getElem?_set_ne (Ne.symm hi)]
  · rw [if_neg huser, if_neg fun hboth => huser hboth.1, State.slotAt]

/-- The pool a call gets is the one of its user, a new one if there was none. -/
theorem PoolInv.userPool_pool (h : PoolInv s) (user user' : String) :
    (s.pool user).1.userPool user' =
      if user' = user then some ((s.userPool user).getD (UserPool.new s.slotsPerUser))
      else s.userPool user' := by
  rw [State.pool]
  split
  next q hq =>
    obtain ⟨pool, hpool, _⟩ := h.lookup user q hq
    by_cases huser : user' = user
    · rw [if_pos huser, huser, State.userPool, hq, Option.bind_some, hpool, Option.getD_some]
    · rw [if_neg huser]
  next hnone =>
    simp only [State.userPool, hnone, Option.bind_none, Option.getD_none]
    by_cases huser : user' = user
    · rw [if_pos huser, huser, Function.update_self, Option.bind_some, List.getElem?_concat_length]
    · rw [if_neg huser, Function.update_of_ne huser]
      cases hother : s.pools user' with
      | none => rfl
      | some q =>
        obtain ⟨pool, hpool, _⟩ := h.lookup user' q hother
        have hlt := (List.getElem?_eq_some_iff.mp hpool).1
        rw [Option.bind_some, Option.bind_some, List.getElem?_append_left hlt]

/-- A call gets the pool that its user has from then on. -/
theorem pool_pools (s : State P) (user : String) :
    (s.pool user).1.pools = Function.update s.pools user (some (s.pool user).2) := by
  rw [State.pool]
  split
  next q hq => rw [← hq, Function.update_eq_self]
  next => rfl

@[simp] theorem pool_calls (s : State P) (user : String) :
    (s.pool user).1.calls = s.calls := by
  rw [State.pool]; split <;> rfl

@[simp] theorem pool_terminals (s : State P) (user : String) :
    (s.pool user).1.terminals = s.terminals := by
  rw [State.pool]; split <;> rfl

@[simp] theorem pool_history (s : State P) (user : String) :
    (s.pool user).1.history = s.history := by
  rw [State.pool]; split <;> rfl

@[simp] theorem pool_slotsPerUser (s : State P) (user : String) :
    (s.pool user).1.slotsPerUser = s.slotsPerUser := by
  rw [State.pool]; split <;> rfl

theorem pool_scrollbackCap (s : State P) (user : String) :
    (s.pool user).1.scrollbackCap = s.scrollbackCap := by
  rw [State.pool]
  split <;> rfl

theorem PoolInv.pool (h : PoolInv s) (user : String) : PoolInv (s.pool user).1 := by
  rw [State.pool]
  split
  next => exact h
  next hnone =>
    -- a place that is in use is not that of the new pool
    have hlt : ∀ u q, s.pools u = some q → q < s.heap.length := by
      intro u q hq
      obtain ⟨pool, hpool, _⟩ := h.lookup u q hq
      exact (List.getElem?_eq_some_iff.mp hpool).1
    have hcases : ∀ u q, Function.update s.pools user (some s.heap.length) u = some q →
        (u = user ∧ q = s.heap.length) ∨ (s.pools u = some q ∧ q < s.heap.length) := by
      intro u q hq
      by_cases hu : u = user
      · rw [hu, Function.update_self, Option.some.injEq] at hq
        exact .inl ⟨hu, hq.symm⟩
      · rw [Function.update_of_ne hu] at hq
        exact .inr ⟨hq, hlt u q hq⟩
    refine ⟨fun u q hq => ?_, fun u u' q hq hq' => ?_, fun c call q hcall hpool => ?_, h.locked⟩
    · obtain ⟨_, rfl⟩ | ⟨hold, hless⟩ := hcases u q hq
      · exact ⟨UserPool.new s.slotsPerUser, List.getElem?_concat_length, List.length_replicate⟩
      · obtain ⟨pool, hpool, hlength⟩ := h.lookup u q hold
        exact ⟨pool, (List.getElem?_append_left hless).trans hpool, hlength⟩
    · obtain ⟨rfl, rfl⟩ | ⟨hold, hless⟩ := hcases u q hq
      · obtain ⟨rfl, _⟩ | ⟨_, hless⟩ := hcases u' _ hq'
        · rfl
        · exact absurd hless (lt_irrefl _)
      · obtain ⟨_, rfl⟩ | ⟨hold', _⟩ := hcases u' q hq'
        · exact absurd hless (lt_irrefl _)
        · exact h.inj u u' q hold hold'
    · have hold := h.call c call q hcall hpool
      have hne : call.user ≠ user := by
        intro heq
        rw [heq, hnone] at hold
        cases hold
      exact (Function.update_of_ne hne ..).trans hold

/-- A change of slots, terminals and history keeps the pools. -/
theorem PoolInv.congr {s' : State P} (h : PoolInv s) (hpools : s'.pools = s.pools)
    (hn : s'.slotsPerUser = s.slotsPerUser)
    (hheap : ∀ (p : ℕ) (pool : UserPool), s.heap[p]? = some pool →
      ∃ pool', s'.heap[p]? = some pool' ∧ pool'.length = pool.length)
    (hcalls : ∀ c call p, s'.calls c = some call → call.pool = some p →
      s.pools call.user = some p)
    (hlocked : ∀ c call, s'.calls c = some call → call.pc.phase.locked = true →
      call.pool ≠ none) : PoolInv s' := by
  refine ⟨fun u q hq => ?_, fun u u' q hq hq' => ?_, fun c call q hcall hpool => ?_, hlocked⟩
  · rw [hpools] at hq
    obtain ⟨pool, hpool, hlength⟩ := h.lookup u q hq
    obtain ⟨pool', hpool', hlength'⟩ := hheap q pool hpool
    exact ⟨pool', hpool', by rw [hlength', hlength, hn]⟩
  · rw [hpools] at hq hq'
    exact h.inj u u' q hq hq'
  · rw [hpools]
    exact hcalls c call q hcall hpool

/-- A change of terminals and history only. -/
theorem PoolInv.frame {s' : State P} (h : PoolInv s) (hpools : s'.pools = s.pools)
    (hn : s'.slotsPerUser = s.slotsPerUser) (hheap : s'.heap = s.heap)
    (hcalls : s'.calls = s.calls) : PoolInv s' :=
  h.congr hpools hn (fun _ pool hpool => ⟨pool, hheap ▸ hpool, rfl⟩)
    (fun c call p hc => h.call c call p (hcalls ▸ hc)) fun c call hc =>
      h.locked c call (hcalls ▸ hc)

/-- A call goes on with the pool it has. -/
theorem PoolInv.setCall (h : PoolInv s) (call : Call)
    (hcall : ∀ p, call.pool = some p → s.pools call.user = some p)
    (hlocked : call.pc.phase.locked = true → call.pool ≠ none) (c : ℕ) :
    PoolInv (s.setCall c call) := by
  have hcases : ∀ c' call', (s.setCall c call).calls c' = some call' →
      call' = call ∨ s.calls c' = some call' := by
    intro c' call' hc'
    by_cases hc : c' = c
    · subst hc
      exact .inl (by simpa [State.setCall] using hc'.symm)
    · exact .inr ((Function.update_of_ne hc ..).symm.trans hc')
  refine h.congr rfl rfl (fun p pool hpool => ⟨pool, hpool, rfl⟩) (fun c' call' p hc' hpool => ?_)
    fun c' call' hc' hphase => ?_
  · obtain rfl | hold := hcases c' call' hc'
    · exact hcall p hpool
    · exact h.call c' call' p hold hpool
  · obtain rfl | hold := hcases c' call' hc'
    · exact hlocked hphase
    · exact h.locked c' call' hold hphase

theorem PoolInv.afterPool (h : PoolInv s) (c : ℕ) (call : Call) : PoolInv (s.afterPool c call) := by
  refine (h.pool call.user).setCall _ (fun p hp => ?_) (fun _ => Option.some_ne_none _) c
  rw [pool_pools, Function.update_self, ← Option.some.inj hp]

theorem PoolInv.setSlotOf (h : PoolInv s) (call : Call) (slot : Slot) :
    PoolInv (s.setSlotOf call slot) := by
  refine h.congr (setSlotOf_pools ..) (setSlotOf_slotsPerUser ..) (fun p pool hpool => ?_)
    (fun c call' p hcall hpool => h.call c call' p (setSlotOf_calls s call slot ▸ hcall) hpool)
    fun c call' hcall => h.locked c call' (setSlotOf_calls s call slot ▸ hcall)
  rw [State.setSlotOf]
  split
  next q _ =>
    rw [State.setSlot, List.getElem?_modify, hpool]
    exact ⟨_, rfl, by split <;> simp⟩
  next => exact ⟨pool, hpool, rfl⟩

theorem PoolInv.after (h : PoolInv s) (hcall : s.calls c = some call) (pc : Pc)
    (slot : Option Slot) (terminals : List (Terminal P)) (events : List Event)
    (hlocked : pc.phase.locked = true → call.pool ≠ none) :
    PoolInv (s.after c call pc slot terminals events) := by
  have hslot : PoolInv (slot.elim s (s.setSlotOf call)) := by
    cases slot with
    | none => exact h
    | some slot => exact h.setSlotOf call slot
  have hpools : (slot.elim s (s.setSlotOf call)).pools = s.pools := by
    cases slot with
    | none => rfl
    | some slot => exact setSlotOf_pools s call slot
  have hset := hslot.setCall { call with pc := pc }
    (fun p hp => hpools ▸ h.call c call p hcall hp) hlocked c
  have hcalls : (slot.elim s (s.setSlotOf call)).calls = s.calls := by
    cases slot with
    | none => rfl
    | some slot => exact setSlotOf_calls s call slot
  have hsame : ∀ c' call', (s.after c call pc slot terminals events).calls c' = some call' →
      ((slot.elim s (s.setSlotOf call)).setCall c { call with pc := pc }).calls c' =
        some call' := by
    intro c' call' hc'
    rw [State.setCall, hcalls]
    exact hc'
  exact hset.congr rfl rfl (fun p pool hpool => ⟨pool, hpool, rfl⟩)
    (fun c' call' p hc' => hset.call c' call' p (hsame c' call' hc'))
    fun c' call' hc' => hset.locked c' call' (hsame c' call' hc')

/-- A call that gets a lock, or has it, has got a pool. -/
theorem Goes.pool_ne_none [Vt100 P] {pc : Pc} {slot : Option Slot}
    {terminals : List (Terminal P)} {events : List Event}
    (hgoes : Goes s c call pc slot terminals events) (h : PoolInv s)
    (hcall : s.calls c = some call) (hlocked : pc.phase.locked = true) : call.pool ≠ none := by
  have hfound : ∀ {slot}, s.slotOf call = some slot → call.pool ≠ none := by
    intro slot hslot hnone
    rw [State.slotOf, hnone] at hslot
    cases hslot
  cases hgoes with
  | idle _ _ t cmds hphase => exact h.locked c call hcall (hphase ▸ hlocked)
  | locks slot _ hphase hslot => exact hfound hslot
  | vacant slot hphase hslot => exact hfound hslot
  | uses slot t _ hphase hslot => exact hfound hslot
  | replaces slot t hphase hslot => exact hfound hslot
  | told t _ cmds hphase => exact h.locked c call hcall (by rw [hphase]; rfl)
  | spawns cols rows hphase => exact h.locked c call hcall (by rw [hphase]; rfl)
  | inserts slot t hphase hslot => exact hfound hslot
  | ends r hphase => cases hlocked
  | takes slot t hphase => cases hlocked
  | releases r _ hphase => cases hlocked
  | done t _ cmds hphase => cases hlocked

end

section
variable {P : Type} [Vt100 P] {s s' : State P}

/-- What a step is when it is no step of a call: a new call, or a terminal goes on. -/
theorem step_cases {a : Act} (h : terminalsStep s a = some s') :
    (∃ c user index op, a = .call c user index op ∧ s.calls c = none ∧
      (s' = s.setCall c ⟨user, index, op, none, .pooling⟩ ∨
        ∃ r, s' = s.finish c ⟨user, index, op, none, .pooling⟩ r)) ∨
    (∃ c call outcome, a = .go c outcome ∧ s.calls c = some call ∧
      s.go c call outcome = some s') ∨
    ∃ t term r, s.terminals[t]? = some term ∧ term.Later r.1 ∧ s' = s.setTerminal t r ∧
      ((∃ b, a = .thread t b) ∨ ∃ c call, s.calls c = some call ∧ call.attachedTo = some t ∧
        ((∃ cmd, a = .send c cmd) ∨ ∃ rx, a = .redraw c rx)) := by
  cases a with
  | call c user index op =>
    refine .inl ⟨c, user, index, op, rfl, ?_⟩
    simp only [terminalsStep, Option.ite_none_right_eq_some] at h
    refine ⟨h.1, ?_⟩
    replace h := h.2
    split at h
    · split at h
      · exact .inl (Option.some.inj h).symm
      · exact .inr ⟨_, (Option.some.inj h).symm⟩
    · exact .inl (Option.some.inj h).symm
  | go c outcome =>
    obtain ⟨call, hcall, h⟩ := Option.bind_eq_some_iff.mp h
    exact .inr (.inl ⟨c, call, outcome, rfl, hcall, h⟩)
  | thread t a =>
    obtain ⟨term, hterm, h⟩ := Option.bind_eq_some_iff.mp h
    obtain ⟨r, hr, h⟩ := Option.bind_eq_some_iff.mp h
    exact .inr (.inr ⟨t, term, r, hterm, Terminal.later_step hr, (Option.some.inj h).symm,
      .inl ⟨a, rfl⟩⟩)
  | send c cmd =>
    obtain ⟨call, hcall, h⟩ := Option.bind_eq_some_iff.mp h
    obtain ⟨t, ht, h⟩ := Option.bind_eq_some_iff.mp h
    obtain ⟨term, hterm, h⟩ := Option.bind_eq_some_iff.mp h
    simp only [Option.ite_none_right_eq_some, Option.some.injEq] at h
    exact .inr (.inr ⟨t, term, _, hterm, Terminal.later_offer .., h.2.symm,
      .inr ⟨c, call, hcall, ht, .inl ⟨cmd, rfl⟩⟩⟩)
  | redraw c rx =>
    obtain ⟨call, hcall, h⟩ := Option.bind_eq_some_iff.mp h
    obtain ⟨t, ht, h⟩ := Option.bind_eq_some_iff.mp h
    obtain ⟨term, hterm, h⟩ := Option.bind_eq_some_iff.mp h
    exact .inr (.inr ⟨t, term, _, hterm, ⟨rfl, id, id⟩, (Option.some.inj h).symm,
      .inr ⟨c, call, hcall, ht, .inr ⟨rx, rfl⟩⟩⟩)

theorem PoolInv.step {a : Act} (h : PoolInv s) (hstep : terminalsStep s a = some s') :
    PoolInv s' := by
  obtain ⟨c, user, index, op, _, _, rfl | ⟨r, rfl⟩⟩ | ⟨c, call, outcome, _, hcall, hgo⟩ |
    ⟨t, term, r, _, _, rfl, _⟩ := step_cases hstep
  · exact h.setCall _ (fun p hp => by cases hp) (fun hlocked => by cases hlocked) c
  · have hcall := h.setCall ⟨user, index, op, none, .returned r⟩ (fun p hp => by cases hp)
      (fun hlocked => by cases hlocked) c
    exact hcall.frame rfl rfl rfl rfl
  · obtain ⟨_, rfl⟩ | ⟨pc, slot, terminals, events, hgoes, rfl⟩ := goes_of_go hgo
    · exact h.afterPool c call
    · exact h.after hcall pc slot terminals events (hgoes.pool_ne_none h hcall)
  · exact h.frame rfl rfl rfl rfl

theorem poolInv_of_reachable (hs : (terminalsSystem P).Reachable s) : PoolInv s := by
  refine System.Reach.invariant ?_ (fun _ _ _ _ h _ hstep => h.step hstep) hs
  rintro s ⟨slotsPerUser, scrollbackCap, rfl⟩
  refine ⟨fun _ _ h => ?_, fun _ _ _ h => ?_, fun _ _ _ h => ?_, fun _ _ h => ?_⟩ <;> cases h

end

end Webshell.Terminals
