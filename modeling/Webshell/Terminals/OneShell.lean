import Webshell.Terminals.SlotLocks

/-!
# One live shell in a slot

What the calls take, stop and spawn, and what they leave alone.

## Main definitions

- `State.Live`: a shell of a slot that has neither exited nor been told to stop
- `State.Resetting`: a reset of the slot is in progress
- `Ledger`: what a call has taken, stopped and spawned, by the phase it is in

## Main results

- `one_live_shell`: the occupants, the stops, the spawns and the slots of others, in every run
-/

namespace Webshell.Terminals

open Transition
open MuxBridge (PtyCmd)

/-! ## What a call has done -/

def Event.call : Event → Option ℕ
  | .took c _ => some c
  | .stopped c _ => some c
  | .spawned c _ => some c
  | .returned c => some c
  | .queued _ _ => none

/-- The part of a history that is the call's own. -/
def own (c : ℕ) (history : List Event) : List Event :=
  history.filter fun e => e.call = some c

/-- The call has left its slot empty: it found it so, or took out the terminal and stopped it. -/
def Emptied (c : ℕ) (events : List Event) : Prop :=
  events = [] ∨ ∃ t, events = [.took c t, .stopped c t]

/-- And then it may have spawned another one. -/
def Respawned (c t : ℕ) (events : List Event) : Prop :=
  ∃ emptied, Emptied c emptied ∧ events = emptied ++ [.spawned c t]

/-- What a call has done when it is in that phase. -/
def Ledger (c : ℕ) : Phase → List Event → Prop
  | .outside, events => events = []
  | .checking, events => events = []
  | .viewing, events => events = []
  | .stopping t, events => events = [.took c t]
  | .vacant, events => Emptied c events
  | .holding t, events => Respawned c t events
  | .attaching t, events => events = [] ∨ Respawned c t events
  | .resetting t, events => events = [.took c t]
  | .ended, events => ∃ acted, (Emptied c acted ∨ ∃ t, Respawned c t acted) ∧
      events = acted ++ [.returned c]

/-- Every call has done what its phase says, and one that is yet to come nothing. -/
structure LedgerInv {P : Type} (s : State P) : Prop where
  called : ∀ c call, s.calls c = some call → Ledger c call.pc.phase (own c s.history)
  uncalled : ∀ c, s.calls c = none → own c s.history = []

section
variable {c c' t : ℕ} {events : List Event} {cmds : List PtyCmd}

theorem own_append (c : ℕ) (history events : List Event) :
    own c (history ++ events) = own c history ++ own c events := List.filter_append ..

theorem own_queued (c t : ℕ) (cmds : List PtyCmd) : own c (cmds.map (.queued t)) = [] := by
  simp [own, Event.call]

theorem own_of_call (h : ∀ e ∈ events, e.call = some c') (hne : c' ≠ c) : own c events = [] := by
  rw [own, List.filter_eq_nil_iff]
  intro e he
  rw [decide_eq_true_eq, h e he, Option.some.injEq]
  exact hne

theorem own_self (h : ∀ e ∈ events, e.call = some c) : own c events = events := by
  rw [own, List.filter_eq_self]
  intro e he
  rw [decide_eq_true_eq, h e he]

/-- A call that has the lock and no terminal to stop has done what it may return with. -/
theorem Ledger.acted {phase : Phase} (h : Ledger c phase events) (hlocked : phase.locked = true)
    (hstop : ∀ t, phase ≠ .stopping t) : Emptied c events ∨ ∃ t, Respawned c t events := by
  cases phase with
  | checking => exact .inl (.inl h)
  | viewing => exact .inl (.inl h)
  | stopping t => exact absurd rfl (hstop t)
  | vacant => exact .inl h
  | holding t => exact .inr ⟨t, h⟩
  | attaching t =>
    obtain h | h := h
    · exact .inl (.inl h)
    · exact .inr ⟨t, h⟩
  | outside | resetting t | ended => cases hlocked

end

section
variable {P : Type} {s s' : State P} {c : ℕ} {call : Call}

/-- A call does something of its own, and others at most get something queued. -/
theorem LedgerInv.after (h : LedgerInv s) {pc : Pc} {slot : Option Slot}
    {terminals : List (Terminal P)} {events : List Event} {t : ℕ} {cmds : List PtyCmd}
    (hmine : ∀ e ∈ events, e.call = some c)
    (hledger : Ledger c pc.phase (own c s.history ++ events)) :
    LedgerInv (s.after c call pc slot terminals (cmds.map (.queued t) ++ events)) := by
  have hown : ∀ c', c ≠ c' →
      own c' (s.history ++ (cmds.map (.queued t) ++ events)) = own c' s.history := by
    intro c' hne
    rw [own_append, own_append, own_queued, own_of_call hmine hne, List.append_nil,
      List.append_nil]
  refine ⟨fun c' call' hc' => ?_, fun c' hc' => ?_⟩
  · by_cases hne : c = c'
    · subst hne
      obtain rfl : { call with pc := pc } = call' := by simpa [State.after] using hc'
      change Ledger c pc.phase (own c (s.history ++ (cmds.map (.queued t) ++ events)))
      rw [own_append, own_append, own_queued, own_self hmine]
      exact hledger
    · change Ledger c' call'.pc.phase (own c' (s.history ++ (cmds.map (.queued t) ++ events)))
      rw [hown c' hne]
      exact h.called c' call' ((Function.update_of_ne (Ne.symm hne) ..).symm.trans hc')
  · have hne : c ≠ c' := by
      rintro rfl
      exact absurd ((Function.update_self ..).symm.trans hc') (Option.some_ne_none _)
    change own c' (s.history ++ (cmds.map (.queued t) ++ events)) = []
    rw [hown c' hne]
    exact h.uncalled c' ((Function.update_of_ne (Ne.symm hne) ..).symm.trans hc')

variable [Vt100 P]

theorem LedgerInv.goes (h : LedgerInv s) (hcall : s.calls c = some call) {pc : Pc}
    {slot : Option Slot} {terminals : List (Terminal P)} {events : List Event}
    (hgoes : Goes s c call pc slot terminals events) :
    LedgerInv (s.after c call pc slot terminals events) := by
  have hledger := h.called c call hcall
  have hown : ∀ {slot terminals events}, (∀ e ∈ events, e.call = some c) →
      Ledger c pc.phase (own c s.history ++ events) →
      LedgerInv (s.after c call pc slot terminals events) := by
    intro slot terminals events hmine hledger
    show LedgerInv (s.after c call pc slot terminals
      (([] : List PtyCmd).map (Event.queued 0) ++ events))
    exact h.after hmine hledger
  cases hgoes with
  | idle _ _ t cmds hphase hterms =>
    rw [← List.append_nil (cmds.map _)]
    refine h.after (List.forall_mem_nil _) ?_
    rw [List.append_nil, hphase]
    exact hledger
  | ends r hphase =>
    rw [hphase] at hledger
    refine hown (by simp [Event.call]) ⟨[], .inl (.inl rfl), ?_⟩
    rw [hledger]
  | takes slot t hphase hop hslot hholder hocc =>
    rw [hphase] at hledger
    refine hown (by simp [Event.call]) ?_
    rw [hledger]
    rfl
  | locks slot _ hphase hslot hholder hpc =>
    rw [hphase] at hledger
    refine hown (List.forall_mem_nil _) ?_
    rw [List.append_nil, hledger]
    obtain ⟨rfl, _⟩ | rfl := hpc
    · rfl
    · rfl
  | vacant slot hphase hslot hocc =>
    rw [hphase] at hledger
    refine hown (List.forall_mem_nil _) (.inl ?_)
    rw [List.append_nil, hledger]
  | uses slot t _ hphase hslot hocc hpc =>
    have hnil : own c s.history = [] := by
      obtain hphase | hphase := hphase
      · rwa [hphase] at hledger
      · rwa [hphase] at hledger
    refine hown (List.forall_mem_nil _) ?_
    rw [List.append_nil, hnil, hpc]
    exact .inl rfl
  | replaces slot t hphase hslot hocc hdead =>
    rw [hphase] at hledger
    refine hown (by simp [Event.call]) ?_
    rw [hledger]
    rfl
  | told t _ cmds hphase hterms =>
    rw [hphase] at hledger
    refine h.after (by simp [Event.call]) (.inr ⟨t, ?_⟩)
    rw [hledger]
    rfl
  | spawns cols rows hphase hop =>
    rw [hphase] at hledger
    exact hown (by simp [Event.call]) ⟨_, hledger, rfl⟩
  | inserts slot t hphase hslot =>
    rw [hphase] at hledger
    refine hown (List.forall_mem_nil _) (.inr ?_)
    rw [List.append_nil]
    exact hledger
  | releases r _ hlocked hstop hhold hterms =>
    exact hown (by simp [Event.call]) ⟨_, hledger.acted hlocked hstop, rfl⟩
  | done t _ cmds hphase hterms =>
    rw [hphase] at hledger
    refine h.after (by simp [Event.call]) ⟨[.took c t, .stopped c t], .inl (.inr ⟨t, rfl⟩), ?_⟩
    rw [hledger]
    rfl

omit [Vt100 P] in
/-- A call that has nothing to do with a slot, or has refused to. -/
theorem LedgerInv.setCall (h : LedgerInv s) {call : Call} {events : List Event}
    (hmine : ∀ e ∈ events, e.call = some c) (hledger : Ledger c call.pc.phase events)
    (hnothing : own c s.history = []) : LedgerInv ((s.setCall c call).record events) := by
  refine ⟨fun c' call' hc' => ?_, fun c' hc' => ?_⟩
  · change Ledger c' call'.pc.phase (own c' (s.history ++ events))
    by_cases hne : c' = c
    · subst hne
      obtain rfl := Option.some.inj ((setCall_calls_self ..).symm.trans hc')
      rw [own_append, own_self hmine, hnothing]
      exact hledger
    · rw [own_append, own_of_call hmine (Ne.symm hne), List.append_nil]
      exact h.called c' call' ((setCall_calls_of_ne s hne call).symm.trans hc')
  · change own c' (s.history ++ events) = []
    have hne : c' ≠ c := by
      rintro rfl
      exact absurd ((setCall_calls_self s c' call).symm.trans hc') (Option.some_ne_none _)
    rw [own_append, own_of_call hmine (Ne.symm hne), List.append_nil]
    exact h.uncalled c' ((setCall_calls_of_ne s hne call).symm.trans hc')

omit [Vt100 P] in
theorem LedgerInv.afterPool (h : LedgerInv s) (hcall : s.calls c = some call)
    (hpc : call.pc = .pooling) : LedgerInv (s.afterPool c call) := by
  have hledger := h.called c call hcall
  rw [hpc] at hledger
  have hpool : LedgerInv (s.pool call.user).1 :=
    ⟨by rw [pool_calls, pool_history]; exact h.called,
      by rw [pool_calls, pool_history]; exact h.uncalled⟩
  rw [State.afterPool, ← record_nil (State.setCall _ _ _)]
  refine hpool.setCall (List.forall_mem_nil _) ?_ (by rw [pool_history]; exact hledger)
  show Ledger c call.op.pooled.phase []
  cases call.op <;> rfl

theorem LedgerInv.step (h : LedgerInv s) {a : Act} (hstep : terminalsStep s a = some s') :
    LedgerInv s' := by
  obtain ⟨c, user, index, op, _, hnone, rfl | ⟨r, rfl⟩⟩ | ⟨c, call, outcome, _, hcall, hgo⟩ |
    ⟨t, term, r, hterm, hlater, rfl, _⟩ := step_cases hstep
  · rw [← record_nil (s.setCall _ _)]
    exact h.setCall (List.forall_mem_nil _) rfl (h.uncalled c hnone)
  · exact h.setCall (by simp [Event.call]) ⟨[], .inl (.inl rfl), rfl⟩ (h.uncalled c hnone)
  · obtain ⟨hpc, rfl⟩ | ⟨pc, slot, terminals, events, hgoes, rfl⟩ := goes_of_go hgo
    · exact h.afterPool hcall hpc
    · exact h.goes hcall hgoes
  · have hown : ∀ c, own c (s.history ++ r.2.map (.queued t)) = own c s.history := by
      intro c
      rw [own_append, own_queued, List.append_nil]
    refine ⟨fun c call hc => ?_, fun c hc => ?_⟩
    · change Ledger c call.pc.phase (own c (s.history ++ r.2.map (.queued t)))
      rw [hown]
      exact h.called c call hc
    · change own c (s.history ++ r.2.map (.queued t)) = []
      rw [hown]
      exact h.uncalled c hc

theorem ledgerInv_of_reachable (hs : (terminalsSystem P).Reachable s) : LedgerInv s := by
  refine System.Reach.invariant ?_ (fun _ _ _ _ h _ hstep => h.step hstep) hs
  rintro s ⟨slotsPerUser, scrollbackCap, rfl⟩
  exact ⟨fun _ _ h => (by cases h), fun _ _ => rfl⟩

end

/-! ## Why a call takes and spawns -/

/-- The shell is marked dead. -/
def State.Dead {P : Type} (s : State P) (t : ℕ) : Prop :=
  ∃ term, s.terminals[t]? = some term ∧ term.shell.alive = false

/-- Only attaches spawn, and what an attach has taken out is dead. -/
structure CauseInv {P : Type} (s : State P) : Prop where
  spawned : ∀ c t, .spawned c t ∈ s.history →
    ∃ call, s.calls c = some call ∧ call.op.isAttach = true
  took : ∀ c t, .took c t ∈ s.history →
    ∃ call, s.calls c = some call ∧ (call.op = .reset ∨ s.Dead t)

section
variable {P : Type} {s s' : State P} {c t : ℕ} {call : Call}

theorem State.Dead.later (h : s.Dead t) (hterms : LaterAll s.terminals s'.terminals) :
    s'.Dead t := by
  obtain ⟨term, hterm, hdead⟩ := h
  obtain ⟨term', hterm', hlater⟩ := hterms.exists_getElem? hterm
  exact ⟨term', hterm', hlater.dead hdead⟩

/-- Calls keep their operations, and shells stay dead. -/
theorem CauseInv.mono (h : CauseInv s)
    (hcalls : ∀ c call, s.calls c = some call → ∃ call', s'.calls c = some call' ∧
      call'.op = call.op)
    (hdead : ∀ t, s.Dead t → s'.Dead t)
    (hspawned : ∀ c t, .spawned c t ∈ s'.history → .spawned c t ∈ s.history ∨
      ∃ call, s'.calls c = some call ∧ call.op.isAttach = true)
    (htook : ∀ c t, .took c t ∈ s'.history → .took c t ∈ s.history ∨
      ∃ call, s'.calls c = some call ∧ (call.op = .reset ∨ s'.Dead t)) : CauseInv s' := by
  refine ⟨fun c t hmem => ?_, fun c t hmem => ?_⟩
  · obtain hmem | hnew := hspawned c t hmem
    · obtain ⟨call, hcall, hop⟩ := h.spawned c t hmem
      obtain ⟨call', hcall', hsame⟩ := hcalls c call hcall
      exact ⟨call', hcall', by rw [hsame]; exact hop⟩
    · exact hnew
  · obtain hmem | hnew := htook c t hmem
    · obtain ⟨call, hcall, hop⟩ := h.took c t hmem
      obtain ⟨call', hcall', hsame⟩ := hcalls c call hcall
      exact ⟨call', hcall', by rw [hsame]; exact hop.imp_right (hdead t)⟩
    · exact hnew

theorem after_calls_self (s : State P) (c : ℕ) (call : Call) (pc : Pc) (slot : Option Slot)
    (terminals : List (Terminal P)) (events : List Event) :
    (s.after c call pc slot terminals events).calls c = some { call with pc := pc } :=
  Function.update_self ..

/-- A call goes on with its operation, and the others stay as they are. -/
theorem after_calls_op (hcall : s.calls c = some call) (pc : Pc) (slot : Option Slot)
    (terminals : List (Terminal P)) (events : List Event) (c' : ℕ) (call' : Call)
    (hc' : s.calls c' = some call') :
    ∃ call'', (s.after c call pc slot terminals events).calls c' = some call'' ∧
      call''.op = call'.op := by
  by_cases hne : c' = c
  · subst hne
    obtain rfl := Option.some.inj (hcall.symm.trans hc')
    exact ⟨_, after_calls_self .., rfl⟩
  · exact ⟨call', (Function.update_of_ne hne ..).trans hc', rfl⟩

variable [Vt100 P]

/-- The terminals a step leads to are those that were there, gone on, and perhaps a new one. -/
theorem Goes.later {pc : Pc} {slot : Option Slot} {terminals : List (Terminal P)}
    {events : List Event} (hgoes : Goes s c call pc slot terminals events) :
    ∃ gone new, terminals = gone ++ new ∧ LaterAll s.terminals gone := by
  cases hgoes with
  | idle _ _ t cmds hphase htouches =>
    exact ⟨terminals, [], (List.append_nil _).symm, htouches.laterAll⟩
  | told t _ cmds hphase htouches =>
    exact ⟨terminals, [], (List.append_nil _).symm, htouches.laterAll⟩
  | releases r _ hlocked hstop hhold htouches =>
    exact ⟨terminals, [], (List.append_nil _).symm, htouches.laterAll⟩
  | done t _ cmds hphase htouches =>
    exact ⟨terminals, [], (List.append_nil _).symm, htouches.laterAll⟩
  | spawns cols rows hphase hop => exact ⟨s.terminals, _, rfl, laterAll_refl _⟩
  | _ => exact ⟨s.terminals, [], (List.append_nil _).symm, laterAll_refl _⟩

theorem Goes.dead {pc : Pc} {slot : Option Slot} {terminals : List (Terminal P)}
    {events : List Event} (hgoes : Goes s c call pc slot terminals events) (h : s.Dead t) :
    (s.after c call pc slot terminals events).Dead t := by
  obtain ⟨term, hterm, hdead⟩ := h
  obtain ⟨gone, new, rfl, hlater⟩ := hgoes.later
  obtain ⟨term', hterm', hgone⟩ := hlater.exists_getElem? hterm
  have hlt := (List.getElem?_eq_some_iff.mp hterm').1
  exact ⟨term', (List.getElem?_append_left hlt).trans hterm', hgone.dead hdead⟩

/-- Only an attach spawns. -/
theorem Goes.of_spawned_mem {pc : Pc} {slot : Option Slot} {terminals : List (Terminal P)}
    {events : List Event} (hgoes : Goes s c call pc slot terminals events) {c' : ℕ}
    (hmem : .spawned c' t ∈ events) : c' = c ∧ call.op.isAttach = true := by
  cases hgoes with
  | spawns cols rows hphase hop =>
    obtain ⟨rfl, rfl⟩ := Event.spawned.inj (List.mem_singleton.mp hmem)
    exact ⟨rfl, hop⟩
  | _ => simp at hmem

/-- A reset takes a terminal out, or a call that has found its occupant dead. -/
theorem Goes.of_took_mem {pc : Pc} {slot : Option Slot} {terminals : List (Terminal P)}
    {events : List Event} (hgoes : Goes s c call pc slot terminals events) {c' : ℕ}
    (hmem : .took c' t ∈ events) : c' = c ∧ ∃ old, s.slotOf call = some old ∧
      old.occupant = some t ∧ (call.op = .reset ∨ s.alive t = false) := by
  cases hgoes with
  | takes old t' hphase hop hslot hholder hocc =>
    obtain ⟨rfl, rfl⟩ := Event.took.inj (List.mem_singleton.mp hmem)
    exact ⟨rfl, old, hslot, hocc, .inl hop⟩
  | replaces old t' hphase hslot hocc hdead =>
    obtain ⟨rfl, rfl⟩ := Event.took.inj (List.mem_singleton.mp hmem)
    exact ⟨rfl, old, hslot, hocc, .inr hdead⟩
  | _ => simp at hmem

theorem CauseInv.goes (h : CauseInv s) (hp : PoolInv s) (hslots : SlotInv s)
    (hcall : s.calls c = some call) {pc : Pc} {slot : Option Slot}
    {terminals : List (Terminal P)} {events : List Event}
    (hgoes : Goes s c call pc slot terminals events) :
    CauseInv (s.after c call pc slot terminals events) := by
  have hself := after_calls_self s c call pc slot terminals events
  refine h.mono (after_calls_op hcall pc slot terminals events) (fun t => hgoes.dead)
    (fun c' t hmem => (List.mem_append.mp hmem).imp_right fun hnew => ?_)
    fun c' t hmem => (List.mem_append.mp hmem).imp_right fun hnew => ?_
  · obtain ⟨rfl, hop⟩ := hgoes.of_spawned_mem hnew
    exact ⟨_, hself, hop⟩
  · obtain ⟨rfl, old, hslot, hocc, hwhy⟩ := hgoes.of_took_mem hnew
    refine ⟨_, hself, hwhy.imp_right fun hdead => hgoes.dead ?_⟩
    have hold := hp.slotAt_of_slotOf hcall hslot
    obtain ⟨term, hterm, _⟩ := hslots.occupant _ _ old.holder t (by rw [hold, ← hocc])
    exact ⟨term, hterm, by simpa [State.alive, hterm] using hdead⟩

theorem CauseInv.step (h : CauseInv s) (hp : PoolInv s) (hslots : SlotInv s) {a : Act}
    (hstep : terminalsStep s a = some s') : CauseInv s' := by
  obtain ⟨c, user, index, op, _, hnone, hs'⟩ | ⟨c, call, outcome, _, hcall, hgo⟩ |
    ⟨t, term, r, hterm, hlater, rfl, _⟩ := step_cases hstep
  · have hne : ∀ c' call', s.calls c' = some call' → c' ≠ c := by
      rintro c' call' hc' rfl
      rw [hnone] at hc'
      cases hc'
    obtain rfl | ⟨r, rfl⟩ := hs'
    · exact h.mono (fun c' call' hc' => ⟨call', (setCall_calls_of_ne s (hne c' call' hc') _).trans
        hc', rfl⟩) (fun t ht => ht) (fun c' t hmem => .inl hmem) fun c' t hmem => .inl hmem
    · exact h.mono (fun c' call' hc' => ⟨call', (setCall_calls_of_ne s (hne c' call' hc') _).trans
        hc', rfl⟩) (fun t ht => ht)
        (fun c' t hmem => .inl (by simpa [State.finish, State.record, State.goTo, State.setCall]
          using hmem))
        fun c' t hmem => .inl (by simpa [State.finish, State.record, State.goTo, State.setCall]
          using hmem)
  · obtain ⟨hpc, rfl⟩ | ⟨pc, slot, terminals, events, hgoes, rfl⟩ := goes_of_go hgo
    · refine h.mono (fun c' call' hc' => ?_) (fun t ht => ?_) (fun c' t hmem => .inl ?_)
        fun c' t hmem => .inl ?_
      · by_cases hne : c' = c
        · subst hne
          obtain rfl := Option.some.inj (hcall.symm.trans hc')
          exact ⟨_, setCall_calls_self .., rfl⟩
        · exact ⟨call', (setCall_calls_of_ne _ hne _).trans (by rw [pool_calls]; exact hc'), rfl⟩
      · exact ht.later (by rw [State.afterPool, State.setCall, pool_terminals]
                           exact laterAll_refl _)
      · simpa [State.afterPool, State.setCall] using hmem
      · simpa [State.afterPool, State.setCall] using hmem
    · exact h.goes hp hslots hcall hgoes
  · refine h.mono (fun c' call' hc' => ⟨call', hc', rfl⟩)
      (fun t' ht' => ht'.later (laterAll_set hterm hlater)) (fun c' t' hmem => .inl ?_)
      fun c' t' hmem => .inl ?_
    · simpa [State.setTerminal] using hmem
    · simpa [State.setTerminal] using hmem

theorem causeInv_of_reachable (hs : (terminalsSystem P).Reachable s) : CauseInv s := by
  refine System.Reach.invariant ?_ (fun _ _ _ hr h _ hstep =>
    h.step (poolInv_of_reachable hr) (slotInv_of_reachable hr) hstep) hs
  rintro s ⟨slotsPerUser, scrollbackCap, rfl⟩
  exact ⟨fun _ _ h => absurd h (List.not_mem_nil), fun _ _ h => absurd h (List.not_mem_nil)⟩

end

/-! ## What a step leaves alone -/

namespace State

variable {P : Type}

/-- The user and the slot a step has to do with. -/
def target (s : State P) : Act → Option (String × ℕ)
  | .call _ user index _ => some (user, index)
  | .go c _ => (s.calls c).map fun call => (call.user, call.index)
  | .thread t _ => s.terminals[t]?.map Terminal.slot
  | .send c _ => ((s.calls c).bind Call.attachedTo).bind fun t => s.terminals[t]?.map Terminal.slot
  | .redraw c _ =>
    ((s.calls c).bind Call.attachedTo).bind fun t => s.terminals[t]?.map Terminal.slot

/-- A slot with all there is of the terminal in it. One whose pool is yet to be made is free and
empty. -/
def view (s : State P) (user : String) (i : ℕ) : Slot × Option (Terminal P) :=
  let slot := (s.slotAt user i).getD Slot.empty
  (slot, slot.occupant.bind fun t => s.terminals[t]?)

/-- The terminal is in the slot. -/
def Occupies (s : State P) (t : ℕ) (user : String) (i : ℕ) : Prop :=
  ∃ holder, s.slotAt user i = some ⟨holder, some t⟩

end State

/-- What a step may not change. -/
structure Frame {P : Type} (s : State P) (a : Act) (s' : State P) : Prop where
  slots : ∀ user i, s.target a ≠ some (user, i) → s'.view user i = s.view user i
  pools : ∀ user, (∀ i, s.target a ≠ some (user, i)) → s'.userPool user = s.userPool user
  list : ∀ c outcome call, a = .go c outcome → s.calls c = some call → call.op = .list →
    ∀ user i, s'.view user i = s.view user i

section
variable {P : Type} {s s' : State P} {c : ℕ} {call : Call}

theorem view_congr {user : String} {i : ℕ} (hslot : s'.slotAt user i = s.slotAt user i)
    (hterm : ∀ t, s.Occupies t user i → s'.terminals[t]? = s.terminals[t]?) :
    s'.view user i = s.view user i := by
  simp only [State.view, hslot]
  cases hat : s.slotAt user i with
  | none => rfl
  | some slot =>
    rw [Option.getD_some]
    cases hocc : slot.occupant with
    | none => rfl
    | some t =>
      rw [Option.bind_some, Option.bind_some, hterm t ⟨slot.holder, by rw [hat, ← hocc]⟩]

/-- A new pool looks like none. -/
theorem view_afterPool (hp : PoolInv s) (c : ℕ) (call : Call) (user : String) (i : ℕ) :
    (s.afterPool c call).view user i = s.view user i := by
  have hterminals : (s.afterPool c call).terminals = s.terminals := pool_terminals s call.user
  obtain hsame | ⟨hnone, hempty⟩ := slotAt_pool hp call.user user i
  · exact view_congr hsame fun t _ => by rw [hterminals]
  · have hat : (s.afterPool c call).slotAt user i = some Slot.empty := hempty
    simp only [State.view, hat, hnone, Option.getD_some, Option.getD_none]
    rfl

/-- The terminal of a call was spawned for its slot. -/
theorem SlotInv.spawned (h : SlotInv s) (hcall : s.calls c = some call) {t : ℕ}
    (ht : call.pc.phase.terminal = some t) : s.Spawned t call := by
  have hsound := h.sound c call hcall
  cases hphase : call.pc.phase with
  | stopping t' =>
    rw [hphase] at hsound ht
    obtain rfl : t' = t := Option.some.inj ht
    exact hsound.2.1
  | holding t' =>
    rw [hphase] at hsound ht
    obtain rfl : t' = t := Option.some.inj ht
    exact hsound.2.1
  | attaching t' =>
    rw [hphase] at hsound ht
    obtain rfl : t' = t := Option.some.inj ht
    exact h.occupant _ _ (some c) t' hsound
  | resetting t' =>
    rw [hphase] at hsound ht
    obtain rfl : t' = t := Option.some.inj ht
    exact hsound.1
  | outside | checking | viewing | vacant | ended =>
    rw [hphase] at ht
    cases ht

/-- Changing a terminal of one slot does not show in the others. -/
theorem getElem?_set_of_slot {t t' : ℕ} {term term' new : Terminal P}
    (hterm : s.terminals[t]? = some term) (hterm' : s.terminals[t']? = some term')
    (hne : term'.slot ≠ term.slot) : (s.terminals.set t new)[t']? = s.terminals[t']? := by
  refine List.getElem?_set_ne fun heq => hne ?_
  subst heq
  rw [Option.some.inj (hterm.symm.trans hterm')]

/-- A step of a thread or a client is about the slot of its terminal. -/
theorem view_setTerminal (h : SlotInv s) {t : ℕ} {term : Terminal P}
    (hterm : s.terminals[t]? = some term) (r : Terminal P × List PtyCmd) {user : String} {i : ℕ}
    (hne : term.slot ≠ (user, i)) : (s.setTerminal t r).view user i = s.view user i := by
  refine view_congr rfl fun t' ⟨holder, hat⟩ => ?_
  obtain ⟨term', hterm', hfor⟩ := h.occupant user i holder t' hat
  exact getElem?_set_of_slot hterm hterm' (by rw [hfor]; exact hne.symm)

variable [Vt100 P]

/-- The terminals of other slots stay as they are. -/
theorem Goes.getElem?_of_slot {pc : Pc} {slot : Option Slot} {terminals : List (Terminal P)}
    {events : List Event} (hgoes : Goes s c call pc slot terminals events) (h : SlotInv s)
    (hcall : s.calls c = some call) {t : ℕ} {term : Terminal P}
    (hterm : s.terminals[t]? = some term) (hne : term.slot ≠ (call.user, call.index)) :
    terminals[t]? = s.terminals[t]? := by
  have htouch : Touches s call terminals → terminals[t]? = s.terminals[t]? := by
    rintro (rfl | ⟨t', old, new, ht', hold, _, rfl⟩)
    · rfl
    · obtain ⟨old', hold', hfor⟩ := h.spawned hcall ht'
      obtain rfl := Option.some.inj (hold.symm.trans hold')
      exact getElem?_set_of_slot hold hterm (by rwa [hfor])
  cases hgoes with
  | idle _ _ t' cmds hphase htouches => exact htouch htouches
  | told t' _ cmds hphase htouches => exact htouch htouches
  | releases r _ hlocked hstop hhold htouches => exact htouch htouches
  | done t' _ cmds hphase htouches => exact htouch htouches
  | spawns cols rows hphase hop =>
    exact List.getElem?_append_left (List.getElem?_eq_some_iff.mp hterm).1
  | _ => rfl

/-- A step that changes a slot is one of a call that has found it. -/
theorem Goes.slotOf {pc : Pc} {slot : Slot} {terminals : List (Terminal P)}
    {events : List Event} (hgoes : Goes s c call pc (some slot) terminals events) :
    ∃ old, s.slotOf call = some old := by
  generalize hsome : some slot = changed at hgoes
  cases hgoes with
  | takes old t hphase hop hslot => exact ⟨old, hslot⟩
  | locks old _ hphase hslot => exact ⟨old, hslot⟩
  | replaces old t hphase hslot => exact ⟨old, hslot⟩
  | inserts old t hphase hslot => exact ⟨old, hslot⟩
  | releases r _ hlocked =>
    obtain ⟨old, hslot, _⟩ := Option.map_eq_some_iff.mp hsome.symm
    exact ⟨old, hslot⟩
  | _ => cases hsome

theorem view_goes (hp : PoolInv s) (h : SlotInv s) (hcall : s.calls c = some call) {pc : Pc}
    {slot : Option Slot} {terminals : List (Terminal P)} {events : List Event}
    (hgoes : Goes s c call pc slot terminals events) {user : String} {i : ℕ}
    (hne : (call.user, call.index) ≠ (user, i)) :
    (s.after c call pc slot terminals events).view user i = s.view user i := by
  refine view_congr ?_ fun t ⟨holder, hat⟩ => ?_
  · cases slot with
    | none => rfl
    | some slot =>
      obtain ⟨old, hslot⟩ := hgoes.slotOf
      rw [slotAt_after_some hp hcall hslot, if_neg]
      rintro ⟨rfl, rfl⟩
      exact hne rfl
  · obtain ⟨term, hterm, hfor⟩ := h.occupant user i holder t hat
    exact hgoes.getElem?_of_slot h hcall hterm (by rw [hfor]; exact hne.symm)

theorem userPool_goes (hp : PoolInv s) (hcall : s.calls c = some call) {pc : Pc}
    {slot : Option Slot} {terminals : List (Terminal P)} {events : List Event}
    (hgoes : Goes s c call pc slot terminals events) {user : String} (hne : user ≠ call.user) :
    (s.after c call pc slot terminals events).userPool user = s.userPool user := by
  cases slot with
  | none => rfl
  | some slot =>
    obtain ⟨old, hslot⟩ := hgoes.slotOf
    obtain ⟨p, hpool, _⟩ := Option.bind_eq_some_iff.mp hslot
    exact (hp.userPool_setSlotOf hcall hpool slot user).trans (if_neg hne)

/-! ## Lists -/

/-- Where a list may be: it never has a lock. -/
def Pc.Lists (pc : Pc) : Prop :=
  pc = .pooling ∨ (∃ statuses, pc = .listing statuses) ∨ ∃ r, pc = .returned r

/-- A list goes on as a list, and changes nothing but where it is, and perhaps makes the pool. -/
theorem go_list (hop : call.op = .list) (hpc : call.pc.Lists) {outcome : Outcome}
    (h : s.go c call outcome = some s') :
    (∃ pc, pc.Lists ∧ s'.calls = Function.update s.calls c (some { call with pc := pc }) ∧
      s'.heap = s.heap ∧ s'.pools = s.pools ∧ s'.terminals = s.terminals) ∨
    (call.pc = .pooling ∧ s' = s.afterPool c call ∧ call.op.pooled.Lists) := by
  obtain hpc | ⟨statuses, hpc⟩ | ⟨r, hpc⟩ := hpc
  · simp only [State.go, hpc, Option.some.injEq] at h
    refine .inr ⟨hpc, h.symm, .inr (.inl ⟨[], ?_⟩)⟩
    rw [hop]
    rfl
  · simp only [State.go, hpc] at h
    obtain ⟨p, _, h⟩ := Option.bind_eq_some_iff.mp h
    obtain ⟨pool, _, h⟩ := Option.bind_eq_some_iff.mp h
    split at h
    · simp only [Option.ite_none_right_eq_some, Option.some.injEq] at h
      obtain rfl := h.2
      exact .inl ⟨_, .inr (.inl ⟨_, rfl⟩), rfl, rfl, rfl, rfl⟩
    · obtain rfl := Option.some.inj h
      exact .inl ⟨_, .inr (.inr ⟨_, rfl⟩), rfl, rfl, rfl, rfl⟩
  · simp [State.go, hpc] at h

/-- Every list is where a list may be. -/
def ListInv (s : State P) : Prop :=
  ∀ c call, s.calls c = some call → call.op = .list → call.pc.Lists

theorem ListInv.step (h : ListInv s) {a : Act} (hstep : terminalsStep s a = some s') :
    ListInv s' := by
  have hupdate : ∀ {c : ℕ} {call : Call} {calls : ℕ → Option Call},
      (∀ c' call', calls c' = some call' → call'.op = .list → call'.pc.Lists) →
      (call.op = .list → call.pc.Lists) → ∀ c' call',
      Function.update calls c (some call) c' = some call' → call'.op = .list →
      call'.pc.Lists := by
    intro c call calls hold hnew c' call' hc' hop
    by_cases hne : c' = c
    · subst hne
      rw [Function.update_self, Option.some.injEq] at hc'
      exact hc' ▸ hnew (hc' ▸ hop)
    · exact hold c' call' ((Function.update_of_ne hne ..).symm.trans hc') hop
  obtain ⟨c, user, index, op, _, hnone, rfl | ⟨r, rfl⟩⟩ | ⟨c, call, outcome, _, hcall, hgo⟩ |
    ⟨t, term, r, hterm, hlater, rfl, _⟩ := step_cases hstep
  · exact hupdate h fun _ => .inl rfl
  · exact hupdate h fun _ => .inr (.inr ⟨r, rfl⟩)
  · by_cases hop : call.op = .list
    · obtain ⟨pc, hpc, hcalls, _⟩ | ⟨_, rfl, hpc⟩ := go_list hop (h c call hcall hop) hgo
      · rw [ListInv, hcalls]
        exact hupdate h fun _ => hpc
      · refine hupdate ?_ fun _ => hpc
        rw [pool_calls]
        exact h
    · obtain ⟨_, rfl⟩ | ⟨pc, slot, terminals, events, _, rfl⟩ := goes_of_go hgo
      · refine hupdate ?_ fun hlist => absurd hlist hop
        rw [pool_calls]
        exact h
      · exact hupdate h fun hlist => absurd hlist hop
  · exact h

theorem listInv_of_reachable (hs : (terminalsSystem P).Reachable s) : ListInv s := by
  refine System.Reach.invariant ?_ (fun _ _ _ _ h _ hstep => h.step hstep) hs
  rintro s ⟨slotsPerUser, scrollbackCap, rfl⟩ c call hcall
  cases hcall

/-- Every step keeps to its own slot. -/
theorem frame_of_step (hs : (terminalsSystem P).Reachable s) {a : Act}
    (hstep : terminalsStep s a = some s') : Frame s a s' := by
  have hp := poolInv_of_reachable hs
  have hslots := slotInv_of_reachable hs
  obtain ⟨c, user, index, op, rfl, hnone, hs'⟩ | ⟨c, call, outcome, rfl, hcall, hgo⟩ |
    ⟨t, term, r, hterm, hlater, hs', hwho⟩ := step_cases hstep
  · obtain rfl | ⟨r, rfl⟩ := hs'
    · exact ⟨fun _ _ _ => rfl, fun _ _ => rfl, fun _ _ _ _ _ _ _ _ => rfl⟩
    · exact ⟨fun _ _ _ => rfl, fun _ _ => rfl, fun _ _ _ _ _ _ _ _ => rfl⟩
  · have htarget : s.target (.go c outcome) = some (call.user, call.index) := by
      rw [State.target, hcall, Option.map_some]
    have hne : ∀ {user i}, s.target (.go c outcome) ≠ some (user, i) →
        (call.user, call.index) ≠ (user, i) := by
      intro user i h heq
      exact h (by rw [htarget, heq])
    refine ⟨fun user i h => ?_, fun user h => ?_, fun c' o' call' heq hc' hop => ?_⟩
    · obtain ⟨_, rfl⟩ | ⟨pc, slot, terminals, events, hgoes, rfl⟩ := goes_of_go hgo
      · exact view_afterPool hp c call user i
      · exact view_goes hp hslots hcall hgoes (hne h)
    · have huser : user ≠ call.user := by
        rintro rfl
        exact h call.index htarget
      obtain ⟨_, rfl⟩ | ⟨pc, slot, terminals, events, hgoes, rfl⟩ := goes_of_go hgo
      · exact (hp.userPool_pool call.user user).trans (if_neg huser)
      · exact userPool_goes hp hcall hgoes huser
    · obtain ⟨rfl, rfl⟩ := Act.go.inj heq
      obtain rfl := Option.some.inj (hcall.symm.trans hc')
      obtain ⟨pc, _, _, hheap, hpools, hterminals⟩ | ⟨_, rfl, _⟩ :=
        go_list hop (listInv_of_reachable hs c call hcall hop) hgo
      · intro user i
        simp only [State.view, State.slotAt, State.userPool, hheap, hpools, hterminals]
      · exact view_afterPool hp c call
  · have htarget : s.target a = some term.slot := by
      obtain ⟨b, rfl⟩ | ⟨c, call, hcall, ht, ⟨cmd, rfl⟩ | ⟨rx, rfl⟩⟩ := hwho
      · rw [State.target, hterm, Option.map_some]
      · rw [State.target, hcall, Option.bind_some, ht, Option.bind_some, hterm, Option.map_some]
      · rw [State.target, hcall, Option.bind_some, ht, Option.bind_some, hterm, Option.map_some]
    subst hs'
    refine ⟨fun user i h => view_setTerminal hslots hterm r fun hfor => h ?_, fun _ _ => rfl, ?_⟩
    · rw [htarget, hfor]
    · intro c outcome call heq
      obtain ⟨b, rfl⟩ | ⟨_, _, _, _, ⟨cmd, rfl⟩ | ⟨rx, rfl⟩⟩ := hwho
      · cases heq
      · cases heq
      · cases heq

end

/-! ## One live shell -/

/-- A shell of the slot that neither has exited nor was told to stop. -/
def State.Live {P : Type} (s : State P) (user : String) (i t : ℕ) : Prop :=
  ∃ term, s.terminals[t]? = some term ∧ term.slot = (user, i) ∧ term.exited = false ∧
    ∀ c, .stopped c t ∉ s.history

/-- A reset of the slot is in progress. -/
def State.Resetting {P : Type} (s : State P) (user : String) (i : ℕ) : Prop :=
  ∃ c call, s.calls c = some call ∧ call.op = .reset ∧ call.user = user ∧ call.index = i ∧
    call.pc.phase ≠ .ended

/-- The call has stopped the terminal after it took it and before it returned, and has stopped
nothing else. -/
def StoppedOnce (c t : ℕ) (history : List Event) : Prop :=
  ∃ before between after, history = before ++ .took c t :: (between ++ .stopped c t :: after) ∧
    .returned c ∈ after ∧ ∀ t', .stopped c t' ∉ before ++ between ++ after

section
variable {P : Type} {s s' : State P} {c t : ℕ}

/-- A live shell is in its slot, or in the hands of the call that has the lock of the slot or of a
reset of it. -/
theorem SlotInv.of_live (h : SlotInv s) {user : String} {i : ℕ} (hlive : s.Live user i t)
    (hreset : ¬ s.Resetting user i) :
    (∃ holder, s.slotAt user i = some ⟨holder, some t⟩) ∨
      ∃ c call, s.calls c = some call ∧ call.pc.phase.held = some t ∧
        s.slotAt user i = some ⟨some c, none⟩ := by
  obtain ⟨term, hterm, hfor, hexited, hstopped⟩ := hlive
  obtain ⟨user', i', holder, hat⟩ | ⟨c, call, hcall, hheld⟩ := h.kept t term hterm hexited hstopped
  · obtain ⟨term', hterm', hfor'⟩ := h.occupant user' i' holder t hat
    obtain rfl := Option.some.inj (hterm.symm.trans hterm')
    obtain ⟨rfl, rfl⟩ := Prod.mk.inj (hfor.symm.trans hfor')
    exact .inl ⟨holder, hat⟩
  · have hsound := h.sound c call hcall
    have hmine : s.Spawned t call → call.user = user ∧ call.index = i := by
      rintro ⟨term', hterm', hfor'⟩
      obtain rfl := Option.some.inj (hterm.symm.trans hterm')
      obtain ⟨hu, hi⟩ := Prod.mk.inj (hfor'.symm.trans hfor)
      exact ⟨hu, hi⟩
    refine .inr ⟨c, call, hcall, hheld, ?_⟩
    cases hphase : call.pc.phase with
    | stopping t' =>
      rw [hphase] at hsound hheld
      obtain rfl : t' = t := Option.some.inj hheld
      obtain ⟨rfl, rfl⟩ := hmine hsound.2.1
      exact hsound.1
    | holding t' =>
      rw [hphase] at hsound hheld
      obtain rfl : t' = t := Option.some.inj hheld
      obtain ⟨rfl, rfl⟩ := hmine hsound.2.1
      exact hsound.1
    | resetting t' =>
      rw [hphase] at hsound hheld
      obtain rfl : t' = t := Option.some.inj hheld
      obtain ⟨rfl, rfl⟩ := hmine hsound.1
      exact absurd ⟨c, call, hcall, hsound.2, rfl, rfl, by rw [hphase]; simp⟩ hreset
    | outside | checking | viewing | vacant | attaching t' | ended =>
      rw [hphase] at hheld
      cases hheld

theorem SlotInv.live_unique (h : SlotInv s) {user : String} {i t t' : ℕ}
    (hreset : ¬ s.Resetting user i) (hlive : s.Live user i t) (hlive' : s.Live user i t') :
    t = t' := by
  obtain ⟨holder, hat⟩ | ⟨c, call, hcall, hheld, hat⟩ := h.of_live hlive hreset
  · obtain ⟨holder', hat'⟩ | ⟨c', call', _, _, hat'⟩ := h.of_live hlive' hreset
    · cases hat.symm.trans hat'
      rfl
    · cases hat.symm.trans hat'
  · obtain ⟨holder', hat'⟩ | ⟨c', call', hcall', hheld', hat'⟩ := h.of_live hlive' hreset
    · cases hat.symm.trans hat'
    · -- both are in the hands of the one call that has the lock
      cases hat.symm.trans hat'
      obtain rfl := Option.some.inj (hcall.symm.trans hcall')
      exact Option.some.inj (hheld.symm.trans hheld')

/-- What a call that took a terminal has done when it has returned. -/
theorem LedgerInv.own_of_returned (h : LedgerInv s) (htook : .took c t ∈ s.history)
    (hreturned : .returned c ∈ s.history) :
    own c s.history = [.took c t, .stopped c t, .returned c] ∨
      ∃ t', own c s.history = [.took c t, .stopped c t, .spawned c t', .returned c] := by
  have htook' : .took c t ∈ own c s.history := List.mem_filter.mpr ⟨htook, by simp [Event.call]⟩
  have hreturned' : .returned c ∈ own c s.history :=
    List.mem_filter.mpr ⟨hreturned, by simp [Event.call]⟩
  cases hcall : s.calls c with
  | none =>
    rw [h.uncalled c hcall] at htook'
    cases htook'
  | some call =>
    have hledger := h.called c call hcall
    -- no call but one that has ended has returned
    have hno : ∀ t', Respawned c t' (own c s.history) → False := by
      rintro t' ⟨emptied, rfl | ⟨t'', rfl⟩, heq⟩
      · simp [heq] at hreturned'
      · simp [heq] at hreturned'
    cases hphase : call.pc.phase with
    | ended =>
      rw [hphase] at hledger
      obtain ⟨acted, (rfl | ⟨t', rfl⟩) | ⟨t'', emptied, rfl | ⟨t', rfl⟩, rfl⟩, heq⟩ := hledger
      · simp [heq] at htook'
      · rw [heq] at htook' ⊢
        obtain rfl : t = t' := by simpa using htook'
        exact .inl rfl
      · simp [heq] at htook'
      · rw [heq] at htook' ⊢
        obtain rfl : t = t' := by simpa using htook'
        exact .inr ⟨t'', rfl⟩
    | vacant =>
      rw [hphase] at hledger
      obtain hnil | ⟨t', heq⟩ := hledger
      · simp [hnil] at htook'
      · simp [heq] at hreturned'
    | holding t' =>
      rw [hphase] at hledger
      exact (hno t' hledger).elim
    | attaching t' =>
      rw [hphase] at hledger
      obtain hnil | hledger := hledger
      · simp [hnil] at htook'
      · exact (hno t' hledger).elim
    | outside | checking | viewing | stopping t' | resetting t' =>
      rw [hphase] at hledger
      have heq : own c s.history = _ := hledger
      simp [heq] at hreturned'

/-- What is not among a call's own events has not happened. -/
theorem not_mem_of_own {history : List Event} {e : Event} (he : e.call = some c)
    (hnot : e ∉ own c history) : e ∉ history := fun hmem =>
  hnot (List.mem_filter.mpr ⟨hmem, by rw [decide_eq_true_eq, he]⟩)

theorem LedgerInv.stoppedOnce (h : LedgerInv s) (htook : .took c t ∈ s.history)
    (hreturned : .returned c ∈ s.history) : StoppedOnce c t s.history := by
  obtain ⟨rest, hown, hin, hnot⟩ : ∃ rest, own c s.history = .took c t :: .stopped c t :: rest ∧
      .returned c ∈ rest ∧ ∀ t', .stopped c t' ∉ rest := by
    obtain hown | ⟨t', hown⟩ := h.own_of_returned htook hreturned
    · exact ⟨_, hown, by simp, by simp⟩
    · exact ⟨_, hown, by simp, by simp⟩
  obtain ⟨before, rest', hsplit, hbefore, _, hrest'⟩ := List.filter_eq_cons_iff.mp hown
  obtain ⟨between, after, rfl, hbetween, _, hafter⟩ := List.filter_eq_cons_iff.mp hrest'
  refine ⟨before, between, after, hsplit, ?_, fun t' hmem => ?_⟩
  · rw [← hafter] at hin
    exact (List.mem_filter.mp hin).1
  · have hown' : own c (before ++ between ++ after) = rest := by
      rw [own_append, own_append, own, own, own, hafter, List.filter_eq_nil_iff.mpr hbefore,
        List.filter_eq_nil_iff.mpr hbetween]
      rfl
    exact not_mem_of_own rfl (hown' ▸ hnot t') hmem

/-- A shell stays in its slot if a change of that slot leaves it there. -/
theorem occupies_after_some (hp : PoolInv s) {call : Call} (hcall : s.calls c = some call)
    {old new : Slot} (hslot : s.slotOf call = some old) {user : String} {i : ℕ}
    (hocc : s.Occupies t user i)
    (hsame : user = call.user ∧ i = call.index → old.occupant = some t → new.occupant = some t)
    (pc : Pc) (terminals : List (Terminal P)) (events : List Event) :
    (s.after c call pc (some new) terminals events).Occupies t user i := by
  obtain ⟨holder, hat⟩ := hocc
  rw [State.Occupies, slotAt_after_some hp hcall hslot]
  split
  next hown =>
    obtain ⟨rfl, rfl⟩ := hown
    have hold := hp.slotAt_of_slotOf hcall hslot
    obtain rfl := Option.some.inj (hat.symm.trans hold)
    exact ⟨new.holder, by rw [← hsame ⟨rfl, rfl⟩ rfl]⟩
  next => exact ⟨holder, hat⟩

variable [Vt100 P]

/-- Why a shell leaves its slot: a call takes it. -/
theorem took_of_step (hs : (terminalsSystem P).Reachable s) {a : Act}
    (hstep : terminalsStep s a = some s') {user : String} {i : ℕ} (hocc : s.Occupies t user i) :
    s'.Occupies t user i ∨ ∃ c outcome, a = .go c outcome ∧
      s'.history = s.history ++ [.took c t] := by
  have hp := poolInv_of_reachable hs
  obtain ⟨c, user', index, op, rfl, hnone, hs'⟩ | ⟨c, call, outcome, rfl, hcall, hgo⟩ |
    ⟨t', term, r, hterm, hlater, rfl, hwho⟩ := step_cases hstep
  · obtain rfl | ⟨r, rfl⟩ := hs'
    · exact .inl hocc
    · exact .inl hocc
  · obtain ⟨_, rfl⟩ | ⟨pc, slot, terminals, events, hgoes, rfl⟩ := goes_of_go hgo
    · obtain ⟨holder, hat⟩ := hocc
      refine .inl ⟨holder, ?_⟩
      obtain hsame | ⟨hnone, _⟩ := slotAt_pool hp call.user user i
      · exact hsame.trans hat
      · rw [hnone] at hat
        cases hat
    · have htakes : ∀ {old : Slot} {t' : ℕ} {pc : Pc}, s.slotOf call = some old →
          old.occupant = some t' →
          (s.after c call pc (some { old with occupant := none }) s.terminals
            [.took c t']).Occupies t user i ∨ t = t' := by
        intro old t' pc hslot hold
        by_cases heq : t = t'
        · exact .inr heq
        · refine .inl (occupies_after_some hp hcall hslot hocc (fun _ hold' => ?_) ..)
          exact absurd (Option.some.inj (hold'.symm.trans hold)) heq
      cases hgoes with
      | takes old t' hphase hop hslot hholder hold =>
        exact (htakes hslot hold).imp_right fun heq => ⟨c, outcome, rfl, by rw [heq]; rfl⟩
      | replaces old t' hphase hslot hold hdead =>
        exact (htakes hslot hold).imp_right fun heq => ⟨c, outcome, rfl, by rw [heq]; rfl⟩
      | locks old _ hphase hslot hholder hpc =>
        refine .inl (occupies_after_some hp hcall hslot hocc (fun _ hold => ?_) ..)
        exact hold
      | inserts old t' hphase hslot =>
        have hsound := (slotInv_of_reachable hs).sound c call hcall
        rw [hphase] at hsound
        have hold := hp.slotAt_of_slotOf hcall hslot
        obtain rfl := Option.some.inj (hold.symm.trans hsound.1)
        exact .inl (occupies_after_some hp hcall hslot hocc (fun _ hold => by cases hold) ..)
      | releases r _ hlocked hstop hhold htouches =>
        cases hslot : s.slotOf call with
        | none => exact .inl hocc
        | some old =>
          refine .inl (occupies_after_some hp hcall hslot hocc (fun _ hold => ?_) ..)
          exact hold
      | _ => exact .inl hocc
  · exact .inl hocc

/-- Why there is a new shell: an attach has spawned it, with the lock of an empty slot, and what it
has taken out of that was dead. -/
theorem spawned_of_step (hs : (terminalsSystem P).Reachable s) {a : Act}
    (hstep : terminalsStep s a = some s') (hnew : s.terminals.length < s'.terminals.length) :
    ∃ c call outcome, a = .go c outcome ∧ s.calls c = some call ∧ call.op.isAttach = true ∧
      s.slotAt call.user call.index = some ⟨some c, none⟩ ∧
      ∀ t, .took c t ∈ s.history → s.Dead t := by
  have hslots := slotInv_of_reachable hs
  obtain ⟨c, user', index, op, rfl, hnone, hs'⟩ | ⟨c, call, outcome, rfl, hcall, hgo⟩ |
    ⟨t', term, r, hterm, hlater, rfl, hwho⟩ := step_cases hstep
  · obtain rfl | ⟨r, rfl⟩ := hs'
    · exact absurd hnew (lt_irrefl _)
    · exact absurd hnew (lt_irrefl _)
  · obtain ⟨_, rfl⟩ | ⟨pc, slot, terminals, events, hgoes, rfl⟩ := goes_of_go hgo
    · rw [State.afterPool, State.setCall, pool_terminals] at hnew
      exact absurd hnew (lt_irrefl _)
    · have hsame : LaterAll s.terminals terminals → False := fun hlater =>
        absurd hnew (by rw [hlater.length_eq]; exact lt_irrefl _)
      cases hgoes with
      | spawns cols rows hphase hop =>
        have hsound := hslots.sound c call hcall
        rw [hphase] at hsound
        refine ⟨c, call, outcome, rfl, hcall, hop, hsound.1, fun t htook => ?_⟩
        obtain ⟨call', hcall', hwhy⟩ := (causeInv_of_reachable hs).took c t htook
        obtain rfl := Option.some.inj (hcall.symm.trans hcall')
        refine hwhy.resolve_left fun hreset => ?_
        rw [hreset] at hop
        cases hop
      | idle _ _ t cmds hphase htouches => exact (hsame htouches.laterAll).elim
      | told t _ cmds hphase htouches => exact (hsame htouches.laterAll).elim
      | releases r _ hlocked hstop hhold htouches => exact (hsame htouches.laterAll).elim
      | done t _ cmds hphase htouches => exact (hsame htouches.laterAll).elim
      | _ => exact (hsame (laterAll_refl _)).elim
  · refine absurd hnew ?_
    rw [State.setTerminal, List.length_set]
    exact lt_irrefl _

/-- **One live shell per slot.** While no reset of a slot is in progress, it has at most one shell
that neither has exited nor was told to stop. A shell leaves its slot only when a call takes it,
which stops it, once, before it returns. Only attaches spawn, and only for a slot that is empty or
whose shell was marked dead. And no step changes another slot, or another user's pool. -/
theorem one_live_shell (hs : (terminalsSystem P).Reachable s) :
    (∀ user i, ¬ s.Resetting user i →
      ∀ t t', s.Live user i t → s.Live user i t' → t = t') ∧
    (∀ c t, .took c t ∈ s.history → .returned c ∈ s.history → StoppedOnce c t s.history) ∧
    (∀ c t, .spawned c t ∈ s.history →
      ∃ call, s.calls c = some call ∧ call.op.isAttach = true) ∧
    ∀ a s', (terminalsSystem P).step s a = some s' →
      (∀ t user i, s.Occupies t user i → s'.Occupies t user i ∨
        ∃ c outcome, a = .go c outcome ∧ s'.history = s.history ++ [.took c t]) ∧
      (s.terminals.length < s'.terminals.length →
        ∃ c call outcome, a = .go c outcome ∧ s.calls c = some call ∧ call.op.isAttach = true ∧
          s.slotAt call.user call.index = some ⟨some c, none⟩ ∧
          ∀ t, .took c t ∈ s.history → s.Dead t) ∧
      Frame s a s' := by
  have hslots := slotInv_of_reachable hs
  refine ⟨fun user i hreset t t' => hslots.live_unique hreset, fun c t htook hreturned => ?_,
    (causeInv_of_reachable hs).spawned, fun a s' hstep => ⟨fun t user i hocc => ?_, ?_, ?_⟩⟩
  · exact (ledgerInv_of_reachable hs).stoppedOnce htook hreturned
  · exact took_of_step hs hstep hocc
  · exact spawned_of_step hs hstep
  · exact frame_of_step hs hstep

end

/-- The call takes so many steps. -/
def goes (c n : ℕ) : List Act := List.replicate n (.go c (.works 7))

/-- An attach spawns a shell, whose reader thread ends; another attach replaces it, and a reset
takes out the new one. -/
def respawnRun : List Act :=
  .call 0 "alice" 1 (.attach 80 24 none) :: goes 0 9 ++
  .thread 0 .readEnds :: .call 1 "alice" 1 (.attach 80 24 none) :: goes 1 12 ++
  .call 2 "alice" 1 .reset :: goes 2 5

/-- Who has stopped which shell then. -/
theorem one_live_shell_respawnRun :
    ∃ s, (terminalsSystem Unit).run (newTerminals Unit 2 64) respawnRun = some s ∧
      StoppedOnce 1 0 s.history ∧ StoppedOnce 2 1 s.history := by
  have hrun : ((terminalsSystem Unit).run (newTerminals Unit 2 64) respawnRun).map State.history =
      some [.spawned 0 0, .queued 0 (.resize 80 24), .returned 0, .took 1 0, .queued 0 .kill,
        .stopped 1 0, .spawned 1 1, .queued 1 (.resize 80 24), .returned 1, .took 2 1,
        .queued 1 .kill, .stopped 2 1, .returned 2] := by decide
  obtain ⟨s, hs, hhistory⟩ := Option.map_eq_some_iff.mp hrun
  have hnew : (terminalsSystem Unit).Reachable (newTerminals Unit 2 64) := .init ⟨2, 64, rfl⟩
  obtain ⟨_, hstops, _⟩ := one_live_shell (System.Reachable.run hnew hs)
  refine ⟨s, hs, hstops 1 0 ?_ ?_, hstops 2 1 ?_ ?_⟩ <;> simp [hhistory]

end Webshell.Terminals
