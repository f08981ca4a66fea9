import Webshell.App.Settings
import Webshell.Terminals.PoolSteps

/-!
# The budget of the scrollback

How much output the slots of all pools retain. A ring is as large as the configuration divides its
budget among the slots of one pool, and there is a pool for every identity.

## Main definitions

- `State.occupied`: the slots of all pools that have a terminal
- `State.retained`: the length of their rings
- `configuredSystem`: the terminals of a server run with its configuration
- `HasBudget`: a terminal is put into a slot only if the budget covers one more ring

## Main results

- `retained_le_budget`: with such steps, the rings stay within the budget
- `budget_exceeded`: seventeen identities with one slot each
-/

namespace Webshell.Terminals

open Transition

variable {P : Type}

/-- The ring of a terminal has the capacity and keeps within it. -/
def Terminal.Fits (cap : ℕ) (term : Terminal P) : Prop :=
  term.shell.scrollback.cap = cap ∧ term.shell.scrollback.buf.length ≤ cap

namespace State

/-- The slots of all pools that have a terminal. -/
def occupied (s : State P) : ℕ :=
  (s.heap.map fun pool => pool.countP fun slot => slot.occupant.isSome).sum

def ringLength (s : State P) (slot : Slot) : ℕ :=
  (slot.occupant.bind fun t => s.terminals[t]?).elim 0 fun term =>
    term.shell.scrollback.buf.length

/-- The length of the rings over all slots of all pools. -/
def retained (s : State P) : ℕ := (s.heap.map fun pool => (pool.map s.ringLength).sum).sum

end State

section
variable [Vt100 P] {s s' : State P} {term term' : Terminal P} {cap c : ℕ} {call : Call}
  {outcome : Outcome}

/-! ## The rings -/

omit [Vt100 P] in
theorem Terminal.Fits.congr (h : term.Fits cap) (hshell : term'.shell = term.shell) :
    term'.Fits cap := by
  rw [Terminal.Fits, hshell]
  exact h

theorem Terminal.fits_spawn (slot : String × ℕ) (cap cols rows : ℕ) :
    (Terminal.spawn slot cap cols rows : Terminal P).Fits cap :=
  ⟨rfl, Nat.zero_le _⟩

theorem Terminal.Fits.readChunk (h : term.Fits cap) (chunk : List UInt8) :
    ({ term with shell := term.shell.readChunk chunk } : Terminal P).Fits cap := by
  refine ⟨h.1, ?_⟩
  show (popFront term.shell.scrollback.cap _).2.length ≤ cap
  rw [popFront_eq, h.1, List.length_drop]
  omega

/-- A thread that is not the reader leaves the ring alone. -/
theorem Terminal.Fits.step {a : ThreadAct} {cmds : List MuxBridge.PtyCmd} (h : term.Fits cap)
    (hstep : term.step a = some (term', cmds)) : term'.Fits cap := by
  cases a with
  | readChunk chunk =>
    simp only [Terminal.step, Option.ite_none_right_eq_some, Option.some.injEq,
      Prod.mk.injEq] at hstep
    obtain ⟨_, rfl, _⟩ := hstep
    exact h.readChunk chunk
  | exit =>
    simp only [Terminal.step, Option.ite_none_left_eq_some, Option.some.injEq,
      Prod.mk.injEq] at hstep
    obtain ⟨_, rfl, _⟩ := hstep
    exact h
  | recv =>
    simp only [Terminal.step] at hstep
    split at hstep
    next cmd input _ _ =>
      obtain ⟨rfl, _⟩ := Prod.mk.inj (Option.some.inj hstep)
      cases cmd <;> exact h
    next => cases hstep
  | wrote ok =>
    simp only [Terminal.step] at hstep
    split at hstep
    · split at hstep
      · obtain ⟨rfl, _⟩ := Prod.mk.inj (Option.some.inj hstep)
        exact h
      · obtain ⟨rfl, _⟩ := Prod.mk.inj (Option.some.inj hstep)
        exact h
    · cases hstep
  | resizeModel =>
    simp only [Terminal.step] at hstep
    split at hstep
    next cols rows _ =>
      obtain ⟨rfl, _⟩ := Prod.mk.inj (Option.some.inj hstep)
      refine ⟨?_, ?_⟩
      · simp only [Scrollback.resize]
        split
        · exact h.1
        · exact h.1
      · simp only [Scrollback.resize]
        split
        · exact h.2
        · exact h.2
    next => cases hstep
  | nudge =>
    simp only [Terminal.step, Option.ite_none_right_eq_some, Option.some.injEq] at hstep
    have hterm : term' = ({ term with reader := .ended }.offer .kill).1 := by rw [hstep.2]
    rw [hterm]
    exact h
  | readEnds | sendShutdown | recvEnds | childKilled | retire | wait =>
    simp only [Terminal.step, Option.ite_none_right_eq_some, Option.some.injEq,
      Prod.mk.injEq] at hstep
    obtain ⟨_, rfl, _⟩ := hstep
    exact h

theorem Terminal.Fits.redraw (h : term.Fits cap) (rx : ℕ) :
    ({ term with shell := (term.shell.redraw rx).2.1 } : Terminal P).Fits cap := by
  refine ⟨?_, ?_⟩
  · simp only [Shell.redraw, Scrollback.screenSnapshot]
    split
    · exact h.1
    · exact h.1
  · simp only [Shell.redraw, Scrollback.screenSnapshot]
    split
    · exact h.2
    · exact h.2

omit [Vt100 P] in
theorem Terminal.shell_stopStep (term : Terminal P) (stage : StopStage) :
    (term.stopStep stage).1.shell = term.shell := by
  cases stage <;> rfl

/-- All the rings there are. -/
def RingsFit (s : State P) : Prop := ∀ term ∈ s.terminals, term.Fits s.scrollbackCap

section
omit [Vt100 P]

theorem RingsFit.congr (h : RingsFit s) (hcap : s'.scrollbackCap = s.scrollbackCap)
    (hterminals : s'.terminals = s.terminals) : RingsFit s' := by
  rw [RingsFit, hcap, hterminals]
  exact h

theorem RingsFit.setSlotOf (h : RingsFit s) (call : Call) (slot : Slot) :
    RingsFit (s.setSlotOf call slot) :=
  h.congr (setSlotOf_scrollbackCap ..) (setSlotOf_terminals ..)

theorem RingsFit.release (h : RingsFit s) (call : Call) : RingsFit (s.release call) := by
  rw [State.release]
  split
  · exact h.setSlotOf call _
  · exact h

theorem RingsFit.set (h : RingsFit s) {t : ℕ} {r : Terminal P × List MuxBridge.PtyCmd}
    (hr : r.1.Fits s.scrollbackCap) : RingsFit (s.setTerminal t r) := by
  intro term' hmem
  obtain hold | rfl := List.mem_or_eq_of_mem_set hmem
  · exact h term' hold
  · exact hr

/-- A terminal whose shell stays as it is. -/
theorem RingsFit.setTerminal (h : RingsFit s) {t : ℕ} {r : Terminal P × List MuxBridge.PtyCmd}
    (hterm : s.terminals[t]? = some term) (hshell : r.1.shell = term.shell) :
    RingsFit (s.setTerminal t r) :=
  h.set ((h term (List.mem_of_getElem? hterm)).congr hshell)

end

/-- A call changes no ring; a new one is empty. -/
theorem RingsFit.go (h : RingsFit s) (hgo : s.go c call outcome = some s') : RingsFit s' := by
  cases hpc : call.pc with
  | pooling =>
    simp only [State.go, hpc, Option.some.injEq] at hgo
    subst hgo
    exact h.congr (pool_scrollbackCap ..) (pool_terminals ..)
  | listing statuses =>
    simp only [State.go, hpc] at hgo
    obtain ⟨p, _, hgo⟩ := Option.bind_eq_some_iff.mp hgo
    obtain ⟨pool, _, hgo⟩ := Option.bind_eq_some_iff.mp hgo
    split at hgo
    · obtain ⟨_, hgo⟩ := Option.ite_none_right_eq_some.mp hgo
      obtain rfl := Option.some.inj hgo
      exact h
    · obtain rfl := Option.some.inj hgo
      exact h
  | locking =>
    simp only [State.go, hpc] at hgo
    obtain ⟨slot, _, hgo⟩ := Option.bind_eq_some_iff.mp hgo
    obtain ⟨_, hgo⟩ := Option.ite_none_right_eq_some.mp hgo
    split at hgo
    · split at hgo
      · obtain rfl := Option.some.inj hgo
        exact h
      · obtain rfl := Option.some.inj hgo
        exact h.setSlotOf call _
    · obtain rfl := Option.some.inj hgo
      exact h.setSlotOf call _
    · obtain rfl := Option.some.inj hgo
      exact h.setSlotOf call _
  | checking =>
    simp only [State.go, hpc] at hgo
    obtain ⟨slot, _, hgo⟩ := Option.bind_eq_some_iff.mp hgo
    split at hgo
    · obtain rfl := Option.some.inj hgo
      exact h
    · split at hgo
      · obtain rfl := Option.some.inj hgo
        exact h
      · obtain rfl := Option.some.inj hgo
        exact h.setSlotOf call _
  | stopping t stage | resetting t stage =>
    simp only [State.go, hpc] at hgo
    obtain ⟨term, hterm, hgo⟩ := Option.bind_eq_some_iff.mp hgo
    have hset := h.setTerminal hterm (term.shell_stopStep stage)
    split at hgo
    · obtain rfl := Option.some.inj hgo
      exact hset
    · obtain rfl := Option.some.inj hgo
      exact hset
  | spawning =>
    simp only [State.go, hpc] at hgo
    split at hgo
    next cols rows _ _ _ =>
      obtain rfl := Option.some.inj hgo
      intro term hmem
      obtain hold | hnew := List.mem_append.mp hmem
      · exact h term hold
      · rw [List.mem_singleton] at hnew
        rw [hnew]
        exact Terminal.fits_spawn ..
    next =>
      obtain rfl := Option.some.inj hgo
      exact h.release call
    next => cases hgo
  | starting t =>
    simp only [State.go, hpc] at hgo
    obtain ⟨term, hterm, hgo⟩ := Option.bind_eq_some_iff.mp hgo
    split at hgo
    · obtain rfl := Option.some.inj hgo
      exact h.setTerminal hterm rfl
    · obtain rfl := Option.some.inj hgo
      exact h
  | killing t e =>
    simp only [State.go, hpc] at hgo
    obtain ⟨term, hterm, hgo⟩ := Option.bind_eq_some_iff.mp hgo
    obtain rfl := Option.some.inj hgo
    exact h.setTerminal hterm rfl
  | reaping t e =>
    simp only [State.go, hpc] at hgo
    obtain ⟨term, _, hgo⟩ := Option.bind_eq_some_iff.mp hgo
    obtain ⟨_, hgo⟩ := Option.ite_none_right_eq_some.mp hgo
    obtain rfl := Option.some.inj hgo
    exact h.release call
  | inserting t =>
    simp only [State.go, hpc] at hgo
    obtain ⟨slot, _, hgo⟩ := Option.bind_eq_some_iff.mp hgo
    obtain rfl := Option.some.inj hgo
    exact h.setSlotOf call _
  | resizing t =>
    simp only [State.go, hpc] at hgo
    obtain ⟨term, hterm, hgo⟩ := Option.bind_eq_some_iff.mp hgo
    split at hgo
    · obtain rfl := Option.some.inj hgo
      exact h.setTerminal hterm rfl
    · cases hgo
  | viewing =>
    simp only [State.go, hpc] at hgo
    obtain ⟨slot, _, hgo⟩ := Option.bind_eq_some_iff.mp hgo
    split at hgo
    · obtain rfl := Option.some.inj hgo
      exact h
    · obtain rfl := Option.some.inj hgo
      exact h.release call
    · obtain rfl := Option.some.inj hgo
      exact h.release call
    · cases hgo
  | cutting t =>
    simp only [State.go, hpc] at hgo
    obtain ⟨term, _, hgo⟩ := Option.bind_eq_some_iff.mp hgo
    obtain rfl := Option.some.inj hgo
    exact h
  | subscribing t attachment =>
    simp only [State.go, hpc] at hgo
    obtain ⟨term, hterm, hgo⟩ := Option.bind_eq_some_iff.mp hgo
    obtain rfl := Option.some.inj hgo
    have hset : RingsFit
        (s.setTerminal t ({ term with shutdown := term.shutdown.subscribe c }, [])) :=
      h.setTerminal hterm rfl
    exact hset.release call
  | returned r =>
    simp only [State.go, hpc] at hgo
    cases hgo

theorem RingsFit.step {a : Act} (h : RingsFit s) (hstep : terminalsStep s a = some s') :
    RingsFit s' := by
  cases a with
  | call c user index op =>
    simp only [terminalsStep, Option.ite_none_right_eq_some] at hstep
    replace hstep := hstep.2
    split at hstep
    · split at hstep
      · obtain rfl := Option.some.inj hstep
        exact h
      · obtain rfl := Option.some.inj hstep
        exact h
    · obtain rfl := Option.some.inj hstep
      exact h
  | go c outcome =>
    obtain ⟨call, _, hgo⟩ := Option.bind_eq_some_iff.mp hstep
    exact h.go hgo
  | thread t a =>
    obtain ⟨term, hterm, hstep⟩ := Option.bind_eq_some_iff.mp hstep
    obtain ⟨⟨term', cmds⟩, hr, hstep⟩ := Option.bind_eq_some_iff.mp hstep
    obtain rfl := Option.some.inj hstep
    have hfits := (h term (List.mem_of_getElem? hterm)).step hr
    exact h.set hfits
  | send c cmd =>
    obtain ⟨call, _, hstep⟩ := Option.bind_eq_some_iff.mp hstep
    obtain ⟨t, _, hstep⟩ := Option.bind_eq_some_iff.mp hstep
    obtain ⟨term, hterm, hstep⟩ := Option.bind_eq_some_iff.mp hstep
    obtain ⟨_, hstep⟩ := Option.ite_none_right_eq_some.mp hstep
    obtain rfl := Option.some.inj hstep
    exact h.setTerminal hterm rfl
  | redraw c rx =>
    obtain ⟨call, _, hstep⟩ := Option.bind_eq_some_iff.mp hstep
    obtain ⟨t, _, hstep⟩ := Option.bind_eq_some_iff.mp hstep
    obtain ⟨term, hterm, hstep⟩ := Option.bind_eq_some_iff.mp hstep
    obtain rfl := Option.some.inj hstep
    have hfits := (h term (List.mem_of_getElem? hterm)).redraw rx
    exact h.set hfits

/-! ## The slots that have a terminal -/

section
omit [Vt100 P]

theorem countP_set_le {slot : Slot} {i k : ℕ} {pool : UserPool}
    (h : ∀ old, pool[i]? = some old → slot.occupant.isSome = true →
      old.occupant.isSome = true ∨ k = 1) :
    ((pool.set i slot).countP fun slot => slot.occupant.isSome) ≤
      (pool.countP fun slot => slot.occupant.isSome) + k := by
  induction pool generalizing i with
  | nil => exact Nat.le_add_right _ _
  | cons old pool ih =>
    cases i with
    | zero =>
      have hslot := h old rfl
      rw [List.set_cons_zero, List.countP_cons, List.countP_cons]
      split
      next hsome =>
        obtain hold | rfl := hslot hsome
        · rw [if_pos hold]
          omega
        · omega
      next => omega
    | succ i =>
      have hrest := ih fun old hold => h old hold
      rw [List.set_cons_succ, List.countP_cons, List.countP_cons]
      omega

theorem sum_map_modify_le {α : Type} {f : α → α} {weight : α → ℕ} {p k : ℕ} {xs : List α}
    (h : ∀ x, xs[p]? = some x → weight (f x) ≤ weight x + k) :
    ((xs.modify p f).map weight).sum ≤ (xs.map weight).sum + k := by
  induction xs generalizing p with
  | nil =>
    rw [List.modify_nil]
    exact Nat.le_add_right _ _
  | cons x xs ih =>
    cases p with
    | zero =>
      have hx := h x rfl
      rw [List.modify_zero_cons, List.map_cons, List.map_cons, List.sum_cons, List.sum_cons]
      omega
    | succ p =>
      have hrest := ih fun x hx => h x hx
      rw [List.modify_succ_cons, List.map_cons, List.map_cons, List.sum_cons, List.sum_cons]
      omega

/-- A slot changes: if it had no terminal, there may be one more that has. -/
theorem occupied_setSlotOf_le {slot : Slot} {k : ℕ}
    (h : ∀ old, s.slotOf call = some old → slot.occupant.isSome = true →
      old.occupant.isSome = true ∨ k = 1) :
    (s.setSlotOf call slot).occupied ≤ s.occupied + k := by
  rw [State.setSlotOf]
  split
  next p hp =>
    refine sum_map_modify_le fun pool hpool => countP_set_le fun old hold => h old ?_
    rw [State.slotOf, hp, Option.bind_some, State.slot, hpool, Option.bind_some, hold]
  next => exact Nat.le_add_right _ _

/-- A new pool has no terminals. -/
theorem occupied_pool (s : State P) (user : String) : (s.pool user).1.occupied = s.occupied := by
  rw [State.pool]
  split
  · rfl
  · have hempty : ((UserPool.new s.slotsPerUser).countP fun slot => slot.occupant.isSome) = 0 := by
      rw [UserPool.new, List.countP_replicate]
      rfl
    simp only [State.occupied, List.map_append, List.sum_append, List.map_cons, List.map_nil,
      List.sum_cons, List.sum_nil, hempty, Nat.add_zero]

theorem occupied_after (s : State P) (c : ℕ) (call : Call) (pc : Pc) (slot : Option Slot)
    (terminals : List (Terminal P)) (events : List Event) :
    (s.after c call pc slot terminals events).occupied =
      (slot.elim s (s.setSlotOf call)).occupied := rfl

end

/-- A terminal is put into a slot only if the budget covers one more ring than there are slots with
a terminal. -/
def HasBudget (budget : ℕ) (s : State P) (a : Act) : Prop :=
  ∀ c outcome call t, a = .go c outcome → s.calls c = some call → call.pc = .inserting t →
    (s.occupied + 1) * s.scrollbackCap ≤ budget

/-- Only a call that is inserting a terminal fills a slot. -/
theorem Goes.occupied_le {pc : Pc} {slot : Option Slot} {terminals : List (Terminal P)}
    {events : List Event} (h : Goes s c call pc slot terminals events) :
    (slot.elim s (s.setSlotOf call)).occupied ≤ s.occupied ∨
      ∃ t, call.pc.phase = .holding t ∧ pc = .resizing t ∧
        (slot.elim s (s.setSlotOf call)).occupied ≤ s.occupied + 1 := by
  have hkept : ∀ new : Slot, (∀ old, s.slotOf call = some old → new.occupant.isSome = true →
      old.occupant.isSome = true) → (s.setSlotOf call new).occupied ≤ s.occupied :=
    fun new hnew => occupied_setSlotOf_le (k := 0) fun old hold hsome => .inl (hnew old hold hsome)
  cases h with
  | idle | ends | vacant | uses | told | spawns | done => exact .inl le_rfl
  | takes slot t hphase hop hslot | replaces slot t hphase hslot =>
    exact .inl (hkept _ fun old hold hsome => by cases hsome)
  | locks slot pc hphase hslot =>
    refine .inl (hkept _ fun old hold hsome => ?_)
    obtain rfl := Option.some.inj (hslot.symm.trans hold)
    exact hsome
  | releases r =>
    refine .inl ?_
    cases hslot : s.slotOf call with
    | none => exact le_rfl
    | some slot =>
      refine hkept _ fun old hold hsome => ?_
      obtain rfl := Option.some.inj (hslot.symm.trans hold)
      exact hsome
  | inserts slot t hphase hslot =>
    exact .inr ⟨t, hphase, rfl, occupied_setSlotOf_le fun _ _ _ => .inr rfl⟩

/-- Of the calls that hold a new shell, only one that inserts it goes on to use it. -/
theorem inserting_of_resizing {pc : Pc} {t : ℕ} (hgo : s.go c call outcome = some s')
    (hphase : call.pc.phase = .holding t) (hcall : s'.calls c = some { call with pc := pc })
    (hpc : pc = .resizing t) : call.pc = .inserting t := by
  subst hpc
  cases hat : call.pc with
  | starting t' =>
    simp only [State.go, hat] at hgo
    obtain ⟨term, _, hgo⟩ := Option.bind_eq_some_iff.mp hgo
    split at hgo
    · obtain rfl := Option.some.inj hgo
      simp [State.goTo, setCall_calls_self] at hcall
    · obtain rfl := Option.some.inj hgo
      simp [State.goTo, setCall_calls_self] at hcall
  | killing t' e =>
    simp only [State.go, hat] at hgo
    obtain ⟨term, _, hgo⟩ := Option.bind_eq_some_iff.mp hgo
    obtain rfl := Option.some.inj hgo
    simp [State.goTo, setCall_calls_self] at hcall
  | reaping t' e =>
    simp only [State.go, hat] at hgo
    obtain ⟨term, _, hgo⟩ := Option.bind_eq_some_iff.mp hgo
    obtain ⟨_, hgo⟩ := Option.ite_none_right_eq_some.mp hgo
    obtain rfl := Option.some.inj hgo
    simp [State.finish, State.record, State.goTo, setCall_calls_self] at hcall
  | inserting t' =>
    rw [hat] at hphase
    rw [Phase.holding.inj hphase]
  | pooling | locking | listing | checking | stopping | spawning | resizing | viewing | cutting |
      subscribing | resetting | returned =>
    rw [hat] at hphase
    cases hphase

/-- **Step lemma**: with a step that has the budget, the slots that have a terminal stay within
it. -/
theorem occupied_step {budget : ℕ} {a : Act} (hbudget : HasBudget budget s a)
    (h : s.occupied * s.scrollbackCap ≤ budget) (hstep : terminalsStep s a = some s') :
    s'.scrollbackCap = s.scrollbackCap ∧ s'.occupied * s'.scrollbackCap ≤ budget := by
  obtain ⟨c, user, index, op, _, _, rfl | ⟨r, rfl⟩⟩ | ⟨c, call, outcome, rfl, hcall, hgo⟩ |
    ⟨t, term, r, _, _, rfl, _⟩ := step_cases hstep
  · exact ⟨rfl, h⟩
  · exact ⟨rfl, h⟩
  · obtain ⟨_, rfl⟩ | ⟨pc, slot, terminals, events, hgoes, hafter⟩ := goes_of_go hgo
    · have hcap : (s.afterPool c call).scrollbackCap = s.scrollbackCap :=
        pool_scrollbackCap s call.user
      refine ⟨hcap, ?_⟩
      have hoccupied : (s.afterPool c call).occupied = s.occupied := occupied_pool s call.user
      rwa [hcap, hoccupied]
    · have hcap : s'.scrollbackCap = s.scrollbackCap := by
        rw [hafter]
        cases slot with
        | none => rfl
        | some slot => exact setSlotOf_scrollbackCap s call slot
      refine ⟨hcap, ?_⟩
      rw [hcap]
      have hoccupied := congrArg State.occupied hafter
      rw [occupied_after] at hoccupied
      obtain hle | ⟨t, hphase, hpc, hle⟩ := hgoes.occupied_le
      · rw [hoccupied]
        exact (Nat.mul_le_mul_right _ hle).trans h
      · have hcalls : s'.calls c = some { call with pc := pc } := by
          rw [hafter]
          exact Function.update_self ..
        have hroom := hbudget c outcome call t rfl hcall
          (inserting_of_resizing hgo hphase hcalls hpc)
        rw [hoccupied]
        exact (Nat.mul_le_mul_right _ hle).trans hroom
  · exact ⟨rfl, h⟩

/-! ## What the rings retain -/

section
omit [Vt100 P]

theorem ringLength_le (h : RingsFit s) (slot : Slot) :
    s.ringLength slot ≤ if slot.occupant.isSome then s.scrollbackCap else 0 := by
  rw [State.ringLength]
  cases hoccupant : slot.occupant with
  | none => exact Nat.zero_le _
  | some t =>
    rw [Option.bind_some]
    cases hterm : s.terminals[t]? with
    | none => exact Nat.zero_le _
    | some term => exact (h term (List.mem_of_getElem? hterm)).2

theorem sum_ringLength_le (h : RingsFit s) (pool : UserPool) :
    (pool.map s.ringLength).sum ≤
      (pool.countP fun slot => slot.occupant.isSome) * s.scrollbackCap := by
  induction pool with
  | nil => exact Nat.zero_le _
  | cons slot pool ih =>
    have hslot := ringLength_le h slot
    rw [List.map_cons, List.sum_cons, List.countP_cons, Nat.add_mul]
    split at hslot
    next hsome =>
      rw [if_pos hsome, Nat.one_mul]
      omega
    next => omega

theorem retained_le (h : RingsFit s) : s.retained ≤ s.occupied * s.scrollbackCap := by
  rw [State.retained, State.occupied, ← List.sum_map_mul_right]
  exact List.sum_le_sum fun pool _ => sum_ringLength_le h pool

end

/-- The terminals of a server run with its configuration. -/
def configuredSystem (P : Type) [Vt100 P] [Text.Lowercase] (config : RuntimeConfig) :
    System (State P) Act where
  init s := s = newTerminals P config.slotsPerUser config.scrollbackCap
  step := terminalsStep

variable [Text.Lowercase] {owner : OwnerInfo} {secret : Option Text} {settings : Settings}
  {config : RuntimeConfig}

/-- However many slots there are, each gets a part of the budget. -/
theorem scrollbackCap_of_fromSettings
    (h : Config.fromSettings owner secret settings = some config) : 0 < config.scrollbackCap := by
  obtain ⟨sizes, hsizes, hfrom⟩ := Config.exists_fromSettings owner secret settings
  obtain rfl := Option.some.inj ((sizing_eq settings).symm.trans hsizes)
  obtain rfl := Option.some.inj (hfrom.symm.trans h)
  have hslots : 0 < max 1 (min settings.terminals.maxSessions 64) := by omega
  have hshare : 0 < aggregateBudget / max 1 (min settings.terminals.maxSessions 64) := by
    refine Nat.div_pos ?_ hslots
    have hbudget : 64 ≤ aggregateBudget := by decide
    omega
  exact lt_min (by omega) hshare

/-- **The budget of the scrollback.** In a server run with its configuration, in which a terminal is
put into a slot only if the budget covers one more ring, all the rings together stay within the
budget, and each has a positive capacity. -/
theorem retained_le_budget (hconfig : Config.fromSettings owner secret settings = some config)
    (hs : (configuredSystem P config).Reach (HasBudget aggregateBudget) s) :
    s.retained ≤ aggregateBudget ∧ ∀ term ∈ s.terminals, 0 < term.shell.scrollback.cap := by
  have hinv : RingsFit s ∧ s.scrollbackCap = config.scrollbackCap ∧
      s.occupied * s.scrollbackCap ≤ aggregateBudget := by
    refine System.Reach.invariant (I := fun s => RingsFit s ∧
      s.scrollbackCap = config.scrollbackCap ∧ s.occupied * s.scrollbackCap ≤ aggregateBudget)
      ?_ (fun u a u' _ h hok hstep => ?_) hs
    · rintro s rfl
      refine ⟨fun term hmem => absurd hmem List.not_mem_nil, rfl, ?_⟩
      have hnone : (newTerminals P config.slotsPerUser config.scrollbackCap).occupied = 0 := rfl
      rw [hnone, Nat.zero_mul]
      exact Nat.zero_le _
    · obtain ⟨hrings, hcap, hoccupied⟩ := h
      obtain ⟨hcap', hoccupied'⟩ := occupied_step hok hoccupied hstep
      exact ⟨hrings.step hstep, hcap'.trans hcap, hoccupied'⟩
  obtain ⟨hrings, hcap, hoccupied⟩ := hinv
  refine ⟨(retained_le hrings).trans hoccupied, fun term hmem => ?_⟩
  rw [(hrings term hmem).1, hcap]
  exact scrollbackCap_of_fromSettings hconfig

theorem run_configuredSystem (config : RuntimeConfig) (as : List Act) (s : State P) :
    (configuredSystem P config).run s as = (terminalsSystem P).run s as := by
  induction as generalizing s with
  | nil => rfl
  | cons a as ih =>
    rw [System.run_cons, System.run_cons]
    exact congrArg _ (funext ih)

theorem steps_configuredSystem (config : RuntimeConfig) (as : List Act) (s : State P) :
    (configuredSystem P config).steps s as = (terminalsSystem P).steps s as := by
  induction as generalizing s with
  | nil => rfl
  | cons a as ih =>
    rw [System.steps, System.steps]
    simp only [ih]
    rfl

/-- A call of somebody on the allowlist. -/
def FromAllowlist (config : RuntimeConfig) (a : Act) : Prop :=
  ∀ c user index op, a = .call c user index op →
    ∃ who ∈ config.users, String.ofList who.display = user

end

/-! ### Seventeen identities -/

open Text.Ascii

def bigSettings : Settings where
  auth := { users := (List.range 17).map fun i => .new .local ['u', Char.ofNat (97 + i)] }
  terminals := { maxSessions := 1, scrollbackBytes := 16 * 1024 * 1024 }

def bigUser (i : ℕ) : String :=
  String.ofList (Identity.new .local ['u', Char.ofNat (97 + i)]).display

/-- An identity attaches to its slot, and gets a shell. -/
def attachRun (i : ℕ) : List Act :=
  .call i (bigUser i) 0 (.attach 80 24 none) :: List.replicate 6 (.go i (.works i))

/-- Every identity attaches. -/
def seatRun : List Act := (List.range 17).flatMap attachRun

/-- Every shell has put something out. -/
def outputRun (chunk : List UInt8) (n : ℕ) : List Act :=
  (List.range n).map fun t => .thread t (.readChunk chunk)

theorem seatRun_seats :
    ((terminalsSystem Unit).run (newTerminals Unit 1 (16 * 1024 * 1024)) seatRun).any (fun s =>
      s.heap = ((List.range 17).map fun i => [⟨some i, some i⟩]) ∧ s.terminals.length = 17 ∧
        s.terminals.all fun term => term.reader = .reading ∧ term.shell.scrollback.buf = [] ∧
          term.shell.scrollback.cap = 16 * 1024 * 1024) = true := by
  decide +kernel

theorem exists_bigConfig : ∃ config, Config.fromSettings ⟨[], [], []⟩ none bigSettings =
    some config ∧ config.users = bigSettings.auth.users ∧ config.slotsPerUser = 1 ∧
      config.scrollbackCap = 16 * 1024 * 1024 := by
  obtain ⟨sizes, hsizes, hfrom⟩ := Config.exists_fromSettings ⟨[], [], []⟩ none bigSettings
  obtain rfl := Option.some.inj ((sizing_eq bigSettings).symm.trans hsizes)
  exact ⟨_, hfrom, rfl, by decide, by decide⟩

theorem init_of_bigConfig {config : RuntimeConfig} (hslots : config.slotsPerUser = 1)
    (hcap : config.scrollbackCap = 16 * 1024 * 1024) :
    (configuredSystem Unit config).init (newTerminals Unit 1 (16 * 1024 * 1024)) := by
  show _ = newTerminals Unit config.slotsPerUser config.scrollbackCap
  rw [hslots, hcap]

/-- One identity attaches, and its shell greets it. -/
def greetingRun : List Act := attachRun 0 ++ [.thread 0 (.readChunk [104, 105])]

theorem retained_le_budget_greetingRun :
    ∃ config s, Config.fromSettings ⟨[], [], []⟩ none bigSettings = some config ∧
      (configuredSystem Unit config).Reach (HasBudget aggregateBudget) s ∧ s.retained = 2 ∧
      s.retained ≤ aggregateBudget := by
  obtain ⟨config, hconfig, _, hslots, hcap⟩ := exists_bigConfig
  have hrun : ((terminalsSystem Unit).run (newTerminals Unit 1 (16 * 1024 * 1024))
      greetingRun).any (fun s => s.retained = 2) = true := by decide +kernel
  obtain ⟨s, hs, hretained⟩ := (Option.any_eq_true ..).mp hrun
  have hsteps : ((terminalsSystem Unit).steps (newTerminals Unit 1 (16 * 1024 * 1024))
      greetingRun).all (fun e =>
        (e.1.occupied + 1) * e.1.scrollbackCap ≤ aggregateBudget) = true := by
    decide +kernel
  rw [← run_configuredSystem config] at hs
  rw [← steps_configuredSystem config] at hsteps
  have hreach : (configuredSystem Unit config).Reach (HasBudget aggregateBudget) s := by
    refine System.Reach.run_steps (.init (init_of_bigConfig hslots hcap)) (fun e he => ?_) hs
    exact fun _ _ _ _ _ _ _ => of_decide_eq_true (List.all_eq_true.mp hsteps e he)
  exact ⟨config, s, hconfig, hreach, of_decide_eq_true hretained,
    (retained_le_budget hconfig hreach).1⟩

/-- The terminal after a chunk of output. -/
def hear (chunk : List UInt8) (term : Terminal Unit) : Terminal Unit :=
  { term with shell := term.shell.readChunk chunk }

/-- The first `n` shells put a chunk out. -/
theorem exists_outputRun {s : State Unit} (chunk : List UInt8)
    (hreading : ∀ term ∈ s.terminals, term.reader = .reading) (n : ℕ)
    (hn : n ≤ s.terminals.length) :
    ∃ s', (terminalsSystem Unit).run s (outputRun chunk n) = some s' ∧ s'.heap = s.heap ∧
      ∀ t, s'.terminals[t]? =
        if t < n then s.terminals[t]?.map (hear chunk) else s.terminals[t]? := by
  induction n with
  | zero => exact ⟨s, rfl, rfl, fun t => rfl⟩
  | succ n ih =>
    obtain ⟨s', hrun, hheap, hterminals⟩ := ih (by omega)
    obtain ⟨term, hterm⟩ : ∃ term, s.terminals[n]? = some term :=
      ⟨_, List.getElem?_eq_getElem (show n < s.terminals.length by omega)⟩
    have hread : term.reader = .reading := hreading term (List.mem_of_getElem? hterm)
    have hterm' : s'.terminals[n]? = some term := by rw [hterminals, if_neg (lt_irrefl n), hterm]
    have hlast : (terminalsSystem Unit).run s' [.thread n (.readChunk chunk)] =
        some (s'.setTerminal n (hear chunk term, [])) := by
      have hstep : (terminalsSystem Unit).step s' (.thread n (.readChunk chunk)) =
          some (s'.setTerminal n (hear chunk term, [])) := by
        show (s'.terminals[n]?.bind fun term => (term.step (.readChunk chunk)).bind fun r =>
          some (s'.setTerminal n r)) = _
        rw [hterm', Option.bind_some, Terminal.step, if_pos hread, Option.bind_some]
        rfl
      rw [System.run_cons_of_step hstep, System.run_nil]
    refine ⟨s'.setTerminal n (hear chunk term, []), ?_, hheap, fun t => ?_⟩
    · rw [outputRun, List.range_succ, List.map_append]
      exact (System.run_append hrun).trans hlast
    · show (s'.terminals.set n (hear chunk term))[t]? = _
      by_cases ht : t = n
      · subst ht
        rw [List.getElem?_set_self (List.getElem?_eq_some_iff.mp hterm').1, if_pos (by omega),
          hterm, Option.map_some]
      · rw [List.getElem?_set_ne (Ne.symm ht), hterminals]
        by_cases hlt : t < n
        · rw [if_pos hlt, if_pos (by omega)]
        · rw [if_neg hlt, if_neg (by omega)]

/-- An empty ring takes a chunk of its capacity whole. -/
theorem length_buf_hear {chunk : List UInt8} {term : Terminal Unit}
    (hbuf : term.shell.scrollback.buf = []) (hcap : term.shell.scrollback.cap = chunk.length) :
    (hear chunk term).shell.scrollback.buf.length = chunk.length := by
  show (popFront term.shell.scrollback.cap (term.shell.scrollback.buf ++ chunk)).2.length = _
  rw [popFront_eq, hbuf, hcap, List.nil_append, Nat.sub_self, List.drop_zero]

theorem fromAllowlist_seatRun {config : RuntimeConfig}
    (husers : config.users = bigSettings.auth.users) {a : Act} (h : a ∈ seatRun) :
    FromAllowlist config a := by
  rintro c user index op rfl
  obtain ⟨i, hi, hmem⟩ := List.mem_flatMap.mp h
  obtain heq | hgo := List.mem_cons.mp hmem
  · cases heq
    rw [husers]
    exact ⟨_, List.mem_map_of_mem hi, rfl⟩
  · cases List.eq_of_mem_replicate hgo

/-- What the rings retain when each of them is as long as the others. -/
theorem retained_eq {s : State Unit} {n : ℕ}
    (h : ∀ pool ∈ s.heap, ∀ slot ∈ pool, s.ringLength slot = n) :
    s.retained = (s.heap.map List.length).sum * n := by
  have hpool : ∀ pool ∈ s.heap, (pool.map s.ringLength).sum = pool.length * n := by
    intro pool hmem
    rw [List.map_congr_left (h pool hmem), List.map_const', List.sum_replicate, smul_eq_mul]
  rw [State.retained, List.map_congr_left hpool, List.sum_map_mul_right]

/-- Seventeen identities attach to their slots, and every shell fills its ring. -/
theorem budget_exceeded :
    ¬ ∀ (_ : Text.Lowercase) (owner : OwnerInfo) (secret : Option Text) (settings : Settings)
      (config : RuntimeConfig) (s : State Unit),
      Config.fromSettings owner secret settings = some config →
      (configuredSystem Unit config).Reach (fun _ a => FromAllowlist config a) s →
      s.retained ≤ aggregateBudget := by
  intro h
  obtain ⟨config, hconfig, husers, hslots, hcap⟩ := exists_bigConfig
  obtain ⟨s, hseats, hcheck⟩ := (Option.any_eq_true ..).mp seatRun_seats
  obtain ⟨hheap, hlength, hterms⟩ := of_decide_eq_true hcheck
  have hall : ∀ term ∈ s.terminals, term.reader = .reading ∧ term.shell.scrollback.buf = [] ∧
      term.shell.scrollback.cap = 16 * 1024 * 1024 :=
    fun term hmem => of_decide_eq_true (List.all_eq_true.mp hterms term hmem)
  obtain ⟨chunk, hchunk⟩ : ∃ chunk : List UInt8, chunk.length = 16 * 1024 * 1024 :=
    ⟨List.replicate _ 0, List.length_replicate⟩
  obtain ⟨s', houtput, hheap', hterminals⟩ :=
    exists_outputRun chunk (fun term hmem => (hall term hmem).1) 17 hlength.ge
  have hreach : (configuredSystem Unit config).Reach (fun _ a => FromAllowlist config a) s' := by
    have hrun := (System.run_append hseats).trans houtput
    rw [← run_configuredSystem config] at hrun
    refine System.Reach.run (.init (init_of_bigConfig hslots hcap)) (fun a ha u => ?_) hrun
    obtain hseat | hout := List.mem_append.mp ha
    · exact fromAllowlist_seatRun husers hseat
    · obtain ⟨t, _, rfl⟩ := List.mem_map.mp hout
      intro c user index op heq
      cases heq
  have hring : ∀ pool ∈ s'.heap, ∀ slot ∈ pool, s'.ringLength slot = 16 * 1024 * 1024 := by
    intro pool hpool slot hslot
    rw [hheap', hheap] at hpool
    obtain ⟨i, hi, rfl⟩ := List.mem_map.mp hpool
    obtain rfl := List.mem_singleton.mp hslot
    have hlt : i < 17 := List.mem_range.mp hi
    have hterm := List.getElem?_eq_getElem (show i < s.terminals.length by omega)
    obtain ⟨_, hbuf, hcap⟩ := hall _ (List.mem_of_getElem? hterm)
    rw [State.ringLength, Option.bind_some, hterminals, if_pos hlt, hterm, Option.map_some,
      Option.elim_some, length_buf_hear hbuf (hcap.trans hchunk.symm), hchunk]
  have hretained := h asciiLowercase _ _ bigSettings config s' hconfig hreach
  rw [retained_eq hring, hheap', hheap] at hretained
  exact absurd hretained (by decide)

end Webshell.Terminals
