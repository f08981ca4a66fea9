import Webshell.Lib.Erasure
import Webshell.Terminals.Bridge
import Webshell.Terminals.OneShell

/-!
# Runs with and without the viewers

A run in which viewers attach, redraw, send frames and go, next to the run in which they are not
there: same shells, same input queues and same rings. What viewers do change is not among these:
they hold the locks of slots, make pools, subscribe to channels and rebuild screens.

## Main definitions

- `SameShells`: the commands queued, the spawns and stops, the occupants and the rings are the same
- `Alike`, `Slot.without`: a terminal up to its screen, a slot up to the locks of viewers
- `Removed`: what the state without the viewers has to do with the one with them

## Main results

- `follows_watched`: the terminals without viewers follow those with them
- `viewers_removed`: the two runs have the same shells
-/

namespace Webshell.Terminals

open Transition
open MuxBridge (PtyCmd)

variable {P : Type}

/-! ## What is claimed -/

/-- The terminal was spawned for that slot. -/
def State.isFor (s : State P) (user : String) (i t : ℕ) : Bool :=
  s.terminals[t]?.any fun term => term.slot = (user, i)

/-- The commands that have been queued to the shells of a slot, in order. -/
def State.queuedTo (s : State P) (user : String) (i : ℕ) : List PtyCmd :=
  s.history.filterMap fun
    | .queued t cmd => if s.isFor user i t then some cmd else none
    | _ => none

/-- What the calls have taken out of a slot, stopped and spawned, in order. -/
def State.spawnsAndStops (s : State P) (user : String) (i : ℕ) : List Event :=
  s.history.filter fun
    | .took _ t | .stopped _ t | .spawned _ t => s.isFor user i t
    | _ => false

/-- The shells there have been: for which slot, with which epoch, whether they are marked dead, and
their rings. -/
def State.rings (s : State P) : List ((String × ℕ) × ℕ × Bool × List UInt8 × ℕ) :=
  s.terminals.map fun term => (term.slot, term.epoch, term.shell.alive,
    term.shell.scrollback.buf, term.shell.scrollback.total)

structure SameShells (s t : State P) : Prop where
  queued : ∀ user i, t.queuedTo user i = s.queuedTo user i
  spawnsAndStops : ∀ user i, t.spawnsAndStops user i = s.spawnsAndStops user i
  occupant : ∀ user i,
    (t.slotAt user i).bind Slot.occupant = (s.slotAt user i).bind Slot.occupant
  rings : t.rings = s.rings

/-- The step of somebody else. -/
def WatchedAct.other : WatchedAct → Option Act
  | .others a => some a
  | .viewer _ _ => none

/-! ## Terminals -/

/-- Another screen, and other watchers of the shutdown channel. -/
def Terminal.reshown (term : Terminal P) (screen : P) (stale : Bool)
    (shutdown : Watch.Channel ℕ Bool) : Terminal P :=
  { term with
    shell := { term.shell with
      scrollback := { term.shell.scrollback with screen := screen, stale := stale } }
    shutdown := shutdown }

/-- The terminals differ in the screen and in the shutdown channel only. -/
def Alike (term term' : Terminal P) : Prop :=
  ∃ screen stale shutdown, term' = term.reshown screen stale shutdown

theorem alike_refl (term : Terminal P) : Alike term term :=
  ⟨term.shell.scrollback.screen, term.shell.scrollback.stale, term.shutdown, rfl⟩

variable {term term' : Terminal P}

theorem Alike.slot (h : Alike term term') : term'.slot = term.slot := by
  obtain ⟨_, _, _, rfl⟩ := h
  rfl

theorem Alike.alive (h : Alike term term') : term'.shell.alive = term.shell.alive := by
  obtain ⟨_, _, _, rfl⟩ := h
  rfl

theorem Alike.ring (h : Alike term term') :
    (term'.slot, term'.epoch, term'.shell.alive, term'.shell.scrollback.buf,
        term'.shell.scrollback.total) =
      (term.slot, term.epoch, term.shell.alive, term.shell.scrollback.buf,
        term.shell.scrollback.total) := by
  obtain ⟨_, _, _, rfl⟩ := h
  rfl

theorem Alike.exited (h : Alike term term') : term'.exited = term.exited := by
  obtain ⟨_, _, _, rfl⟩ := h
  rfl

theorem Alike.size (h : Alike term term') : term'.size = term.size := by
  obtain ⟨_, _, _, rfl⟩ := h
  rfl

/-- A change of the shutdown channel is not noticed. -/
theorem Alike.shutdown (h : Alike term term') (shutdown shutdown' : Watch.Channel ℕ Bool) :
    Alike { term with shutdown := shutdown } { term' with shutdown := shutdown' } := by
  obtain ⟨screen, stale, _, rfl⟩ := h
  exact ⟨screen, stale, shutdown', rfl⟩

theorem Alike.offer (h : Alike term term') (cmd : PtyCmd) :
    Alike (term.offer cmd).1 (term'.offer cmd).1 ∧ (term'.offer cmd).2 = (term.offer cmd).2 := by
  obtain ⟨screen, stale, shutdown, rfl⟩ := h
  exact ⟨⟨screen, stale, shutdown, rfl⟩, rfl⟩

theorem Alike.start (h : Alike term term') (epoch : ℕ) :
    Alike (term.start epoch) (term'.start epoch) := by
  obtain ⟨screen, stale, shutdown, rfl⟩ := h
  exact ⟨screen, stale, shutdown, rfl⟩

theorem Alike.hangUp (h : Alike term term') (hungUp : Bool) :
    Alike { term with hungUp := hungUp } { term' with hungUp := hungUp } := by
  obtain ⟨screen, stale, shutdown, rfl⟩ := h
  exact ⟨screen, stale, shutdown, rfl⟩

theorem Alike.stopStep (h : Alike term term') (stage : StopStage) :
    Alike (term.stopStep stage).1 (term'.stopStep stage).1 ∧
      (term'.stopStep stage).2 = (term.stopStep stage).2 := by
  cases stage with
  | shutdown => exact ⟨h.shutdown _ _, rfl⟩
  | hangup =>
    obtain ⟨screen, stale, shutdown, rfl⟩ := h
    exact ⟨⟨screen, stale, shutdown, rfl⟩, rfl⟩
  | nudge => exact h.offer .kill

/-- A client gets the same attachment. -/
theorem Alike.attachment (h : Alike term term') (resume : Option (ℕ × ℕ)) :
    Webshell.attachment term'.epoch term'.shell resume =
      Webshell.attachment term.epoch term.shell resume := by
  obtain ⟨_, _, _, rfl⟩ := h
  rfl

theorem Alike.trans {term'' : Terminal P} (h : Alike term term') (h' : Alike term' term'') :
    Alike term term'' := by
  obtain ⟨_, _, _, rfl⟩ := h
  obtain ⟨screen, stale, shutdown, rfl⟩ := h'
  exact ⟨screen, stale, shutdown, rfl⟩

theorem Alike.symm (h : Alike term term') : Alike term' term := by
  obtain ⟨_, _, _, rfl⟩ := h
  exact alike_refl term

theorem Alike.obey (h : Alike term term') (input : SyncChannel PtyCmd 128) (cmd : PtyCmd) :
    Alike ({ term with input := input }.obey cmd) ({ term' with input := input }.obey cmd) := by
  obtain ⟨screen, stale, shutdown, rfl⟩ := h
  cases cmd <;> exact ⟨screen, stale, shutdown, rfl⟩

variable [Vt100 P]

/-- A redraw rebuilds nothing but the screen. -/
theorem alike_redraw (term : Terminal P) (rx : ℕ) :
    Alike term { term with shell := (term.shell.redraw rx).2.1 } := by
  refine ⟨(term.shell.scrollback.screenSnapshot).2.screen,
    (term.shell.scrollback.screenSnapshot).2.stale, term.shutdown, ?_⟩
  simp only [Shell.redraw, Scrollback.screenSnapshot, Terminal.reshown]
  split <;> rfl

omit [Vt100 P] in
/-- A resize does not look at the screen. -/
theorem resize_screen (sb : Scrollback P) (screen : P) (stale : Bool) (cols rows : ℕ) :
    ({ sb with screen := screen, stale := stale } : Scrollback P).resize cols rows =
      { sb.resize cols rows with
        screen := screen
        stale := if sb.size ≠ (cols, rows) then true else stale } := by
  simp only [Scrollback.resize]
  split <;> rfl

/-- The child and the threads do the same, and queue the same. -/
theorem Alike.step (h : Alike term term') {a : ThreadAct} {r : Terminal P × List PtyCmd}
    (hs : term.step a = some r) :
    ∃ r', term'.step a = some r' ∧ Alike r.1 r'.1 ∧ r'.2 = r.2 := by
  obtain ⟨screen, stale, shutdown, rfl⟩ := h
  cases a with
  | exit =>
    simp only [Terminal.step, Option.ite_none_left_eq_some, Option.some.injEq] at hs ⊢
    obtain ⟨hexited, rfl⟩ := hs
    exact ⟨_, ⟨hexited, rfl⟩, ⟨screen, stale, shutdown, rfl⟩, rfl⟩
  | readChunk chunk =>
    simp only [Terminal.step, Option.ite_none_right_eq_some, Option.some.injEq] at hs ⊢
    obtain ⟨hreading, rfl⟩ := hs
    exact ⟨_, ⟨hreading, rfl⟩, ⟨Vt100.process screen chunk, stale, shutdown, rfl⟩, rfl⟩
  | sendShutdown =>
    simp only [Terminal.step, Option.ite_none_right_eq_some, Option.some.injEq] at hs ⊢
    obtain ⟨hmarked, rfl⟩ := hs
    exact ⟨_, ⟨hmarked, rfl⟩, ⟨screen, stale, shutdown.send true, rfl⟩, rfl⟩
  | readEnds | nudge | recvEnds | childKilled | retire | wait =>
    simp only [Terminal.step, Option.ite_none_right_eq_some, Option.some.injEq] at hs ⊢
    obtain ⟨hguard, rfl⟩ := hs
    exact ⟨_, ⟨hguard, rfl⟩, ⟨screen, stale, shutdown, rfl⟩, rfl⟩
  | recv =>
    simp only [Terminal.step] at hs
    split at hs
    next cmd input hcommand hrecv =>
      obtain rfl := Option.some.inj hs
      refine ⟨({ term.reshown screen stale shutdown with input := input }.obey cmd, []), ?_, ?_,
        rfl⟩
      · simp only [Terminal.step, Terminal.reshown, hcommand, hrecv]
      · exact Alike.obey ⟨screen, stale, shutdown, rfl⟩ input cmd
    · cases hs
  | wrote ok =>
    simp only [Terminal.step] at hs
    split at hs
    next bytes hcommand =>
      cases ok with
      | true =>
        obtain rfl := Option.some.inj hs
        refine ⟨({ term.reshown screen stale shutdown with command := .receiving }, []), ?_,
          ⟨screen, stale, shutdown, rfl⟩, rfl⟩
        simp only [Terminal.step, Terminal.reshown, hcommand, if_true]
      | false =>
        obtain rfl := Option.some.inj hs
        refine ⟨({ term.reshown screen stale shutdown with command := .killing, hungUp := true },
          []), ?_, ⟨screen, stale, shutdown, rfl⟩, rfl⟩
        simp only [Terminal.step, Terminal.reshown, hcommand, Bool.false_eq_true, if_false]
    · cases hs
  | resizeModel =>
    simp only [Terminal.step] at hs
    split at hs
    next cols rows hcommand =>
      obtain rfl := Option.some.inj hs
      simp only [Terminal.step, Terminal.reshown, hcommand]
      refine ⟨_, rfl, ?_, rfl⟩
      rw [resize_screen term.shell.scrollback screen stale]
      exact ⟨screen, _, shutdown, rfl⟩
    · cases hs

/-! ## Slots and calls -/

section
omit [Vt100 P]

/-- The slot if the viewers did not hold its lock. -/
def Slot.without (viewer : ℕ → Bool) (slot : Slot) : Slot :=
  ⟨slot.holder.filter fun c => !viewer c, slot.occupant⟩

/-- The pool of a user; one that has not been made yet would be empty. -/
def State.poolOf (s : State P) (user : String) : UserPool :=
  (s.userPool user).getD (UserPool.new s.slotsPerUser)

/-- A call of a viewer. -/
structure Call.Views (call : Call) : Prop where
  op : ∃ resume, call.op = .attachView resume
  pc : call.pc = .pooling ∨ call.pc = .locking ∨ call.pc = .viewing ∨ (∃ t, call.pc = .cutting t) ∨
    (∃ t attachment, call.pc = .subscribing t attachment) ∨ ∃ r, call.pc = .returned r

/-- An event that is still there without the viewers. -/
def Event.stays (viewer : ℕ → Bool) : Event → Bool
  | .returned c => !viewer c
  | _ => true

/-- The state `t` without the viewers, against the state `s` with them. -/
structure Removed (viewer : ℕ → Bool) (s t : State P) : Prop where
  slotsPerUser : t.slotsPerUser = s.slotsPerUser
  scrollbackCap : t.scrollbackCap = s.scrollbackCap
  pools : ∀ user, t.poolOf user = (s.poolOf user).map (Slot.without viewer)
  terminals : List.Forall₂ Alike s.terminals t.terminals
  calls : ∀ c, viewer c = false → Option.Rel (fun call call' =>
    ∃ pool, pool.isSome = call.pool.isSome ∧ call' = { call with pool := pool }) (s.calls c)
      (t.calls c)
  uncalled : ∀ c, viewer c = true → t.calls c = none
  views : ∀ c call, viewer c = true → s.calls c = some call → call.Views
  history : t.history = s.history.filter (Event.stays viewer)

variable {viewer : ℕ → Bool} {s s' t : State P} {c : ℕ} {call call' : Call}

theorem Removed.exists_call (h : Removed viewer s t) (hc : viewer c = false)
    (hcall : s.calls c = some call) :
    ∃ pool, pool.isSome = call.pool.isSome ∧ t.calls c = some { call with pool := pool } := by
  have hrel := h.calls c hc
  rw [hcall] at hrel
  cases hcall' : t.calls c with
  | none =>
    rw [hcall'] at hrel
    cases hrel
  | some call' =>
    rw [hcall'] at hrel
    cases hrel with
    | some hsame =>
      obtain ⟨pool, hpool, rfl⟩ := hsame
      exact ⟨pool, hpool, rfl⟩

theorem Removed.calls_eq_none (h : Removed viewer s t) (hc : viewer c = false)
    (hcall : s.calls c = none) : t.calls c = none := by
  have hrel := h.calls c hc
  rw [hcall] at hrel
  cases hcall' : t.calls c with
  | none => rfl
  | some call' =>
    rw [hcall'] at hrel
    cases hrel

/-- The slot a call has found in its pool. -/
theorem slotOf_eq_poolOf (hp : PoolInv s) (hcall : s.calls c = some call) :
    s.slotOf call = if call.pool.isSome then (s.poolOf call.user)[call.index]? else none := by
  rw [State.slotOf]
  cases hpool : call.pool with
  | none => rfl
  | some p =>
    have hlookup := hp.call c call p hcall hpool
    obtain ⟨pool, hheap, _⟩ := hp.lookup call.user p hlookup
    rw [State.poolOf, State.userPool, hlookup, Option.bind_some, Option.bind_some, State.slot,
      hheap]
    rfl

theorem poolOf_setSlotOf (hp : PoolInv s) (hcall : s.calls c = some call)
    (hpool : call.pool.isSome = true) (slot : Slot) (user : String) :
    (s.setSlotOf call slot).poolOf user =
      if user = call.user then (s.poolOf user).set call.index slot else s.poolOf user := by
  obtain ⟨p, hp'⟩ := Option.isSome_iff_exists.mp hpool
  have hlookup := hp.call c call p hcall hp'
  obtain ⟨pool, hheap, _⟩ := hp.lookup call.user p hlookup
  rw [State.poolOf, State.poolOf, hp.userPool_setSlotOf hcall hp', setSlotOf_slotsPerUser]
  by_cases huser : user = call.user
  · rw [if_pos huser, if_pos huser, huser, State.userPool, hlookup, Option.bind_some, hheap]
    rfl
  · rw [if_neg huser, if_neg huser]

theorem Removed.alive (h : Removed viewer s t) : t.alive = s.alive := by
  funext i
  rw [State.alive, State.alive]
  cases hterm : s.terminals[i]? with
  | none => rw [h.terminals.getElem?_eq_none hterm]
  | some term =>
    obtain ⟨term', hterm', halike⟩ := h.terminals.exists_getElem? hterm
    rw [hterm', Option.any_some, Option.any_some, halike.alive]

/-! ### What both states do together -/

theorem Removed.setTerminal (h : Removed viewer s t) (i : ℕ) {r r' : Terminal P × List PtyCmd}
    (halike : Alike r.1 r'.1) (hcmds : r'.2 = r.2) :
    Removed viewer (s.setTerminal i r) (t.setTerminal i r') := by
  refine ⟨h.slotsPerUser, h.scrollbackCap, h.pools, h.terminals.set halike i, h.calls, h.uncalled,
    h.views, ?_⟩
  show t.history ++ _ = (s.history ++ _).filter _
  rw [List.filter_append, h.history, hcmds]
  congr 1
  refine (List.filter_eq_self.mpr fun e he => ?_).symm
  obtain ⟨cmd, _, rfl⟩ := List.mem_map.mp he
  rfl

theorem Removed.record (h : Removed viewer s t) {events : List Event}
    (hevents : events.filter (Event.stays viewer) = events) :
    Removed viewer (s.record events) (t.record events) := by
  refine ⟨h.slotsPerUser, h.scrollbackCap, h.pools, h.terminals, h.calls, h.uncalled, h.views, ?_⟩
  show t.history ++ events = (s.history ++ events).filter _
  rw [List.filter_append, hevents, h.history]

/-- Somebody else's call is there in both. -/
theorem Removed.setCall (h : Removed viewer s t) (hc : viewer c = false)
    (hsame : ∃ pool, pool.isSome = call.pool.isSome ∧ call' = { call with pool := pool }) :
    Removed viewer (s.setCall c call) (t.setCall c call') := by
  have hne : ∀ c', viewer c' = true → c' ≠ c := by
    rintro c' hc' rfl
    rw [hc] at hc'
    cases hc'
  refine ⟨h.slotsPerUser, h.scrollbackCap, h.pools, h.terminals, fun c' hc' => ?_,
    fun c' hc' => ?_, fun c' call'' hc' hcall'' => ?_, h.history⟩
  · by_cases heq : c' = c
    · rw [heq, setCall_calls_self, setCall_calls_self]
      exact .some hsame
    · rw [setCall_calls_of_ne s heq, setCall_calls_of_ne t heq]
      exact h.calls c' hc'
  · rw [setCall_calls_of_ne t (hne c' hc')]
    exact h.uncalled c' hc'
  · rw [setCall_calls_of_ne s (hne c' hc')] at hcall''
    exact h.views c' call'' hc' hcall''

theorem poolOf_pool (hp : PoolInv s) (user user' : String) :
    (s.pool user).1.poolOf user' = s.poolOf user' := by
  rw [State.poolOf, State.poolOf, hp.userPool_pool, pool_slotsPerUser]
  split
  next heq => rw [heq, Option.getD_some]
  · rfl

/-- A pool is made in the run with the viewers. -/
theorem Removed.pool_left (h : Removed viewer s t) (hps : PoolInv s) (user : String) :
    Removed viewer (s.pool user).1 t := by
  refine ⟨?_, ?_, fun user' => ?_, ?_, ?_, h.uncalled, ?_, ?_⟩
  · rw [pool_slotsPerUser, h.slotsPerUser]
  · rw [pool_scrollbackCap, h.scrollbackCap]
  · rw [poolOf_pool hps, h.pools]
  · rw [pool_terminals]
    exact h.terminals
  · rw [pool_calls]
    exact h.calls
  · rw [pool_calls]
    exact h.views
  · rw [pool_history]
    exact h.history

theorem Removed.pool_right (h : Removed viewer s t) (hpt : PoolInv t) (user : String) :
    Removed viewer s (t.pool user).1 := by
  refine ⟨?_, ?_, fun user' => ?_, ?_, ?_, ?_, h.views, ?_⟩
  · rw [pool_slotsPerUser, h.slotsPerUser]
  · rw [pool_scrollbackCap, h.scrollbackCap]
  · rw [poolOf_pool hpt, h.pools]
  · rw [pool_terminals]
    exact h.terminals
  · rw [pool_calls]
    exact h.calls
  · rw [pool_calls]
    exact h.uncalled
  · rw [pool_history]
    exact h.history

/-- A call that is no viewer's, in both states. -/
structure Beside (viewer : ℕ → Bool) (s t : State P) (c : ℕ) (call call' : Call) : Prop where
  removed : Removed viewer s t
  pools : PoolInv s
  pools' : PoolInv t
  stays : viewer c = false
  called : s.calls c = some call
  called' : t.calls c = some call'
  samePool : ∃ pool, pool.isSome = call.pool.isSome ∧ call' = { call with pool := pool }

theorem Beside.pool_isSome (h : Beside viewer s t c call call') :
    call'.pool.isSome = call.pool.isSome := by
  obtain ⟨pool, hpool, rfl⟩ := h.samePool
  exact hpool

theorem Beside.user (h : Beside viewer s t c call call') : call'.user = call.user := by
  obtain ⟨pool, _, rfl⟩ := h.samePool
  rfl

theorem Beside.index (h : Beside viewer s t c call call') : call'.index = call.index := by
  obtain ⟨pool, _, rfl⟩ := h.samePool
  rfl

theorem Beside.op (h : Beside viewer s t c call call') : call'.op = call.op := by
  obtain ⟨pool, _, rfl⟩ := h.samePool
  rfl

theorem Beside.pc (h : Beside viewer s t c call call') : call'.pc = call.pc := by
  obtain ⟨pool, _, rfl⟩ := h.samePool
  rfl

theorem Beside.attachedTo (h : Beside viewer s t c call call') :
    call'.attachedTo = call.attachedTo := by
  rw [Call.attachedTo, Call.attachedTo, h.pc]

/-- The slot of the call, without the viewers. -/
theorem Beside.slotOf (h : Beside viewer s t c call call') :
    t.slotOf call' = (s.slotOf call).map (Slot.without viewer) := by
  rw [slotOf_eq_poolOf h.pools h.called, slotOf_eq_poolOf h.pools' h.called', h.removed.pools,
    h.pool_isSome, h.user, h.index]
  split
  · exact List.getElem?_map
  · rfl

theorem Beside.getElem? (h : Beside viewer s t c call call') {i : ℕ} {term : Terminal P}
    (hterm : s.terminals[i]? = some term) :
    ∃ term', t.terminals[i]? = some term' ∧ Alike term term' :=
  h.removed.terminals.exists_getElem? hterm

/-- The terminals change, or what has happened. -/
theorem Beside.frame (h : Beside viewer s t c call call') {terminals terminals' : List (Terminal P)}
    {history history' : List Event}
    (hremoved : Removed viewer { s with terminals := terminals, history := history }
      { t with terminals := terminals', history := history' }) :
    Beside viewer { s with terminals := terminals, history := history }
      { t with terminals := terminals', history := history' } c call call' where
  removed := hremoved
  pools := h.pools.frame rfl rfl rfl rfl
  pools' := h.pools'.frame rfl rfl rfl rfl
  stays := h.stays
  called := h.called
  called' := h.called'
  samePool := h.samePool

theorem Beside.setTerminal (h : Beside viewer s t c call call') (i : ℕ)
    {r r' : Terminal P × List PtyCmd} (halike : Alike r.1 r'.1) (hcmds : r'.2 = r.2) :
    Beside viewer (s.setTerminal i r) (t.setTerminal i r') c call call' :=
  h.frame (h.removed.setTerminal i halike hcmds)

/-- A terminal changes, and nothing is queued. -/
theorem Beside.alter (h : Beside viewer s t c call call') (i : ℕ) (halike : Alike term term') :
    Beside viewer (s.setTerminal i (term, [])) (t.setTerminal i (term', [])) c call call' :=
  h.setTerminal i halike rfl

theorem Beside.spawn (h : Beside viewer s t c call call') (term : Terminal P) :
    Beside viewer { s with terminals := s.terminals ++ [term] }
      { t with terminals := t.terminals ++ [term] } c call call' :=
  h.frame ⟨h.removed.slotsPerUser, h.removed.scrollbackCap, h.removed.pools,
    h.removed.terminals.concat (alike_refl term), h.removed.calls, h.removed.uncalled,
    h.removed.views, h.removed.history⟩

theorem Beside.record (h : Beside viewer s t c call call') {events : List Event}
    (hevents : events.filter (Event.stays viewer) = events) :
    Beside viewer (s.record events) (t.record events) c call call' :=
  h.frame (h.removed.record hevents)

/-- The slot of the call changes. -/
theorem Beside.setSlotOf (h : Beside viewer s t c call call') {old : Slot}
    (hold : s.slotOf call = some old) (slot : Slot) :
    Beside viewer (s.setSlotOf call slot) (t.setSlotOf call' (slot.without viewer)) c call
      call' := by
  have hpool : call.pool.isSome = true := by
    rw [slotOf_eq_poolOf h.pools h.called] at hold
    split at hold
    next hsome => exact hsome
    · cases hold
  refine ⟨⟨?_, ?_, fun user => ?_, ?_, ?_, ?_, ?_, ?_⟩, h.pools.setSlotOf call slot,
    h.pools'.setSlotOf _ _, h.stays, ?_, ?_, h.samePool⟩
  · rw [setSlotOf_slotsPerUser, setSlotOf_slotsPerUser, h.removed.slotsPerUser]
  · rw [setSlotOf_scrollbackCap, setSlotOf_scrollbackCap, h.removed.scrollbackCap]
  · rw [poolOf_setSlotOf h.pools h.called hpool, poolOf_setSlotOf h.pools' h.called'
      (h.pool_isSome.trans hpool), h.user, h.index, h.removed.pools]
    split
    · exact List.map_set.symm
    · rfl
  · rw [setSlotOf_terminals, setSlotOf_terminals]
    exact h.removed.terminals
  · rw [setSlotOf_calls, setSlotOf_calls]
    exact h.removed.calls
  · rw [setSlotOf_calls]
    exact h.removed.uncalled
  · rw [setSlotOf_calls]
    exact h.removed.views
  · rw [setSlotOf_history, setSlotOf_history]
    exact h.removed.history
  · rw [setSlotOf_calls]
    exact h.called
  · rw [setSlotOf_calls]
    exact h.called'

/-- The lock of the slot is given back. -/
theorem Beside.release (h : Beside viewer s t c call call') :
    Beside viewer (s.release call) (t.release call') c call call' := by
  rw [State.release, State.release, h.slotOf]
  cases hslot : s.slotOf call with
  | none => exact h
  | some slot => exact h.setSlotOf hslot { slot with holder := none }

/-- The call goes on to the same place. -/
theorem Beside.goTo (h : Beside viewer s t c call call') (pc : Pc) :
    Removed viewer (s.goTo c call pc) (t.goTo c call' pc) := by
  obtain ⟨pool, hpool, rfl⟩ := h.samePool
  exact h.removed.setCall h.stays ⟨pool, hpool, rfl⟩

theorem Beside.finish (h : Beside viewer s t c call call') (r : Result) :
    Removed viewer (s.finish c call r) (t.finish c call' r) :=
  (h.goTo (.returned r)).record (by simp [Event.stays, h.stays])

theorem Beside.afterPool (h : Beside viewer s t c call call') :
    Removed viewer (s.afterPool c call) (t.afterPool c call') := by
  have hmade := (h.removed.pool_left h.pools call.user).pool_right h.pools' call'.user
  obtain ⟨pool, _, rfl⟩ := h.samePool
  exact hmade.setCall h.stays ⟨some (t.pool call.user).2, rfl, rfl⟩

end

/-! ### A step of somebody else's call -/

section
variable {viewer : ℕ → Bool} {s s' t : State P} {c : ℕ} {call call' : Call} {outcome : Outcome}

/-- Without the viewers, the call can do what it does with them. -/
def Answered (viewer : ℕ → Bool) (s' : State P) (next : Option (State P)) : Prop :=
  ∃ t', next = some t' ∧ Removed viewer s' t'

theorem Beside.go_locking (h : Beside viewer s t c call call') (hpc : call.pc = .locking)
    (hgo : s.go c call outcome = some s') : Answered viewer s' (t.go c call' outcome) := by
  simp only [State.go, hpc] at hgo
  obtain ⟨slot, hslot, hgo⟩ := Option.bind_eq_some_iff.mp hgo
  simp only [Option.ite_none_right_eq_some] at hgo
  obtain ⟨hholder, hgo⟩ := hgo
  have hslot' : t.slotOf call' = some (slot.without viewer) := by rw [h.slotOf, hslot]; rfl
  have hholder' : (slot.without viewer).holder = none := by rw [Slot.without, hholder]; rfl
  simp only [State.go, h.pc, hpc, hslot', Option.bind_eq_bind, Option.bind_some, hholder', if_true,
    h.op]
  have hlocked : Slot.without viewer { slot with holder := some c } =
      { slot.without viewer with holder := some c } := by
    rw [Slot.without, Option.filter_some_pos (by rw [h.stays]; rfl)]
    rfl
  cases hop : call.op with
  | reset =>
    simp only [hop] at hgo ⊢
    cases hoccupant : slot.occupant with
    | none =>
      simp only [hoccupant, Option.some.injEq] at hgo
      subst hgo
      refine ⟨_, ?_, h.finish .done⟩
      simp only [Slot.without, hoccupant]
    | some i =>
      simp only [hoccupant, Option.some.injEq] at hgo
      subst hgo
      refine ⟨_, ?_, ((h.setSlotOf hslot { slot with occupant := none }).goTo _).record rfl⟩
      simp only [Slot.without, hoccupant, hholder, Option.filter_none]
  | attach cols rows resume =>
    simp only [hop, Option.some.injEq] at hgo ⊢
    subst hgo
    exact ⟨_, by rw [hlocked], (h.setSlotOf hslot { slot with holder := some c }).goTo _⟩
  | list | attachView resume | currentSize =>
    simp only [hop, Option.some.injEq] at hgo ⊢
    subst hgo
    exact ⟨_, by rw [hlocked], (h.setSlotOf hslot { slot with holder := some c }).goTo _⟩

/-- The slot with the terminal that the call looks at or changes is the same without the
viewers. -/
theorem Beside.go_checking (h : Beside viewer s t c call call') (hpc : call.pc = .checking)
    (hgo : s.go c call outcome = some s') : Answered viewer s' (t.go c call' outcome) := by
  simp only [State.go, hpc] at hgo
  obtain ⟨slot, hslot, hgo⟩ := Option.bind_eq_some_iff.mp hgo
  have hslot' : t.slotOf call' = some (slot.without viewer) := by rw [h.slotOf, hslot]; rfl
  simp only [State.go, h.pc, hpc, hslot', Option.bind_eq_bind, Option.bind_some]
  cases hoccupant : slot.occupant with
  | none =>
    simp only [hoccupant, Option.some.injEq] at hgo
    subst hgo
    refine ⟨_, ?_, h.goTo .spawning⟩
    simp only [Slot.without, hoccupant]
  | some i =>
    simp only [hoccupant] at hgo
    simp only [Slot.without, hoccupant, h.removed.alive]
    split at hgo
    next halive =>
      obtain rfl := Option.some.inj hgo
      exact ⟨_, if_pos halive, h.goTo _⟩
    next hdead =>
      obtain rfl := Option.some.inj hgo
      exact ⟨_, if_neg hdead,
        ((h.setSlotOf hslot { slot with occupant := none }).goTo _).record rfl⟩

theorem Beside.go_viewing (h : Beside viewer s t c call call') (hpc : call.pc = .viewing)
    (hgo : s.go c call outcome = some s') : Answered viewer s' (t.go c call' outcome) := by
  simp only [State.go, hpc] at hgo
  obtain ⟨slot, hslot, hgo⟩ := Option.bind_eq_some_iff.mp hgo
  have hslot' : t.slotOf call' = some (slot.without viewer) := by rw [h.slotOf, hslot]; rfl
  have hsize : ∀ i : ℕ, t.terminals[i]?.map Terminal.size = s.terminals[i]?.map Terminal.size := by
    intro i
    cases hterm : s.terminals[i]? with
    | none => rw [h.removed.terminals.getElem?_eq_none hterm]
    | some term =>
      obtain ⟨term', hterm', halike⟩ := h.getElem? hterm
      rw [hterm', Option.map_some, Option.map_some, halike.size]
  simp only [State.go, h.pc, hpc, hslot', Option.bind_eq_bind, Option.bind_some, h.op, Slot.without,
    h.removed.alive]
  cases hop : call.op with
  | attachView resume =>
    cases hlive : slot.occupant.filter s.alive with
    | some i =>
      simp only [hop, hlive, Option.some.injEq] at hgo ⊢
      subst hgo
      exact ⟨_, rfl, h.goTo _⟩
    | none =>
      simp only [hop, hlive, Option.some.injEq] at hgo ⊢
      subst hgo
      exact ⟨_, rfl, h.release.finish _⟩
  | currentSize =>
    simp only [hop, Option.some.injEq] at hgo ⊢
    subst hgo
    simp only [hsize]
    exact ⟨_, rfl, h.release.finish _⟩
  | list | attach cols rows resume | reset =>
    simp only [hop] at hgo
    cases hgo

theorem Beside.go_listing (h : Beside viewer s t c call call') {statuses : List SlotStatus}
    (hpc : call.pc = .listing statuses) (hgo : s.go c call outcome = some s') :
    Answered viewer s' (t.go c call' outcome) := by
  simp only [State.go, hpc] at hgo
  obtain ⟨p, hp, hgo⟩ := Option.bind_eq_some_iff.mp hgo
  obtain ⟨pool, hpool, hgo⟩ := Option.bind_eq_some_iff.mp hgo
  -- the pools of the two runs are those of the call's user
  obtain ⟨p', hp'⟩ := Option.isSome_iff_exists.mp (h.pool_isSome.trans (by rw [hp]; rfl))
  have hlookup := h.pools.call c call p h.called hp
  have hlookup' := h.pools'.call c call' p' h.called' hp'
  obtain ⟨pool', hpool', _⟩ := h.pools'.lookup call'.user p' hlookup'
  have hsame : pool' = pool.map (Slot.without viewer) := by
    have hpools := h.removed.pools call.user
    rw [State.poolOf, State.poolOf, State.userPool, State.userPool, hlookup, Option.bind_some,
      hpool, ← h.user, hlookup', Option.bind_some, hpool'] at hpools
    exact hpools
  simp only [State.go, h.pc, hpc, hp', hpool', Option.bind_eq_bind, Option.bind_some, hsame,
    List.getElem?_map, h.removed.alive]
  cases hslot : pool[statuses.length]? with
  | none =>
    simp only [hslot, Option.some.injEq] at hgo
    subst hgo
    exact ⟨_, rfl, h.finish _⟩
  | some slot =>
    simp only [hslot, Option.ite_none_right_eq_some, Option.some.injEq] at hgo
    obtain ⟨hholder, rfl⟩ := hgo
    refine ⟨_, ?_, h.goTo _⟩
    simp only [Option.map_some, Slot.without, hholder, Option.filter_none, if_true]

/-- A stop takes its next stage. -/
theorem Beside.go_stop (h : Beside viewer s t c call call') {i : ℕ} {stage : StopStage}
    (hpc : call.pc = .stopping i stage ∨ call.pc = .resetting i stage)
    (hgo : s.go c call outcome = some s') : Answered viewer s' (t.go c call' outcome) := by
  obtain hpc | hpc := hpc
  all_goals
    simp only [State.go, hpc] at hgo
    obtain ⟨term, hterm, hgo⟩ := Option.bind_eq_some_iff.mp hgo
    obtain ⟨term', hterm', halike⟩ := h.getElem? hterm
    obtain ⟨hstop, hcmds⟩ := halike.stopStep stage
    have hset := h.setTerminal i hstop hcmds
    simp only [State.go, h.pc, hpc, hterm', Option.bind_eq_bind, Option.bind_some]
    cases hstage : Terminal.nextStage stage
  · simp only [hstage, Option.some.injEq] at hgo ⊢
    subst hgo
    exact ⟨_, rfl, (hset.goTo _).record rfl⟩
  · simp only [hstage, Option.some.injEq] at hgo ⊢
    subst hgo
    exact ⟨_, rfl, hset.goTo _⟩
  · simp only [hstage, Option.some.injEq] at hgo ⊢
    subst hgo
    exact ⟨_, rfl, (hset.record rfl).finish _⟩
  · simp only [hstage, Option.some.injEq] at hgo ⊢
    subst hgo
    exact ⟨_, rfl, hset.goTo _⟩

/-- A shell is spawned, or has just been, or its spawn has failed. -/
theorem Beside.go_spawn (h : Beside viewer s t c call call')
    (hpc : call.pc.phase = .vacant ∨ ∃ i, call.pc.phase = .holding i)
    (hgo : s.go c call outcome = some s') : Answered viewer s' (t.go c call' outcome) := by
  cases hcase : call.pc with
  | spawning =>
    simp only [State.go, hcase] at hgo
    simp only [State.go, h.pc, hcase, h.op]
    split at hgo
    next cols rows resume epoch hop =>
      obtain rfl := Option.some.inj hgo
      refine ⟨_, ?_, ((h.spawn _).goTo _).record rfl⟩
      simp only [h.user, h.index, h.removed.scrollbackCap, h.removed.terminals.length_eq]
    next e hop =>
      obtain rfl := Option.some.inj hgo
      exact ⟨_, rfl, h.release.finish _⟩
    · cases hgo
  | starting i =>
    simp only [State.go, hcase] at hgo
    obtain ⟨term, hterm, hgo⟩ := Option.bind_eq_some_iff.mp hgo
    obtain ⟨term', hterm', halike⟩ := h.getElem? hterm
    simp only [State.go, h.pc, hcase, hterm', Option.bind_eq_bind, Option.bind_some]
    cases outcome with
    | works epoch =>
      obtain rfl := Option.some.inj hgo
      exact ⟨_, rfl, (h.alter i (halike.start epoch)).goTo _⟩
    | fails e =>
      obtain rfl := Option.some.inj hgo
      exact ⟨_, rfl, h.goTo _⟩
  | killing i e =>
    simp only [State.go, hcase] at hgo
    obtain ⟨term, hterm, hgo⟩ := Option.bind_eq_some_iff.mp hgo
    obtain ⟨term', hterm', halike⟩ := h.getElem? hterm
    obtain rfl := Option.some.inj hgo
    simp only [State.go, h.pc, hcase, hterm', Option.bind_eq_bind, Option.bind_some]
    exact ⟨_, rfl, (h.alter i (halike.hangUp true)).goTo _⟩
  | reaping i e =>
    simp only [State.go, hcase] at hgo
    obtain ⟨term, hterm, hgo⟩ := Option.bind_eq_some_iff.mp hgo
    obtain ⟨term', hterm', halike⟩ := h.getElem? hterm
    simp only [Option.ite_none_right_eq_some, Option.some.injEq] at hgo
    obtain ⟨hexited, rfl⟩ := hgo
    simp only [State.go, h.pc, hcase, hterm', Option.bind_eq_bind, Option.bind_some, halike.exited,
      hexited, if_true]
    exact ⟨_, rfl, h.release.finish _⟩
  | inserting i =>
    simp only [State.go, hcase] at hgo
    obtain ⟨slot, hslot, hgo⟩ := Option.bind_eq_some_iff.mp hgo
    obtain rfl := Option.some.inj hgo
    have hslot' : t.slotOf call' = some (slot.without viewer) := by rw [h.slotOf, hslot]; rfl
    simp only [State.go, h.pc, hcase, hslot', Option.bind_eq_bind, Option.bind_some]
    exact ⟨_, rfl, (h.setSlotOf hslot { slot with occupant := some i }).goTo _⟩
  | _ =>
    rw [hcase] at hpc
    obtain hphase | ⟨_, hphase⟩ := hpc <;> cases hphase

/-- The terminal that the call attaches to. -/
theorem Beside.go_attach (h : Beside viewer s t c call call') {i : ℕ}
    (hpc : call.pc.phase = .attaching i) (hgo : s.go c call outcome = some s') :
    Answered viewer s' (t.go c call' outcome) := by
  cases hcase : call.pc with
  | resizing i =>
    simp only [State.go, hcase] at hgo
    obtain ⟨term, hterm, hgo⟩ := Option.bind_eq_some_iff.mp hgo
    obtain ⟨term', hterm', halike⟩ := h.getElem? hterm
    simp only [State.go, h.pc, hcase, hterm', Option.bind_eq_bind, Option.bind_some, h.op]
    split at hgo
    next cols rows resume hop =>
      obtain rfl := Option.some.inj hgo
      obtain ⟨hoffer, hcmds⟩ := halike.offer (.resize cols rows)
      exact ⟨_, rfl, (h.setTerminal i hoffer hcmds).goTo _⟩
    · cases hgo
  | cutting i =>
    simp only [State.go, hcase] at hgo
    obtain ⟨term, hterm, hgo⟩ := Option.bind_eq_some_iff.mp hgo
    obtain ⟨term', hterm', halike⟩ := h.getElem? hterm
    obtain rfl := Option.some.inj hgo
    simp only [State.go, h.pc, hcase, hterm', Option.bind_eq_bind, Option.bind_some, h.op,
      halike.attachment]
    exact ⟨_, rfl, h.goTo _⟩
  | subscribing i attachment =>
    simp only [State.go, hcase] at hgo
    obtain ⟨term, hterm, hgo⟩ := Option.bind_eq_some_iff.mp hgo
    obtain ⟨term', hterm', halike⟩ := h.getElem? hterm
    obtain rfl := Option.some.inj hgo
    simp only [State.go, h.pc, hcase, hterm', Option.bind_eq_bind, Option.bind_some]
    exact ⟨_, rfl, (h.alter i (halike.shutdown _ _)).release.finish _⟩
  | _ =>
    rw [hcase] at hpc
    cases hpc

/-- **A step of somebody else's call** is possible without the viewers, and does the same. -/
theorem Beside.go (h : Beside viewer s t c call call') (hgo : s.go c call outcome = some s') :
    Answered viewer s' (t.go c call' outcome) := by
  cases hpc : call.pc with
  | pooling =>
    simp only [State.go, hpc, Option.some.injEq] at hgo
    subst hgo
    refine ⟨_, ?_, h.afterPool⟩
    simp only [State.go, h.pc, hpc]
    rfl
  | listing statuses => exact h.go_listing hpc hgo
  | locking => exact h.go_locking hpc hgo
  | checking => exact h.go_checking hpc hgo
  | viewing => exact h.go_viewing hpc hgo
  | stopping i stage => exact h.go_stop (.inl hpc) hgo
  | resetting i stage => exact h.go_stop (.inr hpc) hgo
  | spawning => exact h.go_spawn (.inl (by rw [hpc]; rfl)) hgo
  | starting i | killing i | reaping i | inserting i =>
    exact h.go_spawn (.inr ⟨i, by rw [hpc]; rfl⟩) hgo
  | resizing i | cutting i | subscribing i => exact h.go_attach (i := i) (by rw [hpc]; rfl) hgo
  | returned r =>
    simp only [State.go, hpc] at hgo
    cases hgo

end

/-! ### A step of a viewer's call -/

section
variable {viewer : ℕ → Bool} {s s' t : State P} {c : ℕ} {call : Call} {outcome : Outcome}

omit [Vt100 P] in
theorem Removed.setCall_left (h : Removed viewer s t) (hc : viewer c = true) (hviews : call.Views) :
    Removed viewer (s.setCall c call) t := by
  refine ⟨h.slotsPerUser, h.scrollbackCap, h.pools, h.terminals, fun c' hc' => ?_, h.uncalled,
    fun c' call' hc' hcall' => ?_, h.history⟩
  · have hne : c' ≠ c := by
      rintro rfl
      rw [hc] at hc'
      cases hc'
    rw [setCall_calls_of_ne s hne]
    exact h.calls c' hc'
  · by_cases heq : c' = c
    · rw [heq, setCall_calls_self, Option.some.injEq] at hcall'
      exact hcall' ▸ hviews
    · rw [setCall_calls_of_ne s heq] at hcall'
      exact h.views c' call' hc' hcall'

omit [Vt100 P] in
/-- The return of a viewer's call is the one event of it, and goes with it. -/
theorem Removed.finish_left (h : Removed viewer s t) (hc : viewer c = true)
    (hop : ∃ resume, call.op = .attachView resume) (r : Result) :
    Removed viewer (s.finish c call r) t := by
  have hcall : Removed viewer (s.goTo c call (.returned r)) t :=
    h.setCall_left hc ⟨hop, by simp⟩
  refine ⟨hcall.slotsPerUser, hcall.scrollbackCap, hcall.pools, hcall.terminals, hcall.calls,
    hcall.uncalled, hcall.views, ?_⟩
  show t.history = (s.history ++ [Event.returned c]).filter _
  rw [List.filter_append, h.history]
  simp [Event.stays, hc]

omit [Vt100 P] in
/-- Only the lock of a slot changes, between viewers. -/
theorem Removed.setSlotOf_left (h : Removed viewer s t) (hps : PoolInv s)
    (hcall : s.calls c = some call) {old slot : Slot} (hold : s.slotOf call = some old)
    (hsame : slot.without viewer = old.without viewer) :
    Removed viewer (s.setSlotOf call slot) t := by
  rw [slotOf_eq_poolOf hps hcall] at hold
  split at hold
  next hpool =>
    have hset : ((s.poolOf call.user).set call.index slot).map (Slot.without viewer) =
        (s.poolOf call.user).map (Slot.without viewer) := by
      obtain ⟨hlt, hget⟩ := List.getElem?_eq_some_iff.mp hold
      rw [List.map_set, hsame, ← hget, ← List.map_set, List.set_getElem_self]
    refine ⟨?_, ?_, fun user => ?_, ?_, ?_, h.uncalled, ?_, ?_⟩
    · rw [setSlotOf_slotsPerUser, h.slotsPerUser]
    · rw [setSlotOf_scrollbackCap, h.scrollbackCap]
    · rw [poolOf_setSlotOf hps hcall hpool, h.pools]
      split
      next huser => rw [huser, hset]
      · rfl
    · rw [setSlotOf_terminals]
      exact h.terminals
    · rw [setSlotOf_calls]
      exact h.calls
    · rw [setSlotOf_calls]
      exact h.views
    · rw [setSlotOf_history]
      exact h.history
  · cases hold

omit [Vt100 P] in
/-- The lock is a viewer's, and is given back. -/
theorem Removed.release_left (h : Removed viewer s t) (hps : PoolInv s)
    (hc : viewer c = true) (hcall : s.calls c = some call) {o : Option ℕ}
    (hslot : s.slotOf call = some ⟨some c, o⟩) : Removed viewer (s.release call) t := by
  rw [State.release, hslot]
  refine h.setSlotOf_left hps hcall hslot ?_
  simp [Slot.without, Option.filter_some, hc]

omit [Vt100 P] in
/-- A terminal changes in what the run without the viewers does not have. -/
theorem Removed.alter_left (h : Removed viewer s t) {i : ℕ} {term term' : Terminal P}
    (hterm : s.terminals[i]? = some term) (halike : Alike term term') :
    Removed viewer (s.setTerminal i (term', [])) t := by
  obtain ⟨other, hother, halike'⟩ := h.terminals.exists_getElem? hterm
  refine ⟨h.slotsPerUser, h.scrollbackCap, h.pools,
    h.terminals.set_left hother (halike.symm.trans halike'), h.calls, h.uncalled, h.views, ?_⟩
  show t.history = (s.history ++ []).filter _
  rw [List.append_nil, h.history]

omit [Vt100 P] in
/-- A viewer's call in a place where it has the lock has it. -/
theorem slotOf_of_locked (hps : PoolInv s) (hslots : SlotInv s) (hcall : s.calls c = some call)
    (hlocked : call.pc.phase.locked = true) : ∃ o, s.slotOf call = some ⟨some c, o⟩ := by
  obtain ⟨p, hpool⟩ := Option.ne_none_iff_exists'.mp (hps.locked c call hcall hlocked)
  rw [hps.slotOf_eq hcall hpool]
  exact (hslots.sound c call hcall).slotAt hlocked

/-- **A step of a viewer's call** changes nothing that is there without it. -/
theorem Removed.go_left (h : Removed viewer s t) (hps : PoolInv s) (hslots : SlotInv s)
    (hc : viewer c = true) (hcall : s.calls c = some call)
    (hgo : s.go c call outcome = some s') : Removed viewer s' t := by
  obtain ⟨⟨resume, hop⟩, hpc⟩ := h.views c call hc hcall
  obtain hpc | hpc | hpc | ⟨i, hpc⟩ | ⟨i, attachment, hpc⟩ | ⟨r, hpc⟩ := hpc
  · simp only [State.go, hpc, Option.some.injEq] at hgo
    subst hgo
    refine (h.pool_left hps call.user).setCall_left hc ⟨⟨resume, hop⟩, ?_⟩
    simp [hop, Op.pooled]
  · simp only [State.go, hpc, hop] at hgo
    obtain ⟨slot, hslot, hgo⟩ := Option.bind_eq_some_iff.mp hgo
    simp only [Option.ite_none_right_eq_some, Option.some.injEq] at hgo
    obtain ⟨hholder, rfl⟩ := hgo
    refine (h.setSlotOf_left hps hcall hslot ?_).setCall_left hc ⟨⟨resume, hop⟩, by simp⟩
    simp [Slot.without, hholder, Option.filter_some, hc]
  · obtain ⟨o, hheld⟩ := slotOf_of_locked hps hslots hcall (by rw [hpc]; rfl)
    simp only [State.go, hpc, hop] at hgo
    obtain ⟨slot, hslot, hgo⟩ := Option.bind_eq_some_iff.mp hgo
    cases hlive : slot.occupant.filter s.alive with
    | some i =>
      simp only [hlive, Option.some.injEq] at hgo
      exact hgo ▸ h.setCall_left hc ⟨⟨resume, hop⟩, by simp⟩
    | none =>
      simp only [hlive, Option.some.injEq] at hgo
      exact hgo ▸ (h.release_left hps hc hcall hheld).finish_left hc ⟨resume, hop⟩ _
  · simp only [State.go, hpc] at hgo
    obtain ⟨term, hterm, hgo⟩ := Option.bind_eq_some_iff.mp hgo
    obtain rfl := Option.some.inj hgo
    exact h.setCall_left hc ⟨⟨resume, hop⟩, by simp⟩
  · obtain ⟨o, hheld⟩ := slotOf_of_locked hps hslots hcall (by rw [hpc]; rfl)
    simp only [State.go, hpc] at hgo
    obtain ⟨term, hterm, hgo⟩ := Option.bind_eq_some_iff.mp hgo
    obtain rfl := Option.some.inj hgo
    have hsubscribed := h.alter_left hterm
      ((alike_refl term).shutdown term.shutdown (term.shutdown.subscribe c))
    exact (hsubscribed.release_left (hps.frame rfl rfl rfl rfl) hc hcall hheld).finish_left hc
      ⟨resume, hop⟩ _
  · simp only [State.go, hpc] at hgo
    cases hgo

end

/-! ### Steps of the system -/

section
variable {viewer : ℕ → Bool} {s s' t : State P} {c : ℕ} {call : Call}

omit [Vt100 P] in
theorem Removed.beside (h : Removed viewer s t) (hps : PoolInv s) (hpt : PoolInv t)
    (hc : viewer c = false) (hcall : s.calls c = some call) :
    ∃ call', Beside viewer s t c call call' ∧ t.calls c = some call' := by
  obtain ⟨pool, hpool, hcall'⟩ := h.exists_call hc hcall
  exact ⟨_, ⟨h, hps, hpt, hc, hcall, hcall', ⟨pool, hpool, rfl⟩⟩, hcall'⟩

/-- **A step of somebody else** is possible without the viewers, and does the same. -/
theorem Removed.step (h : Removed viewer s t) (hps : PoolInv s) (hpt : PoolInv t) {a : Act}
    (ha : a.caller.all (fun c => !viewer c) = true) (hstep : terminalsStep s a = some s') :
    Answered viewer s' (terminalsStep t a) := by
  cases a with
  | call c user index op =>
    have hc : viewer c = false := by simpa [Act.caller] using ha
    simp only [terminalsStep, Option.ite_none_right_eq_some] at hstep
    obtain ⟨hnone, hstep⟩ := hstep
    have hset : Removed viewer (s.setCall c ⟨user, index, op, none, .pooling⟩)
        (t.setCall c ⟨user, index, op, none, .pooling⟩) := h.setCall hc ⟨none, rfl, rfl⟩
    simp only [terminalsStep, h.calls_eq_none hc hnone, if_true, h.slotsPerUser]
    split at hstep
    next r _ =>
      split at hstep
      next hindex =>
        obtain rfl := Option.some.inj hstep
        exact ⟨_, if_pos hindex, hset⟩
      next hindex =>
        obtain rfl := Option.some.inj hstep
        have hfinish : Removed viewer (s.setCall c ⟨user, index, op, none, .returned r⟩)
            (t.setCall c ⟨user, index, op, none, .returned r⟩) := h.setCall hc ⟨none, rfl, rfl⟩
        exact ⟨_, if_neg hindex, hfinish.record (by simp [Event.stays, hc])⟩
    · obtain rfl := Option.some.inj hstep
      exact ⟨_, rfl, hset⟩
  | go c outcome =>
    have hc : viewer c = false := by simpa [Act.caller] using ha
    obtain ⟨call, hcall, hgo⟩ := Option.bind_eq_some_iff.mp hstep
    obtain ⟨call', hbeside, hcall'⟩ := h.beside hps hpt hc hcall
    simp only [terminalsStep, hcall', Option.bind_eq_bind, Option.bind_some]
    exact hbeside.go hgo
  | thread i a =>
    obtain ⟨term, hterm, hstep⟩ := Option.bind_eq_some_iff.mp hstep
    obtain ⟨r, hr, hstep⟩ := Option.bind_eq_some_iff.mp hstep
    obtain rfl := Option.some.inj hstep
    obtain ⟨term', hterm', halike⟩ := h.terminals.exists_getElem? hterm
    obtain ⟨r', hr', hafter, hcmds⟩ := halike.step hr
    simp only [terminalsStep, hterm', hr', Option.bind_eq_bind, Option.bind_some]
    exact ⟨_, rfl, h.setTerminal i hafter hcmds⟩
  | send c cmd =>
    have hc : viewer c = false := by simpa [Act.caller] using ha
    obtain ⟨call, hcall, hstep⟩ := Option.bind_eq_some_iff.mp hstep
    obtain ⟨i, hi, hstep⟩ := Option.bind_eq_some_iff.mp hstep
    obtain ⟨term, hterm, hstep⟩ := Option.bind_eq_some_iff.mp hstep
    simp only [Option.ite_none_right_eq_some, Option.some.injEq] at hstep
    obtain ⟨hguard, rfl⟩ := hstep
    obtain ⟨call', hbeside, hcall'⟩ := h.beside hps hpt hc hcall
    obtain ⟨term', hterm', halike⟩ := hbeside.getElem? hterm
    obtain ⟨hoffer, hcmds⟩ := halike.offer cmd
    simp only [terminalsStep, hcall', hbeside.attachedTo.trans hi, hterm', Option.bind_eq_bind,
      Option.bind_some, hbeside.op, if_pos hguard]
    exact ⟨_, rfl, h.setTerminal i hoffer hcmds⟩
  | redraw c rx =>
    have hc : viewer c = false := by simpa [Act.caller] using ha
    obtain ⟨call, hcall, hstep⟩ := Option.bind_eq_some_iff.mp hstep
    obtain ⟨i, hi, hstep⟩ := Option.bind_eq_some_iff.mp hstep
    obtain ⟨term, hterm, hstep⟩ := Option.bind_eq_some_iff.mp hstep
    obtain rfl := Option.some.inj hstep
    obtain ⟨call', hbeside, hcall'⟩ := h.beside hps hpt hc hcall
    obtain ⟨term', hterm', halike⟩ := hbeside.getElem? hterm
    simp only [terminalsStep, hcall', hbeside.attachedTo.trans hi, hterm', Option.bind_eq_bind,
      Option.bind_some]
    have hredrawn := ((alike_redraw term rx).symm.trans halike).trans (alike_redraw term' rx)
    exact ⟨_, rfl, h.setTerminal i hredrawn rfl⟩

/-- A call of a viewer begins, or has no slot. -/
theorem Removed.call_left (h : Removed viewer s t) (hc : viewer c = true) {user : String}
    {index : ℕ} {resume : Option (ℕ × ℕ)}
    (hstep : terminalsStep s (.call c user index (.attachView resume)) = some s') :
    Removed viewer s' t := by
  simp only [terminalsStep, Op.outOfRange, Option.ite_none_right_eq_some] at hstep
  obtain ⟨_, hstep⟩ := hstep
  split at hstep
  · obtain rfl := Option.some.inj hstep
    exact h.setCall_left hc ⟨⟨resume, rfl⟩, .inl rfl⟩
  · obtain rfl := Option.some.inj hstep
    exact h.finish_left hc ⟨resume, rfl⟩ _

/-- A redraw of a viewer rebuilds a screen at most. -/
theorem Removed.redraw_left (h : Removed viewer s t) {rx : ℕ}
    (hstep : terminalsStep s (.redraw c rx) = some s') : Removed viewer s' t := by
  obtain ⟨call, _, hstep⟩ := Option.bind_eq_some_iff.mp hstep
  obtain ⟨i, _, hstep⟩ := Option.bind_eq_some_iff.mp hstep
  obtain ⟨term, hterm, hstep⟩ := Option.bind_eq_some_iff.mp hstep
  exact Option.some.inj hstep ▸ h.alter_left hterm (alike_redraw term rx)

omit [Vt100 P] in
/-- What a read-only client sends is not looked at. -/
theorem receive_readOnly (resizeOf : Text → Option (ℕ × ℕ)) (s : State P) (i : ℕ)
    (frame : Incoming) : s.receive resizeOf true i frame = s := by
  cases frame <;> rfl

/-- What a viewer does to the terminals: nothing, a call of `attach_view`, a step of it, or a
redraw. -/
def Bridged (s : State P) (c : ℕ) (s' : State P) : Prop :=
  s' = s ∨ (∃ user index resume,
      terminalsStep s (.call c user index (.attachView resume)) = some s') ∨
    (∃ outcome, terminalsStep s (.go c outcome) = some s') ∨
    ∃ rx, terminalsStep s (.redraw c rx) = some s'

theorem bridged_of_eq {next b : Bridge} (h : some (s, next) = some (s', b)) : Bridged s c s' :=
  .inl (Prod.mk.inj (Option.some.inj h)).1.symm

theorem bridged_of_run {resizeOf : Text → Option (ℕ × ℕ)} {arm : Arm} {i : ℕ} {term : Terminal P}
    {b b' : Bridge} (hrun : arm.run resizeOf true s c i term b = some (s', b')) :
    Bridged s c s' := by
  cases arm with
  | expiry | revocation | audit | shutdown | outputClosed => exact bridged_of_eq hrun
  | redraw =>
    obtain ⟨next, hredraw, hrun⟩ := Option.bind_eq_some_iff.mp hrun
    obtain ⟨rfl, _⟩ := Prod.mk.inj (Option.some.inj hrun)
    exact .inr (.inr (.inr ⟨b.outputRx, hredraw⟩))
  | output =>
    simp only [Arm.run] at hrun
    split at hrun
    · exact bridged_of_eq hrun
    · exact bridged_of_eq hrun
    · cases hrun
  | client frame =>
    -- the frame is read, and dropped
    simp only [Arm.run, receive_readOnly] at hrun
    exact bridged_of_eq hrun

/-- **A step of a viewer's bridge.** -/
theorem bridged_of_step {resizeOf : Text → Option (ℕ × ℕ)} {a : BridgeAct} {b b' : Bridge}
    (hstep : bridgeStep resizeOf true s c b a = some (s', b')) : Bridged s c s' := by
  cases a with
  | attach => cases hstep
  | go outcome =>
    obtain ⟨next, hgo, hstep⟩ := Option.bind_eq_some_iff.mp hstep
    obtain ⟨rfl, _⟩ := Prod.mk.inj (Option.some.inj hstep)
    exact .inr (.inr (.inl ⟨outcome, hgo⟩))
  | select arm =>
    simp only [bridgeStep] at hstep
    split at hstep
    · obtain ⟨call, _, hstep⟩ := Option.bind_eq_some_iff.mp hstep
      obtain ⟨i, _, hstep⟩ := Option.bind_eq_some_iff.mp hstep
      obtain ⟨term, _, hrun⟩ := Option.bind_eq_some_iff.mp hstep
      exact bridged_of_run hrun
    · cases hstep
  | upgrade | refuse | sent | closed =>
    simp only [bridgeStep] at hstep
    split at hstep
    · exact bridged_of_eq hstep
    · cases hstep

/-- A step of a viewer leaves it a viewer, with a bridge. -/
theorem bridged_of_watched {resizeOf : Text → Option (ℕ × ℕ)} {w w' : Watched P} {a : BridgeAct}
    (hbridges : ∀ c b, w.bridges.lookup c = some b → viewer c = true)
    (hstep : watchedStep resizeOf viewer w (.viewer c a) = some w') :
    viewer c = true ∧ Bridged w.terminals c w'.terminals ∧
      ∃ b, w'.bridges = w.bridges.insert c b := by
  cases a with
  | attach user index resume =>
    simp only [watchedStep, Option.ite_none_right_eq_some] at hstep
    obtain ⟨hc, hstep⟩ := hstep
    obtain ⟨terminals, hcall, hstep⟩ := Option.bind_eq_some_iff.mp hstep
    obtain rfl := Option.some.inj hstep
    exact ⟨hc, .inr (.inl ⟨user, index, resume, hcall⟩), _, rfl⟩
  | go | upgrade | refuse | sent | select | closed =>
    obtain ⟨b, hb, hstep⟩ := Option.bind_eq_some_iff.mp hstep
    obtain ⟨⟨terminals, b'⟩, hbridge, hstep⟩ := Option.bind_eq_some_iff.mp hstep
    obtain rfl := Option.some.inj hstep
    exact ⟨hbridges c b hb, bridged_of_step hbridge, b', rfl⟩

theorem reachable_of_step (hs : (terminalsSystem P).Reachable s) {a : Act}
    (hstep : terminalsStep s a = some s') : (terminalsSystem P).Reachable s' :=
  hs.step trivial hstep

theorem Removed.bridged (h : Removed viewer s t) (hs : (terminalsSystem P).Reachable s)
    (hc : viewer c = true) (hbridged : Bridged s c s') :
    Removed viewer s' t ∧ (terminalsSystem P).Reachable s' := by
  obtain rfl | ⟨user, index, resume, hcall⟩ | ⟨outcome, hgo⟩ | ⟨rx, hredraw⟩ := hbridged
  · exact ⟨h, hs⟩
  · exact ⟨h.call_left hc hcall, reachable_of_step hs hcall⟩
  · refine ⟨?_, reachable_of_step hs hgo⟩
    obtain ⟨call, hcall, hgo⟩ := Option.bind_eq_some_iff.mp hgo
    exact h.go_left (poolInv_of_reachable hs) (slotInv_of_reachable hs) hc hcall hgo
  · exact ⟨h.redraw_left hredraw, reachable_of_step hs hredraw⟩

/-- The states of the two runs, beside each other. -/
structure TwoRuns (viewer : ℕ → Bool) (s : Watched P) (t : State P) : Prop where
  reachable : (terminalsSystem P).Reachable s.terminals
  reachable' : (terminalsSystem P).Reachable t
  bridges : ∀ c b, s.bridges.lookup c = some b → viewer c = true
  removed : Removed viewer s.terminals t

omit [Vt100 P] in
theorem removed_newTerminals (viewer : ℕ → Bool) (slotsPerUser scrollbackCap : ℕ) :
    Removed viewer (newTerminals P slotsPerUser scrollbackCap)
      (newTerminals P slotsPerUser scrollbackCap) where
  slotsPerUser := rfl
  scrollbackCap := rfl
  pools user := by
    show UserPool.new slotsPerUser = (UserPool.new slotsPerUser).map (Slot.without viewer)
    rw [UserPool.new, List.map_replicate]
    rfl
  terminals := .nil
  calls _ _ := .none
  uncalled _ _ := rfl
  views _ _ _ hcall := by cases hcall
  history := rfl

/-- The terminals without the viewers follow those with them. -/
theorem follows_watched (resizeOf : Text → Option (ℕ × ℕ)) (viewer : ℕ → Bool) :
    (watchedSystem P resizeOf viewer).Follows (terminalsSystem P) WatchedAct.other
      (TwoRuns viewer) where
  hidden s a s' t h hstep ha := by
    cases a with
    | others a => cases ha
    | viewer c a =>
      obtain ⟨hc, hbridged, b, hinsert⟩ := bridged_of_watched h.bridges hstep
      obtain ⟨hremoved, hreachable⟩ := h.removed.bridged h.reachable hc hbridged
      refine ⟨hreachable, h.reachable', fun c' b' hb' => ?_, hremoved⟩
      rw [hinsert] at hb'
      obtain ⟨rfl, _⟩ | ⟨_, hold⟩ := AList.lookup_of_lookup_insert hb'
      · exact hc
      · exact h.bridges c' b' hold
  shown s a s' t b h hstep ha := by
    cases a with
    | others a =>
      obtain rfl := Option.some.inj ha
      simp only [watchedSystem, watchedStep, Option.ite_none_right_eq_some] at hstep
      obtain ⟨⟨_, hcaller⟩, hstep⟩ := hstep
      obtain ⟨terminals, hterminals, hstep⟩ := Option.bind_eq_some_iff.mp hstep
      obtain rfl := Option.some.inj hstep
      obtain ⟨t', ht', hremoved⟩ := h.removed.step (poolInv_of_reachable h.reachable)
        (poolInv_of_reachable h.reachable') hcaller hterminals
      exact ⟨t', ht', reachable_of_step h.reachable hterminals,
        reachable_of_step h.reachable' ht', h.bridges, hremoved⟩
    | viewer c a => cases ha

/-! ### The same shells -/

omit [Vt100 P] in
theorem Removed.isFor (h : Removed viewer s t) : t.isFor = s.isFor := by
  funext user i j
  rw [State.isFor, State.isFor]
  cases hterm : s.terminals[j]? with
  | none => rw [h.terminals.getElem?_eq_none hterm]
  | some term =>
    obtain ⟨term', hterm', halike⟩ := h.terminals.exists_getElem? hterm
    rw [hterm', Option.any_some, Option.any_some, halike.slot]

omit [Vt100 P] in
/-- A pool that has not been made has nothing in it. -/
theorem occupant_eq_poolOf (s : State P) (user : String) (i : ℕ) :
    (s.slotAt user i).bind Slot.occupant = (s.poolOf user)[i]?.bind Slot.occupant := by
  rw [State.slotAt, State.poolOf]
  cases s.userPool user with
  | none =>
    show none = (List.replicate s.slotsPerUser Slot.empty)[i]?.bind Slot.occupant
    rw [List.getElem?_replicate]
    split <;> rfl
  | some pool => rfl

omit [Vt100 P] in
theorem Removed.sameShells (h : Removed viewer s t) : SameShells s t where
  queued user i := by
    rw [State.queuedTo, State.queuedTo, h.history, h.isFor, List.filterMap_filter]
    apply List.filterMap_congr
    intro e _
    cases e with
    | queued => rfl
    | returned c => exact ite_self none
    | took | stopped | spawned => rfl
  spawnsAndStops user i := by
    rw [State.spawnsAndStops, State.spawnsAndStops, h.history, h.isFor, List.filter_filter]
    apply List.filter_congr
    intro e _
    cases e with
    | took | stopped | spawned => exact Bool.and_true _
    | returned | queued => rfl
  occupant user i := by
    rw [occupant_eq_poolOf, occupant_eq_poolOf, h.pools, List.getElem?_map, Option.bind_map]
    rfl
  rings := h.terminals.map_eq fun _ _ halike => halike.ring

end

/-- **Viewers cannot influence a shell.** Whatever they send, wherever they resume and whenever they
stall, fall behind or leave: without them, the steps of everybody else are a run too, in which the
same commands are queued to the shell of each slot, the same shells are spawned and stopped, and
every ring has the same bytes. -/
theorem viewers_removed (resizeOf : Text → Option (ℕ × ℕ)) (viewer : ℕ → Bool)
    (slotsPerUser scrollbackCap : ℕ) (acts : List WatchedAct) (s : Watched P)
    (hrun : (watchedSystem P resizeOf viewer).run
      ⟨newTerminals P slotsPerUser scrollbackCap, ∅⟩ acts = some s) :
    ∃ t, (terminalsSystem P).run (newTerminals P slotsPerUser scrollbackCap)
        (acts.filterMap WatchedAct.other) = some t ∧ SameShells s.terminals t := by
  have hnew : (terminalsSystem P).Reachable (newTerminals P slotsPerUser scrollbackCap) :=
    .init ⟨slotsPerUser, scrollbackCap, rfl⟩
  have hboth : TwoRuns viewer ⟨newTerminals P slotsPerUser scrollbackCap, ∅⟩
      (newTerminals P slotsPerUser scrollbackCap) :=
    ⟨hnew, hnew, fun _ _ hb => (by cases hb),
      removed_newTerminals viewer slotsPerUser scrollbackCap⟩
  obtain ⟨t, ht, hafter⟩ := (follows_watched resizeOf viewer).run hboth hrun
  exact ⟨t, ht, hafter.removed.sameShells⟩

/-- The calls with the number 1. -/
def guest (c : ℕ) : Bool := c = 1

/-- A viewer attaches to the shell of alice, is sent its frames, types, resizes, redraws and goes,
while she types. -/
def guestRun : List WatchedAct :=
  (.call 0 "alice" 1 (.attach 80 24 none) :: goes 0 9).map .others ++
  .viewer 1 (.attach "alice" 1 (some (7, 3))) ::
  List.replicate 5 (.viewer 1 (.go (.works 7))) ++
  [.viewer 1 .upgrade, .viewer 1 (.sent true), .others (.send 0 (.input [98])),
    .viewer 1 (.sent true), .viewer 1 (.select (.client (.binary [97]))),
    .viewer 1 (.select (.client (.text ['x']))), .viewer 1 (.select .redraw),
    .viewer 1 (.sent true), .viewer 1 (.select (.client .close)),
    .others (.thread 0 (.readChunk [36]))]

/-- What is queued to her shell then. -/
theorem viewers_removed_guestRun :
    ∃ s t, (watchedSystem Unit (fun _ => some (10, 10)) guest).run ⟨newTerminals Unit 2 64, ∅⟩
        guestRun = some s ∧
      (terminalsSystem Unit).run (newTerminals Unit 2 64) (guestRun.filterMap WatchedAct.other) =
        some t ∧
      SameShells s.terminals t ∧ t.queuedTo "alice" 1 = [.resize 80 24, .input [98]] := by
  have hrun : (((watchedSystem Unit (fun _ => some (10, 10)) guest).run
      ⟨newTerminals Unit 2 64, ∅⟩ guestRun).map fun s => s.terminals.queuedTo "alice" 1) =
        some [.resize 80 24, .input [98]] := by decide +kernel
  obtain ⟨s, hs, hqueued⟩ := Option.map_eq_some_iff.mp hrun
  obtain ⟨t, ht, hsame⟩ := viewers_removed _ guest 2 64 guestRun s hs
  exact ⟨s, t, hs, ht, hsame, (hsame.queued "alice" 1).trans hqueued⟩

end Webshell.Terminals
