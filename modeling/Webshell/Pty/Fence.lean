import Webshell.Lib.History
import Webshell.Lib.Transition

/-!
# The hello as a fence

The connection loop of a mux connection, its forward tasks, and the writer queue they share. A
task runs from one suspension point to the next and may queue frames meanwhile; an abort reaches
it at the next suspension point. An open waits for the end of the task it replaces, a close does
not.

Attachments are numbered in the order of their opens; a forward task has the number of its
attachment, and so has the closed frame of an open that fails.

## Main definitions

- `loopStep`, `loopSystem`: the steps of the loop and its tasks
- `Fenced`: what may be queued behind a hello

## Main results

- `fenced_of_no_straggler`: the hello fences in every run in which no hello is queued while a task
  that a close frame stopped is still running
- `straggler_follows_hello`: a close, an open, and the frame of a task that is still running
-/

namespace Webshell.Fence

open Transition

inductive Kind
  | hello
  | replay
  | output
  | closed
  | redraw
deriving DecidableEq

/-- A frame in the writer queue: its slot, and the attachment it comes from. -/
structure Entry where
  slot : ℕ
  att : ℕ
  kind : Kind
deriving DecidableEq

namespace Entry

/-- A data frame, tagged with its slot. -/
def binary (e : Entry) : Bool := e.kind = .replay || e.kind = .output

/-- Ends what the last hello announced. -/
def fence (e : Entry) : Bool := e.kind = .hello || e.kind = .closed

end Entry

/-- Who aborted a forward task. -/
inductive Stopper
  /-- `MuxControl::Open`, which awaits its end. -/
  | replaced
  /-- `Channel::stop` -/
  | close
deriving DecidableEq

/-- A forward task; it is running while it is between two suspension points. -/
structure Task where
  slot : ℕ
  running : Bool
  stopped : Option Stopper
  ended : Bool
deriving DecidableEq

/-- Where the connection loop stands with an open of a slot. -/
inductive Phase
  | reading
  | awaiting (slot task : ℕ)
  | attaching (slot : ℕ)
  | greeting (slot att : ℕ)
  | replaying (slot att : ℕ)
  | spawning (slot att : ℕ)
  | refusing (slot att : ℕ)
deriving DecidableEq

structure Loop where
  phase : Phase
  /-- The forward task of each open channel. -/
  channels : ℕ → Option ℕ
  tasks : ℕ → Option Task
  next : ℕ
  queue : List Entry

inductive Act
  | readOpen (slot : ℕ)
  | readClose (slot : ℕ)
  /-- A resize, a mode frame, or input. -/
  | readOther
  | awaited
  | attach (ok : Bool)
  | queueHello
  | queueReplay
  | spawnForward
  | queueRefusal
  | resume (task : ℕ)
  | suspend (task : ℕ)
  /-- A suspended task that was aborted is dropped. -/
  | cancel (task : ℕ)
  | push (task : ℕ) (kind : Kind)

def Loop.setTask (s : Loop) (i : ℕ) (task : Task) : Loop :=
  { s with tasks := Function.update s.tasks i (some task) }

/-- `channels.remove(&term)`, and the abort of the task that was there. -/
def Loop.removeChannel (s : Loop) (slot : ℕ) (stopper : Stopper) : Loop :=
  match s.channels slot with
  | none => s
  | some i =>
    match s.tasks i with
    | none => s
    | some task =>
      { s.setTask i { task with stopped := some stopper } with
        channels := Function.update s.channels slot none }

def loopStep (s : Loop) : Act → Option Loop
  | .readOpen slot =>
    if s.phase = .reading then
      match s.channels slot with
      | none => some { s with phase := .attaching slot }
      | some i => some { s.removeChannel slot .replaced with phase := .awaiting slot i }
    else none
  | .readClose slot => if s.phase = .reading then some (s.removeChannel slot .close) else none
  | .readOther => if s.phase = .reading then some s else none
  | .awaited =>
    match s.phase with
    | .awaiting slot i => do
      let task ← s.tasks i
      if task.ended then some { s with phase := .attaching slot } else none
    | _ => none
  | .attach ok =>
    match s.phase with
    | .attaching slot =>
      let phase := if ok then .greeting slot s.next else .refusing slot s.next
      some { s with phase := phase, next := s.next + 1 }
    | _ => none
  | .queueHello =>
    match s.phase with
    | .greeting slot att =>
      some { s with phase := .replaying slot att, queue := s.queue ++ [⟨slot, att, .hello⟩] }
    | _ => none
  | .queueReplay =>
    match s.phase with
    | .replaying slot att =>
      some { s with phase := .spawning slot att, queue := s.queue ++ [⟨slot, att, .replay⟩] }
    | _ => none
  | .spawnForward =>
    match s.phase with
    | .spawning slot att =>
      some { s.setTask att { slot := slot, running := false, stopped := none, ended := false } with
        phase := .reading
        channels := Function.update s.channels slot (some att) }
    | _ => none
  | .queueRefusal =>
    match s.phase with
    | .refusing slot att =>
      some { s with phase := .reading, queue := s.queue ++ [⟨slot, att, .closed⟩] }
    | _ => none
  | .resume i => do
    let task ← s.tasks i
    if task.running = false ∧ task.stopped = none ∧ task.ended = false then
      some (s.setTask i { task with running := true })
    else none
  | .suspend i => do
    let task ← s.tasks i
    if task.running = true ∧ task.ended = false then
      some (s.setTask i { task with running := false, ended := task.stopped.isSome })
    else none
  | .cancel i => do
    let task ← s.tasks i
    if task.running = false ∧ task.stopped ≠ none then
      some (s.setTask i { task with ended := true })
    else none
  | .push i kind => do
    let task ← s.tasks i
    if task.running = true ∧ task.ended = false ∧ kind ≠ .hello ∧ kind ≠ .replay then
      let s := s.setTask i { task with ended := kind == .closed }
      some { s with queue := s.queue ++ [⟨task.slot, i, kind⟩] }
    else none

def loopSystem : System Loop Act where
  init s := s =
    { phase := .reading, channels := fun _ => none, tasks := fun _ => none, next := 0, queue := [] }
  step := loopStep

/-! ## What may follow a hello -/

/-- The frames of a slot, the newest first. -/
def slotFrames (queue : List Entry) (slot : ℕ) : List Entry :=
  (queue.filter fun e => e.slot = slot).reverse

/-- The last hello or closed frame of the slot. -/
def lastFence (queue : List Entry) (slot : ℕ) : Option Entry :=
  (slotFrames queue slot).find? Entry.fence

/-- The frames of the slot since then. -/
def sinceFence (queue : List Entry) (slot : ℕ) : List Entry :=
  (slotFrames queue slot).takeWhile fun e => !e.fence

/-- A frame may be queued next: no hello before it announced a later attachment of its slot, and
a data frame between a hello and the next hello or closed frame comes from the attachment that
this hello announced, the first one being its replay. -/
structure Follows (queue : List Entry) (e : Entry) : Prop where
  not_outdated : ∀ h ∈ queue, h.slot = e.slot → h.kind = .hello → h.att ≤ e.att
  announced : e.binary = true → ∀ h, lastFence queue e.slot = some h → h.kind = .hello →
    e.att = h.att ∧ ((∀ b ∈ sinceFence queue e.slot, b.binary = false) → e.kind = .replay)

/-- Every frame was queued where it may be. -/
def Fenced (queue : List Entry) : Prop :=
  ∀ before e after, queue = before ++ e :: after → Follows before e

/-- A hello is about to be queued while a task that a close frame for its slot stopped is still
running. -/
def Straggler (s : Loop) (a : Act) : Prop :=
  a = .queueHello ∧ ∃ slot att i task, s.phase = .greeting slot att ∧ s.tasks i = some task ∧
    task.slot = slot ∧ task.stopped = some .close ∧ task.running = true ∧ task.ended = false

theorem fenced_nil : Fenced [] := History.each_nil

theorem Fenced.snoc {queue : List Entry} {e : Entry} (h : Fenced queue) (he : Follows queue e) :
    Fenced (queue ++ [e]) :=
  History.Each.snoc h he

section
variable {queue : List Entry} {e : Entry} {slot : ℕ}

theorem slotFrames_snoc_of_eq (h : e.slot = slot) :
    slotFrames (queue ++ [e]) slot = e :: slotFrames queue slot := by
  simp [slotFrames, List.filter_append, h]

theorem slotFrames_snoc_of_ne (h : e.slot ≠ slot) :
    slotFrames (queue ++ [e]) slot = slotFrames queue slot := by
  simp [slotFrames, List.filter_append, h]

theorem lastFence_snoc_of_ne (h : e.slot ≠ slot) :
    lastFence (queue ++ [e]) slot = lastFence queue slot := by
  rw [lastFence, slotFrames_snoc_of_ne h, lastFence]

theorem sinceFence_snoc_of_ne (h : e.slot ≠ slot) :
    sinceFence (queue ++ [e]) slot = sinceFence queue slot := by
  rw [sinceFence, slotFrames_snoc_of_ne h, sinceFence]

theorem lastFence_snoc_fence (h : e.slot = slot) (hf : e.fence = true) :
    lastFence (queue ++ [e]) slot = some e := by
  rw [lastFence, slotFrames_snoc_of_eq h, List.find?_cons_of_pos hf]

theorem lastFence_snoc_of_not_fence (h : e.slot = slot) (hf : e.fence = false) :
    lastFence (queue ++ [e]) slot = lastFence queue slot := by
  rw [lastFence, slotFrames_snoc_of_eq h, List.find?_cons_of_neg (by simp [hf]), lastFence]

theorem sinceFence_snoc_of_not_fence (h : e.slot = slot) (hf : e.fence = false) :
    sinceFence (queue ++ [e]) slot = e :: sinceFence queue slot := by
  rw [sinceFence, slotFrames_snoc_of_eq h, List.takeWhile_cons_of_pos (by simp [hf]), sinceFence]

end

/-! ## The invariant -/

/-- The task may still queue frames: an abort has not reached it. -/
def Task.CanQueue (task : Task) : Prop :=
  task.ended = false ∧ (task.running = true ∨ task.stopped = none)

/-- Nothing keeps the attachment from queueing output for its slot. -/
structure Heads (queue : List Entry) (slot att : ℕ) : Prop where
  hellos : ∀ h ∈ queue, h.slot = slot → h.kind = .hello → h.att ≤ att
  last : ∀ h, lastFence queue slot = some h → h.kind = .hello →
    att = h.att ∧ ∃ b ∈ sinceFence queue slot, b.binary = true

theorem Heads.snoc {queue : List Entry} {slot att : ℕ} {e : Entry} (h : Heads queue slot att)
    (he : e.slot = slot → e.kind ≠ .hello) : Heads (queue ++ [e]) slot att := by
  refine ⟨fun hello hmem hslot hkind => ?_, fun hello hlast hkind => ?_⟩
  · obtain hmem | hmem := List.mem_append.mp hmem
    · exact h.hellos hello hmem hslot hkind
    · obtain rfl := List.mem_singleton.mp hmem
      exact absurd hkind (he hslot)
  · by_cases hslot : e.slot = slot
    · cases hf : e.fence with
      | true =>
        rw [lastFence_snoc_fence hslot hf] at hlast
        obtain rfl := Option.some.inj hlast
        exact absurd hkind (he hslot)
      | false =>
        rw [lastFence_snoc_of_not_fence hslot hf] at hlast
        obtain ⟨heq, b, hb, hbin⟩ := h.last hello hlast hkind
        rw [sinceFence_snoc_of_not_fence hslot hf]
        exact ⟨heq, b, List.mem_cons_of_mem e hb, hbin⟩
    · rw [lastFence_snoc_of_ne hslot] at hlast
      rw [sinceFence_snoc_of_ne hslot]
      exact h.last hello hlast hkind

/-- The slot of the open being handled. -/
def Phase.slot : Phase → Option ℕ
  | .reading => none
  | .awaiting slot _ => some slot
  | .attaching slot => some slot
  | .greeting slot _ => some slot
  | .replaying slot _ => some slot
  | .spawning slot _ => some slot
  | .refusing slot _ => some slot

/-- The attachment being announced. -/
def Phase.att : Phase → Option ℕ
  | .greeting _ att => some att
  | .replaying _ att => some att
  | .spawning _ att => some att
  | .refusing _ att => some att
  | _ => none

/-- The last fence of the slot is the hello of the attachment, and no task can queue a frame for
the slot. -/
structure Announced (s : Loop) (slot att : ℕ) : Prop where
  last : lastFence s.queue slot = some ⟨slot, att, .hello⟩
  quiet : ∀ i task, s.tasks i = some task → task.CanQueue → task.slot ≠ slot

structure LoopInv (s : Loop) : Prop where
  fenced : Fenced s.queue
  numbered : ∀ e ∈ s.queue, e.att < s.next
  tasks : ∀ i task, s.tasks i = some task → i < s.next
  channel : ∀ slot i, s.channels slot = some i →
    ∃ task, s.tasks i = some task ∧ task.slot = slot
  owned : ∀ i task, s.tasks i = some task → task.ended = false → task.stopped = none →
    s.channels task.slot = some i
  replaced : ∀ i task, s.tasks i = some task → task.stopped = some .replaced →
    task.ended = true ∨ s.phase = .awaiting task.slot i
  removed : ∀ slot, s.phase.slot = some slot → s.channels slot = none
  fresh : ∀ att, s.phase.att = some att → att + 1 = s.next ∧ s.tasks att = none
  heads : ∀ i task, s.tasks i = some task → task.CanQueue → Heads s.queue task.slot i
  replaying : ∀ slot att, s.phase = .replaying slot att → Announced s slot att
  spawning : ∀ slot att, s.phase = .spawning slot att → Announced s slot att ∧
    ∃ b ∈ sinceFence s.queue slot, b.binary = true

variable {s s' : Loop}

theorem loopInv_init (h : loopSystem.init s) : LoopInv s := by
  obtain rfl := h
  exact ⟨fenced_nil, nofun, nofun, nofun, nofun, nofun, nofun, nofun, nofun, nofun, nofun⟩

/-- Looking a task up after one of them changed. -/
theorem setTask_tasks {i j : ℕ} {task t : Task} (h : (s.setTask i task).tasks j = some t) :
    (j = i ∧ t = task) ∨ (j ≠ i ∧ s.tasks j = some t) := by
  by_cases hji : j = i
  · subst hji
    simp only [Loop.setTask, Function.update_self, Option.some.injEq] at h
    exact .inl ⟨rfl, h.symm⟩
  · simp only [Loop.setTask, Function.update_of_ne hji] at h
    exact .inr ⟨hji, h⟩

/-- A task changes, and can queue only if it could before. -/
theorem LoopInv.setTask (h : LoopInv s) {i : ℕ} {task : Task} (ht : s.tasks i = some task)
    (task' : Task) (hslot : task'.slot = task.slot) (hcan : task'.CanQueue → task.CanQueue)
    (hstopped : task'.stopped = none → task.stopped = none)
    (hended : task.ended = true → task'.ended = true)
    (hreplaced : task'.stopped = some .replaced → task.stopped = some .replaced) :
    LoopInv (s.setTask i task') := by
  have hquiet : ∀ slot att, Announced s slot att → Announced (s.setTask i task') slot att := by
    intro slot att ha
    refine ⟨ha.last, fun j t hj hcanq => ?_⟩
    obtain ⟨rfl, rfl⟩ | ⟨_, hj⟩ := setTask_tasks hj
    · rw [hslot]
      exact ha.quiet _ task ht (hcan hcanq)
    · exact ha.quiet j t hj hcanq
  refine ⟨h.fenced, h.numbered, fun j t hj => ?_, fun slot j hc => ?_, fun j t hj hend hstop => ?_,
    fun j t hj hrep => ?_, h.removed, fun att ha => ?_, fun j t hj hcanq => ?_,
    fun slot att hp => hquiet slot att (h.replaying slot att hp),
    fun slot att hp => ⟨hquiet slot att (h.spawning slot att hp).1, (h.spawning slot att hp).2⟩⟩
  · obtain ⟨rfl, _⟩ | ⟨_, hj⟩ := setTask_tasks hj
    · exact h.tasks _ task ht
    · exact h.tasks j t hj
  · obtain ⟨t, htj, htslot⟩ := h.channel slot j hc
    by_cases hji : j = i
    · subst hji
      obtain rfl := Option.some.inj (ht.symm.trans htj)
      exact ⟨task', by simp [Loop.setTask], hslot.trans htslot⟩
    · exact ⟨t, by simp [Loop.setTask, hji, htj], htslot⟩
  · obtain ⟨rfl, rfl⟩ | ⟨_, hj⟩ := setTask_tasks hj
    · rw [hslot]
      refine h.owned _ task ht ?_ (hstopped hstop)
      cases hte : task.ended with
      | false => rfl
      | true => rw [hended hte] at hend; cases hend
    · exact h.owned j t hj hend hstop
  · obtain ⟨rfl, rfl⟩ | ⟨_, hj⟩ := setTask_tasks hj
    · rw [hslot]
      exact (h.replaced _ task ht (hreplaced hrep)).imp_left hended
    · exact h.replaced j t hj hrep
  · refine ⟨(h.fresh att ha).1, ?_⟩
    have hne : att ≠ i := by
      rintro rfl
      rw [(h.fresh _ ha).2] at ht
      cases ht
    simp only [Loop.setTask, Function.update_of_ne hne]
    exact (h.fresh att ha).2
  · obtain ⟨rfl, rfl⟩ | ⟨_, hj⟩ := setTask_tasks hj
    · rw [hslot]
      exact h.heads _ task ht (hcan hcanq)
    · exact h.heads j t hj hcanq

/-- Closing a channel, or replacing it: the task of the channel is aborted. -/
theorem LoopInv.remove (h : LoopInv s) (hread : s.phase = .reading) {slot i : ℕ} {task : Task}
    (hc : s.channels slot = some i) (ht : s.tasks i = some task) {stopper : Stopper} {phase : Phase}
    (hp : (stopper = .close ∧ phase = .reading) ∨
      (stopper = .replaced ∧ phase = .awaiting slot i)) :
    LoopInv { s.setTask i { task with stopped := some stopper } with
      phase := phase, channels := Function.update s.channels slot none } := by
  have htslot : task.slot = slot := by
    obtain ⟨t, htj, hslot⟩ := h.channel slot i hc
    obtain rfl := Option.some.inj (ht.symm.trans htj)
    exact hslot
  have hcan : ∀ j t, (s.setTask i { task with stopped := some stopper }).tasks j = some t →
      t.CanQueue → ∃ t', s.tasks j = some t' ∧ t'.slot = t.slot ∧ t'.CanQueue := by
    intro j t hj hcanq
    obtain ⟨rfl, rfl⟩ | ⟨_, hj⟩ := setTask_tasks hj
    · obtain ⟨hend, hrun | hstop⟩ := hcanq
      · exact ⟨task, ht, rfl, hend, .inl hrun⟩
      · cases hstop
    · exact ⟨t, hj, rfl, hcanq⟩
  refine ⟨h.fenced, h.numbered, fun j t hj => ?_, fun slot' j hc' => ?_,
    fun j t hj hend hstop => ?_, fun j t hj hrep => ?_, fun slot' hs => ?_, fun att ha => ?_,
    fun j t hj hcanq => ?_, fun slot' att hs => ?_, fun slot' att hs => ?_⟩
  · obtain ⟨rfl, _⟩ | ⟨_, hj⟩ := setTask_tasks hj
    · exact h.tasks _ task ht
    · exact h.tasks j t hj
  · have hne : slot' ≠ slot := by
      rintro rfl
      simp at hc'
    simp only [Function.update_of_ne hne] at hc'
    obtain ⟨t, htj, hslot⟩ := h.channel slot' j hc'
    have hji : j ≠ i := by
      rintro rfl
      obtain rfl := Option.some.inj (ht.symm.trans htj)
      exact hne (hslot.symm.trans htslot)
    exact ⟨t, by simp [Loop.setTask, hji, htj], hslot⟩
  · obtain ⟨rfl, rfl⟩ | ⟨hji, hj⟩ := setTask_tasks hj
    · cases hstop
    · have hown := h.owned j t hj hend hstop
      have hne : t.slot ≠ slot := by
        intro heq
        rw [heq, hc] at hown
        exact hji (Option.some.inj hown).symm
      change Function.update s.channels slot none t.slot = some j
      rw [Function.update_of_ne hne]
      exact hown
  · obtain ⟨rfl, rfl⟩ | ⟨_, hj⟩ := setTask_tasks hj
    · obtain ⟨rfl, _⟩ | ⟨_, rfl⟩ := hp
      · cases hrep
      · exact .inr (by rw [← htslot])
    · obtain hend | hawait := h.replaced j t hj hrep
      · exact .inl hend
      · rw [hread] at hawait
        cases hawait
  · obtain ⟨_, rfl⟩ | ⟨_, rfl⟩ := hp
    · cases hs
    · obtain rfl := Option.some.inj hs
      exact Function.update_self ..
  · obtain ⟨_, rfl⟩ | ⟨_, rfl⟩ := hp <;> cases ha
  · obtain ⟨t', hj', hslot, hcanq'⟩ := hcan j t hj hcanq
    rw [← hslot]
    exact h.heads j t' hj' hcanq'
  · obtain ⟨_, rfl⟩ | ⟨_, rfl⟩ := hp <;> cases hs
  · obtain ⟨_, rfl⟩ | ⟨_, rfl⟩ := hp <;> cases hs

/-- A frame is queued, and nothing else happens to the tasks and channels. -/
theorem LoopInv.enqueue (h : LoopInv s) {e : Entry} {phase : Phase} (hf : Follows s.queue e)
    (he : e.att < s.next)
    (hheads : ∀ i task, s.tasks i = some task → task.CanQueue →
      Heads (s.queue ++ [e]) task.slot i)
    (hreplaced : ∀ i task, s.tasks i = some task → task.stopped = some .replaced →
      task.ended = true ∨ phase = .awaiting task.slot i)
    (hremoved : ∀ slot, phase.slot = some slot → s.channels slot = none)
    (hfresh : ∀ att, phase.att = some att → att + 1 = s.next ∧ s.tasks att = none)
    (hreplaying : ∀ slot att, phase = .replaying slot att →
      Announced { s with queue := s.queue ++ [e] } slot att)
    (hspawning : ∀ slot att, phase = .spawning slot att →
      Announced { s with queue := s.queue ++ [e] } slot att ∧
        ∃ b ∈ sinceFence (s.queue ++ [e]) slot, b.binary = true) :
    LoopInv { s with phase := phase, queue := s.queue ++ [e] } := by
  refine ⟨h.fenced.snoc hf, fun e' hmem => ?_, h.tasks, h.channel, h.owned, hreplaced, hremoved,
    hfresh, hheads, fun slot att hs => ?_, fun slot att hs => ?_⟩
  · obtain hmem | hmem := List.mem_append.mp hmem
    · exact h.numbered e' hmem
    · obtain rfl := List.mem_singleton.mp hmem
      exact he
  · exact ⟨(hreplaying slot att hs).last, (hreplaying slot att hs).quiet⟩
  · exact ⟨⟨(hspawning slot att hs).1.last, (hspawning slot att hs).1.quiet⟩,
      (hspawning slot att hs).2⟩

/-- In the phases before the hello only the old task, the slot and the number are known. -/
theorem LoopInv.setPhase (h : LoopInv s) {phase : Phase} {next : ℕ} (hnext : s.next ≤ next)
    (hreplaced : ∀ i task, s.tasks i = some task → task.stopped = some .replaced →
      task.ended = true ∨ phase = .awaiting task.slot i)
    (hremoved : ∀ slot, phase.slot = some slot → s.channels slot = none)
    (hfresh : ∀ att, phase.att = some att → att + 1 = next ∧ s.tasks att = none)
    (hreplaying : ∀ slot att, phase ≠ .replaying slot att)
    (hspawning : ∀ slot att, phase ≠ .spawning slot att) :
    LoopInv { s with phase := phase, next := next } :=
  ⟨h.fenced, fun e he => (h.numbered e he).trans_le hnext,
    fun i task ht => (h.tasks i task ht).trans_le hnext, h.channel, h.owned, hreplaced, hremoved,
    hfresh, h.heads, fun slot att hs => absurd hs (hreplaying slot att),
    fun slot att hs => absurd hs (hspawning slot att)⟩

/-- Outside of a wait, a task that was replaced has ended. -/
theorem LoopInv.ended_of_replaced (h : LoopInv s) (hawait : ∀ slot i, s.phase ≠ .awaiting slot i)
    {i : ℕ} {task : Task} (ht : s.tasks i = some task) (hstop : task.stopped = some .replaced) :
    task.ended = true :=
  (h.replaced i task ht hstop).resolve_right (hawait _ _)

attribute [local simp] loopStep

theorem LoopInv.readOpen (h : LoopInv s) {slot : ℕ}
    (hstep : loopStep s (.readOpen slot) = some s') : LoopInv s' := by
  simp only [loopStep, Option.ite_none_right_eq_some] at hstep
  obtain ⟨hread, hmatch⟩ := hstep
  cases hc : s.channels slot with
  | none =>
    simp only [hc, Option.some.injEq] at hmatch
    subst hmatch
    refine h.setPhase le_rfl (fun i task ht hstop => ?_) (fun slot' hs => ?_) nofun nofun nofun
    · exact .inl (h.ended_of_replaced (by rw [hread]; exact nofun) ht hstop)
    · obtain rfl := Option.some.inj hs
      exact hc
  | some i =>
    obtain ⟨task, ht, _⟩ := h.channel slot i hc
    simp only [hc, Option.some.injEq, Loop.removeChannel, ht] at hmatch
    subst hmatch
    exact h.remove hread hc ht (.inr ⟨rfl, rfl⟩)

theorem LoopInv.readClose (h : LoopInv s) {slot : ℕ}
    (hstep : loopStep s (.readClose slot) = some s') : LoopInv s' := by
  simp only [loopStep, Option.ite_none_right_eq_some, Option.some.injEq] at hstep
  obtain ⟨hread, rfl⟩ := hstep
  cases hc : s.channels slot with
  | none =>
    simp only [Loop.removeChannel, hc]
    exact h
  | some i =>
    obtain ⟨task, ht, _⟩ := h.channel slot i hc
    have hremove := h.remove hread hc ht (.inl ⟨rfl, rfl⟩)
    simp only [Loop.removeChannel, hc, ht]
    rw [← hread] at hremove
    exact hremove

theorem LoopInv.awaited (h : LoopInv s) (hstep : loopStep s .awaited = some s') : LoopInv s' := by
  cases hphase : s.phase with
  | awaiting slot i =>
    simp only [loopStep, hphase] at hstep
    obtain ⟨task, ht, hif⟩ := Option.bind_eq_some_iff.mp hstep
    simp only [Option.ite_none_right_eq_some, Option.some.injEq] at hif
    obtain ⟨hended, rfl⟩ := hif
    refine h.setPhase le_rfl (fun j t hj hstop => .inl ?_) (fun slot' hs => ?_) nofun nofun nofun
    · obtain hend | hawait := h.replaced j t hj hstop
      · exact hend
      · rw [hphase] at hawait
        obtain ⟨_, rfl⟩ := Phase.awaiting.inj hawait
        obtain rfl := Option.some.inj (ht.symm.trans hj)
        exact hended
    · obtain rfl := Option.some.inj hs
      exact h.removed slot (by rw [hphase]; rfl)
  | _ => simp [hphase] at hstep

theorem LoopInv.attach (h : LoopInv s) {ok : Bool} (hstep : loopStep s (.attach ok) = some s') :
    LoopInv s' := by
  cases hphase : s.phase with
  | attaching slot =>
    simp only [loopStep, hphase, Option.some.injEq] at hstep
    subst hstep
    have hremoved := h.removed slot (by rw [hphase]; rfl)
    have hfresh : s.tasks s.next = none := by
      cases ht : s.tasks s.next with
      | none => rfl
      | some task => exact absurd (h.tasks _ task ht) (lt_irrefl _)
    have hended : ∀ i task, s.tasks i = some task → task.stopped = some .replaced →
        task.ended = true := fun i task ht hstop =>
      h.ended_of_replaced (by rw [hphase]; exact nofun) ht hstop
    cases ok with
    | true =>
      refine h.setPhase (Nat.le_succ _) (fun i task ht hstop => .inl (hended i task ht hstop))
        (fun slot' hs => ?_) (fun att ha => ?_) nofun nofun
      · obtain rfl := Option.some.inj hs
        exact hremoved
      · obtain rfl := Option.some.inj ha
        exact ⟨rfl, hfresh⟩
    | false =>
      refine h.setPhase (Nat.le_succ _) (fun i task ht hstop => .inl (hended i task ht hstop))
        (fun slot' hs => ?_) (fun att ha => ?_) nofun nofun
      · obtain rfl := Option.some.inj hs
        exact hremoved
      · obtain rfl := Option.some.inj ha
        exact ⟨rfl, hfresh⟩
  | _ => simp [hphase] at hstep

/-- Every attachment named in the queue is at most the one being announced. -/
theorem LoopInv.le_att (h : LoopInv s) {att : ℕ} (ha : s.phase.att = some att) {e : Entry}
    (he : e ∈ s.queue) : e.att ≤ att := by
  have := h.numbered e he
  have := (h.fresh att ha).1
  omega

theorem LoopInv.queueHello (h : LoopInv s) (hok : ¬ Straggler s .queueHello)
    (hstep : loopStep s .queueHello = some s') : LoopInv s' := by
  cases hphase : s.phase with
  | greeting slot att =>
    simp only [loopStep, hphase, Option.some.injEq] at hstep
    subst hstep
    have hatt : s.phase.att = some att := by rw [hphase]; rfl
    have hremoved := h.removed slot (by rw [hphase]; rfl)
    -- the channel is gone, the task that was replaced has ended, and no other one is running
    have hquiet : ∀ i task, s.tasks i = some task → task.CanQueue → task.slot ≠ slot := by
      rintro i task ht ⟨hend, hcan⟩ rfl
      cases hstop : task.stopped with
      | none =>
        have hown := h.owned i task ht hend hstop
        rw [hremoved] at hown
        cases hown
      | some stopper =>
        cases stopper with
        | replaced =>
          have hended := h.ended_of_replaced (by rw [hphase]; exact nofun) ht hstop
          rw [hend] at hended
          cases hended
        | close =>
          have hrun := hcan.resolve_right (by rw [hstop]; exact nofun)
          exact hok ⟨rfl, task.slot, att, i, task, hphase, ht, rfl, hstop, hrun, hend⟩
    refine h.enqueue ⟨fun hello hmem _ _ => h.le_att hatt hmem, nofun⟩ ?_
      (fun i task ht hcan => (h.heads i task ht hcan).snoc fun heq =>
        absurd heq.symm (hquiet i task ht hcan)) ?_ ?_ ?_ ?_ nofun
    · exact Nat.lt_of_succ_le (h.fresh att hatt).1.le
    · exact fun i task ht hstop =>
        .inl (h.ended_of_replaced (by rw [hphase]; exact nofun) ht hstop)
    · intro slot' hs
      obtain rfl := Option.some.inj hs
      exact hremoved
    · intro att' ha
      obtain rfl := Option.some.inj ha
      exact h.fresh att hatt
    · intro slot' att' hs
      obtain ⟨rfl, rfl⟩ := Phase.replaying.inj hs
      exact ⟨lastFence_snoc_fence rfl rfl, hquiet⟩
  | _ => simp [hphase] at hstep

theorem LoopInv.queueReplay (h : LoopInv s) (hstep : loopStep s .queueReplay = some s') :
    LoopInv s' := by
  cases hphase : s.phase with
  | replaying slot att =>
    simp only [loopStep, hphase, Option.some.injEq] at hstep
    subst hstep
    have hatt : s.phase.att = some att := by rw [hphase]; rfl
    have hann := h.replaying slot att hphase
    refine h.enqueue ⟨fun hello hmem _ _ => h.le_att hatt hmem, fun _ hello hlast _ => ?_⟩ ?_
      (fun i task ht hcan => (h.heads i task ht hcan).snoc fun _ => nofun) ?_ ?_ ?_ nofun ?_
    · rw [hann.last] at hlast
      obtain rfl := Option.some.inj hlast
      exact ⟨rfl, fun _ => rfl⟩
    · exact Nat.lt_of_succ_le (h.fresh att hatt).1.le
    · exact fun i task ht hstop =>
        .inl (h.ended_of_replaced (by rw [hphase]; exact nofun) ht hstop)
    · intro slot' hs
      obtain rfl := Option.some.inj hs
      exact h.removed slot (by rw [hphase]; rfl)
    · intro att' ha
      obtain rfl := Option.some.inj ha
      exact h.fresh att hatt
    · intro slot' att' hs
      obtain ⟨rfl, rfl⟩ := Phase.spawning.inj hs
      refine ⟨⟨?_, hann.quiet⟩, ?_⟩
      · exact (lastFence_snoc_of_not_fence rfl rfl).trans hann.last
      · rw [sinceFence_snoc_of_not_fence rfl rfl]
        exact ⟨_, List.mem_cons_self, rfl⟩
  | _ => simp [hphase] at hstep

theorem LoopInv.queueRefusal (h : LoopInv s) (hstep : loopStep s .queueRefusal = some s') :
    LoopInv s' := by
  cases hphase : s.phase with
  | refusing slot att =>
    simp only [loopStep, hphase, Option.some.injEq] at hstep
    subst hstep
    have hatt : s.phase.att = some att := by rw [hphase]; rfl
    refine h.enqueue ⟨fun hello hmem _ _ => h.le_att hatt hmem, nofun⟩ ?_
      (fun i task ht hcan => (h.heads i task ht hcan).snoc fun _ => nofun) ?_
      nofun nofun nofun nofun
    · exact Nat.lt_of_succ_le (h.fresh att hatt).1.le
    · exact fun i task ht hstop =>
        .inl (h.ended_of_replaced (by rw [hphase]; exact nofun) ht hstop)
  | _ => simp [hphase] at hstep

theorem LoopInv.spawnForward (h : LoopInv s) (hstep : loopStep s .spawnForward = some s') :
    LoopInv s' := by
  cases hphase : s.phase with
  | spawning slot att =>
    simp only [loopStep, hphase, Option.some.injEq] at hstep
    subst hstep
    have hatt : s.phase.att = some att := by rw [hphase]; rfl
    obtain ⟨hnext, hnone⟩ := h.fresh att hatt
    obtain ⟨hann, hreplay⟩ := h.spawning slot att hphase
    have hremoved := h.removed slot (by rw [hphase]; rfl)
    refine ⟨h.fenced, h.numbered, fun j t hj => ?_, fun slot' j hc => ?_,
      fun j t hj hend hstop => ?_, fun j t hj hrep => ?_, nofun, nofun, fun j t hj hcan => ?_,
      nofun, nofun⟩
    · obtain ⟨rfl, _⟩ | ⟨_, hj⟩ := setTask_tasks hj
      · exact Nat.lt_of_succ_le hnext.le
      · exact h.tasks j t hj
    · by_cases hs : slot' = slot
      · subst hs
        obtain rfl : att = j := by simpa using hc
        exact ⟨_, Function.update_self .., rfl⟩
      · simp only [Function.update_of_ne hs] at hc
        obtain ⟨t, ht, htslot⟩ := h.channel slot' j hc
        have hji : j ≠ att := by
          rintro rfl
          rw [hnone] at ht
          cases ht
        exact ⟨t, by simp [Loop.setTask, hji, ht], htslot⟩
    · change Function.update s.channels slot (some att) t.slot = some j
      obtain ⟨rfl, rfl⟩ | ⟨_, hj⟩ := setTask_tasks hj
      · exact Function.update_self ..
      · have hown := h.owned j t hj hend hstop
        have hne : t.slot ≠ slot := by
          intro heq
          rw [heq, hremoved] at hown
          cases hown
        rw [Function.update_of_ne hne]
        exact hown
    · obtain ⟨_, rfl⟩ | ⟨_, hj⟩ := setTask_tasks hj
      · cases hrep
      · exact .inl (h.ended_of_replaced (by rw [hphase]; exact nofun) hj hrep)
    · obtain ⟨rfl, rfl⟩ | ⟨_, hj⟩ := setTask_tasks hj
      · refine ⟨fun hello hmem _ _ => h.le_att hatt hmem, fun hello hlast _ => ?_⟩
        obtain rfl := Option.some.inj (hann.last.symm.trans hlast)
        exact ⟨rfl, hreplay⟩
      · exact h.heads j t hj hcan
  | _ => simp [hphase] at hstep

/-- A frame of a task that may still queue some. -/
theorem LoopInv.follows (h : LoopInv s) {i : ℕ} {task : Task} (ht : s.tasks i = some task)
    (hcan : task.CanQueue) (kind : Kind) :
    Follows s.queue ⟨task.slot, i, kind⟩ := by
  have hheads := h.heads i task ht hcan
  refine ⟨hheads.hellos, fun hbin hello hlast hk => ?_⟩
  obtain ⟨heq, b, hb, hbbin⟩ := hheads.last hello hlast hk
  refine ⟨heq, fun hnone => ?_⟩
  rw [hnone b hb] at hbbin
  cases hbbin

theorem LoopInv.push (h : LoopInv s) {i : ℕ} {kind : Kind}
    (hstep : loopStep s (.push i kind) = some s') : LoopInv s' := by
  obtain ⟨task, ht, hif⟩ := Option.bind_eq_some_iff.mp hstep
  simp only [Option.ite_none_right_eq_some, Option.some.injEq] at hif
  obtain ⟨⟨hrun, hend, hhello, hreplay⟩, rfl⟩ := hif
  have hcan : task.CanQueue := ⟨hend, .inl hrun⟩
  have htask := h.setTask ht { task with ended := kind == .closed } rfl (fun _ => hcan) id
    (fun hno => by rw [hend] at hno; cases hno) id
  -- no announcement is under way for the slot of a task that can queue
  have hother : ∀ slot att, Announced s slot att → task.slot ≠ slot := fun slot att ha =>
    ha.quiet i task ht hcan
  refine htask.enqueue (h.follows ht hcan kind) (h.tasks i task ht)
    (fun j t hj hcanq => (htask.heads j t hj hcanq).snoc fun _ => hhello) htask.replaced
    htask.removed htask.fresh (fun slot att hs => ?_) fun slot att hs => ?_
  · have hann := htask.replaying slot att hs
    have hne := hother slot att (h.replaying slot att hs)
    exact ⟨(lastFence_snoc_of_ne hne).trans hann.last, hann.quiet⟩
  · obtain ⟨hann, hreplayed⟩ := htask.spawning slot att hs
    have hne := hother slot att (h.spawning slot att hs).1
    refine ⟨⟨(lastFence_snoc_of_ne hne).trans hann.last, hann.quiet⟩, ?_⟩
    rw [sinceFence_snoc_of_ne hne]
    exact hreplayed

/-- Every step keeps the invariant, unless it queues a hello behind which a closed task goes on
running. -/
theorem LoopInv.step (h : LoopInv s) {a : Act} (hok : ¬ Straggler s a)
    (hstep : loopStep s a = some s') : LoopInv s' := by
  cases a with
  | readOpen slot => exact h.readOpen hstep
  | readClose slot => exact h.readClose hstep
  | readOther =>
    simp only [loopStep, Option.ite_none_right_eq_some, Option.some.injEq] at hstep
    exact hstep.2 ▸ h
  | awaited => exact h.awaited hstep
  | attach ok => exact h.attach hstep
  | queueHello => exact h.queueHello hok hstep
  | queueReplay => exact h.queueReplay hstep
  | spawnForward => exact h.spawnForward hstep
  | queueRefusal => exact h.queueRefusal hstep
  | resume i =>
    obtain ⟨task, ht, hif⟩ := Option.bind_eq_some_iff.mp hstep
    simp only [Option.ite_none_right_eq_some, Option.some.injEq] at hif
    obtain ⟨⟨_, hstop, hend⟩, rfl⟩ := hif
    exact h.setTask ht _ rfl (fun _ => ⟨hend, .inr hstop⟩) id id id
  | suspend i =>
    obtain ⟨task, ht, hif⟩ := Option.bind_eq_some_iff.mp hstep
    simp only [Option.ite_none_right_eq_some, Option.some.injEq] at hif
    obtain ⟨⟨hrun, hend⟩, rfl⟩ := hif
    exact h.setTask ht _ rfl (fun _ => ⟨hend, .inl hrun⟩) id
      (fun hno => by rw [hend] at hno; cases hno) id
  | cancel i =>
    obtain ⟨task, ht, hif⟩ := Option.bind_eq_some_iff.mp hstep
    simp only [Option.ite_none_right_eq_some, Option.some.injEq] at hif
    obtain ⟨_, rfl⟩ := hif
    exact h.setTask ht _ rfl (fun hcan => by cases hcan.1) id (fun _ => rfl) id
  | push i kind => exact h.push hstep

/-- **A hello fences off the previous attachment** in every run in which no hello is queued while
a task that a close frame for its slot stopped is still running. -/
theorem fenced_of_no_straggler (hs : loopSystem.Reach (fun s a => ¬ Straggler s a) s) :
    Fenced s.queue := by
  have hinv : LoopInv s := by
    refine System.Reach.invariant ?_ ?_ hs
    · intro s hinit
      exact loopInv_init hinit
    · intro s a s' _ hinv hok hstep
      exact hinv.step hok hstep
  exact hinv.fenced

/-! ## The straggler -/

def emptyLoop : Loop :=
  { phase := .reading, channels := fun _ => none, tasks := fun _ => none, next := 0, queue := [] }

/-- An open, and its task taking up output. -/
def openRun : List Act :=
  [.readOpen 3, .attach true, .queueHello, .queueReplay, .spawnForward, .resume 0, .push 0 .output]

/-- A close and an open while the task of the first attachment goes on running. -/
def stragglerRun : List Act :=
  openRun ++ [.readClose 3, .readOpen 3, .attach true, .queueHello, .push 0 .output]

/-- The task of the first attachment stops at the close, and the slot is opened again. -/
def closingRun : List Act :=
  openRun ++ [.suspend 0, .readClose 3, .cancel 0, .readOpen 3, .attach true]

def reopened : Loop := (loopSystem.run emptyLoop closingRun).getD emptyLoop

theorem reach_of_no_hello {s s' : Loop} {as : List Act}
    (h : loopSystem.Reach (fun s a => ¬ Straggler s a) s) (hr : loopSystem.run s as = some s')
    (hno : Act.queueHello ∉ as) : loopSystem.Reach (fun s a => ¬ Straggler s a) s' :=
  h.run (fun _ ha _ hstraggler => hno (hstraggler.1 ▸ ha)) hr

/-- The first hello is queued before there is any task, and the second one when there is none but
the one that has ended. -/
theorem fenced_of_no_straggler_closingRun :
    ∃ s, loopSystem.run emptyLoop (closingRun ++ [.queueHello, .queueReplay, .spawnForward,
        .resume 1, .push 1 .output]) = some s ∧
      s.queue = [⟨3, 0, .hello⟩, ⟨3, 0, .replay⟩, ⟨3, 0, .output⟩, ⟨3, 1, .hello⟩, ⟨3, 1, .replay⟩,
        ⟨3, 1, .output⟩] ∧
      Fenced s.queue := by
  let greeting : Loop := { emptyLoop with phase := .greeting 3 0, next := 1 }
  let greeted : Loop := { greeting with phase := .replaying 3 0, queue := [⟨3, 0, .hello⟩] }
  have hempty : loopSystem.Reach (fun s a => ¬ Straggler s a) emptyLoop := .init rfl
  have hgreeting : loopSystem.Reach (fun s a => ¬ Straggler s a) greeting := by
    have hrun : loopSystem.run emptyLoop [.readOpen 3, .attach true] = some greeting := rfl
    exact reach_of_no_hello hempty hrun (by simp)
  have hgreeted : loopSystem.Reach (fun s a => ¬ Straggler s a) greeted := by
    have hstep : loopSystem.step greeting .queueHello = some greeted := rfl
    refine .step hgreeting ?_ hstep
    rintro ⟨_, _, _, _, _, _, ht, _⟩
    cases ht
  have hreopened : loopSystem.Reach (fun s a => ¬ Straggler s a) reopened := by
    have hrun : loopSystem.run greeted [.queueReplay, .spawnForward, .resume 0, .push 0 .output,
        .suspend 0, .readClose 3, .cancel 0, .readOpen 3, .attach true] = some reopened := rfl
    exact reach_of_no_hello hgreeted hrun (by simp)
  have hended : ∀ i task, reopened.tasks i = some task → task.ended = true := by
    intro i task ht
    cases i with
    | zero =>
      cases ht
      rfl
    | succ i =>
      have hnone : reopened.tasks (i + 1) = none := rfl
      cases hnone.symm.trans ht
  obtain ⟨s₁, hs₁⟩ : ∃ s₁, loopSystem.step reopened .queueHello = some s₁ := ⟨_, rfl⟩
  have hsecond : loopSystem.Reach (fun s a => ¬ Straggler s a) s₁ := by
    refine .step hreopened ?_ hs₁
    rintro ⟨_, _, _, i, task, _, ht, _, _, _, hrunning⟩
    cases (hended i task ht).symm.trans hrunning
  obtain ⟨s, hs, hqueue⟩ : ∃ s, loopSystem.run reopened
      [.queueHello, .queueReplay, .spawnForward, .resume 1, .push 1 .output] = some s ∧
      s.queue = [⟨3, 0, .hello⟩, ⟨3, 0, .replay⟩, ⟨3, 0, .output⟩, ⟨3, 1, .hello⟩, ⟨3, 1, .replay⟩,
        ⟨3, 1, .output⟩] := ⟨_, rfl, rfl⟩
  have hrest := (System.run_cons_of_step hs₁).symm.trans hs
  have hstart : loopSystem.run emptyLoop closingRun = some reopened := rfl
  refine ⟨s, (System.run_append hstart).trans hs, hqueue, ?_⟩
  exact fenced_of_no_straggler (reach_of_no_hello hsecond hrest (by simp))

/-- The frame of the closed attachment follows the hello of the new one. -/
theorem straggler_follows_hello : ¬ ∀ s, loopSystem.Reachable s → Fenced s.queue := by
  intro h
  have hrun : (loopSystem.run emptyLoop stragglerRun).map Loop.queue =
      some [⟨3, 0, .hello⟩, ⟨3, 0, .replay⟩, ⟨3, 0, .output⟩, ⟨3, 1, .hello⟩, ⟨3, 0, .output⟩] := by
    decide
  obtain ⟨s, hs, hqueue⟩ := Option.map_eq_some_iff.mp hrun
  have hfenced := h s (System.Reachable.run (.init rfl) hs)
  rw [hqueue] at hfenced
  have hfollows := hfenced [⟨3, 0, .hello⟩, ⟨3, 0, .replay⟩, ⟨3, 0, .output⟩, ⟨3, 1, .hello⟩]
    ⟨3, 0, .output⟩ [] rfl
  exact absurd (hfollows.not_outdated ⟨3, 1, .hello⟩ (by decide) rfl rfl) (by decide)

end Webshell.Fence
