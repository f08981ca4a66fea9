import Webshell.Lib.Transition
import Webshell.Pty.Client
import Webshell.Terminals.Shutdown

/-!
# The last output of a shell

A shell that exits on its own, and the tasks that forward its output: those of mux channels, whose
`select!` takes any arm that is ready, and the bridges of share viewers, whose arms are tried in
the order of the source. Output and shutdown reach a task through two channels, so both may be
ready at once. A shell that is reset while it runs is not in here; from its exit on, anything may
stop it once more.

## Main definitions

- `Task`: a task with its receivers and its frames
- `endStep`, `endSystem`: the steps of the reader thread and of the tasks
- `Delivered`: all output has been sent before the frame that reports the exit

## Main results

- `delivered_iff_drained`: this holds as long as nobody takes the shutdown arm with output left
- `last_words_lost`: otherwise it does not, on either kind of connection
-/

namespace Webshell.LastWords

open Transition
open Shutdown (Exit)

/-- A task from its attach on. Closing a viewer's socket counts as a frame. -/
structure Task where
  /-- The bridge of a share viewer. -/
  viewer : Bool
  /-- The chunks that the replay covers. -/
  cut : ℕ
  rx : ℕ
  /-- `shutdown_rx` has been subscribed. -/
  attached : Bool
  /-- The frames it has yet to send, and whether it ends then. -/
  hand : List Frame
  last : Bool
  sent : List Frame

structure Ending (P : Type) where
  shell : Shell P
  exit : Exit
  shutdown : Watch.Channel ℕ Bool
  /-- No sender of the channels is left. -/
  abandoned : Bool
  tasks : ℕ → Option Task

inductive Act
  | output (chunk : List UInt8)
  | resize (cols rows : ℕ)
  | markDead
  | sendShutdown
  /-- `Terminal::stop` of a dead shell, by an attach that replaces it or by a reset. -/
  | stop
  | abandon
  /-- The critical section of an attach. -/
  | cut (i : ℕ) (viewer : Bool)
  /-- The end of the attach. -/
  | subscribe (i : ℕ)
  | receive (i : ℕ)
  | redraw (i : ℕ)
  /-- The `shutdown_rx.changed()` arm. -/
  | observe (i : ℕ)
  | send (i : ℕ)
  /-- The task is aborted, its client is gone or its lease has ended. -/
  | leave (i : ℕ)

namespace Task

/-- The task is about to select its next arm. -/
def selecting (t : Task) : Bool := t.attached && t.hand.isEmpty && !t.last

/-- Everything sent, or about to be. -/
def frames (t : Task) : List Frame := t.sent ++ t.hand

end Task

namespace Ending

variable {P : Type}

def setTask (s : Ending P) (i : ℕ) (t : Option Task) : Ending P :=
  { s with tasks := Function.update s.tasks i t }

/-- `shutdown_rx.changed()` is ready. -/
def told (s : Ending P) (i : ℕ) : Bool := s.shutdown.changed i || s.abandoned

end Ending

section
variable {P : Type} [Vt100 P]

def endStep (s : Ending P) : Act → Option (Ending P)
  | .output chunk =>
    if s.exit = .running ∧ chunk ≠ [] then some { s with shell := s.shell.readChunk chunk }
    else none
  | .resize cols rows =>
    some { s with shell.scrollback := s.shell.scrollback.resize cols rows }
  | .markDead =>
    if s.exit = .running then some { s with shell.alive := false, exit := .marked } else none
  | .sendShutdown =>
    if s.exit = .marked then some { s with shutdown := s.shutdown.send true, exit := .sent }
    else none
  | .stop =>
    if s.exit = .running then none else some { s with shutdown := s.shutdown.send true }
  | .abandon => if s.exit = .sent then some { s with abandoned := true } else none
  | .cut i viewer =>
    match s.tasks i with
    | none =>
      let rx := s.shell.output.subscribe
      some (s.setTask i (some ⟨viewer, rx, rx, false, [], false, []⟩))
    | some _ => none
  | .subscribe i => do
    let t ← s.tasks i
    if t.attached then none
    else some ({ s with shutdown := s.shutdown.subscribe i }.setTask i
      (some { t with attached := true }))
  | .receive i => do
    let t ← s.tasks i
    -- in a viewer's bridge the shutdown arm comes first
    if t.selecting = false ∨ (t.viewer = true ∧ s.told i = true) then none
    else
      match s.shell.output.tryRecv t.rx with
      | (.value bytes, rx) => some (s.setTask i (some { t with rx := rx, hand := [.data bytes] }))
      | (.lagged, rx) =>
        some (s.setTask i (some { t with rx := rx, hand := [.closed .error], last := true }))
      | (.empty, _) => none
  | .redraw i => do
    let t ← s.tasks i
    if t.selecting then
      let (r, shell, rx) := s.shell.redraw t.rx
      let hand := r.pending.map Frame.data ++ [if r.lagged then .closed .error else r.frame]
      some ({ s with shell := shell }.setTask i
        (some { t with rx := rx, hand := hand, last := r.lagged }))
    else none
  | .observe i => do
    let t ← s.tasks i
    if t.selecting = true ∧ s.told i = true then
      let s := { s with shutdown := s.shutdown.markSeen i }
      if s.shutdown.value then
        some (s.setTask i (some { t with hand := [.closed .exit], last := true }))
      else some s
    else none
  | .send i => do
    let t ← s.tasks i
    match t.hand with
    | f :: hand => some (s.setTask i (some { t with hand := hand, sent := t.sent ++ [f] }))
    | [] => none
  | .leave i =>
    some ({ s with shutdown := s.shutdown.unsubscribe i }.setTask i none)

variable (P) in
/-- A shell from its spawn on. -/
def endSystem : System (Ending P) Act where
  init s := ∃ scrollbackCap cols rows,
    s = ⟨Shell.spawn scrollbackCap cols rows, .running, .new false, false, fun _ => none⟩
  step := endStep

end

/-! ## What is to be delivered -/

section
variable {P : Type}

/-- The receiver has been overrun. -/
def Overrun (s : Ending P) (t : Task) : Prop :=
  s.shell.output.capacity < s.shell.output.sent.length - t.rx

/-- All output since the attach is sent before the frame that reports the exit, on mux channels or
to share viewers, unless the receiver has been overrun. -/
def Delivered (viewer : Bool) (s : Ending P) : Prop :=
  ∀ i t, s.tasks i = some t → t.viewer = viewer → ¬ Overrun s t →
    ∀ frames rest, t.frames = frames ++ .closed .exit :: rest →
      dataBytes frames = (s.shell.output.sent.drop t.cut).flatten

/-- The shutdown arm of a task is not taken while its receiver has output left. -/
def Drained (s : Ending P) : Act → Prop
  | .observe i => ∀ t, s.tasks i = some t → s.shutdown.value = true → ¬ Overrun s t →
    t.rx = s.shell.output.sent.length
  | _ => True

/-! ## The invariant -/

/-- What the task has received is on its way. -/
structure Going (s : Ending P) (t : Task) : Prop where
  cut_le : t.cut ≤ t.rx
  rx_le : t.rx ≤ s.shell.output.sent.length
  data : dataBytes t.frames = ((s.shell.output.sent.take t.rx).drop t.cut).flatten
  unclosed : Frame.closed .exit ∉ t.frames

/-- The task ends with a closed frame. -/
def Closing (s : Ending P) (t : Task) : Prop :=
  ∃ frames reason, t.frames = frames ++ [.closed reason] ∧ Frame.closed .exit ∉ frames ∧
    (reason = .exit → s.exit ≠ .running ∧
      (¬ Overrun s t → dataBytes frames = (s.shell.output.sent.drop t.cut).flatten))

def TaskOk (s : Ending P) (t : Task) : Prop := if t.last then Closing s t else Going s t

/-- What the runs keep whose shutdown arms are all taken with nothing left. -/
structure EndInv (s : Ending P) : Prop where
  signalled : s.shutdown.value = true → s.exit ≠ .running
  chunks : ∀ chunk ∈ s.shell.output.sent, chunk ≠ []
  tasks : ∀ i t, s.tasks i = some t → TaskOk s t

variable {s s' : Ending P} {t t' : Task} {i : ℕ}

/-- What may become of the output: more of it while the shell runs. -/
structure Grows (s s' : Ending P) : Prop where
  exit : s.exit ≠ .running → s'.exit ≠ .running
  capacity : s'.shell.output.capacity = s.shell.output.capacity
  sent : s'.shell.output.sent = s.shell.output.sent ∨
    (s.exit = .running ∧ ∃ chunk, s'.shell.output.sent = s.shell.output.sent ++ [chunk])

theorem Going.mono (h : Going s t) (hg : Grows s s') : Going s' t := by
  obtain heq | ⟨_, chunk, heq⟩ := hg.sent
  · exact ⟨h.cut_le, heq ▸ h.rx_le, heq ▸ h.data, h.unclosed⟩
  · refine ⟨h.cut_le, ?_, ?_, h.unclosed⟩
    · rw [heq, List.length_append]
      exact h.rx_le.trans (Nat.le_add_right _ _)
    · rw [heq, List.take_append_of_le_length h.rx_le]
      exact h.data

theorem Closing.mono (h : Closing s t) (hg : Grows s s') : Closing s' t := by
  obtain ⟨frames, reason, hframes, hunclosed, hexit⟩ := h
  refine ⟨frames, reason, hframes, hunclosed, fun hreason => ?_⟩
  obtain ⟨hdead, hdata⟩ := hexit hreason
  have hsent := hg.sent.resolve_right fun hmore => hdead hmore.1
  refine ⟨hg.exit hdead, fun hover => ?_⟩
  rw [hsent]
  refine hdata fun hover' => hover ?_
  rw [Overrun, hsent, hg.capacity]
  exact hover'

theorem TaskOk.mono (h : TaskOk s t) (hg : Grows s s') : TaskOk s' t := by
  rw [TaskOk] at h ⊢
  split
  next hlast =>
    rw [if_pos hlast] at h
    exact Closing.mono h hg
  next hlast =>
    rw [if_neg hlast] at h
    exact Going.mono h hg

/-- A step that moves no task. -/
theorem EndInv.grow (h : EndInv s) (hg : Grows s s') (htasks : s'.tasks = s.tasks)
    (hsignalled : s'.shutdown.value = true → s'.exit ≠ .running)
    (hchunks : ∀ chunk ∈ s'.shell.output.sent, chunk ≠ []) : EndInv s' := by
  refine ⟨hsignalled, hchunks, fun i t ht => ?_⟩
  rw [htasks] at ht
  exact (h.tasks i t ht).mono hg

/-- A step that moves one task. -/
theorem EndInv.setTask (h : EndInv s) {task : Option Task}
    (hown : ∀ t, task = some t → TaskOk s t) : EndInv (s.setTask i task) := by
  have hg : Grows s (s.setTask i task) := ⟨id, rfl, .inl rfl⟩
  refine ⟨h.signalled, h.chunks, fun j t ht => ?_⟩
  by_cases hj : j = i
  · subst hj
    rw [show (s.setTask j task).tasks j = task from Function.update_self ..] at ht
    exact (hown t ht).mono hg
  · rw [show (s.setTask i task).tasks j = s.tasks j from Function.update_of_ne hj ..] at ht
    exact (h.tasks j t ht).mono hg

theorem taskOk_of_going (hlast : t.last = false) (h : Going s t) : TaskOk s t := by
  rw [TaskOk, hlast]
  exact h

theorem going_of_selecting (h : TaskOk s t) (hsel : t.selecting = true) :
    Going s t ∧ t.hand = [] ∧ t.last = false := by
  simp only [Task.selecting, Bool.and_eq_true, Bool.not_eq_true', List.isEmpty_iff] at hsel
  obtain ⟨⟨_, hhand⟩, hlast⟩ := hsel
  rw [TaskOk, hlast] at h
  exact ⟨h, hhand, hlast⟩

theorem TaskOk.attach (h : TaskOk s t) : TaskOk s { t with attached := true } := by
  rw [TaskOk] at h ⊢
  split
  next hlast =>
    rw [if_pos hlast] at h
    exact h
  next hlast =>
    rw [if_neg hlast] at h
    exact ⟨h.cut_le, h.rx_le, h.data, h.unclosed⟩

/-- Sending the next frame in hand changes nothing on the whole. -/
theorem TaskOk.send (h : TaskOk s t) {f : Frame} {hand : List Frame} (hhand : t.hand = f :: hand) :
    TaskOk s { t with hand := hand, sent := t.sent ++ [f] } := by
  have hframes : ({ t with hand := hand, sent := t.sent ++ [f] } : Task).frames = t.frames := by
    rw [Task.frames, Task.frames, hhand, List.append_assoc]
    rfl
  rw [TaskOk] at h ⊢
  split
  next hlast =>
    rw [if_pos hlast] at h
    obtain ⟨frames, reason, heq, hrest⟩ := h
    exact ⟨frames, reason, hframes.trans heq, hrest⟩
  next hlast =>
    rw [if_neg hlast] at h
    exact ⟨h.cut_le, h.rx_le, by rw [hframes]; exact h.data, by rw [hframes]; exact h.unclosed⟩

/-- The task takes data in hand, up to another place in the stream. -/
theorem Going.take (h : Going s t) (hhand : t.hand = []) {rx : ℕ} (hrx : t.rx ≤ rx)
    (hle : rx ≤ s.shell.output.sent.length) {hand : List Frame}
    (hdata : dataBytes hand = ((s.shell.output.sent.take rx).drop t.rx).flatten)
    (hunclosed : Frame.closed .exit ∉ hand) : Going s { t with rx := rx, hand := hand } := by
  have hframes : t.frames = t.sent := by rw [Task.frames, hhand, List.append_nil]
  refine ⟨h.cut_le.trans hrx, hle, ?_, ?_⟩
  · have hbefore := h.data
    rw [hframes] at hbefore
    rw [show ({ t with rx := rx, hand := hand } : Task).frames = t.sent ++ hand from rfl,
      dataBytes_append, hbefore, hdata, ← List.flatten_append]
    congr 1
    have hcut : t.cut ≤ (s.shell.output.sent.take t.rx).length := by
      rw [List.length_take, min_eq_left h.rx_le]
      exact h.cut_le
    conv_rhs => rw [s.shell.output.take_eq hrx, List.drop_append_of_le_length hcut]
  · have hbefore := h.unclosed
    rw [hframes] at hbefore
    intro hmem
    exact (List.mem_append.mp hmem).elim hbefore hunclosed

/-- The channel is closed on a lag. -/
theorem Going.lag (h : Going s t) (hhand : t.hand = []) (rx : ℕ) :
    TaskOk s { t with rx := rx, hand := [.closed .error], last := true } := by
  have hunclosed := h.unclosed
  rw [Task.frames, hhand, List.append_nil] at hunclosed
  exact ⟨t.sent, .error, rfl, hunclosed, nofun⟩

/-- The channel goes on with everything before the snapshot, or is closed on a lag. -/
theorem Going.redraw (h : Going s t) (hhand : t.hand = []) {r : Redraw} {rx : ℕ}
    (hr : (r.lagged = true ∧ r.pending = []) ∨
      (r.lagged = false ∧ r.pending = s.shell.output.sent.drop t.rx ∧
        rx = s.shell.output.sent.length)) :
    TaskOk s { t with
      rx := rx
      hand := r.pending.map Frame.data ++ [if r.lagged then .closed .error else r.frame]
      last := r.lagged } := by
  obtain ⟨hlagged, hpending⟩ | ⟨hlagged, hpending, rfl⟩ := hr
  · rw [hpending, hlagged]
    exact h.lag hhand rx
  · rw [hpending, hlagged]
    refine taskOk_of_going rfl ?_
    have hdata : dataBytes ((s.shell.output.sent.drop t.rx).map Frame.data ++ [r.frame]) =
        ((s.shell.output.sent.take s.shell.output.sent.length).drop t.rx).flatten := by
      rw [dataBytes_append, dataBytes_data, List.take_length]
      exact List.append_nil _
    have hunclosed : Frame.closed .exit ∉
        (s.shell.output.sent.drop t.rx).map Frame.data ++ [r.frame] := by
      intro hmem
      obtain hmem | hmem := List.mem_append.mp hmem
      · obtain ⟨_, _, heq⟩ := List.mem_map.mp hmem
        cases heq
      · cases List.mem_singleton.mp hmem
    have htaken := h.take hhand h.rx_le le_rfl hdata hunclosed
    exact ⟨htaken.cut_le, htaken.rx_le, htaken.data, htaken.unclosed⟩

/-- The shutdown arm, with nothing left in the receiver. -/
theorem Going.observe (h : Going s t) (hhand : t.hand = []) (hexit : s.exit ≠ .running)
    (hrx : ¬ Overrun s t → t.rx = s.shell.output.sent.length) :
    TaskOk s { t with hand := [.closed .exit], last := true } := by
  have hdata := h.data
  have hunclosed := h.unclosed
  rw [Task.frames, hhand, List.append_nil] at hdata hunclosed
  refine ⟨t.sent, .exit, rfl, hunclosed, fun _ => ⟨hexit, fun hover => ?_⟩⟩
  rw [hdata, hrx hover, List.take_length]

variable [Vt100 P]

theorem EndInv.step {a : Act} (h : EndInv s) (ha : Drained s a) (hs : endStep s a = some s') :
    EndInv s' := by
  cases a with
  | output chunk =>
    simp only [endStep, Option.ite_none_right_eq_some, Option.some.injEq] at hs
    obtain ⟨⟨hexit, hchunk⟩, rfl⟩ := hs
    refine h.grow ⟨id, rfl, .inr ⟨hexit, chunk, rfl⟩⟩ rfl h.signalled fun c hc => ?_
    obtain hc | hc := List.mem_append.mp hc
    · exact h.chunks c hc
    · rw [List.mem_singleton.mp hc]
      exact hchunk
  | resize cols rows =>
    obtain rfl := Option.some.inj hs
    exact h.grow ⟨id, rfl, .inl rfl⟩ rfl h.signalled h.chunks
  | markDead =>
    simp only [endStep, Option.ite_none_right_eq_some, Option.some.injEq] at hs
    obtain ⟨hexit, rfl⟩ := hs
    exact h.grow ⟨fun _ => nofun, rfl, .inl rfl⟩ rfl (fun _ => nofun) h.chunks
  | sendShutdown =>
    simp only [endStep, Option.ite_none_right_eq_some, Option.some.injEq] at hs
    obtain ⟨hexit, rfl⟩ := hs
    exact h.grow ⟨fun _ => nofun, rfl, .inl rfl⟩ rfl (fun _ => nofun) h.chunks
  | stop =>
    simp only [endStep, Option.ite_none_left_eq_some, Option.some.injEq] at hs
    obtain ⟨hexit, rfl⟩ := hs
    exact h.grow ⟨id, rfl, .inl rfl⟩ rfl (fun _ => hexit) h.chunks
  | abandon =>
    simp only [endStep, Option.ite_none_right_eq_some, Option.some.injEq] at hs
    obtain ⟨_, rfl⟩ := hs
    exact h.grow ⟨id, rfl, .inl rfl⟩ rfl h.signalled h.chunks
  | cut i viewer =>
    simp only [endStep] at hs
    split at hs
    case h_2 => cases hs
    obtain rfl := Option.some.inj hs
    refine h.setTask fun t ht => ?_
    obtain rfl := Option.some.inj ht
    refine ⟨le_rfl, le_rfl, ?_, nofun⟩
    rw [Broadcast.Channel.subscribe, List.take_length, List.drop_length]
    rfl
  | subscribe i =>
    obtain ⟨t, ht, hs⟩ := Option.bind_eq_some_iff.mp hs
    simp only [Option.ite_none_left_eq_some, Option.some.injEq] at hs
    obtain ⟨_, rfl⟩ := hs
    have hgrown : EndInv { s with shutdown := s.shutdown.subscribe i } :=
      h.grow ⟨id, rfl, .inl rfl⟩ rfl h.signalled h.chunks
    refine hgrown.setTask fun t' ht' => ?_
    obtain rfl := Option.some.inj ht'
    exact (hgrown.tasks i t ht).attach
  | receive i =>
    obtain ⟨t, ht, hs⟩ := Option.bind_eq_some_iff.mp hs
    rw [Option.ite_none_left_eq_some] at hs
    obtain ⟨hsel, hs⟩ := hs
    obtain ⟨hgoing, hhand, hlast⟩ := going_of_selecting (h.tasks i t ht)
      ((Bool.not_eq_false _).mp fun hno => hsel (.inl hno))
    obtain ⟨_, hlag⟩ | ⟨_, ⟨hlt, hvalue⟩ | ⟨_, hempty⟩⟩ := s.shell.output.tryRecv_cases t.rx
    · -- on a lag the task gives up what it has not received
      rw [hlag] at hs
      obtain rfl := Option.some.inj hs
      refine h.setTask fun t' ht' => ?_
      obtain rfl := Option.some.inj ht'
      exact hgoing.lag hhand _
    · rw [hvalue] at hs
      obtain rfl := Option.some.inj hs
      refine h.setTask fun t' ht' => ?_
      obtain rfl := Option.some.inj ht'
      refine taskOk_of_going hlast (hgoing.take hhand (Nat.le_add_right t.rx 1) hlt ?_
        (by simp))
      rw [List.drop_take_succ_eq_cons_getElem _ _ hlt]
      rfl
    · rw [hempty] at hs
      cases hs
  | redraw i =>
    obtain ⟨t, ht, hs⟩ := Option.bind_eq_some_iff.mp hs
    rw [Option.ite_none_right_eq_some] at hs
    obtain ⟨hsel, hs⟩ := hs
    obtain ⟨hgoing, hhand, hlast⟩ := going_of_selecting (h.tasks i t ht) hsel
    obtain ⟨scrollback, heq, _, hcase⟩ := Shell.redraw_cases hgoing.rx_le
    generalize s.shell.redraw t.rx = drawn at hs heq hcase
    obtain ⟨r, shell, rx⟩ := drawn
    obtain rfl : shell = { s.shell with scrollback := scrollback } := heq
    obtain rfl := Option.some.inj hs
    have hgrown : EndInv { s with shell.scrollback := scrollback } :=
      h.grow ⟨id, rfl, .inl rfl⟩ rfl h.signalled h.chunks
    refine hgrown.setTask fun t' ht' => ?_
    obtain rfl := Option.some.inj ht'
    have hgoing' : Going { s with shell.scrollback := scrollback } t :=
      hgoing.mono ⟨id, rfl, .inl rfl⟩
    exact hgoing'.redraw hhand hcase
  | observe i =>
    obtain ⟨t, ht, hs⟩ := Option.bind_eq_some_iff.mp hs
    rw [Option.ite_none_right_eq_some] at hs
    obtain ⟨⟨hsel, _⟩, hs⟩ := hs
    obtain ⟨hgoing, hhand, hlast⟩ := going_of_selecting (h.tasks i t ht) hsel
    have hgrown : EndInv { s with shutdown := s.shutdown.markSeen i } :=
      h.grow ⟨id, rfl, .inl rfl⟩ rfl h.signalled h.chunks
    dsimp only at hs
    split at hs
    next hvalue =>
      -- the only step that needs the condition: nothing may be left in the receiver
      obtain rfl := Option.some.inj hs
      refine hgrown.setTask fun t' ht' => ?_
      obtain rfl := Option.some.inj ht'
      have hgoing' : Going { s with shutdown := s.shutdown.markSeen i } t :=
        hgoing.mono ⟨id, rfl, .inl rfl⟩
      exact hgoing'.observe hhand (h.signalled hvalue) (ha t ht hvalue)
    · obtain rfl := Option.some.inj hs
      exact hgrown
  | send i =>
    obtain ⟨t, ht, hs⟩ := Option.bind_eq_some_iff.mp hs
    split at hs
    case h_2 => cases hs
    case h_1 f hand hhand =>
      obtain rfl := Option.some.inj hs
      refine h.setTask fun t' ht' => ?_
      obtain rfl := Option.some.inj ht'
      exact (h.tasks i t ht).send hhand
  | leave i =>
    obtain rfl := Option.some.inj hs
    have hgrown : EndInv { s with shutdown := s.shutdown.unsubscribe i } :=
      h.grow ⟨id, rfl, .inl rfl⟩ rfl h.signalled h.chunks
    exact hgrown.setTask nofun

theorem endInv_of_reach (hs : (endSystem P).Reach Drained s) : EndInv s := by
  refine System.Reach.invariant ?_ ?_ hs
  · rintro s ⟨scrollbackCap, cols, rows, rfl⟩
    exact ⟨nofun, nofun, nofun⟩
  · intro s a s' _ hinv ha hstep
    exact hinv.step ha hstep

omit [Vt100 P] in
theorem EndInv.delivered (h : EndInv s) (viewer : Bool) : Delivered viewer s := by
  intro i t ht _ hover frames rest hframes
  have htask := h.tasks i t ht
  rw [TaskOk] at htask
  split at htask
  · obtain ⟨frames', reason, hframes', hunclosed, hexit⟩ := htask
    rw [hframes'] at hframes
    -- only the last frame reports an end, so this is the one
    cases rest using List.reverseRecOn with
    | nil =>
      obtain ⟨rfl, hlast⟩ := List.append_inj' hframes rfl
      cases hlast
      exact (hexit rfl).2 hover
    | append_singleton rest last =>
      rw [← List.cons_append, ← List.append_assoc] at hframes
      obtain ⟨rfl, _⟩ := List.append_inj' hframes rfl
      exact absurd (List.mem_append_right _ List.mem_cons_self) hunclosed
  · refine absurd ?_ htask.unclosed
    rw [hframes]
    exact List.mem_append_right _ List.mem_cons_self

omit [Vt100 P] in
/-- Data left in the receiver is missing from what was sent. -/
theorem rx_eq_of_data (h : EndInv s) (hgoing : Going s t)
    (hdata : dataBytes t.frames = (s.shell.output.sent.drop t.cut).flatten) :
    t.rx = s.shell.output.sent.length := by
  have hcut : t.cut ≤ (s.shell.output.sent.take t.rx).length := by
    rw [List.length_take, min_eq_left hgoing.rx_le]
    exact hgoing.cut_le
  have hsplit : s.shell.output.sent.drop t.cut =
      (s.shell.output.sent.take t.rx).drop t.cut ++ s.shell.output.sent.drop t.rx := by
    rw [← List.drop_append_of_le_length hcut, List.take_append_drop]
  rw [hgoing.data, hsplit, List.flatten_append, List.self_eq_append_right,
    List.flatten_eq_nil_iff] at hdata
  by_contra hne
  have hlt : t.rx < s.shell.output.sent.length := lt_of_le_of_ne hgoing.rx_le hne
  have hmem : s.shell.output.sent[t.rx] ∈ s.shell.output.sent.drop t.rx := by
    rw [List.drop_eq_getElem_cons hlt]
    exact List.mem_cons_self
  exact h.chunks _ (List.getElem_mem hlt) (hdata _ hmem)

theorem drained_of_delivered {a : Act} (h : EndInv s) (hs : endStep s a = some s')
    (hdelivered : ∀ viewer, Delivered viewer s') : Drained s a := by
  cases a with
  | observe i =>
    intro t ht hvalue hover
    rw [endStep, ht] at hs
    simp only [Option.bind_eq_bind, Option.bind_some, Option.ite_none_right_eq_some] at hs
    obtain ⟨⟨hsel, _⟩, hs⟩ := hs
    obtain ⟨hgoing, hhand, _⟩ := going_of_selecting (h.tasks i t ht) hsel
    rw [if_pos (show (s.shutdown.markSeen i).value = true from hvalue)] at hs
    obtain rfl := Option.some.inj hs
    have hdata := hdelivered t.viewer i _ (Function.update_self ..) rfl hover t.sent [] rfl
    refine rx_eq_of_data h hgoing ?_
    rw [Task.frames, hhand, List.append_nil]
    exact hdata
  | _ => trivial

/-- **The last output is delivered** in the runs in which nobody takes the shutdown arm while
there is output left in the receiver, and not after the first step that does. -/
theorem delivered_iff_drained (hs : (endSystem P).Reach Drained s) :
    (∀ viewer, Delivered viewer s) ∧ ∀ a s', (endSystem P).step s a = some s' →
      ((∀ viewer, Delivered viewer s') ↔ Drained s a) := by
  have hinv := endInv_of_reach hs
  refine ⟨hinv.delivered, fun a s' hstep => ⟨drained_of_delivered hinv hstep, fun ha => ?_⟩⟩
  exact (hinv.step ha hstep).delivered

end

/-! ## Both arms are ready -/

def spawned : Ending Unit :=
  ⟨Shell.spawn 4 80 24, .running, .new false, false, fun _ => none⟩

/-- The shell says something and exits, with a task that selects. -/
def exitRun (viewer : Bool) : List Act :=
  [.cut 0 viewer, .subscribe 0, .output [98, 121, 101], .markDead, .sendShutdown]

/-- On a mux channel the output arm may be taken first. -/
theorem delivered_iff_drained_exitRun :
    ∃ s, (endSystem Unit).run spawned (exitRun false ++ [.receive 0, .send 0]) = some s ∧
      (∀ viewer, Delivered viewer s) ∧ ∀ a s', (endSystem Unit).step s a = some s' →
        ((∀ viewer, Delivered viewer s') ↔ Drained s a) := by
  have hrun : ((endSystem Unit).run spawned (exitRun false ++ [.receive 0, .send 0])).isSome =
      true := by decide
  obtain ⟨s, hs⟩ := Option.isSome_iff_exists.mp hrun
  have hinit : (endSystem Unit).Reach Drained spawned := .init ⟨4, 80, 24, rfl⟩
  have hreach := hinit.run (fun a ha u => by
    fin_cases ha <;> trivial) hs
  exact ⟨s, hs, delivered_iff_drained hreach⟩

/-- The task has closed with the shell's output in its receiver, which was not overrun. -/
def silenced (viewer : Bool) (s : Ending Unit) : Bool :=
  (s.tasks 0).any fun t => t.viewer == viewer && t.sent == [.closed .exit] && t.hand == [] &&
    s.shell.output.sent.drop t.cut == [[98, 121, 101]] &&
    decide (s.shell.output.sent.length - t.rx ≤ s.shell.output.capacity)

theorem not_delivered_of_silenced {viewer : Bool} {s : Ending Unit} (h : silenced viewer s = true) :
    ¬ Delivered viewer s := by
  intro hdelivered
  obtain ⟨t, ht, h⟩ := (Option.any_eq_true ..).mp h
  simp only [Bool.and_eq_true, beq_iff_eq, decide_eq_true_eq] at h
  obtain ⟨⟨⟨⟨hviewer, hsent⟩, hhand⟩, hdrop⟩, hle⟩ := h
  have hdata := hdelivered 0 t ht hviewer (Nat.not_lt.mpr hle) [] []
    (by rw [Task.frames, hsent, hhand]; rfl)
  rw [hdrop] at hdata
  cases hdata

/-- With both arms ready, a mux channel may take the shutdown arm, and a viewer's bridge has to. -/
theorem last_words_lost :
    (¬ ∀ s, (endSystem Unit).Reachable s → Delivered false s) ∧
      ¬ ∀ s, (endSystem Unit).Reachable s → Delivered true s := by
  have hsilenced : ∀ viewer, ((endSystem Unit).run spawned
      (exitRun viewer ++ [.observe 0, .send 0])).any (silenced viewer) = true := by decide
  have hlost : ∀ viewer, ¬ ∀ s, (endSystem Unit).Reachable s → Delivered viewer s := by
    intro viewer h
    obtain ⟨s, hs, hsil⟩ := (Option.any_eq_true ..).mp (hsilenced viewer)
    have hinit : (endSystem Unit).Reachable spawned := .init ⟨4, 80, 24, rfl⟩
    exact not_delivered_of_silenced hsil (h s (hinit.run hs))
  exact ⟨hlost false, hlost true⟩

end Webshell.LastWords
