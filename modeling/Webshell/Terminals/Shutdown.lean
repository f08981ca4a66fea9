import Webshell.Lib.Transition
import Webshell.Lib.Watch

/-!
# The death of a shell

One spawn of a shell: its `alive` flag and shutdown channel, the attaches that check the one and
then subscribe to the other under the slot lock, and the reader thread, which stores the flag and
sends without that lock. Attachments are named by numbers; the first one belongs to the attach
that spawns the shell.

## Main definitions

- `spawnStep`, `spawnSystem`: the steps of a spawn and its attachments
- `Informed`: once the shell is gone, every attachment has been told or is about to be

## Main results

- `informed_iff_subscribed_before_send`: this holds as long as every attach subscribes before the
  reader thread sends
- `late_subscriber_is_not_told`: an attach that subscribes after it
-/

namespace Webshell.Shutdown

open Transition

/-- What the reader thread has done of its exit. -/
inductive Exit
  | running
  /-- `alive.store(false)` -/
  | marked
  /-- `shutdown_tx.send(true)` -/
  | sent
deriving DecidableEq

/-- One call of `attach` or `attach_view`, and the attachment it returns. -/
inductive Attach
  | absent
  /-- It holds the slot lock and has found the shell alive, or has just spawned it. -/
  | checked
  /-- Its attachment was returned; `told` once a change to `true` was consumed. -/
  | returned (told : Bool)
deriving DecidableEq

structure Spawn where
  alive : Bool
  shutdown : Watch.Channel ℕ Bool
  exit : Exit
  /-- The terminal is in its slot. -/
  inSlot : Bool
  /-- `Terminal::stop` has sent. -/
  stopped : Bool
  lock : Option ℕ
  attaches : ℕ → Attach

inductive Act
  | check (i : ℕ)
  | subscribe (i : ℕ)
  | markDead
  | sendShutdown
  /-- A reset, or an attach that replaces the shell, takes the terminal out of its slot. -/
  | take
  | stop
  | observe (i : ℕ)
  | drop (i : ℕ)

def setAttach (s : Spawn) (i : ℕ) (a : Attach) : Spawn :=
  { s with attaches := Function.update s.attaches i a }

def spawnStep (s : Spawn) : Act → Option Spawn
  | .check i =>
    if s.lock = none ∧ s.inSlot = true ∧ s.alive = true ∧ s.attaches i = .absent then
      some (setAttach { s with lock := some i } i .checked)
    else none
  | .subscribe i =>
    if s.attaches i = .checked then
      some (setAttach { s with lock := none, shutdown := s.shutdown.subscribe i } i
        (.returned false))
    else none
  | .markDead => if s.exit = .running then some { s with alive := false, exit := .marked } else none
  | .sendShutdown =>
    if s.exit = .marked then some { s with shutdown := s.shutdown.send true, exit := .sent }
    else none
  | .take => if s.lock = none ∧ s.inSlot = true then some { s with inSlot := false } else none
  | .stop =>
    if s.inSlot = false ∧ s.stopped = false then
      some { s with shutdown := s.shutdown.send true, stopped := true }
    else none
  | .observe i =>
    match s.attaches i with
    | .returned told =>
      if s.shutdown.changed i then
        some (setAttach { s with shutdown := s.shutdown.markSeen i } i
          (.returned (told || s.shutdown.value)))
      else none
    | _ => none
  | .drop i =>
    match s.attaches i with
    | .returned _ => some (setAttach { s with shutdown := s.shutdown.unsubscribe i } i .absent)
    | _ => none

/-- A shell just spawned by the attach `i`, which holds the slot lock. -/
def spawned (i : ℕ) : Spawn where
  alive := true
  shutdown := Watch.Channel.new false
  exit := .running
  inSlot := true
  stopped := false
  lock := some i
  attaches := Function.update (fun _ => .absent) i .checked

def spawnSystem : System Spawn Act where
  init s := ∃ i, s = spawned i
  step := spawnStep

/-- The receiver of the attachment has consumed a change to `true`, or has one to consume. -/
def Told (s : Spawn) (i : ℕ) : Prop :=
  ∀ told, s.attaches i = .returned told →
    told = true ∨ (s.shutdown.changed i = true ∧ s.shutdown.value = true)

/-- Once the reader thread is through with its exit, every attachment is told. -/
def Informed (s : Spawn) : Prop := s.exit = .sent → ∀ i, Told s i

/-- The step subscribes after the reader thread's send. -/
def LateSubscribe (s : Spawn) (a : Act) : Prop := s.exit = .sent ∧ ∃ i, a = .subscribe i

/-- `true` has been sent, by the reader thread or by a stop. -/
def WasSent (s : Spawn) : Prop := s.exit = .sent ∨ s.stopped = true

/-- What the runs without a late subscribe keep. -/
structure SpawnInv (s : Spawn) : Prop where
  sound : s.shutdown.Sound
  /-- The receivers are those of the attachments returned. -/
  receivers : ∀ i, i ∈ s.shutdown.receivers ↔ ∃ told, s.attaches i = .returned told
  lock : ∀ i, s.attaches i = .checked → s.lock = some i
  locked : s.lock ≠ none → s.inSlot = true
  stopped : s.stopped = true → s.inSlot = false
  told : WasSent s → ∀ i, Told s i

theorem spawnInv_spawned (i : ℕ) : SpawnInv (spawned i) := by
  have hnone : ∀ j told, (spawned i).attaches j ≠ .returned told := by
    intro j told
    by_cases hj : j = i <;> simp [spawned, hj]
  refine ⟨Watch.Channel.sound_new false, fun j => ⟨fun hj => ?_, ?_⟩, fun j hj => ?_, fun _ => rfl,
    fun hstop => Bool.noConfusion hstop, fun _ j told hret => absurd hret (hnone j told)⟩
  · simp [spawned, Watch.Channel.new] at hj
  · rintro ⟨told, hret⟩
    exact absurd hret (hnone j told)
  · by_cases hji : j = i
    · rw [hji]
      rfl
    · simp [spawned, hji] at hj

/-- Everyone who stands when `true` is sent is told. -/
theorem SpawnInv.told_of_send {s s' : Spawn} (h : SpawnInv s)
    (hsend : s'.shutdown = s.shutdown.send true) (hattach : s'.attaches = s.attaches) (i : ℕ) :
    Told s' i := by
  intro told hret
  rw [hattach] at hret
  have hmem := (h.receivers i).mpr ⟨told, hret⟩
  rw [hsend]
  exact .inr (Watch.Channel.changed_send h.sound hmem true)

/-- A send, whoever makes it. -/
theorem SpawnInv.send {s s' : Spawn} (h : SpawnInv s) (hsend : s'.shutdown = s.shutdown.send true)
    (hattach : s'.attaches = s.attaches) (hlock : s'.lock = s.lock) (hslot : s'.inSlot = s.inSlot)
    (hstopped : s'.stopped = true → s'.inSlot = false) : SpawnInv s' := by
  refine ⟨?_, fun i => ?_, ?_, ?_, hstopped, fun _ => h.told_of_send hsend hattach⟩
  · rw [hsend]
    exact h.sound.send true
  · rw [hsend, hattach, Watch.Channel.receivers_send]
    exact h.receivers i
  · rw [hattach, hlock]
    exact h.lock
  · rw [hlock, hslot]
    exact h.locked

theorem Told.congr {s s' : Spawn} {i : ℕ} (h : Told s i) (hattach : s'.attaches i = s.attaches i)
    (hchanged : s'.shutdown.changed i = s.shutdown.changed i)
    (hvalue : s'.shutdown.value = s.shutdown.value) : Told s' i := by
  intro told hret
  rw [hchanged, hvalue]
  exact h told (hattach ▸ hret)

/-- One attach moves; nothing is sent. -/
theorem SpawnInv.move {s s' : Spawn} (h : SpawnInv s) {i : ℕ} {a : Attach}
    (hattach : s'.attaches = Function.update s.attaches i a) (hsound : s'.shutdown.Sound)
    (hself : i ∈ s'.shutdown.receivers ↔ ∃ told, a = .returned told)
    (hothers : ∀ j ≠ i, (j ∈ s'.shutdown.receivers ↔ j ∈ s.shutdown.receivers) ∧
      s'.shutdown.changed j = s.shutdown.changed j)
    (hvalue : s'.shutdown.value = s.shutdown.value)
    (hchecked : a = .checked → s'.lock = some i)
    (hlock : ∀ j ≠ i, s.attaches j = .checked → s'.lock = some j)
    (hlocked : s'.lock ≠ none → s'.inSlot = true)
    (hslot : s'.inSlot = s.inSlot) (hstopped : s'.stopped = s.stopped) (hexit : s'.exit = s.exit)
    (htold : WasSent s → Told s' i) : SpawnInv s' := by
  have hsame : s'.attaches i = a := by rw [hattach, Function.update_self]
  have hne : ∀ j ≠ i, s'.attaches j = s.attaches j := by
    intro j hj
    rw [hattach, Function.update_of_ne hj]
  have hsent : WasSent s' → WasSent s := by
    rw [WasSent, WasSent, hexit, hstopped]
    exact id
  refine ⟨hsound, fun j => ?_, fun j hj => ?_, hlocked, ?_, fun hs j => ?_⟩
  · by_cases hji : j = i
    · rw [hji, hsame]
      exact hself
    · rw [hne j hji, (hothers j hji).1]
      exact h.receivers j
  · by_cases hji : j = i
    · rw [hji] at hj ⊢
      exact hchecked (hsame ▸ hj)
    · exact hlock j hji (hne j hji ▸ hj)
  · rw [hslot, hstopped]
    exact h.stopped
  · by_cases hji : j = i
    · rw [hji]
      exact htold (hsent hs)
    · exact (h.told (hsent hs) j).congr (hne j hji) (hothers j hji).2 hvalue

theorem SpawnInv.step {s s' : Spawn} {a : Act} (h : SpawnInv s) (ha : ¬ LateSubscribe s a)
    (hstep : spawnStep s a = some s') : SpawnInv s' := by
  cases a with
  | check i =>
    simp only [spawnStep, Option.ite_none_right_eq_some, Option.some.injEq] at hstep
    obtain ⟨⟨hlock, hslot, _, habsent⟩, rfl⟩ := hstep
    refine h.move rfl h.sound ?_ (fun j _ => ⟨Iff.rfl, rfl⟩) rfl (fun _ => rfl) (fun j _ hj => ?_)
      (fun _ => hslot) rfl rfl rfl fun _ told hret => ?_
    · refine ⟨fun hmem => ?_, fun ⟨told, htold⟩ => by cases htold⟩
      obtain ⟨told, hret⟩ := (h.receivers i).mp hmem
      rw [habsent] at hret
      cases hret
    · have := h.lock j hj
      rw [hlock] at this
      cases this
    · simp [setAttach] at hret
  | subscribe i =>
    simp only [spawnStep, Option.ite_none_right_eq_some, Option.some.injEq] at hstep
    obtain ⟨hchecked, rfl⟩ := hstep
    have hlock := h.lock i hchecked
    -- the lock kept the terminal in its slot, so no stop has sent
    have hnot : ¬ WasSent s := by
      rintro (hexit | hstopped)
      · exact ha ⟨hexit, i, rfl⟩
      · have hslot := h.locked (by rw [hlock]; exact Option.some_ne_none i)
        rw [h.stopped hstopped] at hslot
        cases hslot
    refine h.move rfl (h.sound.subscribe i) ?_ (fun j hj => ⟨?_, ?_⟩) rfl
      (fun hno => by cases hno) (fun j hji hj => ?_) (fun hno => absurd rfl hno) rfl rfl rfl
      fun hsent => absurd hsent hnot
    · exact ⟨fun _ => ⟨false, rfl⟩, fun _ => Finset.mem_insert_self i _⟩
    · exact Finset.mem_insert.trans (or_iff_right hj)
    · exact Watch.Channel.changed_subscribe_of_ne hj
    · rw [h.lock j hj, Option.some.injEq] at hlock
      exact absurd hlock hji
  | markDead =>
    simp only [spawnStep, Option.ite_none_right_eq_some, Option.some.injEq] at hstep
    obtain ⟨hexit, rfl⟩ := hstep
    refine ⟨h.sound, h.receivers, h.lock, h.locked, h.stopped, fun hsent => h.told ?_⟩
    exact .inr (hsent.resolve_left (by simp))
  | sendShutdown =>
    simp only [spawnStep, Option.ite_none_right_eq_some, Option.some.injEq] at hstep
    obtain ⟨_, rfl⟩ := hstep
    exact h.send rfl rfl rfl rfl h.stopped
  | take =>
    simp only [spawnStep, Option.ite_none_right_eq_some, Option.some.injEq] at hstep
    obtain ⟨⟨hlock, _⟩, rfl⟩ := hstep
    exact ⟨h.sound, h.receivers, h.lock, fun hne => absurd hlock hne, fun _ => rfl, h.told⟩
  | stop =>
    simp only [spawnStep, Option.ite_none_right_eq_some, Option.some.injEq] at hstep
    obtain ⟨⟨hslot, _⟩, rfl⟩ := hstep
    exact h.send rfl rfl rfl rfl fun _ => hslot
  | observe i =>
    cases hret : s.attaches i with
    | absent => simp [spawnStep, hret] at hstep
    | checked => simp [spawnStep, hret] at hstep
    | returned told =>
      simp only [spawnStep, hret, Option.ite_none_right_eq_some, Option.some.injEq] at hstep
      obtain ⟨_, rfl⟩ := hstep
      refine h.move rfl (h.sound.markSeen i) ?_ (fun j hj => ⟨Iff.rfl, ?_⟩) rfl
        (fun hno => by cases hno) (fun j _ hj => h.lock j hj) h.locked rfl rfl rfl
        fun hsent told' hret' => ?_
      · exact ⟨fun _ => ⟨_, rfl⟩, fun _ => (h.receivers i).mpr ⟨told, hret⟩⟩
      · exact Watch.Channel.changed_markSeen_of_ne hj
      · simp only [setAttach, Function.update_self, Attach.returned.injEq] at hret'
        obtain htold | ⟨_, hvalue⟩ := h.told hsent i told hret
        · exact .inl (by rw [← hret', htold, Bool.true_or])
        · exact .inl (by rw [← hret', hvalue, Bool.or_true])
  | drop i =>
    cases hret : s.attaches i with
    | absent => simp [spawnStep, hret] at hstep
    | checked => simp [spawnStep, hret] at hstep
    | returned told =>
      simp only [spawnStep, hret, Option.some.injEq] at hstep
      subst hstep
      refine h.move rfl (h.sound.unsubscribe i) ?_ (fun j hj => ⟨?_, rfl⟩) rfl
        (fun hno => by cases hno) (fun j _ hj => h.lock j hj) h.locked rfl rfl rfl
        fun _ told' hret' => ?_
      · refine ⟨fun hmem => absurd hmem (Finset.notMem_erase i _), fun ⟨_, hno⟩ => by cases hno⟩
      · exact Finset.mem_erase.trans (and_iff_right hj)
      · simp [setAttach] at hret'

/-- An attachment that subscribes after the send is not told. -/
theorem not_informed_of_lateSubscribe {s s' : Spawn} {a : Act} (ha : LateSubscribe s a)
    (hstep : spawnStep s a = some s') : ¬ Informed s' := by
  obtain ⟨hexit, i, rfl⟩ := ha
  simp only [spawnStep, Option.ite_none_right_eq_some, Option.some.injEq] at hstep
  obtain ⟨_, rfl⟩ := hstep
  intro hinformed
  obtain hno | ⟨hchanged, _⟩ := hinformed hexit i false (by simp [setAttach])
  · cases hno
  · rw [show (setAttach _ i _).shutdown = s.shutdown.subscribe i from rfl,
      Watch.Channel.not_changed_subscribe] at hchanged
    cases hchanged

/-- **Shutdown reaches everyone** in the runs in which every attach subscribes before the reader
thread sends, and not after the first that does not. -/
theorem informed_iff_subscribed_before_send {s : Spawn}
    (hs : spawnSystem.Reach (fun s a => ¬ LateSubscribe s a) s) :
    Informed s ∧ ∀ a s', spawnSystem.step s a = some s' →
      (Informed s' ↔ ¬ LateSubscribe s a) := by
  have hinv : SpawnInv s := by
    refine System.Reach.invariant ?_ ?_ hs
    · rintro s ⟨i, rfl⟩
      exact spawnInv_spawned i
    · intro s a s' _ hinv ha hstep
      exact hinv.step ha hstep
  refine ⟨fun hexit => hinv.told (.inl hexit), fun a s' hstep => ⟨fun hinformed ha => ?_, ?_⟩⟩
  · exact not_informed_of_lateSubscribe ha hstep hinformed
  · intro ha hexit
    exact (hinv.step ha hstep).told (.inl hexit)

/-! ## The race -/

/-- An attach finds the shell alive, and the reader thread exits before it subscribes. The
attachment `0` stands meanwhile. -/
def race : List Act := [.check 1, .markDead, .sendShutdown]

theorem informed_iff_subscribed_before_send_race :
    ∃ s, spawnSystem.run (spawned 0) (.subscribe 0 :: race) = some s ∧ Informed s ∧
      ∀ s', spawnSystem.step s (.subscribe 1) = some s' →
        (Informed s' ↔ ¬ LateSubscribe s (.subscribe 1)) := by
  have hrun : (spawnSystem.run (spawned 0) (.subscribe 0 :: race)).isSome = true := by decide
  obtain ⟨s, hs⟩ := Option.isSome_iff_exists.mp hrun
  obtain ⟨s₁, hs₁, hrace⟩ := System.run_cons_eq_some hs
  have hfirst : spawnSystem.Reach (fun s a => ¬ LateSubscribe s a) s₁ :=
    .step (.init ⟨0, rfl⟩) (fun hlate => by cases hlate.1) hs₁
  have hreach := hfirst.run (fun a ha u hlate => by
    obtain ⟨_, i, rfl⟩ := hlate
    simp [race] at ha) hrace
  obtain ⟨hinformed, hiff⟩ := informed_iff_subscribed_before_send hreach
  exact ⟨s, hs, hinformed, hiff (.subscribe 1)⟩

/-- The attach that subscribes after the reader thread's send is never told. -/
theorem late_subscriber_is_not_told : ¬ ∀ s, spawnSystem.Reachable s → Informed s := by
  intro h
  have hrun : (spawnSystem.run (spawned 0) (.subscribe 0 :: race ++ [.subscribe 1])).map (fun s =>
      (s.exit, s.attaches 1, s.shutdown.changed 1)) = some (.sent, .returned false, false) := by
    decide
  obtain ⟨s, hs, heq⟩ := Option.map_eq_some_iff.mp hrun
  obtain ⟨hexit, hrest⟩ := Prod.mk.inj heq
  obtain ⟨hret, hchanged⟩ := Prod.mk.inj hrest
  obtain hno | ⟨hyes, _⟩ := h s (System.Reachable.run (.init ⟨0, rfl⟩) hs) hexit 1 false hret
  · cases hno
  · rw [hchanged] at hyes
    cases hyes

end Webshell.Shutdown
