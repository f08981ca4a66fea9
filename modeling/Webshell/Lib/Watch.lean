import Mathlib.Tactic

/-!
# Watch channels

A channel of one value and a version that counts its changes. A receiver remembers the version
it has seen; it is told of a change when the channel has another. Sending without receivers is
an error that leaves the value as it is, and a new receiver has seen the current value.

## Main definitions

- `Channel`, with `send`, `subscribe`, `unsubscribe`, `changed`, `markSeen`

## Main results

- `Channel.changed_send`: a receiver that stands when a value is sent is told of a change
- `Channel.not_changed_subscribe`: a new receiver is not
-/

namespace Watch

/-- A channel whose receivers are named by `ι`. -/
structure Channel (ι α : Type*) where
  value : α
  version : ℕ
  receivers : Finset ι
  seen : ι → ℕ

namespace Channel

variable {ι α : Type*} [DecidableEq ι]

def new (a : α) : Channel ι α where
  value := a
  version := 0
  receivers := ∅
  seen := fun _ => 0

def send (ch : Channel ι α) (a : α) : Channel ι α :=
  if ch.receivers = ∅ then ch else { ch with value := a, version := ch.version + 1 }

def subscribe (ch : Channel ι α) (i : ι) : Channel ι α :=
  { ch with
    receivers := insert i ch.receivers
    seen := Function.update ch.seen i ch.version }

def unsubscribe (ch : Channel ι α) (i : ι) : Channel ι α :=
  { ch with receivers := ch.receivers.erase i }

/-- The receiver has not seen the current value. -/
def changed (ch : Channel ι α) (i : ι) : Bool := ch.seen i != ch.version

def markSeen (ch : Channel ι α) (i : ι) : Channel ι α :=
  { ch with seen := Function.update ch.seen i ch.version }

/-- No receiver has seen a version that is yet to come. -/
def Sound (ch : Channel ι α) : Prop := ∀ i ∈ ch.receivers, ch.seen i ≤ ch.version

variable {ch : Channel ι α} {i j : ι} {a : α}

@[simp] theorem receivers_send : (ch.send a).receivers = ch.receivers := by
  rw [send]
  split <;> rfl

@[simp] theorem seen_send : (ch.send a).seen = ch.seen := by
  rw [send]
  split <;> rfl

theorem send_of_mem (h : i ∈ ch.receivers) (a : α) :
    ch.send a = { ch with value := a, version := ch.version + 1 } := by
  rw [send, if_neg (Finset.ne_empty_of_mem h)]

theorem changed_send (hs : ch.Sound) (h : i ∈ ch.receivers) (a : α) :
    (ch.send a).changed i = true ∧ (ch.send a).value = a := by
  rw [send_of_mem h]
  have hle := hs i h
  refine ⟨bne_iff_ne.mpr ?_, rfl⟩
  change ch.seen i ≠ ch.version + 1
  omega

theorem not_changed_subscribe : (ch.subscribe i).changed i = false := by
  simp [changed, subscribe]

theorem changed_subscribe_of_ne (h : j ≠ i) : (ch.subscribe i).changed j = ch.changed j := by
  simp [changed, subscribe, h]

theorem changed_markSeen_of_ne (h : j ≠ i) : (ch.markSeen i).changed j = ch.changed j := by
  simp [changed, markSeen, h]

omit [DecidableEq ι] in
theorem sound_new (a : α) : (new a : Channel ι α).Sound := fun _ h => absurd h (by simp [new])

theorem Sound.send (hs : ch.Sound) (a : α) : (ch.send a).Sound := by
  intro i hi
  rw [receivers_send] at hi
  rw [seen_send, send_of_mem hi]
  exact (hs i hi).trans (Nat.le_succ _)

theorem Sound.subscribe (hs : ch.Sound) (i : ι) : (ch.subscribe i).Sound := by
  intro j hj
  by_cases h : j = i
  · subst h
    simp [Channel.subscribe]
  · simp only [Channel.subscribe, Function.update_of_ne h]
    exact hs j (Finset.mem_of_mem_insert_of_ne hj h)

theorem Sound.unsubscribe (hs : ch.Sound) (i : ι) : (ch.unsubscribe i).Sound :=
  fun j hj => hs j (Finset.mem_of_mem_erase hj)

theorem Sound.markSeen (hs : ch.Sound) (i : ι) : (ch.markSeen i).Sound := by
  intro j hj
  by_cases h : j = i
  · subst h
    simp [Channel.markSeen]
  · simp only [Channel.markSeen, Function.update_of_ne h]
    exact hs j hj

end Channel

end Watch
