import Mathlib.Tactic

/-!
# Bounded broadcast channels

A channel keeps the last `capacity` values it was sent; a receiver is the number of values ahead
of it. One that falls further behind is told that it lagged, and goes on at the oldest value
kept. A value sent while there is no receiver is not stored, which no receiver can tell from the
log kept here: it subscribes behind it.

## Main definitions

- `Channel.send`, `Channel.subscribe`, `Channel.tryRecv`: the channel and its receivers
- `Channel.drain`: receiving until there is nothing left

## Main results

- `Channel.tryRecv_cases`: a receiver gets the next value, or is told why not
- `Channel.drain_eq`: a drain gets all the values left, or none of them and a lag
-/

namespace Broadcast

variable {α : Type*}

structure Channel (α : Type*) where
  capacity : ℕ
  sent : List α

inductive Received (α : Type*)
  | value (a : α)
  | lagged
  | empty

namespace Channel

def send (ch : Channel α) (a : α) : Channel α := { ch with sent := ch.sent ++ [a] }

/-- A new receiver, behind everything sent so far. -/
def subscribe (ch : Channel α) : ℕ := ch.sent.length

/-- What a receiver gets, and where it stands afterwards. -/
def tryRecv (ch : Channel α) (next : ℕ) : Received α × ℕ :=
  if ch.capacity < ch.sent.length - next then (.lagged, ch.sent.length - ch.capacity)
  else
    match ch.sent[next]? with
    | some a => (.value a, next + 1)
    | none => (.empty, next)

theorem tryRecv_cases (ch : Channel α) (next : ℕ) :
    (ch.capacity < ch.sent.length - next ∧
        ch.tryRecv next = (.lagged, ch.sent.length - ch.capacity)) ∨
      (¬ ch.capacity < ch.sent.length - next ∧
        ((∃ h : next < ch.sent.length, ch.tryRecv next = (.value ch.sent[next], next + 1)) ∨
          (ch.sent.length ≤ next ∧ ch.tryRecv next = (.empty, next)))) := by
  by_cases hlag : ch.capacity < ch.sent.length - next
  · exact .inl ⟨hlag, by rw [tryRecv, if_pos hlag]⟩
  · refine .inr ⟨hlag, ?_⟩
    by_cases hnext : next < ch.sent.length
    · exact .inl ⟨hnext, by rw [tryRecv, if_neg hlag, List.getElem?_eq_getElem hnext]⟩
    · refine .inr ⟨not_lt.mp hnext, ?_⟩
      rw [tryRecv, if_neg hlag, List.getElem?_eq_none (not_lt.mp hnext)]

/-- What was sent before a place, split at an earlier one. -/
theorem take_eq (ch : Channel α) {next next' : ℕ} (h : next ≤ next') :
    ch.sent.take next' = ch.sent.take next ++ (ch.sent.take next').drop next := by
  have hsplit := List.take_append_drop next (ch.sent.take next')
  rw [List.take_take, min_eq_left h] at hsplit
  exact hsplit.symm

/-- The values received until the channel is empty, whether that ended in a lag, and where the
receiver stands afterwards. -/
def drain (ch : Channel α) (next : ℕ) : List α × Bool × ℕ :=
  match _h : ch.tryRecv next with
  | (.value a, next') =>
    let (rest, lagged, last) := drain ch next'
    (a :: rest, lagged, last)
  | (.lagged, next') => ([], true, next')
  | (.empty, next') => ([], false, next')
termination_by ch.sent.length - next
decreasing_by
  rcases ch.tryRecv_cases next with ⟨_, heq⟩ | ⟨_, ⟨hnext, heq⟩ | ⟨_, heq⟩⟩
  · rw [heq] at _h
    cases _h
  · rw [heq] at _h
    cases _h
    omega
  · rw [heq] at _h
    cases _h

theorem drain_of_value {ch : Channel α} {next next' : ℕ} {a : α}
    (h : ch.tryRecv next = (.value a, next')) :
    ch.drain next = (a :: (ch.drain next').1, (ch.drain next').2) := by
  rw [drain]
  split
  · next heq =>
    rw [h] at heq
    cases heq
    rfl
  · next heq => rw [h] at heq; cases heq
  · next heq => rw [h] at heq; cases heq

theorem drain_of_lagged {ch : Channel α} {next next' : ℕ} (h : ch.tryRecv next = (.lagged, next')) :
    ch.drain next = ([], true, next') := by
  rw [drain]
  split
  · next heq => rw [h] at heq; cases heq
  · next heq => rw [h] at heq; cases heq; rfl
  · next heq => rw [h] at heq; cases heq

theorem drain_of_empty {ch : Channel α} {next next' : ℕ} (h : ch.tryRecv next = (.empty, next')) :
    ch.drain next = ([], false, next') := by
  rw [drain]
  split
  · next heq => rw [h] at heq; cases heq
  · next heq => rw [h] at heq; cases heq
  · next heq => rw [h] at heq; cases heq; rfl

/-- A drain that starts within the capacity gets everything that is left. -/
theorem drain_of_not_lagged {ch : Channel α} {next : ℕ} (hnext : next ≤ ch.sent.length)
    (hlag : ¬ ch.capacity < ch.sent.length - next) :
    ch.drain next = (ch.sent.drop next, false, ch.sent.length) := by
  induction hk : ch.sent.length - next generalizing next with
  | zero =>
    have heq : next = ch.sent.length := by omega
    rcases ch.tryRecv_cases next with ⟨hlag', _⟩ | ⟨_, ⟨hlt, _⟩ | ⟨_, hempty⟩⟩
    · exact absurd hlag' hlag
    · omega
    · rw [drain_of_empty hempty, heq, List.drop_length]
  | succ k ih =>
    rcases ch.tryRecv_cases next with ⟨hlag', _⟩ | ⟨_, ⟨hlt, hvalue⟩ | ⟨hle, _⟩⟩
    · exact absurd hlag' hlag
    · rw [drain_of_value hvalue, ih hlt (by omega) (by omega), List.drop_eq_getElem_cons hlt]
    · omega

/-- A drain gets everything that is left, or nothing and a lag. -/
theorem drain_eq (ch : Channel α) {next : ℕ} (hnext : next ≤ ch.sent.length) :
    ch.drain next = (ch.sent.drop next, false, ch.sent.length) ∨
      ∃ next', ch.drain next = ([], true, next') := by
  rcases ch.tryRecv_cases next with ⟨_, hlagged⟩ | ⟨hlag, _⟩
  · exact .inr ⟨_, drain_of_lagged hlagged⟩
  · exact .inl (drain_of_not_lagged hnext hlag)

end Channel

end Broadcast
