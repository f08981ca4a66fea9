import Mathlib.Tactic

/-!
# Bounded channels

A multi-producer channel with room for `bound` messages and one receiver. A send that would have
to wait is refused instead, and so is every send once the receiver is gone.

## Main definitions

- `SyncChannel`: the messages under way and whether the receiver is still there
- `SyncChannel.trySend`: a send that does not wait
- `SyncChannel.offer`: a send whose refusal is ignored
-/

universe u

/-- A channel with room for `bound` messages. -/
structure SyncChannel (α : Type u) (bound : ℕ) where
  items : List α
  /-- The receiver is there. -/
  connected : Bool
  length_le : items.length ≤ bound

inductive TrySendError
  | full
  | disconnected
deriving DecidableEq

namespace SyncChannel

variable {α : Type u} {bound : ℕ}

/-- A new channel. -/
def fresh (α : Type u) (bound : ℕ) : SyncChannel α bound :=
  { items := [], connected := true, length_le := Nat.zero_le _ }

def trySend (c : SyncChannel α bound) (a : α) : Except TrySendError (SyncChannel α bound) :=
  if c.connected then
    if h : c.items.length < bound then
      .ok { c with items := c.items ++ [a], length_le := by simpa using h }
    else .error .full
  else .error .disconnected

/-- A send whose refusal is ignored. -/
def offer (c : SyncChannel α bound) (a : α) : SyncChannel α bound :=
  match c.trySend a with
  | .ok c' => c'
  | .error _ => c

/-- The next message, if there is one. -/
def recv (c : SyncChannel α bound) : Option (α × SyncChannel α bound) :=
  match h : c.items with
  | [] => none
  | a :: rest =>
    some (a, { c with
      items := rest
      length_le := Nat.le_trans (by simp [h]) c.length_le })

/-- The receiver is dropped, and what it had not taken with it. -/
def disconnect (_ : SyncChannel α bound) : SyncChannel α bound :=
  { items := [], connected := false, length_le := Nat.zero_le _ }

/-- A send would be taken. -/
def Accepts (c : SyncChannel α bound) : Prop := c.connected = true ∧ c.items.length < bound

instance (c : SyncChannel α bound) : Decidable c.Accepts :=
  inferInstanceAs (Decidable (_ ∧ _))

@[simp] theorem fresh_items : (fresh α bound).items = [] := rfl

variable {c c' : SyncChannel α bound} {a : α}

theorem trySend_of_accepts (h : c.Accepts) : ∃ c', c.trySend a = .ok c' ∧
    c'.items = c.items ++ [a] ∧ c'.connected = c.connected := by
  rw [trySend, if_pos h.1, dif_pos h.2]
  exact ⟨_, rfl, rfl, rfl⟩

theorem trySend_of_not_accepts (h : ¬ c.Accepts) : ∃ e, c.trySend a = .error e := by
  rw [trySend]
  split
  · next hc =>
    rw [dif_neg fun hlt => h ⟨hc, hlt⟩]
    exact ⟨.full, rfl⟩
  · exact ⟨.disconnected, rfl⟩

/-- What a send that succeeds says about the channel before and after. -/
theorem trySend_eq_ok (h : c.trySend a = .ok c') :
    c.Accepts ∧ c'.items = c.items ++ [a] ∧ c'.connected = c.connected := by
  by_cases hacc : c.Accepts
  · obtain ⟨c'', hc'', hitems, hconn⟩ := trySend_of_accepts (a := a) hacc
    rw [hc''] at h
    cases h
    exact ⟨hacc, hitems, hconn⟩
  · obtain ⟨e, he⟩ := trySend_of_not_accepts (a := a) hacc
    rw [he] at h
    cases h

theorem offer_of_accepts (h : c.Accepts) : (c.offer a).items = c.items ++ [a] := by
  obtain ⟨c', hc', hitems, _⟩ := trySend_of_accepts (a := a) h
  rw [offer, hc']
  exact hitems

theorem offer_of_not_accepts (h : ¬ c.Accepts) : c.offer a = c := by
  obtain ⟨e, he⟩ := trySend_of_not_accepts (a := a) h
  rw [offer, he]

@[simp] theorem offer_connected (c : SyncChannel α bound) (a : α) :
    (c.offer a).connected = c.connected := by
  rw [offer]
  split
  · next h => exact (trySend_eq_ok h).2.2
  · rfl

theorem recv_eq_some (h : c.recv = some (a, c')) :
    c.items = a :: c'.items ∧ c'.connected = c.connected := by
  rw [recv] at h
  split at h
  · cases h
  · next hitems =>
    cases h
    exact ⟨hitems, rfl⟩

end SyncChannel
