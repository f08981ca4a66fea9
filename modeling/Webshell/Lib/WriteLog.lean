import Mathlib.Tactic

/-!
# Write logs

A log of writes to named registers, the oldest first. Reading a register gives the last value
written to it, or what it held before the log.

## Main definitions

- `last`: the last value a log writes to a register
- `read`: the registers after a log

## Main results

- `read_append`: a log continues the one before it
- `read_drop_middle_iff`: when leaving out a middle part of a log goes unnoticed
-/

namespace WriteLog

variable {κ ν : Type*} [DecidableEq κ]

/-- The last value the log writes to the register. -/
def last : List (κ × ν) → κ → Option ν
  | [], _ => none
  | write :: log, k => (last log k).or (if write.1 = k then some write.2 else none)

/-- The registers after the log, when they held `held` before it. -/
def read (held : κ → ν) (log : List (κ × ν)) (k : κ) : ν := (last log k).getD (held k)

@[simp] theorem last_nil (k : κ) : last ([] : List (κ × ν)) k = none := rfl

theorem last_cons (write : κ × ν) (log : List (κ × ν)) (k : κ) :
    last (write :: log) k = (last log k).or (if write.1 = k then some write.2 else none) := rfl

/-- A log of at most one write. -/
theorem last_if (flag : Bool) (write : κ × ν) (k : κ) :
    last (if flag then [write] else []) k =
      if flag = true ∧ write.1 = k then some write.2 else none := by
  cases flag <;> simp [last]

theorem last_append (a b : List (κ × ν)) (k : κ) : last (a ++ b) k = (last b k).or (last a k) := by
  induction a with
  | nil => rw [List.nil_append, last_nil, Option.or_none]
  | cons write a ih => rw [List.cons_append, last_cons, ih, last_cons, Option.or_assoc]

@[simp] theorem read_nil (held : κ → ν) : read held [] = held := rfl

theorem read_append (held : κ → ν) (a b : List (κ × ν)) :
    read held (a ++ b) = read (read held a) b := by
  funext k
  rw [read, last_append]
  cases hb : last b k with
  | none => rw [Option.none_or, read, hb, Option.getD_none, read]
  | some v => rw [Option.some_or, read, hb, Option.getD_some, Option.getD_some]

theorem read_single (held : κ → ν) (write : κ × ν) :
    read held [write] = Function.update held write.1 write.2 := by
  funext k
  by_cases h : write.1 = k
  · subst h
    simp [read, last]
  · simp [read, last, h, Function.update_of_ne (Ne.symm h)]

/-- Leaving `b` out of the log goes unnoticed exactly if every register it changes is written
again after it. -/
theorem read_drop_middle_iff (held : κ → ν) (b c : List (κ × ν)) :
    read held c = read held (b ++ c) ↔
      ∀ k v, last b k = some v → last c k ≠ none ∨ held k = v := by
  rw [read_append, funext_iff]
  constructor
  · intro h k v hb
    have hk := h k
    cases hc : last c k with
    | some w => exact .inl (Option.some_ne_none w)
    | none =>
      simp only [read, hc, hb, Option.getD_none, Option.getD_some] at hk
      exact .inr hk
  · intro h k
    cases hc : last c k with
    | some w => simp only [read, hc, Option.getD_some]
    | none =>
      cases hb : last b k with
      | none => simp only [read, hc, hb, Option.getD_none]
      | some v =>
        have hv := (h k v hb).resolve_left fun hne => hne hc
        simp only [read, hc, hb, Option.getD_none, Option.getD_some, hv]

end WriteLog
