import Mathlib.Tactic

/-!
# Checked arithmetic

Arithmetic that panics rather than go out of range: `none` stands for the panic. Times and durations
are in nanoseconds; a clock counts whole seconds in a signed number of 64 bits.

## Main definitions

- `Checked.clamp`, `Checked.mul`, `Checked.div`: unsigned numbers of 64 bits
- `Checked.after`: the time that is a duration after another one

## Main results

- `Checked.after_isSome_iff`: there is such a time as long as its seconds fit
-/

namespace Checked

variable {x y z lo hi t d : ℕ}

/-- Panics on an empty range. -/
def clamp (x lo hi : ℕ) : Option ℕ := if lo ≤ hi then some (max lo (min x hi)) else none

def mul (x y : ℕ) : Option ℕ := if x * y < 2 ^ 64 then some (x * y) else none

def div (x y : ℕ) : Option ℕ := if y = 0 then none else some (x / y)

/-- A time plus a duration. -/
def after (t d : ℕ) : Option ℕ := if (t + d) / 1000000000 < 2 ^ 63 then some (t + d) else none

theorem clamp_of_le (h : lo ≤ hi) : clamp x lo hi = some (max lo (min x hi)) := if_pos h

theorem mul_of_lt (h : x * y < 2 ^ 64) : mul x y = some (x * y) := if_pos h

theorem div_of_pos (h : 0 < y) : div x y = some (x / y) := if_neg h.ne'

theorem after_isSome_iff : (after t d).isSome = true ↔ (t + d) / 1000000000 < 2 ^ 63 := by
  rw [after]
  split
  next h => exact iff_of_true rfl h
  next h => exact iff_of_false Bool.false_ne_true h

end Checked
