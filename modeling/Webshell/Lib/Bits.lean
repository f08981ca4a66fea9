import Mathlib.Tactic

/-!
# Bit strings

Numbers as bit strings, most significant bit first, and a bit string cut into groups of one width.
A program that regroups bits keeps those not yet written in a number: `Held` says which they are,
whatever else the number has above them.

## Main definitions

- `Bits.ofNat`, `Bits.toNat`: the low bits of a number, and the number of a bit string
- `Bits.groups`, `Bits.rest`: the full groups of a bit string, and what is left after them
- `Bits.Held`: the low bits of an accumulator are the pending ones

## Main results

- `Bits.groups_append`: what is left of one part is grouped with the next
- `Bits.Held.push`, `Bits.Held.front`, `Bits.Held.pop`: bits come in behind and leave in front
-/

namespace Bits

/-- The `width` low bits of a number. -/
def ofNat : (width n : ℕ) → List Bool
  | 0, _ => []
  | width + 1, n => n.testBit width :: ofNat width n

def toNat (bits : List Bool) : ℕ := bits.foldl (fun n bit => 2 * n + bit.toNat) 0

/-- The full groups of `width` bits. -/
def groups (width : ℕ) (bits : List Bool) : List (List Bool) :=
  if 0 < width ∧ width ≤ bits.length then bits.take width :: groups width (bits.drop width) else []
termination_by bits.length
decreasing_by
  rw [List.length_drop]
  omega

/-- What is left after the full groups. -/
def rest (width : ℕ) (bits : List Bool) : List Bool :=
  if 0 < width ∧ width ≤ bits.length then rest width (bits.drop width) else bits
termination_by bits.length
decreasing_by
  rw [List.length_drop]
  omega

/-! ## Numbers -/

@[simp] theorem length_ofNat (width n : ℕ) : (ofNat width n).length = width := by
  induction width with
  | zero => rfl
  | succ width ih => rw [ofNat, List.length_cons, ih]

@[simp] theorem toNat_nil : toNat [] = 0 := rfl

theorem toNat_concat (bits : List Bool) (bit : Bool) :
    toNat (bits ++ [bit]) = 2 * toNat bits + bit.toNat := by
  rw [toNat, List.foldl_append]
  rfl

theorem toNat_append (a b : List Bool) : toNat (a ++ b) = toNat a * 2 ^ b.length + toNat b := by
  induction b using List.reverseRecOn with
  | nil => simp
  | append_singleton b bit ih =>
    rw [← List.append_assoc, toNat_concat, toNat_concat, ih, List.length_append,
      List.length_singleton, pow_succ]
    ring

theorem toNat_lt (bits : List Bool) : toNat bits < 2 ^ bits.length := by
  induction bits using List.reverseRecOn with
  | nil => exact Nat.one_pos
  | append_singleton bits bit ih =>
    have hbit : bit.toNat ≤ 1 := Bool.toNat_le bit
    rw [toNat_concat, List.length_append, List.length_singleton, pow_succ]
    omega

theorem toNat_cons (bit : Bool) (bits : List Bool) :
    toNat (bit :: bits) = bit.toNat * 2 ^ bits.length + toNat bits := by
  have hsplit := toNat_append [bit] bits
  simpa [toNat] using hsplit

@[simp] theorem toNat_ofNat (width n : ℕ) : toNat (ofNat width n) = n % 2 ^ width := by
  induction width with
  | zero => simp [ofNat, Nat.mod_one]
  | succ width ih =>
    have hbit : (n.testBit width).toNat = n / 2 ^ width % 2 := Nat.toNat_testBit n width
    rw [ofNat, toNat_cons, length_ofNat, ih, hbit, pow_succ, Nat.mod_mul]
    ring

theorem ofNat_zero (width : ℕ) : ofNat width 0 = List.replicate width false := by
  induction width with
  | zero => rfl
  | succ width ih => rw [ofNat, ih, Nat.zero_testBit, List.replicate_succ]

/-- A bit string is given by its length and its number. -/
theorem eq_of_toNat_eq {a b : List Bool} (hlength : a.length = b.length)
    (h : toNat a = toNat b) : a = b := by
  induction a generalizing b with
  | nil => exact (List.length_eq_zero_iff.mp hlength.symm).symm
  | cons bit a ih =>
    cases b with
    | nil => cases hlength
    | cons bit' b =>
      have hlen : a.length = b.length := Nat.succ_injective hlength
      rw [toNat_cons, toNat_cons, hlen] at h
      have ha : toNat a < 2 ^ b.length := hlen ▸ toNat_lt a
      have hb := toNat_lt b
      have hbits : bit = bit' := by
        cases bit <;> cases bit' <;> simp only [Bool.toNat_false, Bool.toNat_true] at h
        · rfl
        · omega
        · omega
        · rfl
      subst hbits
      rw [ih hlen (by omega)]

@[simp] theorem ofNat_toNat (bits : List Bool) : ofNat bits.length (toNat bits) = bits := by
  refine eq_of_toNat_eq (length_ofNat ..) ?_
  rw [toNat_ofNat, Nat.mod_eq_of_lt (toNat_lt bits)]

theorem toNat_take_drop (bits : List Bool) (k : ℕ) :
    toNat (bits.take k) = toNat bits / 2 ^ (bits.length - k) ∧
      toNat (bits.drop k) = toNat bits % 2 ^ (bits.length - k) := by
  have hlt := toNat_lt (bits.drop k)
  rw [List.length_drop] at hlt
  have hsplit : toNat bits =
      toNat (bits.take k) * 2 ^ (bits.length - k) + toNat (bits.drop k) := by
    rw [← List.length_drop, ← toNat_append, List.take_append_drop]
  rw [hsplit]
  refine ⟨?_, ?_⟩
  · rw [Nat.add_comm, Nat.add_mul_div_right _ _ (Nat.two_pow_pos _), Nat.div_eq_of_lt hlt,
      Nat.zero_add]
  · rw [Nat.mul_add_mod', Nat.mod_eq_of_lt hlt]

/-! ## Groups -/

variable {width : ℕ}

theorem groups_of_lt {bits : List Bool} (h : bits.length < width) :
    groups width bits = [] ∧ rest width bits = bits := by
  have hnot : ¬(0 < width ∧ width ≤ bits.length) := by omega
  rw [groups, rest, if_neg hnot, if_neg hnot]
  exact ⟨rfl, rfl⟩

theorem groups_of_le (hwidth : 0 < width) {bits : List Bool} (h : width ≤ bits.length) :
    groups width bits = bits.take width :: groups width (bits.drop width) ∧
      rest width bits = rest width (bits.drop width) := by
  have hif : 0 < width ∧ width ≤ bits.length := ⟨hwidth, h⟩
  refine ⟨?_, ?_⟩
  · rw [groups, if_pos hif]
  · rw [rest, if_pos hif]

/-- The first group, where more bits follow. -/
theorem groups_append_of_le (hwidth : 0 < width) {a : List Bool} (h : width ≤ a.length)
    (b : List Bool) : groups width (a ++ b) = a.take width :: groups width (a.drop width ++ b) ∧
      rest width (a ++ b) = rest width (a.drop width ++ b) := by
  have hle : width ≤ (a ++ b).length := by
    rw [List.length_append]
    omega
  rw [(groups_of_le hwidth hle).1, (groups_of_le hwidth hle).2, List.take_append_of_le_length h,
    List.drop_append_of_le_length h]
  exact ⟨rfl, rfl⟩

/-- A full group in front is the first one. -/
theorem groups_cons (hwidth : 0 < width) {group : List Bool} (hgroup : group.length = width)
    (bits : List Bool) : groups width (group ++ bits) = group :: groups width bits := by
  rw [(groups_append_of_le hwidth hgroup.ge bits).1, List.take_of_length_le hgroup.le,
    List.drop_of_length_le hgroup.le, List.nil_append]

/-- What is left of one part is grouped with the next. -/
theorem groups_append (hwidth : 0 < width) (a b : List Bool) :
    groups width (a ++ b) = groups width a ++ groups width (rest width a ++ b) ∧
      rest width (a ++ b) = rest width (rest width a ++ b) := by
  fun_induction groups width a with
  | case1 a hif ih =>
    rw [(groups_append_of_le hwidth hif.2 b).1, (groups_append_of_le hwidth hif.2 b).2,
      (groups_of_le hwidth hif.2).2, ih.1, List.cons_append]
    exact ⟨rfl, ih.2⟩
  | case2 a hif =>
    have hlt : a.length < width := by omega
    rw [(groups_of_lt hlt).2, List.nil_append]
    exact ⟨rfl, rfl⟩

theorem length_rest (hwidth : 0 < width) (bits : List Bool) :
    (rest width bits).length = bits.length % width := by
  fun_induction rest width bits with
  | case1 bits hif ih =>
    rw [ih, List.length_drop]
    exact (Nat.mod_eq_sub_mod hif.2).symm
  | case2 bits hif => exact (Nat.mod_eq_of_lt (by omega)).symm

theorem length_of_mem_groups {bits group : List Bool} (h : group ∈ groups width bits) :
    group.length = width := by
  fun_induction groups width bits with
  | case1 bits hif ih =>
    rcases List.mem_cons.mp h with rfl | hin
    · rw [List.length_take, Nat.min_eq_left hif.2]
    · exact ih hin
  | case2 => cases h

/-- The groups and what is left make up the bit string. -/
theorem flatten_groups (bits : List Bool) :
    (groups width bits).flatten ++ rest width bits = bits := by
  fun_induction groups width bits with
  | case1 bits hif ih =>
    rw [(groups_of_le hif.1 hif.2).2, List.flatten_cons, List.append_assoc, ih,
      List.take_append_drop]
  | case2 bits hif =>
    rw [rest, if_neg hif]
    rfl

/-- Full groups are cut off as they are. -/
theorem groups_flatten (hwidth : 0 < width) {gs : List (List Bool)}
    (hgs : ∀ g ∈ gs, g.length = width) (bits : List Bool) :
    groups width (gs.flatten ++ bits) = gs ++ groups width bits := by
  induction gs with
  | nil => rfl
  | cons g gs ih =>
    rw [List.flatten_cons, List.append_assoc, groups_cons hwidth (hgs g List.mem_cons_self),
      ih fun g' hg' => hgs g' (List.mem_cons_of_mem g hg'), List.cons_append]

/-! ## Accumulators -/

/-- The `count` low bits of an accumulator are the pending ones. -/
structure Held (acc count : ℕ) (pending : List Bool) : Prop where
  length : pending.length = count
  value : acc % 2 ^ count = toNat pending

namespace Held

variable {acc count : ℕ} {pending : List Bool}

/-- Bits come in behind the pending ones. What the accumulator loses above them does not matter. -/
theorem push (h : Held acc count pending) {k v acc' : ℕ} (hv : v < 2 ^ k)
    (hacc : acc' % 2 ^ (count + k) = (acc * 2 ^ k + v) % 2 ^ (count + k)) :
    Held acc' (count + k) (pending ++ ofNat k v) where
  length := by rw [List.length_append, length_ofNat, h.length]
  value := by
    have hlow : acc * 2 ^ k + v =
        (acc % 2 ^ count * 2 ^ k + v) + acc / 2 ^ count * 2 ^ (count + k) := by
      rw [pow_add]
      nth_rewrite 1 [← Nat.mod_add_div acc (2 ^ count)]
      ring
    have hlt : toNat pending * 2 ^ k + v < 2 ^ (count + k) := by
      have hp := toNat_lt pending
      rw [h.length] at hp
      rw [pow_add]
      nlinarith
    rw [hacc, hlow, Nat.add_mul_mod_self_right, h.value, Nat.mod_eq_of_lt hlt, toNat_append,
      length_ofNat, toNat_ofNat, Nat.mod_eq_of_lt hv]

/-- The first of the pending bits, as a number. -/
theorem front (h : Held acc count pending) {k : ℕ} (hk : k ≤ count) :
    acc / 2 ^ (count - k) % 2 ^ k = toNat (pending.take k) := by
  have hpow : 2 ^ count = 2 ^ (count - k) * 2 ^ k := by rw [← pow_add, Nat.sub_add_cancel hk]
  rw [(toNat_take_drop pending k).1, h.length, ← h.value, hpow,
    Nat.mod_mul_right_div_self]

/-- They leave, and the others stay where they are. -/
theorem pop (h : Held acc count pending) (k : ℕ) :
    Held acc (count - k) (pending.drop k) where
  length := by rw [List.length_drop, h.length]
  value := by
    rw [(toNat_take_drop pending k).2, h.length, ← h.value]
    exact (Nat.mod_mod_of_dvd acc (Nat.pow_dvd_pow 2 (Nat.sub_le count k))).symm

end Held

end Bits
