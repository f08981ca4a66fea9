import Mathlib.Data.Bool.AllAny
import Webshell.Auth.Totp
import Webshell.Lib.Bits

/-!
# Base32 secrets

How `encode_base32` and `decode_base32` regroup bits, from groups of eight to groups of five and
back, in a 32-bit accumulator whose high bits the one loop leaves to overflow and the other masks.

## Main definitions

- `encodeBase32`: the encoder (the decoder is `decodeBase32`)
- `Rfc4648.base32`: the encoding that the bits define, without padding
- `Unbounded.encodeBase32`, `Unbounded.decodeBase32`: the two loops on numbers of any size
- `Respelling`: filler put into a text, or the case of its ASCII letters changed

## Main results

- `encodeBase32_eq`, `decodeLoop_eq`: what the loops write, from any pending bits
- `base32_laws`: the round trip, the agreements, and which spellings decode alike
-/

namespace Webshell.Totp

/-- `B32[i] as char`, for an index below 32. -/
def b32Char (i : ℕ) : Char := Char.ofNat (b32.getD i 0).toNat

/-- The inner loop of `encodeBase32`, with the text written and the two accumulators. -/
def emitLoop (out : Text) (acc : UInt32) (bits : UInt8) : Text × UInt8 :=
  if h : 5 ≤ bits then
    emitLoop (out ++ [b32Char ((acc >>> (bits - 5).toUInt32) &&& 31).toNat]) acc (bits - 5)
  else (out, bits)
termination_by bits.toNat
decreasing_by
  have hle : 5 ≤ bits.toNat := UInt8.le_iff_toNat_le.mp h
  have hsub : (bits - 5).toNat = bits.toNat - 5 := UInt8.toNat_sub_of_le _ _ h
  omega

def encodeLoop : List UInt8 → Text → UInt32 → UInt8 → Text × UInt32 × UInt8
  | [], out, acc, bits => (out, acc, bits)
  | byte :: data, out, acc, bits =>
    let acc := (acc <<< 8) ||| byte.toUInt32
    let (out, bits) := emitLoop out acc (bits + 8)
    encodeLoop data out acc bits

def encodeBase32 (data : List UInt8) : Text :=
  let (out, acc, bits) := encodeLoop data [] 0 0
  if 0 < bits then out ++ [b32Char ((acc <<< (5 - bits).toUInt32) &&& 31).toNat] else out

/-! ## What they are compared with -/

namespace Rfc4648

/-- The alphabet: the letters, then the digits from 2 on. -/
def symbol (v : ℕ) : Char := Char.ofNat (if v < 26 then 0x41 + v else 0x32 + (v - 26))

def dataBits (data : List UInt8) : List Bool := data.flatMap fun byte => Bits.ofNat 8 byte.toNat

/-- The zeros that make the last group of five a full one. -/
def fill (bits : List Bool) : List Bool := List.replicate ((5 - bits.length % 5) % 5) false

/-- Groups of five bits, the last filled up with zeros, each a symbol; no padding follows. -/
def base32 (data : List UInt8) : Text :=
  (Bits.groups 5 (dataBits data ++ fill (dataBits data))).map fun group => symbol (Bits.toNat group)

end Rfc4648

namespace Unbounded

/-- The inner loop, with an accumulator that nothing is shifted out of. -/
def emitLoop (out : Text) (acc bits : ℕ) : Text × ℕ :=
  if 5 ≤ bits then emitLoop (out ++ [b32Char ((acc >>> (bits - 5)) &&& 31)]) acc (bits - 5)
  else (out, bits)
termination_by bits

def encodeLoop : List UInt8 → Text → ℕ → ℕ → Text × ℕ × ℕ
  | [], out, acc, bits => (out, acc, bits)
  | byte :: data, out, acc, bits =>
    let acc := (acc <<< 8) ||| byte.toNat
    let (out, bits) := emitLoop out acc (bits + 8)
    encodeLoop data out acc bits

def encodeBase32 (data : List UInt8) : Text :=
  let (out, acc, bits) := encodeLoop data [] 0 0
  if 0 < bits then out ++ [b32Char ((acc <<< (5 - bits)) &&& 31)] else out

/-- The loop of the decoder, where what is written is not narrowed to a byte. -/
def decodeLoop : List UInt8 → List ℕ → ℕ → ℕ → Option (List ℕ)
  | [], out, _, _ => some out
  | c :: cs, out, acc, bits => do
    let value ← b32.idxOf? (toAsciiUppercase c)
    let acc := (acc <<< 5) ||| value
    let bits := bits + 5
    if bits ≥ 8 then
      let bits := bits - 8
      decodeLoop cs (out ++ [acc >>> bits]) (acc &&& ((1 <<< bits) - 1)) bits
    else
      decodeLoop cs out acc bits

def decodeBase32 (text : Text) : Option (List ℕ) :=
  decodeLoop (text.bytes.filter fun b => !isAsciiWhitespace b && b != 0x3d) [] 0 0

end Unbounded

/-- ASCII whitespace, or the padding of Base32. -/
def isFiller (c : Char) : Bool := c ∈ [' ', '\t', '\n', '\x0c', '\r', '=']

/-- Filler is put in somewhere, or ASCII letters change their case. -/
inductive Respelling : Text → Text → Prop
  | insert (s t : Text) {c : Char} (h : isFiller c = true) : Respelling (s ++ t) (s ++ c :: t)
  | recase {s t : Text} (h : s.map Text.Ascii.toLower = t.map Text.Ascii.toLower) : Respelling s t

/-! ## The encoder -/

open Bits

theorem b32Char_eq {i : ℕ} (h : i < 32) : b32Char i = Rfc4648.symbol i := by
  have hall := List.all_iff_forall_prop.mp (by decide :
    (List.range 32).all fun i => decide (b32Char i = Rfc4648.symbol i))
  exact hall i (List.mem_range.mpr h)

theorem toNat_add_of_lt {a b : UInt8} (h : a.toNat + b.toNat < 2 ^ 8) :
    (a + b).toNat = a.toNat + b.toNat := by
  rw [UInt8.toNat_add, Nat.mod_eq_of_lt h]

theorem toNat_sub_toUInt32 {a b : UInt8} (h : b ≤ a) :
    (a - b).toUInt32.toNat = a.toNat - b.toNat := by
  rw [UInt8.toNat_toUInt32, UInt8.toNat_sub_of_le _ _ h]

/-- Bits shifted in from the right, in 32 bits. -/
theorem toNat_shiftIn (acc : UInt32) {v k : UInt32} (hk : k.toNat < 32)
    (hv : v.toNat < 2 ^ k.toNat) :
    ((acc <<< k) ||| v).toNat = (acc.toNat * 2 ^ k.toNat + v.toNat) % 2 ^ 32 := by
  have hfits : v.toNat % 2 ^ 32 = v.toNat := Nat.mod_eq_of_lt v.toNat_lt
  rw [UInt32.toNat_or, UInt32.toNat_shiftLeft, Nat.mod_eq_of_lt hk]
  nth_rewrite 1 [← hfits]
  rw [← Nat.or_mod_two_pow, ← Nat.shiftLeft_add_eq_or_of_lt hv, Nat.shiftLeft_eq]

/-- The bits shifted in stand behind the pending ones, if there is room for all of them. -/
theorem held_shiftIn {acc v : UInt32} {bits k : UInt8} {pending : List Bool}
    (h : Held acc.toNat bits.toNat pending) (hk : k.toNat < 32) (hv : v.toNat < 2 ^ k.toNat)
    (hroom : bits.toNat + k.toNat ≤ 32) :
    Held ((acc <<< k.toUInt32) ||| v).toNat (bits + k).toNat
      (pending ++ ofNat k.toNat v.toNat) := by
  have hshift : k.toUInt32.toNat = k.toNat := UInt8.toNat_toUInt32 k
  rw [toNat_add_of_lt (by omega)]
  refine h.push hv ?_
  rw [toNat_shiftIn acc (hshift ▸ hk) (hshift ▸ hv), hshift]
  exact Nat.mod_mod_of_dvd _ (Nat.pow_dvd_pow 2 hroom)

/-- The low bits of what is shifted right. -/
theorem toNat_shiftOut (acc : UInt32) {k : UInt32} (hk : k.toNat < 32) :
    ((acc >>> k) &&& 31).toNat = acc.toNat / 2 ^ k.toNat % 2 ^ 5 := by
  rw [UInt32.toNat_and, UInt32.toNat_shiftRight, Nat.mod_eq_of_lt hk, Nat.shiftRight_eq_div_pow]
  exact Nat.and_two_pow_sub_one_eq_mod _ 5

/-- The characters of full groups. -/
def symbols (gs : List (List Bool)) : Text := gs.map fun group => b32Char (toNat group)

theorem symbols_cons (group : List Bool) (gs : List (List Bool)) :
    symbols (group :: gs) = b32Char (toNat group) :: symbols gs := rfl

theorem symbols_append (a b : List (List Bool)) : symbols (a ++ b) = symbols a ++ symbols b :=
  List.map_append

/-- The inner loop writes the full groups of the pending bits, and leaves the others. -/
theorem emitLoop_eq (out : Text) (acc : UInt32) (bits : UInt8) {pending : List Bool}
    (h : Held acc.toNat bits.toNat pending) (hbits : bits.toNat < 32) :
    ∃ bits', emitLoop out acc bits = (out ++ symbols (groups 5 pending), bits') ∧
      Held acc.toNat bits'.toNat (rest 5 pending) := by
  fun_induction emitLoop out acc bits generalizing pending with
  | case1 out bits hle ih =>
    have hfive : 5 ≤ bits.toNat := UInt8.le_iff_toNat_le.mp hle
    have hsub : (bits - 5).toNat = bits.toNat - 5 := UInt8.toNat_sub_of_le _ _ hle
    have hshift : (bits - 5).toUInt32.toNat = bits.toNat - 5 := toNat_sub_toUInt32 hle
    have hfull : 5 ≤ pending.length := h.length ▸ hfive
    have hchar : ((acc >>> (bits - 5).toUInt32) &&& 31).toNat = toNat (pending.take 5) := by
      rw [toNat_shiftOut acc (by omega), hshift]
      exact h.front hfive
    obtain ⟨bits', heq, hheld⟩ := ih (hsub ▸ h.pop 5) (by omega)
    obtain ⟨hgroups, hrest⟩ := groups_of_le (by decide : 0 < 5) hfull
    refine ⟨bits', ?_, hrest ▸ hheld⟩
    rw [heq, hchar, hgroups, symbols_cons, List.append_assoc]
    rfl
  | case2 out bits hle =>
    have hlt : bits.toNat < 5 := UInt8.lt_iff_toNat_lt.mp (UInt8.not_le.mp hle)
    obtain ⟨hgroups, hrest⟩ := groups_of_lt (h.length ▸ hlt : pending.length < 5)
    refine ⟨bits, ?_, hrest.symm ▸ h⟩
    rw [hgroups]
    exact congrArg (·, bits) (List.append_nil out).symm

theorem length_rest_lt (bits : List Bool) : (rest 5 bits).length < 5 := by
  rw [length_rest (by decide)]
  exact Nat.mod_lt _ (by decide)

/-- The loop writes the full groups of the pending bits and the data. -/
theorem encodeLoop_eq (data : List UInt8) (out : Text) (acc : UInt32) (bits : UInt8)
    {pending : List Bool} (h : Held acc.toNat bits.toNat pending) (hlt : pending.length < 5) :
    ∃ acc' bits', encodeLoop data out acc bits =
        (out ++ symbols (groups 5 (pending ++ Rfc4648.dataBits data)), acc', bits') ∧
      Held acc'.toNat bits'.toNat (rest 5 (pending ++ Rfc4648.dataBits data)) := by
  induction data generalizing out acc bits pending with
  | nil =>
    obtain ⟨hgroups, hrest⟩ := groups_of_lt hlt
    refine ⟨acc, bits, ?_, ?_⟩
    · rw [Rfc4648.dataBits, List.flatMap_nil, List.append_nil, hgroups]
      exact congrArg (·, acc, bits) (List.append_nil out).symm
    · rw [Rfc4648.dataBits, List.flatMap_nil, List.append_nil, hrest]
      exact h
  | cons byte data ih =>
    have hcount := h.length
    -- no more than twelve bits are pending, and the accumulator has 32
    have hheld : Held ((acc <<< 8) ||| byte.toUInt32).toNat (bits + 8).toNat
        (pending ++ ofNat 8 byte.toNat) :=
      held_shiftIn (k := 8) h (by decide) byte.toNat_lt (by
        change bits.toNat + 8 ≤ 32
        omega)
    obtain ⟨left, hemit, hleft⟩ := emitLoop_eq out _ _ hheld (by
      rw [← hheld.length, List.length_append, length_ofNat]
      omega)
    obtain ⟨hgroups, hrest⟩ := groups_append (by decide : 0 < 5)
      (pending ++ ofNat 8 byte.toNat) (Rfc4648.dataBits data)
    obtain ⟨acc', bits', heq, hend⟩ := ih (out ++ symbols (groups 5 (pending ++
      ofNat 8 byte.toNat))) _ left hleft (length_rest_lt _)
    have hdata : pending ++ Rfc4648.dataBits (byte :: data) =
        pending ++ ofNat 8 byte.toNat ++ Rfc4648.dataBits data := by
      rw [Rfc4648.dataBits, List.flatMap_cons, List.append_assoc]
      rfl
    refine ⟨acc', bits', ?_, ?_⟩
    · rw [encodeLoop, hemit, hdata, hgroups, symbols_append, ← List.append_assoc]
      exact heq
    · rw [hdata, hrest]
      exact hend

theorem Rfc4648.base32_eq_symbols (data : List UInt8) : Rfc4648.base32 data =
    symbols (groups 5 (Rfc4648.dataBits data ++ Rfc4648.fill (Rfc4648.dataBits data))) := by
  refine List.map_congr_left fun group hgroup => (b32Char_eq ?_).symm
  have hlt := toNat_lt group
  rwa [length_of_mem_groups hgroup] at hlt

/-- The full groups, and what is left filled up to one. -/
theorem Rfc4648.base32_eq (data : List UInt8) :
    Rfc4648.base32 data = symbols (groups 5 (Rfc4648.dataBits data)) ++
      if 0 < (rest 5 (Rfc4648.dataBits data)).length then
        symbols [rest 5 (Rfc4648.dataBits data) ++
          ofNat (5 - (rest 5 (Rfc4648.dataBits data)).length) 0]
      else [] := by
  rw [Rfc4648.base32_eq_symbols, (groups_append (by decide) _ _).1, symbols_append]
  generalize Rfc4648.dataBits data = bits
  have hlength := length_rest (by decide : 0 < 5) bits
  congr 1
  by_cases hleft : 0 < (rest 5 bits).length
  · have hfill : Rfc4648.fill bits = ofNat (5 - (rest 5 bits).length) 0 := by
      rw [ofNat_zero, Rfc4648.fill, ← hlength]
      have hlt := length_rest_lt bits
      rw [Nat.mod_eq_of_lt (by omega)]
    have hfull : (rest 5 bits ++ ofNat (5 - (rest 5 bits).length) 0).length = 5 := by
      have hlt := length_rest_lt bits
      rw [List.length_append, length_ofNat]
      omega
    rw [if_pos hleft, hfill]
    have hone := groups_cons (by decide) hfull []
    rw [List.append_nil, (groups_of_lt (by decide : ([] : List Bool).length < 5)).1] at hone
    rw [hone]
  · have hfill : Rfc4648.fill bits = [] := by
      rw [Rfc4648.fill, ← hlength]
      have hzero : (rest 5 bits).length = 0 := by omega
      rw [hzero]
      rfl
    rw [if_neg hleft, hfill, List.append_nil]
    exact congrArg symbols (groups_of_lt (length_rest_lt bits)).1

/-- The pending bits, shifted to the top of a group. -/
theorem toNat_filled {acc bits : ℕ} {pending : List Bool} (h : Held acc bits pending)
    (hlt : pending.length < 5) :
    acc <<< (5 - bits) % 2 ^ 5 = toNat (pending ++ ofNat (5 - bits) 0) := by
  have hcount := h.length
  have hfive : bits + (5 - bits) = 5 := by omega
  have hshift : acc <<< (5 - bits) % 2 ^ (bits + (5 - bits)) =
      (acc * 2 ^ (5 - bits) + 0) % 2 ^ (bits + (5 - bits)) := by
    rw [Nat.shiftLeft_eq, Nat.add_zero]
  have hheld := h.push (Nat.two_pow_pos (5 - bits)) hshift
  rw [hfive] at hheld
  exact hheld.value

/-- The encoder is the encoding that the bits define. -/
theorem encodeBase32_eq (data : List UInt8) : encodeBase32 data = Rfc4648.base32 data := by
  have hempty : Held (0 : UInt32).toNat (0 : UInt8).toNat [] := ⟨rfl, rfl⟩
  obtain ⟨acc, bits, heq, hheld⟩ := encodeLoop_eq data [] 0 0 hempty (by decide)
  rw [List.nil_append] at heq hheld
  have hlt := length_rest_lt (Rfc4648.dataBits data)
  have hcount := hheld.length
  rw [encodeBase32, heq, Rfc4648.base32_eq, hcount]
  by_cases hleft : 0 < bits
  · have hpos : 0 < bits.toNat := UInt8.lt_iff_toNat_lt.mp hleft
    have hle : bits ≤ 5 := UInt8.le_iff_toNat_le.mpr (by
      change bits.toNat ≤ 5
      omega)
    have hsub : (5 - bits).toUInt32.toNat = 5 - bits.toNat := toNat_sub_toUInt32 hle
    have hlast : ((acc <<< (5 - bits).toUInt32) &&& 31).toNat =
        toNat (rest 5 (Rfc4648.dataBits data) ++ ofNat (5 - bits.toNat) 0) := by
      rw [← toNat_filled hheld hlt, UInt32.toNat_and, UInt32.toNat_shiftLeft, hsub,
        Nat.mod_eq_of_lt (by omega : 5 - bits.toNat < 32)]
      exact (Nat.and_two_pow_sub_one_eq_mod _ 5).trans
        (Nat.mod_mod_of_dvd _ (Nat.pow_dvd_pow 2 (by decide)))
    rw [if_pos hpos]
    simp only [hleft, if_true, hlast]
    rfl
  · have hzero : ¬0 < bits.toNat := fun hpos => hleft (UInt8.lt_iff_toNat_lt.mpr hpos)
    rw [if_neg hzero, List.append_nil]
    exact if_neg hleft

/-! ## The decoder -/

/-- The five bits of every character, if each of them has some. -/
def values (cs : List UInt8) : Option (List ℕ) :=
  cs.mapM fun c => b32.idxOf? (toAsciiUppercase c)

theorem lt_of_idxOf {b : UInt8} {v : ℕ} (h : b32.idxOf? b = some v) : v < 32 := by
  obtain ⟨hlt, _⟩ := List.idxOf?_eq_some_iff.mp h
  exact hlt

theorem values_cons (c : UInt8) (cs : List UInt8) : values (c :: cs) =
    (b32.idxOf? (toAsciiUppercase c)).bind fun v => (values cs).map fun vs => v :: vs := by
  rw [values, List.mapM_cons, values]
  cases b32.idxOf? (toAsciiUppercase c) with
  | none => rfl
  | some v => cases cs.mapM fun c => b32.idxOf? (toAsciiUppercase c) <;> rfl

def valueBits (vs : List ℕ) : List Bool := vs.flatMap (ofNat 5)

def bytesOf (gs : List (List Bool)) : List UInt8 := gs.map fun group => UInt8.ofNat (toNat group)

/-- The low bits that the mask keeps. -/
theorem toNat_masked (acc : UInt32) {k : UInt32} (hk : k.toNat < 32) :
    (acc &&& ((1 <<< k) - 1)).toNat = acc.toNat % 2 ^ k.toNat := by
  have hpow : (1 <<< k : UInt32).toNat = 2 ^ k.toNat := by
    rw [UInt32.toNat_shiftLeft, Nat.mod_eq_of_lt hk, Nat.shiftLeft_eq]
    exact (Nat.mod_eq_of_lt (by
      rw [UInt32.toNat_one, Nat.one_mul]
      exact Nat.pow_lt_pow_right (by decide) hk)).trans (by rw [UInt32.toNat_one, Nat.one_mul])
  have hone : (1 : UInt32) ≤ 1 <<< k := UInt32.le_iff_toNat_le.mpr (by
    rw [hpow]
    exact Nat.one_le_two_pow)
  rw [UInt32.toNat_and, UInt32.toNat_sub_of_le _ _ hone, hpow, UInt32.toNat_one,
    Nat.and_two_pow_sub_one_eq_mod]

/-- A full byte is written, and the mask leaves the bits that stand below it. -/
theorem held_byte {acc : UInt32} {bits : UInt8} {pending : List Bool}
    (h : Held acc.toNat bits.toNat pending) (hfull : 8 ≤ bits) (hroom : bits.toNat ≤ 32) :
    (acc >>> (bits - 8).toUInt32).toUInt8 = UInt8.ofNat (toNat (pending.take 8)) ∧
      Held (acc &&& ((1 <<< (bits - 8).toUInt32) - 1)).toNat (bits - 8).toNat
        (pending.drop 8) := by
  have height : 8 ≤ bits.toNat := UInt8.le_iff_toNat_le.mp hfull
  have hsub : (bits - 8).toNat = bits.toNat - 8 := UInt8.toNat_sub_of_le _ _ hfull
  have hshift : (bits - 8).toUInt32.toNat = bits.toNat - 8 := toNat_sub_toUInt32 hfull
  refine ⟨?_, ?_⟩
  · rw [← h.front height]
    refine UInt8.toNat_inj.mp ?_
    rw [UInt32.toNat_toUInt8, UInt32.toNat_shiftRight, hshift,
      Nat.mod_eq_of_lt (by omega : bits.toNat - 8 < 32), Nat.shiftRight_eq_div_pow,
      UInt8.toNat_ofNat', Nat.mod_mod]
  · have hpop := h.pop 8
    rw [hsub]
    refine ⟨hpop.length, ?_⟩
    rw [toNat_masked _ (by omega), hshift, Nat.mod_mod]
    exact hpop.value

/-- The loop writes the full bytes of the pending bits and the characters. -/
theorem decodeLoop_eq (cs out : List UInt8) (acc : UInt32) (bits : UInt8) {pending : List Bool}
    (h : Held acc.toNat bits.toNat pending) (hlt : pending.length < 8) :
    decodeLoop cs out acc bits = (values cs).map fun vs =>
      out ++ bytesOf (groups 8 (pending ++ valueBits vs)) := by
  induction cs generalizing out acc bits pending with
  | nil =>
    change some out = some (out ++ bytesOf (groups 8 (pending ++ [])))
    rw [List.append_nil, (groups_of_lt hlt).1]
    exact congrArg some (List.append_nil out).symm
  | cons c cs ih =>
    rw [decodeLoop, values_cons]
    cases hvalue : b32.idxOf? (toAsciiUppercase c) with
    | none => rfl
    | some v =>
      have hv := lt_of_idxOf hvalue
      have hcount := h.length
      have hword : v.toUInt32.toNat = v := Nat.mod_eq_of_lt (by omega)
      have hheld : Held ((acc <<< 5) ||| v.toUInt32).toNat (bits + 5).toNat
          (pending ++ ofNat 5 v) := by
        have hin := held_shiftIn (k := 5) h (by decide) (hword.symm ▸ hv) (by
          change bits.toNat + 5 ≤ 32
          omega)
        rw [hword] at hin
        exact hin
      have hvalues : ∀ vs, pending ++ valueBits (v :: vs) =
          pending ++ ofNat 5 v ++ valueBits vs := by
        intro vs
        rw [valueBits, List.flatMap_cons, List.append_assoc]
        rfl
      simp only [Option.bind_eq_bind, Option.bind_some, Option.map_map, Function.comp_def, hvalues]
      split
      · next hfull =>
        have hlength := hheld.length
        rw [List.length_append, length_ofNat] at hlength
        obtain ⟨hbyte, hkept⟩ := held_byte hheld hfull (by omega)
        have hlen : 8 ≤ (pending ++ ofNat 5 v).length :=
          hheld.length ▸ UInt8.le_iff_toNat_le.mp hfull
        have hless : ((pending ++ ofNat 5 v).drop 8).length < 8 := by
          rw [List.length_drop, List.length_append, length_ofNat]
          omega
        rw [ih _ _ _ hkept hless, hbyte]
        congr 1
        funext vs
        rw [(groups_append_of_le (by decide) hlen (valueBits vs)).1, List.append_assoc]
        rfl
      · next hfew =>
        have hless : (pending ++ ofNat 5 v).length < 8 := by
          rw [hheld.length]
          exact UInt8.lt_iff_toNat_lt.mp (UInt8.not_le.mp hfew)
        exact ih out _ _ hheld hless

/-! ## Nothing that is needed is lost -/

theorem shiftIn_unbounded {n : ℕ} {acc v k : UInt32} (hacc : acc.toNat = n % 2 ^ 32)
    (hk : k.toNat < 32) (hv : v.toNat < 2 ^ k.toNat) :
    ((acc <<< k) ||| v).toNat = (n <<< k.toNat ||| v.toNat) % 2 ^ 32 := by
  rw [toNat_shiftIn acc hk hv, hacc, ← Nat.shiftLeft_add_eq_or_of_lt hv, Nat.shiftLeft_eq,
    Nat.add_mod, Nat.mod_mul_mod, ← Nat.add_mod]

/-- The inner loop does not look above the bits that the accumulator has. -/
theorem emitLoop_unbounded (out : Text) (acc : UInt32) (bits : UInt8) {n : ℕ}
    (h : acc.toNat = n % 2 ^ 32) (hbits : bits.toNat < 32) :
    Unbounded.emitLoop out n bits.toNat =
        ((emitLoop out acc bits).1, (emitLoop out acc bits).2.toNat) ∧
      (emitLoop out acc bits).2.toNat < 5 := by
  fun_induction emitLoop out acc bits with
  | case1 out bits hle ih =>
    have hfive : 5 ≤ bits.toNat := UInt8.le_iff_toNat_le.mp hle
    have hsub : (bits - 5).toNat = bits.toNat - 5 := UInt8.toNat_sub_of_le _ _ hle
    have hshift : (bits - 5).toUInt32.toNat = bits.toNat - 5 := toNat_sub_toUInt32 hle
    have hsplit : 2 ^ 32 = 2 ^ (bits.toNat - 5) * 2 ^ (32 - (bits.toNat - 5)) := by
      rw [← pow_add, Nat.add_sub_cancel' (by omega)]
    have hchar : ((acc >>> (bits - 5).toUInt32) &&& 31).toNat = n >>> (bits.toNat - 5) &&& 31 := by
      rw [toNat_shiftOut acc (by omega), hshift, h, hsplit, Nat.mod_mul_right_div_self,
        Nat.mod_mod_of_dvd _ (Nat.pow_dvd_pow 2 (by omega)), Nat.shiftRight_eq_div_pow]
      exact (Nat.and_two_pow_sub_one_eq_mod _ 5).symm
    rw [Unbounded.emitLoop, if_pos hfive, ← hchar, ← hsub]
    exact ih (by omega)
  | case2 out bits hle =>
    have hlt : bits.toNat < 5 := UInt8.lt_iff_toNat_lt.mp (UInt8.not_le.mp hle)
    rw [Unbounded.emitLoop, if_neg (by omega)]
    exact ⟨rfl, hlt⟩

theorem encodeLoop_unbounded (data : List UInt8) (out : Text) (acc : UInt32) (bits : UInt8) {n : ℕ}
    (h : acc.toNat = n % 2 ^ 32) (hbits : bits.toNat < 5) :
    ∃ out' acc' bits' n', encodeLoop data out acc bits = (out', acc', bits') ∧
      Unbounded.encodeLoop data out n bits.toNat = (out', n', bits'.toNat) ∧
      acc'.toNat = n' % 2 ^ 32 ∧ bits'.toNat < 5 := by
  induction data generalizing out acc bits n with
  | nil => exact ⟨out, acc, bits, n, rfl, rfl, h, hbits⟩
  | cons byte data ih =>
    have hadd : (bits + 8).toNat = bits.toNat + 8 := toNat_add_of_lt (by
      change bits.toNat + 8 < 256
      omega)
    have hbyte : byte.toUInt32.toNat < 2 ^ (8 : UInt32).toNat := byte.toNat_lt
    have hin := shiftIn_unbounded h (by decide : (8 : UInt32).toNat < 32) hbyte
    obtain ⟨hemit, hlt⟩ := emitLoop_unbounded out _ (bits + 8) hin (by omega)
    obtain ⟨out', acc', bits', n', heq, hunbounded, hend⟩ := ih _ _ _ hin hlt
    refine ⟨out', acc', bits', n', heq, ?_, hend⟩
    rw [Unbounded.encodeLoop, ← hadd]
    change Unbounded.emitLoop out (n <<< 8 ||| byte.toNat) (bits + 8).toNat = _ at hemit
    simp only [hemit]
    exact hunbounded

theorem encodeBase32_unbounded (data : List UInt8) :
    encodeBase32 data = Unbounded.encodeBase32 data := by
  have hzero : (0 : UInt32).toNat = 0 % 2 ^ 32 := rfl
  obtain ⟨out, acc, bits, n, heq, hunbounded, hacc, hlt⟩ :=
    encodeLoop_unbounded data [] 0 0 hzero (by decide)
  change Unbounded.encodeLoop data [] 0 0 = _ at hunbounded
  rw [encodeBase32, Unbounded.encodeBase32, heq, hunbounded]
  have hle : bits ≤ 5 := UInt8.le_iff_toNat_le.mpr (by
    change bits.toNat ≤ 5
    omega)
  have hsub : (5 - bits).toUInt32.toNat = 5 - bits.toNat := toNat_sub_toUInt32 hle
  have hlast : ((acc <<< (5 - bits).toUInt32) &&& 31).toNat = n <<< (5 - bits.toNat) &&& 31 := by
    rw [UInt32.toNat_and, UInt32.toNat_shiftLeft, hsub, hacc,
      Nat.mod_eq_of_lt (by omega : 5 - bits.toNat < 32)]
    refine (Nat.and_two_pow_sub_one_eq_mod _ 5).trans
      (Eq.trans ?_ (Nat.and_two_pow_sub_one_eq_mod _ 5).symm)
    rw [Nat.mod_mod_of_dvd _ (Nat.pow_dvd_pow 2 (by decide)), Nat.shiftLeft_eq, Nat.shiftLeft_eq,
      Nat.mul_mod, Nat.mod_mod_of_dvd _ (Nat.pow_dvd_pow 2 (by decide)), ← Nat.mul_mod]
  have hpos : 0 < bits ↔ 0 < bits.toNat := UInt8.lt_iff_toNat_lt
  simp only [hpos, hlast]

/-- Five bits shifted in where nothing is shifted out. -/
theorem shiftIn_exact {acc : UInt32} {bits v : ℕ} (hacc : acc.toNat < 2 ^ bits) (hv : v < 2 ^ 5)
    (hroom : bits + 5 ≤ 32) :
    ((acc <<< 5) ||| v.toUInt32).toNat = acc.toNat <<< 5 ||| v ∧
      acc.toNat <<< 5 ||| v < 2 ^ (bits + 5) := by
  have hword : v.toUInt32.toNat = v := Nat.mod_eq_of_lt (by omega)
  have hlt : acc.toNat * 2 ^ 5 + v < 2 ^ (bits + 5) := by
    rw [pow_add]
    omega
  have hfits : 2 ^ (bits + 5) ≤ 2 ^ 32 := Nat.pow_le_pow_right (by decide) hroom
  have hin := toNat_shiftIn acc (by decide : (5 : UInt32).toNat < 32)
    (by rw [hword]; exact hv : v.toUInt32.toNat < 2 ^ (5 : UInt32).toNat)
  rw [← Nat.shiftLeft_add_eq_or_of_lt hv, Nat.shiftLeft_eq]
  refine ⟨?_, hlt⟩
  rw [hin, hword]
  exact Nat.mod_eq_of_lt (hlt.trans_le hfits)

/-- The byte that is written has no more than eight bits, and the mask keeps the others. -/
theorem byte_exact {acc : UInt32} {bits : UInt8} (hacc : acc.toNat < 2 ^ bits.toNat)
    (hfull : 8 ≤ bits) (hroom : bits.toNat ≤ 32) :
    (acc >>> (bits - 8).toUInt32).toUInt8.toNat = acc.toNat >>> (bits.toNat - 8) ∧
      (acc &&& ((1 <<< (bits - 8).toUInt32) - 1)).toNat =
        acc.toNat &&& ((1 <<< (bits.toNat - 8)) - 1) ∧
      (acc &&& ((1 <<< (bits - 8).toUInt32) - 1)).toNat < 2 ^ (bits - 8).toNat := by
  have height : 8 ≤ bits.toNat := UInt8.le_iff_toNat_le.mp hfull
  have hsub : (bits - 8).toNat = bits.toNat - 8 := UInt8.toNat_sub_of_le _ _ hfull
  have hshift : (bits - 8).toUInt32.toNat = bits.toNat - 8 := toNat_sub_toUInt32 hfull
  refine ⟨?_, ?_, ?_⟩
  · rw [UInt32.toNat_toUInt8, UInt32.toNat_shiftRight, hshift,
      Nat.mod_eq_of_lt (by omega : bits.toNat - 8 < 32), Nat.shiftRight_eq_div_pow]
    refine Nat.mod_eq_of_lt (Nat.div_lt_of_lt_mul ?_)
    rw [← pow_add, Nat.sub_add_cancel height]
    exact hacc
  · rw [toNat_masked _ (by omega), hshift, Nat.shiftLeft_eq, Nat.one_mul,
      Nat.and_two_pow_sub_one_eq_mod]
  · rw [toNat_masked _ (by omega), hshift, hsub]
    exact Nat.mod_lt _ (Nat.two_pow_pos _)

/-- The decoder's accumulator holds nothing but the pending bits, so that no byte is cut short. -/
theorem decodeLoop_unbounded (cs out : List UInt8) (acc : UInt32) (bits : UInt8)
    (hacc : acc.toNat < 2 ^ bits.toNat) (hbits : bits.toNat < 8) :
    (decodeLoop cs out acc bits).map (List.map UInt8.toNat) =
      Unbounded.decodeLoop cs (out.map UInt8.toNat) acc.toNat bits.toNat := by
  induction cs generalizing out acc bits with
  | nil => rfl
  | cons c cs ih =>
    rw [decodeLoop, Unbounded.decodeLoop]
    cases hvalue : b32.idxOf? (toAsciiUppercase c) with
    | none => rfl
    | some v =>
      have hadd : (bits + 5).toNat = bits.toNat + 5 := toNat_add_of_lt (by
        change bits.toNat + 5 < 256
        omega)
      obtain ⟨hin, hpending⟩ := shiftIn_exact hacc (lt_of_idxOf hvalue) (by omega)
      rw [← hin, ← hadd] at hpending
      simp only [Option.bind_eq_bind, Option.bind_some]
      rw [← hin, ← hadd]
      by_cases hfull : bits + 5 ≥ 8
      · have height : (bits + 5).toNat ≥ 8 := UInt8.le_iff_toNat_le.mp hfull
        have hsub : (bits + 5 - 8).toNat = (bits + 5).toNat - 8 := UInt8.toNat_sub_of_le _ _ hfull
        obtain ⟨hbyte, hmask, hkept⟩ := byte_exact hpending hfull (by omega)
        rw [if_pos hfull, if_pos height, ih _ _ _ hkept (by omega), hmask, hsub, List.map_append,
          List.map_singleton, hbyte]
      · have hfew : ¬(bits + 5).toNat ≥ 8 := fun hle => hfull (UInt8.le_iff_toNat_le.mpr hle)
        rw [if_neg hfull, if_neg hfew]
        exact ih _ _ _ hpending (by omega)

theorem decodeBase32_unbounded (text : Text) :
    (decodeBase32 text).map (List.map UInt8.toNat) = Unbounded.decodeBase32 text :=
  decodeLoop_unbounded _ [] 0 0 (by decide) (by decide)

/-! ## The round trip -/

/-- The bytes that the loop of the decoder gets to see. -/
def letters (text : Text) : List UInt8 :=
  text.bytes.filter fun b => !isAsciiWhitespace b && b != 0x3d

theorem decodeBase32_eq (text : Text) : decodeBase32 text =
    (values (letters text)).map fun vs => bytesOf (groups 8 (valueBits vs)) := by
  have hempty : Held (0 : UInt32).toNat (0 : UInt8).toNat [] := ⟨rfl, rfl⟩
  exact decodeLoop_eq (letters text) [] 0 0 hempty (by decide)

theorem letters_append (s t : Text) : letters (s ++ t) = letters s ++ letters t := by
  rw [letters, Text.bytes, List.flatMap_append, List.filter_append]
  rfl

/-- A character of the alphabet is one byte, and stands for its own place. -/
theorem letters_b32Char {v : ℕ} (h : v < 32) :
    ∃ b, letters [b32Char v] = [b] ∧ b32.idxOf? (toAsciiUppercase b) = some v := by
  have hall := List.all_iff_forall_prop.mp (by decide : (List.range 32).all fun v =>
    decide (letters [b32Char v] = [b32.getD v 0] ∧
      b32.idxOf? (toAsciiUppercase (b32.getD v 0)) = some v))
  exact ⟨b32.getD v 0, hall v (List.mem_range.mpr h)⟩

theorem values_symbols {gs : List (List Bool)} (h : ∀ g ∈ gs, g.length = 5) :
    values (letters (symbols gs)) = some (gs.map toNat) := by
  induction gs with
  | nil => rfl
  | cons g gs ih =>
    have hlt := toNat_lt g
    rw [h g List.mem_cons_self] at hlt
    obtain ⟨b, hb, hvalue⟩ := letters_b32Char hlt
    have hsplit : letters (symbols (g :: gs)) = b :: letters (symbols gs) := by
      rw [symbols_cons, ← List.singleton_append, letters_append, hb, List.singleton_append]
    rw [hsplit, values_cons, hvalue, ih fun g' hg' => h g' (List.mem_cons_of_mem g hg')]
    rfl

theorem valueBits_toNat {gs : List (List Bool)} (h : ∀ g ∈ gs, g.length = 5) :
    valueBits (gs.map toNat) = gs.flatten := by
  rw [valueBits, List.flatMap_map, ← List.flatMap_id]
  refine List.flatMap_congr fun g hg => ?_
  rw [← h g hg]
  exact ofNat_toNat g

theorem bytesOf_dataBits (data : List UInt8) :
    bytesOf (data.map fun byte => ofNat 8 byte.toNat) = data := by
  rw [bytesOf, List.map_map]
  refine (List.map_congr_left fun byte _ => ?_).trans (List.map_id data)
  change UInt8.ofNat (toNat (ofNat 8 byte.toNat)) = byte
  rw [toNat_ofNat, Nat.mod_eq_of_lt byte.toNat_lt, UInt8.ofNat_toNat]

theorem decodeBase32_encodeBase32 (data : List UInt8) :
    decodeBase32 (encodeBase32 data) = some data := by
  have hfives : ∀ g ∈ groups 5 (Rfc4648.dataBits data ++ Rfc4648.fill (Rfc4648.dataBits data)),
      g.length = 5 := fun g hg => length_of_mem_groups hg
  have hfill : (Rfc4648.fill (Rfc4648.dataBits data)).length < 5 := by
    rw [Rfc4648.fill, List.length_replicate]
    exact Nat.mod_lt _ (by decide)
  -- the filled bits are full groups of five
  have hrest : rest 5 (Rfc4648.dataBits data ++ Rfc4648.fill (Rfc4648.dataBits data)) = [] := by
    rw [← List.length_eq_zero_iff, length_rest (by decide), List.length_append, Rfc4648.fill,
      List.length_replicate]
    omega
  have hflatten := hrest ▸
    flatten_groups (Rfc4648.dataBits data ++ Rfc4648.fill (Rfc4648.dataBits data))
  rw [List.append_nil] at hflatten
  have height : ∀ g ∈ data.map fun byte => ofNat 8 byte.toNat, g.length = 8 := by
    intro g hg
    obtain ⟨byte, _, rfl⟩ := List.mem_map.mp hg
    exact length_ofNat ..
  rw [decodeBase32_eq, encodeBase32_eq, Rfc4648.base32_eq_symbols, values_symbols hfives,
    Option.map_some, valueBits_toNat hfives, hflatten, Rfc4648.dataBits, List.flatMap_def,
    groups_flatten (by decide) height, ← List.flatMap_def]
  change some (bytesOf (_ ++ groups 8 (Rfc4648.fill (Rfc4648.dataBits data)))) = _
  rw [(groups_of_lt (by omega)).1, List.append_nil, bytesOf_dataBits]

/-! ## Other spellings -/

theorem isFiller_toAsciiUppercase (b : UInt8) :
    (!isAsciiWhitespace (toAsciiUppercase b) && toAsciiUppercase b != 0x3d) =
      (!isAsciiWhitespace b && b != 0x3d) := by
  by_cases hb : 0x61 ≤ b ∧ b ≤ 0x7a
  · have hall := List.all_iff_forall_prop.mp (by decide : (List.range 26).all fun n =>
      decide ((!isAsciiWhitespace (toAsciiUppercase (UInt8.ofNat (0x61 + n))) &&
          toAsciiUppercase (UInt8.ofNat (0x61 + n)) != 0x3d) =
        (!isAsciiWhitespace (UInt8.ofNat (0x61 + n)) && UInt8.ofNat (0x61 + n) != 0x3d)))
    have hlow : 0x61 ≤ b.toNat := UInt8.le_iff_toNat_le.mp hb.1
    have hhigh : b.toNat ≤ 0x7a := UInt8.le_iff_toNat_le.mp hb.2
    have hbyte := hall (b.toNat - 0x61) (List.mem_range.mpr (by omega))
    rwa [Nat.add_sub_cancel' hlow, UInt8.ofNat_toNat] at hbyte
  · rw [toAsciiUppercase, if_neg hb]

/-- The decoder sees no more than the capitals of the letters. -/
theorem decodeBase32_congr {s t : Text}
    (h : (letters s).map toAsciiUppercase = (letters t).map toAsciiUppercase) :
    decodeBase32 s = decodeBase32 t := by
  have hvalues : ∀ cs : List UInt8,
      values cs = (cs.map toAsciiUppercase).mapM fun b => b32.idxOf? b := by
    intro cs
    rw [values, List.mapM_map]
    rfl
  rw [decodeBase32_eq, decodeBase32_eq, hvalues, hvalues, h]

theorem letters_toAsciiUppercase (t : Text) : (letters t).map toAsciiUppercase =
    (t.bytes.map toAsciiUppercase).filter fun b => !isAsciiWhitespace b && b != 0x3d := by
  rw [List.filter_map, letters]
  congr 1
  refine List.filter_congr fun b _ => ?_
  exact (isFiller_toAsciiUppercase b).symm

/-- The lower case of an ASCII letter has the same capital, and no other character changes. -/
theorem utf8EncodeChar_toLower (c : Char) :
    (String.utf8EncodeChar (Text.Ascii.toLower c)).map toAsciiUppercase =
      (String.utf8EncodeChar c).map toAsciiUppercase := by
  by_cases hc : 0x41 ≤ c.toNat ∧ c.toNat ≤ 0x5a
  · have hall := List.all_iff_forall_prop.mp (by decide : (List.range 26).all fun n =>
      decide ((String.utf8EncodeChar (Char.ofNat (0x41 + n + 0x20))).map toAsciiUppercase =
        (String.utf8EncodeChar (Char.ofNat (0x41 + n))).map toAsciiUppercase))
    have hletter := hall (c.toNat - 0x41) (List.mem_range.mpr (by omega))
    rw [Nat.add_sub_cancel' hc.1, Char.ofNat_toNat] at hletter
    rw [Text.Ascii.toLower, if_pos hc]
    exact hletter
  · rw [Text.Ascii.toLower, if_neg hc]

theorem bytes_toLower (t : Text) : (Text.bytes (t.map Text.Ascii.toLower)).map toAsciiUppercase =
    t.bytes.map toAsciiUppercase := by
  rw [Text.bytes, Text.bytes, List.flatMap_map, List.map_flatMap, List.map_flatMap]
  exact List.flatMap_congr fun c _ => utf8EncodeChar_toLower c

theorem letters_filler {c : Char} (h : isFiller c = true) : letters [c] = [] := by
  have hall := List.all_iff_forall_prop.mp
    (by decide : [' ', '\t', '\n', '\x0c', '\r', '='].all fun c => decide (letters [c] = []))
  exact hall c (of_decide_eq_true h)

/-- One change of the spelling changes nothing. -/
theorem Respelling.decodeBase32_eq {s t : Text} (h : Respelling s t) :
    decodeBase32 s = decodeBase32 t := by
  apply decodeBase32_congr
  cases h with
  | insert s t hc =>
    rw [letters_append, ← List.singleton_append, letters_append, letters_append, letters_filler hc,
      List.nil_append]
  | recase hcase =>
    rw [letters_toAsciiUppercase, letters_toAsciiUppercase, ← bytes_toLower s, hcase,
      bytes_toLower t]

/-- The round trip; the encoding that the bits define; any spelling of a text, however often it is
changed; and the loops lose nothing that the unbounded ones use. -/
theorem base32_laws :
    (∀ data, decodeBase32 (encodeBase32 data) = some data) ∧
    (∀ data, encodeBase32 data = Rfc4648.base32 data) ∧
    (∀ s t, Relation.ReflTransGen Respelling s t → decodeBase32 s = decodeBase32 t) ∧
    (∀ data, encodeBase32 data = Unbounded.encodeBase32 data) ∧
    ∀ text, (decodeBase32 text).map (List.map UInt8.toNat) = Unbounded.decodeBase32 text := by
  refine ⟨decodeBase32_encodeBase32, encodeBase32_eq, fun s t h => ?_, encodeBase32_unbounded,
    decodeBase32_unbounded⟩
  induction h with
  | refl => rfl
  | tail _ hlast ih => exact ih.trans hlast.decodeBase32_eq

/-- The long s is a letter whose capital is S, but only the capital is in the alphabet. -/
theorem decodeBase32_long_s :
    decodeBase32 "MFſGG===".toList = none ∧
      decodeBase32 "MFSGG===".toList = some [0x61, 0x64, 0x63] := by
  decide

end Webshell.Totp
