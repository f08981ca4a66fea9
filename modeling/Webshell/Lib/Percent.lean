import Mathlib.Data.Bool.AllAny
import Webshell.Lib.Text

/-!
# Percent-encoding

Bytes as unreserved characters and escapes, and a query of encoded names and values. A name or a
value cannot bring a separator into the query, so that the query says what it was made of.

## Main definitions

- `Percent.encode`, `Percent.decode`: bytes to characters and back
- `Percent.encodeQuery`, `Percent.decodeQuery`: names with their values
- `Percent.IsQuery`: unreserved characters, escapes, `&` and `=`

## Main results

- `Percent.decodeQuery_encodeQuery`: splitting and decoding gives back every name and value
- `Percent.isQuery_encodeQuery`: nothing else is in an encoded query
-/

namespace Percent

open Text

/-- The characters that stand for themselves. -/
def isUnreserved (c : Char) : Bool := c.isAlphanum || c ∈ ['-', '_', '.', '~']

/-- A digit of an escape, in upper case. -/
def hexDigit (v : ℕ) : Char := Char.ofNat (if v < 10 then 0x30 + v else 0x41 + (v - 10))

def hexValue (c : Char) : Option ℕ :=
  let code := c.toNat
  if 0x30 ≤ code ∧ code ≤ 0x39 then some (code - 0x30)
  else if 0x41 ≤ code ∧ code ≤ 0x46 then some (code - 0x37)
  else if 0x61 ≤ code ∧ code ≤ 0x66 then some (code - 0x57)
  else none

def encodeByte (b : UInt8) : Text :=
  if isUnreserved (Char.ofNat b.toNat) then [Char.ofNat b.toNat]
  else ['%', hexDigit (b.toNat / 16), hexDigit (b.toNat % 16)]

def encode (bytes : List UInt8) : Text := bytes.flatMap encodeByte

/-- A percent sign without two hexadecimal digits stands for itself. -/
def decode : Text → List UInt8
  | '%' :: a :: b :: rest =>
    match hexValue a, hexValue b with
    | some high, some low => UInt8.ofNat (16 * high + low) :: decode rest
    | _, _ => 0x25 :: decode (a :: b :: rest)
  | c :: rest => String.utf8EncodeChar c ++ decode rest
  | [] => []

def encodeParam (param : Text × Text) : Text :=
  encode param.1.bytes ++ '=' :: encode param.2.bytes

def encodeQuery (params : List (Text × Text)) : Text := ['&'].intercalate (params.map encodeParam)

/-- A name and a value with one `=` between them. -/
def decodeParam (param : Text) : Option (Text × Text) :=
  match param.splitOn '=' with
  | [name, value] => do return (← fromUtf8 (decode name), ← fromUtf8 (decode value))
  | _ => none

def decodeQuery (query : Text) : Option (List (Text × Text)) :=
  (query.splitOn '&').mapM decodeParam

/-- A hexadecimal digit in upper case. -/
def isHexDigit (c : Char) : Bool := (hexValue c).isSome && !c.isLower

/-- What a query is made of. -/
inductive IsQuery : Text → Prop
  | nil : IsQuery []
  | char {c : Char} {t : Text} (h : isUnreserved c = true ∨ c = '&' ∨ c = '=') (rest : IsQuery t) :
    IsQuery (c :: t)
  | escape {a b : Char} {t : Text} (ha : isHexDigit a = true) (hb : isHexDigit b = true)
    (rest : IsQuery t) : IsQuery ('%' :: a :: b :: t)

/-! ## Bytes -/

theorem isHexDigit_hexDigit {v : ℕ} (h : v < 16) :
    isHexDigit (hexDigit v) = true ∧ isUnreserved (hexDigit v) = true ∧
      hexValue (hexDigit v) = some v := by
  have hall := List.all_iff_forall_prop.mp (by decide : (List.range 16).all fun v =>
    decide (isHexDigit (hexDigit v) = true ∧ isUnreserved (hexDigit v) = true ∧
      hexValue (hexDigit v) = some v))
  exact hall v (List.mem_range.mpr h)

theorem mem_encodeByte {b : UInt8} {c : Char} (h : c ∈ encodeByte b) :
    c = '%' ∨ isUnreserved c = true := by
  have hb := b.toNat_lt
  rw [encodeByte] at h
  split at h
  · next hchar =>
    rw [List.mem_singleton] at h
    exact .inr (h ▸ hchar)
  · simp only [List.mem_cons, List.not_mem_nil, or_false] at h
    rcases h with rfl | rfl | rfl
    · exact .inl rfl
    · exact .inr (isHexDigit_hexDigit (by omega)).2.1
    · exact .inr (isHexDigit_hexDigit (by omega)).2.1

theorem not_mem_encode {c : Char} (hpercent : c ≠ '%') (hc : isUnreserved c = false)
    (bytes : List UInt8) : c ∉ encode bytes := by
  intro hmem
  obtain ⟨b, _, hin⟩ := List.mem_flatMap.mp hmem
  rcases mem_encodeByte hin with heq | hsafe
  · exact hpercent heq
  · rw [hc] at hsafe
    cases hsafe

theorem decode_cons {c : Char} (hc : c ≠ '%') (rest : Text) :
    decode (c :: rest) = String.utf8EncodeChar c ++ decode rest := by
  rw [decode]
  intro a b rest' heq
  exact absurd heq hc

theorem toNat_of_isUnreserved {c : Char} (h : isUnreserved c = true) : c.toNat < 0x80 := by
  rcases Bool.or_eq_true_iff.mp h with halnum | hmark
  · have hcode := toNat_of_isAlphanum halnum
    omega
  · have hall := List.all_iff_forall_prop.mp
      (by decide : ['-', '_', '.', '~'].all fun c => decide (c.toNat < 0x80))
    exact hall c (of_decide_eq_true hmark)

/-- An unreserved character is one byte. -/
theorem utf8EncodeChar_of_isUnreserved {b : UInt8} (h : isUnreserved (Char.ofNat b.toNat) = true) :
    Char.ofNat b.toNat ≠ '%' ∧ String.utf8EncodeChar (Char.ofNat b.toNat) = [b] := by
  have hb := b.toNat_lt
  have hvalid : b.toNat.isValidChar := .inl (by omega)
  have hcode : (Char.ofNat b.toNat).toNat = b.toNat := by
    rw [Char.ofNat, dif_pos hvalid]
    rfl
  have hascii := toNat_of_isUnreserved h
  refine ⟨?_, ?_⟩
  · intro heq
    rw [heq] at h
    cases h
  · have hsize : (Char.ofNat b.toNat).utf8Size = 1 := Char.utf8Size_eq_one_iff.mpr (by
      rw [UInt32.le_iff_toNat_le]
      exact Nat.le_of_lt_succ hascii)
    rw [String.utf8EncodeChar_eq_singleton hsize]
    refine congrArg (fun x => [x]) (UInt8.toNat_inj.mp ?_)
    rw [UInt32.toNat_toUInt8]
    exact (Nat.mod_eq_of_lt (by rw [← hcode] at hb; exact hb)).trans hcode

theorem decode_encodeByte (b : UInt8) (rest : Text) :
    decode (encodeByte b ++ rest) = b :: decode rest := by
  have hb := b.toNat_lt
  rw [encodeByte]
  split
  · next hchar =>
    obtain ⟨hpercent, hbyte⟩ := utf8EncodeChar_of_isUnreserved hchar
    rw [List.singleton_append, decode_cons hpercent, hbyte, List.singleton_append]
  · have hhigh := (isHexDigit_hexDigit (by omega : b.toNat / 16 < 16)).2.2
    have hlow := (isHexDigit_hexDigit (by omega : b.toNat % 16 < 16)).2.2
    have hbyte : UInt8.ofNat (16 * (b.toNat / 16) + b.toNat % 16) = b := by
      rw [Nat.div_add_mod, UInt8.ofNat_toNat]
    simp only [List.cons_append, List.nil_append, decode, hhigh, hlow, hbyte]

theorem decode_encode (bytes : List UInt8) : decode (encode bytes) = bytes := by
  induction bytes with
  | nil => rfl
  | cons b bytes ih =>
    have hsplit : encode (b :: bytes) = encodeByte b ++ encode bytes := List.flatMap_cons
    rw [hsplit, decode_encodeByte, ih]

/-! ## Queries -/

theorem decodeParam_encodeParam (param : Text × Text) :
    decodeParam (encodeParam param) = some param := by
  have hequals : ∀ bytes, '=' ∉ encode bytes := not_mem_encode (by decide) (by decide)
  have hsplit : (encodeParam param).splitOn '=' =
      [encode param.1.bytes, encode param.2.bytes] := by
    have hjoin : encodeParam param =
        ['='].intercalate [encode param.1.bytes, encode param.2.bytes] := by
      rw [List.intercalate_cons_cons, List.intercalate_singleton, List.append_assoc]
      rfl
    rw [hjoin, List.splitOn_intercalate '=' _ (List.cons_ne_nil _ _)]
    intro t ht
    simp only [List.mem_cons, List.not_mem_nil, or_false] at ht
    rcases ht with rfl | rfl <;> exact hequals _
  simp only [decodeParam, hsplit, decode_encode, fromUtf8_bytes]
  rfl

theorem not_mem_encodeParam {c : Char} (hpercent : c ≠ '%') (hequals : c ≠ '=')
    (hc : isUnreserved c = false) (param : Text × Text) : c ∉ encodeParam param := by
  intro hmem
  rcases List.mem_append.mp hmem with hname | hrest
  · exact not_mem_encode hpercent hc _ hname
  · rcases List.mem_cons.mp hrest with heq | hvalue
    · exact hequals heq
    · exact not_mem_encode hpercent hc _ hvalue

/-- Splitting and decoding gives back the names and the values. -/
theorem decodeQuery_encodeQuery {params : List (Text × Text)} (h : params ≠ []) :
    decodeQuery (encodeQuery params) = some params := by
  have hamp : ∀ t ∈ params.map encodeParam, '&' ∉ t := by
    intro t ht
    obtain ⟨param, _, rfl⟩ := List.mem_map.mp ht
    exact not_mem_encodeParam (by decide) (by decide) (by decide) param
  have hne : params.map encodeParam ≠ [] := fun hnil => h (List.map_eq_nil_iff.mp hnil)
  rw [decodeQuery, encodeQuery, List.splitOn_intercalate '&' hamp hne]
  clear h hamp hne
  induction params with
  | nil => rfl
  | cons param params ih =>
    rw [List.map_cons, List.mapM_cons, decodeParam_encodeParam, ih]
    rfl

theorem IsQuery.append {t u : Text} (ht : IsQuery t) (hu : IsQuery u) : IsQuery (t ++ u) := by
  induction ht with
  | nil => exact hu
  | char hc _ ih => exact .char hc ih
  | escape ha hb _ ih => exact .escape ha hb ih

theorem isQuery_encode (bytes : List UInt8) : IsQuery (encode bytes) := by
  induction bytes with
  | nil => exact .nil
  | cons b bytes ih =>
    have hb := b.toNat_lt
    have hsplit : encode (b :: bytes) = encodeByte b ++ encode bytes := List.flatMap_cons
    rw [hsplit, encodeByte]
    split
    · next hchar => exact .char (.inl hchar) ih
    · exact .escape (isHexDigit_hexDigit (by omega)).1 (isHexDigit_hexDigit (by omega)).1 ih

theorem isQuery_encodeParam (param : Text × Text) : IsQuery (encodeParam param) :=
  (isQuery_encode _).append (.char (.inr (.inr rfl)) (isQuery_encode _))

/-- An encoded query has unreserved characters, escapes and its separators in it. -/
theorem isQuery_encodeQuery (params : List (Text × Text)) : IsQuery (encodeQuery params) := by
  induction params with
  | nil => exact .nil
  | cons param params ih =>
    cases params with
    | nil =>
      rw [encodeQuery, List.map_singleton, List.intercalate_singleton]
      exact isQuery_encodeParam param
    | cons next params =>
      rw [encodeQuery, List.map_cons, List.map_cons, List.intercalate_cons_cons]
      exact ((isQuery_encodeParam param).append (.char (.inr (.inl rfl)) .nil)).append ih

end Percent
