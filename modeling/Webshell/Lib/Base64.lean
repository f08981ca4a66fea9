import Webshell.Lib.Text

/-!
# Base64

What programs rely on of a text encoding of bytes, and the URL-safe Base64 without padding: groups
of three bytes are four characters of six bits each, a last group of one or two bytes is two or
three characters whose unused bits are zero.

## Main definitions

- `Base64.Codec`: an encoding with a decoder that accepts the encoded texts and no others
- `Base64.urlSafeNoPad`: the URL-safe alphabet without padding
-/

namespace Base64

/-- A letter or digit of ASCII, a dash or an underscore. -/
def isUrlSafe (c : Char) : Bool := c.isAlphanum || c == '-' || c == '_'

/-- A canonical text encoding of bytes: what decodes is what the encoder writes. -/
structure Codec where
  encode : List UInt8 → Text
  decode : Text → Option (List UInt8)
  decode_encode : ∀ bytes, decode (encode bytes) = some bytes
  encode_of_decode : ∀ text bytes, decode text = some bytes → encode bytes = text
  urlSafe : ∀ bytes, (encode bytes).all isUrlSafe = true

/-- Two byte strings with one encoding are one. -/
theorem Codec.encode_injective (b64 : Codec) : Function.Injective b64.encode := by
  intro a b h
  have ha := b64.decode_encode a
  rw [h, b64.decode_encode b, Option.some.injEq] at ha
  exact ha.symm

/-- A character outside the alphabet is in no encoding. -/
theorem Codec.not_mem_encode (b64 : Codec) {c : Char} (hc : isUrlSafe c = false)
    (bytes : List UInt8) : c ∉ b64.encode bytes := by
  intro hmem
  have hsafe := List.all_eq_true.mp (b64.urlSafe bytes) c hmem
  rw [hc] at hsafe
  cases hsafe

/-! ## The URL-safe alphabet -/

def symbols : List Char :=
  "ABCDEFGHIJKLMNOPQRSTUVWXYZabcdefghijklmnopqrstuvwxyz0123456789-_".toList

/-- The character of six bits. -/
def symbol (v : Fin 64) : Char := symbols.getD v 'A'

/-- The six bits of a character. -/
def value (c : Char) : Option (Fin 64) := (List.finRange 64).find? fun v => symbol v == c

/-- The bits of a byte string in groups of six, the last filled up with zeros. -/
def sextets : List UInt8 → List (Fin 64)
  | a :: b :: c :: rest =>
    Fin.ofNat 64 (a.toNat / 4) :: Fin.ofNat 64 (a.toNat % 4 * 16 + b.toNat / 16) ::
      Fin.ofNat 64 (b.toNat % 16 * 4 + c.toNat / 64) :: Fin.ofNat 64 (c.toNat % 64) ::
      sextets rest
  | [a, b] =>
    [Fin.ofNat 64 (a.toNat / 4), Fin.ofNat 64 (a.toNat % 4 * 16 + b.toNat / 16),
      Fin.ofNat 64 (b.toNat % 16 * 4)]
  | [a] => [Fin.ofNat 64 (a.toNat / 4), Fin.ofNat 64 (a.toNat % 4 * 16)]
  | [] => []

/-- The bytes of groups of six bits; the bits that fill up the last group have to be zero. -/
def octets : List (Fin 64) → Option (List UInt8)
  | w :: x :: y :: z :: rest =>
    (octets rest).map fun bytes =>
      UInt8.ofNat (w.val * 4 + x.val / 16) :: UInt8.ofNat (x.val % 16 * 16 + y.val / 4) ::
        UInt8.ofNat (y.val % 4 * 64 + z.val) :: bytes
  | [w, x, y] =>
    if y.val % 4 = 0 then
      some [UInt8.ofNat (w.val * 4 + x.val / 16), UInt8.ofNat (x.val % 16 * 16 + y.val / 4)]
    else none
  | [w, x] => if x.val % 16 = 0 then some [UInt8.ofNat (w.val * 4 + x.val / 16)] else none
  | [_] => none
  | [] => some []

def encode (bytes : List UInt8) : Text := (sextets bytes).map symbol

def decode (text : Text) : Option (List UInt8) := (text.mapM value).bind octets

theorem value_symbol : ∀ v : Fin 64, value (symbol v) = some v := by
  decide +kernel

theorem symbol_of_value {c : Char} {v : Fin 64} (h : value c = some v) : symbol v = c := by
  simpa using List.find?_some h

theorem isUrlSafe_symbol : ∀ v : Fin 64, isUrlSafe (symbol v) = true := by
  decide +kernel

theorem mapM_value_map_symbol (vs : List (Fin 64)) : (vs.map symbol).mapM value = some vs := by
  induction vs with
  | nil => rfl
  | cons v vs ih => simp [value_symbol, ih]

theorem map_symbol_of_mapM_value {text : Text} {vs : List (Fin 64)}
    (h : text.mapM value = some vs) : vs.map symbol = text := by
  induction text generalizing vs with
  | nil =>
    obtain rfl : [] = vs := by simpa using h
    rfl
  | cons c text ih =>
    simp only [List.mapM_cons, Option.bind_eq_bind, Option.pure_def, Option.bind_eq_some_iff,
      Option.some.injEq] at h
    obtain ⟨v, hv, rest, hrest, rfl⟩ := h
    rw [List.map_cons, symbol_of_value hv, ih hrest]

theorem octets_sextets (bytes : List UInt8) : octets (sextets bytes) = some bytes := by
  fun_induction sextets bytes with
  | case1 a b c rest ih =>
    have ha := a.toNat_lt
    have hb := b.toNat_lt
    have hc := c.toNat_lt
    rw [octets, ih, Option.map_some]
    refine congrArg some (congrArg₂ _ ?_ (congrArg₂ _ ?_ (congrArg₂ _ ?_ rfl)))
    all_goals
      apply UInt8.toNat_inj.mp
      simp only [Fin.val_ofNat, UInt8.toNat_ofNat']
      omega
  | case2 a b =>
    have ha := a.toNat_lt
    have hb := b.toNat_lt
    have hrest : (Fin.ofNat 64 (b.toNat % 16 * 4)).val % 4 = 0 := by
      simp only [Fin.val_ofNat]
      omega
    rw [octets, if_pos hrest]
    refine congrArg some (congrArg₂ _ ?_ (congrArg₂ _ ?_ rfl))
    all_goals
      apply UInt8.toNat_inj.mp
      simp only [Fin.val_ofNat, UInt8.toNat_ofNat']
      omega
  | case3 a =>
    have ha := a.toNat_lt
    have hrest : (Fin.ofNat 64 (a.toNat % 4 * 16)).val % 16 = 0 := by
      simp only [Fin.val_ofNat]
      omega
    rw [octets, if_pos hrest]
    refine congrArg some (congrArg₂ _ ?_ rfl)
    apply UInt8.toNat_inj.mp
    simp only [Fin.val_ofNat, UInt8.toNat_ofNat']
    omega
  | case4 => rfl

theorem sextets_of_octets {vs : List (Fin 64)} {bytes : List UInt8}
    (h : octets vs = some bytes) : sextets bytes = vs := by
  fun_induction octets vs generalizing bytes with
  | case1 w x y z rest ih =>
    obtain ⟨tail, htail, rfl⟩ := Option.map_eq_some_iff.mp h
    rw [sextets, ih htail]
    refine congrArg₂ _ ?_ (congrArg₂ _ ?_ (congrArg₂ _ ?_ (congrArg₂ _ ?_ rfl)))
    all_goals
      apply Fin.ext
      simp only [Fin.val_ofNat, UInt8.toNat_ofNat']
      omega
  | case2 w x y hy =>
    obtain rfl := Option.some.inj h
    rw [sextets]
    refine congrArg₂ _ ?_ (congrArg₂ _ ?_ (congrArg₂ _ ?_ rfl))
    all_goals
      apply Fin.ext
      simp only [Fin.val_ofNat, UInt8.toNat_ofNat']
      omega
  | case3 => cases h
  | case4 w x hx =>
    obtain rfl := Option.some.inj h
    rw [sextets]
    refine congrArg₂ _ ?_ (congrArg₂ _ ?_ rfl)
    all_goals
      apply Fin.ext
      simp only [Fin.val_ofNat, UInt8.toNat_ofNat']
      omega
  | case5 => cases h
  | case6 => cases h
  | case7 =>
    obtain rfl := Option.some.inj h
    rfl

/-- The URL-safe Base64 without padding, whose decoder rejects unused bits that are not zero. -/
def urlSafeNoPad : Codec where
  encode := encode
  decode := decode
  decode_encode bytes := by
    rw [encode, decode, mapM_value_map_symbol, Option.bind_some, octets_sextets]
  encode_of_decode text bytes h := by
    obtain ⟨vs, hvs, hbytes⟩ := Option.bind_eq_some_iff.mp h
    rw [encode, sextets_of_octets hbytes, map_symbol_of_mapM_value hvs]
  urlSafe bytes := by
    rw [encode, List.all_map]
    exact List.all_eq_true.mpr fun v _ => isUrlSafe_symbol v

example : urlSafeNoPad.encode (Text.bytes "fooba".toList) = "Zm9vYmE".toList := by decide +kernel

end Base64
