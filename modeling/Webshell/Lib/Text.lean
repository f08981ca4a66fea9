import Mathlib.Data.List.DropRight
import Mathlib.Tactic

/-!
# Text

A text is the list of its Unicode scalar values, as the `chars` of a string; its bytes are the
UTF-8 encoding. Only what programs do with whole characters is defined here.

## Main definitions

- `Text.isWhitespace`: the Unicode property `White_Space`
- `Text.trim`: a text without its leading and trailing whitespace
- `Text.isDigit`: the ten ASCII digits
- `Text.bytes`, `Text.fromUtf8`: the UTF-8 encoding and its strict decoder
- `Text.decimal`, `Text.parseDecimal`: a number in digits, and an unsigned number read from a text
- `Text.splitOnce`, `Text.rsplitOnce`: the two sides of the first and of the last separator
- `Text.Lowercase`: what is used of the lowercase mapping of Unicode
-/

/-- A string as its scalar values. -/
abbrev Text := List Char

namespace Text

/-- The Unicode property `White_Space`. -/
def isWhitespace (c : Char) : Bool :=
  let n := c.toNat
  (0x09 ≤ n && n ≤ 0x0d) || n == 0x20 || n == 0x85 || n == 0xa0 || n == 0x1680 ||
    (0x2000 ≤ n && n ≤ 0x200a) || n == 0x2028 || n == 0x2029 || n == 0x202f ||
    n == 0x205f || n == 0x3000

/-- The text without the whitespace at its two ends. -/
def trim (t : Text) : Text := (t.dropWhile isWhitespace).rdropWhile isWhitespace

/-- One of the ASCII digits. -/
def isDigit (c : Char) : Bool := 0x30 ≤ c.toNat && c.toNat ≤ 0x39

/-- The UTF-8 encoding. -/
def bytes (t : Text) : List UInt8 := t.flatMap String.utf8EncodeChar

/-- The number of bytes of the UTF-8 encoding. -/
def byteLength (t : Text) : ℕ := t.bytes.length

/-- The text that bytes encode, if they are the UTF-8 encoding of one. -/
def fromUtf8 (bytes : List UInt8) : Option Text :=
  (ByteArray.utf8Decode? bytes.toByteArray).map Array.toList

/-- A number in decimal digits, without leading zeros. -/
def decimal (n : ℕ) : Text := Nat.toDigits 10 n

/-- A number of `bits` bits in decimal digits, after an optional plus. -/
def parseDecimal (bits : ℕ) (t : Text) : Option ℕ :=
  let digits := if t.head? = some '+' then t.tail else t
  if digits.isEmpty || !digits.all isDigit then none
  else
    let n := Nat.ofDigitChars 10 digits 0
    if n < 2 ^ bits then some n else none

/-- The text before and after the first separator. -/
def splitOnce (separator : Char) (t : Text) : Option (Text × Text) :=
  if separator ∈ t then
    some (t.takeWhile (· ≠ separator), (t.dropWhile (· ≠ separator)).tail)
  else none

/-- The text before and after the last separator. -/
def rsplitOnce (separator : Char) (t : Text) : Option (Text × Text) :=
  (splitOnce separator t.reverse).map fun p => (p.2.reverse, p.1.reverse)

/-- The lowercase mapping of Unicode, as far as programs rely on it: it does nothing the second
time, brings no whitespace to the ends of a text and keeps ASCII letters that are lowercase. -/
class Lowercase where
  toLowercase : Text → Text
  toLowercase_toLowercase : ∀ t, toLowercase (toLowercase t) = toLowercase t
  trim_toLowercase : ∀ t, trim t = t → trim (toLowercase t) = toLowercase t
  toLowercase_ascii : ∀ t : Text, (∀ c ∈ t, 'a' ≤ c ∧ c ≤ 'z') → toLowercase t = t

export Lowercase (toLowercase toLowercase_toLowercase trim_toLowercase toLowercase_ascii)

/-- The codes of the ASCII letters and digits. -/
theorem toNat_of_isAlphanum {c : Char} (h : c.isAlphanum = true) :
    ((65 ≤ c.toNat ∧ c.toNat ≤ 90) ∨ 97 ≤ c.toNat ∧ c.toNat ≤ 122) ∨
      48 ≤ c.toNat ∧ c.toNat ≤ 57 := by
  have hranges : ((decide (c.val ≥ 65 ∧ c.val ≤ 90) || (c.val ≥ 97 && c.val ≤ 122)) ||
      (c.val ≥ 48 && c.val ≤ 57)) = true := h
  simp only [Bool.or_eq_true, Bool.and_eq_true, decide_eq_true_eq, UInt32.le_iff_toNat_le,
    ge_iff_le] at hranges
  exact hranges

theorem isWhitespace_of_visible {c : Char} (h : 0x21 ≤ c.toNat ∧ c.toNat ≤ 0x7e) :
    isWhitespace c = false := by
  simp only [isWhitespace, Bool.or_eq_false_iff, Bool.and_eq_false_iff, decide_eq_false_iff_not,
    beq_eq_false_iff_ne]
  omega

theorem isWhitespace_of_isDigit {c : Char} (h : isDigit c = true) : isWhitespace c = false := by
  simp only [isDigit, Bool.and_eq_true, decide_eq_true_eq] at h
  simp only [isWhitespace, Bool.or_eq_false_iff, Bool.and_eq_false_iff, decide_eq_false_iff_not,
    beq_eq_false_iff_ne]
  omega

theorem isWhitespace_of_asciiLower {c : Char} (h : 'a' ≤ c ∧ c ≤ 'z') :
    isWhitespace c = false := by
  have hcode : 0x61 ≤ c.toNat ∧ c.toNat ≤ 0x7a := h
  simp only [isWhitespace, Bool.or_eq_false_iff, Bool.and_eq_false_iff, decide_eq_false_iff_not,
    beq_eq_false_iff_ne]
  omega

/-- A text with no whitespace at either end is its own trim. -/
theorem trim_eq_self_of_ends {t : Text} (hhead : ∀ c ∈ t.head?, isWhitespace c = false)
    (hlast : ∀ c ∈ t.getLast?, isWhitespace c = false) : trim t = t := by
  have hd : t.dropWhile isWhitespace = t := by
    cases t with
    | nil => rfl
    | cons c t => simp [hhead c rfl]
  rw [trim, hd, List.rdropWhile_eq_self_iff]
  intro hne
  simp [hlast _ (List.getLast?_eq_getLast_of_ne_nil hne)]

/-- A text with no whitespace in it is its own trim. -/
theorem trim_eq_self {t : Text} (h : ∀ c ∈ t, isWhitespace c = false) : trim t = t :=
  trim_eq_self_of_ends (fun c hc => h c (List.mem_of_head? hc))
    fun c hc => h c (List.mem_of_getLast? hc)

/-- A text of digits is its own trim. -/
theorem trim_of_digits {t : Text} (h : t.all isDigit = true) : trim t = t := by
  refine trim_eq_self fun c hc => isWhitespace_of_isDigit ?_
  exact List.all_eq_true.mp h c hc

theorem head_trim {t : Text} {c : Char} (hc : c ∈ t.trim.head?) : isWhitespace c = false := by
  have hpre : t.trim <+: t.dropWhile isWhitespace := List.rdropWhile_prefix ..
  obtain ⟨rest, hrest⟩ := hpre
  have hhead : c ∈ (t.dropWhile isWhitespace).head? := by
    rw [← hrest, List.head?_append, Option.mem_def.mp hc]
    rfl
  have hnot := List.head?_dropWhile_not isWhitespace t
  rw [Option.mem_def.mp hhead] at hnot
  simpa using hnot

theorem last_trim {t : Text} {c : Char} (hc : c ∈ t.trim.getLast?) : isWhitespace c = false := by
  have hne : t.trim ≠ [] := by
    intro hnil
    rw [hnil] at hc
    cases hc
  rw [List.getLast?_eq_getLast_of_ne_nil hne, Option.mem_some] at hc
  subst hc
  exact Bool.eq_false_iff.mpr (List.rdropWhile_last_not _ _ hne)

@[simp] theorem trim_trim (t : Text) : t.trim.trim = t.trim :=
  trim_eq_self_of_ends (fun _ hc => head_trim hc) fun _ hc => last_trim hc

theorem trim_eq_self_iff {t : Text} : trim t = t ↔
    (∀ c ∈ t.head?, isWhitespace c = false) ∧ ∀ c ∈ t.getLast?, isWhitespace c = false := by
  refine ⟨fun h => ⟨fun c hc => ?_, fun c hc => ?_⟩, fun h => trim_eq_self_of_ends h.1 h.2⟩
  · exact head_trim (t := t) (by rwa [h])
  · exact last_trim (t := t) (by rwa [h])

theorem trim_eq_nil_iff {t : Text} : trim t = [] ↔ ∀ c ∈ t, isWhitespace c = true := by
  rw [trim, List.rdropWhile_eq_nil_iff]
  refine ⟨fun h => ?_, fun h c hc => h c ((List.dropWhile_sublist _).subset hc)⟩
  have hnil : t.dropWhile isWhitespace = [] := by
    by_contra hne
    have hhead := List.head_dropWhile_not isWhitespace hne
    rw [h _ (List.head_mem hne)] at hhead
    cases hhead
  exact List.dropWhile_eq_nil_iff.mp hnil

/-- A separator that the first part lacks splits the two parts. -/
theorem splitOnce_append {separator : Char} {t u : Text} (h : separator ∉ t) :
    splitOnce separator (t ++ separator :: u) = some (t, u) := by
  have hall : ∀ c ∈ t, decide (c ≠ separator) = true := by
    intro c hc
    exact decide_eq_true fun heq => h (heq ▸ hc)
  rw [splitOnce, if_pos (List.mem_append_right t List.mem_cons_self),
    List.takeWhile_append_of_pos hall, List.dropWhile_append_of_pos hall]
  simp

/-- The two sides of the first separator make up the text, and the first of them lacks it. -/
theorem eq_of_splitOnce {separator : Char} {t before after : Text}
    (h : splitOnce separator t = some (before, after)) :
    t = before ++ separator :: after ∧ separator ∉ before := by
  rw [splitOnce] at h
  split at h
  · next hmem =>
    obtain ⟨rfl, rfl⟩ := Prod.mk.inj (Option.some.inj h)
    refine ⟨?_, fun hin => ?_⟩
    · have hne : t.dropWhile (· ≠ separator) ≠ [] := by
        intro hnil
        simpa using List.dropWhile_eq_nil_iff.mp hnil separator hmem
      have hhead : (t.dropWhile (· ≠ separator)).head hne = separator := by
        simpa using List.head_dropWhile_not (· ≠ separator) hne
      calc t = t.takeWhile (· ≠ separator) ++ t.dropWhile (· ≠ separator) :=
            (List.takeWhile_append_dropWhile).symm
        _ = _ := by rw [← List.cons_head_tail hne, hhead, List.tail_cons]
    · simpa using List.mem_takeWhile_imp hin
  · cases h

theorem splitOnce_of_not_mem {separator : Char} {t : Text} (h : separator ∉ t) :
    splitOnce separator t = none := if_neg h

/-- A separator that the second part lacks is the last one. -/
theorem rsplitOnce_append {separator : Char} {t u : Text} (h : separator ∉ u) :
    rsplitOnce separator (t ++ separator :: u) = some (t, u) := by
  have hrev : (t ++ separator :: u).reverse = u.reverse ++ separator :: t.reverse := by simp
  rw [rsplitOnce, hrev, splitOnce_append (by simpa using h)]
  simp

theorem rsplitOnce_of_not_mem {separator : Char} {t : Text} (h : separator ∉ t) :
    rsplitOnce separator t = none := by
  rw [rsplitOnce, splitOnce_of_not_mem (by simpa using h), Option.map_none]

/-- The two sides of the last separator make up the text. -/
theorem eq_of_rsplitOnce {separator : Char} {t before after : Text}
    (h : rsplitOnce separator t = some (before, after)) : t = before ++ separator :: after := by
  obtain ⟨p, hp, hsides⟩ := Option.map_eq_some_iff.mp h
  have hrev : t.reverse = p.1 ++ separator :: p.2 := (eq_of_splitOnce hp).1
  obtain ⟨rfl, rfl⟩ := Prod.mk.inj hsides
  rw [← List.reverse_reverse t, hrev]
  simp

/-- What is in texts with a separator between them is in one of them or in the separator. -/
theorem mem_of_mem_intercalate {separator : Text} {ts : List Text} {c : Char}
    (h : c ∈ separator.intercalate ts) : c ∈ separator ∨ ∃ t ∈ ts, c ∈ t := by
  induction ts with
  | nil => simp at h
  | cons t ts ih =>
    cases ts with
    | nil => exact .inr ⟨t, List.mem_singleton.mpr rfl, by simpa using h⟩
    | cons u ts =>
      simp only [List.intercalate_cons_cons, List.mem_append] at h
      rcases h with (ht | hsep) | hrest
      · exact .inr ⟨t, List.mem_cons_self, ht⟩
      · exact .inl hsep
      · exact (ih hrest).imp_right fun ⟨v, hv, hc⟩ => ⟨v, List.mem_cons_of_mem t hv, hc⟩

@[simp] theorem fromUtf8_bytes (t : Text) : fromUtf8 t.bytes = some t := by
  have hdecode : ByteArray.utf8Decode? t.bytes.toByteArray = some t.toArray :=
    List.utf8Decode?_utf8Encode
  rw [fromUtf8, hdecode, Option.map_some]

theorem isDigit_of_mem_decimal {n : ℕ} {c : Char} (h : c ∈ decimal n) : isDigit c = true := by
  have hdigit : c.isDigit = true := Nat.isDigit_of_mem_toDigits (by decide) le_rfl h
  simpa [isDigit, Char.isDigit, UInt32.le_iff_toNat_le] using hdigit

/-- A character that is no digit is not in a number. -/
theorem not_mem_decimal {c : Char} (hc : isDigit c = false) (n : ℕ) : c ∉ decimal n := by
  intro hmem
  rw [isDigit_of_mem_decimal hmem] at hc
  cases hc

theorem parseDecimal_decimal {bits n : ℕ} (h : n < 2 ^ bits) :
    parseDecimal bits (decimal n) = some n := by
  have hne : decimal n ≠ [] := Nat.toDigits_ne_nil
  have hplus : (decimal n).head? ≠ some '+' := by
    intro hhead
    exact not_mem_decimal (by decide) n (List.mem_of_head? hhead)
  have hall : (decimal n).all isDigit = true :=
    List.all_eq_true.mpr fun c hc => isDigit_of_mem_decimal hc
  rw [parseDecimal, if_neg hplus]
  simp only [List.isEmpty_eq_false_iff.mpr hne, hall, Bool.not_true, Bool.or_self,
    Bool.false_eq_true, if_false]
  rw [decimal, Nat.ofDigitChars_ten_toDigits, if_pos h]

/-- Only zero is written with a leading zero. -/
theorem decimal_eq_of_head {n : ℕ} (h : (decimal n).head? = some '0') : decimal n = ['0'] := by
  induction n using Nat.strongRecOn with
  | ind n ih =>
    have hsplit : decimal n = if n < 10 then [n.digitChar] else
        decimal (n / 10) ++ [(n % 10).digitChar] := Nat.toDigits_eq_if (by decide)
    by_cases hsmall : n < 10
    · rw [if_pos hsmall] at hsplit
      rw [hsplit] at h ⊢
      exact congrArg (fun c => [c]) (Option.some.inj h)
    · have hne : decimal (n / 10) ≠ [] := Nat.toDigits_ne_nil
      rw [hsplit, if_neg hsmall, List.head?_append_of_ne_nil _ hne] at h
      have hzero : decimal (n / 10) = ['0'] := ih (n / 10) (by omega) h
      -- the number before the last digit would be zero
      have hvalue : Nat.ofDigitChars 10 (decimal (n / 10)) 0 = n / 10 :=
        Nat.ofDigitChars_ten_toDigits
      rw [hzero] at hvalue
      have hdiv : 0 = n / 10 := hvalue
      omega

namespace Ascii

def toLower (c : Char) : Char :=
  if 0x41 ≤ c.toNat ∧ c.toNat ≤ 0x5a then Char.ofNat (c.toNat + 0x20) else c

theorem toLower_cases (c : Char) :
    (isWhitespace c = false ∧ 'a' ≤ toLower c ∧ toLower c ≤ 'z') ∨ toLower c = c := by
  by_cases hc : 0x41 ≤ c.toNat ∧ c.toNat ≤ 0x5a
  · refine .inl ⟨?_, ?_⟩
    · simp only [isWhitespace, Bool.or_eq_false_iff, Bool.and_eq_false_iff,
        decide_eq_false_iff_not, beq_eq_false_iff_ne]
      omega
    · rw [toLower, if_pos hc]
      obtain ⟨hlo, hhi⟩ := hc
      generalize c.toNat = n at hlo hhi
      interval_cases n <;> decide
  · exact .inr (if_neg hc)

theorem toLower_of_asciiLower {c : Char} (h : 'a' ≤ c ∧ c ≤ 'z') : toLower c = c := by
  have hlow : 0x61 ≤ c.toNat := h.1
  exact if_neg (by omega)

theorem isWhitespace_toLower (c : Char) : isWhitespace (toLower c) = isWhitespace c := by
  obtain ⟨hspace, hlower⟩ | hsame := toLower_cases c
  · rw [hspace, isWhitespace_of_asciiLower hlower]
  · rw [hsame]

theorem toLower_toLower (c : Char) : toLower (toLower c) = toLower c := by
  obtain ⟨_, hlower⟩ | hsame := toLower_cases c
  · exact toLower_of_asciiLower hlower
  · rw [hsame, hsame]

/-- The lowercase mapping of ASCII, which is the one of Unicode on ASCII texts. -/
scoped instance asciiLowercase : Lowercase where
  toLowercase t := t.map toLower
  toLowercase_toLowercase t := by
    rw [List.map_map]
    exact List.map_congr_left fun c _ => toLower_toLower c
  trim_toLowercase t ht := by
    refine trim_eq_self_of_ends (fun c hc => ?_) fun c hc => ?_
    · obtain ⟨d, hd, rfl⟩ := Option.map_eq_some_iff.mp (List.head?_map.symm.trans hc)
      rw [isWhitespace_toLower]
      exact head_trim (t := t) (by rw [ht]; exact hd)
    · obtain ⟨d, hd, rfl⟩ := Option.map_eq_some_iff.mp (List.getLast?_map.symm.trans hc)
      rw [isWhitespace_toLower]
      exact last_trim (t := t) (by rw [ht]; exact hd)
  toLowercase_ascii t ht := by
    refine (List.map_congr_left fun c hc => ?_).trans (List.map_id t)
    exact toLower_of_asciiLower (ht c hc)

end Ascii

end Text
