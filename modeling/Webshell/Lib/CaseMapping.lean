import Mathlib.Data.Bool.AllAny
import Webshell.Lib.Text

/-!
# The lowercase mapping of Unicode

A text in lowercase, character by character from a table, except for a capital sigma: it becomes a
final sigma where it ends a word, which is for the characters around it to say. The tables are a
parameter, with what is true of those of Unicode.

## Main definitions

- `Text.CaseTables`: the lowercase of a character, and which characters are cased or ignored
- `Text.lowerIn`: the lowercase of a piece of a text
- `Text.caseMapping`: the lowercase of a text
- `Text.leadingSigma`: a text that begins with a word of one capital sigma

## Main results

- `Text.lowerIn_append`: a text is lowered piece by piece, if each knows what is around it
- `Text.lowerIn_after_word`: a piece after a word is lowered like a text of its own, unless it
  begins with such a sigma
-/

namespace Text

/-- The tables `to_lower`, `Cased` and `Case_Ignorable` of Unicode, as far as programs rely on
them. Two characters beyond ASCII have an `i` or a `k` in their lowercase. -/
class CaseTables where
  lower : Char → Text
  cased : Char → Bool
  caseIgnorable : Char → Bool
  lower_ascii : ∀ c, c.toNat < 128 → lower c = [Ascii.toLower c]
  lower_ne_nil : ∀ c, lower c ≠ []
  lower_lower : ∀ c, ∀ d ∈ lower c, lower d = [d] ∧ d ≠ 'Σ'
  lower_sigma : lower 'σ' = ['σ'] ∧ lower 'ς' = ['ς']
  ascii_of_lower : ∀ c, ∀ d ∈ lower c, d.toNat < 128 → d ≠ 'i' → d ≠ 'k' → c.toNat < 128
  lower_whitespace : ∀ c, isWhitespace c = true → lower c = [c]
  whitespace_of_lower : ∀ c, ∀ d ∈ lower c, isWhitespace d = true → d = c
  cased_ascii : ∀ c, c.toNat < 128 → cased c = c.isAlpha
  caseIgnorable_ascii : ∀ c, c.toNat < 128 → caseIgnorable c = "'.:^`".toList.contains c
  caseIgnorable_sigma : caseIgnorable 'Σ' = false

export CaseTables (lower cased caseIgnorable)

section
variable [CaseTables]

/-- What is read, once the characters to ignore are skipped, is a letter that has a case. -/
def ignorableThenCased (t : Text) : Bool :=
  match t.dropWhile caseIgnorable with
  | c :: _ => cased c
  | [] => false

/-- A capital sigma ends a word; `before` is what comes before it, read backwards. -/
def wordFinal (before after : Text) : Bool :=
  ignorableThenCased before && !ignorableThenCased after

def lowerChar (before : Text) (c : Char) (after : Text) : Text :=
  if c = 'Σ' then [if wordFinal before after then 'ς' else 'σ'] else lower c

/-- The lowercase of a piece of a text; `before` is what comes before it, read backwards. -/
def lowerIn : Text → Text → Text → Text
  | _, [], _ => []
  | before, c :: t, after => lowerChar before c (t ++ after) ++ lowerIn (c :: before) t after

/-- The lowercase of a text. -/
def caseMapping (t : Text) : Text := lowerIn [] t []

/-- The text begins with a word of one capital sigma. -/
def leadingSigma (t : Text) : Bool :=
  match t.dropWhile caseIgnorable with
  | c :: after => c = 'Σ' && !ignorableThenCased after
  | [] => false

/-! ## What lowercase is made of -/

theorem lowerIn_append (before t u after : Text) :
    lowerIn before (t ++ u) after =
      lowerIn before t (u ++ after) ++ lowerIn (t.reverse ++ before) u after := by
  induction t generalizing before with
  | nil => rfl
  | cons c t ih =>
    rw [List.cons_append, lowerIn, ih, lowerIn, List.append_assoc, List.append_assoc,
      List.reverse_cons, List.append_assoc]
    rfl

theorem mem_lowerIn {before t after : Text} {d : Char} (h : d ∈ lowerIn before t after) :
    ∃ c ∈ t, (c ≠ 'Σ' ∧ d ∈ lower c) ∨ (c = 'Σ' ∧ (d = 'ς' ∨ d = 'σ')) := by
  induction t generalizing before with
  | nil => cases h
  | cons c t ih =>
    rw [lowerIn, List.mem_append] at h
    obtain hc | ht := h
    · refine ⟨c, List.mem_cons_self, ?_⟩
      rw [lowerChar] at hc
      split at hc
      next heq =>
        refine .inr ⟨heq, ?_⟩
        rw [List.mem_singleton] at hc
        split at hc
        · exact .inl hc
        · exact .inr hc
      next hne => exact .inl ⟨hne, hc⟩
    · obtain ⟨c', hmem, hcase⟩ := ih ht
      exact ⟨c', List.mem_cons_of_mem _ hmem, hcase⟩

/-- Every character leaves something in the lowercase. -/
theorem exists_mem_lowerIn {t : Text} {c : Char} (h : c ∈ t) (before after : Text) :
    ∃ d ∈ lowerIn before t after, (c ≠ 'Σ' ∧ d ∈ lower c) ∨ (c = 'Σ' ∧ (d = 'ς' ∨ d = 'σ')) := by
  induction t generalizing before with
  | nil => cases h
  | cons c' t ih =>
    rw [lowerIn]
    obtain rfl | ht := List.mem_cons.mp h
    · by_cases hc : c = 'Σ'
      · refine ⟨_, List.mem_append_left _ (by rw [lowerChar, if_pos hc]; exact List.mem_cons_self),
          .inr ⟨hc, ?_⟩⟩
        split
        · exact .inl rfl
        · exact .inr rfl
      · obtain ⟨d, hd⟩ := List.exists_mem_of_ne_nil _ (CaseTables.lower_ne_nil c)
        exact ⟨d, List.mem_append_left _ (by rwa [lowerChar, if_neg hc]), .inl ⟨hc, hd⟩⟩
    · obtain ⟨d, hd, hcase⟩ := ih ht (c' :: before)
      exact ⟨d, List.mem_append_right _ hd, hcase⟩

/-- Without a capital sigma, the table decides alone. -/
theorem lowerIn_eq_flatMap {t : Text} (h : 'Σ' ∉ t) (before after : Text) :
    lowerIn before t after = t.flatMap lower := by
  induction t generalizing before with
  | nil => rfl
  | cons c t ih =>
    have hc : c ≠ 'Σ' := (List.ne_of_not_mem_cons h).symm
    rw [lowerIn, lowerChar, if_neg hc, ih (List.not_mem_of_not_mem_cons h), List.flatMap_cons]

/-- Lowered characters stay what they are. -/
theorem lowerIn_eq_self {t : Text} (h : ∀ c ∈ t, lower c = [c] ∧ c ≠ 'Σ') (before after : Text) :
    lowerIn before t after = t := by
  rw [lowerIn_eq_flatMap fun hmem => (h _ hmem).2 rfl]
  induction t with
  | nil => rfl
  | cons c t ih =>
    rw [List.flatMap_cons, (h c List.mem_cons_self).1,
      ih fun c hc => h c (List.mem_cons_of_mem _ hc)]
    rfl

theorem lower_of_mem_lowerIn {before t after : Text} {d : Char}
    (h : d ∈ lowerIn before t after) : lower d = [d] ∧ d ≠ 'Σ' := by
  obtain ⟨c, _, ⟨_, hd⟩ | ⟨_, rfl | rfl⟩⟩ := mem_lowerIn h
  · exact CaseTables.lower_lower c d hd
  · exact ⟨CaseTables.lower_sigma.2, by decide⟩
  · exact ⟨CaseTables.lower_sigma.1, by decide⟩

theorem caseMapping_caseMapping (t : Text) : caseMapping (caseMapping t) = caseMapping t :=
  lowerIn_eq_self (fun _ hc => lower_of_mem_lowerIn hc) _ _

/-- A character of the lowercase is whitespace where the character it comes from is. -/
theorem mem_of_whitespace_lowerIn {before t after : Text} {d : Char}
    (h : d ∈ lowerIn before t after) (hd : isWhitespace d = true) : d ∈ t := by
  obtain ⟨c, hc, ⟨_, hlower⟩ | ⟨_, rfl | rfl⟩⟩ := mem_lowerIn h
  · rwa [CaseTables.whitespace_of_lower c d hlower hd]
  · exact absurd hd (by decide)
  · exact absurd hd (by decide)

theorem lowerChar_ne_nil (before : Text) (c : Char) (after : Text) :
    lowerChar before c after ≠ [] := by
  rw [lowerChar]
  split
  · exact List.cons_ne_nil _ _
  · exact CaseTables.lower_ne_nil c

theorem lowerIn_singleton (before : Text) (c : Char) (after : Text) :
    lowerIn before [c] after = lowerChar before c after := by
  rw [lowerIn, lowerIn, List.append_nil, List.nil_append]

theorem trim_lowerIn {before t after : Text} (h : trim t = t) :
    trim (lowerIn before t after) = lowerIn before t after := by
  refine trim_eq_self_of_ends (fun d hd => ?_) fun d hd => ?_
  · cases t with
    | nil => cases hd
    | cons c t =>
      rw [lowerIn, List.head?_append_of_ne_nil _ (lowerChar_ne_nil _ _ _)] at hd
      refine Bool.eq_false_iff.mpr fun hspace => ?_
      have hmem : d ∈ lowerIn before [c] (t ++ after) := by
        rw [lowerIn_singleton]
        exact List.mem_of_head? hd
      have hin := mem_of_whitespace_lowerIn hmem hspace
      rw [List.mem_singleton] at hin
      have hhead : isWhitespace c = false := head_trim (t := c :: t) (by rw [h]; rfl)
      rw [← hin, hspace] at hhead
      cases hhead
  · cases t using List.reverseRecOn with
    | nil => cases hd
    | append_singleton t c =>
      rw [lowerIn_append, lowerIn_singleton,
        List.getLast?_append_of_ne_nil _ (lowerChar_ne_nil _ _ _)] at hd
      refine Bool.eq_false_iff.mpr fun hspace => ?_
      have hmem : d ∈ lowerIn (t.reverse ++ before) [c] after := by
        rw [lowerIn_singleton]
        exact List.mem_of_getLast? hd
      have hin := mem_of_whitespace_lowerIn hmem hspace
      rw [List.mem_singleton] at hin
      have hlast : isWhitespace c = false :=
        last_trim (t := t ++ [c]) (by rw [h, List.getLast?_concat]; rfl)
      rw [← hin, hspace] at hlast
      cases hlast

instance : Lowercase where
  toLowercase := caseMapping
  toLowercase_toLowercase := caseMapping_caseMapping
  trim_toLowercase _ h := trim_lowerIn h
  toLowercase_ascii t ht := by
    refine lowerIn_eq_self (fun c hc => ?_) _ _
    have hcode : 0x61 ≤ c.toNat ∧ c.toNat ≤ 0x7a := ht c hc
    refine ⟨?_, fun heq => ?_⟩
    · rw [CaseTables.lower_ascii c (by omega), Ascii.toLower_of_asciiLower (ht c hc)]
    · subst heq
      exact absurd hcode.2 (by decide)

/-- A character of ASCII that is no letter comes from itself. -/
theorem mem_of_mem_lowerIn {before t after : Text} {d : Char} (h : d ∈ lowerIn before t after)
    (hascii : d.toNat < 128) (hd : ¬('a' ≤ d ∧ d ≤ 'z')) : d ∈ t := by
  obtain ⟨c, hc, ⟨_, hlower⟩ | ⟨_, rfl | rfl⟩⟩ := mem_lowerIn h
  · have hasciic : c.toNat < 128 := by
      refine CaseTables.ascii_of_lower c d hlower hascii ?_ ?_
      · rintro rfl
        exact hd (by decide)
      · rintro rfl
        exact hd (by decide)
    rw [CaseTables.lower_ascii c hasciic, List.mem_singleton] at hlower
    obtain ⟨_, hletter⟩ | hsame := Ascii.toLower_cases c
    · rw [← hlower] at hletter
      exact absurd hletter hd
    · rwa [hlower, hsame]
  · exact absurd hascii (by decide)
  · exact absurd hascii (by decide)

/-- A text whose lowercase is made of ASCII letters other than `i` and `k` is made of ASCII
letters. -/
theorem isAlpha_of_lowerIn {before t after : Text}
    (h : ∀ d ∈ lowerIn before t after, ('a' ≤ d ∧ d ≤ 'z') ∧ d ≠ 'i' ∧ d ≠ 'k') :
    ∀ c ∈ t, c.toNat < 128 ∧ c.isAlpha = true := by
  intro c hc
  obtain ⟨d, hd, ⟨_, hlower⟩ | ⟨_, rfl | rfl⟩⟩ := exists_mem_lowerIn hc before after
  · obtain ⟨hletter, hi, hk⟩ := h d hd
    have hcode : 0x61 ≤ d.toNat ∧ d.toNat ≤ 0x7a := hletter
    have hascii := CaseTables.ascii_of_lower c d hlower (by omega) hi hk
    rw [CaseTables.lower_ascii c hascii, List.mem_singleton] at hlower
    refine ⟨hascii, ?_⟩
    have hcase : (0x41 ≤ c.toNat ∧ c.toNat ≤ 0x5a) ∨ c = d := by
      by_cases hupper : 0x41 ≤ c.toNat ∧ c.toNat ≤ 0x5a
      · exact .inl hupper
      · exact .inr (by rw [hlower, Ascii.toLower, if_neg hupper])
    obtain hupper | rfl := hcase
    · show (c.isUpper || c.isLower) = true
      exact Bool.or_eq_true_iff.mpr (.inl (decide_eq_true hupper))
    · show (c.isUpper || c.isLower) = true
      have hends : (decide (c.val ≥ 97) && decide (c.val ≤ 122)) = true :=
        Bool.and_eq_true_iff.mpr ⟨decide_eq_true hcode.1, decide_eq_true hcode.2⟩
      exact Bool.or_eq_true_iff.mpr (.inr hends)
  · exact absurd (h _ hd).1.2 (by decide)
  · exact absurd (h _ hd).1.2 (by decide)

/-- A text of ASCII letters is lowered letter by letter, wherever it stands. -/
theorem lowerIn_of_isAlpha {t : Text} (h : ∀ c ∈ t, c.toNat < 128) (before after : Text) :
    lowerIn before t after = caseMapping t := by
  have hsigma : 'Σ' ∉ t := fun hmem => absurd (h _ hmem) (by decide)
  rw [caseMapping, lowerIn_eq_flatMap hsigma, lowerIn_eq_flatMap hsigma]

/-! ## A piece after a word -/

/-- A character that is not ignored hides what comes before it. -/
theorem ignorableThenCased_append {t : Text} (h : ∃ c ∈ t, caseIgnorable c = false)
    (u v : Text) : ignorableThenCased (t ++ u) = ignorableThenCased (t ++ v) := by
  obtain ⟨c, hmem, hc⟩ := h
  induction t with
  | nil => cases hmem
  | cons c' t ih =>
    rw [List.cons_append, List.cons_append, ignorableThenCased, ignorableThenCased]
    by_cases hc' : caseIgnorable c' = true
    · rw [List.dropWhile_cons_of_pos hc', List.dropWhile_cons_of_pos hc']
      refine ih ((List.mem_cons.mp hmem).resolve_left fun heq => ?_)
      rw [heq, hc'] at hc
      cases hc
    · rw [List.dropWhile_cons_of_neg hc', List.dropWhile_cons_of_neg hc']

theorem lowerIn_congr {before : Text} (h : ∃ c ∈ before, caseIgnorable c = false)
    (u v t after : Text) : lowerIn (before ++ u) t after = lowerIn (before ++ v) t after := by
  induction t generalizing before with
  | nil => rfl
  | cons c t ih =>
    obtain ⟨d, hd, hignored⟩ := h
    rw [lowerIn, lowerIn, lowerChar, lowerChar, wordFinal, wordFinal,
      ignorableThenCased_append ⟨d, hd, hignored⟩ u v]
    have hrest := ih (List.exists_mem_cons_of_exists (a := c) ⟨d, hd, hignored⟩)
    exact congrArg _ hrest

/-- A piece after a word is lowered like a text of its own, unless it begins with a capital sigma
that is a word: as a text of its own it ends no word there. -/
theorem lowerIn_after_word {before before' : Text} (h : ignorableThenCased before = true)
    (h' : ignorableThenCased before' = false) (t : Text) :
    lowerIn before t [] = lowerIn before' t [] ↔ leadingSigma t = false := by
  induction t generalizing before before' with
  | nil => exact iff_of_true rfl rfl
  | cons c t ih =>
    rw [lowerIn, lowerIn, List.append_nil, leadingSigma]
    by_cases hignored : caseIgnorable c = true
    · have hne : c ≠ 'Σ' := by
        rintro rfl
        rw [CaseTables.caseIgnorable_sigma] at hignored
        cases hignored
      rw [lowerChar, lowerChar, if_neg hne, if_neg hne, List.append_cancel_left_eq,
        List.dropWhile_cons_of_pos hignored]
      refine ih ?_ ?_
      · rwa [ignorableThenCased, List.dropWhile_cons_of_pos hignored]
      · rwa [ignorableThenCased, List.dropWhile_cons_of_pos hignored]
    · have hin : ∃ d ∈ [c], caseIgnorable d = false :=
        ⟨c, List.mem_singleton_self c, Bool.eq_false_iff.mpr hignored⟩
      have hrest : lowerIn (c :: before) t [] = lowerIn (c :: before') t [] :=
        lowerIn_congr hin before before' t []
      rw [hrest, List.append_cancel_right_eq, List.dropWhile_cons_of_neg hignored, lowerChar,
        lowerChar, wordFinal, wordFinal, h, h']
      by_cases hsigma : c = 'Σ'
      · cases hcased : ignorableThenCased t <;> simp [hsigma, hcased]
      · simp [hsigma]

end

/-! ## ASCII and the sigmas -/

namespace Greek

def lower (c : Char) : Char := if c = 'Σ' then 'σ' else Ascii.toLower c

theorem lower_eq_self_or (c : Char) :
    (isWhitespace c = false ∧ c.toNat < 128 ∧ 'a' ≤ lower c ∧ lower c ≤ 'z') ∨
      (c = 'Σ' ∧ lower c = 'σ') ∨ (c ≠ 'Σ' ∧ lower c = c) := by
  by_cases hsigma : c = 'Σ'
  · exact .inr (.inl ⟨hsigma, if_pos hsigma⟩)
  · by_cases hc : 0x41 ≤ c.toNat ∧ c.toNat ≤ 0x5a
    · obtain ⟨hspace, hlower⟩ | hsame := Ascii.toLower_cases c
      · exact .inl ⟨hspace, by omega, by rwa [lower, if_neg hsigma]⟩
      · exact .inr (.inr ⟨hsigma, by rw [lower, if_neg hsigma, hsame]⟩)
    · exact .inr (.inr ⟨hsigma, by rw [lower, if_neg hsigma, Ascii.toLower, if_neg hc]⟩)

theorem lower_of_asciiLower {c : Char} (h : 'a' ≤ c ∧ c ≤ 'z') : lower c = c := by
  have hsigma : c ≠ 'Σ' := by
    rintro rfl
    exact absurd h.2 (by decide)
  rw [lower, if_neg hsigma, Ascii.toLower_of_asciiLower h]

/-- The tables of ASCII, with the three sigmas. -/
scoped instance tables : CaseTables where
  lower c := [lower c]
  cased c := c.isAlpha || "Σσς".toList.contains c
  caseIgnorable c := "'.:^`".toList.contains c
  lower_ascii c hc := by
    have hsigma : c ≠ 'Σ' := by
      rintro rfl
      exact absurd hc (by decide)
    rw [lower, if_neg hsigma]
  lower_ne_nil c := List.cons_ne_nil _ _
  lower_lower c d hd := by
    obtain rfl := List.mem_singleton.mp hd
    obtain ⟨_, _, hlower⟩ | ⟨_, heq⟩ | ⟨hsigma, heq⟩ := lower_eq_self_or c
    · refine ⟨by rw [lower_of_asciiLower hlower], fun heq => ?_⟩
      rw [heq] at hlower
      exact absurd hlower.2 (by decide)
    · rw [heq]
      decide
    · rw [heq]
      exact ⟨by rw [heq], hsigma⟩
  lower_sigma := by decide
  ascii_of_lower c d hd hascii _ _ := by
    obtain rfl := List.mem_singleton.mp hd
    obtain ⟨_, hc, _⟩ | ⟨_, heq⟩ | ⟨_, heq⟩ := lower_eq_self_or c
    · exact hc
    · rw [heq] at hascii
      exact absurd hascii (by decide)
    · rwa [heq] at hascii
  lower_whitespace c hc := by
    obtain ⟨hspace, _⟩ | ⟨rfl, _⟩ | ⟨_, heq⟩ := lower_eq_self_or c
    · rw [hspace] at hc
      cases hc
    · exact absurd hc (by decide)
    · rw [heq]
  whitespace_of_lower c d hd hspace := by
    obtain rfl := List.mem_singleton.mp hd
    obtain ⟨_, _, hlower⟩ | ⟨_, heq⟩ | ⟨_, heq⟩ := lower_eq_self_or c
    · rw [isWhitespace_of_asciiLower hlower] at hspace
      cases hspace
    · rw [heq] at hspace
      exact absurd hspace (by decide)
    · exact heq
  cased_ascii c hc := by
    have hsigma : "Σσς".toList.contains c = false := by
      refine Bool.eq_false_iff.mpr fun hmem => ?_
      have hall := List.all_iff_forall_prop.mp
        (by decide : "Σσς".toList.all fun c => decide (128 ≤ c.toNat)) c
        (List.contains_iff_mem.mp hmem)
      omega
    rw [hsigma, Bool.or_false]
  caseIgnorable_ascii c _ := rfl
  caseIgnorable_sigma := by decide

example : caseMapping "XYΣ Σ.Σ".toList = "xyς σ.ς".toList := by decide

end Greek

end Text
