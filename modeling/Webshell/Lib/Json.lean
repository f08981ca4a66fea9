import Mathlib.Data.Bool.AllAny
import Webshell.Lib.Text

/-!
# JSON

A strict parser of JSON texts, as far as a program that writes them by hand needs it: what a text
says, if it is one JSON value and nothing else. Strings are decoded to scalar values, so that a
surrogate has to come in a pair; numbers are kept as they are written.

## Main definitions

- `Json`, `Json.parse`: the values, and the parser
- `Json.get`: the member of an object that counts
- `Json.Quotes`, `Json.Reads`: a text that stands for a character of a string, or for a value
- `Json.objectText`: an object as a program writes it

## Main results

- `Json.reads_string`, `Json.reads_decimal`, `Json.reads_object`: what the parser reads in the
  texts of strings, numbers and objects
- `Json.parse_object`: what a whole text says that is an object
-/

/-- A value; the members of an object are in the order of the text. -/
inductive Json
  | null
  | bool (b : Bool)
  | number (literal : Text)
  | string (s : Text)
  | array (elements : List Json)
  | object (members : List (Text × Json))

namespace Json

/-! ## The parser -/

def isSpace (c : Char) : Bool := c = ' ' || c = '\t' || c = '\n' || c = '\r'

def skipSpace (text : Text) : Text := text.dropWhile isSpace

/-- A hexadecimal digit. -/
def hexDigit (c : Char) : Option ℕ :=
  let n := c.toNat
  if 0x30 ≤ n ∧ n ≤ 0x39 then some (n - 0x30)
  else if 0x41 ≤ n ∧ n ≤ 0x46 then some (n - 0x37)
  else if 0x61 ≤ n ∧ n ≤ 0x66 then some (n - 0x57)
  else none

/-- The four hexadecimal digits of a code unit. -/
def codeUnit : Text → Option (ℕ × Text)
  | a :: b :: c :: d :: rest => do
    let a ← hexDigit a
    let b ← hexDigit b
    let c ← hexDigit c
    let d ← hexDigit d
    some (((a * 16 + b) * 16 + c) * 16 + d, rest)
  | _ => none

/-- What follows `\u`: a scalar value, or the two surrogates of one. -/
def unicodeEscape (text : Text) : Option (Char × Text) := do
  let (unit, rest) ← codeUnit text
  if 0xd800 ≤ unit ∧ unit < 0xdc00 then
    -- the second surrogate has to follow as an escape of its own
    match rest with
    | '\\' :: 'u' :: rest => do
      let (low, rest) ← codeUnit rest
      if 0xdc00 ≤ low ∧ low < 0xe000 then
        some (Char.ofNat (0x10000 + (unit - 0xd800) * 0x400 + (low - 0xdc00)), rest)
      else none
    | _ => none
  else if 0xdc00 ≤ unit ∧ unit < 0xe000 then none
  else some (Char.ofNat unit, rest)

/-- What follows a backslash. -/
def escape : Text → Option (Char × Text)
  | '"' :: rest => some ('"', rest)
  | '\\' :: rest => some ('\\', rest)
  | '/' :: rest => some ('/', rest)
  | 'b' :: rest => some ('\x08', rest)
  | 'f' :: rest => some ('\x0c', rest)
  | 'n' :: rest => some ('\n', rest)
  | 'r' :: rest => some ('\r', rest)
  | 't' :: rest => some ('\t', rest)
  | 'u' :: rest => unicodeEscape rest
  | _ => none

/-- The rest of a string, after its opening quote. -/
def stringBody : ℕ → Text → Option (Text × Text)
  | 0, _ => none
  | _ + 1, [] => none
  | fuel + 1, c :: rest =>
    if c = '"' then some ([], rest)
    else if c = '\\' then do
      let (c, rest) ← escape rest
      let (s, rest) ← stringBody fuel rest
      some (c :: s, rest)
    else if c.toNat < 0x20 then none
    else do
      let (s, rest) ← stringBody fuel rest
      some (c :: s, rest)

/-- Every step of `stringBody` takes a character. -/
def stringRest (text : Text) : Option (Text × Text) := stringBody (text.length + 1) text

/-- At least one digit. -/
def digits (text : Text) : Option (Text × Text) :=
  let ds := text.takeWhile Text.isDigit
  if ds = [] then none else some (ds, text.dropWhile Text.isDigit)

/-- The digits before the point, without a leading zero. -/
def integer (text : Text) : Option (Text × Text) := do
  let (ds, rest) ← digits text
  if ds.head? = some '0' ∧ ds ≠ ['0'] then none else some (ds, rest)

def fraction : Text → Option (Text × Text)
  | '.' :: rest => do
    let (ds, rest) ← digits rest
    some ('.' :: ds, rest)
  | text => some ([], text)

def exponent : Text → Option (Text × Text)
  | c :: rest =>
    if c = 'e' ∨ c = 'E' then
      match rest with
      | sign :: rest' =>
        if sign = '+' ∨ sign = '-' then do
          let (ds, rest) ← digits rest'
          some (c :: sign :: ds, rest)
        else do
          let (ds, rest) ← digits rest
          some (c :: ds, rest)
      | [] => none
    else some ([], c :: rest)
  | [] => some ([], [])

def unsigned (text : Text) : Option (Text × Text) := do
  let (whole, rest) ← integer text
  let (frac, rest) ← fraction rest
  let (exp, rest) ← exponent rest
  some (whole ++ frac ++ exp, rest)

/-- A number as it is written. -/
def numberLiteral : Text → Option (Text × Text)
  | '-' :: rest => do
    let (literal, rest) ← unsigned rest
    some ('-' :: literal, rest)
  | text => unsigned text

mutual

/-- A value, and what follows it. The fuel bounds the nesting. -/
def value : ℕ → Text → Option (Json × Text)
  | 0, _ => none
  | fuel + 1, text =>
    match skipSpace text with
    | '{' :: rest =>
      match skipSpace rest with
      | '}' :: rest => some (object [], rest)
      | _ => do
        let (ms, rest) ← members fuel rest
        some (object ms, rest)
    | '[' :: rest =>
      match skipSpace rest with
      | ']' :: rest => some (array [], rest)
      | _ => do
        let (vs, rest) ← elements fuel rest
        some (array vs, rest)
    | '"' :: rest => do
      let (s, rest) ← stringRest rest
      some (string s, rest)
    | 't' :: 'r' :: 'u' :: 'e' :: rest => some (bool true, rest)
    | 'f' :: 'a' :: 'l' :: 's' :: 'e' :: rest => some (bool false, rest)
    | 'n' :: 'u' :: 'l' :: 'l' :: rest => some (null, rest)
    | text => do
      let (literal, rest) ← numberLiteral text
      some (number literal, rest)

/-- The members of an object that has some, up to its closing brace. -/
def members : ℕ → Text → Option (List (Text × Json) × Text)
  | 0, _ => none
  | fuel + 1, text =>
    match skipSpace text with
    | '"' :: rest => do
      let (key, rest) ← stringRest rest
      match skipSpace rest with
      | ':' :: rest => do
        let (v, rest) ← value fuel rest
        match skipSpace rest with
        | ',' :: rest => do
          let (ms, rest) ← members fuel rest
          some ((key, v) :: ms, rest)
        | '}' :: rest => some ([(key, v)], rest)
        | _ => none
      | _ => none
    | _ => none

/-- The elements of an array that has some, up to its closing bracket. -/
def elements : ℕ → Text → Option (List Json × Text)
  | 0, _ => none
  | fuel + 1, text => do
    let (v, rest) ← value fuel text
    match skipSpace rest with
    | ',' :: rest => do
      let (vs, rest) ← elements fuel rest
      some (v :: vs, rest)
    | ']' :: rest => some ([v], rest)
    | _ => none

end

/-- The value that a text is, if it is one and nothing else. -/
def parse (text : Text) : Option Json := do
  let (v, rest) ← value (text.length + 1) text
  if skipSpace rest = [] then some v else none

/-- The member under a key; the last one counts. -/
def get : Json → Text → Option Json
  | object ms, key => (ms.reverse.find? fun m => m.1 = key).map Prod.snd
  | _, _ => none

/-! ## Strings -/

/-- In a string, the text stands for the character. -/
def Quotes (text : Text) (c : Char) : Prop :=
  text ≠ [] ∧ ∀ fuel rest, stringBody (fuel + 1) (text ++ rest) =
    (stringBody fuel rest).map fun r => (c :: r.1, r.2)

/-- A character that needs no escape. -/
def Plain (c : Char) : Prop := c ≠ '"' ∧ c ≠ '\\' ∧ 0x20 ≤ c.toNat

instance (c : Char) : Decidable (Plain c) := inferInstanceAs (Decidable (_ ∧ _ ∧ _))

theorem quotes_plain {c : Char} (h : Plain c) : Quotes [c] c := by
  refine ⟨List.cons_ne_nil _ _, fun fuel rest => ?_⟩
  obtain ⟨hquote, hbackslash, hcontrol⟩ := h
  show stringBody (fuel + 1) (c :: rest) = _
  rw [stringBody, if_neg hquote, if_neg hbackslash, if_neg (not_lt.mpr hcontrol)]
  cases stringBody fuel rest <;> rfl

theorem quotes_escape {text : Text} {c : Char}
    (h : ∀ rest, escape (text ++ rest) = some (c, rest)) : Quotes ('\\' :: text) c := by
  refine ⟨List.cons_ne_nil _ _, fun fuel rest => ?_⟩
  show stringBody (fuel + 1) ('\\' :: (text ++ rest)) = _
  rw [stringBody, if_neg (by decide), if_pos rfl, h]
  cases hbody : stringBody fuel rest <;> simp [hbody]

/-- A string is read character by character, up to its closing quote. -/
theorem stringBody_flatMap {quote : Char → Text} {s : Text} (h : ∀ c ∈ s, Quotes (quote c) c)
    {fuel : ℕ} (hfuel : s.length < fuel) (rest : Text) :
    stringBody fuel (s.flatMap quote ++ '"' :: rest) = some (s, rest) := by
  induction s generalizing fuel with
  | nil =>
    cases fuel with
    | zero => cases hfuel
    | succ fuel => rfl
  | cons c s ih =>
    -- one unit of fuel for each character, however long its escape is
    cases fuel with
    | zero => cases hfuel
    | succ fuel =>
      have hs : s.length < fuel := Nat.lt_of_succ_lt_succ hfuel
      rw [List.flatMap_cons, List.append_assoc, (h c List.mem_cons_self).2,
        ih (fun d hd => h d (List.mem_cons_of_mem c hd)) hs]
      rfl

theorem length_le_flatMap {quote : Char → Text} {s : Text} (h : ∀ c ∈ s, Quotes (quote c) c) :
    s.length ≤ (s.flatMap quote).length := by
  induction s with
  | nil => exact Nat.zero_le _
  | cons c s ih =>
    have hpos := List.length_pos_iff.mpr (h c List.mem_cons_self).1
    have hle := ih fun d hd => h d (List.mem_cons_of_mem c hd)
    rw [List.flatMap_cons, List.length_append, List.length_cons]
    omega

theorem stringRest_flatMap {quote : Char → Text} {s : Text} (h : ∀ c ∈ s, Quotes (quote c) c)
    (rest : Text) : stringRest (s.flatMap quote ++ '"' :: rest) = some (s, rest) := by
  apply stringBody_flatMap h
  have hle := length_le_flatMap h
  rw [List.length_append]
  omega

theorem stringRest_plain {s : Text} (h : ∀ c ∈ s, Plain c) (rest : Text) :
    stringRest (s ++ '"' :: rest) = some (s, rest) := by
  have hread := stringRest_flatMap (fun c hc => quotes_plain (h c hc)) rest
  rwa [List.flatMap_singleton'] at hread

/-! ## Values -/

/-- What may follow a value within another one, or at the end. -/
def Ends (rest : Text) : Prop := ∀ c ∈ rest.head?, c ∈ [',', '}', ']']

/-- The text is read as the value, in whatever follows, with so much fuel. -/
def Reads (depth : ℕ) (text : Text) (v : Json) : Prop :=
  ∀ fuel rest, depth ≤ fuel → Ends rest → value fuel (text ++ rest) = some (v, rest)

theorem ends_cons {c : Char} (h : c ∈ [',', '}', ']']) (rest : Text) : Ends (c :: rest) := by
  intro d hd
  obtain rfl := Option.some.inj hd
  exact h

theorem ends_nil : Ends [] := fun c hc => by cases hc

theorem skipSpace_cons {c : Char} (h : isSpace c = false) (rest : Text) :
    skipSpace (c :: rest) = c :: rest := by
  rw [skipSpace, List.dropWhile_cons, h]
  rfl

/-- More fuel does no harm. -/
theorem Reads.mono {depth depth' : ℕ} {text : Text} {v : Json} (h : Reads depth text v)
    (hle : depth ≤ depth') : Reads depth' text v :=
  fun fuel rest hfuel => h fuel rest (hle.trans hfuel)

theorem reads_string {quote : Char → Text} {s : Text} (h : ∀ c ∈ s, Quotes (quote c) c) :
    Reads 1 ('"' :: (s.flatMap quote ++ ['"'])) (.string s) := by
  intro fuel rest hfuel _
  cases fuel with
  | zero => cases hfuel
  | succ fuel =>
    have hbody := stringRest_flatMap h rest
    unfold value
    rw [List.cons_append, List.append_assoc, skipSpace_cons (by decide)]
    show (stringRest (s.flatMap quote ++ '"' :: rest)).bind _ = _
    rw [hbody]
    rfl

theorem reads_plain {s : Text} (h : ∀ c ∈ s, Plain c) :
    Reads 1 ('"' :: (s ++ ['"'])) (.string s) := by
  have hread := reads_string fun c hc => quotes_plain (h c hc)
  rwa [List.flatMap_singleton'] at hread

/-! ## Numbers -/

theorem eq_of_isDigit {c : Char} (h : Text.isDigit c = true) :
    c ∈ ['0', '1', '2', '3', '4', '5', '6', '7', '8', '9'] := by
  have hrange : 0x30 ≤ c.toNat ∧ c.toNat ≤ 0x39 := by
    simpa [Text.isDigit] using h
  have hall : ∀ n ≤ 9, Char.ofNat (0x30 + n) ∈
      ['0', '1', '2', '3', '4', '5', '6', '7', '8', '9'] := by
    decide
  have hmem := hall (c.toNat - 0x30) (by omega)
  rwa [Nat.add_sub_cancel' hrange.1, Char.ofNat_toNat] at hmem

/-- A digit begins a number. -/
theorem value_digit {c : Char} (hc : Text.isDigit c = true) (fuel : ℕ) (rest : Text) :
    value (fuel + 1) (c :: rest) =
      (unsigned (c :: rest)).bind fun r => some (number r.1, r.2) := by
  have hdigits := eq_of_isDigit hc
  simp only [List.mem_cons, List.not_mem_nil, or_false] at hdigits
  -- with a concrete character the parser's choice is computed
  unfold value
  obtain rfl | rfl | rfl | rfl | rfl | rfl | rfl | rfl | rfl | rfl := hdigits <;> rfl

/-- What may follow a value is no part of a number. -/
theorem Ends.not_isDigit {rest : Text} (h : Ends rest) :
    ∀ c ∈ rest.head?, Text.isDigit c = false := by
  intro c hc
  have hends : ∀ c ∈ [',', '}', ']'], Text.isDigit c = false :=
    List.all_iff_forall_prop.mp (by decide)
  exact hends c (h c hc)

theorem Ends.elim {motive : Text → Prop} {rest : Text} (h : Ends rest) (nil : motive [])
    (comma : ∀ more, motive (',' :: more)) (brace : ∀ more, motive ('}' :: more))
    (bracket : ∀ more, motive (']' :: more)) : motive rest := by
  cases rest with
  | nil => exact nil
  | cons c rest =>
    have hc := h c rfl
    simp only [List.mem_cons, List.not_mem_nil, or_false] at hc
    obtain rfl | rfl | rfl := hc
    · exact comma rest
    · exact brace rest
    · exact bracket rest

theorem fraction_of_ends {rest : Text} (h : Ends rest) : fraction rest = some ([], rest) :=
  h.elim (motive := fun rest => fraction rest = some ([], rest)) rfl (fun _ => rfl) (fun _ => rfl)
    fun _ => rfl

theorem exponent_of_ends {rest : Text} (h : Ends rest) : exponent rest = some ([], rest) :=
  h.elim (motive := fun rest => exponent rest = some ([], rest)) rfl (fun _ => rfl) (fun _ => rfl)
    fun _ => rfl

theorem digits_decimal (n : ℕ) {rest : Text} (h : Ends rest) :
    digits (Text.decimal n ++ rest) = some (Text.decimal n, rest) := by
  have hall : ∀ c ∈ Text.decimal n, Text.isDigit c = true := fun c hc =>
    Text.isDigit_of_mem_decimal hc
  have htake : rest.takeWhile Text.isDigit = [] := by
    cases rest with
    | nil => rfl
    | cons c rest => rw [List.takeWhile_cons, h.not_isDigit c rfl]; rfl
  have hdrop : rest.dropWhile Text.isDigit = rest := by
    cases rest with
    | nil => rfl
    | cons c rest => rw [List.dropWhile_cons, h.not_isDigit c rfl]; rfl
  have hne : Text.decimal n ≠ [] := Nat.toDigits_ne_nil
  rw [digits, List.takeWhile_append_of_pos hall, List.dropWhile_append_of_pos hall, htake, hdrop,
    List.append_nil]
  exact if_neg hne

theorem unsigned_decimal (n : ℕ) {rest : Text} (h : Ends rest) :
    unsigned (Text.decimal n ++ rest) = some (Text.decimal n, rest) := by
  -- a decimal that begins with a zero is zero
  have hzero : ¬ ((Text.decimal n).head? = some '0' ∧ Text.decimal n ≠ ['0']) := fun hno =>
    hno.2 (Text.decimal_eq_of_head hno.1)
  rw [unsigned, integer, digits_decimal n h]
  simp only [Option.bind_eq_bind, Option.bind_some, if_neg hzero, fraction_of_ends h,
    exponent_of_ends h, List.append_nil]

theorem reads_decimal (n : ℕ) : Reads 1 (Text.decimal n) (.number (Text.decimal n)) := by
  intro fuel rest hfuel hrest
  cases fuel with
  | zero => cases hfuel
  | succ fuel =>
    have hread := unsigned_decimal n hrest
    cases hn : Text.decimal n with
    | nil => exact absurd hn Nat.toDigits_ne_nil
    | cons c ds =>
      have hc : Text.isDigit c = true :=
        Text.isDigit_of_mem_decimal (hn ▸ List.mem_cons_self)
      rw [hn] at hread
      rw [List.cons_append, value_digit hc, ← List.cons_append, hread]
      rfl

/-! ## Objects -/

/-- A member as it is written: its key, the text of its value, and the value. -/
def memberText (m : Text × Text × Json) : Text := '"' :: (m.1 ++ '"' :: ':' :: m.2.1)

def membersText (m : Text × Text × Json) : List (Text × Text × Json) → Text
  | [] => memberText m
  | m' :: ms => memberText m ++ ',' :: membersText m' ms

/-- An object that has members, as it is written without spaces. -/
def objectText (m : Text × Text × Json) (ms : List (Text × Text × Json)) : Text :=
  '{' :: (membersText m ms ++ ['}'])

/-- The members that are read. -/
def membersOf (ms : List (Text × Text × Json)) : List (Text × Json) :=
  ms.map fun m => (m.1, m.2.2)

/-- The key needs no escape, and the text is read as the value. -/
def MemberReads (depth : ℕ) (m : Text × Text × Json) : Prop :=
  (∀ c ∈ m.1, Plain c) ∧ Reads depth m.2.1 m.2.2

theorem members_succ {depth fuel : ℕ} {m : Text × Text × Json} (h : MemberReads depth m)
    (hfuel : depth ≤ fuel) {c : Char} (hc : c ∈ [',', '}', ']']) (rest : Text) :
    members (fuel + 1) (memberText m ++ c :: rest) =
      if c = ',' then (members fuel rest).bind fun r => some ((m.1, m.2.2) :: r.1, r.2)
      else if c = '}' then some ([(m.1, m.2.2)], rest)
      else none := by
  obtain ⟨key, text, v⟩ := m
  obtain ⟨hkey, hread⟩ := h
  have hvalue := hread fuel (c :: rest) hfuel (ends_cons hc rest)
  have hspace : isSpace c = false := by
    have hall : ∀ c ∈ [',', '}', ']'], isSpace c = false :=
      List.all_iff_forall_prop.mp (by decide)
    exact hall c hc
  have hshape : memberText (key, text, v) ++ c :: rest =
      '"' :: (key ++ '"' :: ':' :: (text ++ c :: rest)) := by
    simp [memberText]
  conv_lhs => unfold members
  rw [hshape, skipSpace_cons (by decide)]
  simp only [Option.bind_eq_bind, stringRest_plain hkey, Option.bind_some,
    skipSpace_cons (show isSpace ':' = false by decide), hvalue, skipSpace_cons hspace]
  -- what comes after the value is a comma, a brace or a bracket
  simp only [List.mem_cons, List.not_mem_nil, or_false] at hc
  obtain rfl | rfl | rfl := hc <;> rfl

theorem members_membersText {depth : ℕ} (m : Text × Text × Json) (ms : List (Text × Text × Json))
    (h : ∀ x ∈ m :: ms, MemberReads depth x) {fuel : ℕ} (hfuel : depth + ms.length < fuel)
    (rest : Text) :
    members fuel (membersText m ms ++ '}' :: rest) = some (membersOf (m :: ms), rest) := by
  induction ms generalizing m fuel with
  | nil =>
    cases fuel with
    | zero => cases hfuel
    | succ fuel =>
      rw [membersText, members_succ (h m List.mem_cons_self) (Nat.le_of_lt_succ hfuel) (by decide)]
      rfl
  | cons m' ms ih =>
    cases fuel with
    | zero => cases hfuel
    | succ fuel =>
      rw [List.length_cons] at hfuel
      have hrest : members fuel (membersText m' ms ++ '}' :: rest) =
          some (membersOf (m' :: ms), rest) :=
        ih m' (fun x hx => h x (List.mem_cons_of_mem m hx)) (by omega)
      rw [membersText, List.append_assoc, List.cons_append,
        members_succ (h m List.mem_cons_self) (by omega) (by decide), if_pos rfl, hrest]
      rfl

theorem reads_object {depth : ℕ} (m : Text × Text × Json) (ms : List (Text × Text × Json))
    (h : ∀ x ∈ m :: ms, MemberReads depth x) :
    Reads (depth + ms.length + 2) (objectText m ms) (.object (membersOf (m :: ms))) := by
  intro fuel rest hfuel _
  cases fuel with
  | zero => omega
  | succ fuel =>
    have hmembers := members_membersText m ms h (show depth + ms.length < fuel by omega) rest
    -- the object is not empty: a quote follows its brace
    obtain ⟨text, htext⟩ : ∃ text, membersText m ms = '"' :: text := by
      cases ms <;> exact ⟨_, rfl⟩
    have hshape : objectText m ms ++ rest = '{' :: (membersText m ms ++ '}' :: rest) := by
      simp [objectText]
    unfold value
    rw [hshape, skipSpace_cons (by decide)]
    rw [htext, List.cons_append] at hmembers ⊢
    simp only [skipSpace_cons (show isSpace '"' = false by decide), hmembers,
      Option.bind_eq_bind, Option.bind_some]
    rfl

theorem parse_of_reads {depth : ℕ} {text : Text} {v : Json} (h : Reads depth text v)
    (hdepth : depth ≤ text.length + 1) : parse text = some v := by
  have hread := h (text.length + 1) [] hdepth ends_nil
  rw [List.append_nil] at hread
  rw [parse, hread]
  rfl

theorem length_le_membersText (m : Text × Text × Json) (ms : List (Text × Text × Json)) :
    ms.length ≤ (membersText m ms).length := by
  induction ms generalizing m with
  | nil => exact Nat.zero_le _
  | cons m' ms ih =>
    have hle := ih m'
    rw [membersText, List.length_append, List.length_cons, List.length_cons]
    omega

/-- An object of strings and numbers is parsed to its members. -/
theorem parse_object (m : Text × Text × Json) (ms : List (Text × Text × Json))
    (h : ∀ x ∈ m :: ms, MemberReads 1 x) :
    parse (objectText m ms) = some (.object (membersOf (m :: ms))) := by
  apply parse_of_reads (reads_object m ms h)
  have hle := length_le_membersText m ms
  rw [objectText, List.length_cons, List.length_append, List.length_singleton]
  omega

end Json
