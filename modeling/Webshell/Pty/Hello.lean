import Webshell.Lib.Json
import Webshell.Terminals.Attach
import Webshell.Terminals.Replay

/-!
# The hello frame

The first frame of an attachment, a JSON object that is written by hand. Its `init` member carries
the sequences that put a client into the modes before the replay. Only `ESC` is escaped in it, which
is enough for what a tracker writes.

## Main definitions

- `initJson`, `helloJson`: the text of the frame
- `synthBytes`: the bytes of a synthesis

## Main results

- `parse_helloJson`: the frame is one JSON object, with these members
- `hello_round_trip`: a client gets the modes of the tracker out of it
-/

namespace Webshell

def modeStr : AttachMode → Text
  | .resume => "resume".toList
  | .replay => "replay".toList

/-- The characters of the same numbers. -/
def asciiOf (bytes : List UInt8) : Text := bytes.map fun b => Char.ofNat b.toNat

/-- A character as it is written into the frame. -/
def escapeEsc (c : Char) : Text := if c = '\x1b' then "\\u001b".toList else [c]

/-- The optional `init` member, with the comma before it. -/
def initJson (init : List UInt8) : Text :=
  if init = [] then []
  else ",\"init\":\"".toList ++ ((asciiOf init).flatMap escapeEsc ++ "\"".toList)

def helloJson (term : Option ℕ) (a : Attachment) : Text :=
  match term with
  | some t =>
    '{' :: ("\"type\":\"hello\",\"term\":".toList ++ (Text.decimal t ++
      (",\"mode\":\"".toList ++ (modeStr a.mode ++ ("\",\"epoch\":".toList ++
      (Text.decimal a.epoch ++ (",\"offset\":".toList ++ (Text.decimal a.baseOffset ++
      (initJson a.init ++ ['}'])))))))))
  | none =>
    '{' :: ("\"type\":\"hello\",\"mode\":\"".toList ++ (modeStr a.mode ++
      ("\",\"epoch\":".toList ++ (Text.decimal a.epoch ++ (",\"offset\":".toList ++
      (Text.decimal a.baseOffset ++ (initJson a.init ++ ['}'])))))))

/-! ## What a synthesis is made of -/

/-- `ESC`, `[?;hl` and digits. -/
def synthBytes : List UInt8 :=
  [0x1b, 0x5b, 0x3f, 0x3b, 0x68, 0x6c, 0x30, 0x31, 0x32, 0x33, 0x34, 0x35, 0x36, 0x37, 0x38, 0x39]

theorem decimal_subset (n : ℕ) : decimal n ⊆ synthBytes := by
  have hall : ∀ c ∈ ['0', '1', '2', '3', '4', '5', '6', '7', '8', '9'],
      c.toNat.toUInt8 ∈ synthBytes := List.all_iff_forall_prop.mp (by decide)
  intro b hb
  obtain ⟨c, hc, rfl⟩ := List.mem_map.mp hb
  exact hall c (Json.eq_of_isDigit (Text.isDigit_of_mem_decimal hc))

theorem decset_subset (n : ℕ) {f : UInt8} (hf : f ∈ synthBytes) :
    Modes.decset n f ⊆ synthBytes := by
  rw [Modes.decset]
  refine List.append_subset.mpr ⟨List.append_subset.mpr ⟨by decide, decimal_subset n⟩, ?_⟩
  exact List.cons_subset.mpr ⟨hf, List.nil_subset _⟩

/-- A tracker writes nothing else. -/
theorem synth_subset (m : Modes) : m.synth ⊆ synthBytes := by
  have hh : (0x68 : UInt8) ∈ synthBytes := by decide
  have hl : (0x6c : UInt8) ∈ synthBytes := by decide
  have hif : ∀ (flag : Bool) (bytes : List UInt8), bytes ⊆ synthBytes →
      (if flag then bytes else []) ⊆ synthBytes := by
    intro flag bytes h
    cases flag
    · exact List.nil_subset _
    · exact h
  rw [Modes.synth]
  simp only [List.append_subset]
  refine ⟨⟨⟨⟨?_, hif _ _ (decset_subset 1 hh)⟩, hif _ _ (decset_subset 2004 hh)⟩, ?_⟩,
    hif _ _ (decset_subset 25 hl)⟩
  · cases m.altScreen with
    | none => exact List.nil_subset _
    | some n => exact decset_subset n hh
  · intro b hb
    obtain ⟨n, -, hn⟩ := List.mem_flatMap.mp hb
    exact decset_subset n hh hn

/-- These bytes are characters of their own. -/
theorem bytes_asciiOf {bytes : List UInt8} (h : bytes ⊆ synthBytes) :
    (asciiOf bytes).bytes = bytes := by
  have hall : ∀ b ∈ synthBytes, String.utf8EncodeChar (Char.ofNat b.toNat) = [b] :=
    List.all_iff_forall_prop.mp (by decide)
  induction bytes with
  | nil => rfl
  | cons b bytes ih =>
    obtain ⟨hb, hbytes⟩ := List.cons_subset.mp h
    show String.utf8EncodeChar (Char.ofNat b.toNat) ++ (asciiOf bytes).bytes = b :: bytes
    rw [hall b hb, ih hbytes]
    rfl

/-- They need no escape other than that of `ESC`. -/
theorem quotes_escapeEsc {bytes : List UInt8} (h : bytes ⊆ synthBytes) :
    ∀ c ∈ asciiOf bytes, Json.Quotes (escapeEsc c) c := by
  have hall : ∀ b ∈ synthBytes, Char.ofNat b.toNat ≠ '\x1b' → Json.Plain (Char.ofNat b.toNat) :=
    List.all_iff_forall_prop.mp (by decide)
  intro c hc
  obtain ⟨b, hb, rfl⟩ := List.mem_map.mp hc
  rw [escapeEsc]
  split
  next hesc =>
    rw [hesc]
    exact Json.quotes_escape fun rest => rfl
  next hplain => exact Json.quotes_plain (hall b (h hb) hplain)

/-! ## The members of the frame -/

/-- The members after the first one, with their texts. -/
def helloMembers (term : Option ℕ) (a : Attachment) : List (Text × Text × Json) :=
  (term.map fun t => ("term".toList, Text.decimal t, .number (Text.decimal t))).toList ++
    [("mode".toList, '"' :: (modeStr a.mode ++ ['"']), .string (modeStr a.mode)),
      ("epoch".toList, Text.decimal a.epoch, .number (Text.decimal a.epoch)),
      ("offset".toList, Text.decimal a.baseOffset, .number (Text.decimal a.baseOffset))] ++
    (if a.init = [] then []
    else [("init".toList, '"' :: ((asciiOf a.init).flatMap escapeEsc ++ ['"']),
      .string (asciiOf a.init))])

def typeMember : Text × Text × Json :=
  ("type".toList, '"' :: ("hello".toList ++ ['"']), .string "hello".toList)

theorem helloJson_eq (term : Option ℕ) (a : Attachment) :
    helloJson term a = Json.objectText typeMember (helloMembers term a) := by
  cases term <;> by_cases hinit : a.init = [] <;>
    simp [helloJson, initJson, helloMembers, hinit, typeMember, Json.objectText,
      Json.membersText, Json.memberText]

theorem modeStr_plain (mode : AttachMode) : ∀ c ∈ modeStr mode, Json.Plain c := by
  cases mode <;> exact List.all_iff_forall_prop.mp (by decide)

/-- Every member is read as it is meant. -/
theorem helloMembers_read (term : Option ℕ) {a : Attachment} (h : a.init ⊆ synthBytes) :
    ∀ x ∈ typeMember :: helloMembers term a, Json.MemberReads 1 x := by
  have hdecimal : ∀ (key : Text) n, (∀ c ∈ key, Json.Plain c) →
      Json.MemberReads 1 (key, Text.decimal n, .number (Text.decimal n)) :=
    fun key n hkey => ⟨hkey, Json.reads_decimal n⟩
  have hkeys : ∀ key ∈ ["type", "term", "mode", "epoch", "offset", "init", "hello"],
      ∀ c ∈ key.toList, Json.Plain c := by
    intro key hkey
    have hall : ["type", "term", "mode", "epoch", "offset", "init", "hello"].all
        (fun key => key.toList.all fun c => Json.Plain c) = true := by decide
    exact List.all_iff_forall_prop.mp (List.all_eq_true.mp hall key hkey)
  intro x hx
  simp only [helloMembers, List.mem_cons, List.mem_append, List.not_mem_nil, or_false,
    Option.mem_toList, Option.map_eq_some_iff] at hx
  obtain rfl | (⟨t, -, rfl⟩ | rfl | rfl | rfl) | hinit := hx
  · exact ⟨hkeys "type" (by simp), Json.reads_plain (hkeys "hello" (by simp))⟩
  · exact hdecimal _ t (hkeys "term" (by simp))
  · exact ⟨hkeys "mode" (by simp), Json.reads_plain (modeStr_plain a.mode)⟩
  · exact hdecimal _ a.epoch (hkeys "epoch" (by simp))
  · exact hdecimal _ a.baseOffset (hkeys "offset" (by simp))
  · split at hinit
    · cases hinit
    · obtain rfl := List.mem_singleton.mp hinit
      exact ⟨hkeys "init" (by simp), Json.reads_string (quotes_escapeEsc h)⟩

/-- The frame is one JSON object. -/
theorem parse_helloJson (term : Option ℕ) {a : Attachment} (h : a.init ⊆ synthBytes) :
    Json.parse (helloJson term a) =
      some (.object (Json.membersOf (typeMember :: helloMembers term a))) := by
  rw [helloJson_eq]
  exact Json.parse_object typeMember _ (helloMembers_read term h)

/-- The member that says what to write before the replay. -/
theorem get_init (term : Option ℕ) (a : Attachment) :
    (Json.object (Json.membersOf (typeMember :: helloMembers term a))).get "init".toList =
      if a.init = [] then none else some (.string (asciiOf a.init)) := by
  cases term <;> by_cases hinit : a.init = [] <;>
    simp [Json.get, Json.membersOf, helloMembers, typeMember, hinit]

/-- What a client writes before the replay. -/
def initBytes (hello : Json) : List UInt8 :=
  match hello.get "init".toList with
  | some (.string s) => s.bytes
  | _ => []

/-- **The mode prefix survives the wire.** Whatever a tracker was fed, the hello with its synthesis
is one JSON object; it has an `init` member exactly if the synthesis is not empty, and that one is
the string of these bytes. A fresh tracker that is fed them is outside of any sequence, has the
same modes and writes the same synthesis. -/
theorem hello_round_trip (bytes : List UInt8) (term : Option ℕ) (a : Attachment) :
    let t := ModeTracker.new.feed bytes
    ∃ hello, Json.parse (helloJson term { a with init := t.synth }) = some hello ∧
      (∃ members, hello = .object members) ∧
      (hello.get "init".toList = none ↔ t.synth = []) ∧
      (t.synth ≠ [] → ∃ s : Text, hello.get "init".toList = some (.string s) ∧ s.bytes = t.synth) ∧
      let client := ModeTracker.new.feed (initBytes hello)
      client.st = .ground ∧ client.toModes = t.toModes ∧ client.synth = t.synth := by
  intro t
  have hsubset : t.synth ⊆ synthBytes := synth_subset t.toModes
  have hget := get_init term { a with init := t.synth }
  refine ⟨_, parse_helloJson term hsubset, ⟨_, rfl⟩, ?_, fun hne => ?_, ?_⟩
  · -- the member is left out exactly if there is nothing to write
    rw [hget]
    split <;> simp_all
  · exact ⟨_, hget.trans (if_neg hne), bytes_asciiOf hsubset⟩
  · have hbytes : initBytes (.object (Json.membersOf
        (typeMember :: helloMembers term { a with init := t.synth }))) = t.synth := by
      rw [initBytes, hget]
      by_cases hempty : t.synth = []
      · rw [if_pos hempty, hempty]
      · rw [if_neg hempty]
        exact bytes_asciiOf hsubset
    rw [hbytes, ModeTracker.feed_synth t.toModes]
    exact ⟨rfl, rfl, rfl⟩

end Webshell
