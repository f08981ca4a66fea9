import Webshell.Lib.Words

/-!
# Notes

The text that a user gives a share, and a browser its user agent and its address, before they are
stored to be shown again. It is split into words and put together again with single spaces, and
then it is cut, which may be right after one of these spaces.

## Main definitions

- `sanitizeNote`: as in the source; `display_text` of the devices is the same function
- `Sanitized`: what a note should look like then
- `CutAfterSpace`: the notes that lose what comes after a space

## Main results

- `sanitizeNote_normal_iff`: every other note is brought into this form, which is left as it is
-/

namespace Webshell.Share

open Text

def maxNoteLen : ℕ := 120

/-- A control character becomes a space. -/
def clean (c : Char) : Char := if isControl c then ' ' else c

def sanitizeNote (note : Text) : Text := (spaced (words (note.map clean))).take maxNoteLen

structure Sanitized (t : Text) : Prop where
  length : t.length ≤ maxNoteLen
  printable : ∀ c ∈ t, isControl c = false
  singleSpaced : SingleSpaced t

/-- The pieces of a note between its whitespace and its control characters. -/
def pieces (note : Text) : List Text :=
  (note.splitOnP fun c => isControl c || isWhitespace c).filter fun piece => !piece.isEmpty

/-- Some first pieces, with a space after each, take up the whole length, and another one
follows. -/
def CutAfterSpace (note : Text) : Prop :=
  ∃ k < (pieces note).length,
    (((pieces note).take k).map fun piece => piece.length + 1).sum = maxNoteLen

/-! ## The words of a note -/

theorem splitOnP_clean (note : Text) :
    (note.map clean).splitOnP isWhitespace =
      note.splitOnP fun c => isControl c || isWhitespace c := by
  induction note with
  | nil => rfl
  | cons c note ih =>
    rw [List.map_cons, List.splitOnP_cons_eq_if_modifyHead, List.splitOnP_cons_eq_if_modifyHead, ih]
    by_cases hcontrol : isControl c = true
    · have hspace : isWhitespace (clean c) = true := by
        rw [clean, if_pos hcontrol]
        decide
      rw [if_pos hspace, if_pos (by rw [hcontrol, Bool.true_or])]
    · rw [clean, if_neg hcontrol, Bool.eq_false_of_not_eq_true hcontrol, Bool.false_or]

theorem words_clean (note : Text) : words (note.map clean) = pieces note := by
  rw [words, splitOnP_clean, pieces]

/-- A piece is a word, and no control character is in it. -/
theorem of_mem_pieces {note piece : Text} (h : piece ∈ pieces note) :
    IsWord piece ∧ ∀ c ∈ piece, isControl c = false := by
  obtain ⟨hmem, hne⟩ := List.mem_filter.mp h
  have hneither : ∀ c ∈ piece, isControl c = false ∧ isWhitespace c = false := fun c hc =>
    Bool.or_eq_false_iff.mp (not_of_mem_splitOnP hmem c hc)
  refine ⟨⟨?_, fun c hc => (hneither c hc).2⟩, fun c hc => (hneither c hc).1⟩
  rintro rfl
  cases hne

/-- A text without control characters is only cut. -/
theorem sanitizeNote_of_printable {t : Text} (h : ∀ c ∈ t, isControl c = false) :
    sanitizeNote t = (spaced (words t)).take maxNoteLen := by
  have hclean : t.map clean = t := by
    refine (List.map_congr_left fun c hc => ?_).trans (List.map_id t)
    rw [clean, h c hc, if_neg Bool.false_ne_true, id]
  rw [sanitizeNote, hclean]

section
variable {ws : List Text}

theorem isControl_of_mem_spaced (h : ∀ word ∈ ws, ∀ c ∈ word, isControl c = false) :
    ∀ c ∈ spaced ws, isControl c = false := by
  intro c hc
  obtain hspace | ⟨word, hword, hc⟩ := mem_of_mem_intercalate hc
  · rw [List.mem_singleton.mp hspace]
    decide
  · exact h word hword c hc

/-- Words without control characters that fit into a note are a note. -/
theorem sanitized_spaced (hwords : ∀ word ∈ ws, IsWord word)
    (hprintable : ∀ word ∈ ws, ∀ c ∈ word, isControl c = false)
    (hlength : (spaced ws).length ≤ maxNoteLen) :
    Sanitized (spaced ws) ∧ sanitizeNote (spaced ws) = spaced ws := by
  have hcontrol := isControl_of_mem_spaced hprintable
  refine ⟨⟨hlength, hcontrol, singleSpaced_spaced hwords⟩, ?_⟩
  rw [sanitizeNote_of_printable hcontrol, words_spaced hwords, List.take_of_length_le hlength]

/-- A space at the end is dropped. -/
theorem sanitizeNote_concat_space (hwords : ∀ word ∈ ws, IsWord word)
    (hprintable : ∀ word ∈ ws, ∀ c ∈ word, isControl c = false)
    (hlength : (spaced ws).length ≤ maxNoteLen) :
    sanitizeNote (spaced ws ++ [' ']) = spaced ws := by
  have hcontrol : ∀ c ∈ spaced ws ++ [' '], isControl c = false := by
    intro c hc
    obtain hc | hspace := List.mem_append.mp hc
    · exact isControl_of_mem_spaced hprintable c hc
    · rw [List.mem_singleton.mp hspace]
      decide
  rw [sanitizeNote_of_printable hcontrol, words_append_space, words_nil, List.append_nil,
    words_spaced hwords, List.take_of_length_le hlength]

end

/-! ## Where a note is cut -/

/-- A cut after a space leaves the space at the end, until the note is sanitized again. -/
theorem sanitizeNote_of_cut {note : Text} (h : CutAfterSpace note) :
    ∃ t, Sanitized t ∧ sanitizeNote note = t ++ [' '] ∧ sanitizeNote (sanitizeNote note) = t := by
  obtain ⟨k, hk, hcut⟩ := h
  have hpieces : ∀ piece ∈ (pieces note).take k,
      IsWord piece ∧ ∀ c ∈ piece, isControl c = false :=
    fun piece hpiece => of_mem_pieces (List.mem_of_mem_take hpiece)
  have hbefore : (pieces note).take k ≠ [] := by
    intro hnil
    rw [hnil] at hcut
    cases hcut
  have hlength : (spaced ((pieces note).take k)).length + 1 = maxNoteLen := by
    rw [length_spaced hbefore, hcut]
  have hcutNote : sanitizeNote note = spaced ((pieces note).take k) ++ [' '] := by
    rw [sanitizeNote, words_clean, take_spaced_of_cut hk hcut (by decide)]
  have hwords := fun piece hpiece => (hpieces piece hpiece).1
  have hprintable := fun piece hpiece => (hpieces piece hpiece).2
  refine ⟨_, (sanitized_spaced hwords hprintable (by omega)).1, hcutNote, ?_⟩
  rw [hcutNote, sanitizeNote_concat_space hwords hprintable (by omega)]

/-- Any other cut leaves words. -/
theorem sanitizeNote_of_not_cut {note : Text} (h : ¬ CutAfterSpace note) :
    Sanitized (sanitizeNote note) ∧ sanitizeNote (sanitizeNote note) = sanitizeNote note := by
  have hne : ∀ piece ∈ pieces note, piece ≠ [] := fun piece hpiece => (of_mem_pieces hpiece).1.1
  have hcut : ∀ k < (pieces note).length,
      (((pieces note).take k).map fun piece => piece.length + 1).sum ≠ maxNoteLen :=
    fun k hk hsum => h ⟨k, hk, hsum⟩
  obtain ⟨ws, htake, -, hws⟩ := take_spaced hne hcut
  have hspaced : sanitizeNote note = spaced ws := by
    rw [sanitizeNote, words_clean, htake]
  have hlength : (spaced ws).length ≤ maxNoteLen := by
    rw [← htake]
    exact List.length_take_le ..
  rw [hspaced]
  refine sanitized_spaced (fun v hv => ?_) (fun v hv c hc => ?_) hlength
  · obtain ⟨hvne, word, hword, hstart⟩ := hws v hv
    exact ⟨hvne, fun c hc => (of_mem_pieces hword).1.2 c (hstart.subset hc)⟩
  · obtain ⟨-, word, hword, hstart⟩ := hws v hv
    exact (of_mem_pieces hword).2 c (hstart.subset hc)

/-- A note is brought into its form, and then left as it is, unless it is cut after a space. -/
theorem sanitizeNote_normal_iff (note : Text) :
    (Sanitized (sanitizeNote note) ∧ sanitizeNote (sanitizeNote note) = sanitizeNote note) ↔
      ¬ CutAfterSpace note := by
  constructor
  · rintro ⟨hsanitized, -⟩ hcut
    obtain ⟨t, -, hspace, -⟩ := sanitizeNote_of_cut hcut
    rw [hspace] at hsanitized
    have hlast := hsanitized.singleSpaced.last ' ' (by rw [List.getLast?_concat]; rfl)
    exact absurd hlast (by decide)
  · exact sanitizeNote_of_not_cut

/-- A text of 119 characters, and one more word. -/
def longNote : Text := List.replicate 119 'x' ++ " y".toList

theorem longNote_normal_fails :
    ¬ ∀ note, Sanitized (sanitizeNote note) ∧
      sanitizeNote (sanitizeNote note) = sanitizeNote note := by
  intro h
  have hlast := (h longNote).1.singleSpaced.last ' ' (by decide)
  exact absurd hlast (by decide)

end Webshell.Share
