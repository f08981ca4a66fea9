import Webshell.Lib.Text

/-!
# Words

A text cut into words at its whitespace, and into directives at its semicolons. Words are put
together again with single spaces between them.

## Main definitions

- `Text.words`: the pieces between whitespace that are not empty
- `Text.directives`: the words between the semicolons
- `Text.isControl`: the general category `Cc`
- `Text.spaced`: words with single spaces between them
- `Text.SingleSpaced`: a text without whitespace that a trim or a split into words would drop

## Main results

- `Text.words_append_space`: a space is where words end
- `Text.words_eq_singleton`: a word is cut nowhere
- `Text.words_spaced`, `Text.singleSpaced_spaced`: words are read back, and stand in
  such a text
- `Text.take_spaced`: a text of words that is cut anywhere but after a space
-/

namespace Text

def words (t : Text) : List Text := (t.splitOnP isWhitespace).filter fun word => !word.isEmpty

def directives (t : Text) : List (List Text) := (t.splitOn ';').map words

@[simp] theorem words_nil : words [] = [] := rfl

/-- A piece has nothing in it that the text was split at. -/
theorem not_of_mem_splitOnP {p : Char → Bool} {t piece : Text} (h : piece ∈ t.splitOnP p) :
    ∀ c ∈ piece, p c = false := by
  induction t generalizing piece with
  | nil =>
    obtain rfl := List.mem_singleton.mp h
    exact List.forall_mem_nil _
  | cons c t ih =>
    rw [List.splitOnP_cons_eq_if_modifyHead] at h
    split at h
    · obtain rfl | hmem := List.mem_cons.mp h
      · exact List.forall_mem_nil _
      · exact ih hmem
    next hc =>
      obtain ⟨first, rest, hsplit⟩ := List.exists_cons_of_ne_nil (List.splitOnP_ne_nil p t)
      rw [hsplit] at h ih
      obtain rfl | hmem := List.mem_cons.mp h
      · exact List.forall_mem_cons.mpr ⟨Bool.eq_false_of_not_eq_true hc, ih List.mem_cons_self⟩
      · exact ih (List.mem_cons_of_mem first hmem)

theorem words_append_space (t u : Text) : words (t ++ ' ' :: u) = words t ++ words u := by
  rw [words, List.splitOnP_append_cons t u (by decide), List.filter_append]
  rfl

theorem words_eq_singleton {word : Text} (hne : word ≠ [])
    (h : ∀ c ∈ word, isWhitespace c = false) : words word = [word] := by
  rw [words, List.splitOnP_eq_singleton h, List.filter_cons_of_pos (by simpa using hne),
    List.filter_nil]

theorem directives_intercalate {ts : List Text} (hne : ts ≠ []) (h : ∀ t ∈ ts, ';' ∉ t) :
    directives ([';'].intercalate ts) = ts.map words := by
  rw [directives, List.splitOn_intercalate ';' h hne]

/-! ## Words with single spaces between them -/

/-- The general category `Cc`. -/
def isControl (c : Char) : Bool := c.toNat < 0x20 || (0x7f ≤ c.toNat && c.toNat ≤ 0x9f)

def spaced (ws : List Text) : Text := [' '].intercalate ws

/-- A word: something, and no whitespace in it. -/
def IsWord (word : Text) : Prop := word ≠ [] ∧ ∀ c ∈ word, isWhitespace c = false

/-- There is no whitespace at either end, and none next to another. -/
structure SingleSpaced (t : Text) : Prop where
  head : ∀ c ∈ t.head?, isWhitespace c = false
  last : ∀ c ∈ t.getLast?, isWhitespace c = false
  single : t.IsChain fun a b => isWhitespace a = false ∨ isWhitespace b = false

section
variable {ws vs : List Text} {word : Text} {n : ℕ}

@[simp] theorem spaced_nil : spaced [] = [] := rfl

@[simp] theorem spaced_singleton (word : Text) : spaced [word] = word :=
  List.intercalate_singleton

theorem spaced_cons (word : Text) (hne : ws ≠ []) :
    spaced (word :: ws) = word ++ ' ' :: spaced ws :=
  (List.intercalate_cons_of_ne_nil hne).trans (List.append_assoc ..)

theorem spaced_append (hws : ws ≠ []) (hvs : vs ≠ []) :
    spaced (ws ++ vs) = spaced ws ++ ' ' :: spaced vs := by
  induction ws with
  | nil => exact absurd rfl hws
  | cons word ws ih =>
    by_cases hlast : ws = []
    · subst hlast
      rw [List.singleton_append, spaced_cons word hvs, spaced_singleton]
    · rw [List.cons_append, spaced_cons word (List.append_ne_nil_of_left_ne_nil hlast vs),
        spaced_cons word hlast, ih hlast, List.append_assoc, List.cons_append]

/-- Every word takes up itself and a space, but for the last one. -/
theorem length_spaced (hne : ws ≠ []) :
    (spaced ws).length + 1 = (ws.map fun word => word.length + 1).sum := by
  induction ws with
  | nil => exact absurd rfl hne
  | cons word ws ih =>
    by_cases hlast : ws = []
    · subst hlast
      rw [spaced_singleton, List.map_singleton, List.sum_singleton]
    · rw [spaced_cons word hlast, List.length_append, List.length_cons, List.map_cons,
        List.sum_cons, ← ih hlast]
      omega

theorem IsWord.words_eq (h : IsWord word) : words word = [word] := words_eq_singleton h.1 h.2

theorem words_spaced (h : ∀ word ∈ ws, IsWord word) : words (spaced ws) = ws := by
  induction ws with
  | nil => rfl
  | cons word ws ih =>
    have hword := (h word List.mem_cons_self).words_eq
    by_cases hlast : ws = []
    · rw [hlast, spaced_singleton, hword]
    · rw [spaced_cons word hlast, words_append_space, hword,
        ih fun v hv => h v (List.mem_cons_of_mem word hv), List.singleton_append]

theorem spaced_ne_nil (h : ∀ word ∈ ws, IsWord word) (hne : ws ≠ []) : spaced ws ≠ [] := by
  intro hnil
  have hback := words_spaced h
  rw [hnil, words_nil] at hback
  exact hne hback.symm

theorem IsWord.singleSpaced (h : IsWord word) : SingleSpaced word where
  head c hc := h.2 c (List.mem_of_head? hc)
  last c hc := h.2 c (List.mem_of_getLast? hc)
  single := (List.pairwise_of_forall_mem_list fun a ha _ _ => .inl (h.2 a ha)).isChain

theorem SingleSpaced.append_space {t u : Text} (ht : SingleSpaced t) (hu : SingleSpaced u)
    (htne : t ≠ []) (hune : u ≠ []) : SingleSpaced (t ++ ' ' :: u) where
  head := by
    rw [List.head?_append_of_ne_nil t htne]
    exact ht.head
  last := by
    obtain ⟨c, rest, rfl⟩ := List.exists_cons_of_ne_nil hune
    rw [List.getLast?_append_cons, List.getLast?_cons_cons]
    exact hu.last
  single := by
    refine List.isChain_append.mpr ⟨ht.single, List.isChain_cons.mpr ⟨?_, hu.single⟩, ?_⟩
    · intro c hc
      exact .inr (hu.head c hc)
    · intro c hc _ _
      exact .inl (ht.last c hc)

theorem singleSpaced_spaced (h : ∀ word ∈ ws, IsWord word) : SingleSpaced (spaced ws) := by
  induction ws with
  | nil => exact ⟨nofun, nofun, .nil⟩
  | cons word ws ih =>
    have hword := h word List.mem_cons_self
    have hrest : ∀ v ∈ ws, IsWord v := fun v hv => h v (List.mem_cons_of_mem word hv)
    by_cases hlast : ws = []
    · rw [hlast, spaced_singleton]
      exact hword.singleSpaced
    · rw [spaced_cons word hlast]
      exact hword.singleSpaced.append_space (ih hrest) hword.1 (spaced_ne_nil hrest hlast)

/-- A cut after a space leaves the words before it, and the space. -/
theorem take_spaced_of_cut {k : ℕ} (hk : k < ws.length)
    (hcut : ((ws.take k).map fun word => word.length + 1).sum = n) (hn : n ≠ 0) :
    (spaced ws).take n = spaced (ws.take k) ++ [' '] := by
  have hbefore : ws.take k ≠ [] := by
    intro hnil
    rw [hnil] at hcut
    exact hn hcut.symm
  have hafter : ws.drop k ≠ [] := List.drop_eq_nil_iff.not.mpr (not_le.mpr hk)
  have hlength : n = (spaced (ws.take k) ++ [' ']).length := by
    rw [List.length_append, List.length_singleton, length_spaced hbefore, hcut]
  have hsplit : spaced ws = (spaced (ws.take k) ++ [' ']) ++ spaced (ws.drop k) := by
    conv_lhs => rw [← List.take_append_drop k ws, spaced_append hbefore hafter]
    rw [List.append_assoc, List.singleton_append]
  rw [hsplit, hlength, List.take_left]

/-- Any other cut leaves words again: all the words up to some one, and the beginning of that. -/
theorem take_spaced (h : ∀ word ∈ ws, word ≠ [])
    (hcut : ∀ k < ws.length, ((ws.take k).map fun word => word.length + 1).sum ≠ n) :
    ∃ vs, (spaced ws).take n = spaced vs ∧ (vs = [] → ws = []) ∧
      ∀ v ∈ vs, v ≠ [] ∧ ∃ word ∈ ws, v <+: word := by
  induction ws generalizing n with
  | nil => exact ⟨[], by simp, id, nofun⟩
  | cons word ws ih =>
    have hn : n ≠ 0 := Ne.symm (hcut 0 (Nat.succ_pos _))
    by_cases hfirst : ws = [] ∨ n ≤ word.length
    · -- the cut is in the first word, or behind the last one
      have htake : (spaced (word :: ws)).take n = word.take n := by
        by_cases hlast : ws = []
        · rw [hlast, spaced_singleton]
        · rw [spaced_cons word hlast, List.take_append_of_le_length (hfirst.resolve_left hlast)]
      refine ⟨[word.take n], by rw [htake, spaced_singleton], nofun, ?_⟩
      intro v hv
      obtain rfl := List.mem_singleton.mp hv
      refine ⟨fun hnil => ?_, word, List.mem_cons_self, List.take_prefix n word⟩
      exact (List.take_eq_nil_iff.mp hnil).elim hn (h word List.mem_cons_self)
    · obtain ⟨hlast, hlt⟩ := not_or.mp hfirst
      obtain ⟨m, rfl⟩ : ∃ m, n = word.length + (m + 1) := ⟨n - word.length - 1, by omega⟩
      have hrest : ∀ k < ws.length, ((ws.take k).map fun word => word.length + 1).sum ≠ m := by
        intro k hk hsum
        apply hcut (k + 1) (Nat.succ_lt_succ hk)
        rw [List.take_succ_cons, List.map_cons, List.sum_cons, hsum]
        omega
      obtain ⟨vs, htake, hempty, hvs⟩ := ih (fun v hv => h v (List.mem_cons_of_mem word hv)) hrest
      refine ⟨word :: vs, ?_, nofun, ?_⟩
      · rw [spaced_cons word hlast, List.take_length_add_append, List.take_succ_cons, htake,
          spaced_cons word fun hnil => hlast (hempty hnil)]
      · intro v hv
        obtain rfl | hv := List.mem_cons.mp hv
        · exact ⟨h v List.mem_cons_self, v, List.mem_cons_self, List.prefix_rfl⟩
        · obtain ⟨hne, u, hu, hstart⟩ := hvs v hv
          exact ⟨hne, u, List.mem_cons_of_mem word hu, hstart⟩

end

end Text
