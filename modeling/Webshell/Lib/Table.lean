import Mathlib.Data.List.AList
import Mathlib.Tactic

/-!
# Tables

A table is an association list with one entry for a key, as the maps of a program hold them.
What Mathlib's `AList` lacks is the pass over all entries that changes some and drops others.

## Main definitions

- `Table`: the association lists from keys to values of one type
- `AList.filterMap`, `AList.retain`: one pass over the entries
- `AList.pairs`, `AList.ofPairs`: the entries as a list, and the table of such a list

## Main results

- `AList.lookup_filterMap`: such a pass works on every entry alone
-/

/-- A finite map. -/
abbrev Table (κ ν : Type*) := AList fun _ : κ => ν

/-- A filter that what is there passes. -/
theorem Option.filter_eq_self_of {α : Type*} {o : Option α} {p : α → Bool}
    (h : ∀ a, o = some a → p a = true) : o.filter p = o := by
  cases o with
  | none => rfl
  | some a => exact Option.filter_some_pos (h a rfl)

/-- What reads every entry that has been written reads all of them. -/
theorem List.mapM_map_eq_some {α β : Type} {write : α → β} {read : β → Option α} {l : List α}
    (h : ∀ a ∈ l, read (write a) = some a) : (l.map write).mapM read = some l := by
  induction l with
  | nil => rfl
  | cons a l ih =>
    obtain ⟨ha, hl⟩ := List.forall_mem_cons.mp h
    rw [List.map_cons, List.mapM_cons, ha, ih hl]
    rfl

namespace AList

variable {κ ν μ : Type*}

/-- The values that `f` gives for the entries. -/
def filterMap (f : κ → ν → Option μ) (t : Table κ ν) : Table κ μ where
  entries := t.entries.filterMap fun entry => (f entry.1 entry.2).map fun v => ⟨entry.1, v⟩
  nodupKeys := by
    have hkeys : ∀ entries : List (Σ _ : κ, ν),
        (entries.filterMap fun entry =>
          (f entry.1 entry.2).map fun v => (⟨entry.1, v⟩ : Σ _ : κ, μ)).keys.Sublist
            entries.keys := by
      intro entries
      induction entries with
      | nil => exact .slnil
      | cons entry entries ih =>
        rw [List.filterMap_cons]
        cases f entry.1 entry.2 with
        | none => exact ih.cons entry.1
        | some v => exact ih.cons_cons entry.1
    exact List.Nodup.sublist (hkeys t.entries) t.nodupKeys

/-- The entries that are kept. -/
def retain (keep : κ → ν → Bool) (t : Table κ ν) : Table κ ν :=
  t.filterMap fun k v => if keep k v then some v else none

def pairs (t : Table κ ν) : List (κ × ν) := t.entries.map fun entry => (entry.1, entry.2)

variable [DecidableEq κ] {t : Table κ ν} {k : κ}

/-- The table that entries are collected into. A later one replaces an earlier one. -/
def ofPairs (pairs : List (κ × ν)) : Table κ ν :=
  pairs.foldl (fun t pair => t.insert pair.1 pair.2) ∅

theorem lookup_filterMap (f : κ → ν → Option μ) (t : Table κ ν) (k : κ) :
    (t.filterMap f).lookup k = (t.lookup k).bind (f k) := by
  obtain ⟨entries, hnodup⟩ := t
  simp only [filterMap, lookup]
  induction entries with
  | nil => rfl
  | cons entry entries ih =>
    obtain ⟨k', v⟩ := entry
    obtain ⟨hfresh, hrest⟩ := List.nodupKeys_cons.mp hnodup
    have hrec := ih hrest
    by_cases hk : k = k'
    · subst hk
      have hgone : entries.dlookup k = none := List.dlookup_eq_none.mpr hfresh
      rw [List.filterMap_cons, List.dlookup_cons_eq, Option.bind_some]
      cases hf : f k v with
      | none => simpa only [hgone, hf, Option.map_none, Option.bind_none] using hrec
      | some w => simp only [Option.map_some, List.dlookup_cons_eq]
    · rw [List.filterMap_cons, List.dlookup_cons_ne entries ⟨k', v⟩ hk]
      cases f k' v with
      | none => exact hrec
      | some w => exact (List.dlookup_cons_ne _ ⟨k', w⟩ hk).trans hrec

theorem lookup_retain (keep : κ → ν → Bool) (t : Table κ ν) (k : κ) :
    (t.retain keep).lookup k = (t.lookup k).filter (keep k) := by
  rw [retain, lookup_filterMap]
  cases t.lookup k with
  | none => rfl
  | some v => rw [Option.bind_some, Option.filter_some]

theorem mem_retain {keep : κ → ν → Bool} :
    k ∈ t.retain keep ↔ ∃ v, t.lookup k = some v ∧ keep k v = true := by
  rw [← lookup_isSome, lookup_retain, Option.isSome_iff_exists]
  exact exists_congr fun v => Option.filter_eq_some_iff

/-- What is found after a pass that drops entries was there before. -/
theorem lookup_of_lookup_retain {keep : κ → ν → Bool} {v : ν}
    (h : (t.retain keep).lookup k = some v) : t.lookup k = some v := by
  rw [lookup_retain] at h
  exact (Option.filter_eq_some_iff.mp h).1

omit [DecidableEq κ] in
theorem entries_retain (keep : κ → ν → Bool) (t : Table κ ν) :
    (t.retain keep).entries = t.entries.filter fun entry => keep entry.1 entry.2 := by
  rw [retain, filterMap, ← List.filterMap_eq_filter]
  refine List.filterMap_congr fun entry _ => ?_
  by_cases hkeep : keep entry.1 entry.2 = true
  · simp [hkeep, Option.guard]
  · simp [hkeep, Option.guard]

omit [DecidableEq κ] in
/-- A pass that drops no entry changes nothing. -/
theorem retain_eq_self {keep : κ → ν → Bool}
    (hlength : t.entries.length ≤ (t.retain keep).entries.length) : t.retain keep = t := by
  apply AList.ext
  rw [entries_retain] at hlength ⊢
  exact List.filter_sublist.eq_of_length_le hlength

theorem erase_eq_self (h : t.lookup k = none) : t.erase k = t := by
  apply AList.ext
  exact List.kerase_of_notMem_keys (lookup_eq_none.mp h)

/-- A pass that drops no entry keeps them all. -/
theorem keep_of_length_retain {keep : κ → ν → Bool} {v : ν}
    (hlength : (t.retain keep).entries.length = t.entries.length) (h : t.lookup k = some v) :
    keep k v = true := by
  rw [entries_retain, List.length_filter_eq_length_iff] at hlength
  exact hlength ⟨k, v⟩ (mem_lookup_iff.mp h)

omit [DecidableEq κ] in
theorem length_retain_le (keep : κ → ν → Bool) (t : Table κ ν) :
    (t.retain keep).entries.length ≤ t.entries.length := by
  rw [entries_retain]
  exact List.length_filter_le ..

theorem length_erase (t : Table κ ν) (k : κ) :
    (t.erase k).entries.length =
      if (t.lookup k).isSome then t.entries.length - 1 else t.entries.length := by
  have hkeys : ∀ t : Table κ ν, t.keys.length = t.entries.length := fun t => List.length_map _
  rw [← hkeys, keys_erase, ← hkeys]
  by_cases hk : k ∈ t
  · rw [if_pos (lookup_isSome.mpr hk), List.length_erase_of_mem hk]
  · rw [if_neg (mt lookup_isSome.mp hk), List.erase_of_not_mem hk]

theorem length_erase_le (t : Table κ ν) (k : κ) :
    (t.erase k).entries.length ≤ t.entries.length := by
  rw [length_erase]
  split <;> omega

/-- An insertion replaces the entry that is there. -/
theorem length_insert (t : Table κ ν) (k : κ) (v : ν) :
    (t.insert k v).entries.length = (t.erase k).entries.length + 1 := rfl

/-- What is found after an erasure was there before. -/
theorem lookup_of_lookup_erase {k' : κ} {v : ν} (h : (t.erase k').lookup k = some v) :
    k ≠ k' ∧ t.lookup k = some v := by
  have hk : k ≠ k' := by
    rintro rfl
    rw [lookup_erase] at h
    cases h
  rw [lookup_erase_ne hk] at h
  exact ⟨hk, h⟩

/-- What is found after the erasure of many keys. -/
theorem lookup_foldl_erase {β : Type*} (key : β → κ) (xs : List β) (t : Table κ ν) (k : κ) :
    (xs.foldl (fun t x => t.erase (key x)) t).lookup k =
      if k ∈ xs.map key then none else t.lookup k := by
  induction xs generalizing t with
  | nil => rfl
  | cons x xs ih =>
    rw [List.foldl_cons, ih, List.map_cons]
    by_cases hmem : k ∈ xs.map key
    · rw [if_pos hmem, if_pos (List.mem_cons_of_mem _ hmem)]
    · rw [if_neg hmem]
      by_cases hk : k = key x
      · rw [hk, lookup_erase, if_pos List.mem_cons_self]
      · rw [lookup_erase_ne hk, if_neg (List.not_mem_cons_of_ne_of_not_mem hk hmem)]

/-- What is found after an insertion is what was put in, or was there before. -/
theorem lookup_of_lookup_insert {k' : κ} {v v' : ν} (h : (t.insert k' v').lookup k = some v) :
    (k = k' ∧ v = v') ∨ (k ≠ k' ∧ t.lookup k = some v) := by
  by_cases hk : k = k'
  · subst hk
    rw [lookup_insert, Option.some.injEq] at h
    exact .inl ⟨rfl, h.symm⟩
  · rw [lookup_insert_ne hk] at h
    exact .inr ⟨hk, h⟩

/-- What is found after many insertions under other keys. -/
theorem lookup_foldl_insert_of_notMem {pairs : List (κ × ν)} (h : k ∉ pairs.map Prod.fst) :
    (pairs.foldl (fun t pair => t.insert pair.1 pair.2) t).lookup k = t.lookup k := by
  induction pairs generalizing t with
  | nil => rfl
  | cons pair pairs ih =>
    obtain ⟨hne, hrest⟩ := not_or.mp (List.mem_cons.not.mp h)
    rw [List.foldl_cons, ih hrest, lookup_insert_ne hne]

theorem lookup_foldl_insert_of_mem {pairs : List (κ × ν)} {v : ν}
    (hnodup : (pairs.map Prod.fst).Nodup) (h : (k, v) ∈ pairs) :
    (pairs.foldl (fun t pair => t.insert pair.1 pair.2) t).lookup k = some v := by
  induction pairs generalizing t with
  | nil => cases h
  | cons pair pairs ih =>
    obtain ⟨hfresh, hrest⟩ := List.nodup_cons.mp hnodup
    rw [List.foldl_cons]
    obtain rfl | hmem := List.mem_cons.mp h
    · rw [lookup_foldl_insert_of_notMem hfresh, lookup_insert]
    · exact ih hrest hmem

omit [DecidableEq κ] in
theorem map_fst_pairs (t : Table κ ν) : t.pairs.map Prod.fst = t.keys := List.map_map

theorem mem_pairs {v : ν} : (k, v) ∈ t.pairs ↔ t.lookup k = some v := by
  rw [pairs, List.mem_map]
  constructor
  · rintro ⟨entry, hentry, heq⟩
    obtain ⟨rfl, rfl⟩ := Prod.mk.inj heq
    exact mem_lookup_iff.mpr hentry
  · intro h
    exact ⟨⟨k, v⟩, mem_lookup_iff.mp h, rfl⟩

omit [DecidableEq κ] in
theorem pairs_retain (keep : κ → ν → Bool) (t : Table κ ν) :
    (t.retain keep).pairs = t.pairs.filter fun pair => keep pair.1 pair.2 := by
  rw [pairs, entries_retain, pairs, List.filter_map]
  rfl

/-- The entries of a table, in any order, make up that table again. -/
theorem lookup_ofPairs {pairs : List (κ × ν)} (h : pairs.Perm t.pairs) (k : κ) :
    (ofPairs pairs).lookup k = t.lookup k := by
  have hnodup : (pairs.map Prod.fst).Nodup := by
    rw [(h.map Prod.fst).nodup_iff, map_fst_pairs]
    exact t.keys_nodup
  cases hk : t.lookup k with
  | none =>
    have hnot : k ∉ pairs.map Prod.fst := by
      rw [(h.map Prod.fst).mem_iff, map_fst_pairs]
      exact lookup_eq_none.mp hk
    rw [ofPairs, lookup_foldl_insert_of_notMem hnot, lookup_empty]
  | some v => exact lookup_foldl_insert_of_mem hnodup (h.mem_iff.mpr (mem_pairs.mpr hk))

end AList
