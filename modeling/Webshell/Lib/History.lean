import Mathlib.Tactic

/-!
# Histories

A history is a list of events, the oldest first, that grows at its end. `Each P` says of every
event that it stands after a history that allows it, `Once P` that some event does, and
`Since begins ends` that something has begun and not ended.

## Main results

- `Each.snoc`, `Each.of_snoc`, `Each.append`, `Once.append`, `since_snoc`: a history grows
- `prefix_of_not_mem`: an event that a part of a history lacks stands before that part
-/

universe u

namespace History

variable {α : Type u}

/-- Every event of the history stands after a history that allows it. -/
def Each (P : List α → α → Prop) (history : List α) : Prop :=
  ∀ before e after, history = before ++ e :: after → P before e

variable {P Q : List α → α → Prop} {history new : List α} {e : α}

theorem each_nil : Each P [] := by
  intro before e after h
  cases before <;> cases h

theorem Each.snoc (h : Each P history) (he : P history e) : Each P (history ++ [e]) := by
  intro before e' after heq
  cases after using List.reverseRecOn with
  | nil =>
    obtain ⟨rfl, hlast⟩ := List.append_inj' heq rfl
    obtain rfl := List.singleton_inj.mp hlast
    exact he
  | append_singleton after last =>
    rw [← List.cons_append, ← List.append_assoc] at heq
    obtain ⟨hinit, _⟩ := List.append_inj' heq rfl
    exact h before e' after hinit

/-- Events that are allowed wherever they stand. -/
theorem Each.append (h : Each P history) (hnew : ∀ e ∈ new, ∀ before, P before e) :
    Each P (history ++ new) := by
  induction new generalizing history with
  | nil => rwa [List.append_nil]
  | cons e new ih =>
    rw [← List.singleton_append, ← List.append_assoc]
    have hsnoc := h.snoc (hnew e List.mem_cons_self history)
    exact ih hsnoc fun e' he' => hnew e' (List.mem_cons_of_mem e he')

/-- The last event of a history, and those before it. -/
theorem Each.of_snoc (h : Each P (history ++ [e])) : Each P history ∧ P history e := by
  refine ⟨fun before e' after heq => h before e' (after ++ [e]) ?_, h history e [] rfl⟩
  rw [heq, List.append_assoc, List.cons_append]

theorem Each.mono (hPQ : ∀ before e, P before e → Q before e) (h : Each P history) :
    Each Q history :=
  fun before e after heq => hPQ before e (h before e after heq)

/-- Some event of the history stands after a history that allows it. -/
def Once (P : List α → α → Prop) (history : List α) : Prop :=
  ∃ before e after, history = before ++ e :: after ∧ P before e

theorem Once.append (h : Once P history) (new : List α) : Once P (history ++ new) := by
  obtain ⟨before, e, after, rfl, he⟩ := h
  exact ⟨before, e, after ++ new, by rw [List.append_assoc, List.cons_append], he⟩

/-- The event that has just happened. -/
theorem once_snoc (he : P history e) : Once P (history ++ [e]) :=
  ⟨history, e, [], rfl, he⟩

theorem Once.mono (hPQ : ∀ before e, P before e → Q before e) (h : Once P history) :
    Once Q history := by
  obtain ⟨before, e, after, heq, he⟩ := h
  exact ⟨before, e, after, heq, hPQ before e he⟩

/-- Some event begins what no later one has ended. -/
def Since (begins ends : α → Prop) (history : List α) : Prop :=
  ∃ before e after, history = before ++ e :: after ∧ begins e ∧ ∀ e' ∈ after, ¬ ends e'

variable {begins ends : α → Prop}

theorem not_since_nil : ¬ Since begins ends [] := by
  rintro ⟨before, e, after, heq, _⟩
  cases before <;> cases heq

/-- What has just begun, or had before and does not end now. -/
theorem since_snoc :
    Since begins ends (history ++ [e]) ↔ begins e ∨ (Since begins ends history ∧ ¬ ends e) := by
  constructor
  · rintro ⟨before, e', after, heq, hbegins, hends⟩
    cases after using List.reverseRecOn with
    | nil =>
      obtain ⟨_, hlast⟩ := List.append_inj' heq rfl
      obtain rfl := List.singleton_inj.mp hlast
      exact .inl hbegins
    | append_singleton after last =>
      rw [← List.cons_append, ← List.append_assoc] at heq
      obtain ⟨hinit, hlast⟩ := List.append_inj' heq rfl
      obtain rfl := List.singleton_inj.mp hlast
      refine .inr ⟨⟨before, e', after, hinit, hbegins, fun x hx => ?_⟩, ?_⟩
      · exact hends x (List.mem_append_left _ hx)
      · exact hends e (List.mem_append_right _ (List.mem_singleton_self e))
  · rintro (hbegins | ⟨⟨before, e', after, rfl, hbegins, hends⟩, hlast⟩)
    · exact ⟨history, e, [], rfl, hbegins, nofun⟩
    · refine ⟨before, e', after ++ [e], ?_, hbegins, fun x hx => ?_⟩
      · rw [List.append_assoc, List.cons_append]
      · obtain hx | hx := List.mem_append.mp hx
        · exact hends x hx
        · exact List.mem_singleton.mp hx ▸ hlast

/-- What a part of a history lacks stands before that part. -/
theorem prefix_of_not_mem {before after pre rest : List α}
    (heq : before ++ e :: after = pre ++ rest) (he : e ∉ rest) :
    ∃ between, pre = before ++ e :: between := by
  obtain ⟨mid, hpre, hmid⟩ | ⟨mid, hbefore, hrest⟩ := List.append_eq_append_iff.mp heq
  · cases mid with
    | nil => exact absurd (by rw [← List.nil_append rest, ← hmid]; exact List.mem_cons_self) he
    | cons e' mid =>
      obtain ⟨rfl, _⟩ := List.cons.inj hmid
      exact ⟨mid, hpre⟩
  · exact absurd (by rw [hrest]; exact List.mem_append_right mid List.mem_cons_self) he

end History
