import Mathlib.Tactic

/-!
# Properties along a fold

`Along P f s as` says that `P` holds of `s` and of every state that folding `f` over `as` from
`s` goes through.

## Main results

- `along_append`: along a concatenation
- `Along.mono`, `Along.head`, `Along.last`
-/

variable {σ α : Type*}

/-- `P` holds of every state of the fold. -/
def Along (P : σ → Prop) (f : σ → α → σ) : σ → List α → Prop
  | s, [] => P s
  | s, a :: as => P s ∧ Along P f (f s a) as

namespace Along

variable {P Q : σ → Prop} {f : σ → α → σ} {s : σ} {as bs : List α}

theorem head (h : Along P f s as) : P s := by
  cases as with
  | nil => exact h
  | cons a as => exact h.1

theorem last (h : Along P f s as) : P (as.foldl f s) := by
  induction as generalizing s with
  | nil => exact h
  | cons a as ih => exact ih h.2

theorem mono (hPQ : ∀ s, P s → Q s) (h : Along P f s as) : Along Q f s as := by
  induction as generalizing s with
  | nil => exact hPQ s h
  | cons a as ih => exact ⟨hPQ s h.1, ih h.2⟩

end Along

theorem along_append {P : σ → Prop} {f : σ → α → σ} {s : σ} {as bs : List α} :
    Along P f s (as ++ bs) ↔ Along P f s as ∧ Along P f (as.foldl f s) bs := by
  induction as generalizing s with
  | nil => exact ⟨fun h => ⟨h.head, h⟩, fun h => h.2⟩
  | cons a as ih =>
    rw [List.cons_append, List.foldl_cons]
    exact ⟨fun h => ⟨⟨h.1, (ih.mp h.2).1⟩, (ih.mp h.2).2⟩, fun h => ⟨h.1.1, ih.mpr ⟨h.1.2, h.2⟩⟩⟩
