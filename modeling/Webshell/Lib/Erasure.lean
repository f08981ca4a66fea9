import Webshell.Lib.Transition

/-!
# Removing steps from a run

One system follows another through a relation if it answers every step that is visible by the step
it stands for, and stays where it is at every other. A run of the one, with the steps that are not
visible removed, is then a run of the other.

States that are lists may be related place by place.

## Main definitions

- `System.Follows`: the relation is kept by the visible steps of both and the hidden ones of one

## Main results

- `System.Follows.run`: the run that is left when the hidden steps are removed
- `List.Forall₂.exists_getElem?`, `List.Forall₂.set`: what is in one place, and a change there
-/

namespace List.Forall₂

variable {α β : Type*} {R : α → β → Prop} {xs : List α} {ys : List β}

/-- What is in a place of one list has its counterpart in the other. -/
theorem exists_getElem? (h : Forall₂ R xs ys) {i : ℕ} {x : α} (hx : xs[i]? = some x) :
    ∃ y, ys[i]? = some y ∧ R x y := by
  induction h generalizing i with
  | nil => cases hx
  | @cons x' y' xs ys hxy _ ih =>
    cases i with
    | zero =>
      obtain rfl := Option.some.inj hx
      exact ⟨y', rfl, hxy⟩
    | succ i => exact ih hx

theorem getElem?_eq_none (h : Forall₂ R xs ys) {i : ℕ} (hx : xs[i]? = none) : ys[i]? = none := by
  rw [List.getElem?_eq_none_iff] at hx ⊢
  rwa [← h.length_eq]

theorem set (h : Forall₂ R xs ys) {x : α} {y : β} (hxy : R x y) (i : ℕ) :
    Forall₂ R (xs.set i x) (ys.set i y) := by
  induction h generalizing i with
  | nil => exact .nil
  | cons hhead hrest ih =>
    cases i with
    | zero => exact .cons hxy hrest
    | succ i => exact .cons hhead (ih i)

/-- A change on one side, to something the other side may stay related to. -/
theorem set_left (h : Forall₂ R xs ys) {i : ℕ} {x : α} {y : β} (hy : ys[i]? = some y)
    (hxy : R x y) : Forall₂ R (xs.set i x) ys := by
  obtain ⟨_, rfl⟩ := List.getElem?_eq_some_iff.mp hy
  have hset := h.set hxy i
  rwa [List.set_getElem_self] at hset

theorem set_right (h : Forall₂ R xs ys) {i : ℕ} {x : α} {y : β} (hx : xs[i]? = some x)
    (hxy : R x y) : Forall₂ R xs (ys.set i y) :=
  (h.flip.set_left hx hxy).flip

theorem concat (h : Forall₂ R xs ys) {x : α} {y : β} (hxy : R x y) :
    Forall₂ R (xs ++ [x]) (ys ++ [y]) := by
  induction h with
  | nil => exact .cons hxy .nil
  | cons hhead _ ih => exact .cons hhead ih

/-- What related elements have in common. -/
theorem map_eq {γ : Type*} {f : α → γ} {g : β → γ} (h : Forall₂ R xs ys)
    (hfg : ∀ x y, R x y → g y = f x) : ys.map g = xs.map f := by
  induction h with
  | nil => rfl
  | cons hhead _ ih => rw [List.map_cons, List.map_cons, hfg _ _ hhead, ih]

end List.Forall₂

namespace Transition.System

universe u v w x

variable {σ : Type u} {α : Type v} {τ : Type w} {β : Type x}

/-- `T` answers the visible steps of `S`, and does not notice the others. -/
structure Follows (S : System σ α) (T : System τ β) (visible : α → Option β)
    (R : σ → τ → Prop) : Prop where
  hidden : ∀ s a s' t, R s t → S.step s a = some s' → visible a = none → R s' t
  shown : ∀ s a s' t b, R s t → S.step s a = some s' → visible a = some b →
    ∃ t', T.step t b = some t' ∧ R s' t'

variable {S : System σ α} {T : System τ β} {visible : α → Option β} {R : σ → τ → Prop}

/-- **Erasure rule**: what is left of a run without its hidden steps is a run that leads to a
related state. -/
theorem Follows.run (h : S.Follows T visible R) {s s' : σ} {t : τ} {as : List α} (hR : R s t)
    (hr : S.run s as = some s') : ∃ t', T.run t (as.filterMap visible) = some t' ∧ R s' t' := by
  induction as generalizing s t with
  | nil =>
    rw [run_nil, Option.some.injEq] at hr
    exact ⟨t, rfl, hr ▸ hR⟩
  | cons a as ih =>
    obtain ⟨u, hs, hrest⟩ := run_cons_eq_some hr
    cases ha : visible a with
    | none =>
      rw [List.filterMap_cons_none ha]
      exact ih (h.hidden s a u t hR hs ha) hrest
    | some b =>
      obtain ⟨t₁, ht₁, hR₁⟩ := h.shown s a u t b hR hs ha
      rw [List.filterMap_cons_some ha, run_cons_of_step ht₁]
      exact ih hR₁ hrest

end Transition.System
