import Mathlib.Tactic

/-!
# Labelled transition systems

A system is where it may start and what one labelled step does. A step that is not enabled has
no result, so the labels of a run are its schedule. `Reach ok` are the states of the runs whose
steps all meet `ok` in the state they are taken from; with no condition these are the reachable
states.

## Main definitions

- `System`: initial states and a partial step function
- `System.Reach`: states of the runs whose steps meet a condition
- `System.run`: the state after a list of steps
- `System.Trace`: a run with the states its steps were taken from

## Main results

- `System.Reach.invariant`: what holds initially and is kept by a step holds in every run
- `System.run_invariant`: the same from an arbitrary state onwards
- `System.Trace.invariant`: the same for what relates a state to the steps that led to it
- `System.Trace.after`: the same for what one step of a run begins
-/

namespace Transition

universe u v

/-- Where a system may start and what a labelled step does; `none` when it is not enabled. -/
structure System (σ : Type u) (α : Type v) where
  init : σ → Prop
  step : σ → α → Option σ

namespace System

variable {σ : Type u} {α : Type v} (S : System σ α)

/-- The states of the runs whose steps all meet `ok` in the state they are taken from. -/
inductive Reach (ok : σ → α → Prop) : σ → Prop
  | init {s : σ} : S.init s → Reach ok s
  | step {s s' : σ} {a : α} : Reach ok s → ok s a → S.step s a = some s' → Reach ok s'

/-- The states of all runs. -/
abbrev Reachable : σ → Prop := S.Reach fun _ _ => True

/-- The state after the steps `as`, taken in order. -/
def run : σ → List α → Option σ
  | s, [] => some s
  | s, a :: as => (S.step s a).bind fun s' => run s' as

variable {S} {ok : σ → α → Prop}

@[simp] theorem run_nil (s : σ) : S.run s [] = some s := rfl

theorem run_cons (s : σ) (a : α) (as : List α) :
    S.run s (a :: as) = (S.step s a).bind fun s' => S.run s' as := rfl

theorem run_cons_of_step {s s' : σ} {a : α} {as : List α} (h : S.step s a = some s') :
    S.run s (a :: as) = S.run s' as := by
  rw [run_cons, h, Option.bind_some]

theorem run_append {s t : σ} {as bs : List α} (h : S.run s as = some t) :
    S.run s (as ++ bs) = S.run t bs := by
  induction as generalizing s with
  | nil =>
    rw [run_nil, Option.some.injEq] at h
    rw [List.nil_append, h]
  | cons a as ih =>
    obtain ⟨s', hs, hr⟩ := Option.bind_eq_some_iff.mp h
    rw [List.cons_append, run_cons_of_step hs, ih hr]

/-- The first step of a run, taken apart from the rest. -/
theorem run_cons_eq_some {s t : σ} {a : α} {as : List α} (h : S.run s (a :: as) = some t) :
    ∃ s', S.step s a = some s' ∧ S.run s' as = some t := by
  rw [run_cons] at h
  exact Option.bind_eq_some_iff.mp h

/-- **Invariant rule**: what holds initially, and is kept by a step that meets the condition in
a state the run reaches, holds in every state of the run. -/
theorem Reach.invariant {I : σ → Prop} (h0 : ∀ s, S.init s → I s)
    (hstep : ∀ s a s', S.Reach ok s → I s → ok s a → S.step s a = some s' → I s')
    {s : σ} (h : S.Reach ok s) : I s := by
  induction h with
  | init hi => exact h0 _ hi
  | step hr hok hs ih => exact hstep _ _ _ hr ih hok hs

/-- A weaker condition on the steps allows more runs. -/
theorem Reach.mono {ok' : σ → α → Prop} (hok : ∀ s a, ok s a → ok' s a) {s : σ}
    (h : S.Reach ok s) : S.Reach ok' s := by
  induction h with
  | init hi => exact .init hi
  | step _ ha hs ih => exact .step ih (hok _ _ ha) hs

theorem Reach.reachable {s : σ} (h : S.Reach ok s) : S.Reachable s :=
  h.mono fun _ _ _ => trivial

/-- A run goes on by executing steps that meet the condition wherever they are taken. -/
theorem Reach.run {s t : σ} {as : List α} (h : S.Reach ok s) (hok : ∀ a ∈ as, ∀ u, ok u a)
    (hr : S.run s as = some t) : S.Reach ok t := by
  induction as generalizing s with
  | nil =>
    rw [run_nil, Option.some.injEq] at hr
    exact hr ▸ h
  | cons a as ih =>
    obtain ⟨s', hs, hr'⟩ := run_cons_eq_some hr
    have ha := hok a List.mem_cons_self s
    exact ih (.step h ha hs) (fun b hb => hok b (List.mem_cons_of_mem a hb)) hr'

/-- Every state of an executed run is reachable. -/
theorem Reachable.run {s t : σ} {as : List α} (h : S.Reachable s) (hr : S.run s as = some t) :
    S.Reachable t :=
  Reach.run h (fun _ _ _ => trivial) hr

/-- What every step keeps, a run keeps, from whatever state it starts. -/
theorem run_invariant {I : σ → Prop} (hstep : ∀ s a s', I s → S.step s a = some s' → I s')
    {s t : σ} {as : List α} (hs : I s) (hr : S.run s as = some t) : I t := by
  induction as generalizing s with
  | nil =>
    rw [run_nil, Option.some.injEq] at hr
    exact hr ▸ hs
  | cons a as ih =>
    obtain ⟨s', ha, hr'⟩ := run_cons_eq_some hr
    exact ih (hstep _ _ _ hs ha) hr'

/-- The steps of a run from an initial state, each with the state it was taken from, and the state
they lead to. -/
inductive Trace (S : System σ α) : List (σ × α) → σ → Prop
  | init {s : σ} : S.init s → Trace S [] s
  | step {past : List (σ × α)} {s s' : σ} {a : α} :
      Trace S past s → S.step s a = some s' → Trace S (past ++ [(s, a)]) s'

/-- **Invariant rule** for what a state has to do with the steps that led to it. -/
theorem Trace.invariant {I : List (σ × α) → σ → Prop} (h0 : ∀ s, S.init s → I [] s)
    (hstep : ∀ past s a s', S.Trace past s → I past s → S.step s a = some s' →
      I (past ++ [(s, a)]) s')
    {past : List (σ × α)} {s : σ} (h : S.Trace past s) : I past s := by
  induction h with
  | init hi => exact h0 _ hi
  | step ht hs ih => exact hstep _ _ _ _ ht ih hs

/-- The last step of a trace, taken apart from those before it. -/
theorem Trace.of_snoc {past : List (σ × α)} {e : σ × α} {s : σ} (h : S.Trace (past ++ [e]) s) :
    S.Trace past e.1 ∧ S.step e.1 e.2 = some s := by
  generalize heq : past ++ [e] = whole at h
  cases h with
  | init _ => exact absurd heq (List.append_ne_nil_of_right_ne_nil past (List.cons_ne_nil e []))
  | step ht hs =>
    obtain ⟨rfl, hlast⟩ := List.append_inj' heq rfl
    obtain rfl := List.singleton_inj.mp hlast
    exact ⟨ht, hs⟩

/-- The part of a trace that led to one of its steps. -/
theorem Trace.before {before after : List (σ × α)} {e : σ × α} {s : σ}
    (h : S.Trace (before ++ e :: after) s) : S.Trace before e.1 := by
  induction after using List.reverseRecOn generalizing s with
  | nil => exact h.of_snoc.1
  | append_singleton after last ih =>
    rw [← List.cons_append, ← List.append_assoc] at h
    exact ih h.of_snoc.1

/-- **Invariant rule** for what one step begins and the steps after it keep. -/
theorem Trace.after {I : List (σ × α) → σ → Prop} {before : List (σ × α)} {e : σ × α}
    (h0 : ∀ s, S.Trace before e.1 → S.step e.1 e.2 = some s → I [] s)
    (hstep : ∀ mid s a s', S.Trace (before ++ e :: mid) s → I mid s → S.step s a = some s' →
      I (mid ++ [(s, a)]) s')
    {after : List (σ × α)} {s : σ} (h : S.Trace (before ++ e :: after) s) : I after s := by
  induction after using List.reverseRecOn generalizing s with
  | nil => exact h0 s h.of_snoc.1 h.of_snoc.2
  | append_singleton after last ih =>
    rw [← List.cons_append, ← List.append_assoc] at h
    obtain ⟨ht, hs⟩ := h.of_snoc
    exact hstep after last.1 last.2 s ht (ih ht) hs

variable (S) in
/-- The steps `as` from `s`, each with the state it is taken from, as far as they are enabled. -/
def steps : σ → List α → List (σ × α)
  | _, [] => []
  | s, a :: as =>
    match S.step s a with
    | some s' => (s, a) :: steps s' as
    | none => []

theorem Trace.run_steps {past : List (σ × α)} {s t : σ} {as : List α} (h : S.Trace past s)
    (hr : S.run s as = some t) : S.Trace (past ++ S.steps s as) t := by
  induction as generalizing past s with
  | nil =>
    rw [run_nil, Option.some.injEq] at hr
    rw [steps, List.append_nil]
    exact hr ▸ h
  | cons a as ih =>
    obtain ⟨s', hs, hr'⟩ := run_cons_eq_some hr
    have hrest := ih (.step h hs) hr'
    rw [List.append_assoc, List.singleton_append] at hrest
    rw [steps, hs]
    exact hrest

/-- A run goes on by steps that meet the condition where they are taken. -/
theorem Reach.run_steps {s t : σ} {as : List α} (h : S.Reach ok s)
    (hok : ∀ e ∈ S.steps s as, ok e.1 e.2) (hr : S.run s as = some t) : S.Reach ok t := by
  induction as generalizing s with
  | nil =>
    rw [run_nil, Option.some.injEq] at hr
    exact hr ▸ h
  | cons a as ih =>
    obtain ⟨s', hs, hr'⟩ := run_cons_eq_some hr
    rw [steps, hs] at hok
    obtain ⟨ha, hrest⟩ := List.forall_mem_cons.mp hok
    exact ih (.step h ha hs) hrest hr'

theorem mem_of_mem_steps {s : σ} {as : List α} {e : σ × α} (h : e ∈ S.steps s as) : e.2 ∈ as := by
  induction as generalizing s with
  | nil => cases h
  | cons a as ih =>
    rw [steps] at h
    split at h
    · obtain rfl | h := List.mem_cons.mp h
      · exact List.mem_cons_self
      · exact List.mem_cons_of_mem a (ih h)
    · cases h

/-- Executed steps extend a trace. -/
theorem Trace.run {past : List (σ × α)} {s t : σ} {as : List α} (h : S.Trace past s)
    (hr : S.run s as = some t) : ∃ past', S.Trace past' t :=
  ⟨_, h.run_steps hr⟩

end System

end Transition
