import Mathlib.Logic.Relation
import Mathlib.Data.List.Basic
import Mathlib.Data.List.Induction

/-!
# Runs of a labelled transition relation

A run takes a state through a list of labels, one step of the relation a label. `Run` grows at
its end, so that an induction on a run looks at the last step, and `Run.invariant` packages the
induction of an invariant. A guard on the labels, read in the state before the step, is imposed by
`Guarded`: a guarded run is a run every step of which meets the guard, and `Run.invariant_guarded`
is the invariant rule for such runs, the only place where the guard is used being the step.

Not formalized here: infinite runs and fairness. Every statement of the development is about the
states and the labels of a finite run.
-/

set_option autoImplicit false
set_option relaxedAutoImplicit false

namespace Playground.Library

variable {σ α : Type*}

/-- The runs of a labelled transition relation: the state reached from a start state along a list
of labels. -/
inductive Run (step : σ → α → σ → Prop) : σ → List α → σ → Prop
  | nil (start : σ) : Run step start [] start
  | snoc {start middle finish : σ} {labels : List α} {label : α} :
      Run step start labels middle → step middle label finish →
        Run step start (labels ++ [label]) finish

/-- The steps of a relation whose label meets a guard in the state before the step. -/
def Guarded (step : σ → α → σ → Prop) (guard : σ → α → Prop) (before : σ) (label : α) (after : σ) :
    Prop :=
  guard before label ∧ step before label after

/-- The transition relation of a partial step function. -/
def StepsTo (step : σ → α → Option σ) (before : σ) (label : α) (after : σ) : Prop :=
  step before label = some after

/-- What each step of two partial step functions keeps between their states, their folds keep. -/
theorem foldlM_rel {τ : Type*} {step : σ → α → Option σ} {other : τ → α → Option τ}
    {related : σ → τ → Prop}
    (hstep : ∀ label state view, related state view → Option.Rel related (step state label) (other view label))
    (labels : List α) {state : σ} {view : τ} (hstart : related state view) :
    Option.Rel related (labels.foldlM step state) (labels.foldlM other view) := by
  induction labels generalizing state view with
  | nil => exact .some hstart
  | cons label rest ih =>
    rw [List.foldlM_cons, List.foldlM_cons]
    have hlabel := hstep label state view hstart
    generalize step state label = next at hlabel ⊢
    generalize other view label = nextView at hlabel ⊢
    cases hlabel with
    | none => exact .none
    | some hnext => exact ih hnext

/-- A property that a step keeps exactly if its label meets a guard holds after every prefix of the
labels exactly if each of them meets it when its turn comes. -/
theorem forall_prefix_iff {step : σ → α → σ} {property : σ → Prop} {guard : σ → α → Prop} {start : σ}
    (hstart : property start)
    (hstep : ∀ state label, property state → (property (step state label) ↔ guard state label))
    (labels : List α) :
    (∀ before, before <+: labels → property (before.foldl step start)) ↔
      ∀ before label, before ++ [label] <+: labels → guard (before.foldl step start) label := by
  constructor
  · intro hall before label hprefix
    have hbefore := hall before ((List.prefix_append before [label]).trans hprefix)
    have hafter := hall (before ++ [label]) hprefix
    rw [List.foldl_append] at hafter
    exact (hstep _ label hbefore).mp hafter
  · intro hall before
    induction before using List.reverseRecOn with
    | nil => exact fun _ ↦ hstart
    | append_singleton before label ih =>
      intro hprefix
      have hbefore := ih ((List.prefix_append before [label]).trans hprefix)
      rw [List.foldl_append]
      exact (hstep _ label hbefore).mpr (hall before label hprefix)

/-- A fold of a partial step function keeps what each of its steps keeps. -/
theorem foldlM_invariant {step : σ → α → Option σ} {motive : σ → Prop}
    (hstep : ∀ before label after, motive before → step before label = some after → motive after)
    {labels : List α} : ∀ {start finish : σ}, labels.foldlM step start = some finish →
      motive start → motive finish := by
  induction labels with
  | nil =>
    intro start finish hfold hstart
    obtain rfl : start = finish := by simpa using hfold
    exact hstart
  | cons label rest ih =>
    intro start finish hfold hstart
    rw [List.foldlM_cons] at hfold
    obtain ⟨middle, hfirst, hrest⟩ := Option.bind_eq_some_iff.mp hfold
    exact ih hrest (hstep _ _ _ hstart hfirst)

namespace Run

variable {step : σ → α → σ → Prop}

/-- A single step is a run. -/
theorem single {before after : σ} {label : α} (hstep : step before label after) :
    Run step before [label] after :=
  .snoc (.nil before) hstep

/-- A run ends with the step of its last label. -/
theorem exists_of_append_singleton {start finish : σ} {labels : List α} {label : α}
    (hrun : Run step start (labels ++ [label]) finish) :
    ∃ middle, Run step start labels middle ∧ step middle label finish := by
  generalize hlabels : labels ++ [label] = all at hrun
  cases hrun with
  | nil => exact absurd hlabels (List.append_ne_nil_of_right_ne_nil _ (List.cons_ne_nil _ _))
  | @snoc middle _ front last hfirst hlast =>
    obtain ⟨hfront, hlabel⟩ := List.append_inj' hlabels rfl
    obtain rfl := List.singleton_inj.mp hlabel
    exact ⟨middle, hfront ▸ hfirst, hlast⟩

/-- A run along no label goes nowhere. -/
theorem eq_of_nil {before after : σ} (hrun : Run step before [] after) : before = after := by
  generalize hlabels : [] = labels at hrun
  cases hrun with
  | nil => rfl
  | snoc => exact absurd hlabels.symm (List.append_ne_nil_of_right_ne_nil _ (List.cons_ne_nil _ _))

/-- A run along one label is a step. -/
theorem of_singleton {before after : σ} {label : α} (hrun : Run step before [label] after) :
    step before label after := by
  have hempty : Run step before ([] ++ [label]) after := hrun
  obtain ⟨middle, hfirst, hlast⟩ := exists_of_append_singleton hempty
  rwa [eq_of_nil hfirst]

/-- Runs compose. -/
theorem append {start middle finish : σ} {first second : List α}
    (hfirst : Run step start first middle) (hsecond : Run step middle second finish) :
    Run step start (first ++ second) finish := by
  induction hsecond with
  | nil => simpa using hfirst
  | snoc _ hstep ih =>
    rw [← List.append_assoc]
    exact .snoc ih hstep

/-- A step in front of a run. -/
theorem cons {start middle finish : σ} {label : α} {labels : List α}
    (hstep : step start label middle) (hrun : Run step middle labels finish) :
    Run step start (label :: labels) finish :=
  (single hstep).append hrun

/-- A run of one relation is a run of any relation that contains its steps. -/
theorem mono {other : σ → α → σ → Prop}
    (hsub : ∀ before label after, step before label after → other before label after)
    {start finish : σ} {labels : List α} (hrun : Run step start labels finish) :
    Run other start labels finish := by
  induction hrun with
  | nil => exact .nil _
  | snoc _ hstep ih => exact .snoc ih (hsub _ _ _ hstep)

/-- Folding a partial step function over labels gives a run. -/
theorem of_foldlM {step : σ → α → Option σ} {labels : List α} :
    ∀ {start finish : σ}, labels.foldlM step start = some finish →
      Run (StepsTo step) start labels finish := by
  induction labels with
  | nil =>
    intro start finish hfold
    obtain rfl : start = finish := by simpa using hfold
    exact .nil start
  | cons label rest ih =>
    intro start finish hfold
    rw [List.foldlM_cons] at hfold
    obtain ⟨middle, hfirst, hrest⟩ := Option.bind_eq_some_iff.mp hfold
    exact cons hfirst (ih hrest)

/-- Folding a partial step function that stops at labels outside a guard gives a guarded run. -/
theorem guarded_of_foldlM {step : σ → α → Option σ} {guard : σ → α → Prop}
    [∀ state label, Decidable (guard state label)] {labels : List α} {start finish : σ}
    (hfold : labels.foldlM
      (fun state label ↦ if guard state label then step state label else none) start = some finish) :
    Run (Guarded (StepsTo step) guard) start labels finish := by
  refine (of_foldlM hfold).mono fun before label after hstep ↦ ?_
  rw [StepsTo, Option.ite_none_right_eq_some] at hstep
  exact hstep

/-- The invariant rule: a property of the start state that every step preserves holds at the end of
every run. -/
theorem invariant {property : σ → Prop}
    (hstep : ∀ before label after, property before → step before label after → property after)
    {start finish : σ} {labels : List α} (hrun : Run step start labels finish)
    (hstart : property start) : property finish := by
  induction hrun with
  | nil => exact hstart
  | snoc _ hlast ih => exact hstep _ _ _ ih hlast

/-- The invariant rule for guarded runs: the steps need to preserve the property only where they
meet the guard. -/
theorem invariant_guarded {guard : σ → α → Prop} {property : σ → Prop}
    (hstep : ∀ before label after, property before → guard before label →
      step before label after → property after)
    {start finish : σ} {labels : List α} (hrun : Run (Guarded step guard) start labels finish)
    (hstart : property start) : property finish := by
  refine hrun.invariant (fun before label after hbefore hlast ↦ ?_) hstart
  exact hstep before label after hbefore hlast.1 hlast.2

/-- A guarded run is guarded otherwise if every step of it, from a state with a property that the steps
preserve, meets the other guard. -/
theorem reguarded {guard other : σ → α → Prop} {property : σ → Prop}
    (hstep : ∀ before label after, property before → guard before label →
      step before label after → other before label ∧ property after)
    {start finish : σ} {labels : List α} (hrun : Run (Guarded step guard) start labels finish)
    (hstart : property start) : Run (Guarded step other) start labels finish ∧ property finish := by
  induction hrun with
  | nil => exact ⟨.nil _, hstart⟩
  | snoc _ hlast ih =>
    obtain ⟨hguarded, hmiddle⟩ := ih
    obtain ⟨hother, hfinish⟩ := hstep _ _ _ hmiddle hlast.1 hlast.2
    exact ⟨.snoc hguarded ⟨hother, hlast.2⟩, hfinish⟩

/-- A run is guarded if a property that its steps preserve implies the guard of its labels. -/
theorem guarded_of_invariant {guard : σ → α → Prop} {property : σ → Prop} {start finish : σ}
    {labels : List α} (hrun : Run step start labels finish) (hstart : property start)
    (hguard : ∀ state, property state → ∀ label ∈ labels, guard state label)
    (hstep : ∀ before label after, label ∈ labels → property before → step before label after →
      property after) : Run (Guarded step guard) start labels finish ∧ property finish := by
  induction hrun with
  | nil => exact ⟨.nil _, hstart⟩
  | @snoc middle finish labels label hrun hlast ih =>
    have hmem : label ∈ labels ++ [label] := List.mem_append_right _ (List.mem_singleton_self _)
    obtain ⟨hguarded, hmiddle⟩ := ih
      (fun state hstate other hother ↦ hguard state hstate other (List.mem_append_left _ hother))
      fun before other after hother ↦ hstep before other after (List.mem_append_left _ hother)
    exact ⟨.snoc hguarded ⟨hguard middle hmiddle label hmem, hlast⟩,
      hstep middle label finish hmem hmiddle hlast⟩

end Run

end Playground.Library
