import Mathlib.Data.Set.Finite.Basic
import Mathlib.Logic.Relation
import Mathlib.Order.WellFoundedSet
import Playground.Library.Acyclic

/-!
# Relations that can be followed only finitely often

`Grounded relation` says that following a relation from anywhere comes to an end. A relation that leads to
finitely many places is grounded exactly if no place leads back to itself (`grounded_iff_acyclic`).
Redirecting what leads away from one place keeps the relation grounded if none of the new targets leads
back to it (`Grounded.redirect`); nothing is required of where that place led before.
-/

set_option autoImplicit false
set_option relaxedAutoImplicit false

namespace Playground.Library

variable {α : Type*} {relation other : α → α → Prop}

/-- Following a relation from anywhere comes to an end. -/
def Grounded (relation : α → α → Prop) : Prop :=
  WellFounded fun target source ↦ relation source target

namespace Grounded

/-- What holds of a place if it holds of all to which it leads holds everywhere. -/
theorem induction {motive : α → Prop} (hgrounded : Grounded relation)
    (hstep : ∀ source, (∀ target, relation source target → motive target) → motive source)
    (place : α) : motive place :=
  WellFounded.induction hgrounded place hstep

/-- A part of a grounded relation is grounded. -/
theorem mono (hgrounded : Grounded relation)
    (hsub : ∀ source target, other source target → relation source target) : Grounded other :=
  Subrelation.wf (fun hother ↦ hsub _ _ hother) hgrounded

/-- Nothing leads back to itself. -/
theorem acyclic (hgrounded : Grounded relation) : Acyclic relation := by
  intro place
  refine hgrounded.induction (motive := fun place ↦ ¬ Relation.TransGen relation place place)
    (fun source ih hcycle ↦ ?_) place
  obtain ⟨target, hfirst, hrest⟩ := Relation.TransGen.head'_iff.mp hcycle
  exact ih target hfirst (Relation.TransGen.tail' hrest hfirst)

/-- Redirecting what leads away from a place keeps the relation grounded if no new target leads back to
it. -/
theorem redirect (hgrounded : Grounded relation) (changed : α)
    (hother : ∀ source target, source ≠ changed → other source target → relation source target)
    (hnew : ∀ target, other changed target → ¬ Relation.ReflTransGen relation target changed) :
    Grounded other := by
  -- From where the changed place is not reached nothing has changed.
  have haway : ∀ place, ¬ Relation.ReflTransGen relation place changed →
      Acc (fun target source ↦ other source target) place := by
    refine hgrounded.induction fun source ih haway ↦ ?_
    have hne : source ≠ changed := fun heq ↦ haway (heq ▸ Relation.ReflTransGen.refl)
    refine Acc.intro source fun target htarget ↦ ?_
    have hold := hother source target hne htarget
    exact ih target hold fun hreaches ↦ haway (hreaches.head hold)
  refine ⟨hgrounded.induction fun source ih ↦ Acc.intro source fun target htarget ↦ ?_⟩
  by_cases hsource : source = changed
  · subst hsource
    exact haway target (hnew target htarget)
  · exact ih target (hother source target hsource htarget)

end Grounded

/-- A relation that leads to finitely many places is grounded exactly if none leads back to itself. -/
theorem grounded_iff_acyclic {places : Set α} (hfinite : places.Finite)
    (hplaces : ∀ source target, relation source target → target ∈ places) :
    Grounded relation ↔ Acyclic relation := by
  refine ⟨Grounded.acyclic, fun hacyclic ↦ ?_⟩
  let before : α → α → Prop := fun target source ↦ Relation.TransGen relation source target
  have horder : IsStrictOrder α before :=
    { irrefl := hacyclic
      trans := fun _ _ _ hsecond hfirst ↦ hfirst.trans hsecond }
  have hwell : places.WellFoundedOn before := hfinite.wellFoundedOn
  have hplace : ∀ place ∈ places, Acc (fun target source ↦ relation source target) place := by
    intro place hmem
    refine hwell.induction hmem fun source _ ih ↦ Acc.intro source fun target htarget ↦ ?_
    exact ih target (hplaces source target htarget) (Relation.TransGen.single htarget)
  exact ⟨fun source ↦ Acc.intro source fun target htarget ↦
    hplace target (hplaces source target htarget)⟩

end Playground.Library
