import Mathlib.Logic.Relation
import Mathlib.Order.Basic

/-!
# Relations that lead nowhere back

`Acyclic relation` says that no place leads back to itself. In a part of an acyclic relation the target of
a pair does not lead back to its source, also if the pair is not in that part
(`Acyclic.not_reflTransGen`). A relation is acyclic if a rank gets smaller along it (`acyclic_of_rank`),
and if a layer never gets greater along it and it is acyclic in every layer (`acyclic_of_layers`).
-/

set_option autoImplicit false
set_option relaxedAutoImplicit false

namespace Playground.Library

variable {α β : Type*} {relation other : α → α → Prop}

/-- No place leads back to itself. -/
def Acyclic (relation : α → α → Prop) : Prop :=
  ∀ place, ¬ Relation.TransGen relation place place

namespace Acyclic

/-- A part of an acyclic relation is acyclic. -/
theorem mono (hacyclic : Acyclic relation)
    (hsub : ∀ source target, other source target → relation source target) : Acyclic other :=
  fun place hcycle ↦ hacyclic place (Relation.TransGen.mono hsub _ _ hcycle)

/-- The target of a pair does not lead back to its source, by way of a part of the relation. -/
theorem not_reflTransGen (hacyclic : Acyclic relation)
    (hsub : ∀ source target, other source target → relation source target) {source target : α}
    (hpair : relation source target) : ¬ Relation.ReflTransGen other target source :=
  fun hback ↦ hacyclic source (Relation.TransGen.head' hpair (Relation.ReflTransGen.mono hsub _ _ hback))

end Acyclic

/-- A relation along which a rank gets smaller is acyclic. -/
theorem acyclic_of_rank [Preorder β] {rank : α → β}
    (hrank : ∀ source target, relation source target → rank target < rank source) :
    Acyclic relation := by
  have hpath : ∀ source target, Relation.TransGen relation source target →
      rank target < rank source := by
    intro source target hpath
    induction hpath with
    | single hpair => exact hrank _ _ hpair
    | tail _ hpair ih => exact (hrank _ _ hpair).trans ih
  exact fun place hcycle ↦ lt_irrefl _ (hpath place place hcycle)

/-- A relation along which a layer never gets greater is acyclic if it is so in every layer. -/
theorem acyclic_of_layers [PartialOrder β] {layer : α → β}
    (hle : ∀ source target, relation source target → layer target ≤ layer source)
    (hlayers : ∀ level, Acyclic fun source target ↦
      relation source target ∧ layer source = level ∧ layer target = level) : Acyclic relation := by
  -- A path whose ends are in one layer does not leave it.
  have hpath : ∀ source target, Relation.TransGen relation source target →
      layer target ≤ layer source ∧ (layer source ≤ layer target →
        Relation.TransGen (fun first second ↦ relation first second ∧ layer first = layer source ∧
          layer second = layer source) source target) := by
    intro source target hpath
    induction hpath with
    | single hpair =>
      have hlast := hle _ _ hpair
      exact ⟨hlast, fun hback ↦ .single ⟨hpair, rfl, hlast.antisymm hback⟩⟩
    | tail _ hpair ih =>
      have hlast := hle _ _ hpair
      refine ⟨hlast.trans ih.1, fun hback ↦ ?_⟩
      have hmiddle := hback.trans hlast
      exact (ih.2 hmiddle).tail ⟨hpair, ih.1.antisymm hmiddle, (hlast.trans ih.1).antisymm hback⟩
  exact fun place hcycle ↦ hlayers _ place ((hpath place place hcycle).2 le_rfl)

end Playground.Library
