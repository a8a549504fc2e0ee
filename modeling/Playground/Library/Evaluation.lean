import Mathlib.Algebra.Order.Ring.Nat
import Mathlib.Data.Option.Basic
import Mathlib.Order.Lattice

/-!
# Evaluations with fuel

An `Evaluation` yields a value, throws, or has not come to an end with the fuel it was given. A recursive
function of a program is a family of evaluations, one for each amount of fuel. Such a family is `Growing` if
more fuel changes nothing once the evaluation has come to an end; it `Ends` if some amount is enough. A
sequence of growing families ends if its parts do (`Ends.bind`, `Ends.mapM`).
-/

set_option autoImplicit false
set_option relaxedAutoImplicit false

namespace Playground.Library

/-- What an evaluation with bounded fuel comes to: nothing yet, an error or a value. -/
abbrev Evaluation (ε : Type) := ExceptT ε Option

namespace Evaluation

variable {ε α β : Type}

/-- The evaluation that is out of fuel. -/
def unfinished : Evaluation ε α :=
  ExceptT.mk none

/-- The evaluation that throws or yields a value. -/
def ofExcept (result : Except ε α) : Evaluation ε α :=
  ExceptT.mk (some result)

/-- The evaluation has come to an end. -/
def Finished (evaluation : Evaluation ε α) : Prop :=
  evaluation.run ≠ none

/-- An evaluation is the same as another one once that has come to an end. -/
def Extends (earlier later : Evaluation ε α) : Prop :=
  Finished earlier → later = earlier

/-- More fuel changes nothing once the evaluation has come to an end. -/
def Growing (family : ℕ → Evaluation ε α) : Prop :=
  ∀ fuel, Extends (family fuel) (family (fuel + 1))

/-- Some amount of fuel is enough. -/
def Ends (family : ℕ → Evaluation ε α) : Prop :=
  ∃ fuel, Finished (family fuel)

theorem not_finished_unfinished : ¬ Finished (unfinished : Evaluation ε α) :=
  fun hfinished ↦ hfinished rfl

theorem finished_ofExcept (result : Except ε α) : Finished (ofExcept result) :=
  Option.some_ne_none result

theorem finished_pure (value : α) : Finished (pure value : Evaluation ε α) :=
  Option.some_ne_none (Except.ok value)

/-- An evaluation is unfinished, throws or yields a value. -/
theorem cases_of (evaluation : Evaluation ε α) :
    evaluation = unfinished ∨ (∃ error, evaluation = ofExcept (.error error)) ∨
      ∃ value, evaluation = pure value := by
  rcases hrun : evaluation.run with _ | error | value
  · exact .inl hrun
  · exact .inr (.inl ⟨error, hrun⟩)
  · exact .inr (.inr ⟨value, hrun⟩)

theorem unfinished_bind (next : α → Evaluation ε β) : unfinished >>= next = unfinished :=
  rfl

theorem error_bind (error : ε) (next : α → Evaluation ε β) :
    ofExcept (.error error) >>= next = ofExcept (.error error) :=
  rfl

/-- A sequence has come to an end exactly if the first part has and the second part has wherever it
goes on. -/
theorem finished_bind_iff {evaluation : Evaluation ε α} {next : α → Evaluation ε β} :
    Finished (evaluation >>= next) ↔
      Finished evaluation ∧ ∀ value, evaluation = pure value → Finished (next value) := by
  rcases cases_of evaluation with rfl | ⟨error, rfl⟩ | ⟨value, rfl⟩
  · rw [unfinished_bind]
    exact ⟨fun hfinished ↦ absurd hfinished not_finished_unfinished,
      fun hboth ↦ absurd hboth.1 not_finished_unfinished⟩
  · rw [error_bind]
    refine ⟨fun _ ↦ ⟨finished_ofExcept _, fun value hpure ↦ ?_⟩, fun _ ↦ finished_ofExcept _⟩
    have hrun : some (Except.error error) = some (Except.ok value) := congrArg ExceptT.run hpure
    cases hrun
  · rw [pure_bind]
    refine ⟨fun hfinished ↦ ⟨finished_pure value, fun other hpure ↦ ?_⟩, fun hboth ↦ hboth.2 value rfl⟩
    have hrun : some (Except.ok value) = some (Except.ok other) := congrArg ExceptT.run hpure
    cases hrun
    exact hfinished

namespace Extends

theorem refl (evaluation : Evaluation ε α) : Extends evaluation evaluation :=
  fun _ ↦ rfl

/-- A sequence is extended with its parts. -/
theorem bind {earlier later : Evaluation ε α} {next laterNext : α → Evaluation ε β}
    (hfirst : Extends earlier later) (hnext : ∀ value, Extends (next value) (laterNext value)) :
    Extends (earlier >>= next) (later >>= laterNext) := by
  intro hfinished
  obtain ⟨hearlier, hrest⟩ := finished_bind_iff.mp hfinished
  rw [hfirst hearlier]
  rcases cases_of earlier with rfl | ⟨error, rfl⟩ | ⟨value, rfl⟩
  · exact absurd hearlier not_finished_unfinished
  · rw [error_bind, error_bind]
  · rw [pure_bind, pure_bind]
    exact hnext value (hrest value rfl)

/-- Evaluations one after another are extended with each of them. -/
theorem mapM {γ : Type} {body laterBody : γ → Evaluation ε α} {entries : List γ}
    (hbody : ∀ entry ∈ entries, Extends (body entry) (laterBody entry)) :
    Extends (entries.mapM body) (entries.mapM laterBody) := by
  induction entries with
  | nil => exact refl (pure [])
  | cons entry rest ih =>
    rw [List.forall_mem_cons] at hbody
    rw [List.mapM_cons, List.mapM_cons]
    exact bind hbody.1 fun value ↦ bind (ih hbody.2) fun values ↦ refl _

end Extends

namespace Growing

variable {family : ℕ → Evaluation ε α}

/-- What has come to an end stays as it is with more fuel. -/
theorem eq_of_le (hgrowing : Growing family) {fuel more : ℕ} (hle : fuel ≤ more)
    (hfinished : Finished (family fuel)) : family more = family fuel := by
  induction more, hle using Nat.le_induction with
  | base => rfl
  | succ more hle ih =>
    rw [hgrowing more (ih ▸ hfinished), ih]

theorem const (evaluation : Evaluation ε α) : Growing fun _ ↦ evaluation :=
  fun _ ↦ Extends.refl evaluation

/-- A sequence of growing families grows. -/
theorem bind {next : ℕ → α → Evaluation ε β} (hgrowing : Growing family)
    (hnext : ∀ value, Growing fun fuel ↦ next fuel value) :
    Growing fun fuel ↦ family fuel >>= next fuel :=
  fun fuel ↦ Extends.bind (hgrowing fuel) fun value ↦ hnext value fuel

/-- Growing families that are evaluated one after another grow. -/
theorem mapM {γ : Type} {body : ℕ → γ → Evaluation ε α} {entries : List γ}
    (hbody : ∀ entry ∈ entries, Growing fun fuel ↦ body fuel entry) :
    Growing fun fuel ↦ entries.mapM (body fuel) :=
  fun fuel ↦ Extends.mapM fun entry hentry ↦ hbody entry hentry fuel

end Growing

namespace Ends

variable {family : ℕ → Evaluation ε α}

theorem const {evaluation : Evaluation ε α} (hfinished : Finished evaluation) :
    Ends fun _ : ℕ ↦ evaluation :=
  ⟨0, hfinished⟩

/-- A sequence ends if its parts do. -/
theorem bind {next : ℕ → α → Evaluation ε β} (hgrowing : Growing family)
    (hnext : ∀ value, Growing fun fuel ↦ next fuel value) (hends : Ends family)
    (hnextEnds : ∀ value, Ends fun fuel ↦ next fuel value) :
    Ends fun fuel ↦ family fuel >>= next fuel := by
  obtain ⟨first, hfirst⟩ := hends
  rcases cases_of (family first) with heq | ⟨error, heq⟩ | ⟨value, heq⟩
  · exact absurd (heq ▸ hfirst) not_finished_unfinished
  · refine ⟨first, ?_⟩
    show Finished (family first >>= next first)
    rw [heq, error_bind]
    exact finished_ofExcept _
  · obtain ⟨second, hsecond⟩ := hnextEnds value
    have hfamily := hgrowing.eq_of_le (le_max_left first second) hfirst
    have hlater := (hnext value).eq_of_le (le_max_right first second) hsecond
    refine ⟨max first second, ?_⟩
    show Finished (family (max first second) >>= next (max first second))
    rw [hfamily, heq, pure_bind, hlater]
    exact hsecond

/-- A list of evaluations one after another ends if each of them does. -/
theorem mapM {γ : Type} {body : ℕ → γ → Evaluation ε α} {entries : List γ}
    (hbody : ∀ entry ∈ entries, Growing fun fuel ↦ body fuel entry)
    (hends : ∀ entry ∈ entries, Ends fun fuel ↦ body fuel entry) :
    Ends fun fuel ↦ entries.mapM (body fuel) := by
  induction entries with
  | nil => exact const (finished_pure [])
  | cons entry rest ih =>
    rw [List.forall_mem_cons] at hbody hends
    simp only [List.mapM_cons]
    exact bind hbody.1 (fun value ↦ .bind (.mapM hbody.2) fun values ↦ .const _) hends.1
      fun value ↦ bind (.mapM hbody.2) (fun values ↦ .const _) (ih hbody.2 hends.2)
        fun values ↦ const (finished_pure _)

/-- A family that is another one with one more unit of fuel ends exactly if the other one does. -/
theorem of_succ {other : ℕ → Evaluation ε α} (hends : Ends other)
    (hsucc : ∀ fuel, family (fuel + 1) = other fuel) : Ends family := by
  obtain ⟨fuel, hfinished⟩ := hends
  exact ⟨fuel + 1, hsucc fuel ▸ hfinished⟩

end Ends

end Evaluation

end Playground.Library
