import Mathlib.Data.List.Basic

/-!
# Fallible computations that may also panic

`Outcome ε α` is what a call of a function returning `Result<α, ε>` can come to: a value, an error,
or a panic, after which nothing more is computed. `bind_eq_ok` takes a successful computation apart
step by step, without looking at the failures that did not happen, and `foldlM_invariant` does the
same for a loop.
-/

set_option autoImplicit false
set_option relaxedAutoImplicit false

namespace Playground.Library

/-- A value, an error, or a panic. -/
inductive Outcome (ε α : Type*)
  | ok (value : α)
  | err (error : ε)
  | panic
  deriving DecidableEq

namespace Outcome

universe u v

variable {ε : Type u} {α β : Type v}

/-- Go on with the value of a successful computation. -/
def bind (outcome : Outcome ε α) (next : α → Outcome ε β) : Outcome ε β :=
  match outcome with
  | ok value => next value
  | err error => err error
  | panic => panic

instance : Monad (Outcome ε) where
  pure := ok
  bind := bind

instance : LawfulMonad (Outcome ε) :=
  .mk' (Outcome ε) (fun outcome ↦ by cases outcome <;> rfl) (fun _ _ ↦ rfl)
    (fun outcome _ _ ↦ by cases outcome <;> rfl)

/-- Change the error of a failed computation. -/
def mapErr {ε' : Type*} (change : ε → ε') : Outcome ε α → Outcome ε' α
  | ok value => ok value
  | err error => err (change error)
  | panic => panic

@[simp] theorem pure_eq_ok (value : α) : (pure value : Outcome ε α) = ok value :=
  rfl

@[simp] theorem ok_bind (value : α) (next : α → Outcome ε β) : (ok value >>= next) = next value :=
  rfl

@[simp] theorem err_bind (error : ε) (next : α → Outcome ε β) :
    ((err error : Outcome ε α) >>= next) = err error :=
  rfl

@[simp] theorem panic_bind (next : α → Outcome ε β) :
    ((panic : Outcome ε α) >>= next) = panic :=
  rfl

/-- A sequence succeeds when its first part does and the rest does on its value. -/
theorem bind_eq_ok {outcome : Outcome ε α} {next : α → Outcome ε β} {result : β} :
    (outcome >>= next) = ok result ↔ ∃ value, outcome = ok value ∧ next value = ok result := by
  cases outcome with
  | ok value => simp
  | err error => simp
  | panic => simp

/-- A sequence panics only where one of its parts does. -/
theorem bind_ne_panic {outcome : Outcome ε α} {next : α → Outcome ε β} (hfirst : outcome ≠ panic)
    (hnext : ∀ value, next value ≠ panic) : (outcome >>= next) ≠ panic := by
  cases outcome with
  | ok value => exact hnext value
  | err error => simp
  | panic => exact absurd rfl hfirst

/-- A loop panics only where one of its rounds does. -/
theorem foldlM_ne_panic {step : β → α → Outcome ε β} (hstep : ∀ state entry, step state entry ≠ panic)
    {entries : List α} : ∀ start, entries.foldlM step start ≠ panic := by
  induction entries with
  | nil => exact fun start ↦ by simp
  | cons entry rest ih =>
    intro start
    rw [List.foldlM_cons]
    exact bind_ne_panic (hstep start entry) ih

/-- Changing the error does not touch a success. -/
@[simp] theorem mapErr_eq_ok {ε' : Type*} {change : ε → ε'} {outcome : Outcome ε α} {value : α} :
    outcome.mapErr change = ok value ↔ outcome = ok value := by
  cases outcome <;> simp [mapErr]

/-- A check that fails with an error lets only the other branch succeed. -/
@[simp] theorem ite_err_eq_ok {condition : Prop} [Decidable condition] {error : ε}
    {outcome : Outcome ε α} {result : α} :
    (if condition then err error else outcome) = ok result ↔
      ¬ condition ∧ outcome = ok result := by
  by_cases hcondition : condition <;> simp [hcondition]

/-- The invariant rule for a loop that may fail: what holds at the start of the entries done so far,
which are none, and is kept by every iteration that succeeds holds at the end of a loop that
succeeds of all entries. -/
theorem foldlM_invariant_done (property : List α → β → Prop) {step : β → α → Outcome ε β} :
    ∀ {entries : List α} (done : List α),
      (∀ done state entry result, entry ∈ entries → property done state →
        step state entry = ok result → property (done ++ [entry]) result) →
      ∀ {start finish : β}, property done start → entries.foldlM step start = ok finish →
        property (done ++ entries) finish := by
  intro entries
  induction entries with
  | nil =>
    intro done hstep start finish hstart hfold
    obtain rfl := ok.inj hfold
    rwa [List.append_nil]
  | cons entry rest ih =>
    intro done hstep start finish hstart hfold
    rw [List.foldlM_cons] at hfold
    obtain ⟨middle, hfirst, hrest⟩ := bind_eq_ok.mp hfold
    have hmiddle := hstep done start entry middle List.mem_cons_self hstart hfirst
    rw [List.append_cons]
    refine ih (done ++ [entry]) (fun done state other result hother ↦ ?_) hmiddle hrest
    exact hstep done state other result (List.mem_cons_of_mem _ hother)

/-- The invariant rule for a property that does not look at the entries done so far. -/
theorem foldlM_invariant (property : β → Prop) {step : β → α → Outcome ε β} {entries : List α}
    (hstep : ∀ state entry result, entry ∈ entries → property state →
      step state entry = ok result → property result) {start finish : β} (hstart : property start)
    (hfold : entries.foldlM step start = ok finish) : property finish :=
  foldlM_invariant_done (fun _ ↦ property) [] (fun _ ↦ hstep) hstart hfold

end Outcome

end Playground.Library
