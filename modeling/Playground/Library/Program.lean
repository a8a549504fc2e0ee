import Mathlib.Data.List.Basic

/-!
# Programs with a state and exceptions

A method that reads and changes a state and may throw is an action of `EStateM`; what it has changed
before it throws stays changed. `Triple` is the Hoare triple of such an action, with one
postcondition for a normal return and one for an exception, and `Keeps` the special case of an
invariant. The rules take a program apart along its constructs. `bind_eq_ok` does the same for one
run that is known to return.
-/

set_option autoImplicit false
set_option relaxedAutoImplicit false

namespace Playground.Library

variable {ε σ α β : Type}

/-- From a state with the precondition the action returns in a state with the postcondition, or
throws in a state with the exceptional one. -/
def Triple (pre : σ → Prop) (action : EStateM ε σ α) (post : α → σ → Prop)
    (failed : σ → Prop) : Prop :=
  ∀ state, pre state →
    match action state with
    | .ok value after => post value after
    | .error _ after => failed after

/-- The action preserves a property, also where it throws. -/
def Keeps (property : σ → Prop) (action : EStateM ε σ α) : Prop :=
  Triple property action (fun _ ↦ property) property

/-- The state in which a run of an action ends. -/
def finalState : EStateM.Result ε σ α → σ
  | .ok _ state => state
  | .error _ state => state

/-- The run of an action returns. -/
def returns : EStateM.Result ε σ α → Bool
  | .ok _ _ => true
  | .error _ _ => false

/-- A run that returns ends in its final state. -/
theorem eq_ok_finalState {result : EStateM.Result ε σ Unit} (hreturns : returns result = true) :
    result = .ok () (finalState result) := by
  cases result with
  | ok value after => rfl
  | error error after => cases hreturns

/-! ### Runs that return -/

/-- A sequence returns when its first part does and the rest does on its value. -/
theorem bind_eq_ok {action : EStateM ε σ α} {next : α → EStateM ε σ β} {state after : σ}
    {result : β} :
    (action >>= next) state = .ok result after ↔
      ∃ value middle, action state = .ok value middle ∧ next value middle = .ok result after := by
  change EStateM.bind action next state = _ ↔ _
  unfold EStateM.bind
  cases action state with
  | ok value middle => simp
  | error error middle => simp

/-- A sequence throws when its first part does, or the rest on its value. -/
theorem bind_eq_error {action : EStateM ε σ α} {next : α → EStateM ε σ β} {state after : σ}
    {error : ε} :
    (action >>= next) state = .error error after ↔
      action state = .error error after ∨
        ∃ value middle, action state = .ok value middle ∧ next value middle = .error error after := by
  change EStateM.bind action next state = _ ↔ _
  unfold EStateM.bind
  cases action state with
  | ok value middle => simp
  | error error middle => simp

/-- An action with a handler returns when the action does, or the handler on its error. -/
theorem tryCatch_eq_ok {action : EStateM ε σ α} {handler : ε → EStateM ε σ α} {state after : σ}
    {result : α} :
    (tryCatch action handler : EStateM ε σ α) state = .ok result after ↔
      action state = .ok result after ∨
        ∃ error failed, action state = .error error failed ∧
          handler error failed = .ok result after := by
  change EStateM.tryCatch action handler state = _ ↔ _
  unfold EStateM.tryCatch
  cases action state with
  | ok value middle => simp
  | error error middle =>
    simp only [EStateM.Result.error.injEq, reduceCtorEq, false_or]
    constructor
    · exact fun hhandler ↦ ⟨error, middle, ⟨rfl, rfl⟩, hhandler⟩
    · rintro ⟨_, _, ⟨rfl, rfl⟩, hhandler⟩
      exact hhandler

@[simp] theorem pure_eq_ok {value result : α} {state after : σ} :
    (pure value : EStateM ε σ α) state = .ok result after ↔ value = result ∧ state = after := by
  change EStateM.Result.ok value state = _ ↔ _
  simp

@[simp] theorem throw_ne_ok {error : ε} {result : α} {state after : σ} :
    (throw error : EStateM ε σ α) state ≠ .ok result after := by
  change EStateM.Result.error error state ≠ _
  simp

/-- A state that is read is the state. -/
theorem get_bind_apply {next : σ → EStateM ε σ α} {state : σ} :
    (get >>= next) state = next state state :=
  rfl

@[simp] theorem modify_eq_ok {change : σ → σ} {result : PUnit} {state after : σ} :
    (modify change : EStateM ε σ PUnit) state = .ok result after ↔ change state = after := by
  change EStateM.Result.ok PUnit.unit (change state) = _ ↔ _
  simp

/-- A loop whose rounds return what a function gives and leave the state alone. -/
theorem mapM_eq_ok {entries : List α} {body : α → EStateM ε σ β} {value : α → β} {state : σ}
    (hbody : ∀ entry ∈ entries, body entry state = .ok (value entry) state) :
    entries.mapM body state = .ok (entries.map value) state := by
  induction entries with
  | nil => rfl
  | cons first rest ih =>
    rw [List.mapM_cons]
    refine bind_eq_ok.mpr ⟨value first, state, hbody first List.mem_cons_self, ?_⟩
    refine bind_eq_ok.mpr ⟨rest.map value, state, ?_, rfl⟩
    exact ih fun entry hentry ↦ hbody entry (List.mem_cons_of_mem _ hentry)

/-- A loop whose rounds return and leave the state alone. -/
theorem mapM_returns {entries : List α} {body : α → EStateM ε σ β} {state : σ}
    (hbody : ∀ entry ∈ entries, ∃ value, body entry state = .ok value state) :
    ∃ values, entries.mapM body state = .ok values state := by
  induction entries with
  | nil => exact ⟨[], rfl⟩
  | cons entry rest ih =>
    obtain ⟨value, hvalue⟩ := hbody entry List.mem_cons_self
    obtain ⟨values, hvalues⟩ := ih fun other hother ↦ hbody other (List.mem_cons_of_mem _ hother)
    refine ⟨value :: values, ?_⟩
    rw [List.mapM_cons]
    exact bind_eq_ok.mpr ⟨value, state, hvalue, bind_eq_ok.mpr ⟨values, state, hvalues, rfl⟩⟩

/-! ### Rules -/

namespace Triple

variable {pre : σ → Prop} {post : α → σ → Prop} {failed : σ → Prop}

/-- The postcondition of a run that returns. -/
theorem of_ok {action : EStateM ε σ α} (htriple : Triple pre action post failed) {state after : σ}
    {value : α} (hpre : pre state) (hrun : action state = .ok value after) : post value after := by
  have hpost := htriple state hpre
  rwa [hrun] at hpost

/-- The exceptional postcondition of a run that throws. -/
theorem of_error {action : EStateM ε σ α} (htriple : Triple pre action post failed)
    {state after : σ} {error : ε} (hpre : pre state) (hrun : action state = .error error after) :
    failed after := by
  have hfailed := htriple state hpre
  rwa [hrun] at hfailed

/-- The consequence rule. -/
theorem weaken {pre' : σ → Prop} {post' : α → σ → Prop} {failed' : σ → Prop}
    {action : EStateM ε σ α} (htriple : Triple pre' action post' failed')
    (hpre : ∀ state, pre state → pre' state)
    (hpost : ∀ value state, post' value state → post value state)
    (hfailed : ∀ state, failed' state → failed state) : Triple pre action post failed := by
  intro state hstate
  have hrun := htriple state (hpre state hstate)
  cases haction : action state with
  | ok value after =>
    rw [haction] at hrun
    exact hpost value after hrun
  | error error after =>
    rw [haction] at hrun
    exact hfailed after hrun

theorem pure {value : α} (hpost : ∀ state, pre state → post value state) :
    Triple pre (pure value : EStateM ε σ α) post failed :=
  hpost

theorem throw {error : ε} (hfailed : ∀ state, pre state → failed state) :
    Triple pre (throw error : EStateM ε σ α) post failed :=
  hfailed

theorem modify {change : σ → σ} {post : PUnit → σ → Prop}
    (hpost : ∀ state, pre state → post ⟨⟩ (change state)) :
    Triple pre (modify change : EStateM ε σ PUnit) post failed :=
  hpost

/-- The rule of sequencing. -/
theorem bind {action : EStateM ε σ β} {next : β → EStateM ε σ α} (middle : β → σ → Prop)
    (hfirst : Triple pre action middle failed)
    (hnext : ∀ value, Triple (middle value) (next value) post failed) :
    Triple pre (action >>= next) post failed := by
  intro state hstate
  have hrun := hfirst state hstate
  change match EStateM.bind action next state with
    | .ok value after => post value after
    | .error _ after => failed after
  unfold EStateM.bind
  cases haction : action state with
  | ok value after =>
    rw [haction] at hrun
    exact hnext value after hrun
  | error error after =>
    rw [haction] at hrun
    exact hrun

/-- A state that is read has the precondition. -/
theorem get_bind {next : σ → EStateM ε σ α}
    (hnext : ∀ state, pre state → Triple (fun current ↦ current = state) (next state) post failed) :
    Triple pre (get >>= next) post failed :=
  fun state hstate ↦ hnext state hstate state rfl

/-- The rule of handling an exception. -/
theorem tryCatch {action : EStateM ε σ α} {handler : ε → EStateM ε σ α} (caught : σ → Prop)
    (haction : Triple pre action post caught)
    (hhandler : ∀ error, Triple caught (handler error) post failed) :
    Triple pre (tryCatch action handler) post failed := by
  intro state hstate
  have hrun := haction state hstate
  change match EStateM.tryCatch action handler state with
    | .ok value after => post value after
    | .error _ after => failed after
  unfold EStateM.tryCatch
  cases hresult : action state with
  | ok value after =>
    rw [hresult] at hrun
    exact hrun
  | error error after =>
    rw [hresult] at hrun
    exact hhandler error after hrun

/-- The rule of a conditional. -/
theorem ite {condition : Prop} [Decidable condition] {first second : EStateM ε σ α}
    (hfirst : condition → Triple pre first post failed)
    (hsecond : ¬ condition → Triple pre second post failed) :
    Triple pre (if condition then first else second) post failed := by
  by_cases hcondition : condition
  · rw [if_pos hcondition]
    exact hfirst hcondition
  · rw [if_neg hcondition]
    exact hsecond hcondition

end Triple

namespace Keeps

variable {property : σ → Prop}

theorem pure (value : α) : Keeps property (pure value : EStateM ε σ α) :=
  fun _ hstate ↦ hstate

theorem throw (error : ε) : Keeps property (throw error : EStateM ε σ α) :=
  fun _ hstate ↦ hstate

theorem bind {action : EStateM ε σ β} {next : β → EStateM ε σ α} (hfirst : Keeps property action)
    (hnext : ∀ value, Keeps property (next value)) : Keeps property (action >>= next) :=
  Triple.bind (fun _ ↦ property) hfirst hnext

theorem get_bind {next : σ → EStateM ε σ α} (hnext : ∀ state, Keeps property (next state)) :
    Keeps property (get >>= next) :=
  fun state hstate ↦ hnext state state hstate

theorem tryCatch {action : EStateM ε σ α} {handler : ε → EStateM ε σ α}
    (haction : Keeps property action) (hhandler : ∀ error, Keeps property (handler error)) :
    Keeps property (tryCatch action handler) :=
  Triple.tryCatch property haction hhandler

theorem ite {condition : Prop} [Decidable condition] {first second : EStateM ε σ α}
    (hfirst : condition → Keeps property first) (hsecond : ¬ condition → Keeps property second) :
    Keeps property (if condition then first else second) :=
  Triple.ite hfirst hsecond

theorem mapM {entries : List α} {body : α → EStateM ε σ β}
    (hbody : ∀ entry ∈ entries, Keeps property (body entry)) :
    Keeps property (entries.mapM body) := by
  induction entries with
  | nil => exact Keeps.pure []
  | cons first rest ih =>
    rw [List.mapM_cons]
    refine Keeps.bind (hbody first List.mem_cons_self) fun value ↦ Keeps.bind (ih ?_) fun _ ↦ ?_
    · exact fun entry hentry ↦ hbody entry (List.mem_cons_of_mem _ hentry)
    · exact Keeps.pure _

/-- The invariant rule of a loop. -/
theorem forM {entries : List β} {body : β → EStateM ε σ PUnit}
    (hbody : ∀ entry ∈ entries, Keeps property (body entry)) :
    Keeps property (entries.forM body) := by
  induction entries with
  | nil => exact Keeps.pure PUnit.unit
  | cons first rest ih =>
    refine Keeps.bind (hbody first List.mem_cons_self) fun _ ↦ ih ?_
    exact fun entry hentry ↦ hbody entry (List.mem_cons_of_mem _ hentry)

/-- From one state, what is kept is known of the run. -/
theorem run {action : EStateM ε σ α} (hkeeps : Keeps property action) {start : σ}
    (hstart : property start) :
    Triple (fun state ↦ state = start) action
      (fun value after ↦ property after ∧ action start = .ok value after) property := by
  rintro state rfl
  have hrun := hkeeps state hstart
  cases haction : action state with
  | ok value after =>
    rw [haction] at hrun
    exact ⟨hrun, rfl⟩
  | error error after =>
    rw [haction] at hrun
    exact hrun

end Keeps

end Playground.Library
