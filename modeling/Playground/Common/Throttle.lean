import Playground.Library.Runs

/-!
# `PgCommon.throttle`

`client/src/utils/pg/common.ts`. A wrapped callback runs at once when it is called for the first time, or
`ms` or more after `last`, which is when it was wrapped or last ran at once after the first time. Any other
call clears the timer that has been set before and sets one for itself. A timer fires when it is due, or
later.

A call is known by its number. `calls` and `executions` record what has been called and run. No branch reads
them.

`Throttled` is what the function is for: no callback runs with older arguments than one before it, and once
no timer is pending the last one had the arguments of the last call. It fails
(`not_throttled_of_pending_timer`), because a call that runs at once leaves a pending timer as it is. `guard`
says of such a call that no timer is pending: along every run that meets it the function does what it is for,
and a call that breaks it is followed by a violation when the timer fires (`throttled_iff_guarded`).

Not formalized here: a callback that throws.
-/

set_option autoImplicit false
set_option relaxedAutoImplicit false

namespace Playground.Common.Throttle

open Library

/-! ### The wrapped callback -/

/-- A call, by its number, with its arguments. -/
structure Invocation (Args : Type*) where
  number : ℕ
  args : Args
  deriving DecidableEq

/-- A timer that has been set: when it is due, and the call that it runs the callback for. -/
structure Timer (Args : Type*) where
  id : ℕ
  due : ℕ
  invocation : Invocation Args
  deriving DecidableEq

/-- The closure of a wrapped callback, with the clock, the pending timers and the id of the next one. -/
structure State (Args : Type*) where
  clock : ℕ
  timers : List (Timer Args)
  nextId : ℕ
  timeoutId : Option ℕ
  last : ℕ
  isInitial : Bool
  calls : List Args
  executions : List (Invocation Args)
  deriving DecidableEq

/-- What can happen: a call, and a timer that fires. -/
inductive Event (Args : Type*)
  | call (now : ℕ) (args : Args)
  | fire (now : ℕ) (id : ℕ)

variable {Args : Type*} (ms : ℕ)

/-- The state in which `throttle` returns the wrapped callback. -/
def initial (now : ℕ) : State Args where
  clock := now
  timers := []
  nextId := 0
  timeoutId := none
  last := now
  isInitial := true
  calls := []
  executions := []

/-- The call that comes next. -/
def State.invocation (state : State Args) (args : Args) : Invocation Args :=
  ⟨state.calls.length, args⟩

/-- `clearTimeout`. -/
def State.clearTimeout (state : State Args) (id : Option ℕ) : State Args :=
  { state with timers := state.timers.filter fun timer ↦ some timer.id ≠ id }

/-- `timeoutId = setTimeout(…, ms)`. -/
def State.setTimeout (state : State Args) (now : ℕ) (invocation : Invocation Args) : State Args :=
  { state with
    timers := state.timers ++ [⟨state.nextId, now + ms, invocation⟩]
    nextId := state.nextId + 1
    timeoutId := some state.nextId }

/-- `cb`. -/
def State.cb (state : State Args) (invocation : Invocation Args) : State Args :=
  { state with executions := state.executions ++ [invocation] }

/-- The wrapped callback. -/
def wrapped (state : State Args) (now : ℕ) (args : Args) : State Args :=
  let invocation := state.invocation args
  let called := { state with clock := now, calls := state.calls ++ [args] }
  if state.isInitial then { called.cb invocation with isInitial := false }
  else if now < state.last + ms then
    (called.clearTimeout state.timeoutId).setTimeout ms now invocation
  else { called.cb invocation with last := now }

/-- One event. The clock does not go back, and a timer does not fire before it is due. -/
def step (state : State Args) : Event Args → Option (State Args)
  | .call now args => if state.clock ≤ now then some (wrapped ms state now args) else none
  | .fire now id =>
    match state.timers.find? fun timer ↦ timer.id = id with
    | none => none
    | some timer =>
      if state.clock ≤ now ∧ timer.due ≤ now then
        let fired := { state with
          clock := now, timers := state.timers.filter fun other ↦ other.id ≠ id }
        some (fired.cb timer.invocation)
      else none

/-! ### What the function is for -/

/-- No callback runs with older arguments than one before it, and once no timer is pending the last one had
the arguments of the last call. -/
structure Throttled (state : State Args) : Prop where
  ordered : (state.executions.map Invocation.number).Pairwise (· ≤ ·)
  settled : state.timers = [] → state.executions.getLast?.map Invocation.args = state.calls.getLast?

/-- A call that runs at once, other than the first one, finds no pending timer. -/
def guard (state : State Args) : Event Args → Prop
  | .call now _ => state.isInitial = false → state.last + ms ≤ now → state.timers = []
  | .fire _ _ => True

/-! ### Guarded runs -/

/-- The shape of the states of a guarded run: the last call, if there is one, has been run last, or is the
one that the only timer is pending for. -/
structure Fresh (state : State Args) : Prop where
  ordered : (state.executions.map Invocation.number).Pairwise (· ≤ ·)
  called : ∀ invocation ∈ state.executions, invocation.number < state.calls.length
  first : state.isInitial = true → state.timers = []
  pending : state.timers = [] ∧
      state.executions.getLast?.map Invocation.args = state.calls.getLast? ∨
    ∃ timer, state.timers = [timer] ∧ state.timeoutId = some timer.id ∧
      timer.invocation.number + 1 = state.calls.length ∧
        state.calls.getLast? = some timer.invocation.args

/-- A state of that shape is as it should be. -/
theorem Fresh.throttled {state : State Args} (hfresh : Fresh state) : Throttled state := by
  refine ⟨hfresh.ordered, fun hnone ↦ ?_⟩
  rcases hfresh.pending with ⟨-, hlast⟩ | ⟨timer, hone, -⟩
  · exact hlast
  · rw [hnone] at hone
    cases hone

/-- Executing the newest call keeps the order. -/
theorem pairwise_append_newest {state : State Args} (hfresh : Fresh state)
    {invocation : Invocation Args} (hnewest : state.calls.length ≤ invocation.number + 1) :
    ((state.executions ++ [invocation]).map Invocation.number).Pairwise (· ≤ ·) := by
  rw [List.map_append, List.map_singleton, List.pairwise_append]
  refine ⟨hfresh.ordered, List.pairwise_singleton _ _, fun number hnumber other hother ↦ ?_⟩
  obtain ⟨earlier, hearlier, rfl⟩ := List.mem_map.mp hnumber
  rw [List.mem_singleton.mp hother]
  have hlt := hfresh.called earlier hearlier
  omega

variable {ms}

/-- A call that runs at once without a pending timer keeps the shape. -/
theorem Fresh.execute {state : State Args} (hfresh : Fresh state) (htimers : state.timers = [])
    (now last : ℕ) (args : Args) :
    Fresh { state with
      clock := now, last := last, isInitial := false, calls := state.calls ++ [args]
      executions := state.executions ++ [state.invocation args] } := by
  refine ⟨pairwise_append_newest hfresh (Nat.le_succ _), fun invocation hmem ↦ ?_, fun _ ↦ htimers,
    .inl ⟨htimers, ?_⟩⟩
  · rw [List.length_append]
    rcases List.mem_append.mp hmem with hold | hnew
    · exact Nat.lt_succ_of_lt (hfresh.called invocation hold)
    · rw [List.mem_singleton.mp hnew]
      exact Nat.lt_succ_self _
  · simp [State.invocation]

/-- Clearing the timer that has been set leaves none. -/
theorem Fresh.timers_clearTimeout {state : State Args} (hfresh : Fresh state) :
    state.timers.filter (fun timer ↦ some timer.id ≠ state.timeoutId) = [] := by
  rcases hfresh.pending with ⟨hnone, -⟩ | ⟨timer, hone, hid, -⟩
  · rw [hnone]
    rfl
  · rw [hone, hid]
    simp

/-- A call that meets the guard keeps the shape. -/
theorem Fresh.call {state : State Args} (hfresh : Fresh state) {now : ℕ} {args : Args}
    (hguard : guard ms state (.call now args)) : Fresh (wrapped ms state now args) := by
  unfold wrapped
  cases hinitial : state.isInitial with
  | true => exact hfresh.execute (hfresh.first hinitial) now state.last args
  | false =>
    dsimp only
    rw [if_neg Bool.false_ne_true]
    by_cases hearly : now < state.last + ms
    · rw [if_pos hearly]
      refine ⟨hfresh.ordered, fun invocation hmem ↦ ?_, fun htrue ↦ ?_, .inr ?_⟩
      · have hlt := hfresh.called invocation hmem
        change invocation.number < (state.calls ++ [args]).length
        rw [List.length_append]
        exact Nat.lt_succ_of_lt hlt
      · exact absurd htrue Bool.false_ne_true
      · refine ⟨⟨state.nextId, now + ms, state.invocation args⟩, ?_, rfl, ?_, ?_⟩
        · change state.timers.filter (fun timer ↦ some timer.id ≠ state.timeoutId) ++ [_] = [_]
          rw [hfresh.timers_clearTimeout]
          rfl
        · change state.calls.length + 1 = (state.calls ++ [args]).length
          rw [List.length_append]
          rfl
        · exact List.getLast?_concat
    · rw [if_neg hearly]
      exact hfresh.execute (hguard hinitial (Nat.not_lt.mp hearly)) now now args

/-- A timer that fires keeps the shape. -/
theorem Fresh.fire {state after : State Args} (hfresh : Fresh state) {now id : ℕ}
    (hstep : step ms state (.fire now id) = some after) : Fresh after := by
  rcases hfresh.pending with ⟨hnone, -⟩ | ⟨timer, hone, hid, hnewest, hlast⟩
  · rw [step, hnone] at hstep
    cases hstep
  · have hfirst : state.isInitial = false := by
      refine Bool.eq_false_iff.mpr fun htrue ↦ ?_
      have hnone := hfresh.first htrue
      rw [hone] at hnone
      cases hnone
    by_cases heq : timer.id = id
    · rw [step, hone, List.find?_cons_of_pos (by simpa using heq)] at hstep
      dsimp only at hstep
      split at hstep
      · obtain rfl := Option.some.inj hstep
        refine ⟨pairwise_append_newest hfresh (Nat.le_of_eq hnewest.symm), fun invocation hmem ↦ ?_, fun htrue ↦ ?_,
          .inl ⟨?_, ?_⟩⟩
        · rcases List.mem_append.mp hmem with hold | hnew
          · exact hfresh.called invocation hold
          · rw [List.mem_singleton.mp hnew]
            exact Nat.le_of_eq hnewest
        · exact absurd (hfirst.symm.trans htrue) Bool.false_ne_true
        · simp [State.cb, heq]
        · rw [State.cb, List.getLast?_concat]
          exact hlast.symm
      · cases hstep
    · rw [step, hone, List.find?_cons_of_neg (by simpa using heq)] at hstep
      cases hstep

/-- The closure starts out with nothing called. -/
theorem fresh_initial (now : ℕ) : Fresh (initial now : State Args) :=
  ⟨List.Pairwise.nil, fun _ hmem ↦ absurd hmem List.not_mem_nil, fun _ ↦ rfl, .inl ⟨rfl, rfl⟩⟩

/-- One event that meets the guard keeps the shape. -/
theorem Fresh.step {before after : State Args} {event : Event Args} (hfresh : Fresh before)
    (hguard : guard ms before event) (hstep : step ms before event = some after) : Fresh after := by
  cases event with
  | call now args =>
    rw [Throttle.step] at hstep
    split at hstep
    · obtain rfl := Option.some.inj hstep
      exact hfresh.call hguard
    · cases hstep
  | fire now id => exact hfresh.fire hstep

/-- The states of a guarded run have the shape. -/
theorem fresh_of_guarded {start : ℕ} {events : List (Event Args)} {finish : State Args}
    (hrun : Run (Guarded (StepsTo (step ms)) (guard ms)) (initial start) events finish) :
    Fresh finish :=
  hrun.invariant_guarded (fun _ _ _ hfresh hguard hstep ↦ hfresh.step hguard hstep)
    (fresh_initial start)

/-! ### A timer that is left pending -/

/-- The only timer fires when it is due. -/
theorem step_fire {state : State Args} {timer : Timer Args} (hone : state.timers = [timer]) {now : ℕ}
    (hclock : state.clock ≤ now) (hdue : timer.due ≤ now) :
    step ms state (.fire now timer.id) =
      some ({ state with clock := now, timers := [] }.cb timer.invocation) := by
  have hfind : state.timers.find? (fun other ↦ other.id = timer.id) = some timer := by
    rw [hone]
    exact List.find?_cons_of_pos (by simp)
  have hfilter : state.timers.filter (fun other ↦ other.id ≠ timer.id) = [] := by
    rw [hone]
    simp
  rw [step, hfind]
  dsimp only
  rw [if_pos ⟨hclock, hdue⟩, hfilter]

/-- After a call that runs at once beside a pending timer, the timer runs an older call. -/
theorem not_throttled_of_fire {state after : State Args} (hfresh : Fresh state) {now : ℕ} {args : Args}
    (hbreak : ¬ guard ms state (.call now args)) (hstep : step ms state (.call now args) = some after) :
    ∃ later id finish, step ms after (.fire later id) = some finish ∧ ¬ Throttled finish := by
  obtain ⟨hfirst, hlate, htimers⟩ : state.isInitial = false ∧ state.last + ms ≤ now ∧ state.timers ≠ [] := by
    simpa [guard] using hbreak
  rcases hfresh.pending with ⟨hnone, -⟩ | ⟨timer, hone, -, hnewest, -⟩
  · exact absurd hnone htimers
  let called : State Args := { state with
    clock := now, last := now, isInitial := false, calls := state.calls ++ [args]
    executions := state.executions ++ [state.invocation args] }
  have hafter : after = called := by
    rw [step] at hstep
    split at hstep
    · rw [← Option.some.inj hstep, wrapped, hfirst, if_neg Bool.false_ne_true,
        if_neg (Nat.not_lt.mpr hlate)]
      rfl
    · cases hstep
  rw [hafter]
  have hcalled : called.timers = [timer] := hone
  refine ⟨max now timer.due, timer.id, _, step_fire hcalled (Nat.le_max_left now timer.due)
    (Nat.le_max_right now timer.due), fun hthrottled ↦ ?_⟩
  have hordered := hthrottled.ordered
  rw [State.cb, List.map_append, List.map_append, List.append_assoc, List.pairwise_append] at hordered
  have holder : state.calls.length ≤ timer.invocation.number :=
    List.rel_of_pairwise_cons hordered.2.1 (List.mem_singleton.mpr rfl)
  omega

/-- Along every run whose calls meet the guard, no callback runs with older arguments than one before it, and
once no timer is pending the last one had the arguments of the last call. A call that breaks the guard is
followed by a violation when the pending timer fires. -/
theorem throttled_iff_guarded (start : ℕ) :
    (∀ events (finish : State Args),
      Run (Guarded (StepsTo (step ms)) (guard ms)) (initial start) events finish → Throttled finish) ∧
    ∀ events (state : State Args) event after,
      Run (Guarded (StepsTo (step ms)) (guard ms)) (initial start) events state →
        step ms state event = some after → ¬ guard ms state event →
          ∃ later id finish, step ms after (.fire later id) = some finish ∧ ¬ Throttled finish := by
  refine ⟨fun events finish hrun ↦ (fresh_of_guarded hrun).throttled, ?_⟩
  intro events state event after hrun hstep hbreak
  cases event with
  | call now args => exact not_throttled_of_fire (fresh_of_guarded hrun) hbreak hstep
  | fire now id => exact absurd trivial hbreak

/-- The closure of a callback with a delay of 100 that has been called at 0 and at 50. -/
def afterTwoCalls : State ℕ :=
  ⟨50, [⟨0, 150, ⟨1, 1⟩⟩], 1, some 0, 0, false, [0, 1], [⟨0, 0⟩]⟩

/-- The second call runs when its timer fires. -/
def afterTimer : State ℕ :=
  ⟨150, [], 1, some 0, 0, false, [0, 1], [⟨0, 0⟩, ⟨1, 1⟩]⟩

/-- Two calls with the timer of the second run in order, and a third call before the timer fires breaks the
guard. -/
theorem throttled_iff_guarded_two_calls :
    Throttled afterTimer ∧
      ∃ later id finish, step 100 (wrapped 100 afterTwoCalls 120 2) (.fire later id) = some finish ∧
        ¬ Throttled finish := by
  have hcalls : Run (Guarded (StepsTo (step 100)) (guard 100)) (initial 0) [.call 0 0, .call 50 1]
      afterTwoCalls :=
    .cons ⟨fun _ _ ↦ rfl, rfl⟩ (.single ⟨fun _ hlate ↦ absurd hlate (by decide), rfl⟩)
  have hfire : Guarded (StepsTo (step 100)) (guard 100) afterTwoCalls (.fire 150 0) afterTimer :=
    ⟨trivial, rfl⟩
  constructor
  · exact (throttled_iff_guarded 0).1 _ _ (hcalls.snoc hfire)
  · exact (throttled_iff_guarded 0).2 _ _ (.call 120 2) _ hcalls rfl
      fun hguard ↦ absurd (hguard rfl (by decide)) (List.cons_ne_nil _ _)

/-- A timer that is left pending runs the second call after the third. -/
theorem not_throttled_of_pending_timer :
    ¬ ∀ events (finish : State ℕ), Run (StepsTo (step 100)) (initial 0) events finish →
      Throttled finish := by
  intro hall
  have hthrottled := hall [.call 0 0, .call 50 1, .call 120 2, .fire 150 0] _ (Run.of_foldlM rfl)
  have hordered : [0, 2, 1].Pairwise (· ≤ ·) := hthrottled.ordered
  exact absurd hordered (by decide)

end Playground.Common.Throttle
