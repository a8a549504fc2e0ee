import Mathlib.Data.List.Basic
import Playground.Library.Runs

/-!
# Derivable properties

`client/src/utils/pg/decorators/derivable.ts` and `PgCommon.batchChanges` of
`client/src/utils/pg/common.ts`. Every change event of a derivable property resets one timer of
delay zero. When the timer expires a call of `derive` starts, and on its completion its value is
assigned to the property; nothing relates the call to the ones that started before or after it.

`State` is one derivable property: the state of the program that `derive` reads, the timer, the
calls in flight and the stored value. A call reads the program's state when it starts, and may read
it again later; its value is `derive` of what it read last, and `derive` gives no value where the
call rejects.

`UpToDate` is what the property is for: once nothing is pending it holds `derive` of the current
state. It fails (`not_upToDate_of_overtaken_call`) when a call that started earlier completes after
one that started later. `guard` excludes exactly those completions, and `upToDate_of_run` proves
that along every run that meets it the property is up to date.

Not formalized here: the change events that a completed call dispatches for the properties derived
from this one, and `dispose`.
-/

set_option autoImplicit false
set_option relaxedAutoImplicit false

namespace Playground.Common.Derivable

open Library

/-- A call of `derive` in flight: its place in the order in which the calls started, and the state
of the program that it has read. -/
structure Call (Source : Type*) where
  start : ℕ
  read : Source
  deriving DecidableEq

/-- A derivable property: the program's state, whether the shared timer is set, the calls in flight,
how many calls have started, and the stored value, `undefined` before the first assignment. -/
structure State (Source Value : Type*) where
  source : Source
  sharedTimeout : Bool
  inFlight : List (Call Source)
  started : ℕ
  property : Option Value
  deriving DecidableEq

/-- What can happen to a derivable property: a change event of the program's state, the expiry of
the timer, and, for a call in flight, a later read of the program's state and its completion. -/
inductive Event (Source : Type*)
  | change (source : Source)
  | timeout
  | read (start : ℕ)
  | complete (start : ℕ)

variable {Source Value : Type*}

/-- The state after the subscription to the change events. Those of an initialized class run the
callback at once, which sets the timer. -/
def initial (source : Source) (initialRun : Bool) : State Source Value where
  source := source
  sharedTimeout := initialRun
  inFlight := []
  started := 0
  property := none

/-- The debounced callback of `batchChanges`, run by a change event. -/
def debounce (state : State Source Value) (source : Source) : State Source Value :=
  { state with source := source, sharedTimeout := true }

/-- The callback of the timer, up to the `await`. -/
def startDerive (state : State Source Value) : State Source Value :=
  { state with
    sharedTimeout := false
    inFlight := state.inFlight ++ [⟨state.started + 1, state.source⟩]
    started := state.started + 1 }

/-- A call reads the program's state again. -/
def readAgain (state : State Source Value) (start : ℕ) : State Source Value :=
  { state with inFlight := state.inFlight.map fun call ↦
      if call.start = start then { call with read := state.source } else call }

/-- The callback of the timer from the `await` on: the value is assigned, unless the call has
rejected. -/
def assign (derive : Source → Option Value) (state : State Source Value) (call : Call Source) :
    State Source Value :=
  { state with
    inFlight := state.inFlight.filter fun other ↦ other.start ≠ call.start
    property := (derive call.read).or state.property }

/-- One event. The timer expires only if it is set, and only a call in flight reads or completes. -/
def step (derive : Source → Option Value) (state : State Source Value) :
    Event Source → Option (State Source Value)
  | .change source => some (debounce state source)
  | .timeout => if state.sharedTimeout then some (startDerive state) else none
  | .read start => some (readAgain state start)
  | .complete start =>
    (state.inFlight.find? fun call ↦ call.start = start).map (assign derive state)

/-- Once a call has started, and none is in flight and the timer is not set, the property holds the
value derived from the current state. -/
def UpToDate (derive : Source → Option Value) (state : State Source Value) : Prop :=
  state.started ≠ 0 → state.inFlight = [] → state.sharedTimeout = false →
    ∀ value, derive state.source = some value → state.property = some value

/-- The call that started last is still in flight. -/
def NewestInFlight (state : State Source Value) : Prop :=
  ∃ call ∈ state.inFlight, call.start = state.started

/-- The events that keep the property up to date: a call completes only while the timer is set or
the call that started last is in flight, so that no call completes after it. -/
def guard (state : State Source Value) : Event Source → Prop
  | .complete _ => state.sharedTimeout = true ∨ NewestInFlight state
  | _ => True

/-! ### Guarded runs -/

/-- The states of a guarded run. Unless the timer is set, the call that started last has read the
current state as long as it is in flight, and its value is stored afterwards. -/
structure Tracking (derive : Source → Option Value) (state : State Source Value) : Prop where
  start_le : ∀ call ∈ state.inFlight, call.start ≤ state.started
  newest_read : state.sharedTimeout = false →
    ∀ call ∈ state.inFlight, call.start = state.started → call.read = state.source
  stored : state.sharedTimeout = false → state.started ≠ 0 → ¬ NewestInFlight state →
    ∀ value, derive state.source = some value → state.property = some value

variable {derive : Source → Option Value}

/-- A tracking state is up to date: without calls in flight the last one is not among them. -/
theorem Tracking.upToDate {state : State Source Value} (htracking : Tracking derive state) :
    UpToDate derive state := by
  intro hstarted hnone htimer
  refine htracking.stored htimer hstarted ?_
  rintro ⟨call, hmem, -⟩
  simp [hnone] at hmem

/-- No call has started after the subscription. -/
theorem tracking_initial (source : Source) (initialRun : Bool) :
    Tracking derive (initial source initialRun) :=
  ⟨by simp [initial], by simp [initial], by simp [initial]⟩

/-- A change sets the timer, and the rest is about states in which it is not set. -/
theorem tracking_debounce {state : State Source Value} (htracking : Tracking derive state)
    (source : Source) : Tracking derive (debounce state source) :=
  ⟨htracking.start_le, fun htimer ↦ by simp [debounce] at htimer,
    fun htimer ↦ by simp [debounce] at htimer⟩

/-- The call that the timer starts is the last one and reads the current state. -/
theorem tracking_startDerive {state : State Source Value} (htracking : Tracking derive state) :
    Tracking derive (startDerive state) := by
  have hmem : ∀ call ∈ (startDerive state).inFlight,
      call.start ≤ state.started ∨ call = ⟨state.started + 1, state.source⟩ := by
    intro call hcall
    rcases List.mem_append.mp hcall with hbefore | hnew
    · exact Or.inl (htracking.start_le call hbefore)
    · exact Or.inr (List.mem_singleton.mp hnew)
  constructor
  · intro call hcall
    show call.start ≤ state.started + 1
    rcases hmem call hcall with hle | rfl
    · exact Nat.le_succ_of_le hle
    · exact Nat.le_refl _
  · intro _ call hcall hnewest
    have hnewest : call.start = state.started + 1 := hnewest
    rcases hmem call hcall with hle | rfl
    · omega
    · rfl
  · intro _ _ hcompleted
    exact absurd ⟨_, List.mem_append_right _ (List.mem_singleton_self _), rfl⟩ hcompleted

/-- A later read replaces what a call has read by the current state. -/
theorem tracking_readAgain {state : State Source Value} (htracking : Tracking derive state)
    (start : ℕ) : Tracking derive (readAgain state start) := by
  have hmem : ∀ call ∈ (readAgain state start).inFlight, ∃ before ∈ state.inFlight,
      call.start = before.start ∧ (call.read = before.read ∨ call.read = state.source) := by
    intro call hcall
    obtain ⟨before, hbefore, rfl⟩ := List.mem_map.mp hcall
    refine ⟨before, hbefore, ?_⟩
    by_cases hreads : before.start = start <;> simp [hreads]
  constructor
  · intro call hcall
    obtain ⟨before, hbefore, hstart, -⟩ := hmem call hcall
    rw [hstart]
    exact htracking.start_le before hbefore
  · intro htimer call hcall hnewest
    obtain ⟨before, hbefore, hstart, hsame | hsource⟩ := hmem call hcall
    · rw [hsame]
      exact htracking.newest_read htimer before hbefore (hstart ▸ hnewest)
    · exact hsource
  · intro htimer hstarted hcompleted
    refine htracking.stored htimer hstarted ?_
    rintro ⟨before, hbefore, hnewest⟩
    refine hcompleted ⟨_, List.mem_map.mpr ⟨before, hbefore, rfl⟩, ?_⟩
    by_cases hreads : before.start = start <;> simpa [hreads, readAgain] using hnewest

/-- The completion of a call that no later one has overtaken. If it is not the last call, that one
is still in flight. -/
theorem tracking_assign {state : State Source Value} (htracking : Tracking derive state)
    {call : Call Source} (hcall : call ∈ state.inFlight)
    (hguard : state.sharedTimeout = true ∨ NewestInFlight state) :
    Tracking derive (assign derive state call) := by
  constructor
  · intro other hother
    exact htracking.start_le other (List.mem_of_mem_filter hother)
  · intro htimer other hother
    exact htracking.newest_read htimer other (List.mem_of_mem_filter hother)
  · intro htimer _ hcompleted value hvalue
    have htimer : state.sharedTimeout = false := htimer
    obtain hset | ⟨newest, hmem, hnewest⟩ := hguard
    · simp [hset] at htimer
    · have hlast : newest.start = call.start := by
        by_contra hother
        exact hcompleted ⟨newest, List.mem_filter.mpr ⟨hmem, by simpa using hother⟩, hnewest⟩
      have hread : call.read = state.source :=
        htracking.newest_read htimer call hcall (hlast.symm.trans hnewest)
      have hvalue : derive state.source = some value := hvalue
      simp [assign, hread, hvalue]

/-- One event that meets the guard. -/
theorem tracking_step {state after : State Source Value} {event : Event Source}
    (htracking : Tracking derive state) (hguard : guard state event)
    (hstep : step derive state event = some after) : Tracking derive after := by
  cases event with
  | change source =>
    obtain rfl : debounce state source = after := by simpa [step] using hstep
    exact tracking_debounce htracking source
  | timeout =>
    by_cases htimer : state.sharedTimeout
    · obtain rfl : startDerive state = after := by simpa [step, htimer] using hstep
      exact tracking_startDerive htracking
    · simp [step, htimer] at hstep
  | read start =>
    obtain rfl : readAgain state start = after := by simpa [step] using hstep
    exact tracking_readAgain htracking start
  | complete start =>
    obtain ⟨call, hfound, rfl⟩ := Option.map_eq_some_iff.mp hstep
    exact tracking_assign htracking (List.mem_of_find?_eq_some hfound) hguard

/-- Along every run in which no call completes after one that started later, the property is up to
date in every state reached. -/
theorem upToDate_of_run {source : Source} {initialRun : Bool} {events : List (Event Source)}
    {finish : State Source Value}
    (hrun : Run (Guarded (StepsTo (step derive)) guard) (initial source initialRun) events finish) :
    UpToDate derive finish := by
  have htracking : Tracking derive finish :=
    hrun.invariant_guarded (fun _ _ _ hbefore hguard hstep ↦ tracking_step hbefore hguard hstep)
      (tracking_initial source initialRun)
  exact htracking.upToDate

/-- Two calls overlap and complete in the order in which they started. -/
theorem upToDate_of_run_overlapping_calls :
    UpToDate some (⟨1, false, [], 2, some 1⟩ : State ℕ ℕ) := by
  have hfirst : guard (⟨1, false, [⟨1, 0⟩, ⟨2, 1⟩], 2, none⟩ : State ℕ ℕ) (.complete 1) :=
    Or.inr ⟨⟨2, 1⟩, by simp, rfl⟩
  have hsecond : guard (⟨1, false, [⟨2, 1⟩], 2, some 0⟩ : State ℕ ℕ) (.complete 2) :=
    Or.inr ⟨⟨2, 1⟩, by simp, rfl⟩
  refine @upToDate_of_run ℕ ℕ some 0 true
    [.timeout, .change 1, .timeout, .complete 1, .complete 2] _ ?_
  exact .cons ⟨trivial, rfl⟩ (.cons ⟨trivial, rfl⟩ (.cons ⟨trivial, rfl⟩
    (.cons ⟨hfirst, rfl⟩ (.single ⟨hsecond, rfl⟩))))

/-- Two calls overlap and the first of them completes last: its outdated value is stored. -/
theorem not_upToDate_of_overtaken_call :
    ¬ ∀ (source : ℕ) initialRun events (finish : State ℕ ℕ),
      Run (StepsTo (step some)) (initial source initialRun) events finish →
        UpToDate some finish := by
  intro hall
  have hlate := hall 0 true [.timeout, .change 1, .timeout, .complete 2, .complete 1] _
    (Run.of_foldlM rfl)
  have hstale : some 0 = some 1 := hlate (by decide) rfl rfl 1 rfl
  exact absurd hstale (by decide)

end Playground.Common.Derivable
