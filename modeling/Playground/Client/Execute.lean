import Playground.Library.Runs
import Playground.Library.JavaScript

/-!
# `PgClient.execute`

`client/src/utils/pg/client/client.ts`. `_executeBlocking` refuses a call while a script is running, which
is what the flag `_isClientRunning` says, and while tests are running, which is what Mocha's state
says. The flag is set for scripts only. A test that has been accepted gets the globals, handles its
own imports and loads its code, and only then does the code run Mocha.

`Exclusive` is what the function is for: one script or test is in execution at a time, and a call is
accepted exactly if none is. It fails (`not_exclusive_of_two_tests`), because a test that has been
accepted blocks nobody until Mocha runs. `guard` names the calls that keep it: `exclusive_iff_guarded`
proves that it holds along every run whose calls meet the guard, and that a call that does not meet it
is accepted although a test is in execution.

Not formalized here: what the setup does to the window of the frame, the code that is run, and the
interval that resolves the call of a test once Mocha is idle, which no other call waits for. A script
ends with the event that its end, or an error in the frame, dispatches; a test ends when Mocha does, or
with an error before Mocha is run.
-/

set_option autoImplicit false
set_option relaxedAutoImplicit false

namespace Playground.Client

open Library

/-! ### Calls -/

/-- What a call that has been accepted has come to. -/
inductive Phase
  | gettingGlobals
  | gettingImports
  | loaded
  | runningTests
  | ended
  deriving DecidableEq

/-- A call that has been accepted. -/
structure Execution where
  isTest : Bool
  phase : Phase
  deriving DecidableEq

/-- A call: whether something was in execution when it was made, and whether it was accepted. -/
structure Call where
  busy : Bool
  accepted : Bool
  deriving DecidableEq

/-- The state of `PgClient` and of Mocha, and the calls that have been accepted. `calls` records the
calls and is read by no branch. -/
structure State where
  isClientRunning : Bool
  isMochaRunning : Bool
  executions : List Execution
  calls : List Call
  deriving DecidableEq

/-- What can happen: a call, a step of the setup of a script or test, a step of the setup that throws,
the event that a script has finished, a test's code that runs Mocha, and the end of the tests. -/
inductive Event
  | execute (isTest : Bool)
  | advance (index : ℕ)
  | fail (index : ℕ)
  | finishRunning
  | runTests (index : ℕ)
  | endTests (index : ℕ)
  deriving DecidableEq

/-- A call is in execution from its acceptance to its end. -/
def Execution.inExecution (execution : Execution) : Bool :=
  execution.phase ≠ .ended

/-- Something is in execution. -/
def State.busy (state : State) : Bool :=
  state.executions.any Execution.inExecution

/-- The state before the first call. -/
def initial : State where
  isClientRunning := false
  isMochaRunning := false
  executions := []
  calls := []

/-- The checks of `_executeBlocking`, with the error that a call is refused with. -/
def executeBlocking (state : State) (isTest : Bool) : Except Str Unit :=
  if state.isClientRunning then
    if isTest then .error "Please wait for client to finish.".toList
    else .error "Client is already running!".toList
  else if state.isMochaRunning then
    if isTest then .error "Tests are already running!".toList
    else .error "Please wait for tests to finish.".toList
  else .ok ()

/-- A call is made. -/
def execute (state : State) (isTest : Bool) : State :=
  match executeBlocking state isTest with
  | .error _ => { state with calls := state.calls ++ [⟨state.busy, false⟩] }
  | .ok () =>
    { state with
      isClientRunning := state.isClientRunning || !isTest
      executions := state.executions ++ [⟨isTest, .gettingGlobals⟩]
      calls := state.calls ++ [⟨state.busy, true⟩] }

/-- A call comes to another phase. -/
def State.setPhase (state : State) (index : ℕ) (execution : Execution) (phase : Phase) : State :=
  { state with executions := state.executions.set index { execution with phase := phase } }

/-- The next step of the setup. -/
def advance (state : State) (index : ℕ) (execution : Execution) : Option State :=
  match execution.phase with
  | .gettingGlobals => some (state.setPhase index execution .gettingImports)
  | .gettingImports => some (state.setPhase index execution .loaded)
  | _ => none

/-- The `finally` block. -/
def State.unblock (state : State) (isTest : Bool) : State :=
  { state with isClientRunning := state.isClientRunning && isTest }

/-- A step of the setup throws, or the code of a test has an error before it runs Mocha. -/
def fail (state : State) (index : ℕ) (execution : Execution) : Option State :=
  match execution.phase with
  | .gettingGlobals | .gettingImports =>
    some ((state.setPhase index execution .ended).unblock execution.isTest)
  | .loaded => if execution.isTest then some (state.setPhase index execution .ended) else none
  | _ => none

/-- A script that waits for the event that it has finished. -/
def Execution.waits (execution : Execution) : Bool :=
  !execution.isTest && execution.phase = .loaded

/-- `CLIENT_ON_DID_FINISH_RUNNING`: every script that waits for it ends. -/
def finishRunning (state : State) : State :=
  { state with
    isClientRunning := state.isClientRunning && !state.executions.any Execution.waits
    executions := state.executions.map fun execution ↦
      if execution.waits then { execution with phase := .ended } else execution }

/-- The code of a test runs Mocha, which throws if it is running. -/
def runTests (state : State) (index : ℕ) (execution : Execution) : Option State :=
  if execution.isTest && execution.phase = .loaded then
    if state.isMochaRunning then some (state.setPhase index execution .ended)
    else some { state.setPhase index execution .runningTests with isMochaRunning := true }
  else none

/-- The tests end. -/
def endTests (state : State) (index : ℕ) (execution : Execution) : Option State :=
  if execution.phase = .runningTests then
    some { state.setPhase index execution .ended with isMochaRunning := false }
  else none

/-- One event. -/
def step (state : State) : Event → Option State
  | .execute isTest => some (execute state isTest)
  | .advance index => state.executions[index]?.bind fun execution ↦ advance state index execution
  | .fail index => state.executions[index]?.bind fun execution ↦ fail state index execution
  | .finishRunning => some (finishRunning state)
  | .runTests index => state.executions[index]?.bind fun execution ↦ runTests state index execution
  | .endTests index => state.executions[index]?.bind fun execution ↦ endTests state index execution

/-! ### What the function is for -/

/-- At most one script or test is in execution, and a call has been accepted exactly if none was. -/
structure Exclusive (state : State) : Prop where
  single : ∀ (first second : ℕ) (one other : Execution), state.executions[first]? = some one →
    state.executions[second]? = some other → one.inExecution = true → other.inExecution = true →
      first = second
  accepted : ∀ call ∈ state.calls, call.accepted = !call.busy

/-- The calls that keep it: no call is made between the acceptance of a test and the moment Mocha runs
it. -/
def guard (state : State) : Event → Prop
  | .execute _ => ∀ execution ∈ state.executions, execution.isTest = true →
      execution.phase = .runningTests ∨ execution.phase = .ended
  | _ => True

/-! ### Guarded runs -/

/-- Nothing is in execution, and both flags say so. -/
structure Idle (state : State) : Prop where
  client : state.isClientRunning = false
  mocha : state.isMochaRunning = false
  ended : ∀ execution ∈ state.executions, execution.phase = .ended

/-- One call is in execution, and the flags are those of its phase. -/
structure Runs (state : State) (index : ℕ) (execution : Execution) : Prop where
  here : state.executions[index]? = some execution
  running : execution.phase ≠ .ended
  others : ∀ (other : ℕ) (call : Execution), state.executions[other]? = some call →
    other ≠ index → call.phase = .ended
  client : state.isClientRunning = !execution.isTest
  mocha : state.isMochaRunning = decide (execution.phase = .runningTests)
  tests : execution.phase = .runningTests → execution.isTest = true

/-- What holds along a guarded run. -/
structure Kept (state : State) : Prop where
  shape : Idle state ∨ ∃ index execution, Runs state index execution
  accepted : ∀ call ∈ state.calls, call.accepted = !call.busy

/-- Before the first call. -/
theorem kept_initial : Kept initial where
  shape := Or.inl ⟨rfl, rfl, by simp [initial]⟩
  accepted := by simp [initial]

/-- Nothing is busy when nothing is in execution. -/
theorem Idle.busy {state : State} (hidle : Idle state) : state.busy = false := by
  rw [State.busy, List.any_eq_false]
  intro execution hmem
  simp [Execution.inExecution, hidle.ended execution hmem]

/-- The call in execution keeps the client busy. -/
theorem Runs.busy {state : State} {index : ℕ} {execution : Execution}
    (hruns : Runs state index execution) : state.busy = true := by
  rw [State.busy, List.any_eq_true]
  refine ⟨execution, List.mem_of_getElem? hruns.here, ?_⟩
  simp [Execution.inExecution, hruns.running]

/-- What is kept is exclusive. -/
theorem Kept.exclusive {state : State} (hstate : Kept state) : Exclusive state where
  accepted := hstate.accepted
  single := by
    intro first second one other hone hother hrunsOne hrunsOther
    simp only [Execution.inExecution, ne_eq, decide_eq_true_eq] at hrunsOne hrunsOther
    rcases hstate.shape with hidle | ⟨index, execution, hruns⟩
    · exact absurd (hidle.ended one (List.mem_of_getElem? hone)) hrunsOne
    · have hfirst : first = index := by
        by_contra hne
        exact hrunsOne (hruns.others first one hone hne)
      have hsecond : second = index := by
        by_contra hne
        exact hrunsOther (hruns.others second other hother hne)
      exact hfirst.trans hsecond.symm

/-- A call that has not ended is the one in execution. -/
theorem Kept.runs {state : State} (hstate : Kept state) {index : ℕ} {execution : Execution}
    (hget : state.executions[index]? = some execution) (hphase : execution.phase ≠ .ended) :
    Runs state index execution := by
  rcases hstate.shape with hidle | ⟨other, call, hruns⟩
  · exact absurd (hidle.ended execution (List.mem_of_getElem? hget)) hphase
  · have hindex : index = other := by
      by_contra hne
      exact hphase (hruns.others index execution hget hne)
    subst hindex
    have hcall : execution = call := Option.some.inj (hget.symm.trans hruns.here)
    rwa [hcall]

/-- The call in execution comes to another phase, with the flags of that phase. -/
theorem Runs.setPhase {state : State} {index : ℕ} {execution : Execution}
    (hruns : Runs state index execution) {phase : Phase} (hphase : phase ≠ .ended)
    (htests : phase = .runningTests → execution.isTest = true) (mocha : Bool)
    (hmocha : mocha = decide (phase = .runningTests)) :
    Runs { state.setPhase index execution phase with isMochaRunning := mocha } index
      { execution with phase := phase } where
  here := by
    have hlow : index < state.executions.length := (List.getElem?_eq_some_iff.mp hruns.here).1
    simp [State.setPhase, hlow]
  running := hphase
  others := by
    intro other call hget hne
    refine hruns.others other call ?_ hne
    rwa [State.setPhase, List.getElem?_set_ne (Ne.symm hne)] at hget
  client := hruns.client
  mocha := hmocha
  tests := htests

/-- The call in execution ends, with both flags cleared. -/
theorem Runs.ended {state after : State} {index : ℕ} {execution : Execution}
    (hruns : Runs state index execution)
    (hafter : after.executions = (state.setPhase index execution .ended).executions)
    (hclient : after.isClientRunning = false) (hmocha : after.isMochaRunning = false) :
    Idle after where
  client := hclient
  mocha := hmocha
  ended := by
    intro call hmem
    rw [hafter] at hmem
    obtain ⟨other, hget⟩ := List.mem_iff_getElem?.mp hmem
    by_cases hindex : other = index
    · subst hindex
      have hlow : other < state.executions.length := (List.getElem?_eq_some_iff.mp hruns.here).1
      have hcall : { execution with phase := .ended } = call := by
        simpa [State.setPhase, hlow] using hget
      rw [← hcall]
    · refine hruns.others other call ?_ hindex
      rwa [State.setPhase, List.getElem?_set_ne (Ne.symm hindex)] at hget

/-! ### What an event keeps -/

/-- A call that is refused changes nothing but the record of the calls. -/
theorem execute_refused {state : State} {isTest : Bool} {error : Str}
    (herror : executeBlocking state isTest = .error error) :
    execute state isTest = { state with calls := state.calls ++ [⟨state.busy, false⟩] } := by
  rw [execute, herror]

/-- A call is refused while either flag is set. -/
theorem exists_executeBlocking_error {state : State}
    (hflags : state.isClientRunning = true ∨ state.isMochaRunning = true) (isTest : Bool) :
    ∃ error, executeBlocking state isTest = .error error := by
  cases isTest <;> cases hclient : state.isClientRunning <;> simp_all [executeBlocking]

/-- A call is accepted while neither flag is set. -/
theorem execute_accepted {state : State} (hclient : state.isClientRunning = false)
    (hmocha : state.isMochaRunning = false) (isTest : Bool) :
    execute state isTest =
      { state with
        isClientRunning := !isTest
        executions := state.executions ++ [⟨isTest, .gettingGlobals⟩]
        calls := state.calls ++ [⟨state.busy, true⟩] } := by
  simp [execute, executeBlocking, hclient, hmocha]

/-- The calls stay right when a call is recorded right. -/
theorem accepted_append {calls : List Call} (hcalls : ∀ call ∈ calls, call.accepted = !call.busy)
    (last : Call) (hlast : last.accepted = !last.busy) :
    ∀ call ∈ calls ++ [last], call.accepted = !call.busy := by
  intro call hmem
  rcases List.mem_append.mp hmem with hmem | hmem
  · exact hcalls call hmem
  · rwa [List.mem_singleton.mp hmem]

/-- A call that meets the guard. -/
theorem kept_execute {state : State} (hstate : Kept state) {isTest : Bool}
    (hguard : guard state (.execute isTest)) : Kept (execute state isTest) := by
  rcases hstate.shape with hidle | ⟨index, execution, hruns⟩
  · -- nothing is in execution: the call is accepted and is the one in execution
    rw [execute_accepted hidle.client hidle.mocha]
    refine ⟨Or.inr ⟨state.executions.length, ⟨isTest, .gettingGlobals⟩, ?_⟩, ?_⟩
    · refine ⟨by simp, by simp, ?_, rfl, by simp [hidle.mocha], by simp⟩
      intro other call hget hne
      refine hidle.ended call (List.mem_of_getElem? (i := other) ?_)
      have hlow : other < state.executions.length := by
        have hlength := (List.getElem?_eq_some_iff.mp hget).1
        simp only [List.length_append, List.length_singleton] at hlength
        omega
      rwa [List.getElem?_append_left hlow] at hget
    · exact accepted_append hstate.accepted _ (by simp [hidle.busy])
  · -- something is in execution: one of the flags is set, and the call is refused
    have hflags : state.isClientRunning = true ∨ state.isMochaRunning = true := by
      by_cases htest : execution.isTest = true
      · have hphase := (hguard execution (List.mem_of_getElem? hruns.here) htest).resolve_right
          hruns.running
        exact Or.inr (by rw [hruns.mocha, hphase]; rfl)
      · exact Or.inl (by simp [hruns.client, htest])
    obtain ⟨error, herror⟩ := exists_executeBlocking_error hflags isTest
    rw [execute_refused herror]
    refine ⟨Or.inr ⟨index, execution, ?_⟩, ?_⟩
    · exact ⟨hruns.here, hruns.running, hruns.others, hruns.client, hruns.mocha, hruns.tests⟩
    · exact accepted_append hstate.accepted _ (by simp [hruns.busy])

/-- A step of the setup. -/
theorem kept_advance {state after : State} (hstate : Kept state) {index : ℕ} {execution : Execution}
    (hget : state.executions[index]? = some execution)
    (hafter : advance state index execution = some after) : Kept after := by
  have hkept : ∀ phase, execution.phase ≠ .ended → execution.phase ≠ .runningTests →
      phase ≠ .ended → phase ≠ .runningTests → state.setPhase index execution phase = after →
      Kept after := by
    intro phase hended hnot hphase hother heq
    have hruns := hstate.runs hget hended
    subst heq
    refine ⟨Or.inr ⟨index, { execution with phase := phase }, ?_⟩, hstate.accepted⟩
    exact hruns.setPhase hphase (fun h ↦ absurd h hother) state.isMochaRunning
      (by simp [hruns.mocha, hnot, hother])
  cases hphase : execution.phase with
  | gettingGlobals =>
    rw [advance, hphase] at hafter
    exact hkept .gettingImports (by simp [hphase]) (by simp [hphase]) (by simp) (by simp)
      (Option.some.inj hafter)
  | gettingImports =>
    rw [advance, hphase] at hafter
    exact hkept .loaded (by simp [hphase]) (by simp [hphase]) (by simp) (by simp)
      (Option.some.inj hafter)
  | loaded | runningTests | ended => simp [advance, hphase] at hafter

/-- The call in execution ends before Mocha is run. -/
theorem kept_ended {state after : State} (hstate : Kept state) {index : ℕ} {execution : Execution}
    (hget : state.executions[index]? = some execution) (hended : execution.phase ≠ .ended)
    (hafter : after.executions = (state.setPhase index execution .ended).executions)
    (hclient : after.isClientRunning = (state.isClientRunning && execution.isTest))
    (hmocha : after.isMochaRunning =
      (state.isMochaRunning && decide (execution.phase ≠ .runningTests)))
    (hcalls : after.calls = state.calls) : Kept after := by
  have hruns := hstate.runs hget hended
  refine ⟨Or.inl (hruns.ended hafter ?_ ?_), ?_⟩
  · rw [hclient, hruns.client, Bool.not_and_self]
  · rw [hmocha, hruns.mocha]
    by_cases hphase : execution.phase = .runningTests <;> simp [hphase]
  · rw [hcalls]
    exact hstate.accepted

/-- An error before Mocha is run. -/
theorem kept_fail {state after : State} (hstate : Kept state) {index : ℕ} {execution : Execution}
    (hget : state.executions[index]? = some execution)
    (hafter : fail state index execution = some after) : Kept after := by
  cases hphase : execution.phase with
  | gettingGlobals | gettingImports =>
    rw [fail, hphase] at hafter
    obtain rfl := Option.some.inj hafter
    exact kept_ended hstate hget (by simp [hphase]) rfl rfl (by simp [hphase]; rfl) rfl
  | loaded =>
    rw [fail, hphase] at hafter
    simp only [Option.ite_none_right_eq_some] at hafter
    obtain ⟨htest, hafter⟩ := hafter
    obtain rfl := Option.some.inj hafter
    exact kept_ended hstate hget (by simp [hphase]) rfl (by simp [htest]; rfl)
      (by simp [hphase]; rfl) rfl
  | runningTests | ended => simp [fail, hphase] at hafter

/-- Every script that waits for the event ends. -/
theorem kept_finishRunning {state : State} (hstate : Kept state) : Kept (finishRunning state) := by
  refine ⟨?_, hstate.accepted⟩
  by_cases hwaits : ∃ execution ∈ state.executions, execution.waits = true
  · -- the script that waits is the one in execution
    obtain ⟨execution, hmem, hwaits⟩ := hwaits
    obtain ⟨index, hget⟩ := List.mem_iff_getElem?.mp hmem
    have hboth : execution.isTest = false ∧ execution.phase = .loaded := by
      simpa [Execution.waits] using hwaits
    have hruns := hstate.runs hget (by simp [hboth.2])
    refine Or.inl ⟨?_, ?_, ?_⟩
    · have hany : state.executions.any Execution.waits = true :=
        List.any_eq_true.mpr ⟨execution, hmem, hwaits⟩
      simp [finishRunning, hany]
    · simp [finishRunning, hruns.mocha, hboth.2]
    · intro call hcall
      obtain ⟨before, hbefore, rfl⟩ := List.mem_map.mp hcall
      obtain ⟨other, hother⟩ := List.mem_iff_getElem?.mp hbefore
      by_cases hindex : other = index
      · subst hindex
        obtain rfl := Option.some.inj (hget.symm.trans hother)
        rw [if_pos hwaits]
      · have hended := hruns.others other before hother hindex
        by_cases hbeforeWaits : before.waits = true
        · rw [if_pos hbeforeWaits]
        · rwa [if_neg hbeforeWaits]
  · -- no script waits: nothing changes
    push Not at hwaits
    have hany : state.executions.any Execution.waits = false := by
      rw [List.any_eq_false]
      exact hwaits
    have hmap : state.executions.map (fun execution ↦
        if execution.waits then { execution with phase := .ended } else execution) =
          state.executions := by
      refine (List.map_congr_left fun execution hmem ↦ ?_).trans (List.map_id _)
      rw [if_neg (hwaits execution hmem), id]
    have hsame : finishRunning state = state := by
      rw [finishRunning, hany, hmap]
      simp
    rw [hsame]
    exact hstate.shape

/-- The code of a test runs Mocha. -/
theorem kept_runTests {state after : State} (hstate : Kept state) {index : ℕ}
    {execution : Execution} (hget : state.executions[index]? = some execution)
    (hafter : runTests state index execution = some after) : Kept after := by
  rw [runTests, Option.ite_none_right_eq_some] at hafter
  obtain ⟨hboth, hafter⟩ := hafter
  simp only [Bool.and_eq_true, decide_eq_true_eq] at hboth
  have hruns := hstate.runs hget (by simp [hboth.2])
  have hmocha : state.isMochaRunning = false := by simp [hruns.mocha, hboth.2]
  rw [hmocha, if_neg Bool.false_ne_true] at hafter
  obtain rfl := Option.some.inj hafter
  refine ⟨Or.inr ⟨index, { execution with phase := .runningTests }, ?_⟩, hstate.accepted⟩
  exact hruns.setPhase (by simp) (fun _ ↦ hboth.1) true (by simp)

/-- The tests end. -/
theorem kept_endTests {state after : State} (hstate : Kept state) {index : ℕ}
    {execution : Execution} (hget : state.executions[index]? = some execution)
    (hafter : endTests state index execution = some after) : Kept after := by
  rw [endTests, Option.ite_none_right_eq_some] at hafter
  obtain ⟨hphase, hafter⟩ := hafter
  obtain rfl := Option.some.inj hafter
  have hruns := hstate.runs hget (by simp [hphase])
  exact kept_ended hstate hget (by simp [hphase]) rfl (by simp [hruns.tests hphase]; rfl)
    (by simp [hphase]) rfl

/-- Every event that meets the guard. -/
theorem kept_step (state : State) (event : Event) (after : State) (hstate : Kept state)
    (hguard : guard state event) (hstep : StepsTo step state event after) : Kept after := by
  cases event with
  | execute isTest =>
    obtain rfl := Option.some.inj hstep
    exact kept_execute hstate hguard
  | finishRunning =>
    obtain rfl := Option.some.inj hstep
    exact kept_finishRunning hstate
  | advance index =>
    obtain ⟨execution, hget, hafter⟩ := Option.bind_eq_some_iff.mp hstep
    exact kept_advance hstate hget hafter
  | fail index =>
    obtain ⟨execution, hget, hafter⟩ := Option.bind_eq_some_iff.mp hstep
    exact kept_fail hstate hget hafter
  | runTests index =>
    obtain ⟨execution, hget, hafter⟩ := Option.bind_eq_some_iff.mp hstep
    exact kept_runTests hstate hget hafter
  | endTests index =>
    obtain ⟨execution, hget, hafter⟩ := Option.bind_eq_some_iff.mp hstep
    exact kept_endTests hstate hget hafter

/-- What is kept along a guarded run. -/
theorem kept_of_guarded {events : List Event} {state : State}
    (hrun : Run (Guarded (StepsTo step) guard) initial events state) : Kept state :=
  hrun.invariant_guarded kept_step kept_initial

/-- A call that breaks the guard is accepted although a test is in execution. -/
theorem not_exclusive_of_unguarded {state : State} (hstate : Kept state) {isTest : Bool}
    (hbreak : ¬ guard state (.execute isTest)) : ¬ Exclusive (execute state isTest) := by
  simp only [guard, not_forall, not_or] at hbreak
  obtain ⟨execution, hmem, htest, hnot, hended⟩ := hbreak
  obtain ⟨index, hget⟩ := List.mem_iff_getElem?.mp hmem
  have hruns := hstate.runs hget hended
  have hclient : state.isClientRunning = false := by simp [hruns.client, htest]
  have hmocha : state.isMochaRunning = false := by simp [hruns.mocha, hnot]
  rw [execute_accepted hclient hmocha, hruns.busy]
  intro hexclusive
  have hcall := hexclusive.accepted ⟨true, true⟩ (List.mem_append_right _ (List.mem_singleton_self _))
  exact absurd hcall (by decide)

/-- One script or test is in execution at a time along every run whose calls meet the guard, a call
being accepted exactly if none is, and refused without an effect on the one that is. A call that does
not meet the guard is accepted although a test is in execution. -/
theorem exclusive_iff_guarded {events : List Event} {state : State}
    (hrun : Run (Guarded (StepsTo step) guard) initial events state) :
    Exclusive state ∧
    (∀ isTest error, executeBlocking state isTest = .error error →
      execute state isTest = { state with calls := state.calls ++ [⟨state.busy, false⟩] }) ∧
    ∀ isTest, ¬ guard state (.execute isTest) → ¬ Exclusive (execute state isTest) := by
  refine ⟨(kept_of_guarded hrun).exclusive, ?_, ?_⟩
  · intro isTest error herror
    exact execute_refused herror
  · intro isTest hbreak
    exact not_exclusive_of_unguarded (kept_of_guarded hrun) hbreak

/-- A script that runs to its end and a test after it, with a call made meanwhile; and a script that is
called for while a test gets its globals. -/
theorem exclusive_iff_guarded_script_and_test :
    Exclusive ⟨false, true, [⟨false, .ended⟩, ⟨true, .runningTests⟩],
      [⟨false, true⟩, ⟨true, false⟩, ⟨false, true⟩]⟩ ∧
    ¬ Exclusive (execute ⟨false, false, [⟨true, .gettingGlobals⟩], [⟨false, true⟩]⟩ false) := by
  constructor
  · refine (@exclusive_iff_guarded [.execute false, .advance 0, .execute true, .advance 0,
      .finishRunning, .execute true, .advance 1, .advance 1, .runTests 1] _ ?_).1
    exact .cons ⟨by simp [guard, initial], rfl⟩ (.cons ⟨trivial, rfl⟩
      (.cons ⟨by simp [guard, State.setPhase, execute, executeBlocking, initial], rfl⟩
        (.cons ⟨trivial, rfl⟩ (.cons ⟨trivial, rfl⟩ (.cons ⟨by simp [guard, finishRunning,
          Execution.waits, State.setPhase, execute, executeBlocking, initial], rfl⟩
          (.cons ⟨trivial, rfl⟩ (.cons ⟨trivial, rfl⟩ (.single ⟨trivial, rfl⟩))))))))
  · refine (@exclusive_iff_guarded [.execute true] _ ?_).2.2 false (by simp [guard])
    exact .single ⟨by simp [guard, initial], rfl⟩

/-- Two tests are called for one after the other: both are accepted. -/
theorem not_exclusive_of_two_tests :
    ¬ ∀ events state, Run (StepsTo step) initial events state → Exclusive state := by
  intro hall
  have hexclusive := hall [.execute true, .execute true] _ (Run.of_foldlM rfl)
  have hcall := hexclusive.accepted ⟨true, true⟩ (by decide)
  exact absurd hcall (by decide)

end Playground.Client
