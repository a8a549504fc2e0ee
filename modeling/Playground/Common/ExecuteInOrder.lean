import Playground.Library.Runs

/-!
# `PgCommon.executeInOrder`

`client/src/utils/pg/common.ts`. A wrapped callback pushes its arguments to `queue` and, unless the
flag `isExecuting` is set, starts `execute`, which drains the queue: a `while` loop around a
`for (const index in queue)` loop that awaits the callback of the entry at `index` and then splices
that entry out. The enumeration of a `for … in` loop is fixed when the loop is entered; a key that
has disappeared when its turn comes is skipped, and a key that has been added is not visited.

`State` is the closure of one wrapped callback together with the suspended frame of `execute`, and
`step` takes it through the three events that can reach it: a call, and the settlement of the
callback being awaited, fulfilled or rejected. `calls`, `started` and `settled` record what has
happened and are read by no branch.

`InOrder` is what the function is for: callbacks run one at a time, in the order of the calls, and
when none is running every call has been run. It fails (`not_inOrder_of_calls_while_draining`),
because splicing shifts the entries that the remaining keys point to, and because a rejection
leaves `isExecuting` set. `guard` names the events after which it does not:
`inOrder_iff_guarded` proves that it holds along every run whose events meet the guard, and that an
event which breaks the guard is followed by a violation as soon as the running callbacks fulfil.
-/

set_option autoImplicit false
set_option relaxedAutoImplicit false

namespace Playground.Common.ExecuteInOrder

open Library

/-! ### The wrapped callback -/

/-- The suspended frame of `execute`: the key of the entry whose callback is awaited, and the keys
of the `for … in` loop that are still to be visited. -/
structure Frame where
  index : ℕ
  keys : List ℕ
  deriving DecidableEq

/-- The closure of a wrapped callback. An entry of the queue is the arguments of a call, the
callback itself being the same for all of them. -/
structure State (Args : Type*) where
  queue : List Args
  isExecuting : Bool
  frame : Option Frame
  calls : List Args
  started : List Args
  settled : ℕ
  deriving DecidableEq

/-- What can happen to a wrapped callback. -/
inductive Event (Args : Type*)
  | call (args : Args)
  | fulfilled
  | rejected

variable {Args : Type*}

/-- The state in which `executeInOrder` returns the wrapped callback. -/
def initial : State Args where
  queue := []
  isExecuting := false
  frame := none
  calls := []
  started := []
  settled := 0

/-- The rest of a `for … in` loop: start the callback of the next key that is still in the queue,
or leave the loop. -/
def forIn (state : State Args) : List ℕ → Option (State Args)
  | [] => none
  | index :: keys =>
    match state.queue[index]? with
    | some args =>
      some { state with frame := some ⟨index, keys⟩, started := state.started ++ [args] }
    | none => forIn state keys

/-- The `while` loop of `execute`, entered or continued. -/
def whileLoop (state : State Args) : State Args :=
  if state.queue.length ≠ 0 then
    -- the loop over a non-empty queue always suspends at its first key
    (forIn state (List.range state.queue.length)).getD state
  else { state with isExecuting := false }

/-- `execute`, up to the first callback it awaits. -/
def execute (state : State Args) : State Args :=
  whileLoop { state with isExecuting := true }

/-- `pushQueue`. -/
def pushQueue (state : State Args) (args : Args) : State Args :=
  let pushed := { state with queue := state.queue ++ [args], calls := state.calls ++ [args] }
  if pushed.isExecuting then pushed else execute pushed

/-- The `finally` block: the awaited entry is spliced out. -/
def splice (state : State Args) (index : ℕ) : State Args :=
  { state with
    queue := state.queue.eraseIdx index, frame := none, settled := state.settled + 1 }

/-- `execute` after an entry has been spliced out: the rest of the loop, then the `while` loop. -/
def resume (spliced : State Args) (keys : List ℕ) : State Args :=
  (forIn spliced keys).getD (whileLoop spliced)

/-- One event. A settlement needs a callback that is being awaited. After a fulfilled one the loops
go on; a rejected one leaves `execute` with the flag still set. -/
def step (state : State Args) : Event Args → Option (State Args)
  | .call args => some (pushQueue state args)
  | .fulfilled =>
    state.frame.map fun frame ↦ resume (splice state frame.index) frame.keys
  | .rejected => state.frame.map fun frame ↦ splice state frame.index

/-! ### What the function is for -/

/-- The callbacks run one at a time, in the order of the calls, and once none is running every call
has been run, each exactly once. -/
structure InOrder (state : State Args) : Prop where
  started_prefix : state.started <+: state.calls
  one_at_a_time : state.started.length ≤ state.settled + 1
  all_run : state.frame = none → state.started = state.calls

/-- The events that keep the order. A call may come while nothing runs, or while the running
callback was alone in the queue when its loop was entered and at most one other call waits; a
callback may reject when no call waits. After a rejection no call may come. -/
def guard (state : State Args) : Event Args → Prop
  | .call _ =>
    match state.frame with
    | none => state.isExecuting = false
    | some frame => frame.keys = [] ∧ state.queue.length ≤ 2
  | .fulfilled => True
  | .rejected => state.queue.length = 1

/-! ### Guarded runs -/

/-- The shape of the states of a guarded run: the awaited entry is the first of the queue, the
entries after it are the calls not yet started, and the loop was entered with one entry, with at
most two behind it now, or with two, with nothing behind them. -/
structure Draining (state : State Args) : Prop where
  calls_eq : state.started ++ state.queue.drop state.frame.toList.length = state.calls
  length_eq : state.started.length = state.settled + state.frame.toList.length
  idle : state.frame = none → state.queue = []
  running : ∀ frame, state.frame = some frame → state.isExecuting = true ∧ frame.index = 0 ∧
    (frame.keys = [] ∧ 1 ≤ state.queue.length ∧ state.queue.length ≤ 3 ∨
      frame.keys = [1] ∧ state.queue.length = 2)

/-- The closure starts out with nothing to drain. -/
theorem draining_initial : Draining (initial : State Args) where
  calls_eq := rfl
  length_eq := rfl
  idle := fun _ ↦ rfl
  running := by simp [initial]

/-- Entering the loop over the entries `first :: rest` starts the callback of `first`. -/
theorem whileLoop_cons (state : State Args) {first : Args} {rest : List Args}
    (hqueue : state.queue = first :: rest) :
    whileLoop state = { state with
      frame := some ⟨0, (List.range rest.length).map Nat.succ⟩
      started := state.started ++ [first] } := by
  simp [whileLoop, hqueue, forIn, List.range_succ_eq_map]

/-- Leaving the loop with an empty queue resets the flag. -/
theorem whileLoop_nil (state : State Args) (hqueue : state.queue = []) :
    whileLoop state = { state with isExecuting := false } := by
  simp [whileLoop, hqueue]

/-- A loop entered with at most two entries, all of whose calls have not been started, is a state
of a guarded run. -/
theorem draining_whileLoop {state : State Args} (hframe : state.frame = none)
    (hexecuting : state.isExecuting = true) (hcalls : state.started ++ state.queue = state.calls)
    (hlength : state.started.length = state.settled) (hshort : state.queue.length ≤ 2) :
    Draining (whileLoop state) := by
  cases hqueue : state.queue with
  | nil =>
    rw [whileLoop_nil state hqueue]
    refine ⟨?_, ?_, fun _ ↦ hqueue, ?_⟩
    · simpa [hframe] using hcalls
    · simpa [hframe] using hlength
    · simp [hframe]
  | cons first rest =>
    rw [whileLoop_cons state hqueue]
    rw [hqueue] at hcalls hshort
    refine ⟨?_, ?_, ?_, ?_⟩
    · simpa [hqueue] using hcalls
    · simpa using hlength
    · simp
    · intro frame hstarted
      obtain rfl := Option.some.inj hstarted
      refine ⟨hexecuting, rfl, ?_⟩
      match rest, hshort with
      | [], _ => exact Or.inl ⟨rfl, by simp [hqueue]⟩
      | [_], _ => exact Or.inr ⟨rfl, by simp [hqueue]⟩

/-- Calls keep the shape. -/
theorem draining_call {state : State Args} (hstate : Draining state) {args : Args}
    (hguard : guard state (.call args)) : Draining (pushQueue state args) := by
  obtain ⟨hcalls, hlength, hidle, hrunning⟩ := hstate
  cases hframe : state.frame with
  | none =>
    have hempty := hidle hframe
    have hflag : state.isExecuting = false := by simpa [guard, hframe] using hguard
    simp only [hframe, hempty, Option.toList_none, List.length_nil, List.drop_nil,
      List.append_nil, Nat.add_zero] at hcalls hlength
    simp only [pushQueue, hflag, Bool.false_eq_true, if_false, execute]
    exact draining_whileLoop hframe rfl (by simp [hempty, hcalls]) hlength (by simp [hempty])
  | some frame =>
    obtain ⟨hflag, hindex, hshape⟩ := hrunning frame hframe
    have hkeys : frame.keys = [] ∧ state.queue.length ≤ 2 := by simpa [guard, hframe] using hguard
    have hpositive : 1 ≤ state.queue.length := by
      rcases hshape with ⟨_, hlow, _⟩ | ⟨_, htwo⟩ <;> omega
    have hpushed : pushQueue state args =
        { state with queue := state.queue ++ [args], calls := state.calls ++ [args] } := by
      simp [pushQueue, hflag]
    rw [hpushed]
    refine ⟨?_, by simpa using hlength, fun hnone ↦ by simp [hframe] at hnone, ?_⟩
    · simp only [hframe, Option.toList_some, List.length_cons, List.length_nil, Nat.zero_add]
        at hcalls ⊢
      rw [List.drop_append_of_le_length hpositive, ← List.append_assoc, hcalls]
    · intro other hother
      obtain rfl : frame = other := by simpa [hframe] using hother
      refine ⟨hflag, hindex, Or.inl ⟨hkeys.1, ?_⟩⟩
      simp only [List.length_append, List.length_cons, List.length_nil]
      omega

/-- A fulfilled callback keeps the shape: the key left over from a loop entered with two entries
points behind the single entry that remains. -/
theorem draining_fulfilled {state after : State Args} (hstate : Draining state)
    (hstep : step state .fulfilled = some after) : Draining after := by
  obtain ⟨hcalls, hlength, hidle, hrunning⟩ := hstate
  obtain ⟨frame, hframe, rfl⟩ := Option.map_eq_some_iff.mp hstep
  obtain ⟨hflag, hindex, hshape⟩ := hrunning frame hframe
  simp only [hframe, Option.toList_some, List.length_cons, List.length_nil, Nat.zero_add]
    at hcalls hlength
  have hsplice : (splice state frame.index).queue = state.queue.drop 1 := by
    simp [splice, hindex, List.eraseIdx_zero]
  have hloop : forIn (splice state frame.index) frame.keys = none := by
    rcases hshape with ⟨hkeys, _⟩ | ⟨hkeys, htwo⟩
    · rw [hkeys, forIn]
    · rw [hkeys, forIn, hsplice, List.getElem?_eq_none (by simp [htwo]), forIn]
  rw [resume, hloop, Option.getD_none]
  refine draining_whileLoop rfl hflag ?_ hlength ?_
  · rw [hsplice]
    exact hcalls
  · rw [hsplice, List.length_drop]
    rcases hshape with ⟨_, _, hhigh⟩ | ⟨_, htwo⟩ <;> omega

/-- A callback that rejects with no call waiting leaves nothing behind. -/
theorem draining_rejected {state after : State Args} (hstate : Draining state)
    (hguard : guard state .rejected) (hstep : step state .rejected = some after) :
    Draining after := by
  obtain ⟨hcalls, hlength, hidle, hrunning⟩ := hstate
  obtain ⟨frame, hframe, rfl⟩ := Option.map_eq_some_iff.mp hstep
  obtain ⟨_, hindex, _⟩ := hrunning frame hframe
  obtain ⟨args, hqueue⟩ := List.length_eq_one_iff.mp hguard
  simp only [hframe, hqueue, Option.toList_some, List.length_cons, List.length_nil, Nat.zero_add,
    List.drop_succ_cons, List.drop_zero] at hcalls hlength
  refine ⟨?_, ?_, ?_, by simp [splice]⟩
  · simpa [splice, hindex, hqueue] using hcalls
  · simpa [splice] using hlength
  · simp [splice, hindex, hqueue]

/-- Every guarded event keeps the shape. -/
theorem draining_step (state : State Args) (event : Event Args) (after : State Args)
    (hstate : Draining state) (hguard : guard state event)
    (hstep : StepsTo step state event after) : Draining after := by
  cases event with
  | call args =>
    obtain rfl : pushQueue state args = after := by simpa [StepsTo, step] using hstep
    exact draining_call hstate hguard
  | fulfilled => exact draining_fulfilled hstate hstep
  | rejected => exact draining_rejected hstate hguard hstep

/-- A state of a guarded run is in order. -/
theorem Draining.inOrder {state : State Args} (hstate : Draining state) : InOrder state where
  started_prefix := ⟨_, hstate.calls_eq⟩
  one_at_a_time := by
    rw [hstate.length_eq]
    cases state.frame <;> simp
  all_run := fun hframe ↦ by
    rw [← hstate.calls_eq, hstate.idle hframe]
    simp

/-- Every guarded run ends in a state of the shape of guarded runs. -/
theorem draining_of_guarded {events : List (Event Args)} {finish : State Args}
    (hrun : Run (Guarded (StepsTo step) guard) initial events finish) : Draining finish :=
  hrun.invariant_guarded draining_step draining_initial

/-! ### Events that break the guard -/

/-- A callback that rejects while a call waits leaves that call waiting for ever. -/
theorem not_inOrder_rejected {state after : State Args} (hstate : Draining state)
    (hbreak : ¬ guard state .rejected) (hstep : step state .rejected = some after) :
    ¬ InOrder after := by
  intro horder
  obtain ⟨frame, hframe, rfl⟩ := Option.map_eq_some_iff.mp hstep
  have hrun := horder.all_run rfl
  have hcalls := hstate.calls_eq
  simp only [hframe, Option.toList_some, List.length_cons, List.length_nil, Nat.zero_add]
    at hcalls
  have hdrop : state.queue.drop 1 = [] :=
    List.append_cancel_left (hcalls.trans (hrun.symm.trans (List.append_nil _).symm))
  have hshort : state.queue.length ≤ 1 := List.drop_eq_nil_iff.mp hdrop
  have hlong : state.queue.length ≠ 1 := hbreak
  rcases (hstate.running frame hframe).2.2 with ⟨_, hlow, _⟩ | ⟨_, htwo⟩ <;> omega

/-- A call that breaks the guard is never run if a callback has rejected, and else it is run, or
makes another one run, before its turn, once the callback being awaited and the one after it have
been fulfilled. -/
theorem not_inOrder_call {state : State Args} (hstate : Draining state) {args : Args}
    (hbreak : ¬ guard state (.call args)) (hdistinct : (pushQueue state args).calls.Nodup) :
    ∃ count finish,
      (List.replicate count .fulfilled).foldlM step (pushQueue state args) = some finish ∧
        ¬ InOrder finish := by
  obtain ⟨queue, isExecuting, frame, calls, started, settled⟩ := state
  obtain ⟨hcalls, _, hidle, hrunning⟩ := hstate
  cases frame with
  | none =>
    obtain rfl : isExecuting = true := by simpa [guard] using hbreak
    refine ⟨0, _, rfl, fun horder ↦ ?_⟩
    obtain rfl : queue = [] := hidle rfl
    obtain rfl : started = calls := by simpa using hcalls
    have hrun : started = started ++ [args] := horder.all_run rfl
    simp at hrun
  | some frame =>
    obtain ⟨index, keys⟩ := frame
    obtain ⟨hflag, hindex, hshape⟩ := hrunning _ rfl
    obtain rfl : isExecuting = true := hflag
    obtain rfl : index = 0 := hindex
    simp only [Option.toList_some, List.length_cons, List.length_nil, Nat.zero_add] at hcalls
    subst hcalls
    have hcount : keys = [] ∧ queue.length = 3 ∨ keys = [1] ∧ queue.length = 2 := by
      rcases hshape with ⟨hkeys, _, hhigh⟩ | hpair
      · have hkeys : keys = [] := hkeys
        have hlong : ¬ queue.length ≤ 2 := fun hshort ↦ hbreak ⟨hkeys, hshort⟩
        have hhigh : queue.length ≤ 3 := hhigh
        exact Or.inl ⟨hkeys, by omega⟩
      · exact Or.inr hpair
    rcases hcount with ⟨rfl, hthree⟩ | ⟨rfl, htwo⟩
    · -- two entries wait: after the first of them the key `1` points to the new one
      obtain ⟨current, first, second, rfl⟩ := List.length_eq_three.mp hthree
      refine ⟨2, _, rfl, fun horder ↦ ?_⟩
      have hprefix : started ++ [first] ++ [args] <+: started ++ [first, second] ++ [args] :=
        horder.started_prefix
      have hsame : args = second := by
        simpa [List.append_assoc, List.prefix_append_right_inj] using hprefix
      have hnodup : (started ++ [first, second] ++ [args]).Nodup := hdistinct
      simp [hsame, List.nodup_append] at hnodup
    · -- the key `1` of the loop in progress points to the new entry
      obtain ⟨current, first, rfl⟩ := List.length_eq_two.mp htwo
      refine ⟨1, _, rfl, fun horder ↦ ?_⟩
      have hprefix : started ++ [args] <+: started ++ [first] ++ [args] := horder.started_prefix
      have hsame : args = first := by
        simpa [List.append_assoc, List.prefix_append_right_inj] using hprefix
      have hnodup : (started ++ [first] ++ [args]).Nodup := hdistinct
      simp [hsame, List.nodup_append] at hnodup

/-- Callbacks run in order along every run whose events meet the guard, and an event that breaks
the guard, of calls with distinct arguments, is followed by a violation as soon as the running
callbacks fulfil. -/
theorem inOrder_iff_guarded :
    (∀ events (finish : State Args),
      Run (Guarded (StepsTo step) guard) initial events finish → InOrder finish) ∧
    ∀ events (state : State Args) event after,
      Run (Guarded (StepsTo step) guard) initial events state → step state event = some after →
        ¬ guard state event → after.calls.Nodup →
          ∃ count finish, Run (StepsTo step) after (List.replicate count .fulfilled) finish ∧
            ¬ InOrder finish := by
  refine ⟨fun events finish hrun ↦ (draining_of_guarded hrun).inOrder, ?_⟩
  intro events state event after hrun hstep hbreak hdistinct
  have hstate := draining_of_guarded hrun
  cases event with
  | call args =>
    obtain rfl : pushQueue state args = after := by simpa [step] using hstep
    obtain ⟨count, finish, hfold, hviolated⟩ := not_inOrder_call hstate hbreak hdistinct
    exact ⟨count, finish, Run.of_foldlM hfold, hviolated⟩
  | fulfilled => exact absurd trivial hbreak
  | rejected => exact ⟨0, after, .nil after, not_inOrder_rejected hstate hbreak hstep⟩

/-- Two calls one after the other run in order, and a call after a rejection does not run. -/
theorem inOrder_iff_guarded_two_calls :
    @InOrder ℕ ⟨[], false, none, [0, 1], [0, 1], 2⟩ ∧
      ∃ count finish, Run (StepsTo step)
        (⟨[1], true, none, [0, 1], [0], 1⟩ : State ℕ) (List.replicate count .fulfilled) finish ∧
          ¬ InOrder finish := by
  constructor
  · refine inOrder_iff_guarded.1 [.call 0, .call 1, .fulfilled, .fulfilled] _ ?_
    exact .cons ⟨rfl, rfl⟩ (.cons ⟨⟨rfl, by decide⟩, rfl⟩
      (.cons ⟨trivial, rfl⟩ (.single ⟨trivial, rfl⟩)))
  · refine inOrder_iff_guarded.2 [.call 0, .rejected] ⟨[], true, none, [0], [0], 1⟩ (.call 1) _ ?_
      rfl (by simp [guard]) (by decide)
    exact .cons ⟨rfl, rfl⟩ (.single ⟨rfl, rfl⟩)

/-- Three calls arrive while a callback runs: the third of them is run before the second. -/
theorem not_inOrder_of_calls_while_draining :
    ¬ ∀ events (finish : State ℕ), Run (StepsTo step) initial events finish → InOrder finish := by
  intro hall
  have horder := hall [.call 0, .call 1, .call 2, .call 3, .fulfilled, .fulfilled] _
    (Run.of_foldlM rfl)
  have hprefix : [0, 1, 3] <+: [0, 1, 2, 3] := horder.started_prefix
  exact absurd hprefix (by decide)

end Playground.Common.ExecuteInOrder
