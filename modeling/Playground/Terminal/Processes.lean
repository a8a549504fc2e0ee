import Playground.Library.Runs

/-!
# Processes and the prompt

`client/src/utils/pg/terminal/shell.ts` and `terminal.ts`. `PgTerminal.process` disables the shell
while a callback runs and enables it afterwards. `PgShell.disable` counts the process and makes the
shell inactive at once; `PgShell.enable` starts a timer, and when the timer fires the count is
decremented, unless it is zero, the shell becomes active, and it prompts if nothing is counted.
`waitForUserInput` enables the shell in the same way, although nothing has been disabled for it.

`ShellState` is the shell with the processes that run. The shell accepts typed input if it is active
and shows a prompt (`ShellState.Accepts`), and input is due if no process is running or one waits for
input (`ShellState.Due`). The two do not agree (`not_accepts_iff_due_of_two_processes`): the timer makes
the shell active whichever processes are running, and a wait takes a process off the count that is
still running. `shellGuard` names the events after which they agree: `accepts_iff_due_iff_guarded`
proves that they do along every run whose events meet the guard, and what an event that breaks it leads
to. Runs in which the processes come one after the other meet it (`guarded_of_oneByOne`).

Not formalized here: what the processes print, the text that is typed, clearing and resizing the
terminal, and the question that completion may ask. What is written to the terminal is on the screen
at once, and a process that waits for input goes on when it has got it.
-/

set_option autoImplicit false
set_option relaxedAutoImplicit false

namespace Playground.Terminal

open Library

/-! ### The shell -/

/-- The fields of `PgShell` that enabling and disabling it concern. `promptShown` says that the line of
the cursor starts with a prompt, `timers` counts the timers of `enable` that have not fired, `running`
the processes that run and do not wait for input, and `waiting` those that wait. -/
structure ShellState where
  active : Bool
  waitingForInput : Bool
  processCount : ℕ
  activePrompt : Bool
  promptShown : Bool
  timers : ℕ
  running : ℕ
  waiting : ℕ
  deriving DecidableEq

/-- What can happen: a process is started, waits for input, or ends; an input is completed, with Enter
or by `executeFromStr`; a timer of `enable` fires; something is printed; and a key is pressed that
writes the input again. -/
inductive ShellEvent
  | process
  | waitForUserInput
  | finish
  | submit
  | fireTimer
  | print
  | key
  deriving DecidableEq

/-- The terminal has been opened, which enables the shell. -/
def opened : ShellState where
  active := false
  waitingForInput := false
  processCount := 0
  activePrompt := false
  promptShown := false
  timers := 1
  running := 0
  waiting := 0

/-- `PgShell.disable`. -/
def disable (state : ShellState) : ShellState :=
  { state with processCount := state.processCount + 1, active := false }

/-- `PgShell.enable`, up to the timer. -/
def enable (state : ShellState) : ShellState :=
  { state with timers := state.timers + 1 }

/-- `PgShell._decrementProcessCount`. -/
def decrementProcessCount (state : ShellState) : ShellState :=
  if state.processCount = 0 then state
  else { state with processCount := state.processCount - 1 }

/-- `PgShell.prompt`. -/
def prompt (state : ShellState) : ShellState :=
  if state.activePrompt && state.promptShown then state
  else { state with activePrompt := true, promptShown := true, active := true }

/-- The callback of the timer of `PgShell.enable`. -/
def fireTimer (state : ShellState) : ShellState :=
  let decremented := decrementProcessCount { state with timers := state.timers - 1 }
  let activated := { decremented with active := true }
  if activated.processCount = 0 then prompt activated else activated

/-- `PgTty.clearLine`. -/
def clearLine (state : ShellState) : ShellState :=
  { state with promptShown := false }

/-- `PgTerminal.process`, up to the `await`. -/
def process (state : ShellState) : ShellState :=
  clearLine (disable { state with running := state.running + 1 })

/-- `PgTerminal.process`, from the end of the callback. -/
def finish (state : ShellState) : ShellState :=
  enable { state with running := state.running - 1 }

/-- `PgShell.waitForUserInput`, called by a process that runs. A second wait is rejected. -/
def waitForUserInput (state : ShellState) : ShellState :=
  if state.waitingForInput then state
  else enable (clearLine { state with
    waitingForInput := true
    running := state.running - 1
    waiting := state.waiting + 1 })

/-- `handleInput`: what waits for input goes on. -/
def handleInput (state : ShellState) : ShellState :=
  { state with
    waitingForInput := false
    running := state.running + state.waiting
    waiting := 0 }

/-- `PgShell.handleReadComplete`. The cursor is on a new line or on one that has been cleared. -/
def handleReadComplete (state : ShellState) : ShellState :=
  let completed := { clearLine state with activePrompt := false, active := false }
  if completed.waitingForInput then handleInput completed else process completed

/-- `PgTerm.print`: an active shell writes the prompt again after it, if a read is active. -/
def print (state : ShellState) : ShellState :=
  { state with promptShown := state.active && state.activePrompt }

/-- A key that writes the input again, which an inactive shell ignores. -/
def key (state : ShellState) : ShellState :=
  if state.active then { state with promptShown := state.activePrompt } else state

/-- One event. -/
def shellStep (state : ShellState) : ShellEvent → Option ShellState
  | .process => some (process state)
  | .waitForUserInput => if state.running = 0 then none else some (waitForUserInput state)
  | .finish => if state.running = 0 then none else some (finish state)
  | .submit => some (handleReadComplete state)
  | .fireTimer => if state.timers = 0 then none else some (fireTimer state)
  | .print => some (print state)
  | .key => some (key state)

/-! ### When input is accepted and when it is due -/

/-- The shell is active and shows a prompt. -/
def ShellState.Accepts (state : ShellState) : Prop :=
  state.active = true ∧ state.promptShown = true

/-- No process is running, or one that is waits for input. -/
def ShellState.Due (state : ShellState) : Prop :=
  state.running + state.waiting = 0 ∨ 0 < state.waiting

/-- Input is accepted if it is due, and the shell is inactive if it is not. -/
structure ShellState.Right (state : ShellState) : Prop where
  accepts : state.Due → state.Accepts
  inactive : ¬ state.Due → state.active = false

/-- The events that keep it. While timers are pending nothing has to be right, so that only two events
matter. With no timer pending, a process may be started unless one waits for input. The last timer may
fire if no process is running or one waits, and if the process that it takes off the count is the last,
or the prompt is there. -/
def shellGuard (state : ShellState) : ShellEvent → Prop
  | .process => state.timers = 0 → state.waiting = 0
  | .fireTimer => state.timers = 1 → state.Due ∧ (state.processCount ≤ 1 ∨ state.promptShown = true)
  | _ => True

/-- What is right is what the shell is for. -/
theorem ShellState.Right.accepts_iff {state : ShellState} (hright : state.Right) :
    state.Accepts ↔ state.Due := by
  constructor
  · intro haccepts
    by_contra hdue
    exact absurd haccepts.1 (by simp [hright.inactive hdue])
  · exact hright.accepts

/-! ### What the events do -/

/-- A timer makes the shell active, and a prompt is shown if one was or if nothing else is counted. -/
theorem fireTimer_eq (state : ShellState) :
    fireTimer state =
      { state with
        timers := state.timers - 1
        processCount := state.processCount - 1
        active := true
        activePrompt := state.activePrompt || decide (state.processCount ≤ 1)
        promptShown := state.promptShown || decide (state.processCount ≤ 1) } := by
  obtain ⟨active, waitingForInput, processCount, activePrompt, promptShown, timers, running, waiting⟩ :=
    state
  match processCount with
  | 0 | 1 => cases activePrompt <;> cases promptShown <;> rfl
  | count + 2 =>
    have hmany : ¬ count + 2 ≤ 1 := by omega
    simp [fireTimer, decrementProcessCount, hmany]

/-- What holds along a guarded run. -/
structure ShellState.Kept (state : ShellState) : Prop where
  shown : state.promptShown = true → state.activePrompt = true
  waits : state.waitingForInput = true ↔ 0 < state.waiting
  right : state.timers = 0 → state.Right

/-- Before the first timer has fired. -/
theorem kept_opened : opened.Kept where
  shown := by simp [opened]
  waits := by simp [opened]
  right := by simp [opened]

/-- A process is started while none waits, or a timer is pending. -/
theorem kept_process {state : ShellState} (hstate : state.Kept)
    (hguard : shellGuard state .process) : (process state).Kept where
  shown := by simp [process, clearLine]
  waits := hstate.waits
  right := by
    intro htimers
    have hwaiting : state.waiting = 0 := hguard htimers
    refine ⟨fun hdue ↦ ?_, fun _ ↦ rfl⟩
    have hdue : state.running + 1 + state.waiting = 0 ∨ 0 < state.waiting := hdue
    omega

/-- A process waits for input. -/
theorem kept_waitForUserInput {state : ShellState} (hstate : state.Kept) :
    (waitForUserInput state).Kept := by
  by_cases hwaits : state.waitingForInput = true
  · rw [waitForUserInput, if_pos hwaits]
    exact hstate
  · rw [waitForUserInput, if_neg hwaits]
    exact ⟨by simp [enable, clearLine], by simp [enable, clearLine], by simp [enable]⟩

/-- A process ends. -/
theorem kept_finish {state : ShellState} (hstate : state.Kept) : (finish state).Kept where
  shown := hstate.shown
  waits := hstate.waits
  right := by simp [finish, enable]

/-- An input is completed. -/
theorem kept_handleReadComplete {state : ShellState} (hstate : state.Kept) :
    (handleReadComplete state).Kept := by
  by_cases hwaits : state.waitingForInput = true
  · -- the process that waits goes on
    have hwaiting := hstate.waits.mp hwaits
    have hcomplete : handleReadComplete state =
        handleInput { clearLine state with activePrompt := false, active := false } := if_pos hwaits
    rw [hcomplete]
    refine ⟨by simp [handleInput, clearLine], by simp [handleInput], fun _ ↦ ⟨fun hdue ↦ ?_, fun _ ↦ rfl⟩⟩
    have hdue : state.running + state.waiting + 0 = 0 ∨ 0 < 0 := hdue
    omega
  · -- the input is a command, which is a process
    have hwaiting : state.waiting = 0 := by
      by_contra hne
      exact hwaits (hstate.waits.mpr (Nat.pos_of_ne_zero hne))
    have hcomplete : handleReadComplete state =
        process { clearLine state with activePrompt := false, active := false } := if_neg hwaits
    rw [hcomplete]
    refine ⟨by simp [process, clearLine], hstate.waits, fun _ ↦ ⟨fun hdue ↦ ?_, fun _ ↦ rfl⟩⟩
    have hdue : state.running + 1 + state.waiting = 0 ∨ 0 < state.waiting := hdue
    omega

/-- A timer fires, and if it is the last one then input is due. -/
theorem kept_fireTimer {state : ShellState} (hstate : state.Kept) (hpending : state.timers ≠ 0)
    (hguard : shellGuard state .fireTimer) : (fireTimer state).Kept := by
  rw [fireTimer_eq]
  refine ⟨fun hshown ↦ ?_, hstate.waits, fun htimers ↦ ?_⟩
  · rcases Bool.or_eq_true_iff.mp hshown with hprompt | hcount
    · simp [hstate.shown hprompt]
    · simp [hcount]
  · have hlast : state.timers - 1 = 0 := htimers
    obtain ⟨hdue, hcount⟩ := hguard (by omega)
    have hshown : (state.promptShown || decide (state.processCount ≤ 1)) = true := by
      simpa [or_comm] using hcount
    exact ⟨fun _ ↦ ⟨rfl, hshown⟩, fun hnot ↦ absurd hdue hnot⟩

/-- Something is printed. -/
theorem kept_print {state : ShellState} (hstate : state.Kept) : (print state).Kept where
  shown := by
    intro hshown
    exact (Bool.and_eq_true_iff.mp hshown).2
  waits := hstate.waits
  right := by
    intro htimers
    have hright := hstate.right htimers
    refine ⟨fun hdue ↦ ?_, hright.inactive⟩
    obtain ⟨hactive, hshown⟩ := hright.accepts hdue
    exact ⟨hactive, by simp [print, hactive, hstate.shown hshown]⟩

/-- A key is pressed: an active shell writes what `print` does. -/
theorem kept_key {state : ShellState} (hstate : state.Kept) : (key state).Kept := by
  by_cases hactive : state.active = true
  · have hkey : key state = print state := by
      rw [key, if_pos hactive, print, hactive, Bool.true_and]
    rw [hkey]
    exact kept_print hstate
  · rw [key, if_neg hactive]
    exact hstate

/-- Every event that meets the guard. -/
theorem kept_shellStep (state : ShellState) (event : ShellEvent) (after : ShellState)
    (hstate : state.Kept) (hguard : shellGuard state event)
    (hstep : StepsTo shellStep state event after) : after.Kept := by
  cases event with
  | process =>
    obtain rfl := Option.some.inj hstep
    exact kept_process hstate hguard
  | waitForUserInput =>
    obtain rfl := Option.some.inj (Option.ite_none_left_eq_some.mp hstep).2
    exact kept_waitForUserInput hstate
  | finish =>
    obtain rfl := Option.some.inj (Option.ite_none_left_eq_some.mp hstep).2
    exact kept_finish hstate
  | submit =>
    obtain rfl := Option.some.inj hstep
    exact kept_handleReadComplete hstate
  | fireTimer =>
    obtain ⟨hpending, hstep⟩ := Option.ite_none_left_eq_some.mp hstep
    obtain rfl := Option.some.inj hstep
    exact kept_fireTimer hstate hpending hguard
  | print =>
    obtain rfl := Option.some.inj hstep
    exact kept_print hstate
  | key =>
    obtain rfl := Option.some.inj hstep
    exact kept_key hstate

/-- After an event that breaks the guard no timer is pending, and the shell is active although input is
not due, or does not accept it although it is. -/
theorem not_right_of_unguarded {state after : ShellState} {event : ShellEvent}
    (hstep : shellStep state event = some after) (hbreak : ¬ shellGuard state event) :
    after.timers = 0 ∧ ¬ after.Right := by
  cases event with
  | process =>
    obtain rfl := Option.some.inj hstep
    obtain ⟨htimers, hwaiting⟩ := Classical.not_imp.mp hbreak
    refine ⟨htimers, fun hright ↦ ?_⟩
    have hactive := (hright.accepts (Or.inr (Nat.pos_of_ne_zero hwaiting))).1
    exact Bool.false_ne_true hactive
  | fireTimer =>
    obtain rfl := Option.some.inj (Option.ite_none_left_eq_some.mp hstep).2
    obtain ⟨htimers, hwrong⟩ := Classical.not_imp.mp hbreak
    rw [fireTimer_eq]
    refine ⟨by simp [htimers], fun hright ↦ ?_⟩
    by_cases hdue : state.Due
    · have hcount : ¬ (state.processCount ≤ 1 ∨ state.promptShown = true) := fun h ↦ hwrong ⟨hdue, h⟩
      rw [not_or] at hcount
      have hshown : (state.promptShown || decide (state.processCount ≤ 1)) = true :=
        (hright.accepts hdue).2
      simp [hcount.1, hcount.2] at hshown
    · have hactive : true = false := hright.inactive hdue
      exact Bool.noConfusion hactive
  | waitForUserInput | finish | submit | print | key => exact absurd trivial hbreak

/-! ### Processes one after the other -/

/-- Processes are started one after the other: none is started while another runs or a timer is
pending, and no input is submitted while a timer is pending. -/
def oneByOne (state : ShellState) : ShellEvent → Prop
  | .process => state.running + state.waiting = 0 ∧ state.timers = 0
  | .submit => state.timers = 0 ∧ (state.waiting = 0 → state.running = 0)
  | _ => True

/-- What holds while processes are started one after the other. -/
structure ShellState.Single (state : ShellState) : Prop where
  one : state.running + state.waiting ≤ 1
  count : state.processCount ≤ 1
  timers : state.timers ≤ 1
  pending : state.timers = 1 → state.running = 0
  counted : state.timers = 0 → state.running + state.waiting = 0 → state.processCount = 0
  waits : state.waitingForInput = true ↔ 0 < state.waiting

/-- One event of a process after the other. -/
theorem single_shellStep {state after : ShellState} {event : ShellEvent} (hstate : state.Single)
    (hguard : oneByOne state event) (hstep : shellStep state event = some after) : after.Single := by
  obtain ⟨hone, hcount, htimers, hpending, hcounted, hwaits⟩ := hstate
  cases event with
  | process =>
    obtain rfl := Option.some.inj hstep
    obtain ⟨hnone, hzero⟩ := hguard
    have hidle := hcounted hzero hnone
    constructor <;> simp [process, clearLine, disable] <;> omega
  | waitForUserInput =>
    obtain ⟨hrunning, hstep⟩ := Option.ite_none_left_eq_some.mp hstep
    obtain rfl := Option.some.inj hstep
    have hnot : ¬ state.waitingForInput = true := by
      rw [hwaits]
      omega
    rw [waitForUserInput, if_neg hnot]
    constructor <;> simp [enable, clearLine] <;> omega
  | finish =>
    obtain ⟨hrunning, hstep⟩ := Option.ite_none_left_eq_some.mp hstep
    obtain rfl := Option.some.inj hstep
    constructor <;> simp [finish, enable] <;> omega
  | submit =>
    obtain rfl := Option.some.inj hstep
    obtain ⟨hzero, hidle⟩ := hguard
    by_cases hwait : state.waitingForInput = true
    · have hcomplete : handleReadComplete state =
          handleInput { clearLine state with activePrompt := false, active := false } := if_pos hwait
      rw [hcomplete]
      have hwaiting := hwaits.mp hwait
      constructor <;> simp [handleInput, clearLine] <;> omega
    · have hcomplete : handleReadComplete state =
          process { clearLine state with activePrompt := false, active := false } := if_neg hwait
      rw [hcomplete]
      have hwaiting : state.waiting = 0 := by
        by_contra hne
        exact hwait (hwaits.mpr (Nat.pos_of_ne_zero hne))
      have hrunning := hidle hwaiting
      have hnone := hcounted hzero (by omega)
      constructor <;> simp [process, clearLine, disable] <;> omega
  | fireTimer =>
    obtain ⟨hsome, hstep⟩ := Option.ite_none_left_eq_some.mp hstep
    obtain rfl := Option.some.inj hstep
    rw [fireTimer_eq]
    constructor <;> simp <;> omega
  | print =>
    obtain rfl := Option.some.inj hstep
    exact ⟨hone, hcount, htimers, hpending, hcounted, hwaits⟩
  | key =>
    obtain rfl := Option.some.inj hstep
    by_cases hactive : state.active = true
    · rw [key, if_pos hactive]
      exact ⟨hone, hcount, htimers, hpending, hcounted, hwaits⟩
    · rw [key, if_neg hactive]
      exact ⟨hone, hcount, htimers, hpending, hcounted, hwaits⟩

/-- Before the first timer has fired. -/
theorem single_opened : opened.Single := by
  constructor <;> simp [opened]

/-- The guard is met while the processes come one after the other. -/
theorem shellGuard_of_oneByOne {state after : ShellState} {event : ShellEvent}
    (hstate : state.Single) (hguard : oneByOne state event)
    (hstep : shellStep state event = some after) : shellGuard state event := by
  cases event with
  | process =>
    have hnone := hguard.1
    intro _
    omega
  | fireTimer =>
    obtain ⟨hsome, -⟩ := Option.ite_none_left_eq_some.mp hstep
    have htimers := hstate.timers
    have hrunning := hstate.pending (by omega)
    refine fun _ ↦ ⟨?_, Or.inl hstate.count⟩
    show state.running + state.waiting = 0 ∨ 0 < state.waiting
    omega
  | waitForUserInput | finish | submit | print | key => trivial

/-- Runs in which the processes come one after the other meet the guard. -/
theorem guarded_of_oneByOne {events : List ShellEvent} {state : ShellState}
    (hrun : Run (Guarded (StepsTo shellStep) oneByOne) opened events state) :
    Run (Guarded (StepsTo shellStep) shellGuard) opened events state := by
  have hboth : ∀ before event after, before.Single → oneByOne before event →
      StepsTo shellStep before event after → shellGuard before event ∧ after.Single := by
    intro before event after hbefore hguard hstep
    exact ⟨shellGuard_of_oneByOne hbefore hguard hstep, single_shellStep hbefore hguard hstep⟩
  exact (hrun.reguarded hboth single_opened).1

/-! ### The shell and its prompt -/

/-- Along every run whose events meet the guard, the shell accepts typed input exactly if input is due,
whenever no timer is pending. An event that breaks the guard leaves no timer pending, and the shell
active although input is not due, or not accepting it although it is. -/
theorem accepts_iff_due_iff_guarded (state : ShellState) :
    (∀ events, Run (Guarded (StepsTo shellStep) shellGuard) opened events state →
      state.timers = 0 → (state.Accepts ↔ state.Due)) ∧
    ∀ event after, shellStep state event = some after → ¬ shellGuard state event →
      after.timers = 0 ∧ ¬ after.Right := by
  constructor
  · intro events hrun htimers
    exact ((hrun.invariant_guarded kept_shellStep kept_opened).right htimers).accepts_iff
  · intro event after hstep hbreak
    exact not_right_of_unguarded hstep hbreak

/-- Of two processes one ends while the other one waits for input, and its timer fires before that of
the wait; the other one gets its input and ends. And a timer that fires while a process that has got its
input is running. -/
theorem accepts_iff_due_iff_guarded_wait :
    (ShellState.Accepts ⟨true, false, 0, true, true, 0, 0, 0⟩ ↔
      ShellState.Due ⟨true, false, 0, true, true, 0, 0, 0⟩) ∧
    (fireTimer ⟨false, false, 1, false, false, 1, 1, 0⟩).timers = 0 ∧
      ¬ ShellState.Right (fireTimer ⟨false, false, 1, false, false, 1, 1, 0⟩) := by
  constructor
  · refine (accepts_iff_due_iff_guarded _).1 [.fireTimer, .process, .process, .waitForUserInput, .finish,
      .fireTimer, .fireTimer, .print, .key, .submit, .finish, .fireTimer] ?_ rfl
    exact .cons ⟨fun _ ↦ ⟨Or.inl rfl, Or.inl (by decide)⟩, rfl⟩ (.cons ⟨fun _ ↦ rfl, rfl⟩
      (.cons ⟨fun _ ↦ rfl, rfl⟩ (.cons ⟨trivial, rfl⟩ (.cons ⟨trivial, rfl⟩ (.cons ⟨nofun, rfl⟩
        (.cons ⟨fun _ ↦ ⟨Or.inr (by decide), Or.inl (by decide)⟩, rfl⟩ (.cons ⟨trivial, rfl⟩
          (.cons ⟨trivial, rfl⟩ (.cons ⟨trivial, rfl⟩ (.cons ⟨trivial, rfl⟩
            (.single ⟨fun _ ↦ ⟨Or.inl rfl, Or.inl (by decide)⟩, rfl⟩)))))))))))
  · refine (accepts_iff_due_iff_guarded ⟨false, false, 1, false, false, 1, 1, 0⟩).2 .fireTimer _ rfl ?_
    intro hguard
    have hdue : 1 + 0 = 0 ∨ 0 < 0 := (hguard rfl).1
    omega

/-- A process asks for input and gets it, and another one starts and ends meanwhile: the shell prompts
although the first is running. -/
theorem not_accepts_iff_due_of_two_processes :
    ¬ ∀ events state, Run (StepsTo shellStep) opened events state → state.timers = 0 →
      (state.Accepts ↔ state.Due) := by
  intro hall
  have hiff := hall [.fireTimer, .process, .waitForUserInput, .fireTimer, .submit, .process, .finish,
    .fireTimer] ⟨true, false, 0, true, true, 0, 1, 0⟩ (Run.of_foldlM rfl) rfl
  have hdue : 1 + 0 = 0 ∨ 0 < 0 := hiff.mp ⟨rfl, rfl⟩
  omega

end Playground.Terminal
