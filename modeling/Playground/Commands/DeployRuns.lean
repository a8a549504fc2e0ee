import Playground.Commands.DeployTranscripts

/-!
# Runs of the deploy command

The deployments of a session, in any interleaving of their answers with clicks, builds and commands that are
run from elsewhere. `Comes` says what a step can do to a deployment: nothing, start it, or answer it. From
this, `recorded_of_run` has it that what a deployment has been answered explains its phase, and that the
phase is the one that the answers lead to.

`ready_iff_of_run` is about runs in which the command is run from elsewhere only while no deployment runs.
With two deployments the first one that returns makes the button ready while the other one still runs
(`not_shown_of_overlapping`).
-/

set_option autoImplicit false
set_option relaxedAutoImplicit false

namespace Playground.DeployCommand

open Library

/-! ### One step -/

/-- What a deployment after a step comes from: it was there, it has been started, or it has been answered. -/
inductive Comes (before : State) : Deployment → Prop
  | kept {deployment : Deployment} : deployment ∈ before.deployments → Comes before deployment
  | started {code : Str} : before.isPgConnected = true → before.dll = some code → code ≠ [] →
      Comes before (.started code before.now)
  | answered {deployment answered : Deployment} {answer : Answer} : deployment ∈ before.deployments →
      deployment.resume before.now answer = some answered → Comes before answered

/-- What an answer does to a deployment. -/
theorem resume_eq_some {deployment answered : Deployment} {now : ℕ} {answer : Answer}
    (hresume : deployment.resume now answer = some answered) :
    ∃ request phase, deployment.phase.request deployment.code = some request ∧
      deployment.phase.next (now - deployment.startTime) answer = some phase ∧
      (answer = .slept → deployment.since + sleepTime ≤ now) ∧
      answered = { deployment with
        since := now
        progress :=
          if deployment.phase.advances answer then deployment.progress + 1 else deployment.progress
        phase
        history := deployment.history ++ [⟨now, request, answer⟩] } := by
  rw [Deployment.resume] at hresume
  by_cases hearly : answer = .slept ∧ now < deployment.since + sleepTime
  · simp only [if_pos hearly] at hresume
    cases hresume
  · simp only [if_neg hearly] at hresume
    obtain ⟨request, hrequest, hresume⟩ := Option.bind_eq_some_iff.mp hresume
    obtain ⟨phase, hnext, hresume⟩ := Option.bind_eq_some_iff.mp hresume
    obtain rfl := Option.some.inj hresume
    exact ⟨request, phase, hrequest, hnext, fun hslept ↦ not_lt.mp fun hlt ↦ hearly ⟨hslept, hlt⟩, rfl⟩

/-- The command starts a deployment, or its checks fail. -/
theorem execute_cases (state : State) :
    state.execute = state ∨ ∃ code, state.isPgConnected = true ∧ state.dll = some code ∧ code ≠ [] ∧
      state.execute = { state with
        deployState := .loading
        progress := 1
        deployments := state.deployments ++ [.started code state.now] } := by
  rw [State.execute]
  split
  · rename_i first rest hconnected hdll
    exact .inr ⟨first :: rest, hconnected, hdll, List.cons_ne_nil _ _, rfl⟩
  · exact .inl rfl

/-- A click runs the command, or changes the button only. -/
theorem click_cases (state : State) :
    state.click = state ∨ state.deployState = .ready ∧ state.click = state.execute ∨
      state.deployState ≠ .ready ∧ ∃ deployState, deployState ≠ .ready ∧ deployState ≠ .cancelled ∧
        state.click = { state with deployState } := by
  rw [State.click]
  split_ifs with hbuild
  · exact .inl rfl
  · cases hstate : state.deployState with
    | ready => exact .inr (.inl ⟨rfl, rfl⟩)
    | loading => exact .inr (.inr ⟨nofun, .paused, nofun, nofun, rfl⟩)
    | paused => exact .inr (.inr ⟨nofun, .loading, nofun, nofun, rfl⟩)
    | cancelled => exact .inl rfl

/-- A deployment is answered, and the button and the progress show it. -/
theorem resume_cases {before after : State} {index : ℕ} {answer : Answer}
    (hresume : before.resume index answer = some after) :
    ∃ deployment answered, before.deployments[index]? = some deployment ∧
      deployment.resume before.now answer = some answered ∧
      after = { before with deployments := before.deployments.set index answered }.show deployment.phase
        answer answered := by
  obtain ⟨deployment, hdeployment, hresume⟩ := Option.bind_eq_some_iff.mp hresume
  obtain ⟨answered, hanswered, hresume⟩ := Option.bind_eq_some_iff.mp hresume
  exact ⟨deployment, answered, hdeployment, hanswered, (Option.some.inj hresume).symm⟩

/-- What is shown changes neither the time nor the deployments. -/
theorem show_eq (state : State) (phase : Phase) (answer : Answer) (answered : Deployment) :
    (state.show phase answer answered).now = state.now ∧
      (state.show phase answer answered).deployments = state.deployments := by
  rw [State.show]
  split
  · exact ⟨rfl, rfl⟩
  · split_ifs <;> exact ⟨rfl, rfl⟩

/-- What a command that is run does to the deployments. -/
theorem comes_execute {state : State} {deployment : Deployment}
    (hmem : deployment ∈ state.execute.deployments) : Comes state deployment := by
  obtain heq | ⟨code, hconnected, hdll, hne, heq⟩ := execute_cases state
  · rw [heq] at hmem
    exact .kept hmem
  · rw [heq] at hmem
    obtain hold | hnew := List.mem_append.mp hmem
    · exact .kept hold
    · obtain rfl := List.mem_singleton.mp hnew
      exact .started hconnected hdll hne

/-- The deployments after a step, and that time does not go back. -/
theorem comes_of_step {before after : State} {event : Event} (hstep : StepsTo step before event after) :
    before.now ≤ after.now ∧ ∀ deployment ∈ after.deployments, Comes before deployment := by
  have hexecute : before.execute.now = before.now := by
    obtain heq | ⟨_, _, _, _, heq⟩ := execute_cases before <;> rw [heq]
  cases event with
  | wait duration =>
    obtain rfl := Option.some.inj hstep
    exact ⟨Nat.le_add_right _ _, fun _ hmem ↦ .kept hmem⟩
  | setDll dll | setConnected isPgConnected | setBuildLoading buildLoading =>
    obtain rfl := Option.some.inj hstep
    exact ⟨le_rfl, fun _ hmem ↦ .kept hmem⟩
  | click =>
    obtain rfl := Option.some.inj hstep
    obtain heq | ⟨-, heq⟩ | ⟨-, deployState, -, -, heq⟩ := click_cases before
    · rw [heq]
      exact ⟨le_rfl, fun _ hmem ↦ .kept hmem⟩
    · rw [heq]
      exact ⟨hexecute.ge, fun _ hmem ↦ comes_execute hmem⟩
    · rw [heq]
      exact ⟨le_rfl, fun _ hmem ↦ .kept hmem⟩
  | execute =>
    obtain rfl := Option.some.inj hstep
    exact ⟨hexecute.ge, fun _ hmem ↦ comes_execute hmem⟩
  | resume index answer =>
    obtain ⟨deployment, answered, hget, hanswered, rfl⟩ := resume_cases hstep
    obtain ⟨hnow, hdeployments⟩ := show_eq { before with
      deployments := before.deployments.set index answered } deployment.phase answer answered
    refine ⟨hnow.ge, fun other hmem ↦ ?_⟩
    rw [hdeployments] at hmem
    obtain hold | rfl := List.mem_or_eq_of_mem_set hmem
    · exact .kept hold
    · exact .answered (List.mem_of_getElem? hget) hanswered

/-! ### What the answers say -/

/-- What is known of a deployment: what it has been answered explains its phase and leads to it, and came in
order since the start. -/
structure Recorded (now : ℕ) (deployment : Deployment) : Prop where
  explains : Explains deployment.startTime deployment.code deployment.since deployment.phase
    deployment.history
  replays : replay deployment.startTime deployment.code deployment.history = some deployment.phase
  sorted : deployment.history.Pairwise fun first second ↦ first.time ≤ second.time
  since : ∀ entry ∈ deployment.history, deployment.startTime ≤ entry.time ∧ entry.time ≤ now
  started : deployment.startTime ≤ now

/-- What is said of the phase in which a deployment is. -/
theorem Recorded.explains_of_phase {now : ℕ} {deployment : Deployment} {phase : Phase}
    (hrecorded : Recorded now deployment) (hphase : deployment.phase = phase) :
    Explains deployment.startTime deployment.code deployment.since phase deployment.history :=
  hphase ▸ hrecorded.explains

/-- The phase of a deployment is the one that its answers lead to. -/
theorem Recorded.phase_eq {now : ℕ} {deployment : Deployment} {phase : Phase}
    (hrecorded : Recorded now deployment)
    (hreplay : replay deployment.startTime deployment.code deployment.history = some phase) :
    deployment.phase = phase :=
  Option.some.inj (hrecorded.replays.symm.trans hreplay)

/-- A later time changes nothing. -/
theorem Recorded.mono {now later : ℕ} {deployment : Deployment} (hrecorded : Recorded now deployment)
    (hle : now ≤ later) : Recorded later deployment where
  explains := hrecorded.explains
  replays := hrecorded.replays
  sorted := hrecorded.sorted
  since := fun entry hentry ↦
    ⟨(hrecorded.since entry hentry).1, (hrecorded.since entry hentry).2.trans hle⟩
  started := hrecorded.started.trans hle

/-- An answer is recorded. -/
theorem Recorded.resume {now : ℕ} {deployment answered : Deployment} {answer : Answer}
    (hrecorded : Recorded now deployment) (hresume : deployment.resume now answer = some answered) :
    Recorded now answered := by
  obtain ⟨request, phase, hrequest, hnext, hslept, rfl⟩ := resume_eq_some hresume
  refine ⟨explains_next hrecorded.explains hrequest hnext hslept, ?_, ?_, ?_, hrecorded.started⟩
  · rw [replay_append hrecorded.replays, List.foldlM_cons, follow_eq hrequest, hnext]
    rfl
  · refine List.pairwise_append.mpr ⟨hrecorded.sorted, List.pairwise_singleton _ _, ?_⟩
    intro first hfirst second hsecond
    obtain rfl := List.mem_singleton.mp hsecond
    exact (hrecorded.since first hfirst).2
  · intro entry hentry
    obtain hold | hnew := List.mem_append.mp hentry
    · exact hrecorded.since entry hold
    · obtain rfl := List.mem_singleton.mp hnew
      exact ⟨hrecorded.started, le_rfl⟩

/-- Every deployment of a session is recorded. -/
theorem recorded_of_run {start : ℕ} {events : List Event} {state : State}
    (hrun : Run (StepsTo step) (loaded start) events state) :
    ∀ deployment ∈ state.deployments, Recorded state.now deployment := by
  have hkept : ∀ before event after, (∀ deployment ∈ before.deployments, Recorded before.now deployment) →
      StepsTo step before event after →
      ∀ deployment ∈ after.deployments, Recorded after.now deployment := by
    intro before event after hbefore hstep deployment hmem
    obtain ⟨hnow, hcomes⟩ := comes_of_step hstep
    refine Recorded.mono ?_ hnow
    cases hcomes deployment hmem with
    | kept hold => exact hbefore deployment hold
    | started => exact ⟨rfl, rfl, .nil, nofun, le_rfl⟩
    | answered hold hresume => exact (hbefore _ hold).resume hresume
  exact hrun.invariant hkept nofun

/-- The code of a deployment is what had been built when it was started. -/
theorem started_of_run {start : ℕ} {events : List Event} {state : State}
    (hrun : Run (StepsTo step) (loaded start) events state) :
    ∀ deployment ∈ state.deployments, ∃ earlier before, earlier <+: events ∧
      Run (StepsTo step) (loaded start) earlier before ∧ before.isPgConnected = true ∧
      before.dll = some deployment.code ∧ before.now = deployment.startTime := by
  induction hrun with
  | nil => nofun
  | @snoc middle finish labels label hfirst hstep ih =>
    intro deployment hmem
    have hlater : ∀ old ∈ middle.deployments, ∃ earlier before, earlier <+: labels ++ [label] ∧
        Run (StepsTo step) (loaded start) earlier before ∧ before.isPgConnected = true ∧
        before.dll = some old.code ∧ before.now = old.startTime := by
      intro old hold
      obtain ⟨earlier, before, hprefix, hbefore⟩ := ih old hold
      exact ⟨earlier, before, hprefix.trans (List.prefix_append _ _), hbefore⟩
    cases (comes_of_step hstep).2 deployment hmem with
    | kept hold => exact hlater deployment hold
    | started hconnected hdll =>
      exact ⟨labels, middle, List.prefix_append _ _, hfirst, hconnected, hdll, rfl⟩
    | @answered old _ _ hold hresume =>
      obtain ⟨_, _, _, _, _, rfl⟩ := resume_eq_some hresume
      exact hlater old hold

/-- A session in which a deployment is answered until the explorer is asked. -/
def proposedEvents : List Event :=
  [.setConnected true, .setDll (some ['x']), .click, .resume 0 (.sent (.ok (some ['t']))),
    .resume 0 (.txResult (.ok ⟨['t'], "PENDING".toList⟩)),
    .resume 0 (.txResult (.ok ⟨['t'], "PENDING".toList⟩)), .wait 5000, .resume 0 .slept,
    .resume 0 (.txResult (.ok ⟨['t'], "MINED".toList⟩)), .resume 0 (.logs (.ok [⟨some ['p'], none⟩]))]

/-- The explorer knows the proposal when it is asked again. -/
def releasedEvents : List Event :=
  proposedEvents ++
    [.resume 0 (.proposalInfo (.ok ⟨[], none⟩)), .wait 5000, .resume 0 .slept,
      .resume 0 (.proposalInfo (.ok ⟨"success".toList, some ⟨"released".toList, ['r']⟩⟩)),
      .resume 0 (.txResult (.ok ⟨['r'], "MINED".toList⟩)), .resume 0 (.logs (.ok [⟨none, some ['a']⟩]))]

/-- The explorer does not know the proposal after two minutes. -/
def givenUpEvents : List Event :=
  proposedEvents ++ [.wait 120000, .resume 0 (.proposalInfo (.ok ⟨[], none⟩))]

/-- The state after some events. -/
def stateAfter (events : List Event) : State :=
  (events.foldlM step (loaded 0)).getD (loaded 0)

theorem run_released : Run (StepsTo step) (loaded 0) releasedEvents (stateAfter releasedEvents) :=
  Run.of_foldlM (by decide +kernel)

theorem run_givenUp : Run (StepsTo step) (loaded 0) givenUpEvents (stateAfter givenUpEvents) :=
  Run.of_foldlM (by decide +kernel)

/-- A deployment has succeeded with an address exactly if it has been answered so, whatever else has
happened meanwhile; and the code it has sent is what had been built when it was started. -/
theorem succeeded_iff_of_run {start : ℕ} {events : List Event} {state : State}
    (hrun : Run (StepsTo step) (loaded start) events state) :
    ∀ deployment ∈ state.deployments,
      (∀ address, deployment.phase = .returned (.succeeded address) ↔
        Succeeds deployment.startTime deployment.code address deployment.history) ∧
      ∃ earlier before, earlier <+: events ∧ Run (StepsTo step) (loaded start) earlier before ∧
        before.isPgConnected = true ∧ before.dll = some deployment.code ∧
        before.now = deployment.startTime := by
  intro deployment hmem
  have hrecorded := recorded_of_run hrun deployment hmem
  refine ⟨fun address ↦ ⟨fun hphase ↦ ?_, fun hsucceeds ↦ ?_⟩, started_of_run hrun deployment hmem⟩
  · exact hrecorded.explains_of_phase hphase
  · exact hrecorded.phase_eq (replay_of_succeeds hsucceeds)

/-- The deployment of the session succeeds. -/
theorem succeeded_iff_of_run_released : ∃ deployment ∈ (stateAfter releasedEvents).deployments,
    Succeeds 0 ['x'] ['a'] deployment.history := by
  have hphase : ∃ deployment ∈ (stateAfter releasedEvents).deployments, deployment.startTime = 0 ∧
      deployment.code = ['x'] ∧ deployment.phase = .returned (.succeeded ['a']) := by
    decide +kernel
  obtain ⟨deployment, hmem, hstart, hcode, hphase⟩ := hphase
  have hsucceeds := ((succeeded_iff_of_run run_released deployment hmem).1 ['a']).mp hphase
  rw [hstart, hcode] at hsucceeds
  exact ⟨deployment, hmem, hsucceeds⟩

/-! ### How long the explorer is asked -/

/-- The explorer is asked for a proposal. -/
def Entry.asksInfo (entry : Entry) : Bool :=
  match entry.request with
  | .getProposalInfo _ => true
  | _ => false

/-- How often the explorer has been asked. -/
def infoRequests (history : List Entry) : ℕ :=
  history.countP Entry.asksInfo

theorem infoRequests_append (first second : List Entry) :
    infoRequests (first ++ second) = infoRequests first + infoRequests second :=
  List.countP_append

/-- Asking the explorer counts. -/
theorem infoRequests_singleton {entry : Entry} {proposalId : Str}
    (hrequest : entry.request = .getProposalInfo proposalId) : infoRequests [entry] = 1 := by
  simp [infoRequests, Entry.asksInfo, hrequest]

/-- The loop over the status of the transaction does not ask the explorer. -/
theorem infoRequests_rounds_tx {txHash status : Str} {rounds : List Entry}
    (hrounds : Rounds (HasTxStatus txHash status) rounds) : infoRequests rounds = 0 := by
  induction hrounds with
  | nil => rfl
  | snoc _ hagain hrequest _ _ ih =>
    rw [infoRequests_append, ih]
    simp [infoRequests, Entry.asksInfo, hagain.request, hrequest]

/-- Nothing before the loop over the message asks the explorer. -/
theorem infoRequests_proposed {code proposalId : Str} {history : List Entry}
    (hproposed : Proposed code proposalId history) : infoRequests history = 0 := by
  obtain ⟨_, _, _, _, ⟨_, mined, ⟨_, rounds, ⟨_, _, _, _, -, -, rfl⟩, hrounds, rfl⟩, hmined, rfl⟩, -, -,
    rfl⟩ := hproposed
  simp only [infoRequests_append, infoRequests_rounds_tx hrounds]
  simp [infoRequests, Entry.asksInfo, hmined.request]

/-- Rounds that come in order and in time are at most 24, and each has taken the time of a sleep. -/
theorem infoRequests_rounds {startTime : ℕ} {proposalId : Str} {rounds : List Entry}
    (hrounds : Rounds (IsUnknown startTime proposalId) rounds)
    (hsorted : rounds.Pairwise fun first second ↦ first.time ≤ second.time)
    (hsince : ∀ entry ∈ rounds, startTime ≤ entry.time) :
    infoRequests rounds ≤ 24 ∧ ∀ later, startTime ≤ later → (∀ entry ∈ rounds, entry.time ≤ later) →
      startTime + infoRequests rounds * sleepTime ≤ later := by
  induction hrounds with
  | nil => exact ⟨Nat.zero_le _, fun later hlater _ ↦ by simpa [infoRequests] using hlater⟩
  | @snoc rounds asked slept hrounds hagain hrequest _ htime ih =>
    obtain ⟨hbefore, -, hcross⟩ := List.pairwise_append.mp hsorted
    obtain ⟨-, hpassed⟩ := ih hbefore fun entry hentry ↦ hsince entry (List.mem_append_left _ hentry)
    have hasked := hpassed asked.time (hsince asked (by simp)) fun entry hentry ↦
      hcross entry hentry asked List.mem_cons_self
    have hcount : infoRequests (rounds ++ [asked, slept]) = infoRequests rounds + 1 := by
      rw [infoRequests_append]
      simp [infoRequests, Entry.asksInfo, hagain.request, hrequest]
    rw [hcount]
    constructor
    · have hinTime := hagain.inTime
      rw [sleepTime] at hasked
      rw [patience] at hinTime
      omega
    · intro later _ hlater
      calc startTime + (infoRequests rounds + 1) * sleepTime
          = startTime + infoRequests rounds * sleepTime + sleepTime := by rw [Nat.add_one_mul, Nat.add_assoc]
        _ ≤ asked.time + sleepTime := Nat.add_le_add_right hasked _
        _ ≤ slept.time := htime
        _ ≤ later := hlater slept (by simp)

/-- The same of a deployment that is in the loop. -/
theorem infoRequests_awaitsInfo {startTime : ℕ} {code proposalId : Str} {history : List Entry}
    (hawaits : AwaitsInfo startTime code proposalId history)
    (hsorted : history.Pairwise fun first second ↦ first.time ≤ second.time)
    (hsince : ∀ entry ∈ history, startTime ≤ entry.time) :
    infoRequests history ≤ 24 ∧ ∀ later, startTime ≤ later → (∀ entry ∈ history, entry.time ≤ later) →
      startTime + infoRequests history * sleepTime ≤ later := by
  obtain ⟨proposed, rounds, hproposed, hrounds, rfl⟩ := hawaits
  rw [infoRequests_append, infoRequests_proposed hproposed, Nat.zero_add]
  obtain ⟨hcount, hpassed⟩ := infoRequests_rounds hrounds (List.pairwise_append.mp hsorted).2.1
    fun entry hentry ↦ hsince entry (List.mem_append_right _ hentry)
  exact ⟨hcount, fun later hlater hall ↦
    hpassed later hlater fun entry hentry ↦ hall entry (List.mem_append_right _ hentry)⟩

/-- What holds before the last answer of a deployment that was in the loop. -/
theorem infoRequests_before {now : ℕ} {deployment : Deployment} {code proposalId : Str} {before : List Entry}
    {asked : Entry} (hrecorded : Recorded now deployment) (hhistory : deployment.history = before ++ [asked])
    (hawaits : AwaitsInfo deployment.startTime code proposalId before) :
    infoRequests before ≤ 24 ∧
      deployment.startTime + infoRequests before * sleepTime ≤ asked.time := by
  have hsorted := hrecorded.sorted
  rw [hhistory] at hsorted
  obtain ⟨hfirst, -, hcross⟩ := List.pairwise_append.mp hsorted
  have hsince : ∀ entry ∈ before ++ [asked], deployment.startTime ≤ entry.time := fun entry hentry ↦
    (hrecorded.since entry (hhistory ▸ hentry)).1
  obtain ⟨hcount, hpassed⟩ := infoRequests_awaitsInfo hawaits hfirst
    fun entry hentry ↦ hsince entry (List.mem_append_left _ hentry)
  exact ⟨hcount, hpassed _ (hsince asked (by simp)) fun entry hentry ↦
    hcross entry hentry asked List.mem_cons_self⟩

/-- The explorer is asked at most 24 times for a proposal that it does not know while there is time, and at
most once more: a deployment gives up exactly if it is told so two minutes after its start or later. -/
theorem infoRequests_of_run {start : ℕ} {events : List Event} {state : State}
    (hrun : Run (StepsTo step) (loaded start) events state) :
    ∀ deployment ∈ state.deployments,
      (∀ proposalId, deployment.phase = .checkingInfo proposalId ∨
          deployment.phase = .sleepingInfo proposalId → infoRequests deployment.history ≤ 24) ∧
      (deployment.phase = .returned (.failed .proposalInfoNotFound) ↔
        GivesUp deployment.startTime deployment.code deployment.history) ∧
      (deployment.phase = .returned (.failed .proposalInfoNotFound) →
        infoRequests deployment.history ≤ 25 ∧ ∃ last ∈ deployment.history.getLast?,
          deployment.startTime + patience ≤ last.time) := by
  intro deployment hmem
  have hrecorded := recorded_of_run hrun deployment hmem
  have hgivesUp : deployment.phase = .returned (.failed .proposalInfoNotFound) →
      GivesUp deployment.startTime deployment.code deployment.history := hrecorded.explains_of_phase
  refine ⟨fun proposalId hphase ↦ ?_, ⟨hgivesUp, fun hgives ↦ ?_⟩, fun hphase ↦ ?_⟩
  · obtain hphase | hphase := hphase
    · exact (infoRequests_awaitsInfo (hrecorded.explains_of_phase hphase) hrecorded.sorted
        fun entry hentry ↦ (hrecorded.since entry hentry).1).1
    · obtain ⟨before, asked, hawaits, hunknown, -, hhistory⟩ := hrecorded.explains_of_phase hphase
      obtain ⟨-, hpassed⟩ := infoRequests_before hrecorded hhistory hawaits
      have hinTime := hunknown.inTime
      rw [hhistory, infoRequests_append, infoRequests_singleton hunknown.request]
      rw [sleepTime] at hpassed
      rw [patience] at hinTime
      omega
  · exact hrecorded.phase_eq (replay_of_givesUp hgives)
  · obtain ⟨before, proposalId, asked, info, hawaits, hrequest, -, -, htime, hhistory⟩ := hgivesUp hphase
    obtain ⟨hcount, -⟩ := infoRequests_before hrecorded hhistory hawaits
    rw [hhistory, infoRequests_append, infoRequests_singleton hrequest]
    refine ⟨by omega, asked, by simp, ?_⟩
    rw [patience] at htime ⊢
    omega

/-- The deployment of the session gives up. -/
theorem infoRequests_of_run_givenUp : ∃ deployment ∈ (stateAfter givenUpEvents).deployments,
    GivesUp 0 ['x'] deployment.history ∧ infoRequests deployment.history ≤ 25 := by
  have hphase : ∃ deployment ∈ (stateAfter givenUpEvents).deployments, deployment.startTime = 0 ∧
      deployment.code = ['x'] ∧ deployment.phase = .returned (.failed .proposalInfoNotFound) := by
    decide +kernel
  obtain ⟨deployment, hmem, hstart, hcode, hphase⟩ := hphase
  obtain ⟨-, hgives, hcount⟩ := infoRequests_of_run run_givenUp deployment hmem
  have hgivesUp := hgives.mp hphase
  rw [hstart, hcode] at hgivesUp
  exact ⟨deployment, hmem, hgivesUp, (hcount hphase).1⟩

/-! ### The button -/

/-- The deployment at an index runs. -/
def State.RunsAt (state : State) (index : ℕ) : Prop :=
  ∃ deployment, state.deployments[index]? = some deployment ∧ deployment.phase.isRunning = true

/-- The button is ready exactly if no deployment runs. At most one does, and the progress is its own. -/
structure State.Shown (state : State) : Prop where
  ready : state.deployState = .ready ↔ ∀ index, ¬ state.RunsAt index
  unique : ∀ first second, state.RunsAt first → state.RunsAt second → first = second
  progress : ∀ (index : ℕ) (deployment : Deployment), state.deployments[index]? = some deployment →
    deployment.phase.isRunning = true → state.progress = deployment.progress
  idle : (∀ index, ¬ state.RunsAt index) → state.progress = 0

/-- The command is run from elsewhere only while no deployment runs. -/
def guard (state : State) : Event → Prop
  | .execute => ∀ index, ¬ state.RunsAt index
  | _ => True

/-- What is shown depends on the button, the progress and the deployments. -/
theorem State.Shown.congr {state other : State} (hshown : state.Shown)
    (hready : other.deployState = .ready ↔ state.deployState = .ready)
    (hprogress : other.progress = state.progress) (hdeployments : other.deployments = state.deployments) :
    other.Shown := by
  have hruns : other.RunsAt = state.RunsAt := by
    funext index
    rw [State.RunsAt, hdeployments]
    rfl
  refine ⟨?_, ?_, ?_, ?_⟩
  · rw [hready, hruns]
    exact hshown.ready
  · rw [hruns]
    exact hshown.unique
  · rw [hdeployments, hprogress]
    exact hshown.progress
  · rw [hruns, hprogress]
    exact hshown.idle

/-- A command that is run while no deployment runs. -/
theorem State.Shown.execute {state : State} (hshown : state.Shown)
    (hidle : ∀ index, ¬ state.RunsAt index) : state.execute.Shown := by
  obtain heq | ⟨code, -, -, -, heq⟩ := execute_cases state
  · rw [heq]
    exact hshown
  · have hget : ∀ index deployment, state.execute.deployments[index]? = some deployment →
        deployment.phase.isRunning = true →
        index = state.deployments.length ∧ deployment = .started code state.now := by
      intro index deployment hdeployment hrunning
      rw [heq] at hdeployment
      obtain hlt | hge := lt_or_ge index state.deployments.length
      · rw [List.getElem?_append_left hlt] at hdeployment
        exact absurd ⟨deployment, hdeployment, hrunning⟩ (hidle index)
      · rw [List.getElem?_append_right hge] at hdeployment
        obtain ⟨hindex, rfl⟩ := List.getElem?_eq_some_iff.mp hdeployment
        rw [List.length_singleton] at hindex
        exact ⟨by omega, List.getElem_singleton _⟩
    have hnew : state.execute.RunsAt state.deployments.length := by
      refine ⟨.started code state.now, ?_, rfl⟩
      rw [heq]
      exact List.getElem?_concat_length
    refine ⟨?_, ?_, ?_, fun hnone ↦ absurd hnew (hnone _)⟩
    · rw [heq]
      refine ⟨nofun, fun hnone ↦ absurd (heq ▸ hnew) (hnone _)⟩
    · rintro first second ⟨_, hfirst, hfirstRuns⟩ ⟨_, hsecond, hsecondRuns⟩
      exact (hget first _ hfirst hfirstRuns).1.trans (hget second _ hsecond hsecondRuns).1.symm
    · intro index deployment hdeployment hrunning
      obtain rfl := (hget index deployment hdeployment hrunning).2
      rw [heq]
      rfl

/-- What is awaited is awaited by a deployment that runs. -/
theorem isRunning_of_request {code : Str} {phase : Phase} {request : Request}
    (hrequest : phase.request code = some request) : phase.isRunning = true := by
  cases phase <;> first | rfl | cases hrequest

/-- An answer to a deployment. -/
theorem State.Shown.resume {before after : State} {index : ℕ} {answer : Answer} (hshown : before.Shown)
    (hresume : before.resume index answer = some after) : after.Shown := by
  obtain ⟨deployment, answered, hget, hanswered, rfl⟩ := resume_cases hresume
  obtain ⟨request, phase, hrequest, -, -, heq⟩ := resume_eq_some hanswered
  have hruns : before.RunsAt index := ⟨deployment, hget, isRunning_of_request hrequest⟩
  have hlt : index < before.deployments.length := (List.getElem?_eq_some_iff.mp hget).1
  -- The deployment that is answered was the only one that ran.
  have hother : ∀ other current, (before.deployments.set index answered)[other]? = some current →
      current.phase.isRunning = true → other = index ∧ current = answered := by
    intro other current hcurrent hrunning
    rw [List.getElem?_set] at hcurrent
    split_ifs at hcurrent with hindex
    · exact ⟨hindex.symm, (Option.some.inj hcurrent).symm⟩
    · exact absurd (hshown.unique _ _ hruns ⟨current, hcurrent, hrunning⟩) hindex
  rw [State.show]
  split
  · rename_i result hphase
    have hnone : ∀ other, ¬ State.RunsAt { before with
        deployments := before.deployments.set index answered
        progress := 0
        deployState := .ready } other := by
      rintro other ⟨current, hcurrent, hrunning⟩
      obtain ⟨-, rfl⟩ := hother other current hcurrent hrunning
      rw [hphase] at hrunning
      cases hrunning
    exact ⟨⟨fun _ ↦ hnone, fun _ ↦ rfl⟩, fun first _ hfirst ↦ absurd hfirst (hnone first),
      fun other current hcurrent hrunning ↦ absurd ⟨current, hcurrent, hrunning⟩ (hnone other), fun _ ↦ rfl⟩
  · rename_i hphase
    have hrunning : answered.phase.isRunning = true := by
      cases hcurrent : answered.phase with
      | returned result => exact absurd hcurrent (hphase result)
      | _ => rfl
    have hmiddle : ∀ progress, progress = answered.progress → State.Shown { before with
        deployments := before.deployments.set index answered
        progress := progress } := by
      rintro _ rfl
      have hstill : State.RunsAt { before with
          deployments := before.deployments.set index answered
          progress := answered.progress } index :=
        ⟨answered, List.getElem?_set_self hlt, hrunning⟩
      refine ⟨⟨fun hready ↦ absurd hruns (hshown.ready.mp hready index), fun hnone ↦ absurd hstill (hnone index)⟩,
        ?_, ?_, fun hnone ↦ absurd hstill (hnone index)⟩
      · rintro first second ⟨_, hfirst, hfirstRuns⟩ ⟨_, hsecond, hsecondRuns⟩
        exact (hother first _ hfirst hfirstRuns).1.trans (hother second _ hsecond hsecondRuns).1.symm
      · intro other current hcurrent hcurrentRuns
        rw [(hother other current hcurrent hcurrentRuns).2]
    split_ifs with hadvances
    · exact hmiddle _ rfl
    · refine hmiddle _ ?_
      rw [hshown.progress index deployment hget (isRunning_of_request hrequest), heq, if_neg hadvances]

/-- The button tells whether a deployment runs, along every run in which the command is run from elsewhere
only while none does. -/
theorem ready_iff_of_run {start : ℕ} {events : List Event} {state : State}
    (hrun : Run (Guarded (StepsTo step) guard) (loaded start) events state) : state.Shown := by
  refine hrun.invariant_guarded ?_ ?_
  · intro before event after hshown hguard hstep
    cases event with
    | wait duration | setDll dll | setConnected isPgConnected | setBuildLoading buildLoading =>
      obtain rfl := Option.some.inj hstep
      exact hshown.congr Iff.rfl rfl rfl
    | click =>
      obtain rfl := Option.some.inj hstep
      obtain heq | ⟨hready, heq⟩ | ⟨hready, deployState, hnext, -, heq⟩ := click_cases before
      · rw [heq]
        exact hshown
      · rw [heq]
        exact hshown.execute (hshown.ready.mp hready)
      · rw [heq]
        exact hshown.congr (iff_of_false hnext hready) rfl rfl
    | execute =>
      obtain rfl := Option.some.inj hstep
      exact hshown.execute hguard
    | resume index answer => exact hshown.resume hstep
  · have hnone : ∀ index, ¬ (loaded start).RunsAt index := by
      rintro index ⟨_, hget, -⟩
      cases hget
    exact ⟨⟨fun _ ↦ hnone, fun _ ↦ rfl⟩, fun first _ hfirst ↦ absurd hfirst (hnone first),
      fun _ _ hget ↦ (by cases hget), fun _ ↦ rfl⟩

/-- The command is run from elsewhere. -/
def Event.isExecute : Event → Bool
  | .execute => true
  | _ => false

/-- A session in which deployments are started with the button only. -/
theorem guarded_of_clicks {start : State} {events : List Event} {state : State}
    (hrun : Run (StepsTo step) start events state) (hclicks : ∀ event ∈ events, event.isExecute = false) :
    Run (Guarded (StepsTo step) guard) start events state := by
  induction hrun with
  | nil => exact .nil _
  | @snoc middle finish labels label _ hstep ih =>
    refine .snoc (ih fun event hevent ↦ hclicks event (List.mem_append_left _ hevent)) ⟨?_, hstep⟩
    have hclick := hclicks label (by simp)
    cases label with
    | execute => cases hclick
    | _ => trivial

/-- The button is ready after the session. -/
theorem ready_iff_of_run_released : (stateAfter releasedEvents).Shown :=
  ready_iff_of_run (guarded_of_clicks run_released (by decide +kernel))

/-- The command is run from elsewhere while a deployment runs, which then fails. -/
def overlappingEvents : List Event :=
  [.setConnected true, .setDll (some ['x']), .click, .execute, .resume 0 (.sent (.ok none))]

theorem run_overlapping :
    Run (StepsTo step) (loaded 0) overlappingEvents (stateAfter overlappingEvents) :=
  Run.of_foldlM (by decide +kernel)

/-- The button is ready while the second deployment runs. -/
theorem not_shown_of_overlapping :
    ¬ ∀ events state, Run (StepsTo step) (loaded 0) events state → state.Shown := by
  intro hall
  have hshown := hall _ _ run_overlapping
  have hruns : (stateAfter overlappingEvents).RunsAt 1 := ⟨.started ['x'] 0, by decide +kernel, rfl⟩
  exact hshown.ready.mp (by decide +kernel) 1 hruns

end Playground.DeployCommand
