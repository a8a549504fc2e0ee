import Playground.Commands.Deploy

/-!
# What a deployment has been answered

`Succeeds` describes the requests and answers of a deployment that succeeds, in the order in which they are
made: the code is sent and a transaction is named, its result is pending some times and then mined, its logs
name a proposal, the explorer does not know the proposal some times, each within two minutes from the start,
and then does, the proposal is pending some times and then released, and the logs of the transaction that
released it name the address. `GivesUp` describes those of one that has waited for the explorer too long.

`Explains` says the same of every phase, `explains_next` that an answer keeps it, and `replay` takes the
requests and answers back to the phase.
-/

set_option autoImplicit false
set_option relaxedAutoImplicit false

namespace Playground.DeployCommand

open Library

/-! ### Rounds of a loop -/

/-- Rounds of a loop that goes on: an answer that is followed by a sleep. -/
inductive Rounds (again : Entry → Prop) : List Entry → Prop
  | nil : Rounds again []
  | snoc {rounds : List Entry} {asked slept : Entry} : Rounds again rounds → again asked →
      slept.request = .sleep → slept.answer = .slept → asked.time + sleepTime ≤ slept.time →
      Rounds again (rounds ++ [asked, slept])

/-- The result of the transaction has a status. -/
structure HasTxStatus (txHash status : Str) (entry : Entry) : Prop where
  request : entry.request = .getTxResult txHash
  answer : ∃ tx, entry.answer = .txResult (.ok tx) ∧ tx.status = status

/-- The explorer does not know the proposal, and there is time left. -/
structure IsUnknown (startTime : ℕ) (proposalId : Str) (entry : Entry) : Prop where
  request : entry.request = .getProposalInfo proposalId
  answer : ∃ info, entry.answer = .proposalInfo (.ok info) ∧ info.msg ≠ "success".toList
  inTime : entry.time - startTime < patience

/-- The explorer knows the proposal. -/
def IsKnown (entry : Entry) : Prop :=
  ∃ info, entry.answer = .proposalInfo (.ok info) ∧ info.msg = "success".toList

/-- The explorer has a proposal. -/
structure HasProposal (proposalId : Str) (proposal : Proposal) (entry : Entry) : Prop where
  request : entry.request = .getProposalInfo proposalId
  answer : ∃ info, entry.answer = .proposalInfo (.ok info) ∧ info.proposal = some proposal

/-- The proposal is pending. -/
def IsPending (proposalId : Str) (entry : Entry) : Prop :=
  ∃ proposal, HasProposal proposalId proposal entry ∧ proposal.status = "pending".toList

/-- The proposal is not pending any more, and it has not expired. -/
def IsReleased (proposalId releasedTxId : Str) (entry : Entry) : Prop :=
  ∃ proposal, HasProposal proposalId proposal entry ∧ proposal.status ≠ "pending".toList ∧
    proposal.status ≠ "expired".toList ∧ proposal.releasedTxId = releasedTxId

/-! ### Parts of a deployment -/

/-- The code has been sent, and the result of its transaction has been read. -/
def Opened (code txHash : Str) (history : List Entry) : Prop :=
  ∃ sentTime confirmedTime txId tx, tx.transactionId = txHash ∧ txHash ≠ [] ∧
    history = [⟨sentTime, .deployUserSmartContract code, .sent (.ok (some txId))⟩,
      ⟨confirmedTime, .getTxResult txId, .txResult (.ok tx)⟩]

/-- The transaction has been pending some times. -/
def AwaitsTx (code txHash : Str) (history : List Entry) : Prop :=
  ∃ opened rounds, Opened code txHash opened ∧ Rounds (HasTxStatus txHash "PENDING".toList) rounds ∧
    history = opened ++ rounds

/-- The transaction has been mined. -/
def Mined (code txHash : Str) (history : List Entry) : Prop :=
  ∃ awaited mined, AwaitsTx code txHash awaited ∧ HasTxStatus txHash "MINED".toList mined ∧
    history = awaited ++ [mined]

/-- The logs of the transaction name the proposal. -/
def Proposed (code proposalId : Str) (history : List Entry) : Prop :=
  ∃ before time txHash logs, Mined code txHash before ∧ findProposalId logs = some proposalId ∧
    proposalId ≠ [] ∧ history = before ++ [⟨time, .deserializeLogs txHash, .logs (.ok logs)⟩]

/-- The explorer has not known the proposal some times. -/
def AwaitsInfo (startTime : ℕ) (code proposalId : Str) (history : List Entry) : Prop :=
  ∃ proposed rounds, Proposed code proposalId proposed ∧ Rounds (IsUnknown startTime proposalId) rounds ∧
    history = proposed ++ rounds

/-- The explorer knows the proposal, which has been pending some times. -/
def AwaitsStatus (startTime : ℕ) (code proposalId : Str) (history : List Entry) : Prop :=
  ∃ awaited rounds, AwaitsInfo startTime code proposalId awaited ∧ Rounds (IsPending proposalId) rounds ∧
    (∃ known ∈ rounds.head?, IsKnown known) ∧ history = awaited ++ rounds

/-- The explorer has an answer for the loop over the status: the one that ends the first loop, or a later
one. -/
def AsksStatus (startTime : ℕ) (code proposalId : Str) (entry : Entry) (history : List Entry) : Prop :=
  AwaitsInfo startTime code proposalId history ∧ IsKnown entry ∨
    AwaitsStatus startTime code proposalId history

/-- The proposal has been released. -/
def Released (startTime : ℕ) (code releasedTxId : Str) (history : List Entry) : Prop :=
  ∃ proposalId before released, AsksStatus startTime code proposalId released before ∧
    IsReleased proposalId releasedTxId released ∧ history = before ++ [released]

/-- A deployment that succeeds. -/
def Succeeds (startTime : ℕ) (code address : Str) (history : List Entry) : Prop :=
  ∃ before releasedTxId releasedTime logsTime tx logs, Released startTime code releasedTxId before ∧
    findAddress logs = some address ∧
    history = before ++ [⟨releasedTime, .getTxResult releasedTxId, .txResult (.ok tx)⟩,
      ⟨logsTime, .deserializeLogs releasedTxId, .logs (.ok logs)⟩]

/-- A deployment whose proposal the explorer has not known in time. -/
def GivesUp (startTime : ℕ) (code : Str) (history : List Entry) : Prop :=
  ∃ before proposalId asked info, AwaitsInfo startTime code proposalId before ∧
    asked.request = .getProposalInfo proposalId ∧ asked.answer = .proposalInfo (.ok info) ∧
    info.msg ≠ "success".toList ∧ patience ≤ asked.time - startTime ∧ history = before ++ [asked]

/-! ### Every phase -/

/-- What the requests and answers of a deployment have been, by where it waits. A sleep has begun when the
deployment was answered last. -/
def Explains (startTime : ℕ) (code : Str) (since : ℕ) : Phase → List Entry → Prop
  | .sending, history => history = []
  | .confirming txId, history =>
    ∃ time, history = [⟨time, .deployUserSmartContract code, .sent (.ok (some txId))⟩]
  | .checkingTx txHash _, history => AwaitsTx code txHash history
  | .sleepingTx txHash, history =>
    ∃ before asked, AwaitsTx code txHash before ∧ HasTxStatus txHash "PENDING".toList asked ∧
      asked.time = since ∧ history = before ++ [asked]
  | .readingLogs txHash, history => Mined code txHash history
  | .checkingInfo proposalId, history => AwaitsInfo startTime code proposalId history
  | .sleepingInfo proposalId, history =>
    ∃ before asked, AwaitsInfo startTime code proposalId before ∧ IsUnknown startTime proposalId asked ∧
      asked.time = since ∧ history = before ++ [asked]
  | .checkingStatus proposalId, history => AwaitsStatus startTime code proposalId history
  | .sleepingStatus proposalId, history =>
    ∃ before asked, AsksStatus startTime code proposalId asked before ∧ IsPending proposalId asked ∧
      asked.time = since ∧ history = before ++ [asked]
  | .checkingRelease releasedTxId, history => Released startTime code releasedTxId history
  | .readingRelease releasedTxId, history =>
    ∃ before time tx, Released startTime code releasedTxId before ∧
      history = before ++ [⟨time, .getTxResult releasedTxId, .txResult (.ok tx)⟩]
  | .returned (.succeeded address), history => Succeeds startTime code address history
  | .returned (.failed .proposalInfoNotFound), history => GivesUp startTime code history
  | .returned _, _ => True

section Answers

variable {startTime since now : ℕ} {code : Str} {history : List Entry}

/-- The next status is known, or a status has been asked for. -/
theorem explains_afterStatus {proposalId : Str} {info : ProposalInfo}
    (hasks : AsksStatus startTime code proposalId
      ⟨now, .getProposalInfo proposalId, .proposalInfo (.ok info)⟩ history) :
    Explains startTime code now (afterStatus proposalId info.proposal)
      (history ++ [⟨now, .getProposalInfo proposalId, .proposalInfo (.ok info)⟩]) := by
  cases hproposal : info.proposal with
  | none => trivial
  | some proposal =>
    have hhas : HasProposal proposalId proposal
        ⟨now, .getProposalInfo proposalId, .proposalInfo (.ok info)⟩ :=
      ⟨rfl, info, rfl, hproposal⟩
    rw [afterStatus]
    split_ifs with hpending hexpired
    · exact ⟨history, _, hasks, ⟨proposal, hhas, hpending⟩, rfl, rfl⟩
    · trivial
    · exact ⟨proposalId, history, _, hasks, ⟨proposal, hhas, hpending, hexpired, rfl⟩, rfl⟩

/-- The explorer has been asked for the proposal. -/
theorem explains_afterInfo {proposalId : Str} {info : ProposalInfo}
    (hawaits : AwaitsInfo startTime code proposalId history) :
    Explains startTime code now (afterInfo proposalId (now - startTime) info)
      (history ++ [⟨now, .getProposalInfo proposalId, .proposalInfo (.ok info)⟩]) := by
  rw [afterInfo]
  split_ifs with hsuccess htime
  · exact explains_afterStatus (.inl ⟨hawaits, info, rfl, hsuccess⟩)
  · exact ⟨history, _, hawaits, ⟨rfl, ⟨info, rfl, hsuccess⟩, htime⟩, rfl, rfl⟩
  · exact ⟨history, proposalId, _, info, hawaits, rfl, rfl, hsuccess, not_lt.mp htime, rfl⟩

/-- The result of the transaction has been asked for. -/
theorem explains_afterTx {txHash : Str} {tx : TransactionResult} (hawaits : AwaitsTx code txHash history) :
    Explains startTime code now (afterTx txHash tx)
      (history ++ [⟨now, .getTxResult txHash, .txResult (.ok tx)⟩]) := by
  rw [afterTx]
  split_ifs with hpending hmined
  · exact ⟨history, _, hawaits, ⟨rfl, tx, rfl, hpending⟩, rfl, rfl⟩
  · exact ⟨history, _, hawaits, ⟨rfl, tx, rfl, hmined⟩, rfl⟩
  · trivial

/-- A sleep is over. -/
theorem Rounds.slept {again : Entry → Prop} {before rounds : List Entry} {asked : Entry}
    (hrounds : Rounds again rounds) (hagain : again asked) (htime : asked.time + sleepTime ≤ now) :
    ∃ more, Rounds again more ∧ more.head? = (rounds ++ [asked]).head? ∧
      before ++ rounds ++ [asked] ++ [⟨now, .sleep, .slept⟩] = before ++ more := by
  refine ⟨rounds ++ [asked, ⟨now, .sleep, .slept⟩], hrounds.snoc hagain rfl rfl htime, ?_, by simp⟩
  cases rounds <;> rfl

/-- An answer keeps what is said of the phase. -/
theorem explains_next {phase next : Phase} {request : Request} {answer : Answer}
    (hexplains : Explains startTime code since phase history)
    (hrequest : phase.request code = some request)
    (hnext : phase.next (now - startTime) answer = some next)
    (hsleep : answer = .slept → since + sleepTime ≤ now) :
    Explains startTime code now next (history ++ [⟨now, request, answer⟩]) := by
  cases phase with
  | sending =>
    obtain rfl := Option.some.inj hrequest
    subst hexplains
    rcases answer with (_ | _ | txId) | _ | _ | _ | _ <;> cases hnext
    · trivial
    · trivial
    · exact ⟨now, rfl⟩
  | confirming txId =>
    obtain rfl := Option.some.inj hrequest
    obtain ⟨time, rfl⟩ := hexplains
    rcases answer with _ | (_ | tx) | _ | _ | _ <;> cases hnext
    · trivial
    · split_ifs with hempty
      · trivial
      · exact ⟨_, [], ⟨time, now, txId, tx, rfl, hempty, rfl⟩, .nil, rfl⟩
  | checkingTx txHash again =>
    obtain rfl := Option.some.inj hrequest
    rcases answer with _ | (_ | tx) | _ | _ | _ <;> cases hnext
    · trivial
    · exact explains_afterTx hexplains
  | sleepingTx txHash =>
    obtain rfl := Option.some.inj hrequest
    rcases answer with _ | _ | _ | _ | _ <;> cases hnext
    obtain ⟨_, asked, ⟨opened, rounds, hopened, hrounds, rfl⟩, hasked, rfl, rfl⟩ := hexplains
    obtain ⟨more, hmore, -, heq⟩ := hrounds.slept hasked (hsleep rfl)
    exact ⟨opened, more, hopened, hmore, heq⟩
  | readingLogs txHash =>
    obtain rfl := Option.some.inj hrequest
    rcases answer with _ | _ | (_ | logs) | _ | _ <;> cases hnext
    · rename_i thrown
      cases thrown <;> trivial
    · split
      · trivial
      · trivial
      · rename_i proposalId hempty hfound
        exact ⟨_, [], ⟨history, now, txHash, logs, hexplains, hfound, hempty, rfl⟩, .nil,
          (List.append_nil _).symm⟩
  | checkingInfo proposalId =>
    obtain rfl := Option.some.inj hrequest
    rcases answer with _ | _ | _ | (thrown | info) | _ <;> cases hnext
    · cases thrown <;> trivial
    · exact explains_afterInfo hexplains
  | sleepingInfo proposalId =>
    obtain rfl := Option.some.inj hrequest
    rcases answer with _ | _ | _ | _ | _ <;> cases hnext
    obtain ⟨_, asked, ⟨proposed, rounds, hproposed, hrounds, rfl⟩, hasked, rfl, rfl⟩ := hexplains
    obtain ⟨more, hmore, -, heq⟩ := hrounds.slept hasked (hsleep rfl)
    exact ⟨proposed, more, hproposed, hmore, heq⟩
  | checkingStatus proposalId =>
    obtain rfl := Option.some.inj hrequest
    rcases answer with _ | _ | _ | (thrown | info) | _ <;> cases hnext
    · cases thrown <;> trivial
    · exact explains_afterStatus (.inr hexplains)
  | sleepingStatus proposalId =>
    obtain rfl := Option.some.inj hrequest
    rcases answer with _ | _ | _ | _ | _ <;> cases hnext
    obtain ⟨before, asked, ⟨hawaits, hknown⟩ | ⟨awaited, rounds, hawaits, hrounds, hfirst, rfl⟩, hasked,
      rfl, rfl⟩ := hexplains
    · have hround : Rounds (IsPending proposalId) ([] ++ [asked, ⟨now, .sleep, .slept⟩]) :=
        .snoc .nil hasked rfl rfl (hsleep rfl)
      exact ⟨before, _, hawaits, hround, ⟨asked, rfl, hknown⟩, by simp⟩
    · obtain ⟨more, hmore, hhead, heq⟩ := hrounds.slept hasked (hsleep rfl)
      refine ⟨awaited, more, hawaits, hmore, ?_, heq⟩
      obtain ⟨known, hmem, hknown⟩ := hfirst
      refine ⟨known, ?_, hknown⟩
      rw [hhead]
      exact List.mem_head?_append_of_mem_head? hmem
  | checkingRelease releasedTxId =>
    obtain rfl := Option.some.inj hrequest
    rcases answer with _ | (_ | tx) | _ | _ | _ <;> cases hnext
    · trivial
    · exact ⟨history, now, tx, hexplains, rfl⟩
  | readingRelease releasedTxId =>
    obtain rfl := Option.some.inj hrequest
    obtain ⟨before, time, tx, hreleased, rfl⟩ := hexplains
    rcases answer with _ | _ | (thrown | logs) | _ | _ <;> cases hnext
    · cases thrown <;> trivial
    · cases hfound : findAddress logs with
      | none => trivial
      | some address =>
        exact ⟨before, releasedTxId, time, now, tx, logs, hreleased, hfound, by simp⟩
  | returned result => cases hrequest

end Answers

/-! ### From the answers to the phase -/

/-- What a deployment does with an answer to what it awaits. -/
def follow (startTime : ℕ) (code : Str) (phase : Phase) (entry : Entry) : Option Phase :=
  if phase.request code = some entry.request then phase.next (entry.time - startTime) entry.answer
  else none

/-- The phase of a deployment that has been answered some requests. -/
def replay (startTime : ℕ) (code : Str) (history : List Entry) : Option Phase :=
  history.foldlM (follow startTime code) .sending

section Replays

variable {startTime : ℕ} {code : Str} {history : List Entry}

theorem replay_append {before rest : List Entry} {phase : Phase}
    (hbefore : replay startTime code before = some phase) :
    replay startTime code (before ++ rest) = rest.foldlM (follow startTime code) phase := by
  rw [replay, List.foldlM_append]
  rw [replay] at hbefore
  rw [hbefore]
  rfl

/-- An answer to what is awaited is followed. -/
theorem follow_eq {phase : Phase} {entry : Entry} (hrequest : phase.request code = some entry.request) :
    follow startTime code phase entry = phase.next (entry.time - startTime) entry.answer :=
  if_pos hrequest

/-- An answer that is followed by a sleep, and the sleep. -/
theorem foldlM_round {phase middle next : Phase} {asked slept : Entry}
    (hasked : follow startTime code phase asked = some middle)
    (hmiddle : middle.request code = some .sleep) (hnext : ∀ elapsed, middle.next elapsed .slept = some next)
    (hrequest : slept.request = .sleep) (hanswer : slept.answer = .slept) :
    [asked, slept].foldlM (follow startTime code) phase = some next := by
  have hslept : follow startTime code middle slept = some next := by
    rw [follow_eq (hrequest ▸ hmiddle), hanswer]
    exact hnext _
  rw [List.foldlM_cons, hasked]
  change [slept].foldlM (follow startTime code) middle = some next
  rw [List.foldlM_cons, hslept]
  rfl

/-- Rounds that each lead back to the head of a loop lead back to it. -/
theorem foldlM_rounds {again : Entry → Prop} {head : Phase → Prop} {rounds : List Entry}
    (hrounds : Rounds again rounds)
    (hround : ∀ phase asked slept, head phase → again asked → slept.request = .sleep →
      slept.answer = .slept → ∃ next, head next ∧
        [asked, slept].foldlM (follow startTime code) phase = some next)
    {phase : Phase} (hhead : head phase) :
    ∃ next, head next ∧ rounds.foldlM (follow startTime code) phase = some next := by
  induction hrounds with
  | nil => exact ⟨phase, hhead, rfl⟩
  | snoc _ hagain hrequest hanswer _ ih =>
    obtain ⟨middle, hmiddle, hfold⟩ := ih
    obtain ⟨next, hnext, hlast⟩ := hround middle _ _ hmiddle hagain hrequest hanswer
    refine ⟨next, hnext, ?_⟩
    rw [List.foldlM_append, hfold]
    exact hlast

theorem replay_of_opened {txHash : Str} (hopened : Opened code txHash history) :
    replay startTime code history = some (.checkingTx txHash false) := by
  obtain ⟨sentTime, confirmedTime, txId, tx, rfl, hne, rfl⟩ := hopened
  simp [replay, follow, Phase.request, Phase.next, hne]

/-- The result of the transaction has been asked for. -/
theorem follow_tx (startTime : ℕ) (code : Str) {txHash status : Str} (again : Bool) {entry : Entry}
    (hstatus : HasTxStatus txHash status entry) :
    ∃ tx : TransactionResult, tx.status = status ∧
      follow startTime code (.checkingTx txHash again) entry = some (afterTx txHash tx) := by
  obtain ⟨tx, hanswer, htx⟩ := hstatus.answer
  have hrequest : (Phase.checkingTx txHash again).request code = some entry.request := by
    rw [hstatus.request]
    rfl
  refine ⟨tx, htx, ?_⟩
  rw [follow_eq hrequest, hanswer]
  rfl

theorem replay_of_awaitsTx (startTime : ℕ) {txHash : Str} (hawaits : AwaitsTx code txHash history) :
    ∃ again, replay startTime code history = some (.checkingTx txHash again) := by
  obtain ⟨opened, rounds, hopened, hrounds, rfl⟩ := hawaits
  rw [replay_append (replay_of_opened hopened)]
  have hround : ∀ phase asked slept, (∃ again, phase = .checkingTx txHash again) →
      HasTxStatus txHash "PENDING".toList asked → slept.request = .sleep → slept.answer = .slept →
      ∃ next, (∃ again, next = .checkingTx txHash again) ∧
        [asked, slept].foldlM (follow startTime code) phase = some next := by
    rintro _ asked slept ⟨again, rfl⟩ hasked hrequest hanswer
    obtain ⟨tx, htx, hfollow⟩ := follow_tx startTime code again hasked
    rw [afterTx, if_pos htx] at hfollow
    exact ⟨_, ⟨true, rfl⟩, foldlM_round hfollow rfl (fun _ ↦ rfl) hrequest hanswer⟩
  obtain ⟨_, ⟨again, rfl⟩, hfold⟩ := foldlM_rounds hrounds hround ⟨false, rfl⟩
  exact ⟨again, hfold⟩

theorem replay_of_mined {txHash : Str} (hmined : Mined code txHash history) :
    replay startTime code history = some (.readingLogs txHash) := by
  obtain ⟨awaited, mined, hawaits, hstatus, rfl⟩ := hmined
  obtain ⟨again, hreplay⟩ := replay_of_awaitsTx startTime hawaits
  obtain ⟨tx, htx, hfollow⟩ := follow_tx startTime code again hstatus
  rw [replay_append hreplay, List.foldlM_cons, hfollow, afterTx, htx]
  rfl

theorem replay_of_proposed {proposalId : Str} (hproposed : Proposed code proposalId history) :
    replay startTime code history = some (.checkingInfo proposalId) := by
  obtain ⟨before, time, txHash, logs, hmined, hfound, hne, rfl⟩ := hproposed
  rw [replay_append (replay_of_mined hmined)]
  simp [follow, Phase.request, Phase.next, hfound]

/-- The explorer has been asked, in one of the two loops. -/
theorem follow_info (startTime : ℕ) (code : Str) {proposalId : Str} {entry : Entry} {info : ProposalInfo}
    (hrequest : entry.request = .getProposalInfo proposalId)
    (hanswer : entry.answer = .proposalInfo (.ok info)) :
    follow startTime code (.checkingInfo proposalId) entry =
        some (afterInfo proposalId (entry.time - startTime) info) ∧
      follow startTime code (.checkingStatus proposalId) entry =
        some (afterStatus proposalId info.proposal) := by
  constructor
  · rw [follow_eq (by rw [hrequest]; rfl), hanswer]
    rfl
  · rw [follow_eq (by rw [hrequest]; rfl), hanswer]
    rfl

theorem replay_of_awaitsInfo {proposalId : Str} (hawaits : AwaitsInfo startTime code proposalId history) :
    replay startTime code history = some (.checkingInfo proposalId) := by
  obtain ⟨proposed, rounds, hproposed, hrounds, rfl⟩ := hawaits
  rw [replay_append (replay_of_proposed hproposed)]
  have hround : ∀ phase asked slept, phase = .checkingInfo proposalId →
      IsUnknown startTime proposalId asked → slept.request = .sleep → slept.answer = .slept →
      ∃ next, next = .checkingInfo proposalId ∧
        [asked, slept].foldlM (follow startTime code) phase = some next := by
    rintro _ asked slept rfl ⟨hasked, ⟨info, hinfo, hunknown⟩, htime⟩ hrequest hanswer
    have hfollow := (follow_info startTime code hasked hinfo).1
    rw [afterInfo, if_neg hunknown, if_pos htime] at hfollow
    exact ⟨_, rfl, foldlM_round hfollow rfl (fun _ ↦ rfl) hrequest hanswer⟩
  obtain ⟨_, rfl, hfold⟩ := foldlM_rounds hrounds hround rfl
  exact hfold

/-- A pending proposal that has been known in time takes the first loop to the second. -/
theorem foldlM_rounds_status {proposalId : Str} {rounds : List Entry}
    (hrounds : Rounds (IsPending proposalId) rounds) (hknown : ∃ known ∈ rounds.head?, IsKnown known) :
    rounds.foldlM (follow startTime code) (.checkingInfo proposalId) = some (.checkingStatus proposalId) := by
  induction hrounds with
  | nil =>
    obtain ⟨_, hmem, -⟩ := hknown
    cases hmem
  | @snoc rounds asked slept hrounds hagain hrequest hanswer _ ih =>
    obtain ⟨proposal, ⟨hasked, info, hinfo, hproposal⟩, hpending⟩ := hagain
    have hfollow := follow_info startTime code hasked hinfo
    rw [hproposal, afterStatus, if_pos hpending] at hfollow
    cases rounds with
    | nil =>
      obtain ⟨_, ⟨⟩, info', hinfo', hsuccess⟩ := hknown
      obtain rfl : info = info' := by
        have heq := hinfo.symm.trans hinfo'
        cases heq
        rfl
      rw [afterInfo, if_pos hsuccess, hproposal, afterStatus, if_pos hpending] at hfollow
      exact foldlM_round hfollow.1 rfl (fun _ ↦ rfl) hrequest hanswer
    | cons first rest =>
      rw [List.foldlM_append, ih hknown]
      exact foldlM_round hfollow.2 rfl (fun _ ↦ rfl) hrequest hanswer

theorem replay_of_released {releasedTxId : Str} (hreleased : Released startTime code releasedTxId history) :
    replay startTime code history = some (.checkingRelease releasedTxId) := by
  obtain ⟨proposalId, before, released, hasks, ⟨proposal, ⟨hrequest, info, hinfo, hproposal⟩, hpending,
    hexpired, rfl⟩, rfl⟩ := hreleased
  have hfollow := follow_info startTime code hrequest hinfo
  have hafter : afterStatus proposalId info.proposal = .checkingRelease proposal.releasedTxId := by
    rw [hproposal, afterStatus, if_neg hpending, if_neg hexpired]
  obtain ⟨hawaits, info', hinfo', hsuccess⟩ | ⟨awaited, rounds, hawaits, hrounds, hknown, rfl⟩ := hasks
  · obtain rfl : info = info' := by
      have heq := hinfo.symm.trans hinfo'
      cases heq
      rfl
    rw [replay_append (replay_of_awaitsInfo hawaits), List.foldlM_cons, hfollow.1, afterInfo,
      if_pos hsuccess, hafter]
    rfl
  · rw [List.append_assoc, replay_append (replay_of_awaitsInfo hawaits), List.foldlM_append,
      foldlM_rounds_status hrounds hknown]
    change [released].foldlM (follow startTime code) (.checkingStatus proposalId) = _
    rw [List.foldlM_cons, hfollow.2, hafter]
    rfl

/-- Requests and answers of a deployment that succeeds take it to its address. -/
theorem replay_of_succeeds {address : Str} (hsucceeds : Succeeds startTime code address history) :
    replay startTime code history = some (.returned (.succeeded address)) := by
  obtain ⟨before, releasedTxId, releasedTime, logsTime, tx, logs, hreleased, hfound, rfl⟩ := hsucceeds
  rw [replay_append (replay_of_released hreleased)]
  simp [follow, Phase.request, Phase.next, hfound]

/-- Those of a deployment that has waited too long end it. -/
theorem replay_of_givesUp (hgivesUp : GivesUp startTime code history) :
    replay startTime code history = some (.returned (.failed .proposalInfoNotFound)) := by
  obtain ⟨before, proposalId, asked, info, hawaits, hrequest, hinfo, hunknown, htime, rfl⟩ := hgivesUp
  rw [replay_append (replay_of_awaitsInfo hawaits), List.foldlM_cons, (follow_info startTime code hrequest hinfo).1,
    afterInfo, if_neg hunknown, if_neg (not_lt.mpr htime)]
  rfl

end Replays

end Playground.DeployCommand
