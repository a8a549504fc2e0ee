import Playground.Library.JavaScript
import Playground.Library.Runs

/-!
# The deploy command

`client/src/commands/deploy/deploy.ts` with `ConnectionAElf.deploy` and `getTxResult` of
`client/src/utils/pg/connection-aelf.ts`, `PgGlobal` of `client/src/utils/pg/global.ts` and the button of
`client/src/views/sidebar/build-deploy/Component/Deploy.tsx`.

A deployment sends the code that has been built, asks for the result of its transaction until it is not
pending, looks up the proposal in the logs, asks the explorer for the proposal until it is found, but not
for longer than two minutes after the start, and then until the proposal is not pending, and reads the
address of the contract off the logs of the transaction that released it. Several deployments may run at
once, and what they await may come in any order: `Phase` is where one of them waits, `Phase.next` what it
does with an answer, and `State` is what they share.

`succeeded_iff_of_run` says for which answers a deployment succeeds, `infoRequests_of_run` how often and how
long the explorer is asked for a proposal that it does not know, and `ready_iff_of_run` that the button tells
whether a deployment runs.

`history` records what a deployment has been answered; no branch reads it.

Not formalized here: the wallet, the decoding of the logs, the texts that are printed while a deployment
waits, the time that is printed in the end, and what `PgTerminal.convertErrorMessage` makes of a message.
Between a click and the first request only microtasks run. Progress counts tenths of a percent.
-/

set_option autoImplicit false
set_option relaxedAutoImplicit false

namespace Playground.DeployCommand

open Library

/-! ### Answers -/

/-- `TransactionResult`, with what is read of it. -/
structure TransactionResult where
  transactionId : Str
  status : Str
  deriving DecidableEq

/-- `TransactionErrorResponse`, with what is read of it. An error of the network has no such fields. -/
structure TransactionErrorResponse where
  transactionId : Option Str
  error : Option Str
  deriving DecidableEq

/-- A log that has been deserialized, with the fields that are read if they are texts. -/
structure Log where
  proposalId : Option Str
  address : Option Str
  deriving DecidableEq

/-- `Proposal`, with what is read of it. -/
structure Proposal where
  status : Str
  releasedTxId : Str
  deriving DecidableEq

/-- `ProposalInfo`. The explorer may have no data on a proposal. -/
structure ProposalInfo where
  msg : Str
  proposal : Option Proposal
  deriving DecidableEq

/-- What is thrown has a message, or is not an error. -/
abbrev Thrown :=
  Option Str

/-- What a promise that is awaited comes to. `sent` is what `DeployUserSmartContract` returns: the id of a
transaction, or nothing if there is no genesis contract. -/
inductive Answer
  | sent (result : Except Thrown (Option Str))
  | txResult (result : Except TransactionErrorResponse TransactionResult)
  | logs (result : Except Thrown (List Log))
  | proposalInfo (result : Except Thrown ProposalInfo)
  | slept
  deriving DecidableEq

/-! ### One deployment -/

/-- Why a deployment fails. -/
inductive Failure
  | notSent
  | transaction (response : TransactionErrorResponse)
  | notMined
  | proposalIdNotFound
  | proposalInfoNotFound
  | expired
  | addressMissing
  | thrown (message : Str)
  deriving DecidableEq

/-- A property of a response in a template. -/
def printed (property : Option Str) : Str :=
  property.getD "undefined".toList

/-- `convertAElfErrorMessages`. -/
def convertAElfErrorMessages (response : TransactionErrorResponse) : Str :=
  "\nTransaction ID: ".toList ++ printed response.transactionId ++ "\nError: ".toList ++
    printed response.error

/-- The message of a failure, with `GITHUB_URL` put in. -/
def Failure.message (githubUrl : Str) : Failure → Str
  | notSent =>
    "Please check the browser console. If the problem persists, you can report the issue in ".toList ++
      githubUrl ++ "/issues".toList
  | transaction response => convertAElfErrorMessages response
  | notMined => "Deployment failed.".toList
  | proposalIdNotFound => "Proposal ID not found.".toList
  | proposalInfoNotFound => "Proposal info not found.".toList
  | expired => "Contract not deployed after proposal expiry.".toList
  | addressMissing => "Contract address missing.".toList
  | thrown message => message

/-- How a deployment ends: with an address, with a message, or with an exception of its own `catch`, which
reads the message of what is not an error. -/
inductive Result
  | succeeded (address : Str)
  | failed (failure : Failure)
  | rejected
  deriving DecidableEq

/-- Where a deployment waits. The result of its transaction is awaited for the first time or after a
sleep. -/
inductive Phase
  | sending
  | confirming (txId : Str)
  | checkingTx (txHash : Str) (again : Bool)
  | sleepingTx (txHash : Str)
  | readingLogs (txHash : Str)
  | checkingInfo (proposalId : Str)
  | sleepingInfo (proposalId : Str)
  | checkingStatus (proposalId : Str)
  | sleepingStatus (proposalId : Str)
  | checkingRelease (releasedTxId : Str)
  | readingRelease (releasedTxId : Str)
  | returned (result : Result)
  deriving DecidableEq

/-- What is awaited. The logs are those of the result of a transaction. -/
inductive Request
  | deployUserSmartContract (code : Str)
  | getTxResult (txId : Str)
  | deserializeLogs (txId : Str)
  | getProposalInfo (proposalId : Str)
  | sleep
  deriving DecidableEq

/-- What a deployment of some code awaits. -/
def Phase.request (code : Str) : Phase → Option Request
  | sending => some (.deployUserSmartContract code)
  | confirming txId => some (.getTxResult txId)
  | checkingTx txHash _ => some (.getTxResult txHash)
  | readingLogs txHash => some (.deserializeLogs txHash)
  | checkingInfo proposalId | checkingStatus proposalId => some (.getProposalInfo proposalId)
  | sleepingTx _ | sleepingInfo _ | sleepingStatus _ => some .sleep
  | checkingRelease releasedTxId => some (.getTxResult releasedTxId)
  | readingRelease releasedTxId => some (.deserializeLogs releasedTxId)
  | returned _ => none

/-- What has been thrown is caught. -/
def caught : Thrown → Result
  | some message => .failed (.thrown message)
  | none => .rejected

/-- The `TypeError` of an access to the proposal of a response without data. -/
def noData : Str :=
  "Cannot read properties of undefined (reading 'proposal')".toList

/-- The first proposal id in the logs. -/
def findProposalId (logs : List Log) : Option Str :=
  logs.findSome? Log.proposalId

/-- The first address in the logs that is not empty. -/
def findAddress (logs : List Log) : Option Str :=
  logs.findSome? fun log ↦ log.address.filter (· ≠ [])

/-- The loop over the status of the transaction. -/
def afterTx (txHash : Str) (tx : TransactionResult) : Phase :=
  if tx.status = "PENDING".toList then .sleepingTx txHash
  else if tx.status = "MINED".toList then .readingLogs txHash
  else .returned (.failed .notMined)

/-- The loop over the status of the proposal. -/
def afterStatus (proposalId : Str) : Option Proposal → Phase
  | none => .returned (.failed (.thrown noData))
  | some proposal =>
    if proposal.status = "pending".toList then .sleepingStatus proposalId
    else if proposal.status = "expired".toList then .returned (.failed .expired)
    else .checkingRelease proposal.releasedTxId

/-- The explorer is asked for two minutes. -/
def patience : ℕ :=
  1000 * 60 * 2

/-- The loop over the message of the explorer, `elapsed` after the start. -/
def afterInfo (proposalId : Str) (elapsed : ℕ) (info : ProposalInfo) : Phase :=
  if info.msg = "success".toList then afterStatus proposalId info.proposal
  else if elapsed < patience then .sleepingInfo proposalId
  else .returned (.failed .proposalInfoNotFound)

/-- What a deployment does with an answer, `elapsed` after its start. -/
def Phase.next (elapsed : ℕ) : Phase → Answer → Option Phase
  | sending, .sent (.ok (some txId)) => some (confirming txId)
  | sending, .sent _ => some (returned (.failed .notSent))
  | confirming _, .txResult (.ok tx) =>
    some (if tx.transactionId = [] then returned (.failed .notSent) else checkingTx tx.transactionId false)
  | confirming _, .txResult (.error response) => some (returned (.failed (.transaction response)))
  | checkingTx txHash _, .txResult (.ok tx) => some (afterTx txHash tx)
  | checkingTx _ _, .txResult (.error response) =>
    some (returned (.failed (.thrown (response.error.getD []))))
  | sleepingTx txHash, .slept => some (checkingTx txHash true)
  | readingLogs _, .logs (.ok logs) =>
    some (match findProposalId logs with
      | none | some [] => returned (.failed .proposalIdNotFound)
      | some proposalId => checkingInfo proposalId)
  | readingLogs _, .logs (.error thrown) => some (returned (caught thrown))
  | checkingInfo proposalId, .proposalInfo (.ok info) => some (afterInfo proposalId elapsed info)
  | checkingInfo _, .proposalInfo (.error thrown) => some (returned (caught thrown))
  | sleepingInfo proposalId, .slept => some (checkingInfo proposalId)
  | checkingStatus proposalId, .proposalInfo (.ok info) => some (afterStatus proposalId info.proposal)
  | checkingStatus _, .proposalInfo (.error thrown) => some (returned (caught thrown))
  | sleepingStatus proposalId, .slept => some (checkingStatus proposalId)
  | checkingRelease releasedTxId, .txResult (.ok _) => some (readingRelease releasedTxId)
  | checkingRelease _, .txResult (.error response) =>
    some (returned (.failed (.thrown (response.error.getD []))))
  | readingRelease _, .logs (.ok logs) =>
    some (match findAddress logs with
      | none => returned (.failed .addressMissing)
      | some address => returned (.succeeded address))
  | readingRelease _, .logs (.error thrown) => some (returned (caught thrown))
  | _, _ => none

/-- A request, its answer and when it came. -/
structure Entry where
  time : ℕ
  request : Request
  answer : Answer
  deriving DecidableEq

/-- A run of the command. `since` is when it was answered last. -/
structure Deployment where
  code : Str
  startTime : ℕ
  since : ℕ
  progress : ℕ
  phase : Phase
  history : List Entry
  deriving DecidableEq

/-- A deployment of some code that has just been started. -/
def Deployment.started (code : Str) (now : ℕ) : Deployment where
  code := code
  startTime := now
  since := now
  progress := 1
  phase := .sending
  history := []

/-- The command has not returned. -/
def Phase.isRunning : Phase → Bool
  | returned _ => false
  | _ => true

/-- The time in milliseconds for which a deployment sleeps. -/
def sleepTime : ℕ :=
  5000

/-- The progress goes on with an answer in a loop over a status, but for the first one. -/
def Phase.advances : Phase → Answer → Bool
  | checkingTx _ again, .txResult (.ok _) => again
  | checkingStatus _, .proposalInfo (.ok info) => info.proposal.isSome
  | _, _ => false

/-- A deployment is answered. A sleep is not over before its time. -/
def Deployment.resume (deployment : Deployment) (now : ℕ) (answer : Answer) : Option Deployment := do
  if answer = .slept ∧ now < deployment.since + sleepTime then none
  let request ← deployment.phase.request deployment.code
  let phase ← deployment.phase.next (now - deployment.startTime) answer
  return { deployment with
    since := now
    progress := if deployment.phase.advances answer then deployment.progress + 1 else deployment.progress
    phase
    history := deployment.history ++ [⟨now, request, answer⟩] }

/-! ### The deployments of a session -/

/-- `GlobalState.deployState`. -/
inductive DeployState
  | ready
  | loading
  | paused
  | cancelled
  deriving DecidableEq

/-- What the deployments share: the time, `PgProgramInfo.dll`, whether the wallet is connected, the state of
the button and the progress that is shown. -/
structure State where
  now : ℕ
  dll : Option Str
  isPgConnected : Bool
  buildLoading : Bool
  deployState : DeployState
  progress : ℕ
  deployments : List Deployment
  deriving DecidableEq

/-- What can happen: time passes, the environment changes, the button is clicked, the command is run from
elsewhere, or a deployment is answered. -/
inductive Event
  | wait (duration : ℕ)
  | setDll (dll : Option Str)
  | setConnected (isPgConnected : Bool)
  | setBuildLoading (buildLoading : Bool)
  | click
  | execute
  | resume (index : ℕ) (answer : Answer)

/-- The state in which the page is loaded. -/
def loaded (now : ℕ) : State where
  now := now
  dll := none
  isPgConnected := false
  buildLoading := false
  deployState := .ready
  progress := 0
  deployments := []

/-- The command: its checks, and what it does up to the first request. A check that fails throws. -/
def State.execute (state : State) : State :=
  match state.isPgConnected, state.dll with
  | true, some (first :: rest) =>
    { state with
      deployState := .loading
      progress := 1
      deployments := state.deployments ++ [.started (first :: rest) state.now] }
  | _, _ => state

/-- `onClick` of the button, which is disabled during a build. -/
def State.click (state : State) : State :=
  if state.buildLoading then state
  else
    match state.deployState with
    | .ready => state.execute
    | .loading => { state with deployState := .paused }
    | .paused => { state with deployState := .loading }
    | .cancelled => state

/-- What is shown once a deployment that was in a phase has been answered. -/
def State.show (state : State) (before : Phase) (answer : Answer) (answered : Deployment) : State :=
  match answered.phase with
  | .returned _ => { state with progress := 0, deployState := .ready }
  | _ => if before.advances answer then { state with progress := answered.progress } else state

/-- A deployment is answered. -/
def State.resume (state : State) (index : ℕ) (answer : Answer) : Option State := do
  let deployment ← state.deployments[index]?
  let answered ← deployment.resume state.now answer
  return { state with deployments := state.deployments.set index answered }.show deployment.phase answer
    answered

/-- One event. -/
def step (state : State) : Event → Option State
  | .wait duration => some { state with now := state.now + duration }
  | .setDll dll => some { state with dll }
  | .setConnected isPgConnected => some { state with isPgConnected }
  | .setBuildLoading buildLoading => some { state with buildLoading }
  | .click => some state.click
  | .execute => some state.execute
  | .resume index answer => state.resume index answer

end Playground.DeployCommand
