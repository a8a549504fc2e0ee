import Playground.VoteProgram.State

/-!
# Instructions of the vote program

The functions of `wasm/utils/solana-extra/src/program/vote/vote_state/mod.rs` that change a vote account. Each of them
reads the state of the account, in the version that it has been written in, checks the signatures that it needs, and
writes the new state. An instruction that fails leaves the account as it was.

What the SDK says to writing the account and to moving lamports is part of the context of an instruction.

Not formalized here: the bytes of an account, and the account that lamports are withdrawn to, unless it is the vote
account itself.
-/

set_option autoImplicit false
set_option relaxedAutoImplicit false

namespace Playground.VoteProgram

open Library

/-- `Clock`, as far as the vote program looks at it. -/
structure Clock where
  epoch : Epoch
  leaderScheduleEpoch : Epoch
  deriving DecidableEq

/-- `VoteInit`. -/
structure VoteInit where
  nodePubkey : Pubkey
  authorizedVoter : Pubkey
  authorizedWithdrawer : Pubkey
  commission : UInt8
  deriving DecidableEq

/-- `VoteAuthorize`. -/
inductive VoteAuthorize
  | voter
  | withdrawer
  deriving DecidableEq

/-- `InstructionError`. Errors that only the SDK returns are told apart by a number. -/
inductive InstructionError
  | invalidAccountData
  | uninitializedAccount
  | accountAlreadyInitialized
  | missingRequiredSignature
  | insufficientFunds
  | custom (error : VoteError)
  | other (code : ℕ)
  deriving DecidableEq

/-- `VoteState0_23_5`, without the prior voters, which are not taken over. -/
structure VoteState0_23_5 where
  nodePubkey : Pubkey
  authorizedVoter : Pubkey
  authorizedVoterEpoch : Epoch
  authorizedWithdrawer : Pubkey
  commission : UInt8
  votes : List Lockout
  rootSlot : Option Slot
  epochCredits : List (Epoch × ℕ × ℕ)
  lastTimestamp : BlockTimestamp

/-- `VoteStateVersions`. -/
inductive VoteStateVersions
  | v0_23_5 (state : VoteState0_23_5)
  | current (state : VoteState)

/-- `VoteStateVersions::convert_to_current`. -/
def VoteStateVersions.convertToCurrent : VoteStateVersions → VoteState
  | .v0_23_5 state =>
    { nodePubkey := state.nodePubkey
      authorizedWithdrawer := state.authorizedWithdrawer
      commission := state.commission
      votes := state.votes
      rootSlot := state.rootSlot
      authorizedVoters := .singleton state.authorizedVoterEpoch state.authorizedVoter
      epochCredits := state.epochCredits
      lastTimestamp := state.lastTimestamp }
  | .current state => state

/-- `VoteStateVersions::is_uninitialized`. -/
def VoteStateVersions.isUninitialized : VoteStateVersions → Bool
  | .v0_23_5 state => state.authorizedVoter = 0
  | .current state => state.authorizedVoters.isEmpty

/-- `VoteState::size_of`. -/
def voteStateSize : ℕ := 3731

/-- A vote account: what its data deserializes to, their size, and its balance. -/
structure VoteAccount where
  data : Option VoteStateVersions
  size : ℕ
  lamports : ℕ

/-- What an instruction is executed with: its signers, what the sysvars say, the features, and the errors of the SDK,
if there are any, when the account is written and when lamports are moved. -/
structure Context where
  signers : List Pubkey
  clock : Clock
  slotHashes : SlotHashes
  featureSet : FeatureSet
  setStateError : Option InstructionError
  transferError : Option InstructionError

/-- What is asked of the vote program. -/
inductive Instruction
  | initializeAccount (voteInit : VoteInit)
  | authorize (authorized : Pubkey) (voteAuthorize : VoteAuthorize)
  | processVote (vote : Vote)
  | processVoteStateUpdate (voteStateUpdate : VoteStateUpdate)
  | withdraw (lamports : ℕ) (toVoteAccount : Bool) (rentSysvar : Option (ℕ → ℕ)) (clock : Option Clock)
  | updateValidatorIdentity (nodePubkey : Pubkey)
  | updateCommission (commission : UInt8)

namespace VoteState

/-- `VoteState::new`. -/
def new (voteInit : VoteInit) (clock : Clock) : VoteState :=
  { nodePubkey := voteInit.nodePubkey
    authorizedVoters := .singleton clock.epoch voteInit.authorizedVoter
    authorizedWithdrawer := voteInit.authorizedWithdrawer
    commission := voteInit.commission }

/-- `VoteState::get_and_update_authorized_voter`: the voter, and the state with the voters of the epochs from the
current one on. -/
def getAndUpdateAuthorizedVoter (state : VoteState) (currentEpoch : Epoch) :
    Outcome InstructionError (Pubkey × VoteState) := do
  let (pubkey, authorizedVoters) ←
    AuthorizedVoters.getAndUpdateAuthorizedVoter .invalidAccountData state.authorizedVoters currentEpoch
  pure (pubkey, { state with authorizedVoters })

/-- `VoteState::set_new_authorized_voter`. -/
def setNewAuthorizedVoter (state : VoteState) (authorizedPubkey : Pubkey) (currentEpoch targetEpoch : Epoch)
    (verify : Pubkey → Outcome InstructionError Unit) : Outcome InstructionError VoteState := do
  let (epochAuthorizedVoter, state) ← state.getAndUpdateAuthorizedVoter currentEpoch
  verify epochAuthorizedVoter
  if (state.authorizedVoters.get targetEpoch).isSome then .err (.custom .tooSoonToReauthorize)
  else
    match state.authorizedVoters.last with
    | none => .err .invalidAccountData
    | some (latestEpoch, latestAuthorizedPubkey) =>
      let authorizedVoters := state.authorizedVoters.insert targetEpoch authorizedPubkey
      if latestAuthorizedPubkey ≠ authorizedPubkey then
        let epochOfLastAuthorizedSwitch := state.priorVoters.last.elim 0 fun range ↦ range.2.2
        if ¬ targetEpoch > latestEpoch then .panic
        else
          pure { state with
            authorizedVoters
            priorVoters :=
              state.priorVoters.append (latestAuthorizedPubkey, epochOfLastAuthorizedSwitch, targetEpoch) }
      else pure { state with authorizedVoters }

end VoteState

/-- `verify_authorized_signer`. -/
def verifyAuthorizedSigner (authorized : Pubkey) (signers : List Pubkey) : Outcome InstructionError Unit :=
  if authorized ∈ signers then .ok () else .err .missingRequiredSignature

namespace VoteAccount

/-- `BorrowedAccount::get_state`. -/
def getState (account : VoteAccount) : Outcome InstructionError VoteStateVersions :=
  account.data.elim (.err .invalidAccountData) .ok

/-- `BorrowedAccount::set_state`. -/
def setState (account : VoteAccount) (context : Context) (state : VoteState) : Outcome InstructionError VoteAccount :=
  match context.setStateError with
  | some error => .err error
  | none => .ok { account with data := some (.current state) }

/-- `initialize_account`. -/
def initializeAccount (account : VoteAccount) (context : Context) (voteInit : VoteInit) :
    Outcome InstructionError VoteAccount :=
  if account.size ≠ voteStateSize then .err .invalidAccountData
  else do
    let versioned ← account.getState
    if ¬ versioned.isUninitialized then .err .accountAlreadyInitialized
    else do
      verifyAuthorizedSigner voteInit.nodePubkey context.signers
      account.setState context (.new voteInit context.clock)

/-- `authorize`. The epoch from which on a voter is authorized is one of 64 bits, so it wraps around. -/
def authorize (account : VoteAccount) (context : Context) (authorized : Pubkey) (voteAuthorize : VoteAuthorize) :
    Outcome InstructionError VoteAccount := do
  let versioned ← account.getState
  let voteState := versioned.convertToCurrent
  match voteAuthorize with
  | .voter =>
    let authorizedWithdrawerSigner :=
      context.featureSet.voteWithdrawAuthorityMayChangeAuthorizedVoter ∧
        voteState.authorizedWithdrawer ∈ context.signers
    let voteState ← voteState.setNewAuthorizedVoter authorized context.clock.epoch
      ((context.clock.leaderScheduleEpoch + 1) % 2 ^ 64) fun epochAuthorizedVoter ↦
        if authorizedWithdrawerSigner then .ok () else verifyAuthorizedSigner epochAuthorizedVoter context.signers
    account.setState context voteState
  | .withdrawer =>
    verifyAuthorizedSigner voteState.authorizedWithdrawer context.signers
    account.setState context { voteState with authorizedWithdrawer := authorized }

/-- `update_validator_identity`. -/
def updateValidatorIdentity (account : VoteAccount) (context : Context) (nodePubkey : Pubkey) :
    Outcome InstructionError VoteAccount := do
  let versioned ← account.getState
  let voteState := versioned.convertToCurrent
  verifyAuthorizedSigner voteState.authorizedWithdrawer context.signers
  verifyAuthorizedSigner nodePubkey context.signers
  account.setState context { voteState with nodePubkey }

/-- `update_commission`. -/
def updateCommission (account : VoteAccount) (context : Context) (commission : UInt8) :
    Outcome InstructionError VoteAccount := do
  let versioned ← account.getState
  let voteState := versioned.convertToCurrent
  verifyAuthorizedSigner voteState.authorizedWithdrawer context.signers
  account.setState context { voteState with commission }

/-- Move lamports from the account to the recipient. -/
def transfer (account : VoteAccount) (context : Context) (lamports : ℕ) (toVoteAccount : Bool) :
    Outcome InstructionError VoteAccount :=
  match context.transferError with
  | some error => .err error
  | none => .ok (if toVoteAccount then account else { account with lamports := account.lamports - lamports })

/-- Whether an account whose lamports are withdrawn has earned credits in the current epoch or the one before it. -/
def rejectActiveVoteAccountClose (voteState : VoteState) (clock : Option Clock) : Bool :=
  clock.any fun clock ↦ voteState.epochCredits.getLast?.any fun lastCredits ↦ clock.epoch - lastCredits.1 < 2

/-- `withdraw`: the account is deinitialized if nothing is left of its balance. -/
def withdraw (account : VoteAccount) (context : Context) (lamports : ℕ) (toVoteAccount : Bool)
    (rentSysvar : Option (ℕ → ℕ)) (clock : Option Clock) : Outcome InstructionError VoteAccount := do
  let versioned ← account.getState
  let voteState := versioned.convertToCurrent
  verifyAuthorizedSigner voteState.authorizedWithdrawer context.signers
  if account.lamports < lamports then .err .insufficientFunds
  else if account.lamports - lamports = 0 then
    if rejectActiveVoteAccountClose voteState clock then .err .invalidAccountData
    else do
      let account ← account.setState context {}
      account.transfer context lamports toVoteAccount
  else if rentSysvar.any fun minimumBalance ↦ account.lamports - lamports < minimumBalance account.size then
    .err .insufficientFunds
  else account.transfer context lamports toVoteAccount

/-- `verify_and_get_vote_state`. -/
def verifyAndGetVoteState (account : VoteAccount) (context : Context) : Outcome InstructionError VoteState := do
  let versioned ← account.getState
  if versioned.isUninitialized then .err .uninitializedAccount
  else do
    let (authorizedVoter, voteState) ←
      versioned.convertToCurrent.getAndUpdateAuthorizedVoter context.clock.epoch
    verifyAuthorizedSigner authorizedVoter context.signers
    pure voteState

/-- The timestamp of a vote, for the greatest of its slots. -/
def processVoteTimestamp (voteState : VoteState) (vote : Vote) : Outcome VoteError VoteState :=
  match vote.timestamp with
  | none => .ok voteState
  | some timestamp =>
    match vote.slots.max? with
    | none => .err .emptySlots
    | some slot => voteState.processTimestamp slot timestamp

/-- `process_vote`. -/
def processVote (account : VoteAccount) (context : Context) (vote : Vote) : Outcome InstructionError VoteAccount := do
  let voteState ← account.verifyAndGetVoteState context
  let voteState ← (voteState.processVote vote context.slotHashes context.clock.epoch
    (some context.featureSet)).mapErr .custom
  let voteState ← (processVoteTimestamp voteState vote).mapErr .custom
  account.setState context voteState

/-- `process_vote_state_update`. -/
def processVoteStateUpdate (account : VoteAccount) (context : Context) (voteStateUpdate : VoteStateUpdate) :
    Outcome InstructionError VoteAccount := do
  let voteState ← account.verifyAndGetVoteState context
  let voteStateUpdate ←
    (voteState.checkUpdateVoteStateSlotsAreValid voteStateUpdate context.slotHashes).mapErr .custom
  let voteState ← (voteState.processNewVoteState voteStateUpdate.lockouts voteStateUpdate.root
    voteStateUpdate.timestamp context.clock.epoch (some context.featureSet)).mapErr .custom
  account.setState context voteState

/-- Execute an instruction. -/
def execute (account : VoteAccount) (context : Context) : Instruction → Outcome InstructionError VoteAccount
  | .initializeAccount voteInit => account.initializeAccount context voteInit
  | .authorize authorized voteAuthorize => account.authorize context authorized voteAuthorize
  | .processVote vote => account.processVote context vote
  | .processVoteStateUpdate voteStateUpdate => account.processVoteStateUpdate context voteStateUpdate
  | .withdraw lamports toVoteAccount rentSysvar clock =>
    account.withdraw context lamports toVoteAccount rentSysvar clock
  | .updateValidatorIdentity nodePubkey => account.updateValidatorIdentity context nodePubkey
  | .updateCommission commission => account.updateCommission context commission

end VoteAccount

end Playground.VoteProgram
