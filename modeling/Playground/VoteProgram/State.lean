import Mathlib.Data.Fintype.Pi
import Mathlib.Data.List.DropRight
import Playground.VoteProgram.AuthorizedVoters

/-!
# The state of a vote account

`VoteState` of `wasm/utils/solana-extra/src/program/vote/vote_state/mod.rs`: the tower of the slots that have been
voted for, each with the number of its confirmations, and what has been rooted and credited. A vote adds slots to the
tower one by one (`processVote`), a vote state update proposes another tower (`checkUpdateVoteStateSlotsAreValid`,
`processNewVoteState`).

The slots that a bank knows come from the newest to the oldest, those of a tower from the oldest to the newest. The
loops that go through both at once are `findSlots` and `checkProposedSlots`, with the indices of the code. Sums of
slots and lockouts are those of 64 bits, which wrap around.

Not formalized here: the log lines, credits that do not fit into 64 bits, and `process_vote_unchecked` with the other
functions that only tests and the tower of a validator use.
-/

set_option autoImplicit false
set_option relaxedAutoImplicit false

namespace Playground.VoteProgram

open Library

/-! ### Votes -/

/-- A slot. -/
abbrev Slot := ℕ

/-- `Hash`. -/
abbrev Hash := Playnet.Hash

/-- `UnixTimestamp`. -/
abbrev UnixTimestamp := ℤ

/-- `MAX_LOCKOUT_HISTORY`. -/
def maxLockoutHistory : ℕ := 31

/-- `INITIAL_LOCKOUT`. -/
def initialLockout : ℕ := 2

/-- `MAX_EPOCH_CREDITS_HISTORY`. -/
def maxEpochCreditsHistory : ℕ := 64

/-- `VoteError`. -/
inductive VoteError
  | voteTooOld
  | slotsMismatch
  | slotHashMismatch
  | emptySlots
  | timestampTooOld
  | tooSoonToReauthorize
  | lockoutConflict
  | newVoteStateLockoutMismatch
  | slotsNotOrdered
  | confirmationsNotOrdered
  | zeroConfirmations
  | confirmationTooLarge
  | rootRollBack
  | confirmationRollBack
  | slotSmallerThanRoot
  | tooManyVotes
  | votesTooOldAllFiltered
  | rootOnDifferentFork
  deriving DecidableEq

/-- `Lockout`: a slot that has been voted for, with the number of its confirmations. -/
structure Lockout where
  slot : Slot
  confirmationCount : ℕ
  deriving DecidableEq

/-- `Lockout::new`. -/
def Lockout.new (slot : Slot) : Lockout :=
  ⟨slot, 1⟩

/-- `Lockout::lockout`: the number of slots for which a vote is locked. -/
def Lockout.lockout (vote : Lockout) : ℕ :=
  initialLockout ^ vote.confirmationCount % 2 ^ 64

/-- `Lockout::last_locked_out_slot`. -/
def Lockout.lastLockedOutSlot (vote : Lockout) : Slot :=
  (vote.slot + vote.lockout) % 2 ^ 64

/-- `Lockout::is_locked_out_at_slot`. -/
def Lockout.isLockedOutAtSlot (vote : Lockout) (slot : Slot) : Bool :=
  vote.lastLockedOutSlot ≥ slot

/-- `Vote`. -/
structure Vote where
  slots : List Slot
  hash : Hash
  timestamp : Option UnixTimestamp
  deriving DecidableEq

/-- `VoteStateUpdate`: a proposed tower with its root. -/
structure VoteStateUpdate where
  lockouts : List Lockout
  root : Option Slot
  hash : Hash
  timestamp : Option UnixTimestamp
  deriving DecidableEq

/-- The slots that a bank knows, from the newest to the oldest, with their hashes. -/
abbrev SlotHashes := List (Slot × Hash)

/-- The features that the vote program asks for. -/
structure FeatureSet where
  filterVotesOutsideSlotHashes : Bool
  voteStateUpdateCreditPerDequeue : Bool
  voteWithdrawAuthorityMayChangeAuthorizedVoter : Bool
  deriving DecidableEq

/-! ### States -/

/-- `BlockTimestamp`. -/
structure BlockTimestamp where
  slot : Slot := 0
  timestamp : UnixTimestamp := 0
  deriving DecidableEq

/-- `MAX_ITEMS`. -/
def maxItems : ℕ := 32

/-- The number of items is not zero. -/
instance : NeZero maxItems :=
  ⟨Nat.succ_ne_zero 31⟩

/-- `CircBuf`. -/
structure CircBuf (ι : Type) where
  buf : Fin maxItems → ι
  idx : Fin maxItems
  isEmpty : Bool

/-- The buffer that has not been written to. -/
def CircBuf.default {ι : Type} (item : ι) : CircBuf ι :=
  ⟨fun _ ↦ item, Fin.ofNat maxItems (maxItems - 1), true⟩

/-- `CircBuf::append`. -/
def CircBuf.append {ι : Type} (buffer : CircBuf ι) (item : ι) : CircBuf ι :=
  ⟨Function.update buffer.buf (buffer.idx + 1) item, buffer.idx + 1, false⟩

/-- `CircBuf::last`. -/
def CircBuf.last {ι : Type} (buffer : CircBuf ι) : Option ι :=
  if buffer.isEmpty then none else some (buffer.buf buffer.idx)

/-- `VoteState`. -/
structure VoteState where
  nodePubkey : Pubkey := 0
  authorizedWithdrawer : Pubkey := 0
  commission : UInt8 := 0
  votes : List Lockout := []
  rootSlot : Option Slot := none
  authorizedVoters : AuthorizedVoters := SortedMap.empty
  priorVoters : CircBuf (Pubkey × Epoch × Epoch) := CircBuf.default (0, 0, 0)
  epochCredits : List (Epoch × ℕ × ℕ) := []
  lastTimestamp : BlockTimestamp := {}

namespace VoteState

/-- `VoteState::last_voted_slot`. -/
def lastVotedSlot (state : VoteState) : Option Slot :=
  state.votes.getLast?.map Lockout.slot

/-- `VoteState::contains_slot`. The votes are sorted by their slots, so that the binary search finds what is there. -/
def containsSlot (state : VoteState) (candidateSlot : Slot) : Bool :=
  state.votes.any fun vote ↦ vote.slot = candidateSlot

/-- `VoteState::credits`. -/
def credits (state : VoteState) : ℕ :=
  state.epochCredits.getLast?.elim 0 fun entry ↦ entry.2.1

/-! ### Adding slots to the tower -/

/-- The entry that credits of an epoch are added to, as the last one. -/
def creditedEpoch (epochCredits : List (Epoch × ℕ × ℕ)) (epoch : Epoch) : List (Epoch × ℕ × ℕ) :=
  match epochCredits.getLast? with
  | none => [(epoch, 0, 0)]
  | some (lastEpoch, credits, prevCredits) =>
    if epoch = lastEpoch then epochCredits
    else
      let moved :=
        if credits ≠ prevCredits then epochCredits ++ [(epoch, credits, credits)]
        else epochCredits.dropLast ++ [(epoch, credits, prevCredits)]
      if moved.length > maxEpochCreditsHistory then moved.tail else moved

/-- `VoteState::increment_credits`. -/
def incrementCredits (state : VoteState) (epoch : Epoch) (credits : ℕ) : VoteState :=
  { state with
    epochCredits := (creditedEpoch state.epochCredits epoch).modifyLast fun (lastEpoch, earned, prevCredits) ↦
      (lastEpoch, earned + credits, prevCredits) }

/-- `VoteState::pop_expired_votes`: the newest votes are popped as long as they are not locked out. -/
def popExpiredVotes (state : VoteState) (nextVoteSlot : Slot) : VoteState :=
  { state with votes := state.votes.rdropWhile fun vote ↦ !vote.isLockedOutAtSlot nextVoteSlot }

/-- `VoteState::double_lockouts`: a vote with fewer confirmations than the votes from it on gets one more. -/
def doubleLockouts (state : VoteState) : VoteState :=
  { state with
    votes := state.votes.mapIdx fun i vote ↦
      if state.votes.length > i + vote.confirmationCount then
        { vote with confirmationCount := vote.confirmationCount + 1 }
      else vote }

/-- Once the stack is full, the oldest vote is popped and becomes the root. -/
def popRoot (state : VoteState) (epoch : Epoch) : VoteState :=
  match state.votes with
  | [] => state
  | vote :: votes =>
    if state.votes.length = maxLockoutHistory then
      { state with votes, rootSlot := some vote.slot }.incrementCredits epoch 1
    else state

/-- A vote is added as the newest one. -/
def pushVote (state : VoteState) (vote : Lockout) : VoteState :=
  { state with votes := state.votes ++ [vote] }

/-- `VoteState::process_next_vote_slot`. -/
def processNextVoteSlot (state : VoteState) (nextVoteSlot : Slot) (epoch : Epoch) : VoteState :=
  if state.lastVotedSlot.any fun lastVotedSlot ↦ nextVoteSlot ≤ lastVotedSlot then state
  else (((state.popExpiredVotes nextVoteSlot).popRoot epoch).pushVote (Lockout.new nextVoteSlot)).doubleLockouts

/-- The loop of `VoteState::check_slots_are_valid`: where it ends in the slots of a vote and in those of the bank. -/
def findSlots (lastVotedSlot : Option Slot) (voteSlots : List Slot) (slotHashes : SlotHashes) (i j : ℕ) : ℕ × ℕ :=
  if i < voteSlots.length ∧ j > 0 then
    if lastVotedSlot.any fun lastVotedSlot ↦ voteSlots[i]?.any (· ≤ lastVotedSlot) then
      findSlots lastVotedSlot voteSlots slotHashes (i + 1) j
    else if voteSlots[i]? ≠ slotHashes[j - 1]?.map Prod.fst then
      findSlots lastVotedSlot voteSlots slotHashes i (j - 1)
    else findSlots lastVotedSlot voteSlots slotHashes (i + 1) (j - 1)
  else (i, j)
termination_by (voteSlots.length - i) + j

/-- `VoteState::check_slots_are_valid`. -/
def checkSlotsAreValid (state : VoteState) (voteSlots : List Slot) (voteHash : Hash) (slotHashes : SlotHashes) :
    Outcome VoteError Unit :=
  let (i, j) := findSlots state.lastVotedSlot voteSlots slotHashes 0 slotHashes.length
  if j = slotHashes.length then .err .voteTooOld
  else if i ≠ voteSlots.length then .err .slotsMismatch
  else
    match slotHashes[j]? with
    | none => .panic
    | some (_, hash) => if hash ≠ voteHash then .err .slotHashMismatch else .ok ()

/-- The slots of a vote that are looked at. -/
def filteredVoteSlots (vote : Vote) (slotHashes : SlotHashes) (featureSet : Option FeatureSet) : List Slot :=
  if featureSet.any FeatureSet.filterVotesOutsideSlotHashes then
    vote.slots.filter fun slot ↦ slot ≥ slotHashes.getLast?.elim 0 Prod.fst
  else vote.slots

/-- `VoteState::process_vote`. -/
def processVote (state : VoteState) (vote : Vote) (slotHashes : SlotHashes) (epoch : Epoch)
    (featureSet : Option FeatureSet) : Outcome VoteError VoteState :=
  if vote.slots = [] then .err .emptySlots
  else
    let voteSlots := filteredVoteSlots vote slotHashes featureSet
    if voteSlots = [] then .err .votesTooOldAllFiltered
    else do
      state.checkSlotsAreValid voteSlots vote.hash slotHashes
      pure (voteSlots.foldl (fun state slot ↦ state.processNextVoteSlot slot epoch) state)

/-- `VoteState::process_timestamp`. -/
def processTimestamp (state : VoteState) (slot : Slot) (timestamp : UnixTimestamp) : Outcome VoteError VoteState :=
  if slot < state.lastTimestamp.slot ∨ timestamp < state.lastTimestamp.timestamp ∨
      slot = state.lastTimestamp.slot ∧ ⟨slot, timestamp⟩ ≠ state.lastTimestamp ∧ state.lastTimestamp.slot ≠ 0 then
    .err .timestampTooOld
  else .ok { state with lastTimestamp := ⟨slot, timestamp⟩ }

/-! ### Proposed towers -/

/-- The loop of `VoteState::check_update_vote_state_slots_are_valid`: where it ends in the proposed tower and in the
slots of the bank, and the indices of the votes that are to be filtered. `checkRoot` is the proposed root until it has
been found. -/
def checkProposedSlots (state : VoteState) (lockouts : List Lockout) (slotHashes : SlotHashes)
    (earliestSlotHashInHistory : Slot) (checkRoot : Option Slot) (voteStateUpdateIndex slotHashesIndex : ℕ)
    (toFilter : List ℕ) : Outcome VoteError (ℕ × ℕ × List ℕ) :=
  if h : voteStateUpdateIndex < lockouts.length ∧ slotHashesIndex > 0 then
    let proposedVoteSlot := checkRoot.getD lockouts[voteStateUpdateIndex].slot
    if checkRoot = none ∧ voteStateUpdateIndex > 0 ∧
        lockouts[voteStateUpdateIndex - 1]?.any fun previous ↦ proposedVoteSlot ≤ previous.slot then
      .err .slotsNotOrdered
    else
      match slotHashes[slotHashesIndex - 1]? with
      | none => .panic
      | some (ancestorSlot, _) =>
        if proposedVoteSlot < ancestorSlot then
          if slotHashesIndex = slotHashes.length then
            if ¬ proposedVoteSlot < earliestSlotHashInHistory then .panic
            else if checkRoot = none then
              checkProposedSlots state lockouts slotHashes earliestSlotHashInHistory none (voteStateUpdateIndex + 1)
                slotHashesIndex
                (if state.containsSlot proposedVoteSlot then toFilter else toFilter ++ [voteStateUpdateIndex])
            else if ¬ state.rootSlot.any (· < earliestSlotHashInHistory) then .panic
            else
              checkProposedSlots state lockouts slotHashes earliestSlotHashInHistory none voteStateUpdateIndex
                slotHashesIndex toFilter
          else if checkRoot = none then .err .slotsMismatch
          else .err .rootOnDifferentFork
        else if ancestorSlot < proposedVoteSlot then
          checkProposedSlots state lockouts slotHashes earliestSlotHashInHistory checkRoot voteStateUpdateIndex
            (slotHashesIndex - 1) toFilter
        else if checkRoot = none then
          checkProposedSlots state lockouts slotHashes earliestSlotHashInHistory none (voteStateUpdateIndex + 1)
            (slotHashesIndex - 1) toFilter
        else
          checkProposedSlots state lockouts slotHashes earliestSlotHashInHistory none voteStateUpdateIndex
            slotHashesIndex toFilter
  else .ok (voteStateUpdateIndex, slotHashesIndex, toFilter)
termination_by (lockouts.length - voteStateUpdateIndex) + slotHashesIndex + (if checkRoot = none then 0 else 1)
decreasing_by all_goals split_ifs <;> omega

/-- The votes whose indices are not among those to be filtered, which come in order. -/
def retainVotes : List ℕ → ℕ → List Lockout → List Lockout
  | _, _, [] => []
  | [], index, lockout :: rest => lockout :: retainVotes [] (index + 1) rest
  | first :: toFilter, index, lockout :: rest =>
    if index = first then retainVotes toFilter (index + 1) rest
    else lockout :: retainVotes (first :: toFilter) (index + 1) rest

/-- `VoteState::check_update_vote_state_slots_are_valid`: the update with the root and the votes that are left of
it. -/
def checkUpdateVoteStateSlotsAreValid (state : VoteState) (update : VoteStateUpdate) (slotHashes : SlotHashes) :
    Outcome VoteError VoteStateUpdate :=
  match update.lockouts.getLast? with
  | none => .err .emptySlots
  | some lastLockout =>
    if state.lastVotedSlot.any fun lastVoteSlot ↦ lastLockout.slot ≤ lastVoteSlot then .err .voteTooOld
    else
      match slotHashes.getLast? with
      | none => .err .slotsMismatch
      | some (earliestSlotHashInHistory, _) =>
        if lastLockout.slot < earliestSlotHashInHistory then .err .voteTooOld
        else do
          let root := if update.root.any (earliestSlotHashInHistory > ·) then state.rootSlot else update.root
          let (voteStateUpdateIndex, slotHashesIndex, toFilter) ←
            state.checkProposedSlots update.lockouts slotHashes earliestSlotHashInHistory root 0 slotHashes.length []
          if voteStateUpdateIndex ≠ update.lockouts.length then .err .slotsMismatch
          else
            match slotHashes[slotHashesIndex]? with
            | none => .panic
            | some (slot, hash) =>
              if lastLockout.slot ≠ slot then .panic
              else if hash ≠ update.hash then .err .slotHashMismatch
              else .ok { update with root, lockouts := retainVotes toFilter 0 update.lockouts }

/-- Whether a new root lies before the current one. -/
def rootRollsBack : Option Slot → Option Slot → Bool
  | some newRoot, some currentRoot => newRoot < currentRoot
  | none, some _ => true
  | _, none => false

/-- The first loop of `VoteState::process_new_vote_state`, which looks at the proposed votes one by one. -/
def checkNewVotes (newRoot : Option Slot) : Option Lockout → List Lockout → Outcome VoteError Unit
  | _, [] => .ok ()
  | previousVote, vote :: rest =>
    if vote.confirmationCount = 0 then .err .zeroConfirmations
    else if vote.confirmationCount > maxLockoutHistory then .err .confirmationTooLarge
    else if newRoot.any fun newRoot ↦ vote.slot ≤ newRoot ∧ newRoot ≠ 0 then .err .slotSmallerThanRoot
    else
      match previousVote with
      | none => checkNewVotes newRoot (some vote) rest
      | some previousVote =>
        if previousVote.slot ≥ vote.slot then .err .slotsNotOrdered
        else if previousVote.confirmationCount ≤ vote.confirmationCount then .err .confirmationsNotOrdered
        else if vote.slot > previousVote.lastLockedOutSlot then .err .newVoteStateLockoutMismatch
        else checkNewVotes newRoot (some vote) rest

/-- The last loop of `VoteState::process_new_vote_state`, which goes through the current and the proposed votes at
once. -/
def checkNoRollback : List Lockout → List Lockout → Outcome VoteError Unit
  | currentVote :: current, newVote :: new =>
    if currentVote.slot < newVote.slot then
      if currentVote.lastLockedOutSlot ≥ newVote.slot then .err .lockoutConflict
      else checkNoRollback current (newVote :: new)
    else if currentVote.slot = newVote.slot then
      if newVote.confirmationCount < currentVote.confirmationCount then .err .confirmationRollBack
      else checkNoRollback current new
    else checkNoRollback (currentVote :: current) new
  | _, _ => .ok ()
termination_by current new => current.length + new.length

/-- The current votes up to a new root. -/
def rootedVotes (state : VoteState) (newRoot : Option Slot) : List Lockout :=
  state.votes.takeWhile fun vote ↦ newRoot.any (vote.slot ≤ ·)

/-- The number of slots that a new root finalizes: itself, and the votes before it. -/
def finalizedSlotCount (state : VoteState) (newRoot : Option Slot) : ℕ :=
  1 + ((state.rootedVotes newRoot).filter fun vote ↦ newRoot ≠ some vote.slot).length

/-- The credits for a root that has changed. -/
def creditNewRoot (state : VoteState) (newRoot : Option Slot) (epoch : Epoch) (featureSet : Option FeatureSet) :
    VoteState :=
  if state.rootSlot ≠ newRoot then
    state.incrementCredits epoch
      (if featureSet.any FeatureSet.voteStateUpdateCreditPerDequeue then state.finalizedSlotCount newRoot else 1)
  else state

/-- `VoteState::process_new_vote_state`. -/
def processNewVoteState (state : VoteState) (newState : List Lockout) (newRoot : Option Slot)
    (timestamp : Option UnixTimestamp) (epoch : Epoch) (featureSet : Option FeatureSet) :
    Outcome VoteError VoteState :=
  match newState.getLast? with
  | none => .panic
  | some lastVote =>
    if newState.length > maxLockoutHistory then .err .tooManyVotes
    else if rootRollsBack newRoot state.rootSlot then .err .rootRollBack
    else do
      checkNewVotes newRoot none newState
      checkNoRollback (state.votes.drop (state.rootedVotes newRoot).length) newState
      let state := state.creditNewRoot newRoot epoch featureSet
      let state ← match timestamp with
        | none => pure state
        | some timestamp => state.processTimestamp lastVote.slot timestamp
      pure { state with rootSlot := newRoot, votes := newState }

end VoteState

end Playground.VoteProgram
