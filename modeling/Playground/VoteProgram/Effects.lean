import Playground.VoteProgram.Credits
import Playground.VoteProgram.Instructions

/-!
# What the instructions of the vote program do

`Effect` says all that an instruction that succeeds does to the state of a vote account. It is what executing one
comes to (`execute_spec`), which does not panic in a state that is valid (`VoteState.Valid`) at a clock that does not
go back, and leaves such a state (`valid_of_effect`).
-/

set_option autoImplicit false
set_option relaxedAutoImplicit false

namespace Playground.VoteProgram

open Library

/-! ### Clocks -/

/-- A clock that is not behind another one, has not computed leader schedules of past epochs only, and has an epoch of
64 bits after the last one with a leader schedule. -/
structure Clock.Follows (before after : Clock) : Prop where
  epoch_le : before.epoch ≤ after.epoch
  leaderScheduleEpoch_le : before.leaderScheduleEpoch ≤ after.leaderScheduleEpoch
  le_leaderScheduleEpoch : after.epoch ≤ after.leaderScheduleEpoch
  leaderScheduleEpoch_lt : after.leaderScheduleEpoch + 1 < 2 ^ 64

/-! ### Valid states -/

/-- A state as it is at a clock: its tower is sound, its slots have a property, its credits are valid and not for later
epochs, and no voter is authorized for an epoch behind those that may be set. -/
structure VoteState.Valid (property : Slot → Prop) (clock : Clock) (state : VoteState) : Prop where
  sound : state.Sound
  slots : state.AllSlots property
  credits : VoteState.ValidCredits state.epochCredits
  credits_le : ∀ last ∈ state.epochCredits.getLast?, last.1 ≤ clock.epoch
  voters_le : ∀ entry ∈ state.authorizedVoters.entries, entry.1 ≤ clock.leaderScheduleEpoch + 1

namespace VoteState.Valid

variable {property : Slot → Prop} {clock later : Clock} {state : VoteState}

/-- A state without votes and credits is valid if its voters are. -/
theorem of_nil (hvotes : state.votes = []) (hroot : state.rootSlot = none) (hcredits : state.epochCredits = [])
    (hvoters : ∀ entry ∈ state.authorizedVoters.entries, entry.1 ≤ clock.leaderScheduleEpoch + 1) :
    state.Valid property clock := by
  refine ⟨⟨hvotes ▸ .nil, fun hne ↦ absurd hroot hne, fun root hmem ↦ ?_⟩,
    ⟨fun vote hvote ↦ ?_, fun root hmem ↦ ?_⟩, hcredits ▸ .nil, fun last hlast ↦ ?_, hvoters⟩
  · rw [hroot] at hmem
    exact absurd hmem (Option.not_mem_none root)
  · rw [hvotes] at hvote
    exact absurd hvote List.not_mem_nil
  · rw [hroot] at hmem
    exact absurd hmem (Option.not_mem_none root)
  · rw [hcredits] at hlast
    cases hlast

/-- A valid state stays valid as time goes on. -/
theorem mono (hvalid : state.Valid property clock) (hfollows : clock.Follows later) : state.Valid property later :=
  ⟨hvalid.sound, hvalid.slots, hvalid.credits, fun last hlast ↦ (hvalid.credits_le last hlast).trans hfollows.epoch_le,
    fun entry hentry ↦
      (hvalid.voters_le entry hentry).trans (Nat.succ_le_succ hfollows.leaderScheduleEpoch_le)⟩

/-- Authorities make no difference to a valid state, as long as no voter is authorized for too late an epoch. -/
theorem congr_authorities (hvalid : state.Valid property clock) {authorizedVoters : AuthorizedVoters}
    (hvoters : ∀ entry ∈ authorizedVoters.entries, entry.1 ≤ clock.leaderScheduleEpoch + 1)
    (nodePubkey authorizedWithdrawer : Pubkey) (commission : UInt8)
    (priorVoters : CircBuf (Pubkey × Epoch × Epoch)) :
    VoteState.Valid property clock
      { state with nodePubkey, authorizedWithdrawer, commission, authorizedVoters, priorVoters } :=
  ⟨⟨hvalid.sound.tower, hvalid.sound.votes_ne_nil, hvalid.sound.root_lt⟩, ⟨hvalid.slots.votes, hvalid.slots.root⟩,
    hvalid.credits, hvalid.credits_le, hvoters⟩

/-- A vote leaves a valid state. -/
theorem advances {slotHashes : SlotHashes} {after : VoteState} (hvalid : state.Valid property clock)
    (hknown : ∀ slot ∈ slotHashes.map Prod.fst, property slot)
    (hadvances : state.Advances slotHashes clock.epoch after) : after.Valid property clock := by
  obtain ⟨amounts, hpos, hcredits⟩ := hadvances.credited.credits
  obtain ⟨hall, hle, -⟩ := VoteState.foldl_addCredits_spec hpos hvalid.credits hvalid.credits_le
  exact ⟨hadvances.sound, hadvances.slots property hknown hvalid.slots, hcredits ▸ hall, hcredits ▸ hle,
    hadvances.credited.authorizedVoters ▸ hvalid.voters_le⟩

end VoteState.Valid

/-! ### Effects -/

/-- The voter of the current epoch in a state, and the state once it has been looked up. -/
structure VoteState.Looked (currentEpoch : Epoch) (state : VoteState) (pubkey : Pubkey) (looked : VoteState) :
    Prop where
  voter : AuthorizedVoters.getAuthorizedVoter state.authorizedVoters currentEpoch = some pubkey
  eq : looked = { state with authorizedVoters := looked.authorizedVoters }
  entries : ∀ entry, entry ∈ looked.authorizedVoters.entries ↔
    entry = (currentEpoch, pubkey) ∨ entry ∈ state.authorizedVoters.entries ∧ currentEpoch < entry.1
  same : ∀ epoch, currentEpoch ≤ epoch → AuthorizedVoters.getAuthorizedVoter looked.authorizedVoters epoch =
    AuthorizedVoters.getAuthorizedVoter state.authorizedVoters epoch

/-- Looking the voter of the current epoch up does not panic. -/
theorem VoteState.getAndUpdateAuthorizedVoter_spec (state : VoteState) (currentEpoch : Epoch) :
    state.getAndUpdateAuthorizedVoter currentEpoch = .err .invalidAccountData ∨
      ∃ pubkey looked, state.getAndUpdateAuthorizedVoter currentEpoch = .ok (pubkey, looked) ∧
        state.Looked currentEpoch pubkey looked := by
  rw [VoteState.getAndUpdateAuthorizedVoter]
  rcases AuthorizedVoters.getAndUpdateAuthorizedVoter_eq InstructionError.invalidAccountData with
    ⟨herr, -⟩ | ⟨pubkey, updated, hok, hvoter, hentries, hsame⟩
  · exact Or.inl (by rw [herr, Outcome.err_bind])
  · exact Or.inr ⟨pubkey, _, by rw [hok]; rfl, hvoter, rfl, hentries, hsame⟩

/-- What an instruction that succeeds does to the state of an account. -/
inductive Effect (context : Context) : Instruction → VoteStateVersions → VoteStateVersions → Prop
  | initializeAccount {before : VoteStateVersions} {voteInit : VoteInit} (huninitialized : before.isUninitialized)
      (hsigned : voteInit.nodePubkey ∈ context.signers) :
      Effect context (.initializeAccount voteInit) before (.current (.new voteInit context.clock))
  | authorizeVoter {before : VoteStateVersions} {authorized pubkey : Pubkey} {looked : VoteState}
      {priorVoters : CircBuf (Pubkey × Epoch × Epoch)}
      (hlooked : before.convertToCurrent.Looked context.clock.epoch pubkey looked)
      (hsigned : pubkey ∈ context.signers ∨
        context.featureSet.voteWithdrawAuthorityMayChangeAuthorizedVoter ∧
          before.convertToCurrent.authorizedWithdrawer ∈ context.signers)
      (hnew : ∀ entry ∈ looked.authorizedVoters.entries, entry.1 ≠ context.clock.leaderScheduleEpoch + 1) :
      Effect context (.authorize authorized .voter) before
        (.current { looked with
          authorizedVoters :=
            looked.authorizedVoters.insert (context.clock.leaderScheduleEpoch + 1) authorized
          priorVoters })
  | authorities {before : VoteStateVersions} {instruction : Instruction} {nodePubkey authorizedWithdrawer : Pubkey}
      {commission : UInt8}
      (hinstruction : (∃ authorized, instruction = .authorize authorized .withdrawer) ∨
        (∃ pubkey, instruction = .updateValidatorIdentity pubkey) ∨
          ∃ percentage, instruction = .updateCommission percentage)
      (hsigned : before.convertToCurrent.authorizedWithdrawer ∈ context.signers) :
      Effect context instruction before
        (.current { before.convertToCurrent with nodePubkey, authorizedWithdrawer, commission })
  | vote {before : VoteStateVersions} {instruction : Instruction} {pubkey : Pubkey} {looked after : VoteState}
      (hinstruction : (∃ vote, instruction = .processVote vote) ∨
        ∃ update, instruction = .processVoteStateUpdate update)
      (hinitialized : ¬ before.isUninitialized)
      (hlooked : before.convertToCurrent.Looked context.clock.epoch pubkey looked)
      (hsigned : pubkey ∈ context.signers)
      (hadvances : looked.Advances context.slotHashes context.clock.epoch after) :
      Effect context instruction before (.current after)
  | withdraw {before after : VoteStateVersions} {lamports : ℕ} {toVoteAccount : Bool}
      {rentSysvar : Option (ℕ → ℕ)} {clock : Option Clock}
      (hsigned : before.convertToCurrent.authorizedWithdrawer ∈ context.signers)
      (hafter : after = before ∨ after = .current {}) :
      Effect context (.withdraw lamports toVoteAccount rentSysvar clock) before after

/-- What is executed fails, or has an effect on the state of the account. -/
def Comes (context : Context) (instruction : Instruction) (account : VoteAccount)
    (outcome : Outcome InstructionError VoteAccount) : Prop :=
  (∃ error, outcome = .err error) ∨
    ∃ after before versions, outcome = .ok after ∧ account.data = some before ∧ after.data = some versions ∧
      Effect context instruction before versions

section Comes

variable {context : Context} {instruction : Instruction} {account : VoteAccount}

/-- What fails comes to nothing. -/
theorem Comes.err (error : InstructionError) : Comes context instruction account (.err error) :=
  Or.inl ⟨error, rfl⟩

/-- Reading the state of the account. -/
theorem Comes.getState {next : VoteStateVersions → Outcome InstructionError VoteAccount}
    (hnext : ∀ before, account.data = some before → Comes context instruction account (next before)) :
    Comes context instruction account (account.getState >>= next) := by
  rw [VoteAccount.getState]
  cases hdata : account.data with
  | none => exact .err _
  | some before => exact hnext before hdata

/-- Checking a signature. -/
theorem Comes.verify {authorized : Pubkey} {next : Unit → Outcome InstructionError VoteAccount}
    (hnext : authorized ∈ context.signers → Comes context instruction account (next ())) :
    Comes context instruction account (verifyAuthorizedSigner authorized context.signers >>= next) := by
  rw [verifyAuthorizedSigner]
  split_ifs with hsigned
  · exact hnext hsigned
  · exact .err _

/-- Checking a signature that something else may stand in for. -/
theorem Comes.verifyUnless {condition : Prop} [Decidable condition] {authorized : Pubkey}
    {next : Unit → Outcome InstructionError VoteAccount}
    (hnext : authorized ∈ context.signers ∨ condition → Comes context instruction account (next ())) :
    Comes context instruction account
      ((if condition then .ok () else verifyAuthorizedSigner authorized context.signers) >>= next) := by
  split_ifs with hcondition
  · exact hnext (Or.inr hcondition)
  · exact .verify fun hsigned ↦ hnext (Or.inl hsigned)

/-- Looking the voter of the current epoch up. -/
theorem Comes.lookUp {state : VoteState} {currentEpoch : Epoch}
    {next : Pubkey × VoteState → Outcome InstructionError VoteAccount}
    (hnext : ∀ pubkey looked, state.Looked currentEpoch pubkey looked →
      Comes context instruction account (next (pubkey, looked))) :
    Comes context instruction account (state.getAndUpdateAuthorizedVoter currentEpoch >>= next) := by
  rcases state.getAndUpdateAuthorizedVoter_spec currentEpoch with herr | ⟨pubkey, looked, hok, hlooked⟩
  · rw [herr]
    exact .err _
  · rw [hok]
    exact hnext pubkey looked hlooked

/-- Writing the state of the account. -/
theorem Comes.setState {before : VoteStateVersions} {state : VoteState} (hdata : account.data = some before)
    (heffect : Effect context instruction before (.current state)) :
    Comes context instruction account (account.setState context state) := by
  rw [VoteAccount.setState]
  cases context.setStateError with
  | some error => exact .err _
  | none => exact Or.inr ⟨_, before, _, rfl, hdata, rfl, heffect⟩

/-- What a vote does may fail with an error of its own. -/
theorem Comes.mapErr {outcome : Outcome VoteError VoteState} {property : VoteState → Prop}
    (hspec : (∃ error, outcome = .err error) ∨ ∃ after, outcome = .ok after ∧ property after)
    {next : VoteState → Outcome InstructionError VoteAccount}
    (hnext : ∀ after, property after → Comes context instruction account (next after)) :
    Comes context instruction account (outcome.mapErr .custom >>= next) := by
  rcases hspec with ⟨error, rfl⟩ | ⟨after, rfl, hafter⟩
  · exact .err _
  · exact hnext after hafter

end Comes

/-! ### Each instruction -/

namespace VoteAccount

variable {context : Context} {account : VoteAccount}

/-- Initializing an account. -/
theorem comes_initializeAccount (voteInit : VoteInit) :
    Comes context (.initializeAccount voteInit) account (account.initializeAccount context voteInit) := by
  rw [initializeAccount]
  split_ifs with hsize
  · exact .err _
  refine .getState fun before hdata ↦ ?_
  split_ifs with huninitialized
  · exact .verify fun hsigned ↦ .setState hdata (.initializeAccount huninitialized hsigned)
  · exact .err _

/-- Changing the validator identity. -/
theorem comes_updateValidatorIdentity (nodePubkey : Pubkey) :
    Comes context (.updateValidatorIdentity nodePubkey) account
      (account.updateValidatorIdentity context nodePubkey) :=
  .getState fun _ hdata ↦ .verify fun hsigned ↦ .verify fun _ ↦
    .setState hdata (.authorities (Or.inr (Or.inl ⟨nodePubkey, rfl⟩)) hsigned)

/-- Changing the commission. -/
theorem comes_updateCommission (commission : UInt8) :
    Comes context (.updateCommission commission) account (account.updateCommission context commission) :=
  .getState fun _ hdata ↦ .verify fun hsigned ↦
    .setState hdata (.authorities (Or.inr (Or.inr ⟨commission, rfl⟩)) hsigned)

/-- Withdrawing lamports. -/
theorem comes_withdraw (lamports : ℕ) (toVoteAccount : Bool) (rentSysvar : Option (ℕ → ℕ)) (clock : Option Clock) :
    Comes context (.withdraw lamports toVoteAccount rentSysvar clock) account
      (account.withdraw context lamports toVoteAccount rentSysvar clock) := by
  have htransfer : ∀ {written : VoteAccount} {before versions : VoteStateVersions}, account.data = some before →
      written.data = some versions → before.convertToCurrent.authorizedWithdrawer ∈ context.signers →
        (versions = before ∨ versions = .current {}) →
          Comes context (.withdraw lamports toVoteAccount rentSysvar clock) account
            (written.transfer context lamports toVoteAccount) := by
    intro written before versions hdata hwritten hsigned hafter
    rw [transfer]
    cases context.transferError with
    | some error => exact .err _
    | none => exact Or.inr ⟨_, before, versions, rfl, hdata, by split_ifs <;> exact hwritten, .withdraw hsigned hafter⟩
  refine .getState fun before hdata ↦ .verify fun hsigned ↦ ?_
  split_ifs with hless hzero hreject hrent
  · exact .err _
  · exact .err _
  · rw [setState]
    cases context.setStateError with
    | some error => exact .err _
    | none => exact htransfer hdata rfl hsigned (Or.inr rfl)
  · exact .err _
  · exact htransfer hdata hdata hsigned (Or.inl rfl)

/-- Voting. -/
theorem comes_verifyAndGetVoteState {instruction : Instruction}
    {next : VoteState → Outcome InstructionError VoteAccount}
    (hnext : ∀ before pubkey looked, account.data = some before → ¬ before.isUninitialized →
      before.convertToCurrent.Looked context.clock.epoch pubkey looked → pubkey ∈ context.signers →
        Comes context instruction account (next looked)) :
    Comes context instruction account (account.verifyAndGetVoteState context >>= next) := by
  rw [verifyAndGetVoteState, bind_assoc]
  refine .getState fun before hdata ↦ ?_
  split_ifs with huninitialized
  · exact .err _
  rw [bind_assoc]
  refine .lookUp fun pubkey looked hlooked ↦ ?_
  simp only [bind_assoc]
  exact .verify fun hsigned ↦ hnext before pubkey looked hdata huninitialized hlooked hsigned

/-- What is looked up is valid, as long as the clock has computed the leader schedule of its epoch. -/
theorem valid_of_looked {property : Slot → Prop} {clock : Clock} {state looked : VoteState} {pubkey : Pubkey}
    (hvalid : state.Valid property clock) (hclock : clock.epoch ≤ clock.leaderScheduleEpoch)
    (hlooked : state.Looked clock.epoch pubkey looked) : looked.Valid property clock := by
  have hvoters : ∀ entry ∈ looked.authorizedVoters.entries, entry.1 ≤ clock.leaderScheduleEpoch + 1 := by
    intro entry hentry
    rcases (hlooked.entries entry).mp hentry with rfl | ⟨hbefore, -⟩
    · exact Nat.le_succ_of_le hclock
    · exact hvalid.voters_le entry hbefore
  rw [hlooked.eq]
  exact hvalid.congr_authorities hvoters _ _ _ _

/-- A timestamp of a vote. -/
theorem processVoteTimestamp_spec (state : VoteState) (vote : Vote) :
    (∃ error, processVoteTimestamp state vote = .err error) ∨
      ∃ after, processVoteTimestamp state vote = .ok after ∧
        ∃ lastTimestamp, after = { state with lastTimestamp } := by
  rw [processVoteTimestamp]
  cases vote.timestamp with
  | none => exact Or.inr ⟨_, rfl, _, rfl⟩
  | some timestamp =>
    cases vote.slots.max? with
    | none => exact Or.inl ⟨_, rfl⟩
    | some slot =>
      rcases state.processTimestamp_spec slot timestamp with ⟨hok, -⟩ | ⟨herr, -⟩
      · exact Or.inr ⟨_, hok, _, rfl⟩
      · exact Or.inl ⟨_, herr⟩

/-- Voting. -/
theorem comes_processVote {property : Slot → Prop}
    (hvalid : ∀ before ∈ account.data, before.convertToCurrent.Valid property context.clock)
    (hclock : context.clock.epoch ≤ context.clock.leaderScheduleEpoch)
    (hrange : ∀ slot ∈ context.slotHashes.map Prod.fst, Slot.InRange slot) (vote : Vote) :
    Comes context (.processVote vote) account (account.processVote context vote) := by
  refine comes_verifyAndGetVoteState fun before pubkey looked hdata hinitialized hlooked hsigned ↦ ?_
  have hsound := (valid_of_looked (hvalid before hdata) hclock hlooked).sound
  refine .mapErr (VoteState.processVote_advances hsound hrange vote context.clock.epoch (some context.featureSet))
    fun voted hadvances ↦ .mapErr (processVoteTimestamp_spec voted vote) ?_
  rintro _ ⟨lastTimestamp, rfl⟩
  exact .setState hdata (.vote (Or.inl ⟨vote, rfl⟩) hinitialized hlooked hsigned
    (hadvances.congr_timestamp lastTimestamp))

/-- Updating the tower. -/
theorem comes_processVoteStateUpdate {property : Slot → Prop}
    (hvalid : ∀ before ∈ account.data, before.convertToCurrent.Valid property context.clock)
    (hclock : context.clock.epoch ≤ context.clock.leaderScheduleEpoch)
    (hrange : ∀ slot ∈ context.slotHashes.map Prod.fst, Slot.InRange slot) (update : VoteStateUpdate) :
    Comes context (.processVoteStateUpdate update) account (account.processVoteStateUpdate context update) := by
  refine comes_verifyAndGetVoteState fun before pubkey looked hdata hinitialized hlooked hsigned ↦ ?_
  have hsound := (valid_of_looked (hvalid before hdata) hclock hlooked).sound
  rcases looked.checkUpdateVoteStateSlotsAreValid_spec update context.slotHashes with
    ⟨error, herr⟩ | ⟨verified, hok, hverified⟩
  · rw [herr]
    exact .err _
  · rw [hok]
    exact .mapErr (VoteState.processNewVoteState_advances hsound hrange hverified context.clock.epoch
      (some context.featureSet)) fun after hadvances ↦
        .setState hdata (.vote (Or.inr ⟨update, rfl⟩) hinitialized hlooked hsigned hadvances)

/-- Authorizing a voter or a withdrawer. -/
theorem comes_authorize {property : Slot → Prop}
    (hvalid : ∀ before ∈ account.data, before.convertToCurrent.Valid property context.clock)
    (hclock : context.clock.epoch ≤ context.clock.leaderScheduleEpoch)
    (hepoch : context.clock.leaderScheduleEpoch + 1 < 2 ^ 64) (authorized : Pubkey) (voteAuthorize : VoteAuthorize) :
    Comes context (.authorize authorized voteAuthorize) account
      (account.authorize context authorized voteAuthorize) := by
  refine .getState fun before hdata ↦ ?_
  cases voteAuthorize with
  | withdrawer => exact .verify fun hsigned ↦ .setState hdata (.authorities (Or.inl ⟨authorized, rfl⟩) hsigned)
  | voter =>
    simp only [VoteState.setNewAuthorizedVoter, bind_assoc, Nat.mod_eq_of_lt hepoch]
    refine .lookUp fun pubkey looked hlooked ↦ ?_
    refine .verifyUnless fun hsigned ↦ ?_
    cases hget : looked.authorizedVoters.get (context.clock.leaderScheduleEpoch + 1) with
    | some pubkey => exact .err _
    | none =>
    have hnew : ∀ entry ∈ looked.authorizedVoters.entries, entry.1 ≠ context.clock.leaderScheduleEpoch + 1 := by
      rintro ⟨epoch, voter⟩ hentry rfl
      cases hget.symm.trans (SortedMap.get_eq_some_iff.mpr hentry)
    cases hlast : looked.authorizedVoters.last with
    | none => exact .err _
    | some latest =>
    have hmem : latest ∈ looked.authorizedVoters.entries := List.mem_of_getLast? hlast
    have hbehind : context.clock.leaderScheduleEpoch + 1 > latest.1 := lt_of_le_of_ne
      ((valid_of_looked (hvalid before hdata) hclock hlooked).voters_le latest hmem) (hnew latest hmem)
    simp only [Option.isSome_none, Bool.false_eq_true, if_false, hbehind, not_true_eq_false]
    split_ifs
    · exact .setState hdata (.authorizeVoter hlooked hsigned hnew)
    · exact .setState hdata (.authorizeVoter hlooked hsigned hnew)

/-- An instruction fails, or has an effect on the state of the account. It does not panic. -/
theorem execute_spec {property : Slot → Prop}
    (hvalid : ∀ before ∈ account.data, before.convertToCurrent.Valid property context.clock)
    (hclock : context.clock.epoch ≤ context.clock.leaderScheduleEpoch)
    (hepoch : context.clock.leaderScheduleEpoch + 1 < 2 ^ 64)
    (hrange : ∀ slot ∈ context.slotHashes.map Prod.fst, Slot.InRange slot) (instruction : Instruction) :
    Comes context instruction account (account.execute context instruction) := by
  cases instruction with
  | initializeAccount voteInit => exact comes_initializeAccount voteInit
  | authorize authorized voteAuthorize => exact comes_authorize hvalid hclock hepoch authorized voteAuthorize
  | processVote vote => exact comes_processVote hvalid hclock hrange vote
  | processVoteStateUpdate update => exact comes_processVoteStateUpdate hvalid hclock hrange update
  | withdraw lamports toVoteAccount rentSysvar clock => exact comes_withdraw lamports toVoteAccount rentSysvar clock
  | updateValidatorIdentity nodePubkey => exact comes_updateValidatorIdentity nodePubkey
  | updateCommission commission => exact comes_updateCommission commission

end VoteAccount

/-- An instruction leaves a valid state. -/
theorem valid_of_effect {property : Slot → Prop} {context : Context} {instruction : Instruction}
    {before after : VoteStateVersions} (hvalid : before.convertToCurrent.Valid property context.clock)
    (hclock : context.clock.epoch ≤ context.clock.leaderScheduleEpoch)
    (hknown : ∀ slot ∈ context.slotHashes.map Prod.fst, property slot)
    (heffect : Effect context instruction before after) : after.convertToCurrent.Valid property context.clock := by
  cases heffect with
  | initializeAccount =>
    refine .of_nil rfl rfl rfl fun entry hentry ↦ ?_
    rw [VoteStateVersions.convertToCurrent, VoteState.new, SortedMap.singleton, List.mem_singleton] at hentry
    exact hentry ▸ Nat.le_succ_of_le hclock
  | authorizeVoter hlooked _ _ =>
    have hlookedValid := VoteAccount.valid_of_looked hvalid hclock hlooked
    refine hlookedValid.congr_authorities (fun entry hentry ↦ ?_) _ _ _ _
    rcases SortedMap.mem_insert.mp hentry with rfl | ⟨hentry, -⟩
    · exact le_rfl
    · exact hlookedValid.voters_le entry hentry
  | authorities => exact hvalid.congr_authorities hvalid.voters_le _ _ _ _
  | vote _ _ hlooked _ hadvances =>
    exact (VoteAccount.valid_of_looked hvalid hclock hlooked).advances hknown hadvances
  | withdraw _ hafter =>
    rcases hafter with rfl | rfl
    · exact hvalid
    · exact .of_nil rfl rfl rfl fun entry hentry ↦ absurd hentry List.not_mem_nil

end Playground.VoteProgram
