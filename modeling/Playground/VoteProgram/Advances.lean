import Playground.VoteProgram.Updates

/-!
# What votes do to a state

A vote or a vote state update that is accepted advances the state (`Advances`): it is sound after it and respects the
one before, its slots are those it had or slots of the bank, its last vote is a later one, credits are only added for
the epoch (`addCredits`), and who may vote, withdraw and validate stays as it was. Both kinds of votes do so
(`processVote_advances`, `processNewVoteState_advances`).
-/

set_option autoImplicit false
set_option relaxedAutoImplicit false

namespace Playground.VoteProgram

open Library

namespace VoteState

/-! ### Credits and authorities -/

/-- Credits that are added for an epoch. -/
def addCredits (epoch : Epoch) (epochCredits : List (Epoch × ℕ × ℕ)) (credits : ℕ) : List (Epoch × ℕ × ℕ) :=
  (creditedEpoch epochCredits epoch).modifyLast fun (lastEpoch, earned, prevCredits) ↦
    (lastEpoch, earned + credits, prevCredits)

/-- What one state has after another one: credits that have been added for an epoch, and the same authorities. -/
structure Credited (epoch : Epoch) (before after : VoteState) : Prop where
  credits : ∃ amounts : List ℕ, (∀ amount ∈ amounts, 0 < amount) ∧
    after.epochCredits = amounts.foldl (addCredits epoch) before.epochCredits
  nodePubkey : after.nodePubkey = before.nodePubkey
  authorizedWithdrawer : after.authorizedWithdrawer = before.authorizedWithdrawer
  commission : after.commission = before.commission
  authorizedVoters : after.authorizedVoters = before.authorizedVoters
  priorVoters : after.priorVoters = before.priorVoters

namespace Credited

variable {epoch : Epoch} {before middle after : VoteState}

/-- No credits are added. -/
theorem refl (epoch : Epoch) (state : VoteState) : Credited epoch state state :=
  ⟨⟨[], fun _ h ↦ absurd h List.not_mem_nil, rfl⟩, rfl, rfl, rfl, rfl, rfl⟩

/-- Credits are added one after another. -/
theorem trans (hfirst : Credited epoch before middle) (hsecond : Credited epoch middle after) :
    Credited epoch before after := by
  obtain ⟨first, hfirstPos, hmiddle⟩ := hfirst.credits
  obtain ⟨second, hsecondPos, hafter⟩ := hsecond.credits
  refine ⟨⟨first ++ second, ?_, by rw [hafter, hmiddle, List.foldl_append]⟩, hsecond.nodePubkey.trans hfirst.nodePubkey,
    hsecond.authorizedWithdrawer.trans hfirst.authorizedWithdrawer, hsecond.commission.trans hfirst.commission,
    hsecond.authorizedVoters.trans hfirst.authorizedVoters, hsecond.priorVoters.trans hfirst.priorVoters⟩
  intro amount hamount
  exact (List.mem_append.mp hamount).elim (hfirstPos amount) (hsecondPos amount)

/-- Credits that are incremented. -/
theorem incrementCredits (state : VoteState) (epoch : Epoch) {credits : ℕ} (hpos : 0 < credits) :
    Credited epoch state (state.incrementCredits epoch credits) :=
  ⟨⟨[credits], List.forall_mem_singleton.mpr hpos, rfl⟩, rfl, rfl, rfl, rfl, rfl⟩

/-- The slots of a state are no matter of credits. -/
theorem congr_slots (hcredited : Credited epoch before after) (votes : List Lockout) (rootSlot : Option Slot)
    (lastTimestamp : BlockTimestamp) :
    Credited epoch before { after with votes, rootSlot, lastTimestamp } :=
  ⟨hcredited.credits, hcredited.nodePubkey, hcredited.authorizedWithdrawer, hcredited.commission,
    hcredited.authorizedVoters, hcredited.priorVoters⟩

end Credited

/-- A popped root is credited. -/
theorem credited_popRoot (state : VoteState) (epoch : Epoch) : Credited epoch state (state.popRoot epoch) := by
  rw [popRoot]
  split
  · exact .refl epoch state
  · split_ifs
    · exact .trans ((Credited.refl epoch state).congr_slots _ _ _) (.incrementCredits _ epoch Nat.one_pos)
    · exact .refl epoch state

/-- Adding slots only adds credits. -/
theorem credited_foldl (epoch : Epoch) (slots : List Slot) (state : VoteState) :
    Credited epoch state (slots.foldl (fun state slot ↦ state.processNextVoteSlot slot epoch) state) := by
  induction slots generalizing state with
  | nil => exact .refl epoch state
  | cons slot slots ih =>
    refine Credited.trans ?_ (ih (state.processNextVoteSlot slot epoch))
    rw [processNextVoteSlot]
    split_ifs
    · exact .refl epoch state
    · have hpop : Credited epoch state (state.popExpiredVotes slot) := (Credited.refl epoch state).congr_slots _ _ _
      exact (hpop.trans (credited_popRoot _ epoch)).congr_slots _ _ _

/-- A new root is credited. -/
theorem credited_creditNewRoot (state : VoteState) (newRoot : Option Slot) (epoch : Epoch)
    (featureSet : Option FeatureSet) : Credited epoch state (state.creditNewRoot newRoot epoch featureSet) := by
  rw [creditNewRoot]
  split_ifs
  · exact .incrementCredits state epoch (Nat.add_pos_left Nat.one_pos _)
  · exact .incrementCredits state epoch Nat.one_pos
  · exact .refl epoch state

/-! ### The slots of a state -/

/-- All slots of a state have a property. -/
structure AllSlots (property : Slot → Prop) (state : VoteState) : Prop where
  votes : ∀ vote ∈ state.votes, property vote.slot
  root : ∀ root ∈ state.rootSlot, property root

/-- Adding a slot to a tower that is not behind its last vote makes no difference. -/
theorem processNextVoteSlot_eq_self {state : VoteState} {slot last : Slot} (hlast : last ∈ state.lastVotedSlot)
    (hle : slot ≤ last) (epoch : Epoch) : state.processNextVoteSlot slot epoch = state := by
  rw [processNextVoteSlot, hlast, Option.any_some, if_pos (decide_eq_true hle)]

/-- Adding a slot adds no other one. -/
theorem allSlots_processNextVoteSlot {state : VoteState} (hsound : state.Sound) {property : Slot → Prop} {slot : Slot}
    (hslots : AllSlots property state) (hslot : property slot ∨ ∃ last ∈ state.lastVotedSlot, slot ≤ last)
    (epoch : Epoch) : AllSlots property (state.processNextVoteSlot slot epoch) := by
  by_cases hlater : ∀ last ∈ state.lastVotedSlot, last < slot
  · obtain ⟨rooted, kept, expired, hvotes, -, -, -, hroot, hafter⟩ := processNextVoteSlot_eq hsound.tower epoch hlater
    refine ⟨fun vote hvote ↦ ?_, fun root hmem ↦ ?_⟩
    · have hmem := List.mem_map_of_mem (f := Lockout.slot) hvote
      rw [hafter, map_slot_confirmed, List.map_append, List.mem_append, List.mem_map, List.map_singleton,
        List.mem_singleton] at hmem
      rcases hmem with ⟨other, hother, heq⟩ | heq
      · rw [← heq]
        refine hslots.votes other ?_
        rw [hvotes]
        exact List.mem_append_left _ (List.mem_append_right _ hother)
      · rw [heq]
        refine hslot.resolve_right ?_
        rintro ⟨last, hlast, hle⟩
        exact (hlater last hlast).not_ge hle
    · rcases hroot with ⟨-, hsame⟩ | ⟨vote, rfl, hnew⟩
      · exact hslots.root root (hsame ▸ hmem)
      · rw [hnew, Option.mem_some_iff] at hmem
        exact hmem ▸ hslots.votes vote (hvotes ▸ List.mem_cons_self)
  · push Not at hlater
    obtain ⟨last, hlast, hle⟩ := hlater
    rw [processNextVoteSlot_eq_self hlast hle]
    exact hslots

/-- A slot that is added is not behind the last vote. -/
theorem le_lastVotedSlot_processNextVoteSlot {state : VoteState} (hsound : state.Sound) (slot : Slot) (epoch : Epoch) :
    ∃ last ∈ (state.processNextVoteSlot slot epoch).lastVotedSlot, slot ≤ last := by
  by_cases hlater : ∀ last ∈ state.lastVotedSlot, last < slot
  · obtain ⟨-, kept, -, -, -, -, -, -, hafter⟩ := processNextVoteSlot_eq hsound.tower epoch hlater
    refine ⟨slot, ?_, le_rfl⟩
    rw [lastVotedSlot_eq, hafter, map_slot_confirmed, List.map_append, List.map_singleton, List.getLast?_concat]
    rfl
  · push Not at hlater
    obtain ⟨last, hlast, hle⟩ := hlater
    rw [processNextVoteSlot_eq_self hlast hle]
    exact ⟨last, hlast, hle⟩

/-- Adding slots adds no others. -/
theorem allSlots_foldl {property : Slot → Prop} {slots : List Slot} (epoch : Epoch) {state : VoteState}
    (hsound : state.Sound)
    (hrange : ∀ slot ∈ slots, Slot.InRange slot ∨ ∃ last ∈ state.lastVotedSlot, slot ≤ last)
    (hknown : ∀ slot ∈ slots, property slot ∨ ∃ last ∈ state.lastVotedSlot, slot ≤ last)
    (hslots : AllSlots property state) :
    AllSlots property (slots.foldl (fun state slot ↦ state.processNextVoteSlot slot epoch) state) := by
  induction slots generalizing state with
  | nil => exact hslots
  | cons slot slots ih =>
    rw [List.forall_mem_cons] at hrange hknown
    obtain ⟨hstep, hrespects⟩ := sound_processNextVoteSlot hsound hrange.1 epoch
    exact ih hstep (hrespects.voted hrange.2) (hrespects.voted hknown.2)
      (allSlots_processNextVoteSlot hsound hslots hknown.1 epoch)

/-- No slot that is added is behind the last vote. -/
theorem le_lastVotedSlot_foldl {slots : List Slot} (epoch : Epoch) {state : VoteState} (hsound : state.Sound)
    (hrange : ∀ slot ∈ slots, Slot.InRange slot ∨ ∃ last ∈ state.lastVotedSlot, slot ≤ last) :
    ∀ slot ∈ slots,
      ∃ last ∈ (slots.foldl (fun state slot ↦ state.processNextVoteSlot slot epoch) state).lastVotedSlot,
        slot ≤ last := by
  induction slots generalizing state with
  | nil => exact fun slot hslot ↦ absurd hslot List.not_mem_nil
  | cons slot slots ih =>
    rw [List.forall_mem_cons] at hrange ⊢
    obtain ⟨hstep, hrespects⟩ := sound_processNextVoteSlot hsound hrange.1 epoch
    have hrest := hrespects.voted hrange.2
    obtain ⟨last, hlast, hle⟩ := le_lastVotedSlot_processNextVoteSlot hsound slot epoch
    obtain ⟨newLast, hnewLast, hle'⟩ := (sound_foldl_processNextVoteSlot hstep hrest epoch).2.last_le last hlast
    exact ⟨⟨newLast, hnewLast, hle.trans hle'⟩, ih hstep hrest⟩

/-- What a vote does to a state: it is sound after it and respects the one before, its slots are those it had or slots
of the bank, its last vote is a later one, and it only has more credits. -/
structure Advances (slotHashes : SlotHashes) (epoch : Epoch) (before after : VoteState) : Prop where
  sound : after.Sound
  respects : Respects before after
  slots : ∀ property : Slot → Prop, (∀ slot ∈ slotHashes.map Prod.fst, property slot) → AllSlots property before →
    AllSlots property after
  last : ∃ newLast ∈ after.lastVotedSlot, ∀ last ∈ before.lastVotedSlot, last < newLast
  credited : Credited epoch before after

/-- A timestamp makes no difference to that. -/
theorem Advances.congr_timestamp {slotHashes : SlotHashes} {epoch : Epoch} {before after : VoteState}
    (hadvances : Advances slotHashes epoch before after) (lastTimestamp : BlockTimestamp) :
    Advances slotHashes epoch before { after with lastTimestamp } :=
  ⟨⟨hadvances.sound.tower, hadvances.sound.votes_ne_nil, hadvances.sound.root_lt⟩,
    ⟨hadvances.respects.root_le, hadvances.respects.last_le, hadvances.respects.kept⟩,
    fun property hknown hslots ↦ ⟨(hadvances.slots property hknown hslots).votes,
      (hadvances.slots property hknown hslots).root⟩,
    hadvances.last, hadvances.credited.congr_slots _ _ _⟩

/-- Slots that have been verified advance a state when they are added to its tower. -/
theorem advances_foldl {state : VoteState} (hsound : state.Sound) {slotHashes : SlotHashes}
    (hrange : ∀ slot ∈ slotHashes.map Prod.fst, Slot.InRange slot) {hash : Hash} {slots : List Slot}
    (hverified : VerifiedSlots state slotHashes hash slots) (epoch : Epoch) :
    Advances slotHashes epoch state
      (slots.foldl (fun state slot ↦ state.processNextVoteSlot slot epoch) state) := by
  have hvalid : ∀ slot ∈ slots, Slot.InRange slot ∨ ∃ last ∈ state.lastVotedSlot, slot ≤ last :=
    fun slot hslot ↦ (hverified.known slot hslot).imp_left (hrange slot)
  obtain ⟨hafter, hrespects⟩ := sound_foldl_processNextVoteSlot hsound hvalid epoch
  refine ⟨hafter, hrespects, fun property hknown ↦ allSlots_foldl epoch hsound hvalid fun slot hslot ↦
    (hverified.known slot hslot).imp_left (hknown slot), ?_, credited_foldl epoch slots state⟩
  obtain ⟨newest, hmem, -, hnew⟩ := hverified.newest
  obtain ⟨last, hlast, hle⟩ := le_lastVotedSlot_foldl epoch hsound hvalid newest hmem
  exact ⟨last, hlast, fun old hold ↦ (hnew old hold).trans_le hle⟩

/-- A vote advances a state if it is accepted. -/
theorem processVote_advances {state : VoteState} (hsound : state.Sound) {slotHashes : SlotHashes}
    (hrange : ∀ slot ∈ slotHashes.map Prod.fst, Slot.InRange slot) (vote : Vote) (epoch : Epoch)
    (featureSet : Option FeatureSet) :
    (∃ error, state.processVote vote slotHashes epoch featureSet = .err error) ∨
      ∃ after, state.processVote vote slotHashes epoch featureSet = .ok after ∧
        Advances slotHashes epoch state after := by
  rcases state.processVote_spec vote slotHashes epoch featureSet with herr | ⟨slots, -, hverified, hok⟩
  · exact Or.inl herr
  · exact Or.inr ⟨_, hok, advances_foldl hsound hrange hverified epoch⟩

/-- A tower that has been verified and is accepted advances a state. -/
theorem advances_updated {state : VoteState} (hsound : state.Sound) {slotHashes : SlotHashes}
    (hrange : ∀ slot ∈ slotHashes.map Prod.fst, Slot.InRange slot) {update verified : VoteStateUpdate}
    (hverified : Verified state slotHashes update verified)
    (haccepts : state.Accepts verified.lockouts verified.root verified.timestamp) (epoch : Epoch)
    (featureSet : Option FeatureSet) :
    Advances slotHashes epoch state
      (state.updated verified.lockouts verified.root verified.timestamp epoch featureSet) := by
  obtain ⟨last, hlast, -, hlater⟩ := hverified.last
  have hslots : ∀ property : Slot → Prop, (∀ slot ∈ slotHashes.map Prod.fst, property slot) →
      (∀ vote ∈ state.votes, property vote.slot) → ∀ vote ∈ verified.lockouts, property vote.slot := by
    intro property hknown hvotes vote hvote
    rcases hverified.known vote hvote with hslot | hslot
    · exact hknown _ hslot
    · obtain ⟨other, hother, heq⟩ := List.mem_map.mp hslot
      exact heq ▸ hvotes other hother
  have hlast' : (state.updated verified.lockouts verified.root verified.timestamp epoch featureSet).lastVotedSlot =
      some last.slot := by
    rw [lastVotedSlot, updated, Option.mem_def.mp hlast, Option.map_some]
  refine ⟨⟨⟨haccepts.length_le, fun vote hvote ↦ ⟨?_, ?_, ?_⟩, haccepts.chain⟩, fun _ ↦ ?_, fun root hroot ↦ ?_⟩,
    ⟨haccepts.root_le, fun old hold ↦ ⟨last.slot, hlast', (hlater old hold).le⟩, fun vote hvote ↦ ?_⟩,
    fun property hknown hall ↦ ⟨hslots property hknown hall.votes, fun root hroot ↦ ?_⟩,
    ⟨last.slot, hlast', hlater⟩, (credited_creditNewRoot state _ epoch featureSet).congr_slots _ _ _⟩
  · exact hslots Slot.InRange hrange (fun vote hvote ↦ (hsound.tower.valid vote hvote).inRange) vote hvote
  · exact (haccepts.valid vote hvote).1
  · exact (haccepts.valid vote hvote).2.1
  · exact List.ne_nil_of_mem (List.mem_of_mem_getLast? hlast)
  · rcases eq_or_ne root 0 with hzero | hne
    · exact Or.inl hzero
    · exact Or.inr fun vote hvote ↦ ((haccepts.valid vote hvote).2.2 root hroot).resolve_left hne
  · rcases haccepts.kept vote hvote with hrooted | hkept | ⟨-, hexpired⟩
    · exact Or.inl hrooted
    · exact Or.inr (Or.inl hkept)
    · refine Or.inr (Or.inr ⟨last, List.mem_of_mem_getLast? hlast, hexpired last (List.mem_of_mem_getLast? hlast) ?_⟩)
      obtain ⟨old, hold, hle⟩ := slot_le_lastVotedSlot hsound.tower hvote
      exact hle.trans_lt (hlater old hold)
  · exact (hverified.root root hroot).elim (hall.root root) (hknown root)

/-- A vote state update advances a state if it is accepted. -/
theorem processNewVoteState_advances {state : VoteState} (hsound : state.Sound) {slotHashes : SlotHashes}
    (hrange : ∀ slot ∈ slotHashes.map Prod.fst, Slot.InRange slot) {update verified : VoteStateUpdate}
    (hverified : Verified state slotHashes update verified) (epoch : Epoch) (featureSet : Option FeatureSet) :
    (∃ error, state.processNewVoteState verified.lockouts verified.root verified.timestamp epoch featureSet =
        .err error) ∨
      ∃ after, state.processNewVoteState verified.lockouts verified.root verified.timestamp epoch featureSet =
          .ok after ∧ Advances slotHashes epoch state after := by
  have hne : verified.lockouts ≠ [] := by
    obtain ⟨last, hlast, -⟩ := hverified.last
    exact List.ne_nil_of_mem (List.mem_of_mem_getLast? hlast)
  rcases processNewVoteState_spec hsound.tower.pairwise_slot hne verified.root verified.timestamp epoch featureSet with
    ⟨hok, haccepts⟩ | ⟨herr, -⟩
  · exact Or.inr ⟨_, hok, advances_updated hsound hrange hverified haccepts epoch featureSet⟩
  · exact Or.inl herr

end VoteState

end Playground.VoteProgram
