import Mathlib.Data.List.Chain
import Playground.VoteProgram.State

/-!
# Towers

A tower is a list of votes whose slots increase and whose confirmations decrease, at most `maxLockoutHistory` of
each, in which every vote is still locked out at the next one (`Tower`). Adding a slot to a tower pops votes from its
end whose lockouts have expired, and its first vote once it is full. What is left of a tower has at least as many
confirmations at each vote as there are votes from it on, so that the new vote doubles the lockouts of exactly those
that have not one more (`doubleLockouts_pushVote`), and there is a tower again (`sound_processNextVoteSlot`).

A state respects another one (`Respects`) if it has not rolled back its root, and has kept every vote, with no fewer
confirmations, that is behind its own root and locked out at its last vote. Adding a slot does so as well.
-/

set_option autoImplicit false
set_option relaxedAutoImplicit false

namespace Playground.VoteProgram

open Library

/-! ### Lockouts -/

/-- A slot at which no lockout wraps around. -/
def Slot.InRange (slot : Slot) : Prop :=
  slot + 2 ^ maxLockoutHistory < 2 ^ 64

/-- A vote is locked out for twice as many slots with each confirmation. -/
theorem lastLockedOutSlot_eq {vote : Lockout} (hrange : Slot.InRange vote.slot)
    (hcount : vote.confirmationCount ≤ maxLockoutHistory) :
    vote.lastLockedOutSlot = vote.slot + 2 ^ vote.confirmationCount := by
  have hpow : 2 ^ vote.confirmationCount ≤ 2 ^ maxLockoutHistory := Nat.pow_le_pow_right Nat.two_pos hcount
  have hsum : vote.slot + 2 ^ vote.confirmationCount < 2 ^ 64 := (Nat.add_le_add_left hpow _).trans_lt hrange
  have hlockout : vote.lockout = 2 ^ vote.confirmationCount :=
    Nat.mod_eq_of_lt ((Nat.le_add_left _ _).trans_lt hsum)
  rw [Lockout.lastLockedOutSlot, hlockout, Nat.mod_eq_of_lt hsum]

/-! ### The shape of a tower -/

/-- How a vote lies below the next one. -/
structure Supports (older newer : Lockout) : Prop where
  slot_lt : older.slot < newer.slot
  confirmationCount_lt : newer.confirmationCount < older.confirmationCount
  locked : newer.slot ≤ older.lastLockedOutSlot

/-- What each vote of a tower is on its own. -/
structure Lockout.Valid (vote : Lockout) : Prop where
  inRange : Slot.InRange vote.slot
  pos : 0 < vote.confirmationCount
  le : vote.confirmationCount ≤ maxLockoutHistory

/-- A tower of votes, from the oldest to the newest. -/
structure Tower (votes : List Lockout) : Prop where
  length_le : votes.length ≤ maxLockoutHistory
  valid : ∀ vote ∈ votes, vote.Valid
  chain : votes.IsChain Supports

namespace Tower

variable {votes rest : List Lockout} {vote : Lockout}

/-- No votes are a tower. -/
theorem nil : Tower [] :=
  ⟨Nat.zero_le _, fun _ hvote ↦ absurd hvote List.not_mem_nil, .nil⟩

/-- Consecutive votes of a tower are a tower. -/
theorem of_isInfix (htower : Tower votes) (hpart : rest <:+: votes) : Tower rest :=
  ⟨hpart.length_le.trans htower.length_le, fun vote hvote ↦ htower.valid vote (hpart.subset hvote),
    htower.chain.infix hpart⟩

/-- The slots of a tower increase. -/
theorem pairwise_slot (htower : Tower votes) : votes.Pairwise fun older newer ↦ older.slot < newer.slot :=
  List.pairwise_map.mp ((List.isChain_map Lockout.slot).mpr (htower.chain.imp fun _ _ h ↦ h.slot_lt)).pairwise

/-- A vote has at least as many confirmations as there are votes from it on. -/
theorem length_le_confirmationCount (htower : Tower (vote :: rest)) : rest.length + 1 ≤ vote.confirmationCount := by
  induction rest generalizing vote with
  | nil => exact (htower.valid vote List.mem_cons_self).pos
  | cons next rest ih =>
    have hnext := ih (htower.of_isInfix (List.suffix_cons vote (next :: rest)).isInfix)
    have hless := (List.isChain_cons_cons.mp htower.chain).1.confirmationCount_lt
    rw [List.length_cons]
    omega

end Tower

/-! ### Adding a slot -/

/-- The votes of a tower with at least as many confirmations as there are votes from each on. -/
def confirmed : List Lockout → List Lockout
  | [] => []
  | vote :: rest => ⟨vote.slot, max vote.confirmationCount (rest.length + 1)⟩ :: confirmed rest

/-- Confirming votes keeps their number. -/
theorem length_confirmed (votes : List Lockout) : (confirmed votes).length = votes.length := by
  induction votes with
  | nil => rfl
  | cons vote rest ih => rw [confirmed, List.length_cons, List.length_cons, ih]

/-- Confirming votes keeps their slots, and takes no confirmations from them. -/
theorem exists_confirmed {votes : List Lockout} {vote : Lockout} (hvote : vote ∈ votes) :
    ∃ other ∈ confirmed votes, other.slot = vote.slot ∧ vote.confirmationCount ≤ other.confirmationCount := by
  induction votes with
  | nil => exact absurd hvote List.not_mem_nil
  | cons first rest ih =>
    rcases List.mem_cons.mp hvote with rfl | hrest
    · exact ⟨_, List.mem_cons_self, rfl, le_max_left _ _⟩
    · obtain ⟨other, hother, hsame⟩ := ih hrest
      exact ⟨other, List.mem_cons_of_mem _ hother, hsame⟩

/-- The slots of the votes after confirming them. -/
theorem map_slot_confirmed (votes : List Lockout) :
    (confirmed votes).map Lockout.slot = votes.map Lockout.slot := by
  induction votes with
  | nil => rfl
  | cons vote rest ih => rw [confirmed, List.map_cons, List.map_cons, ih]

/-- A tower with a new vote on it doubles the lockouts that are not long enough. -/
theorem mapIdx_eq_confirmed {votes : List Lockout} {vote : Lockout} (htower : Tower votes)
    (hvote : vote.confirmationCount = 1) (depth offset : ℕ) (hdepth : depth = offset + (votes.length + 1)) :
    ((votes ++ [vote]).mapIdx fun i other ↦
        if depth > i + offset + other.confirmationCount then
          { other with confirmationCount := other.confirmationCount + 1 }
        else other) = confirmed (votes ++ [vote]) := by
  induction votes generalizing offset with
  | nil =>
    rw [List.nil_append, List.mapIdx_cons, List.mapIdx_nil, confirmed, confirmed, List.length_nil, hvote]
    rw [List.length_nil] at hdepth
    rw [if_neg (by omega), max_self]
    cases vote
    rw [← hvote]
  | cons first rest ih =>
    have hcount := htower.length_le_confirmationCount
    rw [List.length_cons] at hdepth
    have hrest := ih (htower.of_isInfix (List.suffix_cons first rest).isInfix) (offset + 1) (by omega)
    rw [List.cons_append, List.mapIdx_cons, confirmed, List.length_append, List.length_singleton, ← hrest]
    congr 1
    · split_ifs with hless
      · rw [show first.confirmationCount = rest.length + 1 by omega, max_eq_right (Nat.le_succ _)]
      · rw [max_eq_left (by omega)]
    · simp only [Nat.add_assoc, Nat.add_comm 1]

/-- What a new vote on a tower does to the lockouts. -/
theorem doubleLockouts_pushVote {state : VoteState} {slot : Slot} (htower : Tower state.votes) :
    (state.pushVote (Lockout.new slot)).doubleLockouts =
      { state with votes := confirmed (state.votes ++ [Lockout.new slot]) } := by
  have hcount : (Lockout.new slot).confirmationCount = 1 := rfl
  have hmap := mapIdx_eq_confirmed htower hcount (state.votes.length + 1) 0 (Nat.zero_add _).symm
  rw [VoteState.doubleLockouts, VoteState.pushVote, ← hmap, List.length_append, List.length_singleton]
  rfl

/-- A tower that is not full, and is locked out at a later slot, is a tower with a vote for that slot on it. -/
theorem tower_confirmed {votes : List Lockout} {slot : Slot} (htower : Tower votes)
    (hlength : votes.length < maxLockoutHistory) (hrange : Slot.InRange slot)
    (hlast : ∀ last ∈ votes.getLast?, last.slot < slot ∧ slot ≤ last.lastLockedOutSlot) :
    Tower (confirmed (votes ++ [Lockout.new slot])) := by
  induction votes with
  | nil =>
    refine ⟨Nat.succ_le_of_lt hlength, ?_, List.isChain_singleton _⟩
    rw [List.nil_append, confirmed, confirmed, List.forall_mem_singleton]
    exact ⟨hrange, Nat.one_pos, Nat.le_of_ble_eq_true rfl⟩
  | cons vote rest ih =>
    have hvalid := htower.valid vote List.mem_cons_self
    have hcount := htower.length_le_confirmationCount
    rw [List.length_cons] at hlength
    have hrest := ih (htower.of_isInfix (List.suffix_cons vote rest).isInfix) (by omega) fun last hmem ↦ by
      cases rest with
      | nil => cases hmem
      | cons next rest => exact hlast last (by rwa [List.getLast?_cons_cons])
    rw [List.cons_append, confirmed, List.length_append, List.length_singleton]
    have hnew : Lockout.Valid ⟨vote.slot, max vote.confirmationCount (rest.length + 1 + 1)⟩ :=
      ⟨hvalid.inRange, lt_max_of_lt_left hvalid.pos, max_le hvalid.le hlength⟩
    have hlonger : vote.lastLockedOutSlot ≤
        (Lockout.mk vote.slot (max vote.confirmationCount (rest.length + 1 + 1))).lastLockedOutSlot := by
      rw [lastLockedOutSlot_eq hvalid.inRange hvalid.le, lastLockedOutSlot_eq hnew.inRange hnew.le]
      exact Nat.add_le_add_left (Nat.pow_le_pow_right Nat.two_pos (le_max_left _ _)) _
    refine ⟨?_, List.forall_mem_cons.mpr ⟨hnew, hrest.valid⟩, hrest.chain.cons fun next hnext ↦ ?_⟩
    · rw [List.length_cons, length_confirmed, List.length_append, List.length_singleton]
      exact hlength
    · cases rest with
      | nil =>
        obtain ⟨hless, hlocked⟩ := hlast vote rfl
        rw [List.nil_append, confirmed, List.head?_cons, Option.mem_some_iff] at hnext
        subst hnext
        exact ⟨hless, Nat.lt_of_lt_of_le Nat.one_lt_two (le_max_right _ _), hlocked.trans hlonger⟩
      | cons second rest =>
        have hsupports := (List.isChain_cons_cons.mp htower.chain).1
        have hless := hsupports.confirmationCount_lt
        rw [List.cons_append, confirmed, List.head?_cons, Option.mem_some_iff] at hnext
        subst hnext
        refine ⟨hsupports.slot_lt, ?_, hsupports.locked.trans hlonger⟩
        change max second.confirmationCount ((rest ++ [Lockout.new slot]).length + 1) <
          max vote.confirmationCount ((second :: rest).length + 1 + 1)
        rw [List.length_cons, List.length_append, List.length_singleton]
        exact max_lt_max hless (Nat.lt_succ_self _)

/-- Popping expired votes leaves those of a tower up to one that is locked out. -/
theorem popExpiredVotes_eq (state : VoteState) (slot : Slot) :
    ∃ expired, state.votes = (state.popExpiredVotes slot).votes ++ expired ∧
      (∀ vote ∈ expired, vote.lastLockedOutSlot < slot) ∧
      ∀ last ∈ (state.popExpiredVotes slot).votes.getLast?, slot ≤ last.lastLockedOutSlot := by
  refine ⟨_, List.rdropWhile_append_rtakeWhile.symm, fun vote hvote ↦ ?_, fun last hlast ↦ ?_⟩
  · have hpopped := List.mem_rtakeWhile_imp hvote
    exact not_le.mp (of_decide_eq_false (Bool.not_eq_true' _ ▸ hpopped))
  · obtain ⟨hne, rfl⟩ := List.mem_getLast?_eq_getLast hlast
    have hlocked := List.rdropWhile_last_not _ _ hne
    rw [Bool.not_eq_true', Bool.not_eq_false] at hlocked
    exact of_decide_eq_true hlocked

/-- Popping the root of a full tower leaves the rest of it. -/
theorem popRoot_eq {state : VoteState} (htower : Tower state.votes) (epoch : Epoch) :
    ∃ rooted, state.votes = rooted ++ (state.popRoot epoch).votes ∧
      (state.popRoot epoch).votes.length < maxLockoutHistory ∧
      (rooted = [] ∧ (state.popRoot epoch).rootSlot = state.rootSlot ∨
        ∃ vote, rooted = [vote] ∧ (state.popRoot epoch).rootSlot = some vote.slot) := by
  have hlength := htower.length_le
  cases hvotes : state.votes with
  | nil =>
    have hpop : state.popRoot epoch = state := by rw [VoteState.popRoot, hvotes]
    rw [hpop, hvotes]
    exact ⟨[], rfl, Nat.succ_pos 30, Or.inl ⟨rfl, rfl⟩⟩
  | cons vote rest =>
    rw [hvotes] at hlength
    by_cases hfull : state.votes.length = maxLockoutHistory
    · have hpop : state.popRoot epoch =
          { state with votes := rest, rootSlot := some vote.slot }.incrementCredits epoch 1 := by
        rw [VoteState.popRoot, hvotes]
        exact if_pos (hvotes ▸ hfull)
      rw [hpop]
      rw [hvotes, List.length_cons] at hfull
      exact ⟨[vote], rfl, Nat.lt_of_succ_le hfull.le, Or.inr ⟨vote, rfl, rfl⟩⟩
    · have hpop : state.popRoot epoch = state := by
        rw [VoteState.popRoot, hvotes]
        exact if_neg (hvotes ▸ hfull)
      rw [hpop, hvotes]
      exact ⟨[], rfl, lt_of_le_of_ne hlength (hvotes ▸ hfull), Or.inl ⟨rfl, rfl⟩⟩

/-- What adding a slot comes to: the tower is its first vote, if it is full, the votes that are kept, and votes whose
lockouts have expired. -/
theorem processNextVoteSlot_eq {state : VoteState} (htower : Tower state.votes) {slot : Slot} (epoch : Epoch)
    (hlater : ∀ last ∈ state.lastVotedSlot, last < slot) :
    ∃ rooted kept expired, state.votes = rooted ++ kept ++ expired ∧
      (∀ vote ∈ expired, vote.lastLockedOutSlot < slot) ∧
      (∀ last ∈ kept.getLast?, slot ≤ last.lastLockedOutSlot) ∧ kept.length < maxLockoutHistory ∧
      (rooted = [] ∧ (state.processNextVoteSlot slot epoch).rootSlot = state.rootSlot ∨
        ∃ vote, rooted = [vote] ∧ (state.processNextVoteSlot slot epoch).rootSlot = some vote.slot) ∧
      (state.processNextVoteSlot slot epoch).votes = confirmed (kept ++ [Lockout.new slot]) := by
  have hnot : ¬ (state.lastVotedSlot.any fun last ↦ slot ≤ last) := by
    rw [Option.any_eq_true]
    rintro ⟨last, hlast, hle⟩
    exact (hlater last hlast).not_ge (of_decide_eq_true hle)
  rw [VoteState.processNextVoteSlot, if_neg hnot]
  obtain ⟨expired, hvotes, hexpired, hlocked⟩ := popExpiredVotes_eq state slot
  have htower' : Tower (state.popExpiredVotes slot).votes :=
    htower.of_isInfix ⟨[], expired, hvotes.symm⟩
  obtain ⟨rooted, hkept, hlength, hroot⟩ := popRoot_eq htower' epoch
  have hpart : ((state.popExpiredVotes slot).popRoot epoch).votes <:+: (state.popExpiredVotes slot).votes :=
    ⟨rooted, [], by rw [List.append_nil]; exact hkept.symm⟩
  rw [doubleLockouts_pushVote (htower'.of_isInfix hpart)]
  refine ⟨rooted, _, expired, by rw [← hkept]; exact hvotes, hexpired, fun last hlast ↦ hlocked last ?_, hlength,
    hroot, rfl⟩
  rw [hkept, List.getLast?_append, Option.mem_def, Option.or_eq_some_iff]
  exact Or.inl hlast

/-! ### Sound states -/

/-- A state with a tower whose votes are behind the root, unless that is the slot zero. -/
structure VoteState.Sound (state : VoteState) : Prop where
  tower : Tower state.votes
  votes_ne_nil : state.rootSlot ≠ none → state.votes ≠ []
  root_lt : ∀ root ∈ state.rootSlot, root = 0 ∨ ∀ vote ∈ state.votes, root < vote.slot

/-- A state that has not rolled back its root or its last vote, and has only given up votes that are rooted or whose
lockouts have expired. -/
structure Respects (before after : VoteState) : Prop where
  root_le : ∀ root ∈ before.rootSlot, ∃ newRoot ∈ after.rootSlot, root ≤ newRoot
  last_le : ∀ last ∈ before.lastVotedSlot, ∃ newLast ∈ after.lastVotedSlot, last ≤ newLast
  kept : ∀ vote ∈ before.votes, (∃ root ∈ after.rootSlot, vote.slot ≤ root) ∨
    (∃ other ∈ after.votes, other.slot = vote.slot ∧ vote.confirmationCount ≤ other.confirmationCount) ∨
    ∃ other ∈ after.votes, vote.lastLockedOutSlot < other.slot

/-- A vote is locked out at its own slot. -/
theorem Lockout.Valid.slot_le {vote : Lockout} (hvalid : vote.Valid) : vote.slot ≤ vote.lastLockedOutSlot := by
  rw [lastLockedOutSlot_eq hvalid.inRange hvalid.le]
  exact Nat.le_add_right _ _

/-- A vote with more confirmations is locked out longer. -/
theorem Lockout.Valid.lastLockedOutSlot_mono {vote other : Lockout} (hvalid : vote.Valid) (hother : other.Valid)
    (hslot : other.slot = vote.slot) (hcount : vote.confirmationCount ≤ other.confirmationCount) :
    vote.lastLockedOutSlot ≤ other.lastLockedOutSlot := by
  rw [lastLockedOutSlot_eq hvalid.inRange hvalid.le, lastLockedOutSlot_eq hother.inRange hother.le, hslot]
  exact Nat.add_le_add_left (Nat.pow_le_pow_right Nat.two_pos hcount) _

namespace Respects

variable {before middle after : VoteState}

/-- A state respects itself. -/
theorem refl (state : VoteState) : Respects state state :=
  ⟨fun root hroot ↦ ⟨root, hroot, le_rfl⟩, fun last hlast ↦ ⟨last, hlast, le_rfl⟩,
    fun vote hvote ↦ Or.inr (Or.inl ⟨vote, hvote, rfl, le_rfl⟩)⟩

/-- States that are respected one after another are all respected by the last one. -/
theorem trans (hbefore : before.Sound) (hmiddle : middle.Sound) (hfirst : Respects before middle)
    (hsecond : Respects middle after) : Respects before after := by
  refine ⟨fun root hroot ↦ ?_, fun last hlast ↦ ?_, fun vote hvote ↦ ?_⟩
  · obtain ⟨newRoot, hnewRoot, hle⟩ := hfirst.root_le root hroot
    obtain ⟨lastRoot, hlastRoot, hle'⟩ := hsecond.root_le newRoot hnewRoot
    exact ⟨lastRoot, hlastRoot, hle.trans hle'⟩
  · obtain ⟨newLast, hnewLast, hle⟩ := hfirst.last_le last hlast
    obtain ⟨final, hfinal, hle'⟩ := hsecond.last_le newLast hnewLast
    exact ⟨final, hfinal, hle.trans hle'⟩
  · have hvalid := hbefore.tower.valid vote hvote
    rcases hfirst.kept vote hvote with ⟨root, hroot, hle⟩ | ⟨other, hother, hslot, hcount⟩ | ⟨other, hother, hexpired⟩
    · obtain ⟨newRoot, hnewRoot, hle'⟩ := hsecond.root_le root hroot
      exact Or.inl ⟨newRoot, hnewRoot, hle.trans hle'⟩
    · have hlonger := hvalid.lastLockedOutSlot_mono (hmiddle.tower.valid other hother) hslot hcount
      rcases hsecond.kept other hother with ⟨root, hroot, hle⟩ | ⟨last, hlast, hslot', hcount'⟩ | ⟨last, hlast, hlt⟩
      · exact Or.inl ⟨root, hroot, hslot ▸ hle⟩
      · exact Or.inr (Or.inl ⟨last, hlast, hslot'.trans hslot, hcount.trans hcount'⟩)
      · exact Or.inr (Or.inr ⟨last, hlast, hlonger.trans_lt hlt⟩)
    · rcases hsecond.kept other hother with ⟨root, hroot, hle⟩ | ⟨last, hlast, hslot', -⟩ | ⟨last, hlast, hlt⟩
      · exact Or.inl ⟨root, hroot, (hvalid.slot_le.trans hexpired.le).trans hle⟩
      · exact Or.inr (Or.inr ⟨last, hlast, hslot' ▸ hexpired⟩)
      · exact Or.inr (Or.inr ⟨last, hlast,
          (hexpired.trans_le (hmiddle.tower.valid other hother).slot_le).trans hlt⟩)

end Respects

/-- The last slot that has been voted for, in the list of the slots. -/
theorem lastVotedSlot_eq (state : VoteState) : state.lastVotedSlot = (state.votes.map Lockout.slot).getLast? :=
  (List.getLast?_map ..).symm

/-- The last vote of a tower has the greatest slot. -/
theorem slot_le_lastVotedSlot {state : VoteState} (htower : Tower state.votes) {vote : Lockout}
    (hvote : vote ∈ state.votes) : ∃ last ∈ state.lastVotedSlot, vote.slot ≤ last := by
  have hne := List.ne_nil_of_mem hvote
  refine ⟨(state.votes.getLast hne).slot, ?_, ?_⟩
  · rw [VoteState.lastVotedSlot, List.getLast?_eq_some_getLast hne]
    rfl
  · rcases eq_or_ne vote (state.votes.getLast hne) with heq | hother
    · exact heq ▸ le_rfl
    · have hfront := List.mem_dropLast_of_mem_of_ne_getLast hvote hother
      exact (htower.pairwise_slot.rel_dropLast_getLast hfront).le

/-- Slots that have been voted for before are so in a state that respects the one before. -/
theorem Respects.voted {before after : VoteState} (hrespects : Respects before after) {property : Slot → Prop}
    {slots : List Slot} (hslots : ∀ slot ∈ slots, property slot ∨ ∃ last ∈ before.lastVotedSlot, slot ≤ last) :
    ∀ slot ∈ slots, property slot ∨ ∃ last ∈ after.lastVotedSlot, slot ≤ last := by
  intro slot hslot
  refine (hslots slot hslot).imp_right ?_
  rintro ⟨last, hlast, hle⟩
  obtain ⟨newLast, hnewLast, hle'⟩ := hrespects.last_le last hlast
  exact ⟨newLast, hnewLast, hle.trans hle'⟩

/-- Adding a slot leaves a state sound, and respects the one before. -/
theorem sound_processNextVoteSlot {state : VoteState} (hsound : state.Sound) {slot : Slot}
    (hvalid : Slot.InRange slot ∨ ∃ last ∈ state.lastVotedSlot, slot ≤ last) (epoch : Epoch) :
    (state.processNextVoteSlot slot epoch).Sound ∧ Respects state (state.processNextVoteSlot slot epoch) := by
  by_cases hlater : ∀ last ∈ state.lastVotedSlot, last < slot
  swap
  · have hany : state.lastVotedSlot.any fun last ↦ slot ≤ last := by
      push Not at hlater
      obtain ⟨last, hlast, hle⟩ := hlater
      rw [hlast, Option.any_some]
      exact decide_eq_true hle
    rw [VoteState.processNextVoteSlot, if_pos hany]
    exact ⟨hsound, .refl state⟩
  have hrange : Slot.InRange slot := hvalid.resolve_right (by
    rintro ⟨last, hlast, hle⟩
    exact (hlater last hlast).not_ge hle)
  obtain ⟨rooted, kept, expired, hvotes, hexpired, hlocked, hlength, hrooted, hafter⟩ :=
    processNextVoteSlot_eq hsound.tower epoch hlater
  have hbefore : ∀ vote ∈ state.votes, vote.slot < slot := by
    intro vote hvote
    obtain ⟨last, hlast, hle⟩ := slot_le_lastVotedSlot hsound.tower hvote
    exact hle.trans_lt (hlater last hlast)
  have hkept : kept <:+: state.votes := ⟨rooted, expired, hvotes.symm⟩
  have htower := tower_confirmed (hsound.tower.of_isInfix hkept) hlength hrange fun last hlast ↦
    ⟨hbefore last (hkept.subset (List.mem_of_mem_getLast? hlast)), hlocked last hlast⟩
  rw [← hafter] at htower
  have hslots : ∀ vote ∈ (state.processNextVoteSlot slot epoch).votes,
      vote.slot = slot ∨ ∃ other ∈ kept, other.slot = vote.slot := by
    intro vote hvote
    have hslot := List.mem_map_of_mem (f := Lockout.slot) hvote
    rw [hafter, map_slot_confirmed, List.map_append, List.mem_append, List.mem_map] at hslot
    exact hslot.symm.imp_left List.mem_singleton.mp
  obtain ⟨newest, hnewest, hslot, -⟩ :=
    exists_confirmed (List.mem_append_right kept (List.mem_singleton.mpr (Eq.refl (Lockout.new slot))))
  rw [← hafter] at hnewest
  have hlast : (state.processNextVoteSlot slot epoch).lastVotedSlot = some slot := by
    rw [lastVotedSlot_eq, hafter, map_slot_confirmed, List.map_append, List.map_singleton, List.getLast?_concat]
    rfl
  have hrooted' : ∀ root ∈ (state.processNextVoteSlot slot epoch).rootSlot,
      (root = 0 ∨ root < slot ∧ ∀ vote ∈ kept, root < vote.slot) ∧ ∀ old ∈ state.rootSlot, old ≤ root := by
    intro root hroot
    rcases hrooted with ⟨-, hsame⟩ | ⟨vote, rfl, hnew⟩
    · rw [hsame] at hroot
      refine ⟨(hsound.root_lt root hroot).imp_right fun hlt ↦ ⟨?_, fun vote hvote ↦ hlt vote (hkept.subset hvote)⟩,
        fun old hold ↦ (Option.mem_unique hold hroot).le⟩
      obtain ⟨vote, hvote⟩ := List.exists_mem_of_ne_nil _
        (hsound.votes_ne_nil fun hnone ↦ Option.some_ne_none root (hroot.symm.trans hnone))
      exact (hlt vote hvote).trans (hbefore vote hvote)
    · rw [hnew, Option.mem_some_iff] at hroot
      subst hroot
      have hpopped : vote ∈ state.votes := hvotes ▸ List.mem_cons_self
      have hordered := hsound.tower.pairwise_slot
      rw [hvotes, List.append_assoc, List.singleton_append, List.pairwise_cons] at hordered
      refine ⟨Or.inr ⟨hbefore vote hpopped, fun other hother ↦ hordered.1 other (List.mem_append_left _ hother)⟩,
        fun old hold ↦ ?_⟩
      rcases hsound.root_lt old hold with rfl | hlt
      · exact Nat.zero_le _
      · exact (hlt vote hpopped).le
  refine ⟨⟨htower, fun _ ↦ List.ne_nil_of_mem hnewest, fun root hroot ↦
      (hrooted' root hroot).1.imp_right fun hlt vote hvote ↦ ?_⟩,
    fun root hroot ↦ ?_, fun last hmem ↦ ⟨slot, hlast, (hlater last hmem).le⟩, fun vote hvote ↦ ?_⟩
  · rcases hslots vote hvote with heq | ⟨other, hother, heq⟩
    · exact heq ▸ hlt.1
    · exact heq ▸ hlt.2 other hother
  · rcases hrooted with ⟨-, hsame⟩ | ⟨vote, -, hnew⟩
    · exact ⟨root, hsame.trans hroot, le_rfl⟩
    · exact ⟨vote.slot, hnew, (hrooted' vote.slot hnew).2 root hroot⟩
  · rw [hvotes, List.append_assoc, List.mem_append, List.mem_append] at hvote
    rcases hvote with hpopped | hmem | hgone
    · rcases hrooted with ⟨rfl, -⟩ | ⟨root, rfl, hnew⟩
      · exact absurd hpopped List.not_mem_nil
      · exact Or.inl ⟨root.slot, hnew, (List.mem_singleton.mp hpopped ▸ le_rfl)⟩
    · obtain ⟨other, hother, hsame⟩ := exists_confirmed (List.mem_append_left [Lockout.new slot] hmem)
      exact Or.inr (Or.inl ⟨other, hafter ▸ hother, hsame⟩)
    · exact Or.inr (Or.inr ⟨newest, hnewest, hslot ▸ hexpired vote hgone⟩)

/-- Adding slots one by one leaves a state sound, and respects the one before. -/
theorem sound_foldl_processNextVoteSlot {state : VoteState} (hsound : state.Sound) {slots : List Slot}
    (hrange : ∀ slot ∈ slots, Slot.InRange slot ∨ ∃ last ∈ state.lastVotedSlot, slot ≤ last) (epoch : Epoch) :
    (slots.foldl (fun state slot ↦ state.processNextVoteSlot slot epoch) state).Sound ∧
      Respects state (slots.foldl (fun state slot ↦ state.processNextVoteSlot slot epoch) state) := by
  induction slots generalizing state with
  | nil => exact ⟨hsound, .refl state⟩
  | cons slot slots ih =>
    rw [List.forall_mem_cons] at hrange
    obtain ⟨hstep, hrespects⟩ := sound_processNextVoteSlot hsound hrange.1 epoch
    obtain ⟨hfinal, hrest⟩ := ih hstep (hrespects.voted hrange.2)
    exact ⟨hfinal, hrespects.trans hsound hstep hrest⟩

end Playground.VoteProgram
