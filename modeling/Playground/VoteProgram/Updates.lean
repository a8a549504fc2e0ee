import Playground.VoteProgram.Tower

/-!
# Vote state updates

A vote state update proposes a whole tower. `checkUpdateVoteStateSlotsAreValid` goes through it and the slots of the
bank at once: what it lets through are votes for slots that the bank knows or the tower had (`Known`), the last of
which is in the bank and behind the last vote of the tower, and none of its assertions fails
(`checkUpdateVoteStateSlotsAreValid_spec`).

`processNewVoteState` accepts exactly the proposed towers that its comment describes (`processNewVoteState_eq_ok_iff`):
they are well ordered, with lockouts that reach from each vote to the next, do not roll back the root, and keep every
vote of the current tower behind the new root with no fewer confirmations, unless its lockout has expired at the first
proposed vote behind it (`NotRolledBack`).
-/

set_option autoImplicit false
set_option relaxedAutoImplicit false

namespace Playground.VoteProgram

open Library

namespace VoteState

/-! ### The slots of a vote -/

/-- What the loop of `findSlots` has found out about the slots from one index to another, while it went from one index
in the slots of the bank to another: each of them has been voted for before or is in the bank. The last one that has
not been voted for is at the index in the slots of the bank. -/
structure FoundSlots (lastVotedSlot : Option Slot) (voteSlots : List Slot) (slotHashes : SlotHashes)
    (first start last stop : ℕ) : Prop where
  stop_le : stop ≤ start
  known : ∀ i slot, first ≤ i → i < last → voteSlots[i]? = some slot →
    (lastVotedSlot.any fun lastVotedSlot ↦ slot ≤ lastVotedSlot) ∨ slot ∈ slotHashes.map Prod.fst
  voted : stop = start → ∀ i slot, first ≤ i → i < last → voteSlots[i]? = some slot →
    lastVotedSlot.any fun lastVotedSlot ↦ slot ≤ lastVotedSlot
  matched : last = voteSlots.length → stop < start → ∃ slot ∈ voteSlots,
    slotHashes[stop]?.map Prod.fst = some slot ∧ ¬ lastVotedSlot.any fun lastVotedSlot ↦ slot ≤ lastVotedSlot

/-- A property of a slot and of those behind it. -/
theorem forall_index_step {voteSlots : List Slot} {first last : ℕ} {slot : Slot} {property : Slot → Prop}
    (hslot : voteSlots[first]? = some slot) (hfirst : property slot)
    (hrest : ∀ i other, first + 1 ≤ i → i < last → voteSlots[i]? = some other → property other) :
    ∀ i other, first ≤ i → i < last → voteSlots[i]? = some other → property other := by
  intro i other hle hlt hother
  rcases hle.eq_or_lt with rfl | hle
  · rw [hslot, Option.some.injEq] at hother
    exact hother ▸ hfirst
  · exact hrest i other hle hlt hother

/-- The loop of `findSlots` finds out as much. -/
theorem foundSlots_findSlots (lastVotedSlot : Option Slot) (voteSlots : List Slot) (slotHashes : SlotHashes)
    (i j : ℕ) :
    FoundSlots lastVotedSlot voteSlots slotHashes i j (findSlots lastVotedSlot voteSlots slotHashes i j).1
      (findSlots lastVotedSlot voteSlots slotHashes i j).2 := by
  fun_induction findSlots lastVotedSlot voteSlots slotHashes i j with
  | case1 i j hgo hvoted ih =>
    have hslot := List.getElem?_eq_getElem hgo.1
    simp only [hslot, Option.any_some] at hvoted
    exact ⟨ih.stop_le, forall_index_step hslot (Or.inl hvoted) ih.known,
      fun hstop ↦ forall_index_step hslot hvoted (ih.voted hstop), ih.matched⟩
  | case2 i j hgo hnew _ ih =>
    have hslot := List.getElem?_eq_getElem hgo.1
    simp only [hslot, Option.any_some] at hnew
    have hless : j - 1 < j := Nat.sub_lt hgo.2 Nat.one_pos
    refine ⟨ih.stop_le.trans hless.le, ih.known, fun hstop ↦ absurd hstop (ih.stop_le.trans_lt hless).ne,
      fun hlast hstop ↦ ?_⟩
    rcases ih.stop_le.eq_or_lt with heq | hlt
    · exact absurd (ih.voted heq i _ le_rfl (hlast ▸ hgo.1) hslot) hnew
    · exact ih.matched hlast hlt
  | case3 i j hgo hnew hsame ih =>
    have hslot := List.getElem?_eq_getElem hgo.1
    simp only [hslot, Option.any_some] at hnew
    rw [not_not, hslot, eq_comm, Option.map_eq_some_iff] at hsame
    obtain ⟨entry, hentry, heq⟩ := hsame
    have hless : j - 1 < j := Nat.sub_lt hgo.2 Nat.one_pos
    refine ⟨ih.stop_le.trans hless.le, forall_index_step hslot (Or.inr ?_) ih.known,
      fun hstop ↦ absurd hstop (ih.stop_le.trans_lt hless).ne, fun hlast hstop ↦ ?_⟩
    · exact heq ▸ List.mem_map_of_mem (List.mem_of_getElem? hentry)
    · rcases ih.stop_le.eq_or_lt with hstop | hlt
      · exact ⟨voteSlots[i], List.getElem_mem _, by rw [hstop, hentry, Option.map_some, heq], hnew⟩
      · exact ih.matched hlast hlt
  | case4 i j hend =>
    exact ⟨le_rfl, fun _ _ hle hlt ↦ absurd hle hlt.not_ge, fun _ _ _ hle hlt ↦ absurd hle hlt.not_ge,
      fun _ hlt ↦ absurd hlt (lt_irrefl j)⟩

/-- What the slots of a vote come to: each of them has been voted for before or is in the bank, and one that has not
been voted for is in the bank with the hash of the vote. -/
structure VerifiedSlots (state : VoteState) (slotHashes : SlotHashes) (hash : Hash) (slots : List Slot) : Prop where
  known : ∀ slot ∈ slots, slot ∈ slotHashes.map Prod.fst ∨ ∃ last ∈ state.lastVotedSlot, slot ≤ last
  newest : ∃ slot ∈ slots, (slot, hash) ∈ slotHashes ∧ ∀ last ∈ state.lastVotedSlot, last < slot

/-- Checking the slots of a vote does not panic, and those that it lets through have been verified. -/
theorem checkSlotsAreValid_spec (state : VoteState) (voteSlots : List Slot) (hash : Hash) (slotHashes : SlotHashes) :
    state.checkSlotsAreValid voteSlots hash slotHashes ≠ .panic ∧
      (state.checkSlotsAreValid voteSlots hash slotHashes = .ok () →
        VerifiedSlots state slotHashes hash voteSlots) := by
  have hfound := foundSlots_findSlots state.lastVotedSlot voteSlots slotHashes 0 slotHashes.length
  have hvoted : ∀ slot, (state.lastVotedSlot.any fun last ↦ slot ≤ last) = true ↔
      ∃ last ∈ state.lastVotedSlot, slot ≤ last := fun slot ↦
    (Option.any_eq_true _ _).trans (exists_congr fun last ↦ and_congr_right fun _ ↦ decide_eq_true_iff)
  rw [checkSlotsAreValid]
  generalize findSlots state.lastVotedSlot voteSlots slotHashes 0 slotHashes.length = result at hfound
  obtain ⟨i, j⟩ := result
  by_cases hstart : j = slotHashes.length
  · simp only [hstart, if_true]
    exact ⟨by rintro ⟨⟩, by rintro ⟨⟩⟩
  by_cases hall : i = voteSlots.length
  swap
  · simp only [hstart, if_false, hall, ne_eq, not_false_eq_true, if_true]
    exact ⟨by rintro ⟨⟩, by rintro ⟨⟩⟩
  subst hall
  have hlt : j < slotHashes.length := lt_of_le_of_ne hfound.stop_le hstart
  obtain ⟨slot, hmem, hslot, hnew⟩ := hfound.matched rfl hlt
  rw [List.getElem?_eq_getElem hlt, Option.map_some, Option.some.injEq] at hslot
  simp only [hstart, if_false, ne_eq, not_true_eq_false, List.getElem?_eq_getElem hlt]
  by_cases hhash : slotHashes[j].2 = hash
  · simp only [hhash, not_true_eq_false, if_false]
    refine ⟨by rintro ⟨⟩, fun _ ↦ ⟨fun other hother ↦ ?_, slot, hmem, ?_, fun last hlast ↦ not_le.mp fun hle ↦ ?_⟩⟩
    · obtain ⟨i, hi⟩ := List.mem_iff_getElem?.mp hother
      rw [← hvoted]
      exact (hfound.known i other (Nat.zero_le i) (List.getElem?_eq_some_iff.mp hi).1 hi).symm
    · rw [← hslot, ← hhash]
      exact List.getElem_mem hlt
    · exact hnew ((hvoted slot).mpr ⟨last, hlast, hle⟩)
  · simp only [hhash, not_false_eq_true, if_true]
    exact ⟨by rintro ⟨⟩, by rintro ⟨⟩⟩

/-- A vote does not panic, and one that is accepted adds slots to the tower that have been verified. -/
theorem processVote_spec (state : VoteState) (vote : Vote) (slotHashes : SlotHashes) (epoch : Epoch)
    (featureSet : Option FeatureSet) :
    (∃ error, state.processVote vote slotHashes epoch featureSet = .err error) ∨
      ∃ slots, slots.Sublist vote.slots ∧ VerifiedSlots state slotHashes vote.hash slots ∧
        state.processVote vote slotHashes epoch featureSet =
          .ok (slots.foldl (fun state slot ↦ state.processNextVoteSlot slot epoch) state) := by
  rw [processVote]
  by_cases hempty : vote.slots = []
  · exact Or.inl ⟨.emptySlots, if_pos hempty⟩
  by_cases hfiltered : filteredVoteSlots vote slotHashes featureSet = []
  · exact Or.inl ⟨.votesTooOldAllFiltered, by rw [if_neg hempty, if_pos hfiltered]⟩
  rw [if_neg hempty, if_neg hfiltered]
  have hsublist : (filteredVoteSlots vote slotHashes featureSet).Sublist vote.slots := by
    rw [filteredVoteSlots]
    split_ifs
    · exact List.filter_sublist
    · exact .refl _
  obtain ⟨hpanic, hverified⟩ :=
    state.checkSlotsAreValid_spec (filteredVoteSlots vote slotHashes featureSet) vote.hash slotHashes
  cases hcheck : state.checkSlotsAreValid (filteredVoteSlots vote slotHashes featureSet) vote.hash slotHashes with
  | panic => exact absurd hcheck hpanic
  | err error => exact Or.inl ⟨error, rfl⟩
  | ok => exact Or.inr ⟨_, hsublist, hverified hcheck, rfl⟩

/-! ### The slots of an update -/

/-- A slot that the bank knows, or that is in the tower. -/
def Known (state : VoteState) (slotHashes : SlotHashes) (slot : Slot) : Prop :=
  slot ∈ slotHashes.map Prod.fst ∨ slot ∈ state.votes.map Lockout.slot

/-- The tower contains a slot if it has a vote for it. -/
theorem containsSlot_iff {state : VoteState} {slot : Slot} :
    state.containsSlot slot = true ↔ slot ∈ state.votes.map Lockout.slot := by
  rw [containsSlot, List.any_eq_true, List.mem_map]
  exact exists_congr fun vote ↦ and_congr_right fun _ ↦ decide_eq_true_iff

/-- What the loop of `checkProposedSlots` has found out about the votes from one index to another, while it went from
one index in the slots of the bank to another: the votes to be filtered are older than all that the bank knows, the
others are known, and the last one, once it has been reached, is at the index in the slots of the bank or older than
all of them. So is the root that it looked for before all of them. -/
structure Checked (state : VoteState) (lockouts : List Lockout) (slotHashes : SlotHashes) (earliest : Slot)
    (checkRoot : Option Slot) (first last start stop : ℕ) (toFilter : List ℕ) : Prop where
  first_le : first ≤ last
  stays : first = lockouts.length → stop = start
  root : first < last → ∀ root ∈ checkRoot, root < earliest ∨ root ∈ slotHashes.map Prod.fst
  sorted : toFilter.Pairwise (· < ·)
  filtered : ∀ i ∈ toFilter, first ≤ i ∧ ∃ vote ∈ lockouts[i]?, vote.slot < earliest
  known : ∀ i vote, first ≤ i → i < last → lockouts[i]? = some vote → i ∉ toFilter →
    state.Known slotHashes vote.slot
  found : first < last → last = lockouts.length → ∀ vote ∈ lockouts.getLast?,
    vote.slot < earliest ∨ slotHashes[stop]?.map Prod.fst = some vote.slot

namespace Checked

variable {state : VoteState} {lockouts : List Lockout} {slotHashes : SlotHashes} {earliest : Slot}
  {checkRoot : Option Slot} {first last start next stop : ℕ} {toFilter : List ℕ} {vote : Lockout}

/-- Nothing has been looked at. -/
theorem refl (first start : ℕ) : Checked state lockouts slotHashes earliest checkRoot first first start start [] :=
  ⟨le_rfl, fun _ ↦ rfl, fun hlt ↦ absurd hlt (lt_irrefl first), .nil, fun _ hi ↦ absurd hi List.not_mem_nil,
    fun _ _ hle hlt ↦ absurd hle hlt.not_ge, fun hlt ↦ absurd hlt (lt_irrefl first)⟩

/-- The slots of the bank that are passed before the last vote make no difference. -/
theorem pass (hchecked : Checked state lockouts slotHashes earliest checkRoot first last next stop toFilter)
    (hfirst : first < lockouts.length) :
    Checked state lockouts slotHashes earliest checkRoot first last start stop toFilter :=
  ⟨hchecked.first_le, fun heq ↦ absurd heq hfirst.ne, hchecked.root, hchecked.sorted, hchecked.filtered,
    hchecked.known, hchecked.found⟩

/-- A root that is not looked for any more. -/
theorem pass_root (hchecked : Checked state lockouts slotHashes earliest none first last start stop toFilter)
    (hroot : ∀ root ∈ checkRoot, root < earliest ∨ root ∈ slotHashes.map Prod.fst) :
    Checked state lockouts slotHashes earliest checkRoot first last start stop toFilter :=
  ⟨hchecked.first_le, hchecked.stays, fun _ ↦ hroot, hchecked.sorted, hchecked.filtered, hchecked.known,
    hchecked.found⟩

/-- What is known of the last vote when one more vote before the others is looked at. -/
theorem found_step (hchecked : Checked state lockouts slotHashes earliest none (first + 1) last next stop toFilter)
    (hvote : lockouts[first]? = some vote)
    (hfound : vote.slot < earliest ∨ slotHashes[next]?.map Prod.fst = some vote.slot)
    (hlast : last = lockouts.length) {other : Lockout} (hother : other ∈ lockouts.getLast?) :
    other.slot < earliest ∨ slotHashes[stop]?.map Prod.fst = some other.slot := by
  rcases hchecked.first_le.eq_or_lt with heq | hlt
  · rw [List.getLast?_eq_getElem?, ← hlast, ← heq, Nat.add_sub_cancel, hvote, Option.mem_some_iff] at hother
    rw [hchecked.stays (heq.trans hlast)]
    exact hother ▸ hfound
  · exact hchecked.found hlt hlast other hother

/-- One more vote that is not to be filtered. -/
theorem step (hchecked : Checked state lockouts slotHashes earliest none (first + 1) last next stop toFilter)
    (hvote : lockouts[first]? = some vote) (hknown : state.Known slotHashes vote.slot)
    (hfound : vote.slot < earliest ∨ slotHashes[next]?.map Prod.fst = some vote.slot) :
    Checked state lockouts slotHashes earliest none first last start stop toFilter := by
  have hfirst := (List.getElem?_eq_some_iff.mp hvote).1
  refine ⟨(Nat.le_succ first).trans hchecked.first_le, fun heq ↦ absurd heq hfirst.ne,
    fun _ root hroot ↦ absurd hroot (Option.not_mem_none root), hchecked.sorted, fun i hi ↦ ?_,
    fun i other hle hlast hi hnot ↦ ?_, fun _ hlast other ↦ hchecked.found_step hvote hfound hlast⟩
  · exact (hchecked.filtered i hi).imp_left (Nat.le_succ first).trans
  · rcases hle.eq_or_lt with rfl | hlt
    · rw [hvote, Option.some.injEq] at hi
      exact hi ▸ hknown
    · exact hchecked.known i other hlt hlast hi hnot

/-- One more vote that is to be filtered. -/
theorem step_filter (hchecked : Checked state lockouts slotHashes earliest none (first + 1) last next stop toFilter)
    (hvote : lockouts[first]? = some vote) (holder : vote.slot < earliest) :
    Checked state lockouts slotHashes earliest none first last start stop (first :: toFilter) := by
  have hfirst := (List.getElem?_eq_some_iff.mp hvote).1
  refine ⟨(Nat.le_succ first).trans hchecked.first_le, fun heq ↦ absurd heq hfirst.ne,
    fun _ root hroot ↦ absurd hroot (Option.not_mem_none root),
    List.pairwise_cons.mpr ⟨fun i hi ↦ (hchecked.filtered i hi).1, hchecked.sorted⟩,
    List.forall_mem_cons.mpr ⟨⟨le_rfl, vote, hvote, holder⟩, fun i hi ↦ ?_⟩, fun i other hle hlast hi hnot ↦ ?_,
    fun _ hlast other ↦ hchecked.found_step hvote (Or.inl holder) hlast⟩
  · exact (hchecked.filtered i hi).imp_left (Nat.le_succ first).trans
  · rw [List.mem_cons, not_or] at hnot
    exact hchecked.known i other (lt_of_le_of_ne hle (Ne.symm hnot.1)) hlast hi hnot.2

end Checked

/-- What the loop of `checkProposedSlots` comes to: it does not panic, and what it lets through has been checked. -/
def LetsThrough (state : VoteState) (lockouts : List Lockout) (slotHashes : SlotHashes) (earliest : Slot)
    (checkRoot : Option Slot) (first start : ℕ) (toFilter : List ℕ) : Outcome VoteError (ℕ × ℕ × List ℕ) → Prop
  | .ok (last, stop, result) => ∃ more, result = toFilter ++ more ∧
      Checked state lockouts slotHashes earliest checkRoot first last start stop more
  | .err _ => True
  | .panic => False

/-- What comes of going on with one more vote. -/
theorem LetsThrough.imp {state : VoteState} {lockouts : List Lockout} {slotHashes : SlotHashes} {earliest : Slot}
    {checkRoot nextRoot : Option Slot} {first next start rest : ℕ} {toFilter : List ℕ} (now : List ℕ)
    {outcome : Outcome VoteError (ℕ × ℕ × List ℕ)}
    (hlets : LetsThrough state lockouts slotHashes earliest nextRoot next rest (toFilter ++ now) outcome)
    (hstep : ∀ last stop more, Checked state lockouts slotHashes earliest nextRoot next last rest stop more →
      Checked state lockouts slotHashes earliest checkRoot first last start stop (now ++ more)) :
    LetsThrough state lockouts slotHashes earliest checkRoot first start toFilter outcome := by
  cases outcome with
  | ok result =>
    obtain ⟨more, hresult, hchecked⟩ := hlets
    exact ⟨now ++ more, hresult.trans (List.append_assoc ..), hstep _ _ _ hchecked⟩
  | err error => trivial
  | panic => exact hlets

/-- The loop does not panic if the root that it looks for is that of the tower or not older than all that the bank
knows, and what it lets through has been checked. -/
theorem letsThrough_checkProposedSlots {state : VoteState} {lockouts : List Lockout} {slotHashes : SlotHashes}
    {earliest : Slot} (hearliest : slotHashes.getLast?.map Prod.fst = some earliest) {checkRoot : Option Slot}
    (hroot : ∀ root ∈ checkRoot, root < earliest → state.rootSlot.any (· < earliest)) {first slotHashesIndex : ℕ}
    (hindex : slotHashesIndex ≤ slotHashes.length) (toFilter : List ℕ) :
    LetsThrough state lockouts slotHashes earliest checkRoot first slotHashesIndex toFilter
      (state.checkProposedSlots lockouts slotHashes earliest checkRoot first slotHashesIndex toFilter) := by
  have hnone : ∀ root ∈ (none : Option Slot), root < earliest → state.rootSlot.any (· < earliest) :=
    fun root hmem ↦ absurd hmem (Option.not_mem_none root)
  have hoverall : ∀ slot hash, slotHashes[slotHashes.length - 1]? = some (slot, hash) → slot = earliest := by
    intro slot hash hslot
    rw [List.getLast?_eq_getElem?, hslot, Option.map_some, Option.some.injEq] at hearliest
    exact hearliest
  fun_induction state.checkProposedSlots lockouts slotHashes earliest checkRoot first slotHashesIndex toFilter with
  | case1 => trivial
  | case2 checkRoot first slotHashesIndex toFilter hgo _ _ hslot =>
    rw [List.getElem?_eq_none_iff] at hslot
    omega
  | case3 checkRoot first toFilter slot hash _ _ _ hslot hlt hassert =>
    exact absurd (hoverall slot hash hslot ▸ hlt) hassert
  | case4 first toFilter slot hash hgo hslot proposed _ hlt _ ih =>
    have hvote : lockouts[first]? = some lockouts[first] := List.getElem?_eq_getElem hgo.1
    have holder : lockouts[first].slot < earliest := hoverall slot hash hslot ▸ hlt
    have hrest := ih hnone le_rfl
    by_cases hcontains : state.containsSlot proposed
    · rw [dif_pos hcontains] at hrest
      rw [if_pos hcontains]
      exact LetsThrough.imp [] (by rwa [List.append_nil]) fun _ _ _ hchecked ↦
        hchecked.step hvote (Or.inr (containsSlot_iff.mp hcontains)) (Or.inl holder)
    · rw [dif_neg hcontains] at hrest
      rw [if_neg hcontains]
      exact LetsThrough.imp [first] hrest fun _ _ _ hchecked ↦ hchecked.step_filter hvote holder
  | case5 checkRoot first toFilter slot hash hsome hassert _ _ _ hslot hlt _ =>
    obtain ⟨root, rfl⟩ := Option.ne_none_iff_exists'.mp hsome
    exact absurd (hroot root rfl (hoverall slot hash hslot ▸ hlt)) hassert
  | case6 checkRoot first toFilter slot hash hsome _ _ _ _ hslot hlt _ ih =>
    obtain ⟨root, rfl⟩ := Option.ne_none_iff_exists'.mp hsome
    exact LetsThrough.imp [] (by rw [List.append_nil]; exact ih hnone hindex) fun _ _ _ hchecked ↦
      hchecked.pass_root fun other hother ↦ Or.inl
        (Option.mem_some_iff.mp hother ▸ hoverall slot hash hslot ▸ hlt : other < earliest)
  | case7 => trivial
  | case8 => trivial
  | case9 checkRoot first slotHashesIndex toFilter hgo _ _ _ _ _ _ _ ih =>
    have hrest := ih hroot ((Nat.sub_le _ _).trans hindex)
    exact LetsThrough.imp [] (by rwa [List.append_nil]) fun _ _ _ hchecked ↦ hchecked.pass hgo.1
  | case10 first slotHashesIndex toFilter hgo slot hash hslot proposed _ hle hge ih =>
    have hvote : lockouts[first]? = some lockouts[first] := List.getElem?_eq_getElem hgo.1
    have hsame : slot = lockouts[first].slot := le_antisymm (not_lt.mp hle) (not_lt.mp hge)
    have hrest := ih hnone ((Nat.sub_le _ _).trans hindex)
    refine LetsThrough.imp [] (by rwa [List.append_nil]) fun _ _ _ hchecked ↦
      hchecked.step hvote (Or.inl ?_) (Or.inr ?_)
    · exact hsame ▸ List.mem_map_of_mem (List.mem_of_getElem? hslot)
    · rw [hslot, Option.map_some, hsame]
  | case11 checkRoot first slotHashesIndex toFilter _ _ _ slot hash hslot hle hge hsome ih =>
    obtain ⟨root, rfl⟩ := Option.ne_none_iff_exists'.mp hsome
    refine LetsThrough.imp [] (by rw [List.append_nil]; exact ih hnone hindex) fun _ _ _ hchecked ↦
      hchecked.pass_root fun other hother ↦ Or.inr ?_
    have hsame : slot = root := le_antisymm (not_lt.mp hle) (not_lt.mp hge)
    rw [← Option.mem_some_iff.mp hother, ← hsame]
    exact List.mem_map_of_mem (List.mem_of_getElem? hslot)
  | case12 checkRoot first slotHashesIndex toFilter _ => exact ⟨[], (List.append_nil _).symm, .refl _ _⟩

/-! ### The votes that are kept -/

/-- Votes that are kept come in their order. -/
theorem retainVotes_sublist (toFilter : List ℕ) (index : ℕ) (lockouts : List Lockout) :
    (retainVotes toFilter index lockouts).Sublist lockouts := by
  fun_induction retainVotes toFilter index lockouts with
  | case1 => exact .slnil
  | case2 _ _ _ ih => exact ih.cons_cons _
  | case3 _ _ _ _ ih => exact ih.cons _
  | case4 _ _ _ _ _ _ ih => exact ih.cons_cons _

/-- The votes that are kept are those whose indices are not to be filtered. -/
theorem mem_retainVotes {toFilter : List ℕ} {index : ℕ} {lockouts : List Lockout} {vote : Lockout}
    (hsorted : toFilter.Pairwise (· < ·)) (hle : ∀ i ∈ toFilter, index ≤ i) :
    vote ∈ retainVotes toFilter index lockouts ↔ ∃ i, lockouts[i]? = some vote ∧ index + i ∉ toFilter := by
  have hcons : ∀ (first : Lockout) (rest : List Lockout) (index : ℕ) (toFilter : List ℕ),
      (∃ i, (first :: rest)[i]? = some vote ∧ index + i ∉ toFilter) ↔
        (vote = first ∧ index ∉ toFilter) ∨ ∃ i, rest[i]? = some vote ∧ index + 1 + i ∉ toFilter := by
    intro first rest index toFilter
    constructor
    · rintro ⟨i, hi, hnot⟩
      cases i with
      | zero => exact Or.inl ⟨(Option.some.inj hi).symm, hnot⟩
      | succ i => exact Or.inr ⟨i, hi, by rwa [Nat.add_assoc, Nat.add_comm 1]⟩
    · rintro (⟨rfl, hnot⟩ | ⟨i, hi, hnot⟩)
      · exact ⟨0, rfl, hnot⟩
      · exact ⟨i + 1, hi, by rwa [Nat.add_comm i, ← Nat.add_assoc]⟩
  fun_induction retainVotes toFilter index lockouts with
  | case1 =>
    refine iff_of_false List.not_mem_nil ?_
    rintro ⟨i, hi, -⟩
    cases hi
  | case2 index first rest ih =>
    rw [List.mem_cons, hcons]
    exact or_congr (iff_self_and.mpr fun _ ↦ List.not_mem_nil) (ih .nil fun i hi ↦ absurd hi List.not_mem_nil)
  | case3 toFilter index first rest ih =>
    rw [List.pairwise_cons] at hsorted
    have hrest : ∀ i, index + 1 + i ∉ toFilter ↔ index + 1 + i ∉ index :: toFilter := fun i ↦ by
      rw [List.mem_cons, not_or, iff_and_self]
      omega
    rw [hcons, or_iff_right fun h ↦ h.2 List.mem_cons_self]
    exact (ih hsorted.2 hsorted.1).trans (exists_congr fun i ↦ and_congr_right fun _ ↦ hrest i)
  | case4 filtered toFilter index first rest hne ih =>
    have hlt : ∀ i ∈ filtered :: toFilter, index + 1 ≤ i := by
      rw [List.pairwise_cons] at hsorted
      have hfirst := lt_of_le_of_ne (hle filtered List.mem_cons_self) hne
      rw [List.forall_mem_cons]
      exact ⟨hfirst, fun i hi ↦ Nat.succ_le_of_lt (hfirst.trans (hsorted.1 i hi))⟩
    rw [List.mem_cons, hcons]
    exact or_congr (iff_self_and.mpr fun _ hmem ↦ (hlt index hmem).not_gt (Nat.lt_succ_self index)) (ih hsorted hlt)

/-- The last vote is kept if its index is not to be filtered. -/
theorem getLast?_retainVotes {toFilter : List ℕ} {index : ℕ} {lockouts : List Lockout}
    (hlt : ∀ i ∈ toFilter, i + 1 < index + lockouts.length) :
    (retainVotes toFilter index lockouts).getLast? = lockouts.getLast? := by
  fun_induction retainVotes toFilter index lockouts with
  | case1 => rfl
  | case2 index first rest ih =>
    rw [List.getLast?_cons, List.getLast?_cons, ih fun i hi ↦ absurd hi List.not_mem_nil]
  | case3 toFilter index first rest ih =>
    have hrest : ∀ i ∈ toFilter, i + 1 < index + 1 + rest.length := fun i hi ↦ by
      have := hlt i (List.mem_cons_of_mem _ hi)
      rwa [List.length_cons, Nat.add_comm rest.length, ← Nat.add_assoc] at this
    have hne : rest ≠ [] := by
      rintro rfl
      exact (hlt index List.mem_cons_self).ne rfl
    rw [ih hrest, List.getLast?_cons, List.getLast?_eq_some_getLast hne]
    rfl
  | case4 filtered toFilter index first rest hne ih =>
    have hrest : ∀ i ∈ filtered :: toFilter, i + 1 < index + 1 + rest.length := fun i hi ↦ by
      have := hlt i hi
      rwa [List.length_cons, Nat.add_comm rest.length, ← Nat.add_assoc] at this
    rw [List.getLast?_cons, List.getLast?_cons, ih hrest]

/-- What is left of an update that has been checked: votes for known slots, the last of which is behind the last vote
of the tower and in the bank with the hash of the update, and a root that is known or that of the state. -/
structure Verified (state : VoteState) (slotHashes : SlotHashes) (update verified : VoteStateUpdate) : Prop where
  sublist : verified.lockouts.Sublist update.lockouts
  known : ∀ vote ∈ verified.lockouts, state.Known slotHashes vote.slot
  last : ∃ last ∈ verified.lockouts.getLast?, (last.slot, update.hash) ∈ slotHashes ∧
    ∀ lastVoteSlot ∈ state.lastVotedSlot, lastVoteSlot < last.slot
  root : ∀ root ∈ verified.root, state.rootSlot = some root ∨ root ∈ slotHashes.map Prod.fst
  timestamp : verified.timestamp = update.timestamp

/-- A tower that the loop has gone through to the end has been verified, once its last vote has been found. -/
theorem Checked.verified {state : VoteState} {update : VoteStateUpdate} {slotHashes : SlotHashes} {earliest : Slot}
    {root : Option Slot} {start stop : ℕ} {toFilter : List ℕ} {last : Lockout}
    (hchecked : Checked state update.lockouts slotHashes earliest root 0 update.lockouts.length start stop toFilter)
    (hlast : update.lockouts.getLast? = some last) (hnew : earliest ≤ last.slot)
    (hlater : ∀ lastVoteSlot ∈ state.lastVotedSlot, lastVoteSlot < last.slot)
    (hown : ∀ slot ∈ root, slot < earliest → state.rootSlot = some slot)
    (hslot : slotHashes[stop]? = some (last.slot, update.hash)) :
    Verified state slotHashes update
      { update with root, lockouts := retainVotes toFilter 0 update.lockouts } := by
  have hne : update.lockouts ≠ [] := by
    rintro hnil
    rw [hnil] at hlast
    cases hlast
  have hfilter : ∀ i ∈ toFilter, i + 1 < 0 + update.lockouts.length := by
    intro i hi
    obtain ⟨-, vote, hvote, hlt⟩ := hchecked.filtered i hi
    rw [Nat.zero_add]
    refine lt_of_le_of_ne (List.getElem?_eq_some_iff.mp hvote).1 fun heq ↦ ?_
    rw [List.getLast?_eq_getElem?, ← heq, Nat.add_sub_cancel] at hlast
    exact hnew.not_gt (Option.mem_unique hvote hlast ▸ hlt)
  refine ⟨retainVotes_sublist toFilter 0 update.lockouts, fun vote hvote ↦ ?_,
    ⟨last, (getLast?_retainVotes hfilter).trans hlast, List.mem_of_getElem? hslot, hlater⟩, fun slot hmem ↦ ?_, rfl⟩
  · obtain ⟨i, hi, hnot⟩ := (mem_retainVotes hchecked.sorted fun i _ ↦ Nat.zero_le i).mp hvote
    rw [Nat.zero_add] at hnot
    exact hchecked.known i vote (Nat.zero_le i) (List.getElem?_eq_some_iff.mp hi).1 hi hnot
  · exact (hchecked.root (List.length_pos_iff.mpr hne) slot hmem).imp_left (hown slot hmem)

/-- Checking an update does not panic, and what it lets through has been verified. -/
theorem checkUpdateVoteStateSlotsAreValid_spec (state : VoteState) (update : VoteStateUpdate)
    (slotHashes : SlotHashes) :
    (∃ error, state.checkUpdateVoteStateSlotsAreValid update slotHashes = .err error) ∨
      ∃ verified, state.checkUpdateVoteStateSlotsAreValid update slotHashes = .ok verified ∧
        Verified state slotHashes update verified := by
  rw [checkUpdateVoteStateSlotsAreValid]
  cases hlast : update.lockouts.getLast? with
  | none => exact Or.inl ⟨_, rfl⟩
  | some last =>
    by_cases hold : state.lastVotedSlot.any fun lastVoteSlot ↦ last.slot ≤ lastVoteSlot
    · exact Or.inl ⟨.voteTooOld, if_pos hold⟩
    simp only [hold, Bool.false_eq_true, if_false]
    cases hearliest : slotHashes.getLast? with
    | none => exact Or.inl ⟨_, rfl⟩
    | some first =>
      obtain ⟨earliest, hash⟩ := first
      by_cases htooOld : last.slot < earliest
      · exact Or.inl ⟨.voteTooOld, if_pos htooOld⟩
      simp only [htooOld, if_false]
      set root := if update.root.any (earliest > ·) then state.rootSlot else update.root with hroot
      have hown : ∀ slot ∈ root, slot < earliest → state.rootSlot = some slot := by
        intro slot hslot hlt
        rw [hroot] at hslot
        split_ifs at hslot with hany
        · exact hslot
        · rw [hslot, Option.any_some, decide_eq_true_eq] at hany
          exact absurd hlt hany
      have hany : ∀ slot ∈ root, slot < earliest → state.rootSlot.any (· < earliest) := by
        intro slot hslot hlt
        rw [hown slot hslot hlt, Option.any_some]
        exact decide_eq_true hlt
      have hfirst : slotHashes.getLast?.map Prod.fst = some earliest := by rw [hearliest, Option.map_some]
      have hlets : LetsThrough state update.lockouts slotHashes earliest root 0 slotHashes.length [] _ :=
        letsThrough_checkProposedSlots hfirst hany le_rfl []
      cases hloop : state.checkProposedSlots update.lockouts slotHashes earliest root 0 slotHashes.length [] with
      | err error => exact Or.inl ⟨error, rfl⟩
      | panic =>
        rw [hloop] at hlets
        exact hlets.elim
      | ok result =>
        obtain ⟨voteStateUpdateIndex, slotHashesIndex, toFilter⟩ := result
        rw [hloop] at hlets
        obtain ⟨more, rfl, hchecked⟩ := hlets
        rw [Outcome.ok_bind]
        by_cases hall : voteStateUpdateIndex = update.lockouts.length
        swap
        · exact Or.inl ⟨.slotsMismatch, if_pos hall⟩
        subst hall
        have hpos : 0 < update.lockouts.length := by
          rw [List.length_pos_iff]
          rintro hnil
          rw [hnil] at hlast
          cases hlast
        have hfound := (hchecked.found hpos rfl last hlast).resolve_left htooOld
        rw [Option.map_eq_some_iff] at hfound
        obtain ⟨⟨slot, newHash⟩, hslot, rfl⟩ := hfound
        simp only [ne_eq, not_true_eq_false, if_false, hslot]
        by_cases hhash : newHash = update.hash
        swap
        · exact Or.inl ⟨.slotHashMismatch, if_pos hhash⟩
        refine Or.inr ⟨_, if_neg (not_not.mpr hhash),
          hchecked.verified hlast (not_lt.mp htooOld) (fun lastVoteSlot hmem ↦ ?_) hown (hhash ▸ hslot)⟩
        rw [hmem, Option.any_some, decide_eq_true_eq, not_le] at hold
        exact hold

/-! ### Proposed towers -/

/-- The votes of a proposed tower pass if they are well ordered, with confirmations within the limits and slots behind
the new root, and if each is locked out at the next one. -/
theorem checkNewVotes_spec (newRoot : Option Slot) (previousVote : Option Lockout) (votes : List Lockout) :
    checkNewVotes newRoot previousVote votes ≠ .panic ∧
      (checkNewVotes newRoot previousVote votes = .ok () ↔
        (∀ vote ∈ votes, 0 < vote.confirmationCount ∧ vote.confirmationCount ≤ maxLockoutHistory ∧
          ∀ root ∈ newRoot, root = 0 ∨ root < vote.slot) ∧
        (previousVote.toList ++ votes).IsChain Supports) := by
  have herr : ∀ (error : VoteError) {property : Prop}, ¬ property →
      (.err error : Outcome VoteError Unit) ≠ .panic ∧ ((.err error : Outcome VoteError Unit) = .ok () ↔ property) :=
    fun error property hnot ↦ ⟨by rintro ⟨⟩, iff_of_false (by rintro ⟨⟩) hnot⟩
  have hchain : ∀ {previous vote : Lockout} {rest : List Lockout},
      ((some previous).toList ++ vote :: rest).IsChain Supports → Supports previous vote :=
    fun h ↦ (List.isChain_cons_cons.mp h).1
  have hvalid : ∀ {vote : Lockout}, ¬ vote.confirmationCount = 0 → ¬ vote.confirmationCount > maxLockoutHistory →
      ¬ (newRoot.any fun root ↦ vote.slot ≤ root ∧ root ≠ 0) → 0 < vote.confirmationCount ∧
        vote.confirmationCount ≤ maxLockoutHistory ∧ ∀ root ∈ newRoot, root = 0 ∨ root < vote.slot := by
    refine fun hzero hlarge hroot ↦ ⟨Nat.pos_of_ne_zero hzero, not_lt.mp hlarge, fun root hmem ↦ ?_⟩
    rw [hmem, Option.any_some, decide_eq_true_eq] at hroot
    by_cases hne : root = 0
    · exact Or.inl hne
    · exact Or.inr (not_le.mp fun hle ↦ hroot ⟨hle, hne⟩)
  fun_induction checkNewVotes newRoot previousVote votes with
  | case1 previousVote =>
    refine ⟨by rintro ⟨⟩, iff_of_true rfl ⟨fun _ hvote ↦ absurd hvote List.not_mem_nil, ?_⟩⟩
    rw [List.append_nil]
    cases previousVote with
    | none => exact .nil
    | some previousVote => exact .singleton _
  | case2 previousVote vote rest hzero =>
    exact herr _ fun h ↦ (h.1 vote List.mem_cons_self).1.ne' hzero
  | case3 previousVote vote rest _ hlarge =>
    exact herr _ fun h ↦ (h.1 vote List.mem_cons_self).2.1.not_gt hlarge
  | case4 previousVote vote rest _ _ hroot =>
    refine herr _ fun h ↦ ?_
    rw [Option.any_eq_true] at hroot
    obtain ⟨root, hroot, hle⟩ := hroot
    obtain ⟨hle, hne⟩ := of_decide_eq_true hle
    exact ((h.1 vote List.mem_cons_self).2.2 root hroot).elim hne hle.not_gt
  | case5 vote rest hzero hlarge hroot ih =>
    rw [List.forall_mem_cons, and_iff_right (hvalid hzero hlarge hroot)]
    exact ih
  | case6 vote rest _ _ _ previous hslot => exact herr _ fun h ↦ (hchain h.2).slot_lt.not_ge hslot
  | case7 vote rest _ _ _ previous _ hcount => exact herr _ fun h ↦ (hchain h.2).confirmationCount_lt.not_ge hcount
  | case8 vote rest _ _ _ previous _ _ hlocked => exact herr _ fun h ↦ (hchain h.2).locked.not_gt hlocked
  | case9 vote rest hzero hlarge hroot previous hslot hcount hlocked ih =>
    have hsupports : Supports previous vote := ⟨not_le.mp hslot, not_le.mp hcount, not_lt.mp hlocked⟩
    rw [List.forall_mem_cons, and_iff_right (hvalid hzero hlarge hroot)]
    change _ ∧ (_ ↔ _ ∧ (previous :: vote :: rest).IsChain Supports)
    rw [List.isChain_cons_cons, and_iff_right hsupports]
    exact ih

/-- What becomes of a vote in a proposed tower: the tower has a vote for its slot with no fewer confirmations, or it
has none, and the lockout of the vote has expired at every later slot of the tower. -/
def NotRolledBack (vote : Lockout) (votes : List Lockout) : Prop :=
  (∃ other ∈ votes, other.slot = vote.slot ∧ vote.confirmationCount ≤ other.confirmationCount) ∨
    (∀ other ∈ votes, other.slot ≠ vote.slot) ∧
      ∀ other ∈ votes, vote.slot < other.slot → vote.lastLockedOutSlot < other.slot

section NotRolledBack

variable {vote first : Lockout} {rest : List Lockout}

/-- A vote before all those of a tower is not rolled back if its lockout has expired at the first one. -/
theorem notRolledBack_cons_of_lt (hrest : ∀ other ∈ rest, first.slot < other.slot) (hlt : vote.slot < first.slot) :
    NotRolledBack vote (first :: rest) ↔ vote.lastLockedOutSlot < first.slot := by
  have hle : ∀ other ∈ first :: rest, first.slot ≤ other.slot :=
    List.forall_mem_cons.mpr ⟨le_rfl, fun other hother ↦ (hrest other hother).le⟩
  constructor
  · rintro (⟨other, hother, heq, -⟩ | ⟨-, hexpired⟩)
    · exact absurd heq (hlt.trans_le (hle other hother)).ne'
    · exact hexpired first List.mem_cons_self hlt
  · exact fun hexpired ↦ Or.inr ⟨fun other hother ↦ (hlt.trans_le (hle other hother)).ne',
      fun other hother _ ↦ hexpired.trans_le (hle other hother)⟩

/-- A vote for the first slot of a tower is not rolled back if it has no more confirmations. -/
theorem notRolledBack_cons_of_eq (hrest : ∀ other ∈ rest, first.slot < other.slot) (heq : vote.slot = first.slot) :
    NotRolledBack vote (first :: rest) ↔ vote.confirmationCount ≤ first.confirmationCount := by
  constructor
  · rintro (⟨other, hother, hslot, hcount⟩ | ⟨hne, -⟩)
    · rcases List.mem_cons.mp hother with rfl | hother
      · exact hcount
      · exact absurd (hslot.trans heq) (hrest other hother).ne'
    · exact absurd heq.symm (hne first List.mem_cons_self)
  · exact fun hcount ↦ Or.inl ⟨first, List.mem_cons_self, heq.symm, hcount⟩

/-- The first vote of a tower makes no difference to a vote behind it. -/
theorem notRolledBack_cons_of_gt (hgt : first.slot < vote.slot) :
    NotRolledBack vote (first :: rest) ↔ NotRolledBack vote rest := by
  rw [NotRolledBack, NotRolledBack, List.exists_mem_cons_iff, List.forall_mem_cons, List.forall_mem_cons]
  rw [or_iff_right fun h : first.slot = vote.slot ∧ _ ↦ hgt.ne h.1, and_iff_right hgt.ne,
    and_iff_right fun h : vote.slot < first.slot ↦ absurd h hgt.not_gt]

end NotRolledBack

/-- Two towers pass if no vote of the first one is rolled back in the second one. -/
theorem checkNoRollback_spec {current new : List Lockout}
    (hcurrent : current.Pairwise fun older newer ↦ older.slot < newer.slot)
    (hnew : new.Pairwise fun older newer ↦ older.slot < newer.slot) :
    checkNoRollback current new ≠ .panic ∧
      (checkNoRollback current new = .ok () ↔ ∀ vote ∈ current, NotRolledBack vote new) := by
  fun_induction checkNoRollback current new with
  | case1 vote current first new hlt hlocked =>
    refine ⟨by rintro ⟨⟩, iff_of_false (by rintro ⟨⟩) fun h ↦ ?_⟩
    rw [List.pairwise_cons] at hnew
    exact ((notRolledBack_cons_of_lt hnew.1 hlt).mp (h vote List.mem_cons_self)).not_ge hlocked
  | case2 vote current first new hlt hlocked ih =>
    rw [List.forall_mem_cons, notRolledBack_cons_of_lt (List.pairwise_cons.mp hnew).1 hlt,
      and_iff_right (not_le.mp hlocked)]
    exact ih (List.pairwise_cons.mp hcurrent).2 hnew
  | case3 vote current first new _ heq hcount =>
    refine ⟨by rintro ⟨⟩, iff_of_false (by rintro ⟨⟩) fun h ↦ ?_⟩
    rw [List.pairwise_cons] at hnew
    exact ((notRolledBack_cons_of_eq hnew.1 heq).mp (h vote List.mem_cons_self)).not_gt hcount
  | case4 vote current first new _ heq hcount ih =>
    rw [List.pairwise_cons] at hcurrent hnew
    rw [List.forall_mem_cons, notRolledBack_cons_of_eq hnew.1 heq, and_iff_right (not_lt.mp hcount)]
    have hbehind : (∀ other ∈ current, NotRolledBack other (first :: new)) ↔
        ∀ other ∈ current, NotRolledBack other new :=
      forall₂_congr fun other hother ↦ notRolledBack_cons_of_gt (heq ▸ hcurrent.1 other hother)
    rw [hbehind]
    exact ih hcurrent.2 hnew.2
  | case5 vote current first new hlt hne ih =>
    have hgt : first.slot < vote.slot := lt_of_le_of_ne (not_lt.mp hlt) (Ne.symm hne)
    have hbehind : (∀ other ∈ vote :: current, NotRolledBack other (first :: new)) ↔
        ∀ other ∈ vote :: current, NotRolledBack other new :=
      forall₂_congr fun other hother ↦ notRolledBack_cons_of_gt (by
        rcases List.mem_cons.mp hother with rfl | hother
        · exact hgt
        · exact hgt.trans ((List.pairwise_cons.mp hcurrent).1 other hother))
    rw [hbehind]
    exact ih hcurrent (List.pairwise_cons.mp hnew).2
  | case6 current new hend =>
    refine ⟨by rintro ⟨⟩, iff_of_true rfl fun vote hvote ↦ ?_⟩
    cases current with
    | nil => exact absurd hvote List.not_mem_nil
    | cons first current =>
      cases new with
      | nil => exact Or.inr ⟨fun _ h ↦ absurd h List.not_mem_nil, fun _ h ↦ absurd h List.not_mem_nil⟩
      | cons other new => exact (hend first current other new rfl rfl).elim

/-- A timestamp that is not older than the last one, and is the same if it is for the same slot. -/
structure TimestampNotTooOld (state : VoteState) (slot : Slot) (timestamp : UnixTimestamp) : Prop where
  slot_le : state.lastTimestamp.slot ≤ slot
  timestamp_le : state.lastTimestamp.timestamp ≤ timestamp
  eq : slot = state.lastTimestamp.slot → slot ≠ 0 → timestamp = state.lastTimestamp.timestamp

/-- Which timestamps are taken over. -/
theorem processTimestamp_spec (state : VoteState) (slot : Slot) (timestamp : UnixTimestamp) :
    state.processTimestamp slot timestamp = .ok { state with lastTimestamp := ⟨slot, timestamp⟩ } ∧
        state.TimestampNotTooOld slot timestamp ∨
      state.processTimestamp slot timestamp = .err .timestampTooOld ∧ ¬ state.TimestampNotTooOld slot timestamp := by
  have hiff : state.TimestampNotTooOld slot timestamp ↔ ¬ (slot < state.lastTimestamp.slot ∨
      timestamp < state.lastTimestamp.timestamp ∨
        slot = state.lastTimestamp.slot ∧ ⟨slot, timestamp⟩ ≠ state.lastTimestamp ∧ state.lastTimestamp.slot ≠ 0) := by
    rw [not_or, not_or, not_lt, not_lt, not_and, not_and, not_not]
    constructor
    · rintro ⟨hslot, htime, heq⟩
      refine ⟨hslot, htime, fun hsame hne ↦ by_contra fun hzero ↦ hne ?_⟩
      rw [← hsame] at hzero
      exact congr (congrArg BlockTimestamp.mk hsame) (heq hsame hzero)
    · rintro ⟨hslot, htime, heq⟩
      refine ⟨hslot, htime, fun hsame hzero ↦ by_contra fun hne ↦ hzero ?_⟩
      rw [hsame]
      exact heq hsame fun h ↦ hne (congrArg BlockTimestamp.timestamp h)
  rw [processTimestamp, hiff]
  split_ifs with hold
  · exact Or.inr ⟨rfl, not_not.mpr hold⟩
  · exact Or.inl ⟨rfl, hold⟩

/-- What a proposed tower with a root and a timestamp has to be like for a state to accept it. -/
structure Accepts (state : VoteState) (votes : List Lockout) (newRoot : Option Slot)
    (timestamp : Option UnixTimestamp) : Prop where
  length_le : votes.length ≤ maxLockoutHistory
  root_le : ∀ root ∈ state.rootSlot, ∃ other ∈ newRoot, root ≤ other
  valid : ∀ vote ∈ votes, 0 < vote.confirmationCount ∧ vote.confirmationCount ≤ maxLockoutHistory ∧
    ∀ root ∈ newRoot, root = 0 ∨ root < vote.slot
  chain : votes.IsChain Supports
  kept : ∀ vote ∈ state.votes, (∃ root ∈ newRoot, vote.slot ≤ root) ∨ NotRolledBack vote votes
  timestamp : ∀ time ∈ timestamp, ∀ last ∈ votes.getLast?, state.TimestampNotTooOld last.slot time

/-- Slots that support each other increase. -/
theorem pairwise_slot_of_isChain {votes : List Lockout} (hchain : votes.IsChain Supports) :
    votes.Pairwise fun older newer ↦ older.slot < newer.slot :=
  List.pairwise_map.mp ((List.isChain_map Lockout.slot).mpr (hchain.imp fun _ _ h ↦ h.slot_lt)).pairwise

/-- The votes that are behind a new root. -/
theorem forall_drop_rootedVotes {state : VoteState} {newRoot : Option Slot} {property : Lockout → Prop}
    (hsorted : state.votes.Pairwise fun older newer ↦ older.slot < newer.slot) :
    (∀ vote ∈ state.votes.drop (state.rootedVotes newRoot).length, property vote) ↔
      ∀ vote ∈ state.votes, (∃ root ∈ newRoot, vote.slot ≤ root) ∨ property vote := by
  have hrooted : ∀ {vote : Lockout}, (newRoot.any (vote.slot ≤ ·)) = true ↔ ∃ root ∈ newRoot, vote.slot ≤ root :=
    (Option.any_eq_true _ _).trans (exists_congr fun root ↦ and_congr_right fun _ ↦ decide_eq_true_iff)
  rw [rootedVotes]
  generalize state.votes = votes at hsorted
  induction votes with
  | nil => exact iff_of_true (fun _ h ↦ absurd h List.not_mem_nil) fun _ h ↦ absurd h List.not_mem_nil
  | cons vote rest ih =>
    rw [List.pairwise_cons] at hsorted
    rw [List.takeWhile_cons, List.forall_mem_cons]
    split_ifs with hvote
    · rw [and_iff_right (Or.inl (hrooted.mp hvote)), List.length_cons, List.drop_succ_cons]
      exact ih hsorted.2
    · rw [hrooted] at hvote
      rw [or_iff_right hvote, List.length_nil, List.drop_zero, List.forall_mem_cons]
      refine and_congr_right fun _ ↦ forall₂_congr fun other hother ↦ (or_iff_right ?_).symm
      rintro ⟨root, hroot, hle⟩
      exact hvote ⟨root, hroot, (hsorted.1 other hother).le.trans hle⟩

/-- A new root rolls back the current one if that is not at or before it. -/
theorem rootRollsBack_eq_false_iff {newRoot currentRoot : Option Slot} :
    rootRollsBack newRoot currentRoot = false ↔ ∀ root ∈ currentRoot, ∃ other ∈ newRoot, root ≤ other := by
  cases currentRoot with
  | none => exact iff_of_true (by cases newRoot <;> rfl) fun root hroot ↦ absurd hroot (Option.not_mem_none root)
  | some root =>
    cases newRoot with
    | none => exact iff_of_false (by rintro ⟨⟩) fun h ↦ by obtain ⟨other, hother, -⟩ := h root rfl; cases hother
    | some other =>
      rw [rootRollsBack, decide_eq_false_iff_not, not_lt]
      exact ⟨fun hle current hcurrent ↦ ⟨other, rfl, Option.mem_some_iff.mp hcurrent ▸ hle⟩,
        fun h ↦ by obtain ⟨found, hfound, hle⟩ := h root rfl; exact Option.mem_some_iff.mp hfound ▸ hle⟩

/-- The state after a proposed tower has been accepted. -/
def updated (state : VoteState) (votes : List Lockout) (newRoot : Option Slot) (timestamp : Option UnixTimestamp)
    (epoch : Epoch) (featureSet : Option FeatureSet) : VoteState :=
  { state.creditNewRoot newRoot epoch featureSet with
    votes
    rootSlot := newRoot
    lastTimestamp := timestamp.elim state.lastTimestamp fun time ↦ ⟨votes.getLast?.elim 0 Lockout.slot, time⟩ }

/-- Credits for a root do not touch the timestamp. -/
theorem creditNewRoot_lastTimestamp (state : VoteState) (newRoot : Option Slot) (epoch : Epoch)
    (featureSet : Option FeatureSet) :
    (state.creditNewRoot newRoot epoch featureSet).lastTimestamp = state.lastTimestamp := by
  rw [creditNewRoot]
  split_ifs <;> rfl

/-- A proposed tower with a vote is accepted exactly if it is what a state accepts, and is then the tower of the
state, with its root; it never makes the program panic. -/
theorem processNewVoteState_spec {state : VoteState}
    (hsorted : state.votes.Pairwise fun older newer ↦ older.slot < newer.slot) {votes : List Lockout} (hne : votes ≠ [])
    (newRoot : Option Slot) (timestamp : Option UnixTimestamp) (epoch : Epoch) (featureSet : Option FeatureSet) :
    state.processNewVoteState votes newRoot timestamp epoch featureSet =
          .ok (state.updated votes newRoot timestamp epoch featureSet) ∧
        state.Accepts votes newRoot timestamp ∨
      (∃ error, state.processNewVoteState votes newRoot timestamp epoch featureSet = .err error) ∧
        ¬ state.Accepts votes newRoot timestamp := by
  obtain ⟨last, hlast⟩ : ∃ last, votes.getLast? = some last := ⟨_, List.getLast?_eq_some_getLast hne⟩
  rw [processNewVoteState, updated, hlast]
  by_cases hlength : votes.length > maxLockoutHistory
  · exact Or.inr ⟨⟨.tooManyVotes, if_pos hlength⟩, fun h ↦ h.length_le.not_gt hlength⟩
  cases hroot : rootRollsBack newRoot state.rootSlot with
  | true =>
    refine Or.inr ⟨⟨.rootRollBack, by simp only [hlength, if_false, if_true]⟩, fun h ↦ ?_⟩
    rw [rootRollsBack_eq_false_iff.mpr h.root_le] at hroot
    cases hroot
  | false =>
  simp only [hlength, Bool.false_eq_true, if_false]
  obtain ⟨hpanic, hnew⟩ := checkNewVotes_spec newRoot none votes
  cases hvotes : checkNewVotes newRoot none votes with
  | panic => exact absurd hvotes hpanic
  | err error => exact Or.inr ⟨⟨error, rfl⟩, fun h ↦ by cases hvotes.symm.trans (hnew.mpr ⟨h.valid, h.chain⟩)⟩
  | ok =>
  obtain ⟨hvalid, hchain⟩ := hnew.mp hvotes
  obtain ⟨hpanic, hkept⟩ := checkNoRollback_spec
    (hsorted.sublist (List.drop_sublist (state.rootedVotes newRoot).length _)) (pairwise_slot_of_isChain hchain)
  rw [forall_drop_rootedVotes hsorted] at hkept
  rw [Outcome.ok_bind]
  cases hrollback : checkNoRollback (state.votes.drop (state.rootedVotes newRoot).length) votes with
  | panic => exact absurd hrollback hpanic
  | err error => exact Or.inr ⟨⟨error, rfl⟩, fun h ↦ by cases hrollback.symm.trans (hkept.mpr h.kept)⟩
  | ok =>
  rw [Outcome.ok_bind]
  have haccepts : (∀ time ∈ timestamp, ∀ last ∈ votes.getLast?, state.TimestampNotTooOld last.slot time) →
      state.Accepts votes newRoot timestamp := fun htime ↦
    ⟨not_lt.mp hlength, rootRollsBack_eq_false_iff.mp hroot, hvalid, hchain, hkept.mp hrollback, htime⟩
  cases timestamp with
  | none =>
    refine Or.inl ⟨?_, haccepts fun time hmem ↦ absurd hmem (Option.not_mem_none time)⟩
    simp only [Outcome.pure_eq_ok, Outcome.ok_bind, Option.elim_none, creditNewRoot_lastTimestamp]
  | some time =>
    have hcredited : ∀ slot, (state.creditNewRoot newRoot epoch featureSet).TimestampNotTooOld slot time ↔
        state.TimestampNotTooOld slot time := by
      have hsame := state.creditNewRoot_lastTimestamp newRoot epoch featureSet
      exact fun slot ↦ ⟨fun h ↦ ⟨hsame ▸ h.slot_le, hsame ▸ h.timestamp_le, hsame ▸ h.eq⟩,
        fun h ↦ ⟨hsame ▸ h.slot_le, hsame ▸ h.timestamp_le, hsame ▸ h.eq⟩⟩
    rcases processTimestamp_spec (state.creditNewRoot newRoot epoch featureSet) last.slot time with
      ⟨hprocess, hnotOld⟩ | ⟨hprocess, hold⟩
    · refine Or.inl ⟨?_, haccepts fun other hother found hfound ↦ ?_⟩
      · simp only [hprocess, Outcome.ok_bind, Outcome.pure_eq_ok, Option.elim_some]
      · rw [hlast] at hfound
        rw [← Option.mem_some_iff.mp hother, ← Option.mem_some_iff.mp hfound]
        exact (hcredited last.slot).mp hnotOld
    · exact Or.inr ⟨⟨.timestampTooOld, by simp only [hprocess, Outcome.err_bind]⟩, fun h ↦
        hold ((hcredited last.slot).mpr (h.timestamp time rfl last hlast))⟩

/-- A proposed tower is taken over exactly if it is what the state accepts. -/
theorem processNewVoteState_eq_ok_iff {state : VoteState}
    (hsorted : state.votes.Pairwise fun older newer ↦ older.slot < newer.slot) {votes : List Lockout} (hne : votes ≠ [])
    (newRoot : Option Slot) (timestamp : Option UnixTimestamp) (epoch : Epoch) (featureSet : Option FeatureSet)
    (after : VoteState) :
    state.processNewVoteState votes newRoot timestamp epoch featureSet = .ok after ↔
      state.Accepts votes newRoot timestamp ∧ after = state.updated votes newRoot timestamp epoch featureSet := by
  rcases processNewVoteState_spec hsorted hne newRoot timestamp epoch featureSet with
    ⟨hok, haccepts⟩ | ⟨⟨error, herr⟩, hnot⟩
  · rw [hok, Outcome.ok.injEq, eq_comm, and_iff_right haccepts]
  · rw [herr]
    exact iff_of_false (by rintro ⟨⟩) fun h ↦ hnot h.1

/-- A tower of two votes is taken over by a state that has voted for the first one of them. -/
theorem processNewVoteState_eq_ok_iff_two :
    VoteState.processNewVoteState { votes := [⟨3, 1⟩] } [⟨3, 2⟩, ⟨4, 1⟩] (some 2) none 5 none =
      .ok (VoteState.updated { votes := [⟨3, 1⟩] } [⟨3, 2⟩, ⟨4, 1⟩] (some 2) none 5 none) := by
  refine (processNewVoteState_eq_ok_iff (List.pairwise_singleton _ _) (List.cons_ne_nil _ _) _ _ _ _ _).mpr ⟨?_, rfl⟩
  constructor
  case length_le => decide
  case root_le => exact fun _ h ↦ absurd h (Option.not_mem_none _)
  case valid => simp [maxLockoutHistory]
  case chain => exact .cons_cons ⟨by decide, by decide, by decide⟩ (.singleton _)
  case kept => simp [NotRolledBack]
  case timestamp => exact fun _ h ↦ absurd h (Option.not_mem_none _)

end VoteState

end Playground.VoteProgram
