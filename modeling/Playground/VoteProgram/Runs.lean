import Playground.Library.Runs
import Playground.VoteProgram.Effects

/-!
# Runs of the vote program

A vote account from its creation on, as instructions are executed on it one after another at clocks that do not go
back (`Executes`). Instructions that fail leave it as it was. A history says which voters have been authorized, and
from which epoch on (`VoteLedger.history`).

In every run the state is valid (`valid_of_run`), its tower is sound, with slots that the banks knew (`sound_of_run`),
and no instruction panics (`execute_ne_panic_of_run`). A state respects the earlier ones and has no fewer credits,
unless the account has been uninitialized in between (`respects_of_run`, `credits_of_run`). Who may vote is read off
the history (`authorizedVoter_of_run`).
-/

set_option autoImplicit false
set_option relaxedAutoImplicit false

namespace Playground.VoteProgram

open Library

/-! ### Ledgers -/

/-- The voter that has been authorized last for an epoch up to a given one. -/
def voterAt (history : List (Epoch × Pubkey)) (epoch : Epoch) : Option Pubkey :=
  (history.filter fun entry ↦ entry.1 ≤ epoch).getLast?.map Prod.snd

/-- A vote account, the last clock, and the voters that have been authorized. -/
structure VoteLedger where
  clock : Clock
  account : VoteAccount
  history : List (Epoch × Pubkey)

/-- The account as it is created: all bytes of its data are zero. -/
def VoteAccount.created (size lamports : ℕ) : VoteAccount :=
  ⟨some (.v0_23_5 ⟨0, 0, 0, 0, 0, [], none, [], {}⟩), size, lamports⟩

/-- The ledger of an account that has been created. No voter is the one of the zero bytes. -/
def VoteLedger.created (clock : Clock) (size lamports : ℕ) : VoteLedger :=
  ⟨clock, .created size lamports, [(0, 0)]⟩

/-- The voters that have been authorized after an instruction has succeeded. -/
def record (context : Context) (instruction : Instruction) (after : VoteAccount) (history : List (Epoch × Pubkey)) :
    List (Epoch × Pubkey) :=
  match instruction with
  | .initializeAccount voteInit => [(context.clock.epoch, voteInit.authorizedVoter)]
  | .authorize authorized .voter => history ++ [(context.clock.leaderScheduleEpoch + 1, authorized)]
  | .withdraw .. =>
    if after.data.any fun versions ↦ versions.convertToCurrent.authorizedVoters.isEmpty then [] else history
  | _ => history

/-- The ledger after an instruction. -/
def VoteLedger.next (ledger : VoteLedger) (context : Context) (instruction : Instruction) : VoteLedger :=
  match ledger.account.execute context instruction with
  | .ok after => ⟨context.clock, after, record context instruction after ledger.history⟩
  | _ => { ledger with clock := context.clock }

/-- An instruction is executed at a clock that does not go back, with slots and an epoch at which nothing wraps
around. -/
structure Executes (before : VoteLedger) (label : Context × Instruction) (after : VoteLedger) : Prop where
  follows : before.clock.Follows label.1.clock
  inRange : ∀ slot ∈ label.1.slotHashes.map Prod.fst, Slot.InRange slot
  eq : after = before.next label.1 label.2

/-- What an instruction does to a ledger whose state is valid: nothing but to the clock, or its effect. -/
theorem Executes.cases {property : Slot → Prop} {before after : VoteLedger} {label : Context × Instruction}
    (hstep : Executes before label after)
    (hvalid : ∀ versions ∈ before.account.data, versions.convertToCurrent.Valid property before.clock) :
    after = { before with clock := label.1.clock } ∨
      ∃ account old new, before.account.execute label.1 label.2 = .ok account ∧
        after = ⟨label.1.clock, account, record label.1 label.2 account before.history⟩ ∧
        before.account.data = some old ∧ account.data = some new ∧ Effect label.1 label.2 old new := by
  have hspec := VoteAccount.execute_spec (fun versions hversions ↦ (hvalid versions hversions).mono hstep.follows)
    hstep.follows.le_leaderScheduleEpoch hstep.follows.leaderScheduleEpoch_lt hstep.inRange label.2
  rw [hstep.eq, VoteLedger.next]
  rcases hspec with ⟨error, herr⟩ | ⟨account, old, new, hok, hold, hnew, heffect⟩
  · rw [herr]
    exact Or.inl rfl
  · rw [hok]
    exact Or.inr ⟨account, old, new, rfl, rfl, hold, hnew, heffect⟩

/-! ### Valid states in every run -/

/-- The slots that the banks of some instructions knew. -/
def BankSlot (labels : List (Context × Instruction)) (slot : Slot) : Prop :=
  ∃ label ∈ labels, slot ∈ label.1.slotHashes.map Prod.fst

/-- The state of an account is valid in every run from its creation, with slots that the banks knew. -/
theorem valid_of_run {clock : Clock} {size lamports : ℕ} {labels : List (Context × Instruction)} {ledger : VoteLedger}
    (hrun : Run Executes (.created clock size lamports) labels ledger) {property : Slot → Prop}
    (hknown : ∀ slot, BankSlot labels slot → property slot) :
    ∀ versions ∈ ledger.account.data, versions.convertToCurrent.Valid property ledger.clock := by
  induction hrun with
  | nil =>
    rintro versions hversions
    obtain rfl := Option.some.inj hversions
    refine .of_nil rfl rfl rfl fun entry hentry ↦ ?_
    rw [VoteStateVersions.convertToCurrent, SortedMap.singleton, List.mem_singleton] at hentry
    exact hentry ▸ Nat.zero_le _
  | @snoc middle finish labels label _ hstep ih =>
    have hbefore : ∀ slot, BankSlot labels slot → property slot := by
      rintro slot ⟨other, hother, hslot⟩
      exact hknown slot ⟨other, List.mem_append_left _ hother, hslot⟩
    have hvalid := ih hbefore
    have hbank : ∀ slot ∈ label.1.slotHashes.map Prod.fst, property slot := fun slot hslot ↦
      hknown slot ⟨label, List.mem_append_right _ (List.mem_singleton.mpr rfl), hslot⟩
    rcases hstep.cases hvalid with rfl | ⟨account, old, new, -, rfl, hold, hnew, heffect⟩
    · exact fun versions hversions ↦ (hvalid versions hversions).mono hstep.follows
    · intro versions hversions
      obtain rfl := Option.some.inj (hnew.symm.trans hversions)
      exact valid_of_effect ((hvalid old hold).mono hstep.follows) hstep.follows.le_leaderScheduleEpoch hbank heffect

/-- The data of an account can be read in every run from its creation. -/
theorem exists_data_of_run {clock : Clock} {size lamports : ℕ} {labels : List (Context × Instruction)}
    {ledger : VoteLedger} (hrun : Run Executes (.created clock size lamports) labels ledger) :
    ∃ versions, versions ∈ ledger.account.data := by
  induction hrun with
  | nil => exact ⟨_, rfl⟩
  | snoc hmiddle hstep ih =>
    rcases hstep.cases (valid_of_run hmiddle fun _ _ ↦ trivial) with rfl | ⟨account, -, new, -, rfl, -, hnew, -⟩
    · exact ih
    · exact ⟨new, hnew⟩

/-! ### Lockouts in every run -/

/-- What an effect comes to: the state respects the one before, or the account is or becomes uninitialized. -/
theorem respects_of_effect {context : Context} {instruction : Instruction} {before after : VoteStateVersions}
    (heffect : Effect context instruction before after) :
    Respects before.convertToCurrent after.convertToCurrent ∨ before.isUninitialized ∨ after.isUninitialized := by
  have hrefl := Respects.refl before.convertToCurrent
  cases heffect with
  | initializeAccount huninitialized => exact Or.inr (Or.inl huninitialized)
  | authorizeVoter hlooked =>
    rw [hlooked.eq]
    exact Or.inl ⟨hrefl.root_le, hrefl.last_le, hrefl.kept⟩
  | authorities => exact Or.inl ⟨hrefl.root_le, hrefl.last_le, hrefl.kept⟩
  | vote _ _ hlooked _ hadvances =>
    have hrespects := hadvances.respects
    rw [hlooked.eq] at hrespects
    exact Or.inl ⟨hrespects.root_le, hrespects.last_le, hrespects.kept⟩
  | withdraw _ hafter =>
    rcases hafter with rfl | rfl
    · exact Or.inl hrefl
    · exact Or.inr (Or.inr rfl)

/-- What an effect comes to for the credits: they are no fewer, or the account is or becomes uninitialized. -/
theorem earnedCredits_le_of_effect {context : Context} {instruction : Instruction} {before after : VoteStateVersions}
    (hvalid : before.convertToCurrent.Valid (fun _ ↦ True) context.clock)
    (heffect : Effect context instruction before after) :
    VoteState.earnedCredits before.convertToCurrent.epochCredits ≤
        VoteState.earnedCredits after.convertToCurrent.epochCredits ∨
      before.isUninitialized ∨ after.isUninitialized := by
  cases heffect with
  | initializeAccount huninitialized => exact Or.inr (Or.inl huninitialized)
  | authorizeVoter hlooked =>
    rw [hlooked.eq]
    exact Or.inl le_rfl
  | authorities => exact Or.inl le_rfl
  | @vote _ _ _ looked voted _ _ hlooked _ hadvances =>
    obtain ⟨amounts, hpos, hcredits⟩ := hadvances.credited.credits
    have hsame : looked.epochCredits = before.convertToCurrent.epochCredits := by rw [hlooked.eq]
    rw [hsame] at hcredits
    have hsum := (VoteState.foldl_addCredits_spec hpos hvalid.credits hvalid.credits_le).2.2
    change _ ≤ VoteState.earnedCredits voted.epochCredits ∨ _
    rw [hcredits, hsum]
    exact Or.inl (Nat.le_add_right _ _)
  | withdraw _ hafter =>
    rcases hafter with rfl | rfl
    · exact Or.inl le_rfl
    · exact Or.inr (Or.inr rfl)

/-- An account that has been uninitialized at some point of a run. -/
def UninitializedIn (before : VoteLedger) (labels : List (Context × Instruction)) : Prop :=
  ∃ front rest middle, labels = front ++ rest ∧ Run Executes before front middle ∧
    ∃ versions ∈ middle.account.data, versions.isUninitialized

/-- What each effect on a valid state relates, unless the account is uninitialized, is related at the ends of a run,
unless it has been uninitialized in between. -/
theorem relates_of_run (relation : VoteState → VoteState → Prop) (hrefl : ∀ state, relation state state)
    (htrans : ∀ {first second third : VoteState}, first.Sound → second.Sound → relation first second →
      relation second third → relation first third)
    (heffect : ∀ {context : Context} {instruction : Instruction} {before after : VoteStateVersions},
      before.convertToCurrent.Valid (fun _ ↦ True) context.clock → Effect context instruction before after →
        relation before.convertToCurrent after.convertToCurrent ∨ before.isUninitialized ∨ after.isUninitialized)
    {clock : Clock} {size lamports : ℕ} {first labels : List (Context × Instruction)} {before after : VoteLedger}
    (hfirst : Run Executes (.created clock size lamports) first before) (hrun : Run Executes before labels after) :
    (∃ old ∈ before.account.data, ∃ new ∈ after.account.data,
        relation old.convertToCurrent new.convertToCurrent) ∨ UninitializedIn before labels := by
  have hvalid : ∀ {rest : List (Context × Instruction)} {ledger : VoteLedger}, Run Executes before rest ledger →
      ∀ versions ∈ ledger.account.data, versions.convertToCurrent.Valid (fun _ ↦ True) ledger.clock :=
    fun hrest ↦ valid_of_run (hfirst.append hrest) fun _ _ ↦ trivial
  induction hrun with
  | nil =>
    obtain ⟨versions, hversions⟩ := exists_data_of_run hfirst
    exact Or.inl ⟨versions, hversions, versions, hversions, hrefl _⟩
  | @snoc middle finish labels label hmiddle hstep ih =>
    rcases ih with ⟨old, hold, new, hnew, hrelation⟩ | ⟨front, rest, ledger, rfl, hfront, huninitialized⟩
    swap
    · exact Or.inr ⟨front, rest ++ [label], ledger, List.append_assoc .., hfront, huninitialized⟩
    rcases hstep.cases (hvalid hmiddle) with rfl | ⟨account, versions, last, -, heq, hversions, hlast, hnext⟩
    · exact Or.inl ⟨old, hold, new, hnew, hrelation⟩
    obtain rfl := Option.some.inj (hnew.symm.trans hversions)
    rcases heffect ((hvalid hmiddle new hnew).mono hstep.follows) hnext with
      hnext | huninitialized | huninitialized
    · exact Or.inl ⟨old, hold, last, by rw [heq]; exact hlast,
        htrans (hvalid (.nil before) old hold).sound (hvalid hmiddle new hnew).sound hrelation hnext⟩
    · exact Or.inr ⟨labels, [label], middle, rfl, hmiddle, new, hnew, huninitialized⟩
    · exact Or.inr ⟨labels ++ [label], [], finish, (List.append_nil _).symm, hmiddle.snoc hstep, last,
        by rw [heq]; exact hlast, huninitialized⟩

/-! ### Voters in every run -/

/-- A voter that is authorized for an epoch is the one from that epoch on. -/
theorem voterAt_append (history : List (Epoch × Pubkey)) (targetEpoch : Epoch) (pubkey : Pubkey) (epoch : Epoch) :
    voterAt (history ++ [(targetEpoch, pubkey)]) epoch =
      if targetEpoch ≤ epoch then some pubkey else voterAt history epoch := by
  rw [voterAt, List.filter_append, List.filter_cons, List.filter_nil]
  by_cases hle : targetEpoch ≤ epoch
  · rw [if_pos hle, if_pos (decide_eq_true hle), List.getLast?_concat]
    rfl
  · rw [if_neg hle, if_neg (by rw [decide_eq_true_eq]; exact hle), List.append_nil]
    rfl

/-- The voters of a state are those of a history from an epoch on. -/
def VotersAre (history : List (Epoch × Pubkey)) (currentEpoch : Epoch) (state : VoteState) : Prop :=
  ∀ epoch, currentEpoch ≤ epoch →
    AuthorizedVoters.getAuthorizedVoter state.authorizedVoters epoch = voterAt history epoch

/-- The only voter of a map is the one of the epochs from its own on. -/
theorem getAuthorizedVoter_singleton {targetEpoch epoch : Epoch} (pubkey : Pubkey) (hle : targetEpoch ≤ epoch) :
    AuthorizedVoters.getAuthorizedVoter (.singleton targetEpoch pubkey) epoch = some pubkey := by
  rw [AuthorizedVoters.getAuthorizedVoter_eq_latest, SortedMap.latest_eq_some_iff]
  refine ⟨targetEpoch, hle, List.mem_singleton.mpr rfl, fun entry hentry _ ↦ ?_⟩
  rw [List.mem_singleton.mp hentry]

/-- The voters of a state are those of the history after an instruction if they were so before it. -/
theorem votersAre_of_effect {property : Slot → Prop} {context : Context} {instruction : Instruction}
    {account : VoteAccount} {before after : VoteStateVersions} {history : List (Epoch × Pubkey)}
    (hvalid : before.convertToCurrent.Valid property context.clock)
    (hclock : context.clock.epoch ≤ context.clock.leaderScheduleEpoch)
    (hvoters : VotersAre history context.clock.epoch before.convertToCurrent) (hafter : account.data = some after)
    (heffect : Effect context instruction before after) :
    VotersAre (record context instruction account history) context.clock.epoch after.convertToCurrent := by
  cases heffect with
  | @initializeAccount _ voteInit =>
    intro epoch hepoch
    have hentry : [(context.clock.epoch, voteInit.authorizedVoter)].filter (fun entry ↦ entry.1 ≤ epoch) =
        [(context.clock.epoch, voteInit.authorizedVoter)] := List.filter_cons_of_pos (decide_eq_true hepoch)
    rw [record, voterAt, hentry]
    exact getAuthorizedVoter_singleton voteInit.authorizedVoter hepoch
  | @authorizeVoter _ authorized pubkey looked _ hlooked _ hnew =>
    intro epoch hepoch
    have hbehind : ∀ entry ∈ looked.authorizedVoters.entries, entry.1 < context.clock.leaderScheduleEpoch + 1 :=
      fun entry hentry ↦ lt_of_le_of_ne
        ((VoteAccount.valid_of_looked hvalid hclock hlooked).voters_le entry hentry) (hnew entry hentry)
    change AuthorizedVoters.getAuthorizedVoter (looked.authorizedVoters.insert _ authorized) epoch = _
    rw [record, voterAt_append, AuthorizedVoters.getAuthorizedVoter_insert hbehind, hlooked.same epoch hepoch,
      hvoters epoch hepoch]
  | authorities hinstruction =>
    rcases hinstruction with ⟨authorized, rfl⟩ | ⟨pubkey, rfl⟩ | ⟨percentage, rfl⟩
    · exact hvoters
    · exact hvoters
    · exact hvoters
  | vote hinstruction _ hlooked _ hadvances =>
    have hsame : VotersAre history context.clock.epoch _ := fun epoch hepoch ↦ by
      rw [hadvances.credited.authorizedVoters, hlooked.same epoch hepoch, hvoters epoch hepoch]
    rcases hinstruction with ⟨vote, rfl⟩ | ⟨update, rfl⟩
    · exact hsame
    · exact hsame
  | withdraw _ hcases =>
    rw [record, hafter, Option.any_some]
    rcases hcases with rfl | rfl
    · split_ifs with hempty
      · intro epoch _
        rw [AuthorizedVoters.getAuthorizedVoter_eq_latest, SortedMap.latest,
          List.isEmpty_iff.mp (show after.convertToCurrent.authorizedVoters.entries.isEmpty = true from hempty)]
        rfl
      · exact hvoters
    · exact fun _ _ ↦ rfl

/-- Who may vote is read off the history in every run from the creation of an account. -/
theorem votersAre_of_run {clock : Clock} {size lamports : ℕ} {labels : List (Context × Instruction)}
    {ledger : VoteLedger} (hrun : Run Executes (.created clock size lamports) labels ledger) :
    ∀ versions ∈ ledger.account.data, VotersAre ledger.history ledger.clock.epoch versions.convertToCurrent := by
  induction hrun with
  | nil =>
    intro versions hversions epoch _
    obtain rfl := Option.some.inj hversions
    have hentry : [((0 : Epoch), (0 : Pubkey))].filter (fun entry ↦ entry.1 ≤ epoch) = [(0, 0)] :=
      List.filter_cons_of_pos (decide_eq_true (Nat.zero_le epoch))
    rw [VoteLedger.created, voterAt, hentry]
    exact getAuthorizedVoter_singleton 0 (Nat.zero_le epoch)
  | @snoc middle finish labels label hmiddle hstep ih =>
    have hvalid := valid_of_run hmiddle fun _ _ ↦ trivial
    have hlater : ∀ versions ∈ middle.account.data,
        VotersAre middle.history label.1.clock.epoch versions.convertToCurrent :=
      fun versions hversions epoch hepoch ↦ ih versions hversions epoch (hstep.follows.epoch_le.trans hepoch)
    rcases hstep.cases hvalid with rfl | ⟨account, old, new, -, rfl, hold, hnew, heffect⟩
    · exact hlater
    · intro versions hversions
      obtain rfl := Option.some.inj (hnew.symm.trans hversions)
      exact votersAre_of_effect ((hvalid old hold).mono hstep.follows) hstep.follows.le_leaderScheduleEpoch
        (hlater old hold) hnew heffect

/-- A vote that is accepted has been signed by the voter of its epoch. -/
theorem signed_of_effect {context : Context} {instruction : Instruction} {before after : VoteStateVersions}
    (heffect : Effect context instruction before after)
    (hvote : (∃ vote, instruction = .processVote vote) ∨ ∃ update, instruction = .processVoteStateUpdate update) :
    ∃ pubkey ∈ context.signers, AuthorizedVoters.getAuthorizedVoter before.convertToCurrent.authorizedVoters
      context.clock.epoch = some pubkey := by
  cases heffect with
  | vote _ _ hlooked hsigned _ => exact ⟨_, hsigned, hlooked.voter⟩
  | initializeAccount => rcases hvote with ⟨_, h⟩ | ⟨_, h⟩ <;> cases h
  | authorizeVoter => rcases hvote with ⟨_, h⟩ | ⟨_, h⟩ <;> cases h
  | withdraw => rcases hvote with ⟨_, h⟩ | ⟨_, h⟩ <;> cases h
  | authorities hinstruction =>
    rcases hinstruction with ⟨_, rfl⟩ | ⟨_, rfl⟩ | ⟨_, rfl⟩
    · rcases hvote with ⟨_, h⟩ | ⟨_, h⟩ <;> cases h
    · rcases hvote with ⟨_, h⟩ | ⟨_, h⟩ <;> cases h
    · rcases hvote with ⟨_, h⟩ | ⟨_, h⟩ <;> cases h

/-! ### What holds in every run -/

/-- An account that is initialized and votes for a slot. -/
def firstVote : List (Context × Instruction) :=
  [(⟨[1, 2], ⟨5, 6⟩, [(3, 7)], ⟨false, false, false⟩, none, none⟩, .initializeAccount ⟨1, 2, 4, 0⟩),
    (⟨[2], ⟨5, 6⟩, [(3, 7)], ⟨false, false, false⟩, none, none⟩, .processVote ⟨[3], 7, none⟩)]

/-- A vote for the next slot, in the next epoch. -/
def secondVote : Context × Instruction :=
  (⟨[2], ⟨6, 7⟩, [(4, 8), (3, 7)], ⟨false, false, false⟩, none, none⟩, .processVote ⟨[4], 8, none⟩)

/-- A slot at which no lockout wraps around. -/
theorem inRange_four {slot : Slot} (hle : slot ≤ 4) : Slot.InRange slot :=
  (Nat.add_le_add_right hle _).trans_lt (by rw [maxLockoutHistory]; decide)

/-- The runs of both votes. -/
theorem run_votes : ∃ before after, Run Executes (.created ⟨5, 6⟩ voteStateSize 10) firstVote before ∧
    Run Executes before [secondVote] after ∧ before.clock = ⟨5, 6⟩ ∧
    after.account.data.map (fun versions ↦ versions.convertToCurrent.votes) = some [⟨3, 2⟩, ⟨4, 1⟩] := by
  have hrange : ∀ slot ∈ [3], Slot.InRange slot := List.forall_mem_singleton.mpr (inRange_four (by decide))
  have hlater : ∀ slot ∈ [4, 3], Slot.InRange slot :=
    List.forall_mem_cons.mpr ⟨inRange_four (by decide), hrange⟩
  exact ⟨_, _, .snoc (.snoc (.nil _) ⟨⟨le_rfl, le_rfl, by decide, by decide⟩, hrange, rfl⟩)
      ⟨⟨le_rfl, le_rfl, by decide, by decide⟩, hrange, rfl⟩,
    .single ⟨⟨by decide +kernel, by decide +kernel, by decide, by decide⟩, hlater, rfl⟩, by decide +kernel,
    by decide +kernel⟩

/-- The tower is sound in every run from the creation of an account, and its slots and its root are slots that the
banks knew. -/
theorem sound_of_run {clock : Clock} {size lamports : ℕ} {labels : List (Context × Instruction)} {ledger : VoteLedger}
    (hrun : Run Executes (.created clock size lamports) labels ledger) :
    ∀ versions ∈ ledger.account.data, versions.convertToCurrent.Sound ∧
      versions.convertToCurrent.AllSlots (BankSlot labels) := by
  intro versions hversions
  have hvalid := valid_of_run hrun (fun _ ↦ id) versions hversions
  exact ⟨hvalid.sound, hvalid.slots⟩

/-- After both votes. -/
theorem sound_of_run_votes : ∃ ledger,
    Run Executes (.created ⟨5, 6⟩ voteStateSize 10) (firstVote ++ [secondVote]) ledger ∧
      ledger.account.data.map (fun versions ↦ versions.convertToCurrent.votes) = some [⟨3, 2⟩, ⟨4, 1⟩] ∧
      ∀ versions ∈ ledger.account.data, versions.convertToCurrent.Sound ∧
        versions.convertToCurrent.AllSlots (BankSlot (firstVote ++ [secondVote])) := by
  obtain ⟨before, after, hfirst, hsecond, -, hvotes⟩ := run_votes
  exact ⟨after, hfirst.append hsecond, hvotes, sound_of_run (hfirst.append hsecond)⟩

/-- A state respects each earlier one of its run, unless the account has been uninitialized in between: no root and no
last vote is rolled back, and no vote is given up that is neither rooted nor expired. -/
theorem respects_of_run {clock : Clock} {size lamports : ℕ} {first labels : List (Context × Instruction)}
    {before after : VoteLedger} (hfirst : Run Executes (.created clock size lamports) first before)
    (hrun : Run Executes before labels after) :
    (∃ old ∈ before.account.data, ∃ new ∈ after.account.data,
        Respects old.convertToCurrent new.convertToCurrent) ∨ UninitializedIn before labels :=
  relates_of_run Respects Respects.refl Respects.trans (fun _ heffect ↦ respects_of_effect heffect) hfirst hrun

/-- The second vote. -/
theorem respects_of_run_votes : ∃ before after,
    Run Executes (.created ⟨5, 6⟩ voteStateSize 10) firstVote before ∧ Run Executes before [secondVote] after ∧
      ((∃ old ∈ before.account.data, ∃ new ∈ after.account.data,
        Respects old.convertToCurrent new.convertToCurrent) ∨ UninitializedIn before [secondVote]) := by
  obtain ⟨before, after, hfirst, hsecond, -⟩ := run_votes
  exact ⟨before, after, hfirst, hsecond, respects_of_run hfirst hsecond⟩

/-- No instruction panics in any run from the creation of an account: no assertion fails, nothing is unwrapped that is
not there, and no index is out of bounds. The clock of the instruction follows the one before it, and its slots are
those at which no lockout wraps around. -/
theorem execute_ne_panic_of_run {clock : Clock} {size lamports : ℕ} {labels : List (Context × Instruction)}
    {ledger : VoteLedger} (hrun : Run Executes (.created clock size lamports) labels ledger) {context : Context}
    (hfollows : ledger.clock.Follows context.clock)
    (hrange : ∀ slot ∈ context.slotHashes.map Prod.fst, Slot.InRange slot) (instruction : Instruction) :
    ledger.account.execute context instruction ≠ .panic := by
  have hvalid := valid_of_run hrun fun _ h ↦ h
  rcases VoteAccount.execute_spec (fun versions hversions ↦ (hvalid versions hversions).mono hfollows)
    hfollows.le_leaderScheduleEpoch hfollows.leaderScheduleEpoch_lt hrange instruction with
    ⟨error, herr⟩ | ⟨account, -, -, hok, -⟩
  · rw [herr]
    rintro ⟨⟩
  · rw [hok]
    rintro ⟨⟩

/-- After the first vote. -/
theorem execute_ne_panic_of_run_votes : ∃ ledger,
    Run Executes (.created ⟨5, 6⟩ voteStateSize 10) firstVote ledger ∧
      ledger.account.execute secondVote.1 secondVote.2 ≠ .panic := by
  obtain ⟨before, -, hfirst, -, hclock, -⟩ := run_votes
  refine ⟨before, hfirst, execute_ne_panic_of_run hfirst ?_ ?_ _⟩
  · rw [hclock]
    exact ⟨by decide, by decide, by decide, by decide⟩
  · exact List.forall_mem_cons.mpr ⟨inRange_four (by decide),
      List.forall_mem_singleton.mpr (inRange_four (by decide))⟩

/-- The credits are valid in every run from the creation of an account, none of them are for an epoch that has not come
yet, and their sum is never less than before, unless the account has been uninitialized in between. -/
theorem credits_of_run {clock : Clock} {size lamports : ℕ} {first labels : List (Context × Instruction)}
    {before after : VoteLedger} (hfirst : Run Executes (.created clock size lamports) first before)
    (hrun : Run Executes before labels after) :
    (∀ versions ∈ after.account.data, VoteState.ValidCredits versions.convertToCurrent.epochCredits ∧
        ∀ last ∈ versions.convertToCurrent.epochCredits.getLast?, last.1 ≤ after.clock.epoch) ∧
      ((∃ old ∈ before.account.data, ∃ new ∈ after.account.data,
        old.convertToCurrent.credits ≤ new.convertToCurrent.credits) ∨ UninitializedIn before labels) := by
  refine ⟨fun versions hversions ↦ ?_, ?_⟩
  · have hvalid := valid_of_run (hfirst.append hrun) (fun _ _ ↦ trivial) versions hversions
    exact ⟨hvalid.credits, hvalid.credits_le⟩
  · exact relates_of_run (fun old new ↦ old.credits ≤ new.credits) (fun _ ↦ le_rfl) (fun _ _ ↦ le_trans)
      earnedCredits_le_of_effect hfirst hrun

/-- The second vote. -/
theorem credits_of_run_votes : ∃ before after,
    Run Executes (.created ⟨5, 6⟩ voteStateSize 10) firstVote before ∧ Run Executes before [secondVote] after ∧
      (∀ versions ∈ after.account.data, VoteState.ValidCredits versions.convertToCurrent.epochCredits ∧
        ∀ last ∈ versions.convertToCurrent.epochCredits.getLast?, last.1 ≤ after.clock.epoch) ∧
      ((∃ old ∈ before.account.data, ∃ new ∈ after.account.data,
        old.convertToCurrent.credits ≤ new.convertToCurrent.credits) ∨ UninitializedIn before [secondVote]) := by
  obtain ⟨before, after, hfirst, hsecond, -⟩ := run_votes
  exact ⟨before, after, hfirst, hsecond, credits_of_run hfirst hsecond⟩

/-- In every run from the creation of an account the voters of a state from the current epoch on are those that have
been authorized last, and a vote that is accepted has been signed by the one for its epoch. -/
theorem authorizedVoter_of_run {clock : Clock} {size lamports : ℕ} {labels : List (Context × Instruction)}
    {ledger : VoteLedger} (hrun : Run Executes (.created clock size lamports) labels ledger) :
    (∀ versions ∈ ledger.account.data, VotersAre ledger.history ledger.clock.epoch versions.convertToCurrent) ∧
      ∀ label after, Executes ledger label after → ∀ account, ledger.account.execute label.1 label.2 = .ok account →
        ((∃ vote, label.2 = .processVote vote) ∨ ∃ update, label.2 = .processVoteStateUpdate update) →
          ∃ pubkey ∈ label.1.signers, voterAt ledger.history label.1.clock.epoch = some pubkey := by
  refine ⟨votersAre_of_run hrun, fun label after hstep account hok hvote ↦ ?_⟩
  have hvalid := valid_of_run hrun fun _ _ ↦ trivial
  rcases VoteAccount.execute_spec (fun versions hversions ↦ (hvalid versions hversions).mono hstep.follows)
    hstep.follows.le_leaderScheduleEpoch hstep.follows.leaderScheduleEpoch_lt hstep.inRange label.2 with
    ⟨error, herr⟩ | ⟨_, old, _, -, hold, -, heffect⟩
  · cases herr.symm.trans hok
  · obtain ⟨pubkey, hsigned, hvoter⟩ := signed_of_effect heffect hvote
    refine ⟨pubkey, hsigned, ?_⟩
    rw [← hvoter]
    exact (votersAre_of_run hrun old hold label.1.clock.epoch hstep.follows.epoch_le).symm

/-- After the first vote. -/
theorem authorizedVoter_of_run_votes : ∃ ledger,
    Run Executes (.created ⟨5, 6⟩ voteStateSize 10) firstVote ledger ∧
      (∀ versions ∈ ledger.account.data, VotersAre ledger.history ledger.clock.epoch versions.convertToCurrent) ∧
      ∀ label after, Executes ledger label after → ∀ account, ledger.account.execute label.1 label.2 = .ok account →
        ((∃ vote, label.2 = .processVote vote) ∨ ∃ update, label.2 = .processVoteStateUpdate update) →
          ∃ pubkey ∈ label.1.signers, voterAt ledger.history label.1.clock.epoch = some pubkey := by
  obtain ⟨before, -, hfirst, -⟩ := run_votes
  exact ⟨before, hfirst, authorizedVoter_of_run hfirst⟩

end Playground.VoteProgram
