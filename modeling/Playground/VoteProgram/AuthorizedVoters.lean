import Playground.Library.Outcome
import Playground.Library.SortedMap
import Playground.Playnet.Sdk

/-!
# Authorized voters

`AuthorizedVoters` of `wasm/utils/solana-extra/src/program/vote/authorized_voters.rs`: who may vote for an account
from which epoch on. An epoch without an entry has the voter of the last one before it. The voter of the current
epoch is cached, and the entries of earlier epochs are removed.

From the current epoch on, neither changes who may vote in an epoch (`getAndUpdateAuthorizedVoter_eq`), and a voter that
is set for an epoch behind all others may vote from that epoch on (`getAuthorizedVoter_insert`).
-/

set_option autoImplicit false
set_option relaxedAutoImplicit false

namespace Playground.VoteProgram

open Library

/-- An epoch. -/
abbrev Epoch := ℕ

/-- `Pubkey`. -/
abbrev Pubkey := Playnet.Pubkey

/-- `AuthorizedVoters`, a map from epochs. -/
abbrev AuthorizedVoters := SortedMap Epoch Pubkey

namespace AuthorizedVoters

/-- `AuthorizedVoters::get_or_calculate_authorized_voter_for_epoch`: the voter, and whether the epoch has an entry. -/
def getOrCalculateAuthorizedVoterForEpoch (voters : AuthorizedVoters) (epoch : Epoch) : Option (Pubkey × Bool) :=
  match voters.get epoch with
  | some pubkey => some (pubkey, true)
  | none => (voters.before epoch).map fun entry ↦ (entry.2, false)

/-- `AuthorizedVoters::get_authorized_voter`. -/
def getAuthorizedVoter (voters : AuthorizedVoters) (epoch : Epoch) : Option Pubkey :=
  (getOrCalculateAuthorizedVoterForEpoch voters epoch).map Prod.fst

/-- `AuthorizedVoters::get_and_cache_authorized_voter_for_epoch`. -/
def getAndCacheAuthorizedVoterForEpoch (voters : AuthorizedVoters) (epoch : Epoch) :
    Option (Pubkey × AuthorizedVoters) :=
  (getOrCalculateAuthorizedVoterForEpoch voters epoch).map fun (pubkey, existed) ↦
    (pubkey, if existed then voters else voters.insert epoch pubkey)

/-- `AuthorizedVoters::purge_authorized_voters`, which panics if no entry is left. -/
def purgeAuthorizedVoters {ε : Type} (voters : AuthorizedVoters) (currentEpoch : Epoch) :
    Outcome ε AuthorizedVoters :=
  let voters := voters.dropBelow currentEpoch
  if voters.isEmpty then .panic else .ok voters

/-- `VoteState::get_and_update_authorized_voter`; `missing` is the error of an epoch without a voter. -/
def getAndUpdateAuthorizedVoter {ε : Type} (missing : ε) (voters : AuthorizedVoters) (currentEpoch : Epoch) :
    Outcome ε (Pubkey × AuthorizedVoters) :=
  match getAndCacheAuthorizedVoterForEpoch voters currentEpoch with
  | none => .err missing
  | some (pubkey, voters) => do
    let voters ← purgeAuthorizedVoters voters currentEpoch
    pure (pubkey, voters)

variable {voters : AuthorizedVoters} {epoch currentEpoch : Epoch} {pubkey : Pubkey}

/-- The voter of an epoch is that of the last entry up to it. -/
theorem getAuthorizedVoter_eq_latest : getAuthorizedVoter voters epoch = voters.latest epoch := by
  rw [SortedMap.latest_eq, getAuthorizedVoter, getOrCalculateAuthorizedVoterForEpoch]
  cases voters.get epoch with
  | some pubkey => rfl
  | none => rw [Option.none_or, Option.map_map]; rfl

/-- What looking up the voter of the current epoch comes to: the voter has an entry for it then, no entry is before
it, and every other entry was there. -/
theorem getAndUpdateAuthorizedVoter_eq {ε : Type} (missing : ε) :
    getAndUpdateAuthorizedVoter missing voters currentEpoch = .err missing ∧
        getAuthorizedVoter voters currentEpoch = none ∨
      ∃ pubkey updated, getAndUpdateAuthorizedVoter missing voters currentEpoch = .ok (pubkey, updated) ∧
        getAuthorizedVoter voters currentEpoch = some pubkey ∧
        (∀ entry, entry ∈ updated.entries ↔
          entry = (currentEpoch, pubkey) ∨ entry ∈ voters.entries ∧ currentEpoch < entry.1) ∧
        ∀ epoch, currentEpoch ≤ epoch → getAuthorizedVoter updated epoch = getAuthorizedVoter voters epoch := by
  cases hget : voters.get currentEpoch with
  | some pubkey =>
    have hmem := SortedMap.get_eq_some_iff.mp hget
    have hdrop : (currentEpoch, pubkey) ∈ (voters.dropBelow currentEpoch).entries :=
      SortedMap.mem_dropBelow.mpr ⟨hmem, le_rfl⟩
    have hempty : (voters.dropBelow currentEpoch).isEmpty = false :=
      List.isEmpty_eq_false_iff.mpr (List.ne_nil_of_mem hdrop)
    refine Or.inr ⟨pubkey, voters.dropBelow currentEpoch, ?_, ?_, fun entry ↦ ?_, fun epoch hepoch ↦ ?_⟩
    · rw [getAndUpdateAuthorizedVoter, getAndCacheAuthorizedVoterForEpoch, getOrCalculateAuthorizedVoterForEpoch, hget,
        Option.map_some]
      simp only [if_true, purgeAuthorizedVoters, hempty, Bool.false_eq_true, if_false, Outcome.ok_bind,
        Outcome.pure_eq_ok]
    · rw [getAuthorizedVoter, getOrCalculateAuthorizedVoterForEpoch, hget]
      rfl
    · rw [SortedMap.mem_dropBelow]
      constructor
      · rintro ⟨hentry, hle⟩
        rcases hle.eq_or_lt with heq | hlt
        · refine Or.inl (Prod.ext heq.symm ?_)
          exact SortedMap.value_unique (heq ▸ hentry : (currentEpoch, entry.2) ∈ voters.entries) hmem
        · exact Or.inr ⟨hentry, hlt⟩
      · rintro (rfl | ⟨hentry, hlt⟩)
        · exact ⟨hmem, le_rfl⟩
        · exact ⟨hentry, hlt.le⟩
    · rw [getAuthorizedVoter_eq_latest, getAuthorizedVoter_eq_latest, SortedMap.latest_dropBelow hmem hepoch]
  | none =>
    cases hbefore : voters.before currentEpoch with
    | none =>
      refine Or.inl ⟨?_, ?_⟩
      · rw [getAndUpdateAuthorizedVoter, getAndCacheAuthorizedVoterForEpoch, getOrCalculateAuthorizedVoterForEpoch,
          hget, hbefore]
        rfl
      · rw [getAuthorizedVoter, getOrCalculateAuthorizedVoterForEpoch, hget, hbefore]
        rfl
    | some last =>
      have hlatest : voters.latest currentEpoch = some last.2 := by
        rw [SortedMap.latest_eq, hget, hbefore, Option.none_or, Option.map_some]
      have hmem : (currentEpoch, last.2) ∈ (voters.insert currentEpoch last.2).entries :=
        SortedMap.mem_insert.mpr (Or.inl rfl)
      have hdrop : (currentEpoch, last.2) ∈ ((voters.insert currentEpoch last.2).dropBelow currentEpoch).entries :=
        SortedMap.mem_dropBelow.mpr ⟨hmem, le_rfl⟩
      have hempty : ((voters.insert currentEpoch last.2).dropBelow currentEpoch).isEmpty = false :=
        List.isEmpty_eq_false_iff.mpr (List.ne_nil_of_mem hdrop)
      refine Or.inr ⟨last.2, (voters.insert currentEpoch last.2).dropBelow currentEpoch, ?_, ?_, fun entry ↦ ?_,
        fun epoch hepoch ↦ ?_⟩
      · rw [getAndUpdateAuthorizedVoter, getAndCacheAuthorizedVoterForEpoch, getOrCalculateAuthorizedVoterForEpoch,
          hget, hbefore, Option.map_some, Option.map_some]
        simp only [Bool.false_eq_true, if_false, purgeAuthorizedVoters, hempty, Outcome.ok_bind, Outcome.pure_eq_ok]
      · rw [getAuthorizedVoter_eq_latest, hlatest]
      · rw [SortedMap.mem_dropBelow, SortedMap.mem_insert]
        constructor
        · rintro ⟨heq | ⟨hentry, hne⟩, hle⟩
          · exact Or.inl heq
          · exact Or.inr ⟨hentry, lt_of_le_of_ne hle (Ne.symm hne)⟩
        · rintro (rfl | ⟨hentry, hlt⟩)
          · exact ⟨Or.inl rfl, le_rfl⟩
          · exact ⟨Or.inr ⟨hentry, hlt.ne'⟩, hlt.le⟩
      · rw [getAuthorizedVoter_eq_latest, getAuthorizedVoter_eq_latest, SortedMap.latest_dropBelow hmem hepoch,
          SortedMap.latest_insert_of_latest hlatest hepoch]

/-- A voter that is set for an epoch behind all others may vote from that epoch on. -/
theorem getAuthorizedVoter_insert {targetEpoch : Epoch} (hlast : ∀ entry ∈ voters.entries, entry.1 < targetEpoch) :
    getAuthorizedVoter (voters.insert targetEpoch pubkey) epoch =
      if targetEpoch ≤ epoch then some pubkey else getAuthorizedVoter voters epoch := by
  rw [getAuthorizedVoter_eq_latest, getAuthorizedVoter_eq_latest, SortedMap.latest_insert_of_last hlast]

end AuthorizedVoters

end Playground.VoteProgram
