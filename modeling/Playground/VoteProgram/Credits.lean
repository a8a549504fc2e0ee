import Mathlib.Data.List.ModifyLast
import Playground.VoteProgram.Advances

/-!
# Credits of epochs

The credits of a state are kept by epoch, at most `maxEpochCreditsHistory` of them, each with what had been earned at
its end and before it (`ValidCredits`). As long as no credits are added for an epoch before the last one, they stay
that way, each epoch with at least one credit, and the sum is what has been added (`addCredits_spec`).
-/

set_option autoImplicit false
set_option relaxedAutoImplicit false

namespace Playground.VoteProgram

open Library

namespace VoteState

/-- How the credits of an epoch go on from those of the one before. -/
structure Continues (earlier later : Epoch × ℕ × ℕ) : Prop where
  epoch_lt : earlier.1 < later.1
  prevCredits_eq : later.2.2 = earlier.2.1

/-- Credits of epochs one after another, in each of which some have been earned. -/
structure ValidCredits (epochCredits : List (Epoch × ℕ × ℕ)) : Prop where
  length_le : epochCredits.length ≤ maxEpochCreditsHistory
  earned : ∀ entry ∈ epochCredits, entry.2.2 < entry.2.1
  chain : epochCredits.IsChain Continues

namespace ValidCredits

variable {epochCredits front : List (Epoch × ℕ × ℕ)} {last : Epoch × ℕ × ℕ}

/-- No credits have been earned. -/
theorem nil : ValidCredits [] :=
  ⟨Nat.zero_le _, fun _ h ↦ absurd h List.not_mem_nil, .nil⟩

/-- The last credits of some that are valid may be for more. -/
theorem concat_add (hvalid : ValidCredits (front ++ [last])) (credits : ℕ) :
    ValidCredits (front ++ [(last.1, last.2.1 + credits, last.2.2)]) := by
  refine ⟨?_, fun entry hentry ↦ ?_, ?_⟩
  · have hlength := hvalid.length_le
    rw [List.length_append, List.length_singleton] at hlength ⊢
    exact hlength
  · rcases List.mem_append.mp hentry with hfront | hlast
    · exact hvalid.earned entry (List.mem_append_left _ hfront)
    · rw [List.mem_singleton.mp hlast]
      exact (hvalid.earned last (List.mem_append_right _ (List.mem_singleton.mpr rfl))).trans_le (Nat.le_add_right _ _)
  · obtain ⟨hfront, -, hlast⟩ := List.isChain_append.mp hvalid.chain
    refine List.isChain_append.mpr ⟨hfront, .singleton _, fun entry hentry other hother ↦ ?_⟩
    have hcontinues := hlast entry hentry last rfl
    rw [List.head?_cons, Option.mem_some_iff] at hother
    exact hother ▸ ⟨hcontinues.epoch_lt, hcontinues.prevCredits_eq⟩

/-- The last credits of some that are valid, with those of a later epoch behind them, are valid if there are not too
many of them. -/
theorem concat_new (hvalid : ValidCredits (front ++ [last])) {epoch : Epoch} (hepoch : last.1 < epoch) {credits : ℕ}
    (hpos : 0 < credits) {part : List (Epoch × ℕ × ℕ)}
    (hpart : part <:+ front ++ [last] ++ [(epoch, last.2.1 + credits, last.2.1)])
    (hlength : part.length ≤ maxEpochCreditsHistory) : ValidCredits part := by
  refine ⟨hlength, fun entry hentry ↦ ?_, List.IsChain.suffix ?_ hpart⟩
  · rcases List.mem_append.mp (hpart.subset hentry) with hbefore | hnew
    · exact hvalid.earned entry hbefore
    · rw [List.mem_singleton.mp hnew]
      exact Nat.lt_add_of_pos_right hpos
  · refine List.isChain_append.mpr ⟨hvalid.chain, .singleton _, fun entry hentry other hother ↦ ?_⟩
    rw [List.getLast?_concat, Option.mem_some_iff] at hentry
    rw [List.head?_cons, Option.mem_some_iff] at hother
    subst hentry hother
    exact ⟨hepoch, rfl⟩

end ValidCredits

/-- Credits for the last epoch. -/
theorem addCredits_concat (front : List (Epoch × ℕ × ℕ)) (last : Epoch × ℕ × ℕ) (credits : ℕ) :
    addCredits last.1 (front ++ [last]) credits = front ++ [(last.1, last.2.1 + credits, last.2.2)] := by
  have hcredited : creditedEpoch (front ++ [last]) last.1 = front ++ [last] := by
    rw [creditedEpoch, List.getLast?_concat]
    exact if_pos rfl
  rw [addCredits, hcredited, List.modifyLast_concat]

/-- Credits for another epoch than the last one, in which some had been earned, come behind the others, without the
first of them if there are too many. -/
theorem addCredits_concat_of_ne {front : List (Epoch × ℕ × ℕ)} {last : Epoch × ℕ × ℕ} {epoch : Epoch}
    (hne : epoch ≠ last.1) (hearned : last.2.1 ≠ last.2.2) (hlength : (front ++ [last]).length ≤ maxEpochCreditsHistory)
    (credits : ℕ) :
    ∃ part, part <:+ front ++ [last] ∧ part.length < maxEpochCreditsHistory ∧
      addCredits epoch (front ++ [last]) credits = part ++ [(epoch, last.2.1 + credits, last.2.1)] := by
  have hcredited : creditedEpoch (front ++ [last]) epoch =
      if (front ++ [last] ++ [(epoch, last.2.1, last.2.1)]).length > maxEpochCreditsHistory then
        (front ++ [last] ++ [(epoch, last.2.1, last.2.1)]).tail
      else front ++ [last] ++ [(epoch, last.2.1, last.2.1)] := by
    rw [creditedEpoch, List.getLast?_concat]
    simp only [hne, if_false, ne_eq, hearned, not_false_eq_true, if_true]
  rw [addCredits, hcredited]
  rw [List.length_append, List.length_singleton] at hlength ⊢
  split_ifs with hmany
  · refine ⟨(front ++ [last]).tail, List.tail_suffix _, ?_, ?_⟩
    · rw [List.length_tail, List.length_append, List.length_singleton]
      omega
    · rw [List.tail_append_of_ne_nil (List.append_ne_nil_of_right_ne_nil _ (List.cons_ne_nil _ _)),
        List.modifyLast_concat]
  · exact ⟨front ++ [last], List.suffix_rfl, not_lt.mp hmany, List.modifyLast_concat ..⟩

/-- The sum of the credits that have been earned. -/
def earnedCredits (epochCredits : List (Epoch × ℕ × ℕ)) : ℕ :=
  epochCredits.getLast?.elim 0 fun entry ↦ entry.2.1

/-- Valid credits stay valid when some are added for an epoch that is not before the last one, which is the last one
then, and the sum is larger by what has been added. -/
theorem addCredits_spec {epochCredits : List (Epoch × ℕ × ℕ)} (hvalid : ValidCredits epochCredits) {epoch : Epoch}
    (hepoch : ∀ last ∈ epochCredits.getLast?, last.1 ≤ epoch) {credits : ℕ} (hpos : 0 < credits) :
    ValidCredits (addCredits epoch epochCredits credits) ∧
      (∃ last ∈ (addCredits epoch epochCredits credits).getLast?, last.1 = epoch) ∧
      earnedCredits (addCredits epoch epochCredits credits) = earnedCredits epochCredits + credits := by
  rcases List.eq_nil_or_concat epochCredits with rfl | ⟨front, last, rfl⟩
  · have hadd : addCredits epoch [] credits = [(epoch, credits, 0)] :=
      congrArg (fun earned ↦ [(epoch, earned, 0)]) (Nat.zero_add credits)
    rw [hadd]
    exact ⟨⟨Nat.le_of_ble_eq_true rfl, List.forall_mem_singleton.mpr hpos, .singleton _⟩, ⟨_, rfl, rfl⟩,
      (Nat.zero_add credits).symm⟩
  rw [List.concat_eq_append] at hvalid hepoch ⊢
  have hsum : ∀ front (last : Epoch × ℕ × ℕ), earnedCredits (front ++ [last]) = last.2.1 := fun front last ↦ by
    rw [earnedCredits, List.getLast?_concat, Option.elim_some]
  rcases (hepoch last List.getLast?_concat).eq_or_lt with rfl | hlt
  · rw [addCredits_concat, hsum, hsum]
    exact ⟨hvalid.concat_add credits, ⟨_, List.getLast?_concat, rfl⟩, rfl⟩
  · have hearned := hvalid.earned last (List.mem_append_right _ (List.mem_singleton.mpr rfl))
    obtain ⟨part, hpart, hlength, hadd⟩ := addCredits_concat_of_ne hlt.ne' hearned.ne' hvalid.length_le credits
    rw [hadd, hsum, hsum]
    refine ⟨hvalid.concat_new hlt hpos (List.suffix_append_self_iff.mpr hpart) ?_, ⟨_, List.getLast?_concat, rfl⟩, rfl⟩
    rw [List.length_append, List.length_singleton]
    exact hlength

/-- Valid credits stay valid when more are added for an epoch that is not before the last one. -/
theorem foldl_addCredits_spec {epoch : Epoch} {amounts : List ℕ} (hpos : ∀ amount ∈ amounts, 0 < amount)
    {epochCredits : List (Epoch × ℕ × ℕ)} (hvalid : ValidCredits epochCredits)
    (hepoch : ∀ last ∈ epochCredits.getLast?, last.1 ≤ epoch) :
    ValidCredits (amounts.foldl (addCredits epoch) epochCredits) ∧
      (∀ last ∈ (amounts.foldl (addCredits epoch) epochCredits).getLast?, last.1 ≤ epoch) ∧
      earnedCredits (amounts.foldl (addCredits epoch) epochCredits) = earnedCredits epochCredits + amounts.sum := by
  induction amounts generalizing epochCredits with
  | nil => exact ⟨hvalid, hepoch, rfl⟩
  | cons amount amounts ih =>
    rw [List.forall_mem_cons] at hpos
    obtain ⟨hadded, ⟨last, hlast, hsame⟩, hsum⟩ := addCredits_spec hvalid hepoch hpos.1
    obtain ⟨hall, hlater, htotal⟩ := ih hpos.2 hadded fun other hother ↦
      (Option.mem_unique hother hlast ▸ hsame).le
    exact ⟨hall, hlater, by rw [List.foldl_cons, htotal, hsum, List.sum_cons, Nat.add_assoc]⟩

end VoteState

end Playground.VoteProgram
