import Playground.Playnet.ReferenceSdk

/-!
# Who authorizes a system instruction

A system instruction that succeeds takes lamports only from accounts, and changes the data or the
owner only of accounts, that a signature has authorized: that of the account's own key, that of the
base key its address is derived from with a seed, or that of the authority recorded in its nonce
state. The two instructions that need no signature by design, which set up and upgrade a nonce
account, are the only exceptions (`SystemInstruction.isUnsigned`). Nothing is assumed about which
positions of the instruction stand for the same account.
-/

set_option autoImplicit false
set_option relaxedAutoImplicit false

namespace Playground.Playnet

open Library

/-- Whoever loses lamports, or whose data or owner a system instruction changes, has authorized it:
its key is among the signers, or the base key of its derived address, or the authority recorded in
its nonce state. Initializing and upgrading a nonce account are left out, since they ask for no
signature. -/
theorem processSystemInstruction_authorized {sdk : Sdk} (hsdk : sdk.Lawful) {invoke : InvokeContext}
    {context after : TransactionContext} {instruction : InstructionContext}
    {decoded : SystemInstruction} {index : ℕ} {key newKey : Pubkey} {old new : Account}
    (hdecode : sdk.limitedDeserialize instruction.instructionData = .ok decoded)
    (hsigned : decoded.isUnsigned = false)
    (hok : processSystemInstruction sdk invoke context instruction = .ok after)
    (hold : context.accounts[index]? = some (key, old))
    (hnew : after.accounts[index]? = some (newKey, new))
    (hchanged : new.lamports < old.lamports ∨ new.data ≠ old.data ∨ new.owner ≠ old.owner) :
    newKey = key ∧ Authorized sdk (signerKeys context instruction) key old := by
  obtain ⟨decoded', hdecode', hok⟩ := Outcome.bind_eq_ok.mp hok
  obtain rfl : decoded' = decoded := Outcome.ok.inj (hdecode'.symm.trans hdecode)
  obtain ⟨signers, hsigners, hok⟩ := Outcome.bind_eq_ok.mp hok
  have heffect := runSystemInstruction_effect hsdk (hsdk.getSigners_ok hsigners) subset_rfl
    (fun hunsigned ↦ absurd hunsigned (by simp [hsigned])) hok
  obtain ⟨new', hnew', hframed⟩ := heffect.framed hold
  obtain ⟨rfl, rfl⟩ := Prod.mk.inj (Option.some.inj (hnew'.symm.trans hnew))
  refine ⟨rfl, ?_⟩
  by_contra hnot
  have hindex : index ∉ authorizedIndices sdk (signerKeys context instruction) context := by
    rintro ⟨otherKey, other, hother, hauthorized⟩
    obtain ⟨rfl, rfl⟩ := Prod.mk.inj (Option.some.inj (hold.symm.trans hother))
    exact hnot hauthorized
  rcases hchanged with hless | hne | hne
  · exact absurd (UInt64.lt_iff_toNat_lt.mp hless) (Nat.not_lt.mpr (hframed.lamports_le hindex))
  · exact hne (hframed.data_eq hindex)
  · exact hne (hframed.owner_eq hindex)

/-- A transfer of five lamports out of ten, and who has authorized it. -/
theorem processSystemInstruction_authorized_transfer :
    let invoke : InvokeContext :=
      ⟨referenceRent.1, [], ⟨none, none, none⟩, fun _ ↦ false, 0, 0⟩
    let context : TransactionContext :=
      { accounts := [(payerKp.pubkey, { lamports := 10 }), (receiverKey, {})] }
    let after : TransactionContext :=
      { accounts := [(payerKp.pubkey, { lamports := 5 }), (receiverKey, { lamports := 5 })] }
    let instruction : InstructionContext :=
      ⟨[], [⟨0, 0, 0, true, true⟩, ⟨1, 1, 1, false, true⟩], transferData 5⟩
    processSystemInstruction referenceSdk invoke context instruction = .ok after ∧
      Authorized referenceSdk (signerKeys context instruction) payerKp.pubkey { lamports := 10 } := by
  intro invoke context after instruction
  have hok : processSystemInstruction referenceSdk invoke context instruction = .ok after := by
    decide +kernel
  have hdecode : referenceSdk.limitedDeserialize instruction.instructionData = .ok (.transfer 5) := by
    decide +kernel
  refine ⟨hok, (processSystemInstruction_authorized referenceSdk_lawful hdecode rfl hok
    (show context.accounts[0]? = some (payerKp.pubkey, { lamports := 10 }) from rfl)
    (show after.accounts[0]? = some (payerKp.pubkey, { lamports := 5 }) from rfl) ?_).2⟩
  exact .inl (by decide)

end Playground.Playnet
