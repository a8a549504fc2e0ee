import Playground.Playnet.BankRuns
import Playground.Playnet.ReferenceSdk

/-!
# Slots, blockhashes and recorded transactions

The bank counts its slots twice and links its blockhashes: `InHistory` says that the two counters
agree, that the latest blockhash is the genesis hash hashed once for every slot, and that every
recorded transaction has a slot of its own, below the bank's. Recording a transaction is the only
change of any of these by a call (`InHistory.processed`); saving and reading back keeps the counters
and the hashes and drops the transactions, and a bank that cannot be read back is replaced by a new
one (`InHistory.reload`).

The confirmations reported for a recorded transaction are therefore never a difference below zero
(`InHistory.getSignatureStatuses_ne_none`).
-/

set_option autoImplicit false
set_option relaxedAutoImplicit false

namespace Playground.Playnet

open Library PgBank

variable {sdk : Sdk}

/-- The blockhash that follows another. -/
def nextBlockhash (sdk : Sdk) (hash : Hash) : Hash :=
  createBlockhash sdk (sdk.hashToBytes hash)

/-- The counters of a bank agree, its latest blockhash is that of its slot, and its recorded
transactions have distinct slots below its own. -/
structure InHistory (sdk : Sdk) (bank : PgBank) : Prop where
  blockHeight_eq : bank.blockHeight = bank.slot
  latestBlockhash_eq :
    bank.latestBlockhash = (nextBlockhash sdk)^[bank.slot.toNat] bank.genesisHash
  slot_lt : ∀ {signature recorded}, bank.txs.lookup signature = some recorded →
    recorded.slot.toNat < bank.slot.toNat
  slot_injective : ∀ {signature signature' recorded recorded'},
    bank.txs.lookup signature = some recorded → bank.txs.lookup signature' = some recorded' →
      recorded.slot = recorded'.slot → signature = signature'

namespace InHistory

/-- A bank without recorded transactions in slot zero is in history. -/
theorem of_slot_eq_zero {bank : PgBank} (hslot : bank.slot = 0) (hheight : bank.blockHeight = 0)
    (hlatest : bank.latestBlockhash = bank.genesisHash) (htxs : bank.txs = ∅) :
    InHistory sdk bank where
  blockHeight_eq := by rw [hslot, hheight]
  latestBlockhash_eq := by rw [hslot, hlatest]; rfl
  slot_lt hlookup := by simp [htxs] at hlookup
  slot_injective hlookup := by simp [htxs] at hlookup

/-- A new bank is in history. -/
theorem new_none (serde : Serde) (airdropKp : Keypair) :
    InHistory sdk (new sdk serde airdropKp none) :=
  of_slot_eq_zero rfl rfl rfl rfl

/-- A bank that differs only in its accounts is in history. -/
theorem setAccounts {bank : PgBank} (hbank : InHistory sdk bank)
    (accounts : List TransactionAccount) : InHistory sdk (bank.setAccounts accounts) := by
  rw [setAccounts_eq]
  exact ⟨hbank.blockHeight_eq, hbank.latestBlockhash_eq, hbank.slot_lt, hbank.slot_injective⟩

/-- Recording a transaction in the current slot and starting the next one keeps a bank in history. -/
theorem recordTx {bank : PgBank} (hbank : InHistory sdk bank) {signature : Signature}
    {recorded : TransactionData} (hslot : recorded.slot = bank.slot)
    (hfits : bank.slot.toNat + 1 < 2 ^ 64) : InHistory sdk (recordTx sdk bank signature recorded) := by
  have hnext : (bank.slot + 1).toNat = bank.slot.toNat + 1 := by
    rw [UInt64.toNat_add]
    exact Nat.mod_eq_of_lt hfits
  -- an entry of the new map is the new one or an old one, of a slot below the old one
  have hentry : ∀ {other data}, (bank.txs.insert signature recorded).lookup other = some data →
      (other = signature ∧ data = recorded) ∨ bank.txs.lookup other = some data := by
    intro other data hlookup
    by_cases heq : other = signature
    · subst heq
      rw [Finmap.lookup_insert] at hlookup
      exact .inl ⟨rfl, (Option.some.inj hlookup).symm⟩
    · exact .inr (by rwa [Finmap.lookup_insert_of_ne _ heq] at hlookup)
  have hne : ∀ {other data}, bank.txs.lookup other = some data → data.slot ≠ recorded.slot := by
    intro other data hlookup heq
    have hlt := hbank.slot_lt hlookup
    rw [heq, hslot] at hlt
    exact absurd hlt (lt_irrefl _)
  refine ⟨?_, ?_, ?_, ?_⟩
  · exact congrArg (· + 1) hbank.blockHeight_eq
  · change nextBlockhash sdk bank.latestBlockhash =
      (nextBlockhash sdk)^[(bank.slot + 1).toNat] bank.genesisHash
    rw [hnext, Function.iterate_succ_apply', ← hbank.latestBlockhash_eq]
  · intro other data hlookup
    change data.slot.toNat < (bank.slot + 1).toNat
    rcases hentry hlookup with ⟨-, rfl⟩ | hold
    · rw [hslot]
      omega
    · have hlt := hbank.slot_lt hold
      omega
  · intro first second data data' hfirst hsecond heq
    rcases hentry hfirst with ⟨rfl, rfl⟩ | hold
    · rcases hentry hsecond with ⟨rfl, rfl⟩ | hold'
      · rfl
      · exact absurd heq.symm (hne hold')
    · rcases hentry hsecond with ⟨rfl, rfl⟩ | hold'
      · exact absurd heq (hne hold)
      · exact hbank.slot_injective hold hold' heq

/-- Processing a transaction keeps a bank in history. -/
theorem processed {bank after : PgBank} {tx : SanitizedTransaction}
    {result : Except TransactionError Signature} (hbank : InHistory sdk bank)
    (hprocessed : Processed sdk bank tx after result) : InHistory sdk after := by
  cases hprocessed with
  | failed => exact hbank
  | unrecorded => exact hbank.setAccounts _
  | replayed => exact hbank.setAccounts _
  | recorded _ _ _ hslot hslotFits _ =>
    refine (hbank.setAccounts _).recordTx ?_ ?_
    · rw [setAccounts_slot, hslot]
    · rwa [setAccounts_slot]

/-- Saving a bank and making a bank of what was saved keeps it in history. -/
theorem reload {serde : Serde} (hserde : serde.ReadsBack) {bank : PgBank}
    (hbank : InHistory sdk bank) (freshKp : Keypair) :
    InHistory sdk (new sdk serde freshKp (some (getSaveData serde bank))) := by
  have hread : InHistory sdk (readBank sdk serde freshKp (some (getSaveData serde bank))) := by
    dsimp only [readBank]
    split
    next saved hsaved =>
      obtain rfl := hserde _ _ hsaved
      refine ⟨hbank.blockHeight_eq, hbank.latestBlockhash_eq, ?_, ?_⟩
      · intro signature recorded hlookup
        simp [ofSaved] at hlookup
      · intro signature signature' recorded recorded' hlookup
        simp [ofSaved] at hlookup
    next => exact of_slot_eq_zero rfl rfl rfl rfl
  exact ⟨hread.blockHeight_eq, hread.latestBlockhash_eq, hread.slot_lt, hread.slot_injective⟩

/-- Every step keeps a bank in history. -/
theorem step {serde : Serde} (hserde : serde.ReadsBack) {bank after : PgBank} {call : BankCall}
    (hbank : InHistory sdk bank) (hstep : step sdk serde bank call = some after) :
    InHistory sdk after := by
  rcases step_cases hstep with rfl | ⟨tx, result, hprocessed⟩ | ⟨freshKp, rfl, rfl⟩
  · exact hbank
  · exact hbank.processed hprocessed
  · exact hbank.reload hserde freshKp

/-- Every bank that can be reached is in history. -/
theorem of_reachable {serde : Serde} (hserde : serde.ReadsBack) {airdropKp : Keypair}
    {bank : PgBank} (hreachable : Reachable sdk serde airdropKp bank) : InHistory sdk bank := by
  obtain ⟨calls, hrun⟩ := hreachable
  exact hrun.invariant (fun _ _ _ hbefore hstep ↦ hbefore.step hserde hstep)
    (new_none serde airdropKp)

/-- The status of a recorded transaction can be computed. -/
theorem transactionStatus_ne_none {bank : PgBank} (hbank : InHistory sdk bank)
    {signature : Signature} {recorded : TransactionData}
    (hlookup : bank.getTx signature = some recorded) : transactionStatus bank recorded ≠ none := by
  have hle : recorded.slot ≤ bank.slot := Nat.le_of_lt (hbank.slot_lt hlookup)
  simp [transactionStatus, subOrPanic, hle]

/-- The statuses of any signatures can be computed. -/
theorem getSignatureStatuses_ne_none {bank : PgBank} (hbank : InHistory sdk bank)
    (signatures : List Signature) : getSignatureStatuses bank signatures ≠ none := by
  induction signatures with
  | nil => simp [getSignatureStatuses]
  | cons signature rest ih =>
    obtain ⟨statuses, hstatuses⟩ := Option.ne_none_iff_exists'.mp ih
    unfold getSignatureStatuses at hstatuses ⊢
    rw [List.mapM_cons, hstatuses]
    cases hlookup : bank.getTx signature with
    | none => simp
    | some recorded =>
      obtain ⟨status, hstatus⟩ :=
        Option.ne_none_iff_exists'.mp (hbank.transactionStatus_ne_none hlookup)
      simp [hstatus]

end InHistory

/-- In every bank reached from a new one by processing transactions, airdrops and reloads, the two
counters agree, the latest blockhash is the genesis hash hashed once for every slot, the recorded
transactions have distinct slots below the bank's, and their statuses can be computed. -/
theorem reachable_history {serde : Serde} (hserde : serde.ReadsBack) {airdropKp : Keypair}
    {bank : PgBank} (hreachable : Reachable sdk serde airdropKp bank) :
    bank.slot = bank.blockHeight ∧
      bank.latestBlockhash =
        (fun hash ↦ createBlockhash sdk (sdk.hashToBytes hash))^[bank.slot.toNat]
          bank.genesisHash ∧
      (∀ signature recorded, bank.txs.lookup signature = some recorded →
        recorded.slot < bank.slot) ∧
      (∀ signature signature' recorded recorded', signature ≠ signature' →
        bank.txs.lookup signature = some recorded →
          bank.txs.lookup signature' = some recorded' → recorded.slot ≠ recorded'.slot) ∧
      ∀ signatures, getSignatureStatuses bank signatures ≠ none := by
  have hbank := InHistory.of_reachable hserde hreachable
  refine ⟨hbank.blockHeight_eq.symm, hbank.latestBlockhash_eq, fun _ _ hlookup ↦ ?_, ?_,
    hbank.getSignatureStatuses_ne_none⟩
  · exact UInt64.lt_iff_toNat_lt.mpr (hbank.slot_lt hlookup)
  · intro signature signature' recorded recorded' hne hlookup hlookup' heq
    exact hne (hbank.slot_injective hlookup hlookup' heq)

/-- A bank that pays five lamports, is saved and read back, and pays them again. -/
theorem reachable_history_reloaded :
    let tx := transferTx [payerKp.pubkey, receiverKey, systemProgramId] (by decide) (by decide)
    let saved := (processTx referenceSdk (new referenceSdk (referenceSerde none) payerKp none) tx).map
      fun outcome ↦ outcome.1.toSaved
    let serde := referenceSerde saved
    ∃ bank, Run (StepsTo (PgBank.step referenceSdk serde)) (new referenceSdk serde payerKp none)
        [.call (.processTx tx), .reload payerKp, .call (.processTx tx)] bank ∧
      bank.slot = 2 ∧ bank.slot = bank.blockHeight := by
  intro tx saved serde
  have hslot : ([.call (.processTx tx), .reload payerKp, .call (.processTx tx)].foldlM
      (PgBank.step referenceSdk serde) (new referenceSdk serde payerKp none)).map PgBank.slot = some 2 := by decide +kernel
  obtain ⟨bank, hfold, hslot⟩ := Option.map_eq_some_iff.mp hslot
  have hrun := Run.of_foldlM hfold
  refine ⟨bank, hrun, hslot, (reachable_history (referenceSerde_readsBack saved) ⟨_, hrun⟩).1⟩

end Playground.Playnet
