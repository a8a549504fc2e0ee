import Playground.Library.Runs
import Playground.Playnet.Rpc

/-!
# Runs of the bank

What `processTx` can do is one of four things (`Processed`): it fails before anything is written; it
writes the accounts back and records nothing, for a transaction with an upgradeable loader `Write`;
it writes the accounts back and then finds the signature recorded; or it writes the accounts back,
records the transaction and starts a slot. Everything the development proves about single calls is a
case analysis of `Processed`.

A run is a sequence of calls of `processTx` and `airdrop` and of reloads, in which the bank is saved
and a new one is made of what was saved. Calls that panic end the program and are not part of a run.
-/

set_option autoImplicit false
set_option relaxedAutoImplicit false

namespace Playground.Playnet

open Library

namespace PgBank

variable (sdk : Sdk)

/-! ### One call -/

/-- Writing back the accounts of a transaction changes no other field of the bank. -/
theorem setAccounts_eq (accounts : List TransactionAccount) :
    ∀ bank : PgBank, bank.setAccounts accounts =
      { bank with accounts := writeAll bank.accounts accounts } := by
  induction accounts with
  | nil => exact fun _ ↦ rfl
  | cons entry rest ih => exact fun bank ↦ ih (bank.setAccount entry.1 entry.2)

@[simp] theorem setAccounts_txs (accounts : List TransactionAccount) (bank : PgBank) :
    (bank.setAccounts accounts).txs = bank.txs := by
  rw [setAccounts_eq]

@[simp] theorem setAccounts_slot (accounts : List TransactionAccount) (bank : PgBank) :
    (bank.setAccounts accounts).slot = bank.slot := by
  rw [setAccounts_eq]

@[simp] theorem setAccounts_blockHeight (accounts : List TransactionAccount) (bank : PgBank) :
    (bank.setAccounts accounts).blockHeight = bank.blockHeight := by
  rw [setAccounts_eq]

/-- The bank after a new transaction has been recorded in it. -/
def recordTx (bank : PgBank) (signature : Signature) (recorded : TransactionData) : PgBank :=
  { bank with
    txs := bank.txs.insert signature recorded
    latestBlockhash := createBlockhash sdk (sdk.hashToBytes bank.latestBlockhash)
    slot := bank.slot + 1
    blockHeight := bank.blockHeight + 1 }

/-- What `process_tx` can do. -/
inductive Processed (bank : PgBank) (tx : SanitizedTransaction) :
    PgBank → Except TransactionError Signature → Prop
  | failed {error : TransactionError}
      (hfailed : loadAndExecuteTx sdk bank tx = .err error) :
      Processed bank tx bank (.error error)
  | unrecorded {loaded : List TransactionAccount} {executed : MessageState}
      (hexecuted : loadAndExecuteTx sdk bank tx = .ok (loaded, executed))
      (hwrite : bpfUpgradeableWriteIxExists tx = true) :
      Processed bank tx
        (bank.setAccounts (executed.context.accounts.take tx.message.accountKeys.length))
        (.ok tx.signature)
  | replayed {loaded : List TransactionAccount} {executed : MessageState}
      (hexecuted : loadAndExecuteTx sdk bank tx = .ok (loaded, executed))
      (hwrite : bpfUpgradeableWriteIxExists tx = false)
      (hrecorded : bank.txs.lookup tx.signature ≠ none) :
      Processed bank tx
        (bank.setAccounts (executed.context.accounts.take tx.message.accountKeys.length))
        (.error .alreadyProcessed)
  | recorded {loaded : List TransactionAccount} {executed : MessageState} {data : TransactionData}
      (hexecuted : loadAndExecuteTx sdk bank tx = .ok (loaded, executed))
      (hwrite : bpfUpgradeableWriteIxExists tx = false)
      (hfresh : bank.txs.lookup tx.signature = none) (hslot : data.slot = bank.slot)
      (hslotFits : bank.slot.toNat + 1 < 2 ^ 64)
      (hheightFits : bank.blockHeight.toNat + 1 < 2 ^ 64) :
      Processed bank tx
        (recordTx sdk (bank.setAccounts
          (executed.context.accounts.take tx.message.accountKeys.length)) tx.signature data)
        (.ok tx.signature)

variable {sdk}

/-- No signature costs anything. -/
theorem getFeeForMessage_eq (message : SanitizedMessage) : getFeeForMessage message = some 0 := by
  simp [getFeeForMessage, checkedMul, lamportsPerSignature]

/-- Simulating a transaction that fails gives its error. -/
theorem simulateTx_of_err {bank : PgBank} {tx : SanitizedTransaction} {error : TransactionError}
    (hfailed : loadAndExecuteTx sdk bank tx = .err error) :
    simulateTx sdk bank tx = some (.newError error) := by
  rw [simulateTx, hfailed]

/-- Simulating a transaction that executes gives its accounts before and after. -/
theorem simulateTx_of_ok {bank : PgBank} {tx : SanitizedTransaction}
    {loaded : List TransactionAccount} {executed : MessageState}
    (hexecuted : loadAndExecuteTx sdk bank tx = .ok (loaded, executed)) :
    simulateTx sdk bank tx = some
      { result := .ok ()
        preAccounts := loaded.take tx.message.accountKeys.length
        postAccounts := executed.context.accounts.take tx.message.accountKeys.length
        logs := executed.logs
        unitsConsumed := executed.unitsConsumed
        returnData := trimReturnData executed.context.returnData } := by
  rw [simulateTx, hexecuted]

/-- A call of `process_tx` that does not panic has done one of the four things. -/
theorem processed_of_processTx {bank after : PgBank} {tx : SanitizedTransaction}
    {result : Except TransactionError Signature}
    (hprocess : processTx sdk bank tx = some (after, result)) :
    Processed sdk bank tx after result := by
  obtain ⟨simulated, hsimulated, hprocess⟩ := Option.bind_eq_some_iff.mp hprocess
  cases hexecuted : loadAndExecuteTx sdk bank tx with
  | panic => simp [simulateTx, hexecuted] at hsimulated
  | err error =>
    rw [simulateTx_of_err hexecuted] at hsimulated
    obtain rfl := Option.some.inj hsimulated
    obtain ⟨rfl, rfl⟩ := Prod.mk.inj (Option.some.inj hprocess)
    exact .failed hexecuted
  | ok outcome =>
    obtain ⟨loaded, executed⟩ := outcome
    rw [simulateTx_of_ok hexecuted] at hsimulated
    obtain rfl := Option.some.inj hsimulated
    simp only [getFeeForMessage_eq, Option.bind_eq_bind, Option.bind_some] at hprocess
    unfold saveTx at hprocess
    cases hwrite : bpfUpgradeableWriteIxExists tx with
    | true =>
      simp only [hwrite, if_true, Option.some.injEq, Prod.mk.injEq] at hprocess
      obtain ⟨rfl, rfl⟩ := hprocess
      exact .unrecorded hexecuted hwrite
    | false =>
      simp only [hwrite, Bool.false_eq_true, if_false] at hprocess
      split at hprocess
      next data hrecorded =>
        obtain ⟨rfl, rfl⟩ := Prod.mk.inj (Option.some.inj hprocess)
        rw [setAccounts_txs] at hrecorded
        exact .replayed hexecuted hwrite (by simp [hrecorded])
      next hfresh =>
        obtain ⟨clock, -, hprocess⟩ := Option.bind_eq_some_iff.mp hprocess
        obtain ⟨slotted, hslotted, hprocess⟩ := Option.bind_eq_some_iff.mp hprocess
        obtain ⟨rfl, rfl⟩ := Prod.mk.inj (Option.some.inj hprocess)
        unfold newSlot at hslotted
        split at hslotted
        next hfits =>
          obtain rfl := Option.some.inj hslotted
          simp only [setAccounts_txs, setAccounts_slot, setAccounts_blockHeight] at hfresh hfits
          refine .recorded hexecuted hwrite hfresh ?_ hfits.1 hfits.2
          exact setAccounts_slot _ bank
        next => cases hslotted

/-- The accounts that processing a transaction leaves: those of the bank, or those of the bank with
what executing the transaction gives back. -/
theorem Processed.accounts_cases {bank after : PgBank} {tx : SanitizedTransaction}
    {result : Except TransactionError Signature} (hprocessed : Processed sdk bank tx after result) :
    ((∃ error, loadAndExecuteTx sdk bank tx = .err error) ∧ after.accounts = bank.accounts) ∨
      ∃ loaded executed, loadAndExecuteTx sdk bank tx = .ok (loaded, executed) ∧
        after.accounts = writeAll bank.accounts
          (executed.context.accounts.take tx.message.accountKeys.length) := by
  cases hprocessed with
  | failed hfailed => exact .inl ⟨⟨_, hfailed⟩, rfl⟩
  | unrecorded hexecuted | replayed hexecuted | recorded hexecuted =>
    refine .inr ⟨_, _, hexecuted, ?_⟩
    simp only [recordTx, setAccounts_eq]

/-- Processing a transaction keeps the key pair that pays airdrops. -/
theorem Processed.airdropKp_eq {bank after : PgBank} {tx : SanitizedTransaction}
    {result : Except TransactionError Signature} (hprocessed : Processed sdk bank tx after result) :
    after.airdropKp = bank.airdropKp := by
  cases hprocessed with
  | failed => rfl
  | unrecorded | replayed | recorded => simp only [recordTx, setAccounts_eq]

/-- A transaction that executes and whose signature is recorded is written back before it is
rejected. -/
theorem processTx_of_recorded {bank : PgBank} {tx : SanitizedTransaction}
    {loaded : List TransactionAccount} {executed : MessageState}
    (hexecuted : loadAndExecuteTx sdk bank tx = .ok (loaded, executed))
    (hwrite : bpfUpgradeableWriteIxExists tx = false)
    (hrecorded : bank.txs.lookup tx.signature ≠ none) :
    processTx sdk bank tx = some
      (bank.setAccounts (executed.context.accounts.take tx.message.accountKeys.length),
        .error .alreadyProcessed) := by
  obtain ⟨data, hdata⟩ := Option.ne_none_iff_exists'.mp hrecorded
  simp [processTx, simulateTx_of_ok hexecuted, getFeeForMessage_eq, saveTx, hwrite, hdata]

/-! ### Runs -/

/-- A call that hands the bank a transaction. -/
inductive TxCall
  | processTx (tx : SanitizedTransaction)
  | airdrop (toPubkey : Pubkey) (lamports : UInt64)

/-- The bank after a call and its result. -/
def TxCall.run (sdk : Sdk) (bank : PgBank) :
    TxCall → Option (PgBank × Except TransactionError Signature)
  | .processTx tx => bank.processTx sdk tx
  | .airdrop toPubkey lamports => bank.airdrop sdk toPubkey lamports

/-- The transaction that a call processes, if it gets that far. -/
def TxCall.tx? (sdk : Sdk) (bank : PgBank) : TxCall → Option SanitizedTransaction
  | .processTx tx => some tx
  | .airdrop toPubkey lamports =>
    match airdropTransaction sdk bank toPubkey lamports with
    | .ok tx => some tx
    | _ => none

/-- A call that does not panic fails before anything is written, or processes its transaction. -/
theorem TxCall.run_cases {call : TxCall} {bank after : PgBank}
    {result : Except TransactionError Signature} (hrun : call.run sdk bank = some (after, result)) :
    (call.tx? sdk bank = none ∧ after = bank ∧ ∃ error, result = .error error) ∨
      ∃ tx, call.tx? sdk bank = some tx ∧ Processed sdk bank tx after result := by
  cases call with
  | processTx tx => exact .inr ⟨tx, rfl, processed_of_processTx hrun⟩
  | airdrop toPubkey lamports =>
    simp only [TxCall.run, PgBank.airdrop] at hrun
    simp only [TxCall.tx?]
    split at hrun
    next => cases hrun
    next error herror =>
      obtain ⟨rfl, rfl⟩ := Prod.mk.inj (Option.some.inj hrun)
      exact .inl ⟨by rw [herror], rfl, error, rfl⟩
    next tx htx => exact .inr ⟨tx, by rw [htx], processed_of_processTx hrun⟩

/-- What is done to a bank: a call, or saving it and making a bank of what was saved. -/
inductive BankCall
  | call (call : TxCall)
  | reload (freshKp : Keypair)

/-- The bank after a call that does not panic, or after a reload. -/
def step (sdk : Sdk) (serde : Serde) (bank : PgBank) : BankCall → Option PgBank
  | .call call => (call.run sdk bank).map Prod.fst
  | .reload freshKp => some (new sdk serde freshKp (some (getSaveData serde bank)))

/-- The banks that can be reached from `PgBank::new(None)`. -/
def Reachable (sdk : Sdk) (serde : Serde) (airdropKp : Keypair) (bank : PgBank) : Prop :=
  ∃ calls, Run (StepsTo (step sdk serde)) (new sdk serde airdropKp none) calls bank

/-- A step leaves the bank, processes a transaction, or reloads the bank. -/
theorem step_cases {serde : Serde} {bank after : PgBank} {call : BankCall}
    (hstep : step sdk serde bank call = some after) :
    after = bank ∨ (∃ tx result, Processed sdk bank tx after result) ∨
      ∃ freshKp, call = .reload freshKp ∧
        after = new sdk serde freshKp (some (getSaveData serde bank)) := by
  cases call with
  | call call =>
    obtain ⟨⟨after, result⟩, hrun, rfl⟩ := Option.map_eq_some_iff.mp hstep
    rcases TxCall.run_cases hrun with ⟨-, rfl, -⟩ | ⟨tx, -, hprocessed⟩
    · exact .inl rfl
    · exact .inr (.inl ⟨tx, result, hprocessed⟩)
  | reload freshKp => exact .inr (.inr ⟨freshKp, rfl, (Option.some.inj hstep).symm⟩)

end PgBank

end Playground.Playnet
