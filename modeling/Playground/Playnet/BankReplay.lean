import Playground.Playnet.BankRuns
import Playground.Playnet.ReferenceSdk

/-!
# Transactions that come twice

`processTx` writes the accounts of a transaction back before it looks the signature up, so that a
transaction whose signature is recorded is rejected only after it has had its effect again. What the
code would have to check first is what `processTx_error_unchanged_iff` asks for: the signature is new,
or the transaction has an upgradeable loader `Write` and is never rejected, or simulating it on the
bank fails, or gives back accounts that the bank holds already.

Over a sequence of calls the same holds for signatures that have been committed before, recorded or
not. `Ledger` follows a bank together with the signatures whose accounts have been written and those
whose writing has changed some account. As long as no call commits a signature again with another
effect (`Repeatable`), no signature changes the accounts twice (`changed_nodup_and_repeatable_iff`).
-/

set_option autoImplicit false
set_option relaxedAutoImplicit false

namespace Playground.Playnet

open Library PgBank

/-! ### One transaction -/

/-- What simulating a transaction on a bank would write is what the bank holds, if simulating it
succeeds at all. -/
def WritesNothingNew (sdk : Sdk) (bank : PgBank) (tx : SanitizedTransaction) : Prop :=
  ∀ simulated, simulateTx sdk bank tx = some simulated → simulated.result = .ok () →
    writeAll bank.accounts simulated.postAccounts = bank.accounts

/-- Writing the accounts of a transaction back writes what `simulate_tx` returns. -/
theorem writesNothingNew_iff {sdk : Sdk} {bank : PgBank} {tx : SanitizedTransaction}
    {loaded : List TransactionAccount} {executed : MessageState}
    (hexecuted : loadAndExecuteTx sdk bank tx = .ok (loaded, executed)) :
    WritesNothingNew sdk bank tx ↔
      (bank.setAccounts (executed.context.accounts.take tx.message.accountKeys.length)).accounts =
        bank.accounts := by
  simp [WritesNothingNew, simulateTx_of_ok hexecuted, setAccounts_eq]

/-- A call of `process_tx` that returns an error leaves the accounts, the recorded transactions, the
counters and the latest blockhash, in exactly these cases: the signature is not recorded, or the
transaction has an upgradeable loader `Write`, or simulating it fails, or would write nothing new. -/
theorem processTx_error_unchanged_iff (sdk : Sdk) (bank : PgBank) (tx : SanitizedTransaction) :
    (∀ after error, processTx sdk bank tx = some (after, .error error) →
      after.accounts = bank.accounts ∧ after.txs = bank.txs ∧ after.slot = bank.slot ∧
        after.blockHeight = bank.blockHeight ∧ after.latestBlockhash = bank.latestBlockhash) ↔
      bank.txs.lookup tx.signature = none ∨ bpfUpgradeableWriteIxExists tx = true ∨
        WritesNothingNew sdk bank tx := by
  constructor
  · intro hunchanged
    by_contra hnot
    simp only [not_or, Bool.not_eq_true] at hnot
    obtain ⟨hrecorded, hwrite, hnew⟩ := hnot
    refine hnew fun simulated hsimulated hresult ↦ ?_
    cases hexecuted : loadAndExecuteTx sdk bank tx with
    | panic => simp [simulateTx, hexecuted] at hsimulated
    | err error =>
      rw [simulateTx_of_err hexecuted] at hsimulated
      obtain rfl := Option.some.inj hsimulated
      cases hresult
    | ok outcome =>
      obtain ⟨loaded, executed⟩ := outcome
      have hkept := hunchanged _ _ (processTx_of_recorded hexecuted hwrite hrecorded)
      exact absurd ((writesNothingNew_iff hexecuted).mpr hkept.1) hnew
  · intro hcondition after error hprocess
    cases processed_of_processTx hprocess with
    | failed => exact ⟨rfl, rfl, rfl, rfl, rfl⟩
    | replayed hexecuted hwrite hrecorded =>
      have hnothing : WritesNothingNew sdk bank tx := by
        rcases hcondition with hfresh | hwrite' | hnothing
        · exact absurd hfresh hrecorded
        · simp [hwrite] at hwrite'
        · exact hnothing
      refine ⟨(writesNothingNew_iff hexecuted).mp hnothing, ?_⟩
      rw [setAccounts_eq]
      exact ⟨rfl, rfl, rfl, rfl⟩

/-- A bank that has paid five lamports pays them again to the same transaction, and then rejects
it. -/
theorem processTx_error_changes_accounts :
    let tx := transferTx [payerKp.pubkey, receiverKey, systemProgramId] (by decide) (by decide)
    ∃ bank after, Reachable referenceSdk (referenceSerde none) payerKp bank ∧
      processTx referenceSdk bank tx = some (after, .error .alreadyProcessed) ∧
      after.accounts ≠ bank.accounts ∧ (bank.getAccountDefault receiverKey).lamports = 5 ∧
      (after.getAccountDefault receiverKey).lamports = 10 := by
  intro tx
  have hcompute : (([.call (.processTx tx)].foldlM (step referenceSdk (referenceSerde none))
        (new referenceSdk (referenceSerde none) payerKp none)).map fun bank ↦
      ((bank.getAccountDefault receiverKey).lamports,
        (processTx referenceSdk bank tx).map fun outcome ↦
          ((outcome.1.getAccountDefault receiverKey).lamports, outcome.2))) =
      some (5, some (10, .error .alreadyProcessed)) := by decide +kernel
  obtain ⟨bank, hfold, hbank⟩ := Option.map_eq_some_iff.mp hcompute
  obtain ⟨hfive, hprocess⟩ := Prod.mk.inj hbank
  obtain ⟨⟨after, result⟩, hprocess, hafter⟩ := Option.map_eq_some_iff.mp hprocess
  obtain ⟨hten, rfl⟩ := Prod.mk.inj hafter
  refine ⟨bank, after, ⟨_, Run.of_foldlM hfold⟩, hprocess, ?_, hfive, hten⟩
  intro heq
  simp only [getAccountDefault, heq] at hten hfive
  exact absurd (hfive.symm.trans hten) (by decide)

/-! ### Sequences of calls -/

/-- A bank, the signatures of the transactions that have been written to it, and the signatures of
those calls that have changed some account, the latest first. -/
structure Ledger where
  bank : PgBank
  committed : List Signature
  changed : List Signature

/-- The signature that a call commits: that of its transaction, if simulating it succeeds. -/
def committedSignature? (sdk : Sdk) (bank : PgBank) (call : TxCall) : Option Signature := do
  let tx ← call.tx? sdk bank
  let simulated ← simulateTx sdk bank tx
  match simulated.result with
  | .ok _ => some tx.signature
  | .error _ => none

/-- The ledger after a call that does not panic. -/
def Ledger.step (sdk : Sdk) (ledger : Ledger) (call : TxCall) : Option Ledger := do
  let (after, _) ← call.run sdk ledger.bank
  match committedSignature? sdk ledger.bank call with
  | none => some { ledger with bank := after }
  | some signature =>
    some
      { bank := after
        committed := signature :: ledger.committed
        changed :=
          if after.accounts = ledger.bank.accounts then ledger.changed
          else signature :: ledger.changed }

/-- A call does not commit a transaction whose signature has been committed, unless this would write
nothing new. -/
def Repeatable (sdk : Sdk) (ledger : Ledger) (call : TxCall) : Prop :=
  ∀ tx, call.tx? sdk ledger.bank = some tx → tx.signature ∈ ledger.committed →
    WritesNothingNew sdk ledger.bank tx

section Ledger

variable {sdk : Sdk} {call : TxCall}

/-- The accounts that a call leaves: those that simulating its transaction gives, if it commits it,
and otherwise those that the bank has. -/
theorem accounts_of_run {bank after : PgBank} {result : Except TransactionError Signature}
    (hrun : call.run sdk bank = some (after, result)) :
    (committedSignature? sdk bank call = none ∧ after.accounts = bank.accounts) ∨
      ∃ tx simulated, call.tx? sdk bank = some tx ∧ simulateTx sdk bank tx = some simulated ∧
        simulated.result = .ok () ∧ committedSignature? sdk bank call = some tx.signature ∧
        after.accounts = writeAll bank.accounts simulated.postAccounts := by
  rcases TxCall.run_cases hrun with ⟨hnone, rfl, -⟩ | ⟨tx, htx, hprocessed⟩
  · exact .inl ⟨by simp [committedSignature?, hnone], rfl⟩
  cases hprocessed with
  | failed hfailed =>
    exact .inl ⟨by simp [committedSignature?, htx, simulateTx_of_err hfailed,
      SimulateTransactionResult.newError], rfl⟩
  | unrecorded hloaded | replayed hloaded | recorded hloaded =>
    have hsimulated := simulateTx_of_ok hloaded
    refine .inr ⟨tx, _, htx, hsimulated, rfl, by simp [committedSignature?, htx, hsimulated], ?_⟩
    simp only [recordTx, setAccounts_eq]

/-- What a step of the ledger does: the signature it commits is new to the list of those that have
changed some account only if it has changed some account. -/
theorem Ledger.step_cases {before after : Ledger} (hstep : before.step sdk call = some after) :
    (committedSignature? sdk before.bank call = none ∧
        after.bank.accounts = before.bank.accounts ∧ after.committed = before.committed ∧
        after.changed = before.changed) ∨
      ∃ tx simulated, call.tx? sdk before.bank = some tx ∧
        simulateTx sdk before.bank tx = some simulated ∧ simulated.result = .ok () ∧
        after.bank.accounts = writeAll before.bank.accounts simulated.postAccounts ∧
        after.committed = tx.signature :: before.committed ∧
        after.changed = if after.bank.accounts = before.bank.accounts then before.changed
          else tx.signature :: before.changed := by
  obtain ⟨⟨bank, result⟩, hrun, hstep⟩ := Option.bind_eq_some_iff.mp hstep
  rcases accounts_of_run hrun with ⟨hnone, hkept⟩ | ⟨tx, simulated, htx, hsimulated, hexecuted,
    hsignature, hwritten⟩
  · simp only [hnone, Option.some.injEq] at hstep
    subst hstep
    exact .inl ⟨hnone, hkept, rfl, rfl⟩
  · simp only [hsignature, Option.some.injEq] at hstep
    subst hstep
    exact .inr ⟨tx, simulated, htx, hsimulated, hexecuted, hwritten, rfl, rfl⟩

/-- A call leaves the accounts when its transaction has been committed before, exactly if it is
repeatable. -/
theorem repeatable_iff {before after : Ledger} (hstep : before.step sdk call = some after) :
    Repeatable sdk before call ↔
      ∀ tx, call.tx? sdk before.bank = some tx → tx.signature ∈ before.committed →
        after.bank.accounts = before.bank.accounts := by
  refine forall_congr' fun tx ↦ forall_congr' fun htx ↦ forall_congr' fun hmem ↦ ?_
  rcases before.step_cases hstep with ⟨hnone, hkept, -, -⟩ | ⟨tx', simulated, htx', hsimulated,
    hexecuted, hwritten, -, -⟩
  · refine ⟨fun _ ↦ hkept, fun _ simulated hsimulated hexecuted ↦ ?_⟩
    simp [committedSignature?, htx, hsimulated, hexecuted] at hnone
  · obtain rfl : tx' = tx := Option.some.inj (htx'.symm.trans htx)
    rw [hwritten]
    refine ⟨fun hnothing ↦ hnothing simulated hsimulated hexecuted, ?_⟩
    intro heq other hother hother'
    obtain rfl : other = simulated := Option.some.inj (hother.symm.trans hsimulated)
    exact heq

/-- The signatures whose writing has changed some account are distinct and have been committed. -/
structure Ledger.Once (ledger : Ledger) : Prop where
  nodup : ledger.changed.Nodup
  subset : ∀ signature ∈ ledger.changed, signature ∈ ledger.committed

/-- A repeatable call changes the accounts for a signature that has not changed them before. -/
theorem Ledger.Once.step {before after : Ledger} (hbefore : before.Once)
    (hrepeatable : Repeatable sdk before call) (hstep : before.step sdk call = some after) :
    after.Once := by
  have hkept := (repeatable_iff hstep).mp hrepeatable
  rcases before.step_cases hstep with ⟨-, -, hcommitted, hchanged⟩ | ⟨tx, -, htx, -, -, -,
    hcommitted, hchanged⟩
  · exact ⟨hchanged ▸ hbefore.nodup, by rw [hchanged, hcommitted]; exact hbefore.subset⟩
  · split at hchanged
    next => 
      refine ⟨hchanged ▸ hbefore.nodup, fun signature hmem ↦ ?_⟩
      rw [hcommitted]
      exact List.mem_cons_of_mem _ (hbefore.subset signature (hchanged ▸ hmem))
    next hne =>
      have hnew : tx.signature ∉ before.changed := fun hmem ↦
        hne (hkept tx htx (hbefore.subset _ hmem))
      refine ⟨by rw [hchanged]; exact List.nodup_cons.mpr ⟨hnew, hbefore.nodup⟩, ?_⟩
      intro signature hmem
      rw [hchanged] at hmem
      rw [hcommitted]
      rcases List.mem_cons.mp hmem with rfl | hmem
      · exact List.mem_cons_self
      · exact List.mem_cons_of_mem _ (hbefore.subset signature hmem)

end Ledger

/-- In every sequence of calls that are repeatable, no signature changes the accounts of the bank
twice; and a call leaves the accounts when its transaction has been committed before, exactly if it
is repeatable. -/
theorem changed_nodup_and_repeatable_iff (sdk : Sdk) (start : PgBank) :
    (∀ calls finish,
      Run (Guarded (StepsTo (Ledger.step sdk)) (Repeatable sdk)) ⟨start, [], []⟩ calls finish →
        finish.changed.Nodup) ∧
    ∀ (before after : Ledger) call, before.step sdk call = some after →
      (Repeatable sdk before call ↔
        ∀ tx, call.tx? sdk before.bank = some tx → tx.signature ∈ before.committed →
          after.bank.accounts = before.bank.accounts) := by
  refine ⟨fun calls finish hrun ↦ ?_, fun before after call hstep ↦ repeatable_iff hstep⟩
  have honce : finish.Once := hrun.invariant_guarded
    (fun before call after hbefore hrepeatable hstep ↦ hbefore.step hrepeatable hstep)
    ⟨List.nodup_nil, fun signature hmem ↦ absurd hmem List.not_mem_nil⟩
  exact honce.nodup

/-- A new bank that is handed the same transfer twice pays twice. -/
theorem not_changed_nodup_of_two_transfers :
    let tx := transferTx [payerKp.pubkey, receiverKey, systemProgramId] (by decide) (by decide)
    let start := new referenceSdk (referenceSerde none) payerKp none
    ∃ finish, Run (StepsTo (Ledger.step referenceSdk)) ⟨start, [], []⟩
        [.processTx tx, .processTx tx] finish ∧
      finish.changed = [tx.signature, tx.signature] ∧
      (finish.bank.getAccountDefault receiverKey).lamports = 10 := by
  intro tx start
  have hcompute : ([.processTx tx, .processTx tx].foldlM (Ledger.step referenceSdk)
      ⟨start, [], []⟩).map (fun finish ↦
        (finish.changed, (finish.bank.getAccountDefault receiverKey).lamports)) =
      some ([tx.signature, tx.signature], 10) := by decide +kernel
  obtain ⟨finish, hfold, hfinish⟩ := Option.map_eq_some_iff.mp hcompute
  obtain ⟨hchanged, hten⟩ := Prod.mk.inj hfinish
  exact ⟨finish, Run.of_foldlM hfold, hchanged, hten⟩

end Playground.Playnet
