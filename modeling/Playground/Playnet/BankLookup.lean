import Playground.Playnet.BankRuns
import Playground.Playnet.ReferenceSdk

/-!
# Accounts without lamports

`PgBank::get_account` and `PgBank::get_account_default` say of themselves that they treat an account
with 0 lamports as one that does not exist. They return whatever the map of accounts holds, and
`process_tx` writes back every account of the message, also one that the transaction has drained and
one that has never had lamports.

`NoDrained` is what the comments promise: an account without lamports is not found. Where it holds, a
drained address is an address that has never been created, for every later call, since the bank is
the same as if it had not (`NoDrained.forget_eq`). `noDrained_iff_leavesLamports` says that it holds
along every run in which each transaction leaves lamports in every account of its message, and is
lost at the first one that does not.
-/

set_option autoImplicit false
set_option relaxedAutoImplicit false

namespace Playground.Playnet

open Library PgBank

/-- What the comments of `get_account` promise: it returns `None` for an account with 0 lamports. -/
def NoDrained (bank : PgBank) : Prop :=
  ∀ key, (bank.getAccountDefault key).lamports = 0 → bank.getAccount key = none

/-- The bank as it would be if an address had never been created. -/
def PgBank.forget (bank : PgBank) (key : Pubkey) : PgBank :=
  { bank with accounts := bank.accounts.erase key }

/-- An account that the bank holds is found with its lamports. -/
theorem noDrained_iff {bank : PgBank} :
    NoDrained bank ↔
      ∀ key account, bank.accounts.lookup key = some account → account.lamports ≠ 0 := by
  constructor
  · intro hnone key account hlookup hzero
    have hmissing := hnone key (by simp [getAccountDefault, hlookup, hzero])
    simp [getAccount, hlookup] at hmissing
  · intro hheld key hzero
    cases hlookup : bank.accounts.lookup key with
    | none => exact hlookup
    | some account =>
      have hzero : account.lamports = 0 := by simpa [getAccountDefault, hlookup] using hzero
      exact absurd hzero (hheld key account hlookup)

/-- An address without lamports is one that has never been created. -/
theorem NoDrained.forget_eq {bank : PgBank} (hnone : NoDrained bank) {key : Pubkey}
    (hzero : (bank.getAccountDefault key).lamports = 0) : bank.forget key = bank := by
  have habsent : bank.accounts.lookup key = none := hnone key hzero
  have hsame : bank.accounts.erase key = bank.accounts := by
    refine Finmap.ext_lookup fun other ↦ ?_
    by_cases heq : other = key
    · rw [heq, Finmap.lookup_erase, habsent]
    · rw [Finmap.lookup_erase_ne heq]
  rw [forget, hsame]

/-! ### Calls -/

/-- The bank after a call of `process_tx` or `airdrop` that does not panic. -/
def callStep (sdk : Sdk) (bank : PgBank) (call : TxCall) : Option PgBank :=
  (call.run sdk bank).map Prod.fst

/-- A call leaves lamports in every account of its message: of an account that the message lists
more than once, in the one that is written back last. -/
def LeavesLamports (sdk : Sdk) (bank : PgBank) (call : TxCall) : Prop :=
  ∀ tx simulated, call.tx? sdk bank = some tx → simulateTx sdk bank tx = some simulated →
    simulated.result = .ok () → ∀ entry ∈ latest simulated.postAccounts, entry.2.lamports ≠ 0

section Calls

variable {sdk : Sdk} {bank after : PgBank}

/-- What a call that leaves lamports says about a transaction that executes. -/
theorem leavesLamports_iff_of_ok {call : TxCall} {tx : SanitizedTransaction}
    (htx : call.tx? sdk bank = some tx) {loaded : List TransactionAccount} {executed : MessageState}
    (hexecuted : loadAndExecuteTx sdk bank tx = .ok (loaded, executed)) :
    LeavesLamports sdk bank call ↔
      ∀ entry ∈ latest (executed.context.accounts.take tx.message.accountKeys.length),
        entry.2.lamports ≠ 0 := by
  constructor
  · intro hleaves
    exact hleaves tx _ htx (simulateTx_of_ok hexecuted) rfl
  · intro hleft other simulated hother hsimulated _
    obtain rfl := Option.some.inj (htx.symm.trans hother)
    rw [simulateTx_of_ok hexecuted] at hsimulated
    obtain rfl := Option.some.inj hsimulated
    exact hleft

/-- A call whose transaction fails leaves lamports, and so does one that has no transaction. -/
theorem leavesLamports_of_err {call : TxCall}
    (hfails : ∀ tx, call.tx? sdk bank = some tx → ∃ error, loadAndExecuteTx sdk bank tx = .err error) :
    LeavesLamports sdk bank call := by
  intro tx simulated htx hsimulated hresult
  obtain ⟨error, hfailed⟩ := hfails tx htx
  rw [simulateTx_of_err hfailed] at hsimulated
  obtain rfl := Option.some.inj hsimulated
  cases hresult

/-- Writing accounts back to a bank that holds none without lamports keeps it so, exactly if the last
account written under each key has lamports. -/
theorem noDrained_writeAll_iff (hnone : NoDrained bank) {accounts : List TransactionAccount}
    (hwritten : after.accounts = writeAll bank.accounts accounts) :
    NoDrained after ↔ ∀ entry ∈ latest accounts, entry.2.lamports ≠ 0 := by
  rw [noDrained_iff, hwritten]
  constructor
  · intro hheld entry hentry
    exact hheld entry.1 entry.2 (lookup_writeAll_eq_some.mpr (Or.inl hentry))
  · intro hlast key account hlookup
    rcases lookup_writeAll_eq_some.mp hlookup with hmem | ⟨-, hold⟩
    · exact hlast (key, account) hmem
    · exact noDrained_iff.mp hnone key account hold

/-- A call on a bank without drained accounts leaves such a bank exactly if it leaves lamports in
every account of its message. -/
theorem noDrained_call_iff (hnone : NoDrained bank) {call : TxCall}
    (hstep : callStep sdk bank call = some after) :
    NoDrained after ↔ LeavesLamports sdk bank call := by
  obtain ⟨⟨after, result⟩, hrun, rfl⟩ := Option.map_eq_some_iff.mp hstep
  rcases TxCall.run_cases hrun with ⟨hnoTx, rfl, -⟩ | ⟨tx, htx, hprocessed⟩
  · have hleaves : LeavesLamports sdk after call :=
      leavesLamports_of_err fun tx htx ↦ by simp [hnoTx] at htx
    exact ⟨fun _ ↦ hleaves, fun _ ↦ hnone⟩
  · rcases hprocessed.accounts_cases with ⟨hfailed, hkept⟩ | ⟨loaded, executed, hexecuted, hwritten⟩
    · have hleaves : LeavesLamports sdk bank call := by
        refine leavesLamports_of_err fun other hother ↦ ?_
        rwa [← Option.some.inj (htx.symm.trans hother)]
      refine ⟨fun _ ↦ hleaves, fun _ ↦ noDrained_iff.mpr ?_⟩
      rw [hkept]
      exact noDrained_iff.mp hnone
    · rw [leavesLamports_iff_of_ok htx hexecuted]
      exact noDrained_writeAll_iff hnone hwritten

/-- Every account that a new bank starts with has lamports. -/
theorem noDrained_new {serde : Serde} {airdropKp : Keypair} :
    NoDrained (new sdk serde airdropKp none) := by
  refine noDrained_iff.mpr fun key account hlookup ↦ ?_
  rcases mem_of_lookup_writeAll hlookup with hmem | hempty
  · have hone : (1 : UInt64) ≠ 0 := by decide
    have hairdrop : 1000000 * lamportsPerSol ≠ 0 := by decide
    simp only [genesisAccounts, List.mem_cons, List.not_mem_nil, or_false] at hmem
    rcases hmem with hentry | hentry | hentry | hentry | hentry | hentry
    all_goals
      rw [(Prod.mk.inj hentry).2]
      first
        | exact hone
        | exact hairdrop
  · cases hempty

end Calls

/-! ### Runs -/

/-- In every bank reached by calls that leave lamports in the accounts of their messages, an address
whose account has no lamports is not found and might as well never have been created; and the next
call keeps it so exactly if it leaves lamports in the accounts of its message too. -/
theorem noDrained_iff_leavesLamports {sdk : Sdk} {serde : Serde} {airdropKp : Keypair}
    {calls : List TxCall} {bank : PgBank}
    (hrun : Run (Guarded (StepsTo (callStep sdk)) (LeavesLamports sdk))
      (new sdk serde airdropKp none) calls bank) :
    NoDrained bank ∧
      (∀ key, (bank.getAccountDefault key).lamports = 0 → bank.forget key = bank) ∧
      ∀ call after, callStep sdk bank call = some after →
        (NoDrained after ↔ LeavesLamports sdk bank call) := by
  have hstep : ∀ before call after, NoDrained before → LeavesLamports sdk before call →
      StepsTo (callStep sdk) before call after → NoDrained after :=
    fun before call after hbefore hleaves hcall ↦ (noDrained_call_iff hbefore hcall).mpr hleaves
  have hnone : NoDrained bank := hrun.invariant_guarded hstep noDrained_new
  exact ⟨hnone, fun key ↦ hnone.forget_eq, fun call after ↦ noDrained_call_iff hnone⟩

/-- A transfer of five lamports from the receiver of the first one back to the payer, with a signature
of its own. -/
def returnTx : SanitizedTransaction :=
  { transferTx [receiverKey, payerKp.pubkey, systemProgramId] (by decide) (by decide) with
    signatures := [2#512]
    signatures_ne_nil := List.cons_ne_nil _ _ }

/-- After a transfer to a new account, whose message leaves lamports everywhere, no account of the bank
is drained. -/
theorem noDrained_iff_leavesLamports_transfer :
    let tx := transferTx [payerKp.pubkey, receiverKey, systemProgramId] (by decide) (by decide)
    let start := new referenceSdk (referenceSerde none) payerKp none
    ∃ bank, Run (Guarded (StepsTo (callStep referenceSdk)) (LeavesLamports referenceSdk)) start
        [.processTx tx] bank ∧ NoDrained bank := by
  intro tx start
  have hcompute : (callStep referenceSdk start (.processTx tx)).isSome = true := by decide +kernel
  obtain ⟨bank, hstep⟩ := Option.isSome_iff_exists.mp hcompute
  have hleaves : LeavesLamports referenceSdk start (.processTx tx) := by
    have hlatest : (simulateTx referenceSdk start tx).all (fun simulated ↦
        (latest simulated.postAccounts).all fun entry ↦ entry.2.lamports ≠ 0) = true := by
      decide +kernel
    intro other simulated hother hsimulated _ entry hentry
    obtain rfl : tx = other := Option.some.inj hother
    rw [hsimulated] at hlatest
    simpa using List.all_eq_true.mp hlatest entry hentry
  have hrun : Run (Guarded (StepsTo (callStep referenceSdk)) (LeavesLamports referenceSdk)) start
      [.processTx tx] bank := .single ⟨hleaves, hstep⟩
  exact ⟨bank, hrun, (noDrained_iff_leavesLamports hrun).1⟩

/-- The receiver of five lamports gives them back: its account is left with none, and found. -/
theorem not_noDrained_of_return :
    ¬ ∀ calls bank, Run (StepsTo (callStep referenceSdk))
      (new referenceSdk (referenceSerde none) payerKp none) calls bank → NoDrained bank := by
  intro hall
  let tx := transferTx [payerKp.pubkey, receiverKey, systemProgramId] (by decide) (by decide)
  let start := new referenceSdk (referenceSerde none) payerKp none
  have hcompute : (([.processTx tx, .processTx returnTx].foldlM (callStep referenceSdk) start).map
      fun bank ↦ bank.getAccount receiverKey) = some (some {}) := by decide +kernel
  obtain ⟨bank, hfold, haccount⟩ := Option.map_eq_some_iff.mp hcompute
  have hnone := hall _ bank (Run.of_foldlM hfold) receiverKey (by
    simp only [getAccount] at haccount
    simp [getAccountDefault, haccount])
  simp [haccount] at hnone

end Playground.Playnet
