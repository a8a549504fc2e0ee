import Playground.Playnet.Bank

/-!
# What a transaction loads

`load_tx_accounts` of `wasm/playnet/src/runtime/bank.rs` collects a vector of accounts that begins with
one account for every key of the message and goes on with the program data and the loaders that the
instructions need. `loadedAccounts` is that beginning as a function of the bank and the message: what
the bank holds under each key, except for the instructions sysvar, whose account is made up for the
message unless the key stands in a program slot. `loadTx_accounts` says that a transaction that loads
has loaded exactly these.
-/

set_option autoImplicit false
set_option relaxedAutoImplicit false

namespace Playground.Playnet

open Library PgBank

/-- The account that is loaded for a key of a message with the given features. -/
def accountOfKey (sdk : Sdk) (bank : PgBank) (message : SanitizedMessage) (featureSet : FeatureSet)
    (key : Pubkey) (index : ℕ) : Account :=
  if sdk.isNonLoaderKey message index = true ∧ key = instructionsId then
    constructInstructionsAccount sdk message (featureSet .instructionsSysvarOwnedBySysvar)
  else bank.getAccountDefault key

/-- The account that is loaded for a key of a message. -/
def loadedAccount (sdk : Sdk) (bank : PgBank) (message : SanitizedMessage) (key : Pubkey)
    (index : ℕ) : Account :=
  if sdk.isNonLoaderKey message index = true ∧ key = instructionsId then
    constructInstructionsAccount sdk message
      (sdk.defaultFeatureSet .instructionsSysvarOwnedBySysvar)
  else bank.getAccountDefault key

/-- The accounts that are loaded for the keys of a message. -/
def loadedAccounts (sdk : Sdk) (bank : PgBank) (message : SanitizedMessage) :
    List TransactionAccount :=
  message.accountKeys.zipIdx.map fun entry ↦
    (entry.1, loadedAccount sdk bank message entry.1 entry.2)

section Loading

variable {sdk : Sdk} {bank : PgBank} {message : SanitizedMessage}

/-- The accounts are loaded under the keys of the message. -/
theorem map_fst_loadedAccounts :
    (loadedAccounts sdk bank message).map Prod.fst = message.accountKeys := by
  rw [loadedAccounts, List.map_map]
  exact List.zipIdx_map_fst 0 message.accountKeys

/-- The account loaded at an index. -/
theorem getElem?_loadedAccounts {index : ℕ} {key : Pubkey}
    (hkey : message.accountKeys[index]? = some key) :
    (loadedAccounts sdk bank message)[index]? =
      some (key, loadedAccount sdk bank message key index) := by
  rw [loadedAccounts, List.getElem?_map, List.getElem?_zipIdx, hkey]
  simp

/-- A key of a message loads its account. -/
theorem loadKey_account {fee : UInt64} {featureSet : FeatureSet} {validated : Bool} {key : Pubkey}
    {index : ℕ} {account : Account} {rest : List TransactionAccount × ℕ × Bool}
    (hok : loadKey sdk bank message fee featureSet validated key index = .ok (account, rest)) :
    account = accountOfKey sdk bank message featureSet key index := by
  unfold loadKey at hok
  split at hok
  next hloader =>
    obtain rfl := (Prod.mk.inj (Outcome.ok.inj hok)).1
    simp [accountOfKey, hloader]
  next hnonLoader =>
    have hnonLoader : sdk.isNonLoaderKey message index = true := by simpa using hnonLoader
    split at hok
    next hkey =>
      obtain rfl := (Prod.mk.inj (Outcome.ok.inj hok)).1
      simp [accountOfKey, hnonLoader, hkey]
    next hkey =>
      obtain ⟨_, -, hok⟩ := Outcome.bind_eq_ok.mp hok
      obtain ⟨_, -, hok⟩ := Outcome.bind_eq_ok.mp hok
      obtain rfl := (Prod.mk.inj (Outcome.ok.inj hok)).1
      simp [accountOfKey, hkey]

/-- A round of the loop over the keys loads the account of its key. -/
theorem loadAccountKey_accounts {fee : UInt64} {featureSet : FeatureSet} {limit : Option ℕ}
    {state result : LoadState} {entry : Pubkey × ℕ}
    (hok : loadAccountKey sdk bank message fee featureSet limit state entry = .ok result) :
    result.accounts = state.accounts ++
      [(entry.1, accountOfKey sdk bank message featureSet entry.1 entry.2)] := by
  obtain ⟨⟨account, rest⟩, haccount, hok⟩ := Outcome.bind_eq_ok.mp hok
  obtain ⟨accumulated, -, hok⟩ := Outcome.bind_eq_ok.mp hok
  obtain rfl := Outcome.ok.inj hok
  rw [← loadKey_account haccount]

/-- Following the chain of loaders adds accounts behind those that are loaded. -/
theorem loadExecutableChain_accounts {alreadyLoaded : Bool} {limit : Option ℕ} {remaining : ℕ} :
    ∀ {programId : Pubkey} {state result : ChainState},
      loadExecutableChain sdk bank alreadyLoaded limit remaining programId state = .ok result →
        state.accounts <+: result.accounts := by
  induction remaining with
  | zero =>
    intro programId state result hok
    unfold loadExecutableChain at hok
    split at hok
    · obtain rfl := Outcome.ok.inj hok
      exact List.prefix_rfl
    · cases hok
  | succ remaining ih =>
    intro programId state result hok
    unfold loadExecutableChain at hok
    split at hok
    next =>
      obtain rfl := Outcome.ok.inj hok
      exact List.prefix_rfl
    next =>
      dsimp only at hok
      split at hok
      next => cases hok
      next programAccount hprogram =>
        split at hok
        next => cases hok
        next key program hindex =>
          simp only [Outcome.ite_err_eq_ok] at hok
          obtain ⟨deps, -, hok⟩ := Outcome.bind_eq_ok.mp hok.2
          obtain ⟨size, -, hok⟩ := Outcome.bind_eq_ok.mp hok
          refine List.IsPrefix.trans ?_ (ih hok)
          rw [List.append_assoc]
          exact List.prefix_append _ _

/-- Loading the programs of an instruction adds accounts behind those that are loaded, and one list
of program indices. -/
theorem loadInstruction_accounts {limit : Option ℕ} {state result : LoadedTransaction × ℕ}
    {instruction : CompiledInstruction}
    (hok : loadInstruction sdk bank limit state instruction = .ok result) :
    state.1.accounts <+: result.1.accounts ∧
      result.1.programIndices.length = state.1.programIndices.length + 1 := by
  obtain ⟨chain, hchain, hok⟩ := Outcome.bind_eq_ok.mp hok
  obtain rfl := Outcome.ok.inj hok
  refine ⟨?_, by simp⟩
  unfold loadExecutableAccounts at hchain
  split at hchain
  next => cases hchain
  next => exact loadExecutableChain_accounts hchain

/-- A transaction that loads has loaded the accounts of its keys, in front of the others, and one list
of program indices for each of its instructions. -/
theorem loadTx_accounts {tx : SanitizedTransaction} {loadedTx : LoadedTransaction}
    (hok : loadTx sdk bank tx = .ok loadedTx) :
    loadedTx.accounts.take tx.message.accountKeys.length = loadedAccounts sdk bank tx.message ∧
      loadedTx.programIndices.length = tx.message.instructions.length := by
  simp only [loadTx, loadTxAccounts, Outcome.ite_err_eq_ok] at hok
  obtain ⟨loaded, hloaded, hok⟩ := Outcome.bind_eq_ok.mp hok.2
  simp only [Outcome.ite_err_eq_ok] at hok
  obtain ⟨⟨loadedTx', size⟩, hprograms, hok⟩ := Outcome.bind_eq_ok.mp hok.2
  obtain rfl := Outcome.ok.inj hok
  have hkeys : loaded.accounts = loadedAccounts sdk bank tx.message :=
    Outcome.foldlM_invariant_done
      (fun (done : List (Pubkey × ℕ)) (state : LoadState) ↦ state.accounts =
        done.map fun entry ↦ (entry.1, loadedAccount sdk bank tx.message entry.1 entry.2))
      [] (fun done state entry result _ hstate hstep ↦ by
        rw [loadAccountKey_accounts hstep, hstate, List.map_append, List.map_singleton]
        rfl) rfl hloaded
  have hrest : loaded.accounts <+: loadedTx'.accounts ∧
      loadedTx'.programIndices.length = tx.message.instructions.length :=
    Outcome.foldlM_invariant_done
      (fun (done : List CompiledInstruction) (state : LoadedTransaction × ℕ) ↦
        loaded.accounts <+: state.1.accounts ∧ state.1.programIndices.length = done.length)
      [] (fun done state entry result _ hstate hstep ↦ by
        obtain ⟨ hprefix, hlength⟩ := loadInstruction_accounts hstep
        exact ⟨hstate.1.trans hprefix, by simp [hlength, hstate.2]⟩)
      ⟨List.prefix_append _ _, rfl⟩ hprograms
  have hlength : loaded.accounts.length = tx.message.accountKeys.length := by
    rw [hkeys, ← List.length_map, map_fst_loadedAccounts]
  refine ⟨?_, hrest.2⟩
  rw [← hlength, ← List.prefix_iff_eq_take.mp hrest.1, hkeys]

end Loading

end Playground.Playnet
