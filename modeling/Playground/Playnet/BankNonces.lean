import Playground.Playnet.BankLookup
import Playground.Playnet.BankConservation
import Playground.Playnet.SystemProgramSteps

/-!
# Nonce accounts never come into being

`validate_fee_payer` has a branch that is not implemented, for a fee payer that is an initialized
nonce account of the system program. No transaction makes such an account. The instructions of the
system program that write a nonce either read the recent blockhashes first, which the bank never puts
into its sysvar cache, or work on an account that holds an initialized nonce already. Other programs
change the data of their own accounts only, and hand an account over only when its data are zeros.

`Sdk.GuardsNonces` collects what is relied on for this: what setters of a borrowed account refuse, that
an initialized nonce is told by the first eight of at least eighty bytes, and that a program other
than the system program does nothing but `ProgramStep`. `NonceFree` is the property of an account that
every such step keeps, `NonceFreeBank` the invariant of the bank, and `reachable_nonceFree` what
follows from it for the fee payer.
-/

set_option autoImplicit false
set_option relaxedAutoImplicit false

namespace Playground.Playnet

open Library PgBank

/-! ### The data of a nonce -/

/-- The data begin like those of an initialized nonce, and are long enough: the number of one of the
two versions, and then that of the initialized state. -/
def HasNonceTag (data : List UInt8) : Prop :=
  80 ≤ data.length ∧ (data.take 4 = [0, 0, 0, 0] ∨ data.take 4 = [1, 0, 0, 0]) ∧
    (data.drop 4).take 4 = [1, 0, 0, 0]

/-- An account that is not an initialized nonce of the system program. -/
def NonceFree (account : Account) : Prop :=
  account.owner = systemProgramId → ¬ HasNonceTag account.data

/-- Zeros are not the data of an initialized nonce. -/
theorem not_hasNonceTag_of_zeros {data : List UInt8} (hzeros : ∀ byte ∈ data, byte = 0) :
    ¬ HasNonceTag data := by
  rintro ⟨-, -, hstate⟩
  have hone : (1 : UInt8) ∈ (data.drop 4).take 4 := by simp [hstate]
  have hzero := hzeros 1 (List.mem_of_mem_drop (List.mem_of_mem_take hone))
  exact absurd hzero (by decide)

/-- Data that agree in all but the last two bytes are those of an initialized nonce or are not
together. -/
theorem HasNonceTag.of_take {data stored : List UInt8} (hlength : stored.length = data.length)
    (htake : stored.take (data.length - 2) = data.take (data.length - 2))
    (htag : HasNonceTag stored) : HasNonceTag data := by
  obtain ⟨hlong, hversion, hstate⟩ := htag
  have hfront : stored.take 8 = data.take 8 := by
    have hboth := congrArg (List.take 8) htake
    rwa [List.take_take, List.take_take, Nat.min_eq_left (by omega)] at hboth
  have hfirst : stored.take 4 = data.take 4 := by
    simpa [List.take_take] using congrArg (List.take 4) hfront
  have hsecond : (stored.drop 4).take 4 = (data.drop 4).take 4 := by
    simpa [List.drop_take] using congrArg (List.drop 4) hfront
  exact ⟨hlength ▸ hlong, hfirst ▸ hversion, hsecond ▸ hstate⟩

/-! ### What is relied on -/

/-- What a program other than the system program can do to the accounts of a transaction at a time:
change the data of an account that is not the system program's, hand over an account whose data are
zeros, change the other fields of an account, or have the system program run an instruction. -/
inductive ProgramStep (sdk : Sdk) (invoke : InvokeContext) (before : TransactionContext) :
    TransactionContext → Prop
  | data {index : ℕ} {key : Pubkey} {old : Account} {data : List UInt8}
      (hold : before.accounts[index]? = some (key, old)) (howner : old.owner ≠ systemProgramId) :
      ProgramStep sdk invoke before (before.put index key { old with data := data })
  | owner {index : ℕ} {key : Pubkey} {old : Account} {owner : Pubkey}
      (hold : before.accounts[index]? = some (key, old)) (hzeros : ∀ byte ∈ old.data, byte = 0) :
      ProgramStep sdk invoke before (before.put index key { old with owner := owner })
  | other {index : ℕ} {key : Pubkey} {old new : Account}
      (hold : before.accounts[index]? = some (key, old)) (hdata : new.data = old.data)
      (howner : new.owner = old.owner) :
      ProgramStep sdk invoke before (before.put index key new)
  | system {nested : InvokeContext} {instruction : InstructionContext} {after : TransactionContext}
      (hcache : nested.sysvarCache = invoke.sysvarCache)
      (hok : processSystemInstruction sdk nested before instruction = .ok after) :
      ProgramStep sdk invoke before after

/-- What is relied on about nonces and the data of accounts. -/
structure Sdk.GuardsNonces (sdk : Sdk) : Prop where
  /-- The encoding of an initialized nonce. -/
  accountNonceState_initialized : ∀ {account versions data},
    sdk.accountNonceState account = some versions → versions.state = .initialized data →
      HasNonceTag account.data
  /-- Only an initialized nonce can be upgraded. -/
  upgradeNonce_some : ∀ {versions upgraded},
    sdk.upgradeNonce versions = some upgraded → ∃ data, versions.state = .initialized data
  /-- The system program sets the state of its own accounts only. -/
  setState_owner : ∀ {borrowed versions account},
    sdk.setState borrowed versions = .ok account → borrowed.account.owner = systemProgramId
  /-- The bytes that a new data length adds are zeros. -/
  setDataLength_zeros : ∀ {borrowed length account},
    sdk.setDataLength borrowed length = .ok account →
      ∀ byte ∈ account.data.drop borrowed.account.data.length, byte = 0
  /-- The owner is set only where the data are zeros. -/
  setOwner_zeros : ∀ {borrowed owner account},
    sdk.setOwner borrowed owner = .ok account → ∀ byte ∈ borrowed.account.data, byte = 0
  /-- The recent blockhashes are read from the sysvar cache. -/
  recentBlockhashes_cache : ∀ {invoke instruction position hashes},
    sdk.recentBlockhashes invoke instruction position = .ok hashes →
      invoke.sysvarCache.recentBlockhashes ≠ none
  /-- The current index is stored in the last two bytes. -/
  storeCurrentIndex_take : ∀ {data index stored},
    sdk.storeCurrentIndex data index = .ok stored →
      stored.length = data.length ∧
        stored.take (data.length - 2) = data.take (data.length - 2)
  /-- The data of the instructions sysvar begin with the number of instructions and the offset of the
  first, two bytes each, which are not the number of a version of a nonce. -/
  constructInstructionsData_tag : ∀ message, ¬ HasNonceTag (sdk.constructInstructionsData message)
  /-- A program other than the system program does nothing but its steps. -/
  processInstruction_steps : ∀ {invoke context instruction},
    runsSystemProgram invoke context instruction = false →
      (sdk.processInstruction invoke context instruction).result = .ok () →
        ∃ after, Relation.ReflTransGen (ProgramStep sdk invoke) context after ∧
          (sdk.processInstruction invoke context instruction).context.accounts = after.accounts

/-! ### Steps that keep accounts free of nonces -/

/-- Every account stays in its slot, and is free of nonces if it was. -/
def KeepsNonceFree (before after : TransactionContext) : Prop :=
  ∀ ⦃index : ℕ⦄ ⦃key : Pubkey⦄ ⦃old : Account⦄, before.accounts[index]? = some (key, old) →
    ∃ new, after.accounts[index]? = some (key, new) ∧ (NonceFree old → NonceFree new)

section Steps

variable {sdk : Sdk} {invoke : InvokeContext} {before middle after : TransactionContext}

theorem KeepsNonceFree.refl : KeepsNonceFree before before :=
  fun _ _ old hold ↦ ⟨old, hold, id⟩

theorem KeepsNonceFree.trans (hfirst : KeepsNonceFree before middle)
    (hsecond : KeepsNonceFree middle after) : KeepsNonceFree before after := by
  intro index key old hold
  obtain ⟨between, hbetween, hkept⟩ := hfirst hold
  obtain ⟨new, hnew, hkept'⟩ := hsecond hbetween
  exact ⟨new, hnew, fun hfree ↦ hkept' (hkept hfree)⟩

/-- A change of one account that leaves it free of nonces. -/
theorem keepsNonceFree_put {index : ℕ} {key : Pubkey} {old new : Account}
    (hold : before.accounts[index]? = some (key, old)) (hkept : NonceFree old → NonceFree new) :
    KeepsNonceFree before (before.put index key new) := by
  have htouched : Touched (fun _ old new ↦ NonceFree old → NonceFree new) before
      (before.put index key new) := ⟨index, key, old, new, hold, hkept, rfl⟩
  intro other otherKey account haccount
  obtain ⟨account', haccount', rfl | hchange⟩ := htouched.getElem? haccount
  · exact ⟨account', haccount', id⟩
  · exact ⟨account', haccount', hchange⟩

/-- Without recent blockhashes in the cache no call of the system program makes a nonce. -/
theorem AccountCall.nonceFree (hsdk : sdk.Lawful) (hnonces : sdk.GuardsNonces)
    {instruction : InstructionContext} {borrowed : BorrowedAccount} {new : Account}
    (hcache : invoke.sysvarCache.recentBlockhashes = none)
    (hcall : AccountCall sdk invoke instruction borrowed new)
    (hfree : NonceFree borrowed.account) : NonceFree new := by
  cases hcall with
  | setDataLength hempty howner hok =>
    have hadded := hnonces.setDataLength_zeros hok
    rw [hempty] at hadded
    exact fun _ ↦ not_hasNonceTag_of_zeros hadded
  | setOwner hok =>
    have hzeros := hnonces.setOwner_zeros hok
    rw [hsdk.setOwner_ok hok]
    exact fun _ ↦ not_hasNonceTag_of_zeros hzeros
  | setHeldNonce hnonce hok =>
    obtain ⟨versions, data, hversions, hdata⟩ := hnonce
    have htag := hnonces.accountNonceState_initialized hversions hdata
    exact absurd htag (hfree (hnonces.setState_owner hok))
  | setUpgradedNonce howner hread hupgrade hok =>
    obtain ⟨data, hdata⟩ := hnonces.upgradeNonce_some hupgrade
    exact absurd (hnonces.accountNonceState_initialized hread hdata) (hfree howner)
  | setRecentNonce hrecent hok => exact absurd hcache (hnonces.recentBlockhashes_cache hrecent)
  | checkedSubLamports hok =>
    obtain ⟨-, -, rfl⟩ := hsdk.checkedSubLamports_ok hok
    exact hfree
  | checkedAddLamports hok =>
    obtain ⟨-, -, rfl⟩ := hsdk.checkedAddLamports_ok hok
    exact hfree

/-- A system instruction that succeeds makes no nonce. -/
theorem processSystemInstruction_keepsNonceFree (hsdk : sdk.Lawful) (hnonces : sdk.GuardsNonces)
    {instruction : InstructionContext} (hcache : invoke.sysvarCache.recentBlockhashes = none)
    (hok : processSystemInstruction sdk invoke before instruction = .ok after) :
    KeepsNonceFree before after := by
  intro index key old hold
  exact @SystemSteps.changes _ _ _ _ _ (fun _ old new ↦ NonceFree old → NonceFree new)
    (fun _ _ ↦ id) (fun _ _ _ _ hfirst hsecond hfree ↦ hsecond (hfirst hfree))
    (fun _ _ _ _ hcall ↦ hcall.nonceFree hsdk hnonces hcache)
    (processSystemInstruction_steps hsdk hok) _ _ _ hold

/-- A step of another program makes no nonce of the system program. -/
theorem ProgramStep.keepsNonceFree (hsdk : sdk.Lawful) (hnonces : sdk.GuardsNonces)
    (hcache : invoke.sysvarCache.recentBlockhashes = none)
    (hstep : ProgramStep sdk invoke before after) : KeepsNonceFree before after := by
  cases hstep with
  | data hold howner => exact keepsNonceFree_put hold fun _ hsystem ↦ absurd hsystem howner
  | owner hold hzeros => exact keepsNonceFree_put hold fun _ _ ↦ not_hasNonceTag_of_zeros hzeros
  | other hold hdata howner =>
    refine keepsNonceFree_put hold fun hfree hsystem ↦ ?_
    rw [hdata]
    exact hfree (howner ▸ hsystem)
  | system hnested hok =>
    exact processSystemInstruction_keepsNonceFree hsdk hnonces (hnested ▸ hcache) hok

/-- An instruction that succeeds makes no nonce of the system program. -/
theorem processInstruction_keepsNonceFree (hsdk : sdk.Lawful) (hbalanced : sdk.Balanced)
    (hnonces : sdk.GuardsNonces) {instruction : InstructionContext}
    (hcache : invoke.sysvarCache.recentBlockhashes = none)
    (hresult : (sdk.processInstruction invoke before instruction).result = .ok ()) :
    KeepsNonceFree before (sdk.processInstruction invoke before instruction).context := by
  cases hsystem : runsSystemProgram invoke before instruction with
  | true =>
    obtain ⟨after, hprocess, heq⟩ := hbalanced.processInstruction_system hsystem hresult
    have hkept := processSystemInstruction_keepsNonceFree hsdk hnonces hcache hprocess
    rwa [KeepsNonceFree, ← heq] at hkept
  | false =>
    obtain ⟨after, hsteps, heq⟩ := hnonces.processInstruction_steps hsystem hresult
    have hkept : KeepsNonceFree before after := by
      clear heq
      induction hsteps with
      | refl => exact .refl
      | tail _ hlast ih => exact ih.trans (hlast.keepsNonceFree hsdk hnonces hcache)
    rwa [KeepsNonceFree, ← heq] at hkept

/-- Telling the instructions sysvar the current index makes no nonce. -/
theorem fixupInstructionsSysvar_keepsNonceFree (hnonces : sdk.GuardsNonces) {instructionIndex : ℕ}
    (hok : fixupInstructionsSysvar sdk before instructionIndex = .ok after) :
    KeepsNonceFree before after := by
  unfold fixupInstructionsSysvar at hok
  split at hok
  next =>
    obtain rfl := Outcome.ok.inj hok
    exact .refl
  next accountIndex _ =>
    split at hok
    next => cases hok
    next key account haccount =>
      obtain ⟨stored, hstored, hok⟩ := Outcome.bind_eq_ok.mp hok
      obtain rfl := Outcome.ok.inj hok
      obtain ⟨hlength, htake⟩ := hnonces.storeCurrentIndex_take hstored
      exact keepsNonceFree_put haccount fun hfree hsystem htag ↦
        hfree hsystem (htag.of_take hlength htake)

/-- A message that succeeds makes no nonce of the system program. -/
theorem processMessage_keepsNonceFree (hsdk : sdk.Lawful) (hbalanced : sdk.Balanced)
    (hnonces : sdk.GuardsNonces) {message : SanitizedMessage} {programIndices : List (List ℕ)}
    {result : MessageState} (hcache : invoke.sysvarCache.recentBlockhashes = none)
    (hok : processMessage sdk invoke message programIndices before = .ok result) :
    KeepsNonceFree before result.context := by
  refine Outcome.foldlM_invariant (fun state ↦ KeepsNonceFree before state.context)
    (fun state entry result _ hstate hstep ↦ hstate.trans ?_) .refl hok
  obtain ⟨⟨instruction, programIndices⟩, instructionIndex⟩ := entry
  simp only [processInstructionAt] at hstep
  split at hstep
  next => cases hstep
  next programId _ =>
    obtain ⟨context, hfixup, hstep⟩ := Outcome.bind_eq_ok.mp hstep
    refine (fixupInstructionsSysvar_keepsNonceFree hnonces hfixup).trans ?_
    split at hstep
    next =>
      obtain ⟨-, -, hstep⟩ := Outcome.bind_eq_ok.mp hstep
      obtain rfl := Outcome.ok.inj hstep
      exact .refl
    next =>
      obtain ⟨_, hresult, hstep⟩ := Outcome.bind_eq_ok.mp hstep
      rw [Outcome.mapErr_eq_ok] at hresult
      obtain rfl := Outcome.ok.inj hstep
      exact processInstruction_keepsNonceFree hsdk hbalanced hnonces hcache hresult

end Steps

/-! ### The bank -/

/-- No account of the bank is an initialized nonce of the system program, and the recent blockhashes
are not in the cache. -/
structure NonceFreeBank (bank : PgBank) : Prop where
  nonceFree : ∀ key, NonceFree (bank.getAccountDefault key)
  recentBlockhashes_eq : bank.sysvarCache.recentBlockhashes = none

/-- Processing a transaction keeps the sysvar cache. -/
theorem PgBank.Processed.sysvarCache_eq {sdk : Sdk} {bank after : PgBank} {tx : SanitizedTransaction}
    {result : Except TransactionError Signature} (hprocessed : Processed sdk bank tx after result) :
    after.sysvarCache = bank.sysvarCache := by
  cases hprocessed with
  | failed => rfl
  | unrecorded | replayed | recorded => simp only [recordTx, setAccounts_eq]

/-- An account without data is not a nonce. -/
theorem nonceFree_of_data_nil {account : Account} (hempty : account.data = []) : NonceFree account :=
  fun _ ↦ not_hasNonceTag_of_zeros (by simp [hempty])

section Bank

variable {sdk : Sdk} {bank after : PgBank}

/-- The accounts of a bank whose map holds no initialized nonce. -/
theorem nonceFree_getAccountDefault {bank : PgBank}
    (hheld : ∀ key account, bank.accounts.lookup key = some account → NonceFree account)
    (key : Pubkey) : NonceFree (bank.getAccountDefault key) := by
  unfold getAccountDefault
  split
  next account hlookup => exact hheld key account hlookup
  next => exact nonceFree_of_data_nil rfl

/-- A new bank has no nonces. -/
theorem nonceFreeBank_new {serde : Serde} {airdropKp : Keypair} :
    NonceFreeBank (new sdk serde airdropKp none) := by
  refine ⟨nonceFree_getAccountDefault fun key account hlookup ↦ ?_, rfl⟩
  have hsysvar : ∀ data, NonceFree (sysvarAccount data) := by
    intro data hsystem
    exact absurd hsystem (by simp only [sysvarAccount]; decide)
  rcases mem_of_lookup_writeAll hlookup with hmem | hempty
  · simp only [genesisAccounts, List.mem_cons, List.not_mem_nil, or_false] at hmem
    rcases hmem with hentry | hentry | hentry | hentry | hentry | hentry
    all_goals
      rw [(Prod.mk.inj hentry).2]
      first
        | exact hsysvar _
        | exact nonceFree_of_data_nil rfl
  · cases hempty

/-- The accounts loaded for the keys of a message have no nonces. -/
theorem nonceFree_loadedAccount (hnonces : sdk.GuardsNonces) (hbank : NonceFreeBank bank)
    (message : SanitizedMessage) (key : Pubkey) (index : ℕ) :
    NonceFree (loadedAccount sdk bank message key index) := by
  unfold loadedAccount
  split
  next => exact fun _ ↦ hnonces.constructInstructionsData_tag message
  next => exact hbank.nonceFree key

/-- What a transaction that executes gives back has no nonces. -/
theorem nonceFree_post (hsdk : sdk.Lawful) (hbalanced : sdk.Balanced) (hnonces : sdk.GuardsNonces)
    (hbank : NonceFreeBank bank) {tx : SanitizedTransaction} {loaded : List TransactionAccount}
    {executed : MessageState} (hexecuted : loadAndExecuteTx sdk bank tx = .ok (loaded, executed))
    {entry : TransactionAccount}
    (hentry : entry ∈ executed.context.accounts.take tx.message.accountKeys.length) :
    NonceFree entry.2 := by
  obtain ⟨index, hindex⟩ := List.mem_iff_getElem?.mp hentry
  obtain ⟨hpost, htake, -⟩ := loadAndExecuteTx_effect hsdk hbalanced hexecuted
  have hkey := congrArg (fun keys ↦ keys[index]?) hpost
  simp only [List.getElem?_map, hindex, Option.map_some] at hkey
  obtain ⟨hlt, -⟩ := List.getElem?_eq_some_iff.mp hkey.symm
  obtain ⟨loadedTx, hloaded, hexecuted⟩ := Outcome.bind_eq_ok.mp hexecuted
  obtain ⟨executed', hmessage, hexecuted⟩ := Outcome.bind_eq_ok.mp hexecuted
  obtain ⟨rfl, rfl⟩ := Prod.mk.inj (Outcome.ok.inj hexecuted)
  have hslot : loadedTx.accounts[index]? =
      some (entry.1, loadedAccount sdk bank tx.message entry.1 index) := by
    rw [← List.getElem?_take_of_lt hlt, htake, getElem?_loadedAccounts hkey.symm]
  unfold executeLoadedTx at hmessage
  split at hmessage
  next => cases hmessage
  obtain ⟨new, hnew, hkept⟩ := processMessage_keepsNonceFree hsdk hbalanced hnonces
    hbank.recentBlockhashes_eq hmessage hslot
  rw [List.getElem?_take_of_lt hlt] at hindex
  have hsame : entry.2 = new := congrArg Prod.snd (Option.some.inj (hindex.symm.trans hnew))
  rw [hsame]
  exact hkept (nonceFree_loadedAccount hnonces hbank tx.message entry.1 index)

/-- Processing a transaction makes no nonce. -/
theorem NonceFreeBank.processed (hsdk : sdk.Lawful) (hbalanced : sdk.Balanced)
    (hnonces : sdk.GuardsNonces) (hbank : NonceFreeBank bank) {tx : SanitizedTransaction}
    {result : Except TransactionError Signature} (hprocessed : Processed sdk bank tx after result) :
    NonceFreeBank after := by
  refine ⟨nonceFree_getAccountDefault fun key account hlookup ↦ ?_,
    hprocessed.sysvarCache_eq ▸ hbank.recentBlockhashes_eq⟩
  have hheld : bank.accounts.lookup key = some account → NonceFree account := by
    intro hold
    have hfree := hbank.nonceFree key
    rwa [getAccountDefault, hold] at hfree
  rcases hprocessed.accounts_cases with ⟨-, hkept⟩ | ⟨loaded, executed, hexecuted, hwritten⟩
  · exact hheld (hkept ▸ hlookup)
  · rw [hwritten] at hlookup
    rcases mem_of_lookup_writeAll hlookup with hmem | hold
    · exact nonceFree_post hsdk hbalanced hnonces hbank hexecuted hmem
    · exact hheld hold

/-- A call of `process_tx` or `airdrop` makes no nonce. -/
theorem NonceFreeBank.callStep (hsdk : sdk.Lawful) (hbalanced : sdk.Balanced)
    (hnonces : sdk.GuardsNonces) (hbank : NonceFreeBank bank) {call : TxCall}
    (hstep : Playnet.callStep sdk bank call = some after) : NonceFreeBank after := by
  obtain ⟨⟨after, result⟩, hrun, rfl⟩ := Option.map_eq_some_iff.mp hstep
  rcases TxCall.run_cases hrun with ⟨-, rfl, -⟩ | ⟨tx, -, hprocessed⟩
  · exact hbank
  · exact hbank.processed hsdk hbalanced hnonces hprocessed

/-- A fee payer without a nonce does not reach the branch that is not implemented. -/
theorem validateFeePayer_ne_panic (hnonces : sdk.GuardsNonces) {account : Account}
    (hfree : NonceFree account) (fee : UInt64) : validateFeePayer sdk account fee ≠ .panic := by
  have hkind : getSystemAccountKind sdk account ≠ some .nonce := by
    intro hnonce
    simp only [getSystemAccountKind] at hnonce
    split at hnonce
    next hsystem =>
      split at hnonce
      next => cases hnonce
      next =>
        split at hnonce
        next =>
          obtain ⟨versions, hversions, hnonce⟩ := Option.bind_eq_some_iff.mp hnonce
          split at hnonce
          next => cases hnonce
          next data hdata =>
            exact hfree hsystem (hnonces.accountNonceState_initialized hversions hdata)
        next => cases hnonce
    next => cases hnonce
  unfold validateFeePayer
  split
  next => simp
  next =>
    split
    next => simp
    next hnonce => exact absurd hnonce hkind
    next =>
      dsimp only
      split <;> simp

/-- Loading the account of a key does not panic. -/
theorem loadAccountKey_ne_panic (hnonces : sdk.GuardsNonces) (hbank : NonceFreeBank bank)
    {message : SanitizedMessage} {fee : UInt64} {featureSet : FeatureSet} {limit : Option ℕ}
    {state : LoadState} {entry : Pubkey × ℕ} :
    loadAccountKey sdk bank message fee featureSet limit state entry ≠ .panic := by
  have hpayer : ∀ validated, (if validated = false then
      validateFeePayer sdk (bank.getAccountDefault entry.1) fee else .ok () :
        Outcome TransactionError Unit) ≠ .panic := by
    intro validated
    split
    next => exact validateFeePayer_ne_panic hnonces (hbank.nonceFree entry.1) fee
    next => simp
  have hdeps : ∀ account, loadAccountDeps sdk bank message entry.2 account ≠ .panic := by
    intro account
    unfold loadAccountDeps loadProgramdata
    split
    next =>
      split
      next => simp
      next =>
        split
        next => cases sdk.programdataAddress account with
          | none => simp
          | some address => cases hprogramdata : bank.getAccount address <;> simp [hprogramdata]
        next => simp
    next => split <;> simp
  have hkey : loadKey sdk bank message fee featureSet state.validatedFeePayer entry.1 entry.2 ≠
      .panic := by
    unfold loadKey
    split
    next => simp
    next =>
      split
      next => simp
      next =>
        refine Outcome.bind_ne_panic (hpayer _) fun _ ↦ ?_
        exact Outcome.bind_ne_panic (hdeps _) fun deps ↦ by simp
  refine Outcome.bind_ne_panic hkey fun loaded ↦ Outcome.bind_ne_panic ?_ fun size ↦ by simp
  unfold accumulateAndCheckLoadedAccountDataSize
  split
  next => dsimp only; split <;> simp
  next => simp

end Bank

/-! ### Runs -/

/-- In every bank reached from a new one by calls of `process_tx` and `airdrop` no account of the
system program holds an initialized nonce. So no account is a nonce to `validate_fee_payer`, and
loading the accounts of the keys of a message, whichever it is, does not panic. -/
theorem reachable_nonceFree {sdk : Sdk} (hsdk : sdk.Lawful) (hbalanced : sdk.Balanced)
    (hnonces : sdk.GuardsNonces) {serde : Serde} {airdropKp : Keypair} {calls : List TxCall}
    {bank : PgBank}
    (hrun : Run (StepsTo (callStep sdk)) (new sdk serde airdropKp none) calls bank) :
    (∀ key, (bank.getAccountDefault key).owner = systemProgramId →
        ¬ HoldsNonce sdk (bank.getAccountDefault key)) ∧
      bank.sysvarCache.recentBlockhashes = none ∧
      (∀ key fee, validateFeePayer sdk (bank.getAccountDefault key) fee ≠ .panic) ∧
      ∀ (message : SanitizedMessage) fee featureSet limit state,
        message.accountKeys.zipIdx.foldlM
          (loadAccountKey sdk bank message fee featureSet limit) state ≠ .panic := by
  have hstep : ∀ before call after, NonceFreeBank before →
      StepsTo (callStep sdk) before call after → NonceFreeBank after :=
    fun before call after hbefore hcall ↦ hbefore.callStep hsdk hbalanced hnonces hcall
  have hbank : NonceFreeBank bank := hrun.invariant hstep nonceFreeBank_new
  refine ⟨fun key hsystem hnonce ↦ ?_, hbank.recentBlockhashes_eq, fun key fee ↦ ?_, ?_⟩
  · obtain ⟨versions, data, hversions, hdata⟩ := hnonce
    exact hbank.nonceFree key hsystem (hnonces.accountNonceState_initialized hversions hdata)
  · exact validateFeePayer_ne_panic hnonces (hbank.nonceFree key) fee
  · intro message fee featureSet limit state
    exact Outcome.foldlM_ne_panic (fun _ _ ↦ loadAccountKey_ne_panic hnonces hbank) state

/-- Lengthening a list of bytes with zeros adds zeros. -/
theorem eq_zero_of_mem_drop_takeD {data : List UInt8} {byte : UInt8} :
    ∀ {length : ℕ}, byte ∈ (List.takeD length data 0).drop data.length → byte = 0 := by
  induction data with
  | nil =>
    intro length hmem
    exact List.eq_of_mem_replicate (by simpa using hmem)
  | cons first rest ih =>
    intro length hmem
    cases length with
    | zero => simp at hmem
    | succ length => exact @ih length (by simpa using hmem)

/-- The small implementation of the SDK guards nonces, of which it knows none. -/
theorem referenceSdk_guardsNonces : referenceSdk.GuardsNonces where
  accountNonceState_initialized := by
    intro account versions data hversions
    cases hversions
  upgradeNonce_some := by
    intro versions upgraded hupgrade
    cases hupgrade
  setState_owner := by
    intro borrowed versions account hok
    cases hok
  setDataLength_zeros := by
    intro borrowed length account hok byte hbyte
    obtain ⟨-, rfl⟩ := ifWritable_eq_ok.mp hok
    exact eq_zero_of_mem_drop_takeD hbyte
  setOwner_zeros hok := (setOwner_referenceSdk hok).1
  recentBlockhashes_cache := by
    intro invoke instruction position hashes hrecent
    cases hrecent
  storeCurrentIndex_take := by
    intro data index stored hok
    simp only [referenceSdk, baseSdk] at hok
    split at hok
    next => cases hok
    next hlong =>
      obtain rfl := Outcome.ok.inj hok
      constructor
      · simp [littleEndian]
        omega
      · simp
  constructInstructionsData_tag := by
    rintro message ⟨hlong, -⟩
    have hlong : 80 ≤ 2 := hlong
    omega
  processInstruction_steps := by
    intro invoke context instruction hsystem hok
    change (referenceProcessInstruction invoke context instruction).result = .ok () at hok
    simp [referenceProcessInstruction, hsystem] at hok

/-- After a transfer the payer is not a nonce. -/
theorem reachable_nonceFree_transfer :
    let tx := transferTx [payerKp.pubkey, receiverKey, systemProgramId] (by decide) (by decide)
    let start := new referenceSdk (referenceSerde none) payerKp none
    ∃ bank, Run (StepsTo (callStep referenceSdk)) start [.processTx tx] bank ∧
      validateFeePayer referenceSdk (bank.getAccountDefault payerKp.pubkey) 0 ≠ .panic := by
  intro tx start
  have hcompute : (callStep referenceSdk start (.processTx tx)).isSome = true := by decide +kernel
  obtain ⟨bank, hstep⟩ := Option.isSome_iff_exists.mp hcompute
  have hrun : Run (StepsTo (callStep referenceSdk)) start [.processTx tx] bank := .single hstep
  refine ⟨bank, hrun, ?_⟩
  exact (reachable_nonceFree referenceSdk_lawful referenceSdk_balanced referenceSdk_guardsNonces
    hrun).2.2.1 payerKp.pubkey 0

end Playground.Playnet
