import Playground.Library.Store
import Playground.Playnet.MessageProcessor
import Playground.Playnet.SystemInstructionProcessor

/-!
# The bank

`wasm/playnet/src/runtime/bank.rs`. A bank holds the accounts, the transactions it has recorded, two
counters and two hashes. `loadTx` collects the accounts a transaction names and those its programs
need, `executeLoadedTx` runs the transaction on copies of them, and `processTx` writes the copies of
the named accounts back and then records the transaction.

The functions that only read the bank return an `Outcome`. Those that change it return the bank they
leave, together with the result of the call, or `none` if the call panics. An addition to one of the
counters that overflows panics.

Not formalized here: the counters of load errors, which nothing reads, and the fields of a recorded
transaction's metadata that are always `None`.
-/

set_option autoImplicit false
set_option relaxedAutoImplicit false

namespace Playground.Playnet

open Library

/-! ### The state -/

/-- `ConfirmedTransactionMeta`. -/
structure ConfirmedTransactionMeta where
  fee : UInt64
  preBalances : List UInt64
  postBalances : List UInt64
  logMessages : Option (List String)
  err : Option TransactionError
  computeUnitsConsumed : Option UInt64
  deriving DecidableEq

/-- `TransactionData`. -/
structure TransactionData where
  slot : UInt64
  tx : VersionedTransaction
  txMeta : Option ConfirmedTransactionMeta
  blockTime : Option Int
  deriving DecidableEq

/-- `PgBank`. -/
structure PgBank where
  accounts : Store Pubkey Account
  txs : Store Signature TransactionData
  slot : UInt64
  blockHeight : UInt64
  genesisHash : Hash
  latestBlockhash : Hash
  airdropKp : Keypair
  builtinPrograms : List BuiltinProgram
  sysvarCache : SysvarCache
  featureSet : FeatureSet

/-- What is saved of a bank: the fields that are not skipped. -/
structure SavedBank where
  accounts : Store Pubkey Account
  slot : UInt64
  blockHeight : UInt64
  genesisHash : Hash
  latestBlockhash : Hash
  airdropKp : Keypair
  deriving DecidableEq

/-- The serialization of banks. -/
structure Serde where
  /-- `serde_json::to_string`. -/
  toString : SavedBank → String
  /-- `serde_json::from_str`. -/
  fromStr : String → Option SavedBank

/-- What is read from a saved bank, if it can be read, is what was saved. -/
def Serde.ReadsBack (serde : Serde) : Prop :=
  ∀ saved read, serde.fromStr (serde.toString saved) = some read → read = saved

/-- `SimulateTransactionResult`. -/
structure SimulateTransactionResult where
  result : Except TransactionError Unit
  preAccounts : List TransactionAccount
  postAccounts : List TransactionAccount
  logs : List String
  unitsConsumed : UInt64
  returnData : Option TransactionReturnData

/-- `SimulateTransactionResult::new_error`. -/
def SimulateTransactionResult.newError (error : TransactionError) : SimulateTransactionResult :=
  ⟨.error error, [], [], [], 0, none⟩

/-- `LoadedTransaction`. -/
structure LoadedTransaction where
  accounts : List TransactionAccount
  programIndices : List (List ℕ)
  deriving DecidableEq

namespace PgBank

variable (sdk : Sdk)

/-- `PgBank::LAMPORTS_PER_SIGNATURE`. -/
def lamportsPerSignature : UInt64 := 0

/-- `LAMPORTS_PER_SOL`. -/
def lamportsPerSol : UInt64 := 1000000000

/-- `create_blockhash`. -/
def createBlockhash (bytes : List UInt8) : Hash :=
  sdk.hash bytes

/-! ### Construction -/

/-- `b"playnet"`. -/
def playnetBytes : List UInt8 :=
  [0x70, 0x6c, 0x61, 0x79, 0x6e, 0x65, 0x74]

/-- `PgBank::default`, with the key pair it generates. -/
def default (airdropKp : Keypair) : PgBank :=
  let genesisHash := createBlockhash sdk playnetBytes
  { accounts := ∅
    txs := ∅
    slot := 0
    blockHeight := 0
    genesisHash := genesisHash
    latestBlockhash := genesisHash
    airdropKp := airdropKp
    builtinPrograms := []
    sysvarCache := ⟨none, none, none⟩
    featureSet := sdk.defaultFeatureSet }

/-- What `serde_json::from_str` makes of the saved fields: the others take their defaults. -/
def ofSaved (saved : SavedBank) : PgBank :=
  { accounts := saved.accounts
    txs := ∅
    slot := saved.slot
    blockHeight := saved.blockHeight
    genesisHash := saved.genesisHash
    latestBlockhash := saved.latestBlockhash
    airdropKp := saved.airdropKp
    builtinPrograms := []
    sysvarCache := ⟨none, none, none⟩
    featureSet := sdk.defaultFeatureSet }

/-- The account of a native program. -/
def nativeProgramAccount : Account :=
  { lamports := 1, owner := nativeLoaderId, executable := true }

/-- The account of a sysvar, holding its serialization. -/
def sysvarAccount (data : List UInt8) : Account :=
  { lamports := 1, data := data, owner := sysvarId }

/-- The account that airdrops are paid from. -/
def airdropAccount : Account :=
  { lamports := 1000000 * lamportsPerSol, owner := systemProgramId }

/-- The accounts that `PgBank::new` adds, in order. -/
def genesisAccounts (airdropKp : Keypair) : List TransactionAccount :=
  [(bpfLoaderId, nativeProgramAccount), (bpfLoaderUpgradeableId, nativeProgramAccount),
    (systemProgramId, nativeProgramAccount), (clockId, sysvarAccount sdk.defaultClock.2),
    (rentId, sysvarAccount sdk.defaultRent.2), (airdropKp.pubkey, airdropAccount)]

/-- The bank that `PgBank::new` starts with. The key pair is the one `PgBank::default` generates where
no bank can be read from the string. -/
def readBank (serde : Serde) (airdropKp : Keypair) (maybeBankString : Option String) : PgBank :=
  match maybeBankString with
  | some bankString =>
    match serde.fromStr bankString with
    | some saved => ofSaved sdk saved
    | none => default sdk airdropKp
  | none => default sdk airdropKp

/-- `PgBank::new`. -/
def new (serde : Serde) (airdropKp : Keypair) (maybeBankString : Option String) : PgBank :=
  let bank := readBank sdk serde airdropKp maybeBankString
  { bank with
    accounts := writeAll bank.accounts (genesisAccounts sdk bank.airdropKp)
    builtinPrograms := [⟨bpfLoaderId, .bpfLoader⟩, ⟨bpfLoaderUpgradeableId, .bpfLoader⟩,
      ⟨systemProgramId, .system⟩]
    sysvarCache :=
      { bank.sysvarCache with clock := some sdk.defaultClock.1, rent := some sdk.defaultRent.1 }
    featureSet := sdk.defaultFeatureSet }

/-- The fields of a bank that are saved. -/
def toSaved (bank : PgBank) : SavedBank :=
  ⟨bank.accounts, bank.slot, bank.blockHeight, bank.genesisHash, bank.latestBlockhash,
    bank.airdropKp⟩

/-- `Playnet::get_save_data`. -/
def getSaveData (serde : Serde) (bank : PgBank) : String :=
  serde.toString bank.toSaved

/-! ### Accounts -/

/-- `PgBank::get_account`. -/
def getAccount (bank : PgBank) (pubkey : Pubkey) : Option Account :=
  bank.accounts.lookup pubkey

/-- `PgBank::get_account_default`. -/
def getAccountDefault (bank : PgBank) (pubkey : Pubkey) : Account :=
  match bank.accounts.lookup pubkey with
  | some account => account
  | none => {}

/-- `PgBank::set_account`. -/
def setAccount (bank : PgBank) (pubkey : Pubkey) (account : Account) : PgBank :=
  { bank with accounts := bank.accounts.insert pubkey account }

/-- `u64::checked_mul`. -/
def checkedMul (a b : UInt64) : Option UInt64 :=
  if a.toNat * b.toNat < 2 ^ 64 then some (a * b) else none

/-- `PgBank::get_fee_for_message`. -/
def getFeeForMessage (message : SanitizedMessage) : Option UInt64 :=
  checkedMul (max message.header.numRequiredSignatures 1).toUInt64 lamportsPerSignature

/-! ### Loading -/

/-- `construct_instructions_account`. -/
def constructInstructionsAccount (message : SanitizedMessage) (isOwnedBySysvar : Bool) : Account :=
  { data := sdk.constructInstructionsData message
    owner := if isOwnedBySysvar then sysvarId else systemProgramId }

/-- `validate_fee_payer`. -/
def validateFeePayer (payerAccount : Account) (fee : UInt64) : Outcome TransactionError Unit :=
  if payerAccount.lamports = 0 then .err .accountNotFound
  else
    match getSystemAccountKind sdk payerAccount with
    | none => .err .invalidAccountForFee
    | some .nonce => .panic
    | some .system =>
      let minBalance := 0
      if payerAccount.lamports < fee + minBalance then .err .insufficientFundsForFee else .ok ()

/-- `accumulate_and_check_loaded_account_data_size`, by the size it leaves. -/
def accumulateAndCheckLoadedAccountDataSize (accumulated accountDataSize : ℕ)
    (requestedLimit : Option ℕ) : Outcome TransactionError ℕ :=
  match requestedLimit with
  | some limit =>
    let accumulated := min (accumulated + accountDataSize) (2 ^ 64 - 1)
    if accumulated > limit then .err .maxLoadedAccountsDataSizeExceeded else .ok accumulated
  | none => .ok accumulated

/-- What `load_tx_accounts` changes while it goes through the keys of the message. -/
structure LoadState where
  accounts : List TransactionAccount
  accountDeps : List TransactionAccount
  validatedFeePayer : Bool
  accumulatedAccountsDataSize : ℕ
  deriving DecidableEq

/-- The program data account of an executable account of the upgradeable loader. -/
def loadProgramdata (bank : PgBank) (program : Account) :
    Outcome TransactionError TransactionAccount :=
  match sdk.programdataAddress program with
  | none => .err .invalidProgramForExecution
  | some programdataAddress =>
    match bank.getAccount programdataAddress with
    | none => .err .programAccountNotFound
    | some programdataAccount => .ok (programdataAddress, programdataAccount)

/-- The check of an account that is not loaded as a program: the accounts it depends on. -/
def loadAccountDeps (bank : PgBank) (message : SanitizedMessage) (index : ℕ) (account : Account) :
    Outcome TransactionError (List TransactionAccount) :=
  if account.owner = bpfLoaderUpgradeableId then
    if sdk.isWritable message index = true ∧ sdk.isUpgradeableLoaderPresent message = false then
      .err .invalidWritableAccount
    else if account.executable = true then do
      let programdata ← loadProgramdata sdk bank account
      .ok [programdata]
    else .ok []
  else if account.executable = true ∧ sdk.isWritable message index = true then
    .err .invalidWritableAccount
  else .ok []

/-- What `load_tx_accounts` loads for one key of the message: the account, the accounts it depends
on, the length of their data, and whether a fee payer has been validated. -/
def loadKey (bank : PgBank) (message : SanitizedMessage) (fee : UInt64) (featureSet : FeatureSet)
    (validatedFeePayer : Bool) (pubkey : Pubkey) (index : ℕ) :
    Outcome TransactionError (Account × List TransactionAccount × ℕ × Bool) :=
  if sdk.isNonLoaderKey message index = false then
    let account := bank.getAccountDefault pubkey
    .ok (account, [], account.data.length, validatedFeePayer)
  else if pubkey = instructionsId then
    let isOwnedBySysvar := featureSet .instructionsSysvarOwnedBySysvar
    .ok (constructInstructionsAccount sdk message isOwnedBySysvar, [], 0, validatedFeePayer)
  else do
    let account := bank.getAccountDefault pubkey
    let _ ← (if validatedFeePayer = false then validateFeePayer sdk account fee else .ok () :
      Outcome TransactionError Unit)
    let deps ← loadAccountDeps sdk bank message index account
    .ok (account, deps, (deps.map fun dep ↦ dep.2.data.length).sum, true)

/-- One round of the loop of `load_tx_accounts`. -/
def loadAccountKey (bank : PgBank) (message : SanitizedMessage) (fee : UInt64)
    (featureSet : FeatureSet) (requestedLimit : Option ℕ) (state : LoadState)
    (entry : Pubkey × ℕ) : Outcome TransactionError LoadState := do
  let (pubkey, index) := entry
  let (account, deps, programdataSize, validatedFeePayer) ←
    loadKey sdk bank message fee featureSet state.validatedFeePayer pubkey index
  let size ← accumulateAndCheckLoadedAccountDataSize state.accumulatedAccountsDataSize
    (min (account.data.length + programdataSize) (2 ^ 64 - 1)) requestedLimit
  .ok
    { accounts := state.accounts ++ [(pubkey, account)]
      accountDeps := state.accountDeps ++ deps
      validatedFeePayer := validatedFeePayer
      accumulatedAccountsDataSize := size }

/-- What `load_executable_accounts` changes while it follows the chain of loaders. -/
structure ChainState where
  accounts : List TransactionAccount
  accountIndices : List ℕ
  accumulatedAccountsDataSize : ℕ
  deriving DecidableEq

/-- The loop of `load_executable_accounts`, which may still go around `remaining` times. -/
def loadExecutableChain (bank : PgBank) (alreadyLoadedAsNonLoader : Bool)
    (requestedLimit : Option ℕ) :
    ℕ → Pubkey → ChainState → Outcome TransactionError ChainState
  | remaining, programId, state =>
    if programId = nativeLoaderId then .ok state
    else
      match remaining with
      | 0 => .err .callChainTooDeep
      | remaining + 1 =>
        match bank.getAccount programId with
        | none => .err .programAccountNotFound
        | some programAccount => do
          -- the first round of five counts no size for a program that is loaded already
          let counted := !(remaining = 4 && alreadyLoadedAsNonLoader)
          let programIndex := state.accounts.length % 2 ^ 16
          let accounts := state.accounts ++ [(programId, programAccount)]
          match accounts[programIndex]? with
          | none => .panic
          | some (_, program) =>
            if program.executable = false then .err .invalidProgramForExecution
            else do
              let deps ← (if program.owner = bpfLoaderUpgradeableId then do
                  let programdata ← loadProgramdata sdk bank program
                  .ok [programdata]
                else .ok [] : Outcome TransactionError (List TransactionAccount))
              let depIndices := deps.map fun _ ↦ accounts.length % 2 ^ 16
              let size := if counted then
                  programAccount.data.length + (deps.map fun dep ↦ dep.2.data.length).sum
                else 0
              let accumulated ← accumulateAndCheckLoadedAccountDataSize
                state.accumulatedAccountsDataSize (min size (2 ^ 64 - 1)) requestedLimit
              loadExecutableChain bank alreadyLoadedAsNonLoader requestedLimit remaining
                program.owner
                ⟨accounts ++ deps, depIndices ++ programIndex :: state.accountIndices, accumulated⟩

/-- `load_executable_accounts`, by the accounts, the indices and the size it leaves. -/
def loadExecutableAccounts (bank : PgBank) (requestedLimit : Option ℕ)
    (accounts : List TransactionAccount) (programAccountIndex accumulated : ℕ) :
    Outcome TransactionError ChainState :=
  match accounts[programAccountIndex]? with
  | none => .err .programAccountNotFound
  | some (programId, programAccount) =>
    loadExecutableChain sdk bank (decide (programAccount ≠ {})) requestedLimit 5 programId
      ⟨accounts, [], accumulated⟩

/-- One instruction of the message in `load_tx_accounts`. -/
def loadInstruction (bank : PgBank) (requestedLimit : Option ℕ) (state : LoadedTransaction × ℕ)
    (instruction : CompiledInstruction) : Outcome TransactionError (LoadedTransaction × ℕ) := do
  let chain ← loadExecutableAccounts sdk bank requestedLimit state.1.accounts
    instruction.programIdIndex.toNat state.2
  .ok (⟨chain.accounts, state.1.programIndices ++ [chain.accountIndices]⟩,
    chain.accumulatedAccountsDataSize)

/-- `load_tx_accounts`. -/
def loadTxAccounts (bank : PgBank) (tx : SanitizedTransaction) (fee : UInt64)
    (featureSet : FeatureSet) : Outcome TransactionError LoadedTransaction :=
  if tx.signatures = [] ∧ fee ≠ 0 then .err .missingSignatureForFee
  else do
    let requestedLimit := none
    let loaded ← tx.message.accountKeys.zipIdx.foldlM
      (loadAccountKey sdk bank tx.message fee featureSet requestedLimit) ⟨[], [], false, 0⟩
    if loaded.validatedFeePayer = false then .err .accountNotFound
    else do
      let (loadedTx, _) ← tx.message.instructions.foldlM (loadInstruction sdk bank requestedLimit)
        (⟨loaded.accounts ++ loaded.accountDeps, []⟩, loaded.accumulatedAccountsDataSize)
      .ok loadedTx

/-- `load_tx`. -/
def loadTx (bank : PgBank) (tx : SanitizedTransaction) :
    Outcome TransactionError LoadedTransaction :=
  loadTxAccounts sdk bank tx 0 sdk.defaultFeatureSet

/-! ### Execution -/

/-- The return data without the zeros at its end, if anything is left. -/
def trimReturnData (returnData : TransactionReturnData) : Option TransactionReturnData :=
  let data := (returnData.data.reverse.dropWhile (· = 0)).reverse
  if data = [] then none else some { returnData with data := data }

/-- `execute_loaded_tx`. -/
def executeLoadedTx (bank : PgBank) (tx : SanitizedTransaction) (loadedTx : LoadedTransaction) :
    Outcome TransactionError MessageState :=
  match bank.sysvarCache.rent with
  | none => .panic
  | some rent =>
    let invoke : InvokeContext :=
      { rent := rent
        builtinPrograms := bank.builtinPrograms
        sysvarCache := bank.sysvarCache
        featureSet := sdk.defaultFeatureSet
        blockhash := tx.message.recentBlockhash
        lamportsPerSignature := lamportsPerSignature }
    processMessage sdk invoke tx.message loadedTx.programIndices { accounts := loadedTx.accounts }

/-- What an attempt to load and execute a transaction comes to: the accounts as loaded, and what
executing it has left. -/
def loadAndExecuteTx (bank : PgBank) (tx : SanitizedTransaction) :
    Outcome TransactionError (List TransactionAccount × MessageState) := do
  let loadedTx ← loadTx sdk bank tx
  let executed ← executeLoadedTx sdk bank tx loadedTx
  .ok (loadedTx.accounts, executed)

/-- `PgBank::simulate_tx`. -/
def simulateTx (bank : PgBank) (tx : SanitizedTransaction) : Option SimulateTransactionResult :=
  let accountCount := tx.message.accountKeys.length
  match loadAndExecuteTx sdk bank tx with
  | .panic => none
  | .err error => some (.newError error)
  | .ok (loadedAccounts, executed) =>
    some
      { result := .ok ()
        preAccounts := loadedAccounts.take accountCount
        postAccounts := executed.context.accounts.take accountCount
        logs := executed.logs
        unitsConsumed := executed.unitsConsumed
        returnData := trimReturnData executed.context.returnData }

/-! ### Recording -/

/-- `new_slot`. -/
def newSlot (bank : PgBank) : Option PgBank :=
  if bank.slot.toNat + 1 < 2 ^ 64 ∧ bank.blockHeight.toNat + 1 < 2 ^ 64 then
    some
      { bank with
        latestBlockhash := createBlockhash sdk (sdk.hashToBytes bank.latestBlockhash)
        slot := bank.slot + 1
        blockHeight := bank.blockHeight + 1 }
  else none

/-- Whether a transaction has an upgradeable loader `Write` instruction. -/
def bpfUpgradeableWriteIxExists (tx : SanitizedTransaction) : Bool :=
  tx.message.instructions.any fun instruction ↦
    decide (tx.message.accountKeys[instruction.programIdIndex.toNat]? = some bpfLoaderUpgradeableId ∧
      [1] <+: instruction.data)

/-- `save_tx`. -/
def saveTx (bank : PgBank) (tx : SanitizedTransaction) (result : SimulateTransactionResult)
    (fee : UInt64) : Option (PgBank × Except TransactionError Signature) :=
  if bpfUpgradeableWriteIxExists tx then some (bank, .ok tx.signature)
  else
    match bank.txs.lookup tx.signature with
    | some _ => some (bank, .error .alreadyProcessed)
    | none => do
      let clock ← bank.sysvarCache.clock
      let txMeta : ConfirmedTransactionMeta :=
        { fee := fee
          preBalances := result.preAccounts.map fun entry ↦ entry.2.lamports
          postBalances := result.postAccounts.map fun entry ↦ entry.2.lamports
          logMessages := some result.logs
          err := match result.result with
            | .ok _ => none
            | .error error => some error
          computeUnitsConsumed := some result.unitsConsumed }
      let recorded : TransactionData :=
        ⟨bank.slot, tx.toVersionedTransaction, some txMeta, some clock.unixTimestamp⟩
      let bank ← newSlot sdk { bank with txs := bank.txs.insert tx.signature recorded }
      some (bank, .ok tx.signature)

/-! ### Processing -/

/-- The loop of `process_tx` that writes the accounts of the transaction back. -/
def setAccounts (bank : PgBank) (accounts : List TransactionAccount) : PgBank :=
  accounts.foldl (fun bank entry ↦ bank.setAccount entry.1 entry.2) bank

/-- `PgBank::process_tx`. -/
def processTx (bank : PgBank) (tx : SanitizedTransaction) :
    Option (PgBank × Except TransactionError Signature) := do
  let simulationResult ← simulateTx sdk bank tx
  match simulationResult.result with
  | .ok _ => do
    let fee ← getFeeForMessage tx.message
    saveTx sdk (bank.setAccounts simulationResult.postAccounts) tx simulationResult fee
  | .error error => some (bank, .error error)

/-- The transaction that `PgBank::airdrop` makes. -/
def airdropTransaction (bank : PgBank) (toPubkey : Pubkey) (lamports : UInt64) :
    Outcome TransactionError SanitizedTransaction :=
  let payer := bank.airdropKp
  let message := sdk.newMessageWithBlockhash
    [sdk.transferInstruction payer.pubkey toPubkey lamports] (some payer.pubkey)
    bank.latestBlockhash
  match sdk.signTransaction message [payer] with
  | none => .panic
  | some tx => sdk.sanitizeTransaction tx

/-- `PgBank::airdrop`. -/
def airdrop (bank : PgBank) (toPubkey : Pubkey) (lamports : UInt64) :
    Option (PgBank × Except TransactionError Signature) :=
  match airdropTransaction sdk bank toPubkey lamports with
  | .panic => none
  | .err error => some (bank, .error error)
  | .ok sanitizedTx => processTx sdk bank sanitizedTx

/-- `PgBank::get_tx`. -/
def getTx (bank : PgBank) (signature : Signature) : Option TransactionData :=
  bank.txs.lookup signature

end PgBank

end Playground.Playnet
