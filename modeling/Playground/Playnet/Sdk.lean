import Mathlib.Algebra.GroupWithZero.Nat
import Mathlib.Data.Finset.Basic
import Playground.Library.Outcome

/-!
# The Solana SDK as Playnet uses it

`wasm/playnet` builds a bank on `solana-sdk`, `solana-program-runtime` and
`solana-bpf-loader-program`, whose sources are not in the repository. The types of those crates that
the bank reads or writes are plain data here; what their functions compute is a parameter, the
structure `Sdk`, and the definitions of the bank that call them take it as their first argument.

`Sdk.Lawful` collects what the code relies on: what a successful call of each function has done. It
says nothing about when a call succeeds, so that the checks of writability, executability and
ownership made inside those crates are left open, and nothing about the errors.

Not formalized here: compute budgets, timings and executor caches, which no function of the bank
reads, and loaded addresses, since the bank's address loader always fails.
-/

set_option autoImplicit false
set_option relaxedAutoImplicit false

namespace Playground.Playnet

open Library

/-! ### Keys, hashes and accounts -/

/-- A public key. -/
abbrev Pubkey := BitVec 256

/-- `contains` of a slice of public keys. -/
instance (pubkey : Pubkey) (accountKeys : List Pubkey) : Decidable (pubkey ∈ accountKeys) :=
  List.instDecidableMemOfLawfulBEq pubkey accountKeys

/-- A hash. -/
abbrev Hash := BitVec 256

/-- A transaction signature. -/
abbrev Signature := BitVec 512

/-- The address `11111111111111111111111111111111` of the system program. -/
def systemProgramId : Pubkey := 0#256

/-- The address `NativeLoader1111111111111111111111111111111`. -/
def nativeLoaderId : Pubkey :=
  0x058784bf148ba4282fb012574888a9f153a07dadf765c0455c9a970380000000#256

/-- The address `BPFLoader2111111111111111111111111111111111`. -/
def bpfLoaderId : Pubkey :=
  0x02a8f6914e88a16e395ae128948ffa695693376818dd47435221f3c600000000#256

/-- The address `BPFLoaderUpgradeab1e11111111111111111111111`. -/
def bpfLoaderUpgradeableId : Pubkey :=
  0x02a8f6914e88a1b0e210153ef763ae2b00c2b93d16c124d2c0537a1004800000#256

/-- The address `Sysvar1111111111111111111111111111111111111`, the owner of the sysvars. -/
def sysvarId : Pubkey :=
  0x06a7d5171875f729c73d93408f216120067ed88c76e08c287fc1946000000000#256

/-- The address `SysvarC1ock11111111111111111111111111111111`. -/
def clockId : Pubkey :=
  0x06a7d51718c774c928566398691d5eb68b5eb8a39b4b6d5c73555b2100000000#256

/-- The address `SysvarRent111111111111111111111111111111111`. -/
def rentId : Pubkey :=
  0x06a7d517192c5c51218cc94c3d4af17f58daee089ba1fd44e3dbd98a00000000#256

/-- The address `Sysvar1nstructions1111111111111111111111111`. -/
def instructionsId : Pubkey :=
  0x06a7d517187bd16635dad40455fdc2c0c124c68f215675a5dbbacb5f08000000#256

/-- A key pair. -/
structure Keypair where
  pubkey : Pubkey
  secret : BitVec 256
  deriving DecidableEq

/-- An account, `Account` and `AccountSharedData` alike. -/
structure Account where
  lamports : UInt64 := 0
  data : List UInt8 := []
  owner : Pubkey := 0#256
  executable : Bool := false
  rentEpoch : UInt64 := 0
  deriving DecidableEq, Inhabited

/-- `TransactionAccount`. -/
abbrev TransactionAccount := Pubkey × Account

/-! ### Messages and transactions -/

/-- `MessageHeader`. -/
structure MessageHeader where
  numRequiredSignatures : UInt8
  numReadonlySignedAccounts : UInt8
  numReadonlyUnsignedAccounts : UInt8
  deriving DecidableEq

/-- `CompiledInstruction`. Indices are those of the message's account keys. -/
structure CompiledInstruction where
  programIdIndex : UInt8
  accounts : List UInt8
  data : List UInt8
  deriving DecidableEq

/-- `SanitizedMessage`. -/
structure SanitizedMessage where
  header : MessageHeader
  accountKeys : List Pubkey
  recentBlockhash : Hash
  instructions : List CompiledInstruction
  deriving DecidableEq

/-- `VersionedTransaction`. -/
structure VersionedTransaction where
  signatures : List Signature
  message : SanitizedMessage
  deriving DecidableEq

/-- `SanitizedTransaction`: a transaction with a signature, the indices of whose instructions are
indices of its account keys. The keys of a sanitized message need not be distinct. -/
structure SanitizedTransaction extends VersionedTransaction where
  signatures_ne_nil : signatures ≠ []
  programIdIndex_lt : ∀ instruction ∈ message.instructions,
    instruction.programIdIndex.toNat < message.accountKeys.length
  accounts_lt : ∀ instruction ∈ message.instructions, ∀ index ∈ instruction.accounts,
    index.toNat < message.accountKeys.length
  deriving DecidableEq

/-- `SanitizedTransaction::signature`, the first signature. -/
def SanitizedTransaction.signature (tx : SanitizedTransaction) : Signature :=
  tx.signatures.head tx.signatures_ne_nil

/-- `Instruction`, before a message is compiled. -/
structure Instruction where
  programId : Pubkey
  accounts : List (Pubkey × Bool × Bool)
  data : List UInt8
  deriving DecidableEq

/-! ### Errors -/

/-- `SystemError`, as far as the system program returns it. -/
inductive SystemError
  | accountAlreadyInUse
  | resultWithNegativeLamports
  | invalidAccountDataLength
  | addressWithSeedMismatch
  deriving DecidableEq

/-- `NonceError`. -/
inductive NonceError
  | noRecentBlockhashes
  | notExpired
  | badAccountState
  deriving DecidableEq

/-- `InstructionError`. Errors that only the SDK returns are told apart by a number. -/
inductive InstructionError
  | missingRequiredSignature
  | invalidArgument
  | insufficientFunds
  | invalidAccountOwner
  | system (error : SystemError)
  | nonce (error : NonceError)
  | other (code : ℕ)
  deriving DecidableEq

/-- `TransactionError`. Errors that only the SDK returns are told apart by a number. -/
inductive TransactionError
  | accountNotFound
  | programAccountNotFound
  | invalidProgramForExecution
  | invalidWritableAccount
  | invalidAccountForFee
  | insufficientFundsForFee
  | invalidAccountIndex
  | missingSignatureForFee
  | callChainTooDeep
  | alreadyProcessed
  | maxLoadedAccountsDataSizeExceeded
  | instructionError (index : UInt8) (error : InstructionError)
  | other (code : ℕ)
  deriving DecidableEq

/-! ### Sysvars, features and nonces -/

/-- `Clock`, as far as the bank reads it. -/
structure Clock where
  unixTimestamp : Int
  deriving DecidableEq

/-- `Rent`, through its `minimum_balance`. -/
structure Rent where
  minimumBalance : ℕ → UInt64

/-- `SysvarCache`, the sysvars the bank knows of. -/
structure SysvarCache where
  clock : Option Clock
  rent : Option Rent
  recentBlockhashes : Option (List Hash)

/-- The features that the bank asks for. -/
inductive Feature
  | instructionsSysvarOwnedBySysvar
  | systemTransferZeroCheck
  | mergeNonceErrorIntoSystemError
  deriving DecidableEq

/-- `FeatureSet`, by what `is_active` returns. -/
abbrev FeatureSet := Feature → Bool

/-- `nonce::state::Data`. -/
structure NonceData where
  authority : Pubkey
  durableNonce : Hash
  lamportsPerSignature : UInt64
  deriving DecidableEq

/-- `nonce::State`. -/
inductive NonceState
  | uninitialized
  | initialized (data : NonceData)
  deriving DecidableEq

/-- `nonce::state::Versions`. -/
inductive NonceVersions
  | legacy (state : NonceState)
  | current (state : NonceState)
  deriving DecidableEq

/-- `Versions::state`. -/
def NonceVersions.state : NonceVersions → NonceState
  | .legacy state => state
  | .current state => state

/-- `AuthorizeNonceError`. -/
inductive AuthorizeNonceError
  | uninitialized
  | missingRequiredSignature (authority : Pubkey)
  deriving DecidableEq

/-! ### The system program's instructions -/

/-- `SystemInstruction`. -/
inductive SystemInstruction
  | createAccount (lamports space : UInt64) (owner : Pubkey)
  | assign (owner : Pubkey)
  | transfer (lamports : UInt64)
  | createAccountWithSeed (base : Pubkey) (seed : String) (lamports space : UInt64)
      (owner : Pubkey)
  | advanceNonceAccount
  | withdrawNonceAccount (lamports : UInt64)
  | initializeNonceAccount (authorized : Pubkey)
  | authorizeNonceAccount (nonceAuthority : Pubkey)
  | allocate (space : UInt64)
  | allocateWithSeed (base : Pubkey) (seed : String) (space : UInt64) (owner : Pubkey)
  | assignWithSeed (base : Pubkey) (seed : String) (owner : Pubkey)
  | transferWithSeed (lamports : UInt64) (fromSeed : String) (fromOwner : Pubkey)
  | upgradeNonceAccount
  deriving DecidableEq

/-- `MAX_PERMITTED_DATA_LENGTH`, ten mebibytes. -/
def maxPermittedDataLength : UInt64 := 10 * 1024 * 1024

/-! ### The contexts of an invocation -/

/-- `TransactionReturnData`. -/
structure TransactionReturnData where
  programId : Pubkey
  data : List UInt8
  deriving DecidableEq

/-- `TransactionContext`: the accounts of a transaction, with their keys, and what the last program
returned. -/
structure TransactionContext where
  accounts : List TransactionAccount
  returnData : TransactionReturnData := ⟨0#256, []⟩
  deriving DecidableEq

/-- `InstructionAccount`. -/
structure InstructionAccount where
  indexInTransaction : ℕ
  indexInCaller : ℕ
  indexInCallee : ℕ
  isSigner : Bool
  isWritable : Bool
  deriving DecidableEq

/-- `InstructionContext`. -/
structure InstructionContext where
  programAccounts : List ℕ
  instructionAccounts : List InstructionAccount
  instructionData : List UInt8
  deriving DecidableEq

/-- A program compiled into the bank. -/
inductive BuiltinProcess
  | bpfLoader
  | system
  deriving DecidableEq

/-- `BuiltinProgram`. -/
structure BuiltinProgram where
  programId : Pubkey
  processInstruction : BuiltinProcess
  deriving DecidableEq

/-- `InvokeContext`, without the transaction context it borrows. -/
structure InvokeContext where
  rent : Rent
  builtinPrograms : List BuiltinProgram
  sysvarCache : SysvarCache
  featureSet : FeatureSet
  blockhash : Hash
  lamportsPerSignature : UInt64

/-- `BorrowedAccount`: an account of the transaction, borrowed by an instruction. -/
structure BorrowedAccount where
  indexInTransaction : ℕ
  key : Pubkey
  account : Account
  isWritable : Bool
  deriving DecidableEq

/-- The transaction with another key and account at an index. -/
def TransactionContext.put (context : TransactionContext) (index : ℕ) (key : Pubkey)
    (account : Account) : TransactionContext :=
  { context with accounts := context.accounts.set index (key, account) }

/-- Dropping a borrowed account: the transaction holds what the borrower left in it. -/
def TransactionContext.store (context : TransactionContext) (borrowed : BorrowedAccount) :
    TransactionContext :=
  context.put borrowed.indexInTransaction borrowed.key borrowed.account

/-- What `InvokeContext::process_instruction` leaves behind: the transaction's accounts, the result,
the compute units consumed and the lines logged. -/
structure Invocation where
  context : TransactionContext
  result : Outcome InstructionError Unit
  computeUnitsConsumed : UInt64
  logs : List String

/-! ### The functions -/

/-- The functions of the SDK that the bank calls. -/
structure Sdk where
  /-- `Hasher::hash` and `Hasher::result`. -/
  hash : List UInt8 → Hash
  /-- `Hash::to_bytes`. -/
  hashToBytes : Hash → List UInt8
  /-- `SanitizedMessage::is_signer`. -/
  isSigner : SanitizedMessage → ℕ → Bool
  /-- `SanitizedMessage::is_writable`. -/
  isWritable : SanitizedMessage → ℕ → Bool
  /-- `SanitizedMessage::is_non_loader_key`. -/
  isNonLoaderKey : SanitizedMessage → ℕ → Bool
  /-- `SanitizedMessage::is_upgradeable_loader_present`. -/
  isUpgradeableLoaderPresent : SanitizedMessage → Bool
  /-- `construct_instructions_data` of `decompile_instructions`. -/
  constructInstructionsData : SanitizedMessage → List UInt8
  /-- `sysvar::instructions::store_current_index`. -/
  storeCurrentIndex : List UInt8 → UInt16 → Outcome TransactionError (List UInt8)
  /-- `FeatureSet::default`. -/
  defaultFeatureSet : FeatureSet
  /-- `Clock::default` and its serialization. -/
  defaultClock : Clock × List UInt8
  /-- `Rent::default` and its serialization. -/
  defaultRent : Rent × List UInt8
  /-- The address in an account's `UpgradeableLoaderState::Program`, if it holds one. -/
  programdataAddress : Account → Option Pubkey
  /-- `AccountSharedData::state` at `nonce::state::Versions`. -/
  accountNonceState : Account → Option NonceVersions
  /-- `nonce::State::size`. -/
  nonceStateSize : ℕ
  /-- `system_instruction::transfer`. -/
  transferInstruction : Pubkey → Pubkey → UInt64 → Instruction
  /-- `Message::new_with_blockhash`. -/
  newMessageWithBlockhash : List Instruction → Option Pubkey → Hash → SanitizedMessage
  /-- `VersionedTransaction::try_new`. -/
  signTransaction : SanitizedMessage → List Keypair → Option VersionedTransaction
  /-- `SanitizedTransaction::try_create`. -/
  sanitizeTransaction : VersionedTransaction → Outcome TransactionError SanitizedTransaction
  /-- The deserialization of a serialized transaction. -/
  parseTransaction : List UInt8 → Option VersionedTransaction
  /-- `SanitizedTransaction::verify`. -/
  verifyTransaction : SanitizedTransaction → Outcome TransactionError Unit
  /-- `SanitizedTransaction::verify_precompiles`. -/
  verifyPrecompiles : SanitizedTransaction → FeatureSet → Outcome TransactionError Unit
  /-- `is_precompile`. -/
  isPrecompile : Pubkey → FeatureSet → Bool
  /-- Pushing and popping the instruction context of a precompile. -/
  pushPrecompile : TransactionContext → InstructionContext → Outcome InstructionError Unit
  /-- `InvokeContext::process_instruction`. -/
  processInstruction : InvokeContext → TransactionContext → InstructionContext → Invocation
  /-- `limited_deserialize` of a system instruction. -/
  limitedDeserialize : List UInt8 → Outcome InstructionError SystemInstruction
  /-- `InstructionContext::get_signers`. -/
  getSigners : InstructionContext → TransactionContext → Outcome InstructionError (Finset Pubkey)
  /-- `InstructionContext::check_number_of_instruction_accounts`. -/
  checkNumberOfInstructionAccounts : InstructionContext → ℕ → Outcome InstructionError Unit
  /-- `InstructionContext::get_index_of_instruction_account_in_transaction`. -/
  getIndexOfInstructionAccount : InstructionContext → ℕ → Outcome InstructionError ℕ
  /-- `TransactionContext::get_key_of_account_at_index`. -/
  getKeyOfAccountAtIndex : TransactionContext → ℕ → Outcome InstructionError Pubkey
  /-- `InstructionContext::is_instruction_account_signer`. -/
  isInstructionAccountSigner : InstructionContext → ℕ → Outcome InstructionError Bool
  /-- `InstructionContext::try_borrow_instruction_account`. -/
  tryBorrowInstructionAccount :
    InstructionContext → TransactionContext → ℕ → Outcome InstructionError BorrowedAccount
  /-- `BorrowedAccount::set_data_length`, by the account it leaves. -/
  setDataLength : BorrowedAccount → UInt64 → Outcome InstructionError Account
  /-- `BorrowedAccount::set_owner`, by the account it leaves. -/
  setOwner : BorrowedAccount → Pubkey → Outcome InstructionError Account
  /-- `BorrowedAccount::checked_sub_lamports`, by the account it leaves. -/
  checkedSubLamports : BorrowedAccount → UInt64 → Outcome InstructionError Account
  /-- `BorrowedAccount::checked_add_lamports`, by the account it leaves. -/
  checkedAddLamports : BorrowedAccount → UInt64 → Outcome InstructionError Account
  /-- `BorrowedAccount::get_state` at `nonce::state::Versions`. -/
  getState : BorrowedAccount → Outcome InstructionError NonceVersions
  /-- `BorrowedAccount::set_state`, by the account it leaves. -/
  setState : BorrowedAccount → NonceVersions → Outcome InstructionError Account
  /-- `Versions::upgrade`. -/
  upgradeNonce : NonceVersions → Option NonceVersions
  /-- `Versions::authorize`. -/
  authorizeNonce :
    NonceVersions → Finset Pubkey → Pubkey → Outcome AuthorizeNonceError NonceVersions
  /-- `DurableNonce::from_blockhash`. -/
  durableNonceFromBlockhash : Hash → Hash
  /-- `nonce_to_instruction_error`. -/
  nonceToInstructionError : NonceError → Bool → InstructionError
  /-- `instruction::checked_add`. -/
  checkedAdd : UInt64 → UInt64 → Outcome InstructionError UInt64
  /-- `Pubkey::create_with_seed`. -/
  createWithSeed : Pubkey → String → Pubkey → Outcome InstructionError Pubkey
  /-- `get_sysvar_with_account_check::recent_blockhashes`. -/
  recentBlockhashes :
    InvokeContext → InstructionContext → ℕ → Outcome InstructionError (List Hash)
  /-- `get_sysvar_with_account_check::rent`. -/
  rentSysvar : InvokeContext → InstructionContext → ℕ → Outcome InstructionError Rent

/-- The keys that sign an instruction: those of its signer accounts. -/
def signerKeys (context : TransactionContext) (instruction : InstructionContext) : Set Pubkey :=
  {key | ∃ signer ∈ instruction.instructionAccounts, signer.isSigner = true ∧
    ∃ account, context.accounts[signer.indexInTransaction]? = some (key, account)}

/-- What a successful call of a function of the SDK has done. -/
structure Sdk.Lawful (sdk : Sdk) : Prop where
  /-- The signers are the keys of the signer accounts. -/
  getSigners_ok : ∀ {instruction context signers},
    sdk.getSigners instruction context = .ok signers →
      ↑signers = signerKeys context instruction
  /-- An index of an instruction is looked up among its accounts. -/
  getIndexOfInstructionAccount_ok : ∀ {instruction : InstructionContext} {position index},
    sdk.getIndexOfInstructionAccount instruction position = .ok index →
      ∃ entry, instruction.instructionAccounts[position]? = some entry ∧
        index = entry.indexInTransaction
  /-- A key is that of the account at the index. -/
  getKeyOfAccountAtIndex_ok : ∀ {context : TransactionContext} {index key},
    sdk.getKeyOfAccountAtIndex context index = .ok key →
      ∃ account, context.accounts[index]? = some (key, account)
  /-- An account of an instruction is a signer if it is marked so. -/
  isInstructionAccountSigner_ok : ∀ {instruction : InstructionContext} {position signer},
    sdk.isInstructionAccountSigner instruction position = .ok signer →
      ∃ entry, instruction.instructionAccounts[position]? = some entry ∧ signer = entry.isSigner
  /-- Borrowing an account gives the transaction's account and its key. -/
  tryBorrowInstructionAccount_ok :
    ∀ {instruction : InstructionContext} {context : TransactionContext} {position borrowed},
      sdk.tryBorrowInstructionAccount instruction context position = .ok borrowed →
        (∃ entry, instruction.instructionAccounts[position]? = some entry ∧
          borrowed.indexInTransaction = entry.indexInTransaction ∧
          borrowed.isWritable = entry.isWritable) ∧
        context.accounts[borrowed.indexInTransaction]? = some (borrowed.key, borrowed.account)
  /-- Setting the data length changes the data only. -/
  setDataLength_ok : ∀ {borrowed length account},
    sdk.setDataLength borrowed length = .ok account →
      account = { borrowed.account with data := account.data }
  /-- Setting the owner changes the owner only. -/
  setOwner_ok : ∀ {borrowed owner account},
    sdk.setOwner borrowed owner = .ok account → account = { borrowed.account with owner := owner }
  /-- A borrowed account's state is that of the account. -/
  getState_ok : ∀ {borrowed versions},
    sdk.getState borrowed = .ok versions →
      sdk.accountNonceState borrowed.account = some versions
  /-- Setting the state changes the data only. -/
  setState_ok : ∀ {borrowed versions account},
    sdk.setState borrowed versions = .ok account →
      account = { borrowed.account with data := account.data }
  /-- A checked subtraction does not go below zero, and leaves the balance of a read-only account. -/
  checkedSubLamports_ok : ∀ {borrowed lamports account},
    sdk.checkedSubLamports borrowed lamports = .ok account →
      lamports ≤ borrowed.account.lamports ∧
        (lamports = 0 ∨ borrowed.isWritable = true) ∧
        account = { borrowed.account with lamports := borrowed.account.lamports - lamports }
  /-- A checked addition does not wrap around, and leaves the balance of a read-only account. -/
  checkedAddLamports_ok : ∀ {borrowed lamports account},
    sdk.checkedAddLamports borrowed lamports = .ok account →
      borrowed.account.lamports.toNat + lamports.toNat < 2 ^ 64 ∧
        (lamports = 0 ∨ borrowed.isWritable = true) ∧
        account = { borrowed.account with lamports := borrowed.account.lamports + lamports }
  /-- Only the authority of an initialized nonce can hand it on. -/
  authorizeNonce_ok : ∀ {versions signers authority versions'},
    sdk.authorizeNonce versions signers authority = .ok versions' →
      ∃ data, versions.state = .initialized data ∧ data.authority ∈ signers

end Playground.Playnet
