import Playground.Playnet.NonceKeyedAccount

/-!
# The system program

`wasm/playnet/src/runtime/system_instruction_processor.rs`. `processSystemInstruction` decodes the
data of the current instruction and runs it on the accounts of the transaction. Accounts are borrowed
one at a time by their position among the instruction's accounts, where one account may stand at
several positions, and what the borrower did to an account is written back when the borrow ends.

Not formalized here: the lines written to the log collector.
-/

set_option autoImplicit false
set_option relaxedAutoImplicit false

namespace Playground.Playnet

open Library

variable (sdk : Sdk)

/-! ### Addresses -/

/-- `Address`: an address that may or may not have been generated from a seed. -/
structure DerivedAddress where
  address : Pubkey
  base : Option Pubkey
  deriving DecidableEq

/-- `Address::is_signer`. -/
def DerivedAddress.isSigner (address : DerivedAddress) (signers : Finset Pubkey) : Bool :=
  match address.base with
  | some base => decide (base ∈ signers)
  | none => decide (address.address ∈ signers)

/-- `Address::create`. -/
def DerivedAddress.create (address : Pubkey) (withSeed : Option (Pubkey × String × Pubkey)) :
    Outcome InstructionError DerivedAddress :=
  match withSeed with
  | some (base, seed, owner) => do
    let addressWithSeed ← sdk.createWithSeed base seed owner
    -- re-derive the address, must match the supplied address
    if address ≠ addressWithSeed then .err (.system .addressWithSeedMismatch)
    else .ok ⟨address, some base⟩
  | none => .ok ⟨address, none⟩

/-- The key of an account of the instruction, as `Address::create` is called with it. -/
def keyOfInstructionAccount (context : TransactionContext) (instruction : InstructionContext)
    (position : ℕ) : Outcome InstructionError Pubkey := do
  let index ← sdk.getIndexOfInstructionAccount instruction position
  sdk.getKeyOfAccountAtIndex context index

/-! ### Allocating and assigning -/

/-- `allocate`. -/
def allocate (account : BorrowedAccount) (address : DerivedAddress) (space : UInt64)
    (signers : Finset Pubkey) : Outcome InstructionError Account :=
  if address.isSigner signers = false then .err .missingRequiredSignature
  -- if it looks like the `to` account is already in use, bail
  else if account.account.data ≠ [] ∨ account.account.owner ≠ systemProgramId then
    .err (.system .accountAlreadyInUse)
  else if space > maxPermittedDataLength then .err (.system .invalidAccountDataLength)
  else sdk.setDataLength account space

/-- `assign`. -/
def assign (account : BorrowedAccount) (address : DerivedAddress) (owner : Pubkey)
    (signers : Finset Pubkey) : Outcome InstructionError Account :=
  -- no work to do, just return
  if account.account.owner = owner then .ok account.account
  else if address.isSigner signers = false then .err .missingRequiredSignature
  else sdk.setOwner account owner

/-- `allocate_and_assign`. -/
def allocateAndAssign (to' : BorrowedAccount) (toAddress : DerivedAddress) (space : UInt64)
    (owner : Pubkey) (signers : Finset Pubkey) : Outcome InstructionError Account := do
  let allocated ← allocate sdk to' toAddress space signers
  assign sdk { to' with account := allocated } toAddress owner signers

/-! ### Transfers -/

/-- `transfer_verified`. -/
def transferVerified (fromAccountIndex toAccountIndex : ℕ) (lamports : UInt64)
    (context : TransactionContext) (instruction : InstructionContext) :
    Outcome InstructionError TransactionContext := do
  let from' ← sdk.tryBorrowInstructionAccount instruction context fromAccountIndex
  if from'.account.data ≠ [] then .err .invalidArgument
  else if lamports > from'.account.lamports then .err (.system .resultWithNegativeLamports)
  else do
    let drained ← sdk.checkedSubLamports from' lamports
    let context := context.store { from' with account := drained }
    let to' ← sdk.tryBorrowInstructionAccount instruction context toAccountIndex
    let filled ← sdk.checkedAddLamports to' lamports
    .ok (context.store { to' with account := filled })

/-- `transfer`. -/
def transfer (fromAccountIndex toAccountIndex : ℕ) (lamports : UInt64) (invoke : InvokeContext)
    (context : TransactionContext) (instruction : InstructionContext) :
    Outcome InstructionError TransactionContext :=
  if invoke.featureSet .systemTransferZeroCheck = false ∧ lamports = 0 then .ok context
  else do
    let signer ← sdk.isInstructionAccountSigner instruction fromAccountIndex
    if signer = false then .err .missingRequiredSignature
    else transferVerified sdk fromAccountIndex toAccountIndex lamports context instruction

/-- `transfer_with_seed`. -/
def transferWithSeed (fromAccountIndex fromBaseAccountIndex : ℕ) (fromSeed : String)
    (fromOwner : Pubkey) (toAccountIndex : ℕ) (lamports : UInt64) (invoke : InvokeContext)
    (context : TransactionContext) (instruction : InstructionContext) :
    Outcome InstructionError TransactionContext :=
  if invoke.featureSet .systemTransferZeroCheck = false ∧ lamports = 0 then .ok context
  else do
    let signer ← sdk.isInstructionAccountSigner instruction fromBaseAccountIndex
    if signer = false then .err .missingRequiredSignature
    else do
      let baseKey ← keyOfInstructionAccount sdk context instruction fromBaseAccountIndex
      let addressFromSeed ← sdk.createWithSeed baseKey fromSeed fromOwner
      let fromKey ← keyOfInstructionAccount sdk context instruction fromAccountIndex
      if fromKey ≠ addressFromSeed then .err (.system .addressWithSeedMismatch)
      else transferVerified sdk fromAccountIndex toAccountIndex lamports context instruction

/-- `create_account`. -/
def createAccount (fromAccountIndex toAccountIndex : ℕ) (toAddress : DerivedAddress)
    (lamports space : UInt64) (owner : Pubkey) (signers : Finset Pubkey) (invoke : InvokeContext)
    (context : TransactionContext) (instruction : InstructionContext) :
    Outcome InstructionError TransactionContext := do
  -- if it looks like the `to` account is already in use, bail
  let to' ← sdk.tryBorrowInstructionAccount instruction context toAccountIndex
  if to'.account.lamports > 0 then .err (.system .accountAlreadyInUse)
  else do
    let created ← allocateAndAssign sdk to' toAddress space owner signers
    let context := context.store { to' with account := created }
    transfer sdk fromAccountIndex toAccountIndex lamports invoke context instruction

/-! ### The entry point -/

/-- Borrow the instruction's first account, change it, and write it back. -/
def onFirstAccount (context : TransactionContext) (instruction : InstructionContext)
    (change : BorrowedAccount → Outcome InstructionError Account) :
    Outcome InstructionError TransactionContext := do
  let account ← sdk.tryBorrowInstructionAccount instruction context 0
  let changed ← change account
  .ok (context.store { account with account := changed })

/-- The `UpgradeNonceAccount` branch of `process_system_instruction`. -/
def upgradeNonceAccount (account : BorrowedAccount) : Outcome InstructionError Account :=
  if account.account.owner ≠ systemProgramId then .err .invalidAccountOwner
  else if account.isWritable = false then .err .invalidArgument
  else do
    let nonceVersions ← sdk.getState account
    match sdk.upgradeNonce nonceVersions with
    | none => .err .invalidArgument
    | some nonceVersions => sdk.setState account nonceVersions

/-- The branches of `process_system_instruction`. -/
def runSystemInstruction (decoded : SystemInstruction) (signers : Finset Pubkey)
    (invoke : InvokeContext) (context : TransactionContext) (instruction : InstructionContext) :
    Outcome InstructionError TransactionContext :=
  match decoded with
  | .createAccount lamports space owner => do
    sdk.checkNumberOfInstructionAccounts instruction 2
    let key ← keyOfInstructionAccount sdk context instruction 1
    let toAddress ← DerivedAddress.create sdk key none
    createAccount sdk 0 1 toAddress lamports space owner signers invoke context instruction
  | .createAccountWithSeed base seed lamports space owner => do
    sdk.checkNumberOfInstructionAccounts instruction 2
    let key ← keyOfInstructionAccount sdk context instruction 1
    let toAddress ← DerivedAddress.create sdk key (some (base, seed, owner))
    createAccount sdk 0 1 toAddress lamports space owner signers invoke context instruction
  | .assign owner => do
    sdk.checkNumberOfInstructionAccounts instruction 1
    onFirstAccount sdk context instruction fun account ↦ do
      let key ← keyOfInstructionAccount sdk context instruction 0
      let address ← DerivedAddress.create sdk key none
      assign sdk account address owner signers
  | .transfer lamports => do
    sdk.checkNumberOfInstructionAccounts instruction 2
    transfer sdk 0 1 lamports invoke context instruction
  | .transferWithSeed lamports fromSeed fromOwner => do
    sdk.checkNumberOfInstructionAccounts instruction 3
    transferWithSeed sdk 0 1 fromSeed fromOwner 2 lamports invoke context instruction
  | .advanceNonceAccount => do
    sdk.checkNumberOfInstructionAccounts instruction 1
    onFirstAccount sdk context instruction fun me ↦ do
      let recentBlockhashes ← sdk.recentBlockhashes invoke instruction 1
      if recentBlockhashes = [] then .err (.nonce .noRecentBlockhashes)
      else advanceNonceAccount sdk me signers invoke
  | .withdrawNonceAccount lamports => do
    sdk.checkNumberOfInstructionAccounts instruction 2
    let _ ← sdk.recentBlockhashes invoke instruction 2
    let rent ← sdk.rentSysvar invoke instruction 3
    withdrawNonceAccount sdk 0 lamports 1 rent signers invoke context instruction
  | .initializeNonceAccount authorized => do
    sdk.checkNumberOfInstructionAccounts instruction 1
    onFirstAccount sdk context instruction fun me ↦ do
      let recentBlockhashes ← sdk.recentBlockhashes invoke instruction 1
      if recentBlockhashes = [] then .err (.nonce .noRecentBlockhashes)
      else do
        let rent ← sdk.rentSysvar invoke instruction 2
        initializeNonceAccount sdk me authorized rent invoke
  | .authorizeNonceAccount nonceAuthority => do
    sdk.checkNumberOfInstructionAccounts instruction 1
    onFirstAccount sdk context instruction fun me ↦
      authorizeNonceAccount sdk me nonceAuthority signers invoke
  | .upgradeNonceAccount => do
    sdk.checkNumberOfInstructionAccounts instruction 1
    onFirstAccount sdk context instruction (upgradeNonceAccount sdk)
  | .allocate space => do
    sdk.checkNumberOfInstructionAccounts instruction 1
    onFirstAccount sdk context instruction fun account ↦ do
      let key ← keyOfInstructionAccount sdk context instruction 0
      let address ← DerivedAddress.create sdk key none
      allocate sdk account address space signers
  | .allocateWithSeed base seed space owner => do
    sdk.checkNumberOfInstructionAccounts instruction 1
    onFirstAccount sdk context instruction fun account ↦ do
      let key ← keyOfInstructionAccount sdk context instruction 0
      let address ← DerivedAddress.create sdk key (some (base, seed, owner))
      allocateAndAssign sdk account address space owner signers
  | .assignWithSeed base seed owner => do
    sdk.checkNumberOfInstructionAccounts instruction 1
    onFirstAccount sdk context instruction fun account ↦ do
      let key ← keyOfInstructionAccount sdk context instruction 0
      let address ← DerivedAddress.create sdk key (some (base, seed, owner))
      assign sdk account address owner signers

/-- `process_system_instruction`, on the accounts of the transaction and its current instruction. -/
def processSystemInstruction (invoke : InvokeContext) (context : TransactionContext)
    (instruction : InstructionContext) : Outcome InstructionError TransactionContext := do
  let decoded ← sdk.limitedDeserialize instruction.instructionData
  let signers ← sdk.getSigners instruction context
  runSystemInstruction sdk decoded signers invoke context instruction

/-! ### Kinds of system accounts -/

/-- `SystemAccountKind`. -/
inductive SystemAccountKind
  | system
  | nonce
  deriving DecidableEq

/-- `get_system_account_kind`. -/
def getSystemAccountKind (account : Account) : Option SystemAccountKind :=
  if account.owner = systemProgramId then
    if account.data = [] then some .system
    else if account.data.length = sdk.nonceStateSize then do
      let nonceVersions ← sdk.accountNonceState account
      match nonceVersions.state with
      | .uninitialized => none
      | .initialized _ => some .nonce
    else none
  else none

end Playground.Playnet
