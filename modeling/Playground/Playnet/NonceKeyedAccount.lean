import Playground.Playnet.Sdk

/-!
# Nonce accounts

`wasm/playnet/src/runtime/nonce_keyed_account.rs`, the system program's operations on an account
that holds a durable nonce. The four functions that borrow one account return that account; the
withdrawal, which also borrows the receiver, returns the transaction.

Not formalized here: the lines written to the log collector.
-/

set_option autoImplicit false
set_option relaxedAutoImplicit false

namespace Playground.Playnet

open Library

variable (sdk : Sdk)

/-- `nonce_to_instruction_error` with the feature that the code looks up for it. -/
def nonceError (invoke : InvokeContext) (error : NonceError) : InstructionError :=
  sdk.nonceToInstructionError error (invoke.featureSet .mergeNonceErrorIntoSystemError)

/-- `advance_nonce_account`. -/
def advanceNonceAccount (account : BorrowedAccount) (signers : Finset Pubkey)
    (invoke : InvokeContext) : Outcome InstructionError Account :=
  if account.isWritable = false then .err .invalidArgument
  else do
    let state ← sdk.getState account
    match state.state with
    | .initialized data =>
      if data.authority ∉ signers then .err .missingRequiredSignature
      else
        let nextDurableNonce := sdk.durableNonceFromBlockhash invoke.blockhash
        if data.durableNonce = nextDurableNonce then .err (nonceError sdk invoke .notExpired)
        else
          sdk.setState account (.current (.initialized
            ⟨data.authority, nextDurableNonce, invoke.lamportsPerSignature⟩))
    | .uninitialized => .err (nonceError sdk invoke .badAccountState)

/-- The part of `withdraw_nonce_account` that reads the state of `from`: the key that has to sign,
and the account `from` after its state has been reset where the whole balance is withdrawn. -/
def withdrawNonceSigner (from' : BorrowedAccount) (lamports : UInt64) (rent : Rent)
    (invoke : InvokeContext) : Outcome InstructionError (Pubkey × Account) := do
  let state ← sdk.getState from'
  match state.state with
  | .uninitialized =>
    if lamports > from'.account.lamports then .err .insufficientFunds
    else .ok (from'.key, from'.account)
  | .initialized data =>
    if lamports = from'.account.lamports then
      let durableNonce := sdk.durableNonceFromBlockhash invoke.blockhash
      if data.durableNonce = durableNonce then .err (nonceError sdk invoke .notExpired)
      else do
        let account ← sdk.setState from' (.current .uninitialized)
        .ok (data.authority, account)
    else do
      let minBalance := rent.minimumBalance from'.account.data.length
      let amount ← sdk.checkedAdd lamports minBalance
      if amount > from'.account.lamports then .err .insufficientFunds
      else .ok (data.authority, from'.account)

/-- `withdraw_nonce_account`. -/
def withdrawNonceAccount (fromAccountIndex : ℕ) (lamports : UInt64) (toAccountIndex : ℕ)
    (rent : Rent) (signers : Finset Pubkey) (invoke : InvokeContext) (context : TransactionContext)
    (instruction : InstructionContext) : Outcome InstructionError TransactionContext := do
  let from' ← sdk.tryBorrowInstructionAccount instruction context fromAccountIndex
  if from'.isWritable = false then .err .invalidArgument
  else do
    let (signer, account) ← withdrawNonceSigner sdk from' lamports rent invoke
    if signer ∉ signers then .err .missingRequiredSignature
    else do
      let drained ← sdk.checkedSubLamports { from' with account := account } lamports
      let context := context.store { from' with account := drained }
      let to' ← sdk.tryBorrowInstructionAccount instruction context toAccountIndex
      let filled ← sdk.checkedAddLamports to' lamports
      .ok (context.store { to' with account := filled })

/-- `initialize_nonce_account`. -/
def initializeNonceAccount (account : BorrowedAccount) (nonceAuthority : Pubkey) (rent : Rent)
    (invoke : InvokeContext) : Outcome InstructionError Account :=
  if account.isWritable = false then .err .invalidArgument
  else do
    let state ← sdk.getState account
    match state.state with
    | .uninitialized =>
      let minBalance := rent.minimumBalance account.account.data.length
      if account.account.lamports < minBalance then .err .insufficientFunds
      else
        sdk.setState account (.current (.initialized
          ⟨nonceAuthority, sdk.durableNonceFromBlockhash invoke.blockhash,
            invoke.lamportsPerSignature⟩))
    | .initialized _ => .err (nonceError sdk invoke .badAccountState)

/-- `authorize_nonce_account`. -/
def authorizeNonceAccount (account : BorrowedAccount) (nonceAuthority : Pubkey)
    (signers : Finset Pubkey) (invoke : InvokeContext) : Outcome InstructionError Account :=
  if account.isWritable = false then .err .invalidArgument
  else do
    let state ← sdk.getState account
    match sdk.authorizeNonce state signers nonceAuthority with
    | .ok versions => sdk.setState account versions
    | .err .uninitialized => .err (nonceError sdk invoke .badAccountState)
    | .err (.missingRequiredSignature _) => .err .missingRequiredSignature
    | .panic => .panic

end Playground.Playnet
