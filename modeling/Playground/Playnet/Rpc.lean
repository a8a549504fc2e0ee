import Playground.Playnet.Bank

/-!
# The RPC methods

`wasm/playnet/src/rpc.rs`, as far as it sends transactions to the bank and reports their status. A
signature that cannot be parsed panics before any bank is read, so `getSignatureStatuses` takes the
parsed signatures. It returns `none` where the call panics, which it does if the number of
confirmations is a difference below zero.

Not formalized here: the getters that hand out one field of the bank.
-/

set_option autoImplicit false
set_option relaxedAutoImplicit false

namespace Playground.Playnet

open Library

variable (sdk : Sdk)

/-- `WasmCommitmentLevel`. -/
inductive WasmCommitmentLevel
  | processed
  | confirmed
  | finalized
  deriving DecidableEq

/-- `TransactionStatus`. -/
structure TransactionStatus where
  confirmationStatus : Option WasmCommitmentLevel
  confirmations : Option ℕ
  slot : UInt64
  err : Option TransactionError
  deriving DecidableEq

/-- A subtraction of `u64`, which panics below zero. -/
def subOrPanic (a b : UInt64) : Option UInt64 :=
  if b ≤ a then some (a - b) else none

/-- The status of one recorded transaction in `PgRpc::get_signature_statuses`. -/
def transactionStatus (bank : PgBank) (txData : TransactionData) : Option TransactionStatus := do
  let confirmations ← subOrPanic bank.slot txData.slot
  let confirmationStatus :=
    if confirmations = 0 then WasmCommitmentLevel.processed
    else if confirmations < 32 then WasmCommitmentLevel.confirmed
    else WasmCommitmentLevel.finalized
  some
    { confirmationStatus := some confirmationStatus
      confirmations := some confirmations.toNat
      slot := txData.slot
      err := txData.txMeta.bind fun txMeta ↦ txMeta.err }

/-- `PgRpc::get_signature_statuses`. -/
def getSignatureStatuses (bank : PgBank) (signatures : List Signature) :
    Option (List (Option TransactionStatus)) :=
  signatures.mapM fun signature ↦
    match bank.getTx signature with
    | none => some none
    | some txData => (transactionStatus bank txData).map some

/-- `PgRpc::send_transaction`. -/
def sendTransaction (bank : PgBank) (serializedTx : List UInt8) :
    Option (PgBank × Except TransactionError Signature) := do
  let tx ← sdk.parseTransaction serializedTx
  match sdk.sanitizeTransaction tx with
  | .panic => none
  | .err error => some (bank, .error error)
  | .ok sanitizedTx =>
    let verified := do
      sdk.verifyTransaction sanitizedTx
      sdk.verifyPrecompiles sanitizedTx bank.featureSet
    match verified with
    | .panic => none
    | .err error => some (bank, .error error)
    | .ok _ => bank.processTx sdk sanitizedTx

/-- `PgRpc::request_airdrop`. -/
def requestAirdrop (bank : PgBank) (pubkey : Pubkey) (lamports : UInt64) :
    Option (PgBank × Except TransactionError Signature) :=
  bank.airdrop sdk pubkey lamports

end Playground.Playnet
