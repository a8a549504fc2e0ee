import Playground.Playnet.Sdk

/-!
# The message processor

`wasm/playnet/src/runtime/message_processor.rs`. `processMessage` runs the instructions of a message
one after the other on the accounts that were loaded for it. Before each instruction the account of
the instructions sysvar, where it is loaded, is told the instruction's index, whichever accounts the
instruction names; the first instruction that fails ends the loop.

Not formalized here: timings and the change of the total length of the accounts' data, which the bank
does not use.
-/

set_option autoImplicit false
set_option relaxedAutoImplicit false

namespace Playground.Playnet

open Library

variable (sdk : Sdk)

/-- What the loop of `process_message` changes: the accounts, the compute units and the log. -/
structure MessageState where
  context : TransactionContext
  unitsConsumed : UInt64
  logs : List String
  deriving DecidableEq

/-- `u64::saturating_add`. -/
def saturatingAdd (a b : UInt64) : UInt64 :=
  if a.toNat + b.toNat < 2 ^ 64 then a + b else UInt64.ofNat (2 ^ 64 - 1)

/-- The instructions sysvar, where it is loaded, is told the index of the current instruction. -/
def fixupInstructionsSysvar (context : TransactionContext) (instructionIndex : ℕ) :
    Outcome TransactionError TransactionContext :=
  match context.accounts.findIdx? fun entry ↦ decide (entry.1 = instructionsId) with
  | none => .ok context
  | some accountIndex =>
    match context.accounts[accountIndex]? with
    | none => .err .invalidAccountIndex
    | some (key, account) => do
      let data ← sdk.storeCurrentIndex account.data (UInt16.ofNat instructionIndex)
      .ok (context.put accountIndex key { account with data := data })

/-- The accounts of an instruction. `index_in_callee` is the first position at which the instruction
names the same account. -/
def instructionAccounts (message : SanitizedMessage) (instruction : CompiledInstruction) :
    List InstructionAccount :=
  instruction.accounts.mapIdx fun instructionAccountIndex index ↦
    let indexInCallee :=
      ((instruction.accounts.take instructionAccountIndex).findIdx? (· = index)).getD
        instructionAccountIndex
    { indexInTransaction := index.toNat
      indexInCaller := index.toNat
      indexInCallee := indexInCallee % 2 ^ 16
      isSigner := sdk.isSigner message index.toNat
      isWritable := sdk.isWritable message index.toNat }

/-- One iteration of `process_message`. -/
def processInstructionAt (invoke : InvokeContext) (message : SanitizedMessage)
    (state : MessageState) (entry : (CompiledInstruction × List ℕ) × ℕ) :
    Outcome TransactionError MessageState :=
  let ((instruction, programIndices), instructionIndex) := entry
  match message.accountKeys[instruction.programIdIndex.toNat]? with
  | none => .panic
  | some programId => do
    let context ← fixupInstructionsSysvar sdk state.context instructionIndex
    let current : InstructionContext :=
      { programAccounts := programIndices
        instructionAccounts := instructionAccounts sdk message instruction
        instructionData := instruction.data }
    let instructionError := TransactionError.instructionError (UInt8.ofNat instructionIndex)
    if sdk.isPrecompile programId invoke.featureSet then do
      (sdk.pushPrecompile context current).mapErr instructionError
      .ok { state with context := context }
    else do
      let invocation := sdk.processInstruction invoke context current
      invocation.result.mapErr instructionError
      .ok
        { context := invocation.context
          unitsConsumed := saturatingAdd state.unitsConsumed invocation.computeUnitsConsumed
          logs := state.logs ++ invocation.logs }

/-- `MessageProcessor::process_message`. -/
def processMessage (invoke : InvokeContext) (message : SanitizedMessage)
    (programIndices : List (List ℕ)) (context : TransactionContext) :
    Outcome TransactionError MessageState :=
  (message.instructions.zip programIndices).zipIdx.foldlM
    (processInstructionAt sdk invoke message) ⟨context, 0, []⟩

end Playground.Playnet
