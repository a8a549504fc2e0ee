import Mathlib.Data.Finset.Dedup
import Playground.Playnet.Bank
import Playground.Playnet.MessageEffects

/-!
# A small implementation of the SDK

The assumptions collected in `Sdk.Lawful` and `Sdk.Balanced` can be met, and the bank can be run:
`referenceSdk` is an implementation of the SDK that knows one system instruction, the transfer, and no
program but the system program. On what it knows it does what the SDK does: who signs and what is
writable is read off the header of a message, a borrowed account is checked before it is changed, and
an instruction of the system program is run by the bank's own `processSystemInstruction`. What it does
not know fails.

Not formalized here: SHA-256, of which `referenceHash` knows the three values that the first slots of a
bank need, and signatures, which nothing in the bank looks into.
-/

set_option autoImplicit false
set_option relaxedAutoImplicit false

namespace Playground.Playnet

open Library

/-! ### Bytes -/

/-- The first bytes of a number, the least significant first. -/
def littleEndian (length value : ℕ) : List UInt8 :=
  (List.range length).map fun index ↦ UInt8.ofNat (value / 256 ^ index)

/-- The number that bytes stand for, the least significant first. -/
def ofLittleEndian (bytes : List UInt8) : ℕ :=
  bytes.foldr (fun byte value ↦ byte.toNat + 256 * value) 0

/-- The bytes of a hash. -/
def referenceHashToBytes (hash : Hash) : List UInt8 :=
  (littleEndian 32 hash.toNat).reverse

/-- SHA-256 of `b"playnet"`, and of the hash that this gives, and of the next. -/
def referenceHash (bytes : List UInt8) : Hash :=
  let genesis : Hash := 0x46357a4441858063d6c999a6a016eaab1ed5a70447dbf705869a82cb0c390da4#256
  let first : Hash := 0xd0d0ab731ba6258cf8a270fae70b19e70b55342af425d1432d19569d188e6c01#256
  let second : Hash := 0x7bc0a11a140bcb3ca32bcbbd5df7abe04194c6b321bcdfcdb48927f835880aa0#256
  if bytes = PgBank.playnetBytes then genesis
  else if bytes = referenceHashToBytes genesis then first
  else if bytes = referenceHashToBytes first then second
  else 0

/-! ### Messages -/

/-- The addresses that no message can write to. -/
def reservedKeys : List Pubkey :=
  [systemProgramId, nativeLoaderId, bpfLoaderId, bpfLoaderUpgradeableId, sysvarId, clockId, rentId,
    instructionsId]

/-- `is_upgradeable_loader_present`. -/
def referenceIsUpgradeableLoaderPresent (message : SanitizedMessage) : Bool :=
  decide (bpfLoaderUpgradeableId ∈ message.accountKeys)

/-- `is_writable`. -/
def referenceIsWritable (message : SanitizedMessage) (index : ℕ) : Bool :=
  let header := message.header
  let signers := header.numRequiredSignatures.toNat
  let demoted := message.instructions.any (fun instruction ↦
    decide (instruction.programIdIndex.toNat = index)) &&
      !referenceIsUpgradeableLoaderPresent message
  match message.accountKeys[index]? with
  | none => false
  | some key =>
    (decide (index < signers - header.numReadonlySignedAccounts.toNat) ||
      (decide (signers ≤ index) &&
        decide (index < message.accountKeys.length - header.numReadonlyUnsignedAccounts.toNat))) &&
      decide (key ∉ reservedKeys) && !demoted

/-- `is_non_loader_key`. -/
def referenceIsNonLoaderKey (message : SanitizedMessage) (index : ℕ) : Bool :=
  !message.instructions.any (fun instruction ↦
      decide (instruction.programIdIndex.toNat = index)) ||
    message.instructions.any (fun instruction ↦
      instruction.accounts.any fun account ↦ decide (account.toNat = index))

/-- The message of one transfer. -/
def referenceMessage (instructions : List Instruction) (payer : Option Pubkey) (blockhash : Hash) :
    SanitizedMessage :=
  let metas := (payer.toList.map fun key ↦ (key, true, true)) ++
    instructions.flatMap Instruction.accounts
  let programs := instructions.map Instruction.programId
  let keys := ((metas.map Prod.fst ++ programs).reverse.dedup).reverse
  let indexOf := fun key ↦ UInt8.ofNat (keys.idxOf key)
  { header := ⟨1, 0, 1⟩
    accountKeys := keys
    recentBlockhash := blockhash
    instructions := instructions.map fun instruction ↦
      ⟨indexOf instruction.programId, instruction.accounts.map fun meta' ↦ indexOf meta'.1,
        instruction.data⟩ }

/-- The account indices of an instruction are checked one by one. -/
instance decidableForallIndex (indices : List UInt8) (len : Nat) :
    Decidable (∀ index ∈ indices, index.toNat < len) :=
  List.decidableBAll _ indices

/-- `SanitizedTransaction::try_create`. -/
def referenceSanitize (tx : VersionedTransaction) :
    Outcome TransactionError SanitizedTransaction :=
  if hsound : tx.signatures ≠ [] ∧
      (∀ instruction ∈ tx.message.instructions,
        instruction.programIdIndex.toNat < tx.message.accountKeys.length) ∧
      ∀ instruction ∈ tx.message.instructions, ∀ index ∈ instruction.accounts,
        index.toNat < tx.message.accountKeys.length then
    .ok ⟨tx, hsound.1, hsound.2.1, hsound.2.2⟩
  else .err (.other 0)

/-! ### Instructions -/

/-- The system instructions the implementation can decode. -/
def referenceDeserialize (data : List UInt8) : Outcome InstructionError SystemInstruction :=
  if data.take 4 = littleEndian 4 2 ∧ data.length = 12 then
    .ok (.transfer (UInt64.ofNat (ofLittleEndian (data.drop 4))))
  else .err (.other 0)

/-- The serialization of a transfer. -/
def transferData (lamports : UInt64) : List UInt8 :=
  littleEndian 4 2 ++ littleEndian 8 lamports.toNat

/-- The keys of the accounts that sign an instruction. -/
def referenceGetSigners (instruction : InstructionContext) (context : TransactionContext) :
    Outcome InstructionError (Finset Pubkey) :=
  .ok ((instruction.instructionAccounts.filter InstructionAccount.isSigner).filterMap fun entry ↦
    (context.accounts[entry.indexInTransaction]?).map Prod.fst).toFinset

/-- `try_borrow_instruction_account`. -/
def referenceBorrow (instruction : InstructionContext) (context : TransactionContext)
    (position : ℕ) : Outcome InstructionError BorrowedAccount :=
  match instruction.instructionAccounts[position]? with
  | none => .err (.other 1)
  | some entry =>
    match context.accounts[entry.indexInTransaction]? with
    | none => .err (.other 1)
    | some (key, account) => .ok ⟨entry.indexInTransaction, key, account, entry.isWritable⟩

/-- A change of a borrowed account that only a writable one allows. -/
def ifWritable {α : Type} (borrowed : BorrowedAccount) (value : α) : Outcome InstructionError α :=
  if borrowed.isWritable = true then .ok value else .err (.other 2)

/-- The account a checked subtraction leaves. -/
def referenceSubLamports (borrowed : BorrowedAccount) (lamports : UInt64) :
    Outcome InstructionError Account :=
  if lamports ≤ borrowed.account.lamports then
    ifWritable borrowed
      { borrowed.account with lamports := borrowed.account.lamports - lamports }
  else .err (.other 3)

/-- The account a checked addition leaves. -/
def referenceAddLamports (borrowed : BorrowedAccount) (lamports : UInt64) :
    Outcome InstructionError Account :=
  if borrowed.account.lamports.toNat + lamports.toNat < 2 ^ 64 then
    ifWritable borrowed
      { borrowed.account with lamports := borrowed.account.lamports + lamports }
  else .err (.other 3)

/-- The default rent, `(128 + length) * 3480 * 2`, and its serialization. -/
def referenceRent : Rent × List UInt8 :=
  (⟨fun length ↦ UInt64.ofNat ((128 + length) * 3480 * 2)⟩,
    littleEndian 8 3480 ++ [0, 0, 0, 0, 0, 0, 0, 0x40] ++ [50])

/-- The implementation, but for the system program. -/
def baseSdk : Sdk where
  hash := referenceHash
  hashToBytes := referenceHashToBytes
  isSigner message index := decide (index < message.header.numRequiredSignatures.toNat)
  isWritable := referenceIsWritable
  isNonLoaderKey := referenceIsNonLoaderKey
  isUpgradeableLoaderPresent := referenceIsUpgradeableLoaderPresent
  constructInstructionsData _ := [0, 0]
  storeCurrentIndex data index :=
    if data.length < 2 then .panic
    else .ok (data.take (data.length - 2) ++ littleEndian 2 index.toNat)
  defaultFeatureSet _ := false
  defaultClock := (⟨0⟩, List.replicate 40 0)
  defaultRent := referenceRent
  programdataAddress _ := none
  accountNonceState _ := none
  nonceStateSize := 80
  transferInstruction payer receiver lamports :=
    ⟨systemProgramId, [(payer, true, true), (receiver, false, true)], transferData lamports⟩
  newMessageWithBlockhash := referenceMessage
  signTransaction message _ := some ⟨[1#512], message⟩
  sanitizeTransaction := referenceSanitize
  parseTransaction _ := none
  verifyTransaction _ := .ok ()
  verifyPrecompiles _ _ := .ok ()
  isPrecompile _ _ := false
  pushPrecompile _ _ := .ok ()
  processInstruction _ context _ := ⟨context, .err (.other 4), 0, []⟩
  limitedDeserialize := referenceDeserialize
  getSigners := referenceGetSigners
  checkNumberOfInstructionAccounts instruction count :=
    if instruction.instructionAccounts.length < count then .err (.other 5) else .ok ()
  getIndexOfInstructionAccount instruction position :=
    match instruction.instructionAccounts[position]? with
    | none => .err (.other 1)
    | some entry => .ok entry.indexInTransaction
  getKeyOfAccountAtIndex context index :=
    match context.accounts[index]? with
    | none => .err (.other 1)
    | some (key, _) => .ok key
  isInstructionAccountSigner instruction position :=
    match instruction.instructionAccounts[position]? with
    | none => .err (.other 1)
    | some entry => .ok entry.isSigner
  tryBorrowInstructionAccount := referenceBorrow
  setDataLength borrowed length :=
    ifWritable borrowed
      { borrowed.account with data := List.takeD length.toNat borrowed.account.data 0 }
  setOwner borrowed owner :=
    if borrowed.account.data.all fun byte ↦ byte = 0 then
      ifWritable borrowed { borrowed.account with owner := owner }
    else .err (.other 9)
  checkedSubLamports := referenceSubLamports
  checkedAddLamports := referenceAddLamports
  getState _ := .err (.other 6)
  setState _ _ := .err (.other 6)
  upgradeNonce _ := none
  authorizeNonce versions signers authority :=
    match versions.state with
    | .uninitialized => .err .uninitialized
    | .initialized data =>
      if data.authority ∈ signers then
        .ok (.current (.initialized { data with authority := authority }))
      else .err (.missingRequiredSignature data.authority)
  durableNonceFromBlockhash hash := hash
  nonceToInstructionError error _ := .nonce error
  checkedAdd a b :=
    if a.toNat + b.toNat < 2 ^ 64 then .ok (a + b) else .err .insufficientFunds
  createWithSeed _ _ _ := .err (.other 7)
  recentBlockhashes _ _ _ := .err (.other 8)
  rentSysvar _ _ _ := .err (.other 8)

/-- `InvokeContext::process_instruction`, where the only program is the system program. -/
def referenceProcessInstruction (invoke : InvokeContext) (context : TransactionContext)
    (instruction : InstructionContext) : Invocation :=
  if runsSystemProgram invoke context instruction then
    match processSystemInstruction baseSdk invoke context instruction with
    | .ok after => ⟨after, .ok (), 0, []⟩
    | .err error => ⟨context, .err error, 0, []⟩
    | .panic => ⟨context, .panic, 0, []⟩
  else ⟨context, .err (.other 4), 0, []⟩

/-- The implementation. -/
def referenceSdk : Sdk :=
  { baseSdk with processInstruction := referenceProcessInstruction }

/-! ### The assumptions hold -/

/-- A change that succeeds has been made to a writable account. -/
theorem ifWritable_eq_ok {α : Type} {borrowed : BorrowedAccount} {value result : α} :
    ifWritable borrowed value = .ok result ↔ borrowed.isWritable = true ∧ value = result := by
  unfold ifWritable
  split <;> simp_all

/-- The owner is set only of a writable account whose data are zeros. -/
theorem setOwner_referenceSdk {borrowed : BorrowedAccount} {owner : Pubkey} {account : Account}
    (hok : referenceSdk.setOwner borrowed owner = .ok account) :
    (∀ byte ∈ borrowed.account.data, byte = 0) ∧ borrowed.isWritable = true ∧
      { borrowed.account with owner := owner } = account := by
  simp only [referenceSdk, baseSdk] at hok
  split at hok
  next hzeroed => exact ⟨by simpa using hzeroed, ifWritable_eq_ok.mp hok⟩
  next => cases hok

/-- The signers are the keys of the signer accounts. -/
theorem coe_referenceGetSigners {instruction : InstructionContext} {context : TransactionContext}
    {signers : Finset Pubkey} (hok : referenceGetSigners instruction context = .ok signers) :
    ↑signers = signerKeys context instruction := by
  obtain rfl := Outcome.ok.inj hok
  ext key
  simp only [List.coe_toFinset, List.mem_filterMap, List.mem_filter, Option.map_eq_some_iff,
    Set.mem_ofPred_eq, signerKeys, Prod.exists, and_assoc]
  refine exists_congr fun entry ↦ and_congr_right fun _ ↦ and_congr_right fun _ ↦ ⟨?_, ?_⟩
  · rintro ⟨key, account, haccount, rfl⟩
    exact ⟨account, haccount⟩
  · rintro ⟨account, haccount⟩
    exact ⟨key, account, haccount, rfl⟩

/-- The implementation does what the bank relies on. -/
theorem referenceSdk_lawful : referenceSdk.Lawful where
  getSigners_ok := coe_referenceGetSigners
  getIndexOfInstructionAccount_ok := by
    intro instruction position index hok
    simp only [referenceSdk, baseSdk] at hok
    split at hok
    next => cases hok
    next entry hentry => exact ⟨entry, hentry, (Outcome.ok.inj hok).symm⟩
  getKeyOfAccountAtIndex_ok := by
    intro context index key hok
    simp only [referenceSdk, baseSdk] at hok
    split at hok
    next => cases hok
    next account haccount =>
      obtain rfl := Outcome.ok.inj hok
      exact ⟨account, haccount⟩
  isInstructionAccountSigner_ok := by
    intro instruction position signer hok
    simp only [referenceSdk, baseSdk] at hok
    split at hok
    next => cases hok
    next entry hentry => exact ⟨entry, hentry, (Outcome.ok.inj hok).symm⟩
  tryBorrowInstructionAccount_ok := by
    intro instruction context position borrowed hok
    simp only [referenceSdk, baseSdk, referenceBorrow] at hok
    split at hok
    next => cases hok
    next entry hentry =>
      split at hok
      next => cases hok
      next key account haccount =>
        obtain rfl := Outcome.ok.inj hok
        exact ⟨⟨entry, hentry, rfl, rfl⟩, haccount⟩
  setDataLength_ok := by
    intro borrowed length account hok
    obtain ⟨-, rfl⟩ := ifWritable_eq_ok.mp hok
    rfl
  setOwner_ok := by
    intro borrowed owner account hok
    obtain ⟨-, -, rfl⟩ := setOwner_referenceSdk hok
    rfl
  getState_ok := by
    intro borrowed versions hok
    cases hok
  setState_ok := by
    intro borrowed versions account hok
    cases hok
  checkedSubLamports_ok := by
    intro borrowed lamports account hok
    simp only [referenceSdk, baseSdk, referenceSubLamports] at hok
    split at hok
    next hle =>
      obtain ⟨hwritable, rfl⟩ := ifWritable_eq_ok.mp hok
      exact ⟨hle, .inr hwritable, rfl⟩
    next => cases hok
  checkedAddLamports_ok := by
    intro borrowed lamports account hok
    simp only [referenceSdk, baseSdk, referenceAddLamports] at hok
    split at hok
    next hfits =>
      obtain ⟨hwritable, rfl⟩ := ifWritable_eq_ok.mp hok
      exact ⟨hfits, .inr hwritable, rfl⟩
    next => cases hok
  authorizeNonce_ok := by
    intro versions signers authority versions' hok
    simp only [referenceSdk, baseSdk] at hok
    split at hok
    next => cases hok
    next data hdata =>
      split at hok
      next hmem => exact ⟨data, hdata, hmem⟩
      next => cases hok

/-- The system program does not depend on how `InvokeContext` finds it. -/
theorem processSystemInstruction_referenceSdk (invoke : InvokeContext)
    (context : TransactionContext) (instruction : InstructionContext) :
    processSystemInstruction referenceSdk invoke context instruction =
      processSystemInstruction baseSdk invoke context instruction :=
  rfl

/-- The implementation does what the balance of the bank relies on. -/
theorem referenceSdk_balanced : referenceSdk.Balanced where
  processInstruction_system := by
    intro invoke context instruction hsystem hok
    change (referenceProcessInstruction invoke context instruction).result = .ok () at hok
    change ∃ after : TransactionContext, _ ∧
      (referenceProcessInstruction invoke context instruction).context.accounts = after.accounts
    rw [processSystemInstruction_referenceSdk]
    simp only [referenceProcessInstruction, hsystem, if_true] at hok ⊢
    split at hok
    next after hafter => exact ⟨after, hafter, rfl⟩
    next => cases hok
    next => cases hok
  processInstruction_length := by
    intro invoke context instruction hsystem hok
    change (referenceProcessInstruction invoke context instruction).result = .ok () at hok
    simp [referenceProcessInstruction, hsystem] at hok
  processInstruction_lamports := by
    intro invoke context instruction hsystem hok
    change (referenceProcessInstruction invoke context instruction).result = .ok () at hok
    simp [referenceProcessInstruction, hsystem] at hok
  processInstruction_framed := by
    intro invoke context instruction index key old hsystem hok
    change (referenceProcessInstruction invoke context instruction).result = .ok () at hok
    simp [referenceProcessInstruction, hsystem] at hok
  isWritable_instructions := by
    intro message index hkey
    change referenceIsWritable message index = false
    simp [referenceIsWritable, hkey, reservedKeys]
  newMessageWithBlockhash_nodup := by
    intro instructions payer blockhash
    exact List.nodup_reverse.mpr (List.nodup_dedup _)
  signTransaction_message := by
    intro message keypairs tx hsigned
    obtain rfl := Option.some.inj hsigned
    rfl
  sanitizeTransaction_message := by
    intro versioned tx hok
    change referenceSanitize versioned = .ok tx at hok
    unfold referenceSanitize at hok
    split at hok
    next =>
      obtain rfl := Outcome.ok.inj hok
      rfl
    next => cases hok

/-! ### Saving one bank -/

/-- A serialization that knows one bank. -/
def referenceSerde (known : Option SavedBank) : Serde where
  toString saved := if known = some saved then "bank" else ""
  fromStr text := if text = "bank" then known else none

/-- What is read back is what was saved. -/
theorem referenceSerde_readsBack (known : Option SavedBank) :
    (referenceSerde known).ReadsBack := by
  intro saved read hread
  simp only [referenceSerde] at hread
  split at hread
  next hknown =>
    rw [if_pos rfl, hknown] at hread
    exact (Option.some.inj hread).symm
  next => simp at hread

/-! ### A transfer -/

/-- A key pair to pay airdrops with. -/
def payerKp : Keypair :=
  ⟨0x1f#256, 0x2f#256⟩

/-- The key of an account that no bank starts with. -/
def receiverKey : Pubkey :=
  0x3f#256

/-- A transfer of five lamports from the first to the second of the keys, the last of which is the
system program's. -/
def transferTx (keys : List Pubkey) (hlength : 2 ≤ keys.length) (hfits : keys.length < 256) :
    SanitizedTransaction where
  signatures := [1#512]
  message :=
    { header := ⟨1, 0, 1⟩
      accountKeys := keys
      recentBlockhash := 0
      instructions := [⟨UInt8.ofNat (keys.length - 1), [0, 1], transferData 5⟩] }
  signatures_ne_nil := List.cons_ne_nil _ _
  programIdIndex_lt := by
    intro instruction hmem
    obtain rfl := List.mem_singleton.mp hmem
    simp only [UInt8.toNat_ofNat']
    omega
  accounts_lt := by
    intro instruction hmem index hindex
    obtain rfl := List.mem_singleton.mp hmem
    simp only [List.mem_cons, List.not_mem_nil, or_false] at hindex
    rcases hindex with rfl | rfl
    · exact Nat.lt_of_lt_of_le Nat.zero_lt_two hlength
    · exact Nat.lt_of_lt_of_le Nat.one_lt_two hlength

end Playground.Playnet
