import Mathlib.Logic.Relation
import Playground.Playnet.SystemProgramEffects

/-!
# A system instruction step by step

The system program changes accounts only through the setters of a borrowed account: the data length,
the owner, the nonce state, and the two checked changes of the balance. `AccountCall` lists these
with what the system program has checked before it makes the call, and
`runSystemInstruction_steps` says that a successful instruction is a sequence of them, each on an
account that stands in the transaction at an index the instruction names.

`SystemSteps.changes` is the rule that the rest of the development uses: a relation between the old
and the new content of an account that every single call satisfies, and that composes, is satisfied
by every account across the whole instruction.
-/

set_option autoImplicit false
set_option relaxedAutoImplicit false

namespace Playground.Playnet

open Library

/-! ### Calls and steps -/

/-- An account holds an initialized nonce. -/
def HoldsNonce (sdk : Sdk) (account : Account) : Prop :=
  ∃ versions data, sdk.accountNonceState account = some versions ∧
    versions.state = .initialized data

/-- A borrowed account that stands in the transaction at an index the instruction names, and is
writable if the instruction says so there. -/
def Borrows (instruction : InstructionContext) (context : TransactionContext)
    (borrowed : BorrowedAccount) : Prop :=
  (∃ entry ∈ instruction.instructionAccounts,
      entry.indexInTransaction = borrowed.indexInTransaction ∧
        entry.isWritable = borrowed.isWritable) ∧
    context.accounts[borrowed.indexInTransaction]? = some (borrowed.key, borrowed.account)

/-- The calls by which the system program changes a borrowed account. The length of the data is set
only where there are none and the account is the system program's. The state is set only where the
account holds an initialized nonce, or one that can be upgraded, or after the recent blockhashes have
been read from the sysvar cache. -/
inductive AccountCall (sdk : Sdk) (invoke : InvokeContext) (instruction : InstructionContext)
    (borrowed : BorrowedAccount) : Account → Prop
  | setDataLength {space : UInt64} {account : Account} (hempty : borrowed.account.data = [])
      (howner : borrowed.account.owner = systemProgramId)
      (hok : sdk.setDataLength borrowed space = .ok account) :
      AccountCall sdk invoke instruction borrowed account
  | setOwner {owner : Pubkey} {account : Account} (hok : sdk.setOwner borrowed owner = .ok account) :
      AccountCall sdk invoke instruction borrowed account
  | setHeldNonce {versions : NonceVersions} {account : Account}
      (hnonce : HoldsNonce sdk borrowed.account)
      (hok : sdk.setState borrowed versions = .ok account) :
      AccountCall sdk invoke instruction borrowed account
  | setUpgradedNonce {read upgraded : NonceVersions} {account : Account}
      (howner : borrowed.account.owner = systemProgramId)
      (hread : sdk.accountNonceState borrowed.account = some read)
      (hupgrade : sdk.upgradeNonce read = some upgraded)
      (hok : sdk.setState borrowed upgraded = .ok account) :
      AccountCall sdk invoke instruction borrowed account
  | setRecentNonce {position : ℕ} {hashes : List Hash} {versions : NonceVersions} {account : Account}
      (hrecent : sdk.recentBlockhashes invoke instruction position = .ok hashes)
      (hok : sdk.setState borrowed versions = .ok account) :
      AccountCall sdk invoke instruction borrowed account
  | checkedSubLamports {lamports : UInt64} {account : Account}
      (hok : sdk.checkedSubLamports borrowed lamports = .ok account) :
      AccountCall sdk invoke instruction borrowed account
  | checkedAddLamports {lamports : UInt64} {account : Account}
      (hok : sdk.checkedAddLamports borrowed lamports = .ok account) :
      AccountCall sdk invoke instruction borrowed account

/-- Calls on one borrowed account, one after the other. -/
def AccountCalls (sdk : Sdk) (invoke : InvokeContext) (instruction : InstructionContext)
    (borrowed : BorrowedAccount) : Account → Account → Prop :=
  Relation.ReflTransGen fun old new ↦
    AccountCall sdk invoke instruction { borrowed with account := old } new

/-- One call on an account of the transaction, written back. -/
def SystemStep (sdk : Sdk) (invoke : InvokeContext) (instruction : InstructionContext)
    (before after : TransactionContext) : Prop :=
  ∃ borrowed new, Borrows instruction before borrowed ∧
    AccountCall sdk invoke instruction borrowed new ∧
      after = before.store { borrowed with account := new }

/-- Calls on accounts of the transaction, one after the other. -/
def SystemSteps (sdk : Sdk) (invoke : InvokeContext) (instruction : InstructionContext) :
    TransactionContext → TransactionContext → Prop :=
  Relation.ReflTransGen (SystemStep sdk invoke instruction)

section Rule

variable {sdk : Sdk} {invoke : InvokeContext} {instruction : InstructionContext}
  {before after : TransactionContext} {change : ℕ → Account → Account → Prop}

/-- A step keeps every key, and an account that is not the borrowed one. -/
theorem SystemStep.changes (hrefl : ∀ index account, change index account account)
    (hcall : ∀ context borrowed new, Borrows instruction context borrowed →
      AccountCall sdk invoke instruction borrowed new →
        change borrowed.indexInTransaction borrowed.account new)
    (hstep : SystemStep sdk invoke instruction before after) {index : ℕ} {key : Pubkey}
    {old : Account} (hold : before.accounts[index]? = some (key, old)) :
    ∃ new, after.accounts[index]? = some (key, new) ∧ change index old new := by
  obtain ⟨borrowed, new, hborrows, hnew, rfl⟩ := hstep
  have htouched : Touched change before (before.store { borrowed with account := new }) :=
    ⟨_, _, _, _, hborrows.2, hcall before borrowed new hborrows hnew, rfl⟩
  obtain ⟨new, hafter, rfl | hchange⟩ := htouched.getElem? hold
  · exact ⟨new, hafter, hrefl index new⟩
  · exact ⟨new, hafter, hchange⟩

/-- The rule for a whole instruction: what every call does to the account it is made on, and what
composes, has been done to every account. -/
theorem SystemSteps.changes (hrefl : ∀ index account, change index account account)
    (htrans : ∀ index old middle new, change index old middle → change index middle new →
      change index old new)
    (hcall : ∀ context borrowed new, Borrows instruction context borrowed →
      AccountCall sdk invoke instruction borrowed new →
        change borrowed.indexInTransaction borrowed.account new)
    (hsteps : SystemSteps sdk invoke instruction before after) {index : ℕ} {key : Pubkey}
    {old : Account} (hold : before.accounts[index]? = some (key, old)) :
    ∃ new, after.accounts[index]? = some (key, new) ∧ change index old new := by
  induction hsteps with
  | refl => exact ⟨old, hold, hrefl index old⟩
  | tail _ hlast ih =>
    obtain ⟨middle, hmiddle, hfirst⟩ := ih
    obtain ⟨new, hnew, hsecond⟩ := SystemStep.changes hrefl hcall hlast hmiddle
    exact ⟨new, hnew, htrans index old middle new hfirst hsecond⟩

end Rule

/-! ### The functions of the system program -/

section Functions

variable {sdk : Sdk} {invoke : InvokeContext} {instruction : InstructionContext}
  {context after : TransactionContext} {signers : Finset Pubkey} {borrowed : BorrowedAccount}
  {new : Account}

/-- One call, as a sequence of calls. -/
theorem AccountCall.calls (hcall : AccountCall sdk invoke instruction borrowed new) :
    AccountCalls sdk invoke instruction borrowed borrowed.account new :=
  .single hcall

/-- An account that is borrowed successfully stands in the transaction. -/
theorem borrows_of_ok (hsdk : sdk.Lawful) {position : ℕ}
    (hborrow : sdk.tryBorrowInstructionAccount instruction context position = .ok borrowed) :
    Borrows instruction context borrowed := by
  obtain ⟨⟨entry, hentry, hindex, hwritable⟩, hold⟩ := hsdk.tryBorrowInstructionAccount_ok hborrow
  exact ⟨⟨entry, List.mem_of_getElem? hentry, hindex.symm, hwritable.symm⟩, hold⟩

/-- What is written back of a borrowed account is borrowed in its place. -/
theorem Borrows.store (hborrows : Borrows instruction context borrowed) :
    Borrows instruction (context.store { borrowed with account := new })
      { borrowed with account := new } := by
  refine ⟨hborrows.1, ?_⟩
  obtain ⟨hlt, -⟩ := List.getElem?_eq_some_iff.mp hborrows.2
  simp [TransactionContext.store, TransactionContext.put, hlt]

/-- Calls on one borrowed account, written back at the end, are steps. -/
theorem AccountCalls.steps (hborrows : Borrows instruction context borrowed)
    (hcalls : AccountCalls sdk invoke instruction borrowed borrowed.account new) :
    SystemSteps sdk invoke instruction context
      (context.store { borrowed with account := new }) := by
  induction hcalls with
  | refl =>
    have hsame : context.store { borrowed with account := borrowed.account } = context :=
      TransactionContext.put_self hborrows.2
    rw [hsame]
    exact .refl
  | @tail middle last _ hlast ih =>
    refine ih.tail ⟨_, last, hborrows.store, hlast, ?_⟩
    simp [TransactionContext.store, TransactionContext.put]

/-- `allocate` sets the data length of an empty account of the system program. -/
theorem allocate_call {address : DerivedAddress} {space : UInt64}
    (hok : allocate sdk borrowed address space signers = .ok new) :
    AccountCall sdk invoke instruction borrowed new := by
  simp only [allocate, Outcome.ite_err_eq_ok, not_or, not_not] at hok
  obtain ⟨-, ⟨hempty, howner⟩, -, hok⟩ := hok
  exact .setDataLength hempty howner hok

/-- `assign` sets the owner, or does nothing. -/
theorem assign_calls {address : DerivedAddress} {owner : Pubkey}
    (hok : assign sdk borrowed address owner signers = .ok new) :
    AccountCalls sdk invoke instruction borrowed borrowed.account new := by
  unfold assign at hok
  split at hok
  next =>
    obtain rfl := Outcome.ok.inj hok
    exact .refl
  next =>
    simp only [Outcome.ite_err_eq_ok] at hok
    exact (AccountCall.setOwner hok.2).calls

/-- `allocate_and_assign` sets the data length and then the owner. -/
theorem allocateAndAssign_calls {address : DerivedAddress} {space : UInt64} {owner : Pubkey}
    (hok : allocateAndAssign sdk borrowed address space owner signers = .ok new) :
    AccountCalls sdk invoke instruction borrowed borrowed.account new := by
  obtain ⟨allocated, hallocated, hassigned⟩ := Outcome.bind_eq_ok.mp hok
  have hfirst : AccountCalls sdk invoke instruction borrowed borrowed.account allocated :=
    (allocate_call hallocated).calls
  exact hfirst.trans (assign_calls hassigned)

/-- A verified transfer is a subtraction and an addition. -/
theorem transferVerified_steps (hsdk : sdk.Lawful) {fromIndex toIndex : ℕ} {lamports : UInt64}
    (hok : transferVerified sdk fromIndex toIndex lamports context instruction = .ok after) :
    SystemSteps sdk invoke instruction context after := by
  obtain ⟨payer, hpayer, hok⟩ := Outcome.bind_eq_ok.mp hok
  simp only [Outcome.ite_err_eq_ok] at hok
  obtain ⟨drained, hdrained, hok⟩ := Outcome.bind_eq_ok.mp hok.2.2
  obtain ⟨receiver, hreceiver, hok⟩ := Outcome.bind_eq_ok.mp hok
  obtain ⟨filled, hfilled, hok⟩ := Outcome.bind_eq_ok.mp hok
  obtain rfl := Outcome.ok.inj hok
  have hdebit : SystemSteps sdk invoke instruction context
      (context.store { payer with account := drained }) :=
    (AccountCall.checkedSubLamports hdrained).calls.steps (borrows_of_ok hsdk hpayer)
  exact hdebit.trans
    ((AccountCall.checkedAddLamports hfilled).calls.steps (borrows_of_ok hsdk hreceiver))

/-- A transfer is a verified transfer, or nothing. -/
theorem transfer_steps (hsdk : sdk.Lawful) {fromIndex toIndex : ℕ} {lamports : UInt64}
    (hok : transfer sdk fromIndex toIndex lamports invoke context instruction = .ok after) :
    SystemSteps sdk invoke instruction context after := by
  unfold transfer at hok
  split at hok
  next =>
    obtain rfl := Outcome.ok.inj hok
    exact .refl
  next =>
    obtain ⟨signer, -, hok⟩ := Outcome.bind_eq_ok.mp hok
    simp only [Outcome.ite_err_eq_ok] at hok
    exact transferVerified_steps hsdk hok.2

@[inherit_doc transfer_steps]
theorem transferWithSeed_steps (hsdk : sdk.Lawful) {fromIndex baseIndex toIndex : ℕ} {seed : String}
    {owner : Pubkey} {lamports : UInt64}
    (hok : transferWithSeed sdk fromIndex baseIndex seed owner toIndex lamports invoke context
      instruction = .ok after) :
    SystemSteps sdk invoke instruction context after := by
  unfold transferWithSeed at hok
  split at hok
  next =>
    obtain rfl := Outcome.ok.inj hok
    exact .refl
  next =>
    obtain ⟨signer, -, hok⟩ := Outcome.bind_eq_ok.mp hok
    simp only [Outcome.ite_err_eq_ok] at hok
    obtain ⟨base, -, hok⟩ := Outcome.bind_eq_ok.mp hok.2
    obtain ⟨address, -, hok⟩ := Outcome.bind_eq_ok.mp hok
    obtain ⟨key, -, hok⟩ := Outcome.bind_eq_ok.mp hok
    simp only [Outcome.ite_err_eq_ok] at hok
    exact transferVerified_steps hsdk hok.2

/-- Creating an account is allocating and assigning it, and a transfer. -/
theorem createAccount_steps (hsdk : sdk.Lawful) {fromIndex toIndex : ℕ} {address : DerivedAddress}
    {lamports space : UInt64} {owner : Pubkey}
    (hok : createAccount sdk fromIndex toIndex address lamports space owner signers invoke context
      instruction = .ok after) :
    SystemSteps sdk invoke instruction context after := by
  obtain ⟨receiver, hreceiver, hok⟩ := Outcome.bind_eq_ok.mp hok
  simp only [Outcome.ite_err_eq_ok] at hok
  obtain ⟨created, hcreated, htransfer⟩ := Outcome.bind_eq_ok.mp hok.2
  have hcreate : SystemSteps sdk invoke instruction context
      (context.store { receiver with account := created }) :=
    (allocateAndAssign_calls hcreated).steps (borrows_of_ok hsdk hreceiver)
  exact hcreate.trans (transfer_steps hsdk htransfer)

/-- Borrowing the first account and changing it is what the change is. -/
theorem onFirstAccount_steps (hsdk : sdk.Lawful)
    {change : BorrowedAccount → Outcome InstructionError Account}
    (hchange : ∀ borrowed new, change borrowed = .ok new →
      AccountCalls sdk invoke instruction borrowed borrowed.account new)
    (hok : onFirstAccount sdk context instruction change = .ok after) :
    SystemSteps sdk invoke instruction context after := by
  obtain ⟨borrowed, hborrow, hok⟩ := Outcome.bind_eq_ok.mp hok
  obtain ⟨new, hnew, hok⟩ := Outcome.bind_eq_ok.mp hok
  obtain rfl := Outcome.ok.inj hok
  exact (hchange borrowed new hnew).steps (borrows_of_ok hsdk hborrow)

/-- Advancing a nonce sets the state of an account that holds one. -/
theorem advanceNonceAccount_call (hsdk : sdk.Lawful)
    (hok : advanceNonceAccount sdk borrowed signers invoke = .ok new) :
    AccountCall sdk invoke instruction borrowed new := by
  simp only [advanceNonceAccount, Outcome.ite_err_eq_ok] at hok
  obtain ⟨versions, hversions, hok⟩ := Outcome.bind_eq_ok.mp hok.2
  split at hok
  next data hdata =>
    simp only [Outcome.ite_err_eq_ok] at hok
    exact .setHeldNonce ⟨versions, data, hsdk.getState_ok hversions, hdata⟩ hok.2.2
  next => cases hok

/-- Initializing a nonce sets the state after the recent blockhashes have been read. -/
theorem initializeNonceAccount_call {position : ℕ} {hashes : List Hash}
    (hrecent : sdk.recentBlockhashes invoke instruction position = .ok hashes) {authority : Pubkey}
    {rent : Rent} (hok : initializeNonceAccount sdk borrowed authority rent invoke = .ok new) :
    AccountCall sdk invoke instruction borrowed new := by
  simp only [initializeNonceAccount, Outcome.ite_err_eq_ok] at hok
  obtain ⟨versions, -, hok⟩ := Outcome.bind_eq_ok.mp hok.2
  split at hok
  next =>
    simp only [Outcome.ite_err_eq_ok] at hok
    exact .setRecentNonce hrecent hok.2
  next => cases hok

/-- Handing a nonce on sets the state of an account that holds one. -/
theorem authorizeNonceAccount_call (hsdk : sdk.Lawful) {authority : Pubkey}
    (hok : authorizeNonceAccount sdk borrowed authority signers invoke = .ok new) :
    AccountCall sdk invoke instruction borrowed new := by
  simp only [authorizeNonceAccount, Outcome.ite_err_eq_ok] at hok
  obtain ⟨versions, hversions, hok⟩ := Outcome.bind_eq_ok.mp hok.2
  split at hok
  next versions' hauthorize =>
    obtain ⟨data, hdata, -⟩ := hsdk.authorizeNonce_ok hauthorize
    exact .setHeldNonce ⟨versions, data, hsdk.getState_ok hversions, hdata⟩ hok
  all_goals cases hok

/-- Upgrading a nonce sets the state of an account of the system program whose nonce can be
upgraded. -/
theorem upgradeNonceAccount_call (hsdk : sdk.Lawful)
    (hok : upgradeNonceAccount sdk borrowed = .ok new) :
    AccountCall sdk invoke instruction borrowed new := by
  simp only [upgradeNonceAccount, Outcome.ite_err_eq_ok, ne_eq, not_not] at hok
  obtain ⟨howner, -, hok⟩ := hok
  obtain ⟨versions, hversions, hok⟩ := Outcome.bind_eq_ok.mp hok
  split at hok
  next => cases hok
  next upgraded hupgrade => exact .setUpgradedNonce howner (hsdk.getState_ok hversions) hupgrade hok

/-- A withdrawal resets the state of an account that holds a nonce, or leaves it. -/
theorem withdrawNonceSigner_calls (hsdk : sdk.Lawful) {lamports : UInt64} {rent : Rent}
    {signer : Pubkey} (hok : withdrawNonceSigner sdk borrowed lamports rent invoke = .ok (signer, new)) :
    AccountCalls sdk invoke instruction borrowed borrowed.account new := by
  obtain ⟨versions, hversions, hok⟩ := Outcome.bind_eq_ok.mp hok
  split at hok
  next =>
    simp only [Outcome.ite_err_eq_ok, Outcome.ok.injEq, Prod.mk.injEq] at hok
    obtain ⟨-, -, rfl⟩ := hok
    exact .refl
  next data hdata =>
    split at hok
    · simp only [Outcome.ite_err_eq_ok] at hok
      obtain ⟨account, haccount, hok⟩ := Outcome.bind_eq_ok.mp hok.2
      obtain ⟨-, rfl⟩ := Prod.mk.inj (Outcome.ok.inj hok)
      exact (AccountCall.setHeldNonce ⟨versions, data, hsdk.getState_ok hversions, hdata⟩
        haccount).calls
    · obtain ⟨amount, -, hok⟩ := Outcome.bind_eq_ok.mp hok
      simp only [Outcome.ite_err_eq_ok, Outcome.ok.injEq, Prod.mk.injEq] at hok
      obtain ⟨-, -, rfl⟩ := hok
      exact .refl

/-- A withdrawal resets an account, if at all, and moves lamports. -/
theorem withdrawNonceAccount_steps (hsdk : sdk.Lawful) {fromIndex toIndex : ℕ} {lamports : UInt64}
    {rent : Rent}
    (hok : withdrawNonceAccount sdk fromIndex lamports toIndex rent signers invoke context
      instruction = .ok after) :
    SystemSteps sdk invoke instruction context after := by
  obtain ⟨payer, hpayer, hok⟩ := Outcome.bind_eq_ok.mp hok
  simp only [Outcome.ite_err_eq_ok] at hok
  obtain ⟨⟨signer, reset⟩, hsigner, hok⟩ := Outcome.bind_eq_ok.mp hok.2
  simp only [Outcome.ite_err_eq_ok] at hok
  obtain ⟨drained, hdrained, hok⟩ := Outcome.bind_eq_ok.mp hok.2
  obtain ⟨receiver, hreceiver, hok⟩ := Outcome.bind_eq_ok.mp hok
  obtain ⟨filled, hfilled, hok⟩ := Outcome.bind_eq_ok.mp hok
  obtain rfl := Outcome.ok.inj hok
  have hreset : AccountCalls sdk invoke instruction payer payer.account reset :=
    withdrawNonceSigner_calls hsdk hsigner
  have hdebit := AccountCalls.steps (borrows_of_ok hsdk hpayer)
    (hreset.tail (.checkedSubLamports hdrained))
  exact hdebit.trans
    ((AccountCall.checkedAddLamports hfilled).calls.steps (borrows_of_ok hsdk hreceiver))

/-- A system instruction that succeeds is a sequence of calls on accounts it names. -/
theorem runSystemInstruction_steps (hsdk : sdk.Lawful) {decoded : SystemInstruction}
    (hok : runSystemInstruction sdk decoded signers invoke context instruction = .ok after) :
    SystemSteps sdk invoke instruction context after := by
  -- the first step of every branch counts the accounts
  cases decoded with
  | createAccount | createAccountWithSeed =>
    obtain ⟨-, -, hok⟩ := Outcome.bind_eq_ok.mp hok
    obtain ⟨key, -, hok⟩ := Outcome.bind_eq_ok.mp hok
    obtain ⟨address, -, hok⟩ := Outcome.bind_eq_ok.mp hok
    exact createAccount_steps hsdk hok
  | assign | assignWithSeed =>
    obtain ⟨-, -, hok⟩ := Outcome.bind_eq_ok.mp hok
    refine onFirstAccount_steps hsdk (fun borrowed new hnew ↦ ?_) hok
    obtain ⟨key, -, hnew⟩ := Outcome.bind_eq_ok.mp hnew
    obtain ⟨address, -, hnew⟩ := Outcome.bind_eq_ok.mp hnew
    exact assign_calls hnew
  | allocate =>
    obtain ⟨-, -, hok⟩ := Outcome.bind_eq_ok.mp hok
    refine onFirstAccount_steps hsdk (fun borrowed new hnew ↦ ?_) hok
    obtain ⟨key, -, hnew⟩ := Outcome.bind_eq_ok.mp hnew
    obtain ⟨address, -, hnew⟩ := Outcome.bind_eq_ok.mp hnew
    exact (allocate_call hnew).calls
  | allocateWithSeed =>
    obtain ⟨-, -, hok⟩ := Outcome.bind_eq_ok.mp hok
    refine onFirstAccount_steps hsdk (fun borrowed new hnew ↦ ?_) hok
    obtain ⟨key, -, hnew⟩ := Outcome.bind_eq_ok.mp hnew
    obtain ⟨address, -, hnew⟩ := Outcome.bind_eq_ok.mp hnew
    exact allocateAndAssign_calls hnew
  | transfer =>
    obtain ⟨-, -, hok⟩ := Outcome.bind_eq_ok.mp hok
    exact transfer_steps hsdk hok
  | transferWithSeed =>
    obtain ⟨-, -, hok⟩ := Outcome.bind_eq_ok.mp hok
    exact transferWithSeed_steps hsdk hok
  | advanceNonceAccount =>
    obtain ⟨-, -, hok⟩ := Outcome.bind_eq_ok.mp hok
    refine onFirstAccount_steps hsdk (fun borrowed new hnew ↦ ?_) hok
    obtain ⟨_, -, hnew⟩ := Outcome.bind_eq_ok.mp hnew
    simp only [Outcome.ite_err_eq_ok] at hnew
    exact (advanceNonceAccount_call hsdk hnew.2).calls
  | withdrawNonceAccount =>
    obtain ⟨-, -, hok⟩ := Outcome.bind_eq_ok.mp hok
    obtain ⟨-, -, hok⟩ := Outcome.bind_eq_ok.mp hok
    obtain ⟨rent, -, hok⟩ := Outcome.bind_eq_ok.mp hok
    exact withdrawNonceAccount_steps hsdk hok
  | initializeNonceAccount =>
    obtain ⟨-, -, hok⟩ := Outcome.bind_eq_ok.mp hok
    refine onFirstAccount_steps hsdk (fun borrowed new hnew ↦ ?_) hok
    obtain ⟨hashes, hrecent, hnew⟩ := Outcome.bind_eq_ok.mp hnew
    simp only [Outcome.ite_err_eq_ok] at hnew
    obtain ⟨rent, -, hnew⟩ := Outcome.bind_eq_ok.mp hnew.2
    exact (initializeNonceAccount_call hrecent hnew).calls
  | authorizeNonceAccount =>
    obtain ⟨-, -, hok⟩ := Outcome.bind_eq_ok.mp hok
    exact onFirstAccount_steps hsdk
      (fun borrowed new hnew ↦ (authorizeNonceAccount_call hsdk hnew).calls) hok
  | upgradeNonceAccount =>
    obtain ⟨-, -, hok⟩ := Outcome.bind_eq_ok.mp hok
    exact onFirstAccount_steps hsdk
      (fun borrowed new hnew ↦ (upgradeNonceAccount_call hsdk hnew).calls) hok

/-- `process_system_instruction` runs the instruction it decodes. -/
theorem processSystemInstruction_steps (hsdk : sdk.Lawful)
    (hok : processSystemInstruction sdk invoke context instruction = .ok after) :
    SystemSteps sdk invoke instruction context after := by
  obtain ⟨decoded, -, hok⟩ := Outcome.bind_eq_ok.mp hok
  obtain ⟨signers, -, hok⟩ := Outcome.bind_eq_ok.mp hok
  exact runSystemInstruction_steps hsdk hok

end Functions

end Playground.Playnet
