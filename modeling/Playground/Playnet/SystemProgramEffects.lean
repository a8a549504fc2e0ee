import Playground.Library.Store
import Playground.Playnet.SystemInstructionProcessor

/-!
# What a system instruction does to the accounts

A successful system instruction edits at most one account without touching its lamports, and then
moves lamports from at most one account to one other, or the same.
`runSystemInstruction_effect` says so once for all thirteen instructions, together with who is
edited and who is debited: accounts the instruction names, and, except for the two nonce instructions
that need no signature by design, accounts whose own key, whose base key, or the authority in whose
nonce state, is among the signers.

The development reads two things off it. `SystemEffect.framed` says what can have happened to one
account, and under which condition on it; that changes have been authorized by a signature is a case
of it. `SystemEffect.lamports_eq` is about balances: the instruction neither makes nor destroys
lamports, whichever positions stand for the same account.
-/

set_option autoImplicit false
set_option relaxedAutoImplicit false

namespace Playground.Playnet

open Library

/-! ### Changes of one account -/

/-- One account of a transaction has changed, in a way that depends on its index. -/
def Touched (change : ℕ → Account → Account → Prop) (before after : TransactionContext) : Prop :=
  ∃ index key old new, before.accounts[index]? = some (key, old) ∧ change index old new ∧
    after = before.put index key new

/-- The lamports of all accounts of a transaction. -/
def TransactionContext.lamports (context : TransactionContext) : ℕ :=
  (context.accounts.map fun entry ↦ entry.2.lamports.toNat).sum

section Touched

variable {change : ℕ → Account → Account → Prop} {before after : TransactionContext}

/-- Every key stays, and at every index the account is the old one or has changed. -/
theorem Touched.getElem? (htouched : Touched change before after) {index : ℕ} {key : Pubkey}
    {old : Account} (hold : before.accounts[index]? = some (key, old)) :
    ∃ new, after.accounts[index]? = some (key, new) ∧ (new = old ∨ change index old new) := by
  obtain ⟨other, otherKey, otherOld, new, hother, hchange, rfl⟩ := htouched
  simp only [TransactionContext.put, List.getElem?_set]
  by_cases heq : other = index
  · subst heq
    obtain ⟨rfl, rfl⟩ := Prod.mk.inj (Option.some.inj (hother.symm.trans hold))
    obtain ⟨hlt, -⟩ := List.getElem?_eq_some_iff.mp hold
    exact ⟨new, by rw [if_pos rfl, if_pos hlt], .inr hchange⟩
  · exact ⟨old, by rw [if_neg heq, hold], .inl rfl⟩

/-- No account is added or removed. -/
theorem Touched.length_eq (htouched : Touched change before after) :
    after.accounts.length = before.accounts.length := by
  obtain ⟨index, key, old, new, -, -, rfl⟩ := htouched
  simp only [TransactionContext.put, List.length_set]

/-- The keys after a change are those before it. -/
theorem Touched.getElem?_of_after (htouched : Touched change before after) {index : ℕ}
    {key : Pubkey} {new : Account} (hnew : after.accounts[index]? = some (key, new)) :
    ∃ old, before.accounts[index]? = some (key, old) := by
  have hlt : index < before.accounts.length :=
    htouched.length_eq ▸ (List.getElem?_eq_some_iff.mp hnew).1
  obtain ⟨⟨oldKey, old⟩, hold⟩ : ∃ entry, before.accounts[index]? = some entry :=
    ⟨_, List.getElem?_eq_getElem hlt⟩
  obtain ⟨new', hnew', -⟩ := htouched.getElem? hold
  obtain ⟨rfl, -⟩ := Prod.mk.inj (Option.some.inj (hnew'.symm.trans hnew))
  exact ⟨old, hold⟩

/-- The lamports of the transaction grow and shrink as those of the account that changed. -/
theorem Touched.lamports_add (htouched : Touched change before after) (gain loss : ℕ)
    (hchange : ∀ index old new, change index old new →
      new.lamports.toNat + loss = old.lamports.toNat + gain) :
    after.lamports + loss = before.lamports + gain := by
  obtain ⟨index, key, old, new, hold, hnew, rfl⟩ := htouched
  have hset := sum_map_set (fun entry : TransactionAccount ↦ entry.2.lamports.toNat) (key, new) hold
  have hbalance := hchange index old new hnew
  simp only [TransactionContext.lamports, TransactionContext.put]
  dsimp only at hset
  omega

end Touched

/-! ### Edits, debits and credits -/

/-- The accounts of the transaction that an instruction names. -/
def namedIndices (instruction : InstructionContext) : Set ℕ :=
  {index | ∃ entry ∈ instruction.instructionAccounts, entry.indexInTransaction = index}

/-- The accounts of the transaction that an instruction names as writable. -/
def writableIndices (instruction : InstructionContext) : Set ℕ :=
  {index | ∃ entry ∈ instruction.instructionAccounts,
    entry.indexInTransaction = index ∧ entry.isWritable = true}

/-- A permitted account has changed, but not its balance. -/
def Edit (permitted : Set ℕ) (index : ℕ) (old new : Account) : Prop :=
  index ∈ permitted ∧ new.lamports = old.lamports

/-- An amount has been taken from a permitted account, which the instruction names as writable unless
the amount is zero. -/
def Debit (instruction : InstructionContext) (permitted : Set ℕ) (amount : UInt64) (index : ℕ)
    (old new : Account) : Prop :=
  index ∈ permitted ∧ (amount = 0 ∨ index ∈ writableIndices instruction) ∧
    amount ≤ old.lamports ∧ new = { old with lamports := old.lamports - amount }

/-- An amount has been given to an account that the instruction names, and names as writable unless
the amount is zero. -/
def Credit (instruction : InstructionContext) (amount : UInt64) (index : ℕ) (old new : Account) :
    Prop :=
  index ∈ namedIndices instruction ∧ (amount = 0 ∨ index ∈ writableIndices instruction) ∧
    old.lamports.toNat + amount.toNat < 2 ^ 64 ∧
      new = { old with lamports := old.lamports + amount }

/-- At most one account has been edited. -/
def Edited (permitted : Set ℕ) (before after : TransactionContext) : Prop :=
  after = before ∨ Touched (Edit permitted) before after

/-- An amount has been moved, or none. -/
def Moved (instruction : InstructionContext) (permitted : Set ℕ)
    (before after : TransactionContext) : Prop :=
  after = before ∨ ∃ amount middle, Touched (Debit instruction permitted amount) before middle ∧
    Touched (Credit instruction amount) middle after

/-- The effect of a system instruction that may edit and debit the accounts at some indices. -/
def SystemEffect (instruction : InstructionContext) (permitted : Set ℕ)
    (before after : TransactionContext) : Prop :=
  ∃ middle, Edited (permitted ∩ namedIndices instruction) before middle ∧
    Moved instruction (permitted ∩ namedIndices instruction) middle after

/-- A debit and a credit change the balance as numbers do. -/
theorem Debit.toNat_eq {instruction : InstructionContext} {permitted : Set ℕ} {amount : UInt64}
    {index : ℕ} {old new : Account} (hdebit : Debit instruction permitted amount index old new) :
    new.lamports.toNat + amount.toNat = old.lamports.toNat := by
  obtain ⟨-, -, hamount, rfl⟩ := hdebit
  have hle : amount.toNat ≤ old.lamports.toNat := hamount
  rw [UInt64.toNat_sub_of_le _ _ hamount]
  omega

@[inherit_doc Debit.toNat_eq]
theorem Credit.toNat_eq {instruction : InstructionContext} {amount : UInt64} {index : ℕ}
    {old new : Account} (hcredit : Credit instruction amount index old new) :
    new.lamports.toNat = old.lamports.toNat + amount.toNat := by
  obtain ⟨-, -, hfits, rfl⟩ := hcredit
  rw [UInt64.toNat_add, Nat.mod_eq_of_lt hfits]

/-- A move keeps the balance of the whole. -/
theorem Moved.lamports_eq {instruction : InstructionContext} {permitted : Set ℕ}
    {before after : TransactionContext} (hmoved : Moved instruction permitted before after) :
    after.lamports = before.lamports := by
  obtain rfl | ⟨amount, middle, hdebit, hcredit⟩ := hmoved
  · rfl
  · have hless := hdebit.lamports_add 0 amount.toNat
      fun _ _ _ hchange ↦ hchange.toNat_eq
    have hmore := hcredit.lamports_add amount.toNat 0
      fun _ _ _ hchange ↦ hchange.toNat_eq
    omega

/-- A system instruction neither makes nor destroys lamports. -/
theorem SystemEffect.lamports_eq {instruction : InstructionContext} {permitted : Set ℕ}
    {before after : TransactionContext} (heffect : SystemEffect instruction permitted before after) :
    after.lamports = before.lamports := by
  obtain ⟨middle, hedited, hmoved⟩ := heffect
  rw [hmoved.lamports_eq]
  obtain rfl | htouched := hedited
  · rfl
  · simpa using htouched.lamports_add 0 0 fun _ _ _ hchange ↦ by
      rw [hchange.2]

/-- What an instruction can do to one account: nothing, if it does not name it; nothing to the balance,
if it does not name it as writable; and if changes to it are not permitted, no more than give it
lamports. -/
structure Framed (instruction : InstructionContext) (permitted : Set ℕ) (index : ℕ)
    (old new : Account) : Prop where
  eq_of_notMem : index ∉ namedIndices instruction → new = old
  lamports_eq : index ∉ writableIndices instruction → new.lamports = old.lamports
  lamports_le : index ∉ permitted → old.lamports.toNat ≤ new.lamports.toNat
  data_eq : index ∉ permitted → new.data = old.data
  owner_eq : index ∉ permitted → new.owner = old.owner

section Framed

variable {instruction : InstructionContext} {permitted : Set ℕ} {index : ℕ}
  {old middle new : Account}

/-- An account that stays is framed. -/
theorem Framed.refl : Framed instruction permitted index old old :=
  ⟨fun _ ↦ rfl, fun _ ↦ rfl, fun _ ↦ le_rfl, fun _ ↦ rfl, fun _ ↦ rfl⟩

/-- Two framed changes are one. -/
theorem Framed.trans (hfirst : Framed instruction permitted index old middle)
    (hsecond : Framed instruction permitted index middle new) :
    Framed instruction permitted index old new where
  eq_of_notMem hindex := (hsecond.eq_of_notMem hindex).trans (hfirst.eq_of_notMem hindex)
  lamports_eq hindex := (hsecond.lamports_eq hindex).trans (hfirst.lamports_eq hindex)
  lamports_le hindex := (hfirst.lamports_le hindex).trans (hsecond.lamports_le hindex)
  data_eq hindex := (hsecond.data_eq hindex).trans (hfirst.data_eq hindex)
  owner_eq hindex := (hsecond.owner_eq hindex).trans (hfirst.owner_eq hindex)

/-- An edit of a permitted account that is named is framed. -/
theorem Edit.framed (hedit : Edit (permitted ∩ namedIndices instruction) index old new) :
    Framed instruction permitted index old new where
  eq_of_notMem hindex := absurd hedit.1.2 hindex
  lamports_eq _ := hedit.2
  lamports_le hindex := absurd hedit.1.1 hindex
  data_eq hindex := absurd hedit.1.1 hindex
  owner_eq hindex := absurd hedit.1.1 hindex

/-- A debit of a permitted account that is named is framed. -/
theorem Debit.framed {amount : UInt64}
    (hdebit : Debit instruction (permitted ∩ namedIndices instruction) amount index old new) :
    Framed instruction permitted index old new where
  eq_of_notMem hindex := absurd hdebit.1.2 hindex
  lamports_eq hindex := by
    obtain ⟨-, hwritable, -, rfl⟩ := hdebit
    obtain rfl := hwritable.resolve_right hindex
    exact UInt64.sub_zero _
  lamports_le hindex := absurd hdebit.1.1 hindex
  data_eq hindex := absurd hdebit.1.1 hindex
  owner_eq hindex := absurd hdebit.1.1 hindex

/-- A credit is framed. -/
theorem Credit.framed {amount : UInt64} (hcredit : Credit instruction amount index old new) :
    Framed instruction permitted index old new where
  eq_of_notMem hindex := absurd hcredit.1 hindex
  lamports_eq hindex := by
    obtain ⟨-, hwritable, -, rfl⟩ := hcredit
    obtain rfl := hwritable.resolve_right hindex
    exact UInt64.add_zero _
  lamports_le _ := by
    have hsum := hcredit.toNat_eq
    omega
  data_eq _ := by rw [hcredit.2.2.2]
  owner_eq _ := by rw [hcredit.2.2.2]

/-- A change of one account that is framed keeps every key and leaves every account framed. -/
theorem Touched.framed {change : ℕ → Account → Account → Prop} {before after : TransactionContext}
    {key : Pubkey} (htouched : Touched change before after)
    (hchange : ∀ index old new, change index old new →
      Framed instruction permitted index old new)
    (hold : before.accounts[index]? = some (key, old)) :
    ∃ new, after.accounts[index]? = some (key, new) ∧
      Framed instruction permitted index old new := by
  obtain ⟨new, hnew, rfl | hframed⟩ := htouched.getElem? hold
  · exact ⟨new, hnew, .refl⟩
  · exact ⟨new, hnew, hchange index old new hframed⟩

/-- A system instruction adds and removes no account. -/
theorem SystemEffect.length_eq {before after : TransactionContext}
    (heffect : SystemEffect instruction permitted before after) :
    after.accounts.length = before.accounts.length := by
  obtain ⟨edited, hedited, hmoved⟩ := heffect
  have hlength : edited.accounts.length = before.accounts.length := by
    obtain rfl | htouched := hedited
    · rfl
    · exact htouched.length_eq
  obtain rfl | ⟨amount, drained, hdebited, hcredited⟩ := hmoved
  · exact hlength
  · rw [hcredited.length_eq, hdebited.length_eq, hlength]

/-- A system instruction keeps every key and leaves every account framed. -/
theorem SystemEffect.framed {before after : TransactionContext} {key : Pubkey}
    (heffect : SystemEffect instruction permitted before after)
    (hold : before.accounts[index]? = some (key, old)) :
    ∃ new, after.accounts[index]? = some (key, new) ∧
      Framed instruction permitted index old new := by
  obtain ⟨edited, hedited, hmoved⟩ := heffect
  obtain ⟨first, hfirst, hframed⟩ : ∃ first, edited.accounts[index]? = some (key, first) ∧
      Framed instruction permitted index old first := by
    obtain rfl | htouched := hedited
    · exact ⟨old, hold, .refl⟩
    · exact htouched.framed (fun _ _ _ ↦ Edit.framed) hold
  obtain rfl | ⟨amount, drained, hdebited, hcredited⟩ := hmoved
  · exact ⟨first, hfirst, hframed⟩
  obtain ⟨less, hless, hdebit⟩ := hdebited.framed (fun _ _ _ ↦ Debit.framed) hfirst
  obtain ⟨more, hmore, hcredit⟩ := hcredited.framed (fun _ _ _ ↦ Credit.framed) hless
  exact ⟨more, hmore, (hframed.trans hdebit).trans hcredit⟩

end Framed

/-! ### The functions of the system program -/

/-- An address has signed, or the base key that it is derived from. -/
def KeyAuthorized (sdk : Sdk) (signers : Set Pubkey) (key : Pubkey) : Prop :=
  key ∈ signers ∨ ∃ base seed owner, sdk.createWithSeed base seed owner = .ok key ∧ base ∈ signers

/-- The authority recorded in the nonce state of an account has signed. -/
def NonceAuthorized (sdk : Sdk) (signers : Set Pubkey) (account : Account) : Prop :=
  ∃ versions data, sdk.accountNonceState account = some versions ∧
    versions.state = .initialized data ∧ data.authority ∈ signers

/-- What it takes to authorize a change to an account: the signature of its key, of the base key of
its derived address, or of the authority recorded in its nonce state. -/
def Authorized (sdk : Sdk) (signers : Set Pubkey) (key : Pubkey) (account : Account) : Prop :=
  KeyAuthorized sdk signers key ∨ NonceAuthorized sdk signers account

/-- The accounts of a transaction that some signature authorizes a change to. -/
def authorizedIndices (sdk : Sdk) (signers : Set Pubkey) (context : TransactionContext) : Set ℕ :=
  {index | ∃ key account, context.accounts[index]? = some (key, account) ∧
    Authorized sdk signers key account}

section Functions

variable {sdk : Sdk} {context after : TransactionContext} {instruction : InstructionContext}
  {invoke : InvokeContext} {signers : Finset Pubkey}

/-- An account borrowed at a position of the instruction is one the instruction names. -/
theorem mem_namedIndices (hsdk : sdk.Lawful) {position : ℕ} {borrowed : BorrowedAccount}
    (hborrow : sdk.tryBorrowInstructionAccount instruction context position = .ok borrowed) :
    borrowed.indexInTransaction ∈ namedIndices instruction := by
  obtain ⟨⟨entry, hentry, hindex, -⟩, -⟩ := hsdk.tryBorrowInstructionAccount_ok hborrow
  exact ⟨entry, List.mem_of_getElem? hentry, hindex.symm⟩

/-- A writable account borrowed at a position of the instruction is one it names as writable. -/
theorem mem_writableIndices (hsdk : sdk.Lawful) {position : ℕ} {borrowed : BorrowedAccount}
    (hborrow : sdk.tryBorrowInstructionAccount instruction context position = .ok borrowed)
    (hwritable : borrowed.isWritable = true) :
    borrowed.indexInTransaction ∈ writableIndices instruction := by
  obtain ⟨⟨entry, hentry, hindex, hentryWritable⟩, -⟩ := hsdk.tryBorrowInstructionAccount_ok hborrow
  exact ⟨entry, List.mem_of_getElem? hentry, hindex.symm, hentryWritable ▸ hwritable⟩

/-- Lamports taken from one borrowed account and given to another have been moved, if the first may
be debited. -/
theorem moved_of_borrow (hsdk : sdk.Lawful) (payer : BorrowedAccount) {toIndex : ℕ}
    {lamports : UInt64} {permitted : Set ℕ} {receiver : BorrowedAccount} {drained filled : Account}
    {middle : TransactionContext}
    (hpayer : context.accounts[payer.indexInTransaction]? = some (payer.key, payer.account))
    (hpermitted : payer.indexInTransaction ∈ permitted)
    (hwritable : payer.isWritable = true → payer.indexInTransaction ∈ writableIndices instruction)
    (hdrained : sdk.checkedSubLamports payer lamports = .ok drained)
    (hmiddle : middle = context.store { payer with account := drained })
    (hreceiver : sdk.tryBorrowInstructionAccount instruction middle toIndex = .ok receiver)
    (hfilled : sdk.checkedAddLamports receiver lamports = .ok filled) :
    Moved instruction permitted context (middle.store { receiver with account := filled }) := by
  obtain ⟨hamount, hpayerWritable, rfl⟩ := hsdk.checkedSubLamports_ok hdrained
  obtain ⟨hfits, hreceiverWritable, rfl⟩ := hsdk.checkedAddLamports_ok hfilled
  have hdebit : Touched (Debit instruction permitted lamports) context middle :=
    ⟨_, _, _, _, hpayer, ⟨hpermitted, hpayerWritable.imp_right hwritable, hamount, rfl⟩, hmiddle⟩
  refine .inr ⟨lamports, middle, hdebit, ⟨_, _, _, _, (hsdk.tryBorrowInstructionAccount_ok hreceiver).2,
    ⟨mem_namedIndices hsdk hreceiver, ?_, hfits, rfl⟩, rfl⟩⟩
  exact hreceiverWritable.imp_right (mem_writableIndices hsdk hreceiver)

/-- Writing back what stands there already changes nothing. -/
theorem TransactionContext.put_self {index : ℕ} {key : Pubkey} {account : Account}
    (hold : context.accounts[index]? = some (key, account)) :
    context.put index key account = context := by
  obtain ⟨hlt, hget⟩ := List.getElem?_eq_some_iff.mp hold
  rw [TransactionContext.put, ← hget, List.set_getElem_self]

/-- Writing back a borrowed account edits it, if it is left as it was, or if it may be edited and its
balance is left as it was. -/
theorem edited_of_borrow (hsdk : sdk.Lawful) {position : ℕ} {permitted : Set ℕ}
    {borrowed : BorrowedAccount} {new : Account}
    (hborrow : sdk.tryBorrowInstructionAccount instruction context position = .ok borrowed)
    (hnew : new = borrowed.account ∨
      borrowed.indexInTransaction ∈ permitted ∧ new.lamports = borrowed.account.lamports) :
    Edited (permitted ∩ namedIndices instruction) context
      (context.store { borrowed with account := new }) := by
  have hold := (hsdk.tryBorrowInstructionAccount_ok hborrow).2
  obtain rfl | ⟨hpermitted, hlamports⟩ := hnew
  · exact .inl (TransactionContext.put_self hold)
  · exact .inr ⟨_, _, _, _, hold, ⟨⟨hpermitted, mem_namedIndices hsdk hborrow⟩, hlamports⟩, rfl⟩

/-- A verified transfer moves lamports from the account at its first position. -/
theorem transferVerified_moved (hsdk : sdk.Lawful) {fromIndex toIndex : ℕ} {lamports : UInt64}
    {permitted : Set ℕ}
    (hpermitted : ∀ payer,
      sdk.tryBorrowInstructionAccount instruction context fromIndex = .ok payer →
        payer.indexInTransaction ∈ permitted)
    (hok : transferVerified sdk fromIndex toIndex lamports context instruction = .ok after) :
    Moved instruction (permitted ∩ namedIndices instruction) context after := by
  obtain ⟨payer, hpayer, hok⟩ := Outcome.bind_eq_ok.mp hok
  simp only [Outcome.ite_err_eq_ok] at hok
  obtain ⟨-, -, hok⟩ := hok
  obtain ⟨drained, hdrained, hok⟩ := Outcome.bind_eq_ok.mp hok
  obtain ⟨receiver, hreceiver, hok⟩ := Outcome.bind_eq_ok.mp hok
  obtain ⟨filled, hfilled, hok⟩ := Outcome.bind_eq_ok.mp hok
  obtain rfl := Outcome.ok.inj hok
  exact moved_of_borrow hsdk payer (hsdk.tryBorrowInstructionAccount_ok hpayer).2
    ⟨hpermitted payer hpayer, mem_namedIndices hsdk hpayer⟩ (mem_writableIndices hsdk hpayer)
    hdrained rfl hreceiver hfilled

/-- A signature for an account whose key has signed, or is derived from one that has, permits a
change to it. -/
def Permits (sdk : Sdk) (signers : Set Pubkey) (permitted : Set ℕ) (context : TransactionContext) :
    Prop :=
  ∀ ⦃index key account⦄, context.accounts[index]? = some (key, account) →
    KeyAuthorized sdk signers key → index ∈ permitted

/-- A position marked as signer stands for an account whose key signs. -/
theorem mem_signerKeys (hsdk : sdk.Lawful) {position : ℕ} {key : Pubkey}
    (hsigner : sdk.isInstructionAccountSigner instruction position = .ok true)
    (hkey : keyOfInstructionAccount sdk context instruction position = .ok key) :
    key ∈ signerKeys context instruction := by
  obtain ⟨entry, hentry, hmarked⟩ := hsdk.isInstructionAccountSigner_ok hsigner
  obtain ⟨index, hindex, hkey⟩ := Outcome.bind_eq_ok.mp hkey
  obtain ⟨entry', hentry', rfl⟩ := hsdk.getIndexOfInstructionAccount_ok hindex
  obtain rfl : entry' = entry := Option.some.inj (hentry'.symm.trans hentry)
  obtain ⟨account, haccount⟩ := hsdk.getKeyOfAccountAtIndex_ok hkey
  exact ⟨entry', List.mem_of_getElem? hentry, hmarked.symm, account, haccount⟩

/-- The key of an account of the instruction is that of the account borrowed at the same position. -/
theorem keyOfInstructionAccount_eq (hsdk : sdk.Lawful) {position : ℕ} {key : Pubkey}
    {borrowed : BorrowedAccount}
    (hkey : keyOfInstructionAccount sdk context instruction position = .ok key)
    (hborrow : sdk.tryBorrowInstructionAccount instruction context position = .ok borrowed) :
    key = borrowed.key := by
  obtain ⟨index, hindex, hkey⟩ := Outcome.bind_eq_ok.mp hkey
  obtain ⟨entry, hentry, rfl⟩ := hsdk.getIndexOfInstructionAccount_ok hindex
  obtain ⟨account, haccount⟩ := hsdk.getKeyOfAccountAtIndex_ok hkey
  obtain ⟨⟨entry', hentry', hindex', -⟩, hborrowed⟩ := hsdk.tryBorrowInstructionAccount_ok hborrow
  obtain rfl : entry' = entry := Option.some.inj (hentry'.symm.trans hentry)
  rw [hindex'] at hborrowed
  exact (Prod.mk.inj (Option.some.inj (haccount.symm.trans hborrowed))).1

/-- A transfer moves lamports from an account whose key has signed. -/
theorem transfer_moved (hsdk : sdk.Lawful) {fromIndex toIndex : ℕ} {lamports : UInt64}
    {permitted : Set ℕ} (hpermits : Permits sdk (signerKeys context instruction) permitted context)
    (hok : transfer sdk fromIndex toIndex lamports invoke context instruction = .ok after) :
    Moved instruction (permitted ∩ namedIndices instruction) context after := by
  unfold transfer at hok
  split at hok
  · exact .inl (Outcome.ok.inj hok).symm
  obtain ⟨signer, hsigner, hok⟩ := Outcome.bind_eq_ok.mp hok
  simp only [Outcome.ite_err_eq_ok, Bool.not_eq_false] at hok
  obtain ⟨rfl, hok⟩ := hok
  refine transferVerified_moved hsdk (fun payer hpayer ↦ ?_) hok
  obtain ⟨entry, hentry, hmarked⟩ := hsdk.isInstructionAccountSigner_ok hsigner
  obtain ⟨⟨entry', hentry', hindex, -⟩, hold⟩ := hsdk.tryBorrowInstructionAccount_ok hpayer
  obtain rfl : entry' = entry := Option.some.inj (hentry'.symm.trans hentry)
  exact hpermits hold
    (.inl ⟨entry', List.mem_of_getElem? hentry, hmarked.symm, _, hindex ▸ hold⟩)

/-- A transfer with a seed moves lamports from an account whose address is derived from a base that
has signed. -/
theorem transferWithSeed_moved (hsdk : sdk.Lawful) {fromIndex baseIndex toIndex : ℕ}
    {seed : String} {owner : Pubkey} {lamports : UInt64} {permitted : Set ℕ}
    (hpermits : Permits sdk (signerKeys context instruction) permitted context)
    (hok : transferWithSeed sdk fromIndex baseIndex seed owner toIndex lamports invoke context
      instruction = .ok after) :
    Moved instruction (permitted ∩ namedIndices instruction) context after := by
  unfold transferWithSeed at hok
  split at hok
  · exact .inl (Outcome.ok.inj hok).symm
  obtain ⟨signer, hsigner, hok⟩ := Outcome.bind_eq_ok.mp hok
  simp only [Outcome.ite_err_eq_ok, Bool.not_eq_false] at hok
  obtain ⟨rfl, hok⟩ := hok
  obtain ⟨base, hbase, hok⟩ := Outcome.bind_eq_ok.mp hok
  obtain ⟨address, haddress, hok⟩ := Outcome.bind_eq_ok.mp hok
  obtain ⟨key, hkey, hok⟩ := Outcome.bind_eq_ok.mp hok
  simp only [Outcome.ite_err_eq_ok, ne_eq, not_not] at hok
  obtain ⟨hmatch, htransfer⟩ := hok
  subst hmatch
  refine transferVerified_moved hsdk (fun payer hpayer ↦ ?_) htransfer
  rw [keyOfInstructionAccount_eq hsdk hkey hpayer] at haddress
  exact hpermits (hsdk.tryBorrowInstructionAccount_ok hpayer).2
    (.inr ⟨base, seed, owner, haddress, mem_signerKeys hsdk hsigner hbase⟩)

/-- An address that counts as signed has signed, or its base has. -/
theorem keyAuthorized_of_isSigner {key : Pubkey} {withSeed : Option (Pubkey × String × Pubkey)}
    {address : DerivedAddress} (hcreate : DerivedAddress.create sdk key withSeed = .ok address)
    (hsigner : address.isSigner signers = true) : KeyAuthorized sdk ↑signers key := by
  cases withSeed with
  | none =>
    obtain rfl := Outcome.ok.inj hcreate
    exact .inl (of_decide_eq_true hsigner)
  | some parts =>
    obtain ⟨base, seed, owner⟩ := parts
    obtain ⟨derived, hderived, hcreate⟩ := Outcome.bind_eq_ok.mp hcreate
    simp only [Outcome.ite_err_eq_ok, ne_eq, not_not] at hcreate
    obtain ⟨rfl, hcreate⟩ := hcreate
    obtain rfl := Outcome.ok.inj hcreate
    exact .inr ⟨base, seed, owner, hderived, of_decide_eq_true hsigner⟩

/-- A change to the account borrowed at a position is permitted where the address created from the
key at that position counts as signed. -/
theorem mem_of_isSigner (hsdk : sdk.Lawful) {permitted : Set ℕ} {position : ℕ} {key : Pubkey}
    {withSeed : Option (Pubkey × String × Pubkey)} {address : DerivedAddress}
    {borrowed : BorrowedAccount} (hsigners : ↑signers = signerKeys context instruction)
    (hpermits : Permits sdk (signerKeys context instruction) permitted context)
    (hkey : keyOfInstructionAccount sdk context instruction position = .ok key)
    (hborrow : sdk.tryBorrowInstructionAccount instruction context position = .ok borrowed)
    (hcreate : DerivedAddress.create sdk key withSeed = .ok address)
    (hsigner : address.isSigner signers = true) : borrowed.indexInTransaction ∈ permitted := by
  have hauthorized := keyAuthorized_of_isSigner hcreate hsigner
  rw [keyOfInstructionAccount_eq hsdk hkey hborrow, hsigners] at hauthorized
  exact hpermits (hsdk.tryBorrowInstructionAccount_ok hborrow).2 hauthorized

/-- Allocating leaves the balance, and needs a signature. -/
theorem allocate_ok (hsdk : sdk.Lawful) {borrowed : BorrowedAccount} {address : DerivedAddress}
    {space : UInt64} {new : Account} (hok : allocate sdk borrowed address space signers = .ok new) :
    address.isSigner signers = true ∧ new.lamports = borrowed.account.lamports := by
  simp only [allocate, Outcome.ite_err_eq_ok, Bool.not_eq_false] at hok
  obtain ⟨hsigner, -, -, hok⟩ := hok
  refine ⟨hsigner, ?_⟩
  rw [hsdk.setDataLength_ok hok]

/-- Assigning leaves the balance, and needs a signature unless it leaves the whole account. -/
theorem assign_ok (hsdk : sdk.Lawful) {borrowed : BorrowedAccount} {address : DerivedAddress}
    {owner : Pubkey} {new : Account} (hok : assign sdk borrowed address owner signers = .ok new) :
    new = borrowed.account ∨
      address.isSigner signers = true ∧ new.lamports = borrowed.account.lamports := by
  unfold assign at hok
  split at hok
  · exact .inl (Outcome.ok.inj hok).symm
  simp only [Outcome.ite_err_eq_ok, Bool.not_eq_false] at hok
  obtain ⟨hsigner, hok⟩ := hok
  refine .inr ⟨hsigner, ?_⟩
  rw [hsdk.setOwner_ok hok]

@[inherit_doc allocate_ok]
theorem allocateAndAssign_ok (hsdk : sdk.Lawful) {borrowed : BorrowedAccount}
    {address : DerivedAddress} {space : UInt64} {owner : Pubkey} {new : Account}
    (hok : allocateAndAssign sdk borrowed address space owner signers = .ok new) :
    address.isSigner signers = true ∧ new.lamports = borrowed.account.lamports := by
  obtain ⟨allocated, hallocated, hassigned⟩ := Outcome.bind_eq_ok.mp hok
  obtain ⟨hsigner, hlamports⟩ := allocate_ok hsdk hallocated
  obtain rfl | ⟨-, hassign⟩ := assign_ok hsdk hassigned
  · exact ⟨hsigner, hlamports⟩
  · exact ⟨hsigner, hassign.trans hlamports⟩

/-- Advancing a nonce leaves the balance, and needs the authority's signature. -/
theorem advanceNonceAccount_ok (hsdk : sdk.Lawful) {borrowed : BorrowedAccount} {new : Account}
    (hok : advanceNonceAccount sdk borrowed signers invoke = .ok new) :
    NonceAuthorized sdk ↑signers borrowed.account ∧ new.lamports = borrowed.account.lamports := by
  simp only [advanceNonceAccount, Outcome.ite_err_eq_ok] at hok
  obtain ⟨versions, hversions, hok⟩ := Outcome.bind_eq_ok.mp hok.2
  split at hok
  next data hdata =>
    simp only [Outcome.ite_err_eq_ok, not_not] at hok
    obtain ⟨hauthority, -, hok⟩ := hok
    refine ⟨⟨versions, data, hsdk.getState_ok hversions, hdata, hauthority⟩, ?_⟩
    rw [hsdk.setState_ok hok]
  next => cases hok

/-- Initializing a nonce leaves the balance. -/
theorem initializeNonceAccount_ok (hsdk : sdk.Lawful) {borrowed : BorrowedAccount}
    {authority : Pubkey} {rent : Rent} {new : Account}
    (hok : initializeNonceAccount sdk borrowed authority rent invoke = .ok new) :
    new.lamports = borrowed.account.lamports := by
  simp only [initializeNonceAccount, Outcome.ite_err_eq_ok] at hok
  obtain ⟨versions, -, hok⟩ := Outcome.bind_eq_ok.mp hok.2
  split at hok
  · simp only [Outcome.ite_err_eq_ok] at hok
    rw [hsdk.setState_ok hok.2]
  · cases hok

@[inherit_doc advanceNonceAccount_ok]
theorem authorizeNonceAccount_ok (hsdk : sdk.Lawful) {borrowed : BorrowedAccount}
    {authority : Pubkey} {new : Account}
    (hok : authorizeNonceAccount sdk borrowed authority signers invoke = .ok new) :
    NonceAuthorized sdk ↑signers borrowed.account ∧ new.lamports = borrowed.account.lamports := by
  simp only [authorizeNonceAccount, Outcome.ite_err_eq_ok] at hok
  obtain ⟨versions, hversions, hok⟩ := Outcome.bind_eq_ok.mp hok.2
  split at hok
  next versions' hauthorize =>
    obtain ⟨data, hdata, hauthority⟩ := hsdk.authorizeNonce_ok hauthorize
    refine ⟨⟨versions, data, hsdk.getState_ok hversions, hdata, hauthority⟩, ?_⟩
    rw [hsdk.setState_ok hok]
  all_goals cases hok

/-- Upgrading a nonce leaves the balance. -/
theorem upgradeNonceAccount_ok (hsdk : sdk.Lawful) {borrowed : BorrowedAccount} {new : Account}
    (hok : upgradeNonceAccount sdk borrowed = .ok new) :
    new.lamports = borrowed.account.lamports := by
  simp only [upgradeNonceAccount, Outcome.ite_err_eq_ok] at hok
  obtain ⟨versions, -, hok⟩ := Outcome.bind_eq_ok.mp hok.2.2
  split at hok
  · cases hok
  · rw [hsdk.setState_ok hok]

/-- A withdrawal resets the state of an account, if at all, without touching the balance; the key it
asks the signature of is that of the account, or the authority recorded in its state. -/
theorem withdrawNonceSigner_ok (hsdk : sdk.Lawful) {payer : BorrowedAccount} {lamports : UInt64}
    {rent : Rent} {signer : Pubkey} {reset : Account}
    (hok : withdrawNonceSigner sdk payer lamports rent invoke = .ok (signer, reset)) :
    reset.lamports = payer.account.lamports ∧
      (signer = payer.key ∨ ∃ versions data, sdk.accountNonceState payer.account = some versions ∧
        versions.state = .initialized data ∧ data.authority = signer) := by
  obtain ⟨versions, hversions, hok⟩ := Outcome.bind_eq_ok.mp hok
  split at hok
  next =>
    simp only [Outcome.ite_err_eq_ok, Outcome.ok.injEq, Prod.mk.injEq] at hok
    obtain ⟨-, rfl, rfl⟩ := hok
    exact ⟨rfl, .inl rfl⟩
  next data hdata =>
    have hauthority := hsdk.getState_ok hversions
    split at hok
    · simp only [Outcome.ite_err_eq_ok] at hok
      obtain ⟨account, haccount, hok⟩ := Outcome.bind_eq_ok.mp hok.2
      obtain ⟨rfl, rfl⟩ := Prod.mk.inj (Outcome.ok.inj hok)
      exact ⟨by rw [hsdk.setState_ok haccount], .inr ⟨versions, data, hauthority, hdata, rfl⟩⟩
    · obtain ⟨amount, -, hok⟩ := Outcome.bind_eq_ok.mp hok
      simp only [Outcome.ite_err_eq_ok, Outcome.ok.injEq, Prod.mk.injEq] at hok
      obtain ⟨-, rfl, rfl⟩ := hok
      exact ⟨rfl, .inr ⟨versions, data, hauthority, hdata, rfl⟩⟩

/-! ### The whole instruction -/

/-- A change of one account leaves the keys that sign. -/
theorem Touched.signerKeys_eq {change : ℕ → Account → Account → Prop}
    (htouched : Touched change context after) :
    signerKeys after instruction = signerKeys context instruction := by
  ext key
  refine ⟨?_, ?_⟩
  · rintro ⟨entry, hentry, hmarked, account, haccount⟩
    exact ⟨entry, hentry, hmarked, htouched.getElem?_of_after haccount⟩
  · rintro ⟨entry, hentry, hmarked, account, haccount⟩
    obtain ⟨new, hnew, -⟩ := htouched.getElem? haccount
    exact ⟨entry, hentry, hmarked, new, hnew⟩

/-- After an edit, a signature permits changes to the same accounts as before. -/
theorem Edited.permits {edited permitted : Set ℕ} (hedited : Edited edited context after)
    (hpermits : Permits sdk (signerKeys context instruction) permitted context) :
    Permits sdk (signerKeys after instruction) permitted after := by
  obtain rfl | htouched := hedited
  · exact hpermits
  · rw [htouched.signerKeys_eq]
    intro index key account haccount hkey
    obtain ⟨old, hold⟩ := htouched.getElem?_of_after haccount
    exact hpermits hold hkey

/-- What is permitted to all that is authorized is permitted by a signature for the key. -/
theorem permits_of_authorizedIndices {keys : Set Pubkey} {permitted : Set ℕ}
    (hpermitted : authorizedIndices sdk keys context ⊆ permitted) :
    Permits sdk keys permitted context :=
  fun _ _ _ hold hkey ↦ hpermitted ⟨_, _, hold, .inl hkey⟩

/-- An edit alone is the effect of a system instruction. -/
theorem Edited.systemEffect {permitted : Set ℕ}
    (hedited : Edited (permitted ∩ namedIndices instruction) context after) :
    SystemEffect instruction permitted context after :=
  ⟨after, hedited, .inl rfl⟩

/-- A move alone is the effect of a system instruction. -/
theorem Moved.systemEffect {permitted : Set ℕ}
    (hmoved : Moved instruction (permitted ∩ namedIndices instruction) context after) :
    SystemEffect instruction permitted context after :=
  ⟨context, .inl rfl, hmoved⟩

/-- Borrowing the first account and changing it is an edit, if the change leaves the account, or may
be made and leaves the balance. -/
theorem onFirstAccount_effect (hsdk : sdk.Lawful) {permitted : Set ℕ}
    {change : BorrowedAccount → Outcome InstructionError Account}
    (hchange : ∀ borrowed new,
      sdk.tryBorrowInstructionAccount instruction context 0 = .ok borrowed →
        change borrowed = .ok new → new = borrowed.account ∨
          borrowed.indexInTransaction ∈ permitted ∧ new.lamports = borrowed.account.lamports)
    (hok : onFirstAccount sdk context instruction change = .ok after) :
    SystemEffect instruction permitted context after := by
  obtain ⟨borrowed, hborrow, hok⟩ := Outcome.bind_eq_ok.mp hok
  obtain ⟨new, hnew, hok⟩ := Outcome.bind_eq_ok.mp hok
  obtain rfl := Outcome.ok.inj hok
  exact (edited_of_borrow hsdk hborrow (hchange borrowed new hborrow hnew)).systemEffect

/-- Creating an account edits the new account, whose address has signed, and moves lamports to it. -/
theorem createAccount_effect (hsdk : sdk.Lawful) {permitted : Set ℕ} {fromIndex toIndex : ℕ}
    {key owner : Pubkey} {withSeed : Option (Pubkey × String × Pubkey)} {address : DerivedAddress}
    {lamports space : UInt64} (hsigners : ↑signers = signerKeys context instruction)
    (hpermits : Permits sdk (signerKeys context instruction) permitted context)
    (hkey : keyOfInstructionAccount sdk context instruction toIndex = .ok key)
    (hcreate : DerivedAddress.create sdk key withSeed = .ok address)
    (hok : createAccount sdk fromIndex toIndex address lamports space owner signers invoke context
      instruction = .ok after) :
    SystemEffect instruction permitted context after := by
  obtain ⟨receiver, hreceiver, hok⟩ := Outcome.bind_eq_ok.mp hok
  simp only [Outcome.ite_err_eq_ok] at hok
  obtain ⟨created, hcreated, htransfer⟩ := Outcome.bind_eq_ok.mp hok.2
  obtain ⟨hsigner, hlamports⟩ := allocateAndAssign_ok hsdk hcreated
  have hindex := mem_of_isSigner hsdk hsigners hpermits hkey hreceiver hcreate hsigner
  have hedited := edited_of_borrow hsdk hreceiver (.inr ⟨hindex, hlamports⟩)
  exact ⟨_, hedited, transfer_moved hsdk (hedited.permits hpermits) htransfer⟩

/-- Withdrawing from a nonce account resets its state, if at all, and moves lamports out of it. -/
theorem withdrawNonceAccount_effect (hsdk : sdk.Lawful) {permitted : Set ℕ} {fromIndex toIndex : ℕ}
    {lamports : UInt64} {rent : Rent} (hsigners : ↑signers = signerKeys context instruction)
    (hpermitted : authorizedIndices sdk (signerKeys context instruction) context ⊆ permitted)
    (hok : withdrawNonceAccount sdk fromIndex lamports toIndex rent signers invoke context
      instruction = .ok after) :
    SystemEffect instruction permitted context after := by
  obtain ⟨payer, hpayer, hok⟩ := Outcome.bind_eq_ok.mp hok
  simp only [Outcome.ite_err_eq_ok] at hok
  obtain ⟨⟨signer, reset⟩, hsigner, hok⟩ := Outcome.bind_eq_ok.mp hok.2
  simp only [Outcome.ite_err_eq_ok, not_not] at hok
  obtain ⟨hmem, hok⟩ := hok
  obtain ⟨drained, hdrained, hok⟩ := Outcome.bind_eq_ok.mp hok
  obtain ⟨receiver, hreceiver, hok⟩ := Outcome.bind_eq_ok.mp hok
  obtain ⟨filled, hfilled, hok⟩ := Outcome.bind_eq_ok.mp hok
  obtain rfl := Outcome.ok.inj hok
  obtain ⟨hlamports, hwho⟩ := withdrawNonceSigner_ok hsdk hsigner
  have hold := (hsdk.tryBorrowInstructionAccount_ok hpayer).2
  have hindex : payer.indexInTransaction ∈ permitted := by
    refine hpermitted ⟨payer.key, payer.account, hold, ?_⟩
    rw [← hsigners]
    obtain rfl | ⟨versions, data, hversions, hdata, rfl⟩ := hwho
    · exact .inl (.inl hmem)
    · exact .inr ⟨versions, data, hversions, hdata, hmem⟩
  have hedited := edited_of_borrow hsdk hpayer (.inr ⟨hindex, hlamports⟩)
  have hnamed := mem_namedIndices hsdk hpayer
  have hwritable := mem_writableIndices hsdk hpayer
  obtain ⟨hlt, -⟩ := List.getElem?_eq_some_iff.mp hold
  refine ⟨_, hedited, moved_of_borrow hsdk { payer with account := reset } ?_ ⟨hindex, hnamed⟩
    hwritable hdrained ?_ hreceiver hfilled⟩
  · simp [TransactionContext.store, TransactionContext.put, hlt]
  · simp [TransactionContext.store, TransactionContext.put]

/-- The instructions that need no signature by design. -/
def SystemInstruction.isUnsigned : SystemInstruction → Bool
  | .initializeNonceAccount _ => true
  | .upgradeNonceAccount => true
  | _ => false

/-- What a system instruction does: an edit and a move, of accounts that some signature authorizes
the change of, unless the instruction needs no signature. -/
theorem runSystemInstruction_effect (hsdk : sdk.Lawful) {decoded : SystemInstruction}
    {permitted : Set ℕ} (hsigners : ↑signers = signerKeys context instruction)
    (hpermitted : authorizedIndices sdk (signerKeys context instruction) context ⊆ permitted)
    (hunsigned : decoded.isUnsigned = true → permitted = Set.univ)
    (hok : runSystemInstruction sdk decoded signers invoke context instruction = .ok after) :
    SystemEffect instruction permitted context after := by
  have hpermits := permits_of_authorizedIndices hpermitted
  have hnonce : ∀ borrowed,
      sdk.tryBorrowInstructionAccount instruction context 0 = .ok borrowed →
        NonceAuthorized sdk ↑signers borrowed.account →
          borrowed.indexInTransaction ∈ permitted := by
    intro borrowed hborrow hauthorized
    rw [hsigners] at hauthorized
    exact hpermitted ⟨_, _, (hsdk.tryBorrowInstructionAccount_ok hborrow).2, .inr hauthorized⟩
  -- the first step of every branch counts the accounts
  cases decoded with
  | createAccount lamports space owner =>
    obtain ⟨-, -, hok⟩ := Outcome.bind_eq_ok.mp hok
    obtain ⟨key, hkey, hok⟩ := Outcome.bind_eq_ok.mp hok
    obtain ⟨address, haddress, hok⟩ := Outcome.bind_eq_ok.mp hok
    exact createAccount_effect hsdk hsigners hpermits hkey haddress hok
  | createAccountWithSeed base seed lamports space owner =>
    obtain ⟨-, -, hok⟩ := Outcome.bind_eq_ok.mp hok
    obtain ⟨key, hkey, hok⟩ := Outcome.bind_eq_ok.mp hok
    obtain ⟨address, haddress, hok⟩ := Outcome.bind_eq_ok.mp hok
    exact createAccount_effect hsdk hsigners hpermits hkey haddress hok
  | assign owner =>
    obtain ⟨-, -, hok⟩ := Outcome.bind_eq_ok.mp hok
    refine onFirstAccount_effect hsdk (fun borrowed new hborrow hnew ↦ ?_) hok
    obtain ⟨key, hkey, hnew⟩ := Outcome.bind_eq_ok.mp hnew
    obtain ⟨address, haddress, hnew⟩ := Outcome.bind_eq_ok.mp hnew
    refine (assign_ok hsdk hnew).imp_right fun ⟨hsigner, hlamports⟩ ↦ ⟨?_, hlamports⟩
    exact mem_of_isSigner hsdk hsigners hpermits hkey hborrow haddress hsigner
  | assignWithSeed base seed owner =>
    obtain ⟨-, -, hok⟩ := Outcome.bind_eq_ok.mp hok
    refine onFirstAccount_effect hsdk (fun borrowed new hborrow hnew ↦ ?_) hok
    obtain ⟨key, hkey, hnew⟩ := Outcome.bind_eq_ok.mp hnew
    obtain ⟨address, haddress, hnew⟩ := Outcome.bind_eq_ok.mp hnew
    refine (assign_ok hsdk hnew).imp_right fun ⟨hsigner, hlamports⟩ ↦ ⟨?_, hlamports⟩
    exact mem_of_isSigner hsdk hsigners hpermits hkey hborrow haddress hsigner
  | allocate space =>
    obtain ⟨-, -, hok⟩ := Outcome.bind_eq_ok.mp hok
    refine onFirstAccount_effect hsdk (fun borrowed new hborrow hnew ↦ .inr ?_) hok
    obtain ⟨key, hkey, hnew⟩ := Outcome.bind_eq_ok.mp hnew
    obtain ⟨address, haddress, hnew⟩ := Outcome.bind_eq_ok.mp hnew
    obtain ⟨hsigner, hlamports⟩ := allocate_ok hsdk hnew
    exact ⟨mem_of_isSigner hsdk hsigners hpermits hkey hborrow haddress hsigner, hlamports⟩
  | allocateWithSeed base seed space owner =>
    obtain ⟨-, -, hok⟩ := Outcome.bind_eq_ok.mp hok
    refine onFirstAccount_effect hsdk (fun borrowed new hborrow hnew ↦ .inr ?_) hok
    obtain ⟨key, hkey, hnew⟩ := Outcome.bind_eq_ok.mp hnew
    obtain ⟨address, haddress, hnew⟩ := Outcome.bind_eq_ok.mp hnew
    obtain ⟨hsigner, hlamports⟩ := allocateAndAssign_ok hsdk hnew
    exact ⟨mem_of_isSigner hsdk hsigners hpermits hkey hborrow haddress hsigner, hlamports⟩
  | transfer lamports =>
    obtain ⟨-, -, hok⟩ := Outcome.bind_eq_ok.mp hok
    exact (transfer_moved hsdk hpermits hok).systemEffect
  | transferWithSeed lamports fromSeed fromOwner =>
    obtain ⟨-, -, hok⟩ := Outcome.bind_eq_ok.mp hok
    exact (transferWithSeed_moved hsdk hpermits hok).systemEffect
  | advanceNonceAccount =>
    obtain ⟨-, -, hok⟩ := Outcome.bind_eq_ok.mp hok
    refine onFirstAccount_effect hsdk (fun borrowed new hborrow hnew ↦ .inr ?_) hok
    obtain ⟨_, -, hnew⟩ := Outcome.bind_eq_ok.mp hnew
    simp only [Outcome.ite_err_eq_ok] at hnew
    obtain ⟨hauthorized, hlamports⟩ := advanceNonceAccount_ok hsdk hnew.2
    exact ⟨hnonce borrowed hborrow hauthorized, hlamports⟩
  | authorizeNonceAccount authority =>
    obtain ⟨-, -, hok⟩ := Outcome.bind_eq_ok.mp hok
    refine onFirstAccount_effect hsdk (fun borrowed new hborrow hnew ↦ .inr ?_) hok
    obtain ⟨hauthorized, hlamports⟩ := authorizeNonceAccount_ok hsdk hnew
    exact ⟨hnonce borrowed hborrow hauthorized, hlamports⟩
  | withdrawNonceAccount lamports =>
    obtain ⟨-, -, hok⟩ := Outcome.bind_eq_ok.mp hok
    obtain ⟨-, -, hok⟩ := Outcome.bind_eq_ok.mp hok
    obtain ⟨rent, -, hok⟩ := Outcome.bind_eq_ok.mp hok
    exact withdrawNonceAccount_effect hsdk hsigners hpermitted hok
  | initializeNonceAccount authority =>
    obtain rfl := hunsigned rfl
    obtain ⟨-, -, hok⟩ := Outcome.bind_eq_ok.mp hok
    refine onFirstAccount_effect hsdk (fun borrowed new hborrow hnew ↦ .inr ?_) hok
    obtain ⟨_, -, hnew⟩ := Outcome.bind_eq_ok.mp hnew
    simp only [Outcome.ite_err_eq_ok] at hnew
    obtain ⟨rent, -, hnew⟩ := Outcome.bind_eq_ok.mp hnew.2
    exact ⟨Set.mem_univ _, initializeNonceAccount_ok hsdk hnew⟩
  | upgradeNonceAccount =>
    obtain rfl := hunsigned rfl
    obtain ⟨-, -, hok⟩ := Outcome.bind_eq_ok.mp hok
    refine onFirstAccount_effect hsdk (fun borrowed new hborrow hnew ↦ .inr ?_) hok
    exact ⟨Set.mem_univ _, upgradeNonceAccount_ok hsdk hnew⟩

/-- What a system instruction does, whoever has signed. -/
theorem processSystemInstruction_effect (hsdk : sdk.Lawful)
    (hok : processSystemInstruction sdk invoke context instruction = .ok after) :
    SystemEffect instruction Set.univ context after := by
  obtain ⟨decoded, -, hok⟩ := Outcome.bind_eq_ok.mp hok
  obtain ⟨signers, hsigners, hok⟩ := Outcome.bind_eq_ok.mp hok
  exact runSystemInstruction_effect hsdk (hsdk.getSigners_ok hsigners) (Set.subset_univ _)
    (fun _ ↦ rfl) hok

end Functions

end Playground.Playnet
