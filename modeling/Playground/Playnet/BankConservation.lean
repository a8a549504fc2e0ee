import Playground.Playnet.BankLoading
import Playground.Playnet.BankRuns
import Playground.Playnet.ReferenceSdk

/-!
# Lamports in the bank

A transaction moves lamports between the accounts loaded for it and makes none, whichever of them
stand for the same key (`MessageEffect.lamports_eq`). What the bank gains or loses comes in when the
accounts of the message are written back by key. The accounts loaded behind them are dropped, and keep
their lamports; the instructions sysvar is loaded as an account without lamports, and the bank holds
none for it (`SysvarEmpty`). There remain keys that the message lists twice: each listing is loaded
with the whole balance, and only the last is left. `totalLamports_eq_iff` says what the bank then gains
or loses; where the keys of a message are distinct, which no check of a transaction asks for but every
message compiled by the SDK satisfies, it gains and loses nothing.
-/

set_option autoImplicit false
set_option relaxedAutoImplicit false

namespace Playground.Playnet

open Library PgBank

/-- The lamports of all accounts of a bank. -/
def PgBank.totalLamports (bank : PgBank) : ℕ :=
  total (fun account ↦ account.lamports.toNat) bank.accounts

/-- The lamports a bank holds for a key. -/
def PgBank.lamportsAt (bank : PgBank) (key : Pubkey) : ℕ :=
  (bank.accounts.lookup key).elim 0 fun account ↦ account.lamports.toNat

/-- A bank holds no lamports for the instructions sysvar, and pays airdrops from another account. -/
structure SysvarEmpty (bank : PgBank) : Prop where
  lamportsAt_eq : bank.lamportsAt instructionsId = 0
  airdropKp_ne : bank.airdropKp.pubkey ≠ instructionsId

/-- The lamports of an account that defaults to one without any. -/
theorem PgBank.toNat_getAccountDefault (bank : PgBank) (key : Pubkey) :
    (bank.getAccountDefault key).lamports.toNat = bank.lamportsAt key := by
  unfold getAccountDefault lamportsAt
  cases bank.accounts.lookup key <;> rfl

/-- The accounts of the keys of a message are loaded with the lamports the bank holds for them. -/
theorem toNat_lamports_loadedAccounts {sdk : Sdk} {bank : PgBank} (hempty : SysvarEmpty bank)
    {message : SanitizedMessage} {entry : TransactionAccount}
    (hentry : entry ∈ loadedAccounts sdk bank message) :
    entry.2.lamports.toNat = bank.lamportsAt entry.1 := by
  obtain ⟨⟨key, index⟩, -, rfl⟩ := List.mem_map.mp hentry
  show (loadedAccount sdk bank message key index).lamports.toNat = bank.lamportsAt key
  unfold loadedAccount
  split
  next hsysvar =>
    rw [hsysvar.2, hempty.lamportsAt_eq]
    rfl
  next => exact bank.toNat_getAccountDefault key

/-! ### Executing and writing back -/

/-- The lamports of a list of accounts. -/
def sumLamports (accounts : List TransactionAccount) : ℕ :=
  (accounts.map fun entry ↦ entry.2.lamports.toNat).sum

section Executing

variable {message : SanitizedMessage} {before after : TransactionContext}

/-- Accounts that begin with those of the keys of a message are loaded for it. -/
theorem loaded_of_take
    (hkeys : (before.accounts.take message.accountKeys.length).map Prod.fst = message.accountKeys) :
    Loaded message before := by
  intro index key account haccount hlt
  rw [← hkeys, List.getElem?_map, List.getElem?_take_of_lt hlt, haccount]
  rfl

/-- A message keeps the keys. -/
theorem MessageEffect.map_fst (heffect : MessageEffect message before after) :
    after.accounts.map Prod.fst = before.accounts.map Prod.fst := by
  refine List.ext_getElem? fun index ↦ ?_
  rw [List.getElem?_map, List.getElem?_map]
  cases hold : before.accounts[index]? with
  | none =>
    rw [List.getElem?_eq_none_iff, ← heffect.length_eq, ← List.getElem?_eq_none_iff] at hold
    rw [hold]
  | some entry =>
    obtain ⟨new, hnew, -⟩ := heffect.getElem? hold
    rw [hnew]
    rfl

/-- The accounts of the message keep their lamports on the whole. -/
theorem MessageEffect.sumLamports_take (heffect : MessageEffect message before after) :
    sumLamports (after.accounts.take message.accountKeys.length) =
      sumLamports (before.accounts.take message.accountKeys.length) := by
  have hbehind : ((after.accounts.drop message.accountKeys.length).map
        fun entry ↦ entry.2.lamports.toNat) =
      (before.accounts.drop message.accountKeys.length).map
        fun entry ↦ entry.2.lamports.toNat := by
    refine List.ext_getElem? fun index ↦ ?_
    rw [List.getElem?_map, List.getElem?_map, List.getElem?_drop, List.getElem?_drop]
    cases hold : before.accounts[message.accountKeys.length + index]? with
    | none =>
      rw [List.getElem?_eq_none_iff, ← heffect.length_eq, ← List.getElem?_eq_none_iff] at hold
      rw [hold]
    | some entry =>
      obtain ⟨new, hnew, hkept⟩ := heffect.getElem? hold
      rw [hnew, Option.map_some, Option.map_some, hkept (.inl (Nat.le_add_right _ _))]
  have hsplit : ∀ context : TransactionContext, context.lamports =
      sumLamports (context.accounts.take message.accountKeys.length) +
        ((context.accounts.drop message.accountKeys.length).map
          fun entry ↦ entry.2.lamports.toNat).sum := by
    intro context
    rw [sumLamports, ← List.sum_append, ← List.map_append, List.take_append_drop]
    rfl
  have htotal := heffect.lamports_eq
  rw [hsplit after, hsplit before, hbehind] at htotal
  omega

/-- The instructions sysvar keeps its lamports. -/
theorem MessageEffect.lamports_instructions (heffect : MessageEffect message before after)
    {new : Account}
    (hnew : (instructionsId, new) ∈ after.accounts.take message.accountKeys.length) :
    ∃ old, (instructionsId, old) ∈ before.accounts.take message.accountKeys.length ∧
      new.lamports = old.lamports := by
  obtain ⟨index, hindex⟩ := List.mem_iff_getElem?.mp hnew
  rw [List.getElem?_take] at hindex
  split at hindex
  next hlt =>
    obtain ⟨⟨key, old⟩, hold⟩ : ∃ entry, before.accounts[index]? = some entry :=
      ⟨_, List.getElem?_eq_getElem
        (heffect.length_eq ▸ (List.getElem?_eq_some_iff.mp hindex).1)⟩
    obtain ⟨new', hnew', hkept⟩ := heffect.getElem? hold
    obtain ⟨rfl, rfl⟩ := Prod.mk.inj (Option.some.inj (hnew'.symm.trans hindex))
    refine ⟨old, List.mem_iff_getElem?.mpr ⟨index, ?_⟩, hkept (.inr rfl)⟩
    rw [List.getElem?_take_of_lt hlt, hold]
  next => cases hindex

end Executing

/-- What executing a transaction gives back are accounts under the keys of the message, and they come
from those loaded for these keys by an effect of the message. -/
theorem loadAndExecuteTx_effect {sdk : Sdk} (hsdk : sdk.Lawful) (hbalanced : sdk.Balanced)
    {bank : PgBank} {tx : SanitizedTransaction} {loaded : List TransactionAccount}
    {executed : MessageState} (hexecuted : loadAndExecuteTx sdk bank tx = .ok (loaded, executed)) :
    (executed.context.accounts.take tx.message.accountKeys.length).map Prod.fst =
        tx.message.accountKeys ∧
      loaded.take tx.message.accountKeys.length = loadedAccounts sdk bank tx.message ∧
      MessageEffect tx.message { accounts := loaded } executed.context := by
  obtain ⟨loadedTx, hloaded, hexecuted⟩ := Outcome.bind_eq_ok.mp hexecuted
  obtain ⟨executed', hmessage, hexecuted⟩ := Outcome.bind_eq_ok.mp hexecuted
  obtain ⟨rfl, rfl⟩ := Prod.mk.inj (Outcome.ok.inj hexecuted)
  have htake := (loadTx_accounts hloaded).1
  have hkeys : (loadedTx.accounts.take tx.message.accountKeys.length).map Prod.fst =
      tx.message.accountKeys := by
    rw [htake, map_fst_loadedAccounts]
  unfold executeLoadedTx at hmessage
  split at hmessage
  next => cases hmessage
  have heffect := processMessage_effect hsdk hbalanced (loaded_of_take hkeys) tx.accounts_lt hmessage
  refine ⟨?_, htake, heffect⟩
  rw [List.map_take, heffect.map_fst, ← List.map_take, hkeys]

/-- The accounts that executing a transaction gives back have on the whole the lamports the bank holds
for their keys, and none for the instructions sysvar. -/
theorem loadAndExecuteTx_ok {sdk : Sdk} (hsdk : sdk.Lawful) (hbalanced : sdk.Balanced)
    {bank : PgBank} (hempty : SysvarEmpty bank) {tx : SanitizedTransaction}
    {loaded : List TransactionAccount} {executed : MessageState}
    (hexecuted : loadAndExecuteTx sdk bank tx = .ok (loaded, executed)) :
    let post := executed.context.accounts.take tx.message.accountKeys.length
    post.map Prod.fst = tx.message.accountKeys ∧
      sumLamports post = (post.map fun entry ↦ bank.lamportsAt entry.1).sum ∧
      ∀ new, (instructionsId, new) ∈ post → new.lamports = 0 := by
  intro post
  obtain ⟨hpost, htake, heffect⟩ := loadAndExecuteTx_effect hsdk hbalanced hexecuted
  refine ⟨hpost, ?_, fun new hnew ↦ ?_⟩
  · have hsame : post.map (fun entry ↦ bank.lamportsAt entry.1) =
        (loadedAccounts sdk bank tx.message).map fun entry ↦ bank.lamportsAt entry.1 := by
      have hkeys : post.map Prod.fst = (loadedAccounts sdk bank tx.message).map Prod.fst :=
        hpost.trans map_fst_loadedAccounts.symm
      have hcomp := congrArg (List.map bank.lamportsAt) hkeys
      simpa only [List.map_map, Function.comp_def] using hcomp
    rw [heffect.sumLamports_take, htake, hsame, sumLamports]
    exact congrArg List.sum (List.map_congr_left fun _ ↦ toNat_lamports_loadedAccounts hempty)
  · obtain ⟨old, hold, hlamports⟩ := heffect.lamports_instructions hnew
    have hold : (instructionsId, old) ∈ loadedAccounts sdk bank tx.message := htake ▸ hold
    rw [hlamports, ← UInt64.toNat_inj, toNat_lamports_loadedAccounts hempty hold,
      hempty.lamportsAt_eq]
    rfl

/-! ### One call -/

section Call

variable {sdk : Sdk} {bank after : PgBank}

/-- Processing a transaction gives the instructions sysvar no lamports. -/
theorem SysvarEmpty.processed (hsdk : sdk.Lawful) (hbalanced : sdk.Balanced)
    (hempty : SysvarEmpty bank) {tx : SanitizedTransaction}
    {result : Except TransactionError Signature} (hprocessed : Processed sdk bank tx after result) :
    SysvarEmpty after := by
  refine ⟨?_, hprocessed.airdropKp_eq ▸ hempty.airdropKp_ne⟩
  rcases hprocessed.accounts_cases with ⟨-, hkept⟩ | ⟨loaded, executed, hexecuted, hwritten⟩
  · rw [lamportsAt, hkept]
    exact hempty.lamportsAt_eq
  obtain ⟨-, -, hnone⟩ := loadAndExecuteTx_ok hsdk hbalanced hempty hexecuted
  rw [lamportsAt, hwritten]
  cases hlookup : (writeAll bank.accounts _).lookup instructionsId with
  | none => rfl
  | some account =>
    rcases mem_of_lookup_writeAll hlookup with hmem | hold
    · simp [hnone account hmem]
    · have hheld := hempty.lamportsAt_eq
      rw [lamportsAt, hold] at hheld
      exact hheld

/-- The accounts that a transaction would leave behind by a later listing of the same key have on the
whole the lamports that the bank holds for their keys. -/
def ShadowsNothing (sdk : Sdk) (bank : PgBank) (tx : SanitizedTransaction) : Prop :=
  ∀ simulated, simulateTx sdk bank tx = some simulated → simulated.result = .ok () →
    sumLamports (shadowed simulated.postAccounts) =
      ((shadowed simulated.postAccounts).map fun entry ↦ bank.lamportsAt entry.1).sum

/-- Processing a transaction keeps the lamports of the bank, exactly if it shadows nothing. -/
theorem totalLamports_eq_iff_shadowsNothing (hsdk : sdk.Lawful) (hbalanced : sdk.Balanced)
    (hempty : SysvarEmpty bank) {tx : SanitizedTransaction}
    {result : Except TransactionError Signature} (hprocessed : Processed sdk bank tx after result) :
    after.totalLamports = bank.totalLamports ↔ ShadowsNothing sdk bank tx := by
  rcases hprocessed.accounts_cases with ⟨⟨error, hfailed⟩, hkept⟩ | ⟨loaded, executed, hexecuted,
    hwritten⟩
  · refine ⟨fun _ simulated hsimulated hresult ↦ ?_, fun _ ↦ by rw [totalLamports, hkept]; rfl⟩
    rw [simulateTx_of_err hfailed] at hsimulated
    obtain rfl := Option.some.inj hsimulated
    cases hresult
  · obtain ⟨-, hsum, -⟩ := loadAndExecuteTx_ok hsdk hbalanced hempty hexecuted
    rw [totalLamports, totalLamports, hwritten,
      total_writeAll_eq_iff (fun account : Account ↦ account.lamports.toNat) hsum]
    unfold ShadowsNothing
    rw [simulateTx_of_ok hexecuted]
    refine ⟨fun heq simulated hsimulated _ ↦ ?_, fun hshadows ↦ hshadows _ rfl rfl⟩
    obtain rfl := Option.some.inj hsimulated
    exact heq

/-- A transaction whose keys are distinct shadows nothing. -/
theorem shadowsNothing_of_nodup (hsdk : sdk.Lawful) (hbalanced : sdk.Balanced)
    (hempty : SysvarEmpty bank) {tx : SanitizedTransaction}
    (hnodup : tx.message.accountKeys.Nodup) : ShadowsNothing sdk bank tx := by
  intro simulated hsimulated hresult
  cases hexecuted : loadAndExecuteTx sdk bank tx with
  | panic => simp [simulateTx, hexecuted] at hsimulated
  | err error =>
    rw [simulateTx_of_err hexecuted] at hsimulated
    obtain rfl := Option.some.inj hsimulated
    cases hresult
  | ok outcome =>
    obtain ⟨loaded, executed⟩ := outcome
    rw [simulateTx_of_ok hexecuted] at hsimulated
    obtain rfl := Option.some.inj hsimulated
    obtain ⟨hkeys, -, -⟩ := loadAndExecuteTx_ok hsdk hbalanced hempty hexecuted
    have hnone := shadowed_eq_nil (hkeys.symm ▸ hnodup)
    dsimp only
    rw [hnone]
    rfl

/-- The transaction of an airdrop has distinct keys. -/
theorem nodup_of_airdrop (hbalanced : sdk.Balanced) {toPubkey : Pubkey} {lamports : UInt64}
    {tx : SanitizedTransaction}
    (htx : (TxCall.airdrop toPubkey lamports).tx? sdk bank = some tx) :
    tx.message.accountKeys.Nodup := by
  simp only [TxCall.tx?, airdropTransaction] at htx
  split at htx
  next sanitized hsanitized =>
    obtain rfl := Option.some.inj htx
    split at hsanitized
    next => cases hsanitized
    next versioned hsigned =>
      rw [hbalanced.sanitizeTransaction_message hsanitized,
        hbalanced.signTransaction_message hsigned]
      exact hbalanced.newMessageWithBlockhash_nodup _ _ _
  next => cases htx

end Call

/-! ### Runs -/

/-- A key pair that is generated where a bank cannot be read back does not have the address of the
instructions sysvar for its key. -/
def GeneratesKeypair (_ : PgBank) : BankCall → Prop
  | .call _ => True
  | .reload freshKp => freshKp.pubkey ≠ instructionsId

section Runs

variable {sdk : Sdk} {serde : Serde} {bank after : PgBank}

/-- The accounts that `PgBank::new` adds do not include the instructions sysvar. -/
theorem SysvarEmpty.of_readBank {airdropKp : Keypair} {saved : Option String}
    (hempty : SysvarEmpty (readBank sdk serde airdropKp saved)) :
    SysvarEmpty (new sdk serde airdropKp saved) := by
  refine ⟨?_, hempty.airdropKp_ne⟩
  have hkeys : instructionsId ∉
      (genesisAccounts sdk (readBank sdk serde airdropKp saved).airdropKp).map Prod.fst := by
    simp only [genesisAccounts, List.map_cons, List.map_nil, List.mem_cons, List.not_mem_nil,
      or_false, not_or]
    exact ⟨by decide, by decide, by decide, by decide, by decide, hempty.airdropKp_ne.symm⟩
  rw [lamportsAt, new, lookup_writeAll_of_notMem hkeys]
  exact hempty.lamportsAt_eq

/-- A new bank holds no lamports for the instructions sysvar. -/
theorem SysvarEmpty.new_none {airdropKp : Keypair} (hkp : airdropKp.pubkey ≠ instructionsId) :
    SysvarEmpty (new sdk serde airdropKp none) :=
  .of_readBank ⟨rfl, hkp⟩

/-- Every step keeps the instructions sysvar without lamports. -/
theorem SysvarEmpty.step (hsdk : sdk.Lawful) (hbalanced : sdk.Balanced) (hserde : serde.ReadsBack)
    (hempty : SysvarEmpty bank) {call : BankCall} (hgenerates : GeneratesKeypair bank call)
    (hstep : step sdk serde bank call = some after) : SysvarEmpty after := by
  rcases step_cases hstep with rfl | ⟨tx, result, hprocessed⟩ | ⟨freshKp, rfl, rfl⟩
  · exact hempty
  · exact hempty.processed hsdk hbalanced hprocessed
  · refine .of_readBank ?_
    dsimp only [readBank]
    split
    next saved hsaved =>
      obtain rfl := hserde _ _ hsaved
      exact ⟨hempty.lamportsAt_eq, hempty.airdropKp_ne⟩
    next => exact ⟨rfl, hgenerates⟩

/-- In a bank reached from a new one, a call keeps the sum of the lamports of all accounts exactly if
its transaction, where it gets as far as processing one, shadows nothing; it does so if the keys of
the transaction are distinct, and if the call is an airdrop. -/
theorem totalLamports_eq_iff (hsdk : sdk.Lawful) (hbalanced : sdk.Balanced)
    (hserde : serde.ReadsBack) {airdropKp : Keypair} (hkp : airdropKp.pubkey ≠ instructionsId)
    {calls : List BankCall}
    (hrun : Run (Guarded (StepsTo (step sdk serde)) GeneratesKeypair)
      (new sdk serde airdropKp none) calls bank)
    {call : TxCall} {result : Except TransactionError Signature}
    (hcall : call.run sdk bank = some (after, result)) :
    (after.totalLamports = bank.totalLamports ↔
        ∀ tx, call.tx? sdk bank = some tx → ShadowsNothing sdk bank tx) ∧
      ((∀ tx, call.tx? sdk bank = some tx → tx.message.accountKeys.Nodup) →
        after.totalLamports = bank.totalLamports) ∧
      ∀ toPubkey lamports, call = .airdrop toPubkey lamports →
        after.totalLamports = bank.totalLamports := by
  have hempty : SysvarEmpty bank := hrun.invariant_guarded
    (fun _ _ _ hbefore hgenerates hstep ↦ hbefore.step hsdk hbalanced hserde hgenerates hstep)
    (.new_none hkp)
  have hiff : after.totalLamports = bank.totalLamports ↔
      ∀ tx, call.tx? sdk bank = some tx → ShadowsNothing sdk bank tx := by
    rcases TxCall.run_cases hcall with ⟨hnone, rfl, -⟩ | ⟨tx, htx, hprocessed⟩
    · simp [hnone]
    · rw [totalLamports_eq_iff_shadowsNothing hsdk hbalanced hempty hprocessed]
      refine ⟨fun hshadows other hother ↦ ?_, fun hshadows ↦ hshadows tx htx⟩
      obtain rfl := Option.some.inj (htx.symm.trans hother)
      exact hshadows
  have hnodup : (∀ tx, call.tx? sdk bank = some tx → tx.message.accountKeys.Nodup) →
      after.totalLamports = bank.totalLamports := fun hkeys ↦
    hiff.mpr fun tx htx ↦ shadowsNothing_of_nodup hsdk hbalanced hempty (hkeys tx htx)
  refine ⟨hiff, hnodup, ?_⟩
  rintro toPubkey lamports rfl
  exact hnodup fun tx htx ↦ nodup_of_airdrop hbalanced htx

/-- A new bank keeps its lamports when five of them are transferred. -/
theorem totalLamports_eq_iff_transfer :
    let tx := transferTx [payerKp.pubkey, receiverKey, systemProgramId] (by decide) (by decide)
    let start := new referenceSdk (referenceSerde none) payerKp none
    ∃ after result, TxCall.run referenceSdk start (.processTx tx) = some (after, result) ∧
      after.lamportsAt receiverKey = 5 ∧ after.totalLamports = start.totalLamports := by
  intro tx start
  have hcompute : (TxCall.run referenceSdk start (.processTx tx)).map
      (fun outcome ↦ outcome.1.lamportsAt receiverKey) = some 5 := by decide +kernel
  obtain ⟨⟨after, result⟩, hrun, hfive⟩ := Option.map_eq_some_iff.mp hcompute
  refine ⟨after, result, hrun, hfive, ?_⟩
  refine (totalLamports_eq_iff referenceSdk_lawful referenceSdk_balanced
    (referenceSerde_readsBack none) (by decide) (.nil start) hrun).2.1 fun other hother ↦ ?_
  obtain rfl : tx = other := Option.some.inj hother
  decide

/-- A message that lists the payer twice: the receiver gets five lamports, and the payer keeps them. -/
theorem totalLamports_ne_of_payer_twice :
    let tx := transferTx [payerKp.pubkey, receiverKey, payerKp.pubkey, systemProgramId]
      (by decide) (by decide)
    let start := new referenceSdk (referenceSerde none) payerKp none
    ∃ after, processTx referenceSdk start tx = some (after, .ok tx.signature) ∧
      after.totalLamports = start.totalLamports + 5 := by
  intro tx start
  have hcompute : (processTx referenceSdk start tx).map
      (fun outcome ↦ (outcome.1.totalLamports, outcome.2)) =
      some (start.totalLamports + 5, .ok tx.signature) := by decide +kernel
  obtain ⟨⟨after, result⟩, hprocess, hpair⟩ := Option.map_eq_some_iff.mp hcompute
  obtain ⟨htotal, rfl⟩ := Prod.mk.inj hpair
  exact ⟨after, hprocess, htotal⟩

end Runs

end Playground.Playnet
