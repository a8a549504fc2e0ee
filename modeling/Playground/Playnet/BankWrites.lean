import Playground.Playnet.BankConservation
import Playground.Playnet.SystemProgramSteps

/-!
# What a transaction writes to the bank

`process_tx` writes back the account of every key of the message, writable or not. That an address
which the message does not list as writable reads as before is a matter of what executing the message
leaves in its slot. `Sdk.RespectsWritable` says what is relied on in the SDK: a borrowed account that
is not writable is not changed, and a program changes no account that its instruction does not name as
writable. Then a read-only slot still holds the account that was loaded into it, which is the bank's
(`executed_readOnly`).

The one exception is made by the bank itself. The account of the instructions sysvar is made up for
the message, is told the index of each instruction, and is written back like the others, although no
message can write to it. `readOnly_kept_iff` says that a transaction keeps all read-only addresses
exactly if this account is the one the bank holds already (`SysvarKept`), as it is when the message
does not list it.
-/

set_option autoImplicit false
set_option relaxedAutoImplicit false

namespace Playground.Playnet

open Library PgBank

/-- What is relied on about accounts that are not writable. -/
structure Sdk.RespectsWritable (sdk : Sdk) : Prop where
  /-- The data length of an account is set only if it is writable. -/
  setDataLength_writable : ∀ {borrowed length account},
    sdk.setDataLength borrowed length = .ok account → borrowed.isWritable = true
  /-- The owner of an account is set only if it is writable. -/
  setOwner_writable : ∀ {borrowed owner account},
    sdk.setOwner borrowed owner = .ok account → borrowed.isWritable = true
  /-- The state of an account is set only if it is writable. -/
  setState_writable : ∀ {borrowed versions account},
    sdk.setState borrowed versions = .ok account → borrowed.isWritable = true
  /-- A program other than the system program changes only accounts that its instruction names as
  writable. -/
  processInstruction_writable : ∀ {invoke context instruction index},
    runsSystemProgram invoke context instruction = false →
      (sdk.processInstruction invoke context instruction).result = .ok () →
        index ∉ writableIndices instruction →
          (sdk.processInstruction invoke context instruction).context.accounts[index]? =
            context.accounts[index]?

/-! ### One instruction -/

section Instruction

variable {sdk : Sdk} {invoke : InvokeContext} {context : TransactionContext}
  {instruction : InstructionContext}

/-- A call on an account that is not writable leaves it. -/
theorem AccountCall.eq_of_readOnly (hsdk : sdk.Lawful) (hwritable : sdk.RespectsWritable)
    {borrowed : BorrowedAccount} {new : Account}
    (hcall : AccountCall sdk invoke instruction borrowed new)
    (hreadOnly : borrowed.isWritable = false) : new = borrowed.account := by
  have hnever : ¬ borrowed.isWritable = true := by simp [hreadOnly]
  cases hcall with
  | setDataLength _ _ hok => exact absurd (hwritable.setDataLength_writable hok) hnever
  | setOwner hok => exact absurd (hwritable.setOwner_writable hok) hnever
  | setHeldNonce _ hok => exact absurd (hwritable.setState_writable hok) hnever
  | setUpgradedNonce _ _ _ hok => exact absurd (hwritable.setState_writable hok) hnever
  | setRecentNonce _ hok => exact absurd (hwritable.setState_writable hok) hnever
  | checkedSubLamports hok =>
    obtain ⟨-, hzero, rfl⟩ := hsdk.checkedSubLamports_ok hok
    simp [hzero.resolve_right hnever]
  | checkedAddLamports hok =>
    obtain ⟨-, hzero, rfl⟩ := hsdk.checkedAddLamports_ok hok
    simp [hzero.resolve_right hnever]

/-- An instruction that succeeds leaves the accounts that it does not name as writable. -/
theorem processInstruction_readOnly (hsdk : sdk.Lawful) (hbalanced : sdk.Balanced)
    (hwritable : sdk.RespectsWritable)
    (hresult : (sdk.processInstruction invoke context instruction).result = .ok ()) {index : ℕ}
    (hindex : index ∉ writableIndices instruction) :
    (sdk.processInstruction invoke context instruction).context.accounts[index]? =
      context.accounts[index]? := by
  cases hsystem : runsSystemProgram invoke context instruction with
  | false => exact hwritable.processInstruction_writable hsystem hresult hindex
  | true =>
    obtain ⟨after, hprocess, heq⟩ := hbalanced.processInstruction_system hsystem hresult
    rw [heq]
    cases hold : context.accounts[index]? with
    | none =>
      have hlength := (processSystemInstruction_effect hsdk hprocess).length_eq
      rw [List.getElem?_eq_none_iff] at hold ⊢
      omega
    | some entry =>
      obtain ⟨key, old⟩ := entry
      have hcall : ∀ context borrowed new, Borrows instruction context borrowed →
          AccountCall sdk invoke instruction borrowed new →
            borrowed.indexInTransaction ∉ writableIndices instruction → new = borrowed.account := by
        intro _ borrowed new hborrows hnew hnotWritable
        obtain ⟨⟨entry, hentry, hposition, hmarked⟩, -⟩ := hborrows
        refine hnew.eq_of_readOnly hsdk hwritable ?_
        by_contra hmay
        have hmay : borrowed.isWritable = true := by simpa using hmay
        exact hnotWritable ⟨entry, hentry, hposition, hmarked.trans hmay⟩
      obtain ⟨new, hnew, hkept⟩ := @SystemSteps.changes _ _ _ _ _
        (fun index old new ↦ index ∉ writableIndices instruction → new = old)
        (fun _ _ _ ↦ rfl)
        (fun _ _ _ _ hfirst hsecond hnot ↦ (hsecond hnot).trans (hfirst hnot))
        hcall (processSystemInstruction_steps hsdk hprocess) _ _ _ hold
      rw [hnew, hkept hindex]

end Instruction

/-! ### The message -/

/-- A slot that the message cannot write to: it holds a key that is not listed as writable, or an
account loaded behind those of the keys. -/
def ReadOnly (sdk : Sdk) (message : SanitizedMessage) (index : ℕ) : Prop :=
  message.accountKeys.length ≤ index ∨ sdk.isWritable message index = false

/-- Two contexts with the same keys agree in the slots that the message cannot write to. -/
structure Agrees (sdk : Sdk) (message : SanitizedMessage) (reference context : TransactionContext) :
    Prop where
  keys_eq : context.accounts.map Prod.fst = reference.accounts.map Prod.fst
  readOnly_eq : ∀ index, ReadOnly sdk message index →
    context.accounts[index]? = reference.accounts[index]?

/-- The index of the first slot that holds the instructions sysvar depends on the keys alone. -/
theorem findIdx?_instructionsId (context : TransactionContext) :
    (context.accounts.findIdx? fun entry ↦ decide (entry.1 = instructionsId)) =
      (context.accounts.map Prod.fst).findIdx? fun key ↦ decide (key = instructionsId) := by
  rw [List.findIdx?_map]
  rfl

section Message

variable {sdk : Sdk} {message : SanitizedMessage} {reference context after : TransactionContext}

/-- Where a message is loaded, the slot of the instructions sysvar is read-only. -/
theorem readOnly_instructions (hbalanced : sdk.Balanced) (hloaded : Loaded message context)
    {index : ℕ} {account : Account}
    (haccount : context.accounts[index]? = some (instructionsId, account)) :
    ReadOnly sdk message index := by
  by_cases hlt : index < message.accountKeys.length
  · exact Or.inr (hbalanced.isWritable_instructions (hloaded haccount hlt))
  · exact Or.inl (Nat.not_lt.mp hlt)

/-- Telling the instructions sysvar the current index in one of two contexts that agree does the same
in the other. -/
theorem Agrees.fixup (hbalanced : sdk.Balanced) (hloaded : Loaded message context)
    (hagrees : Agrees sdk message reference context) {instructionIndex : ℕ}
    (hok : fixupInstructionsSysvar sdk context instructionIndex = .ok after) :
    ∃ reference', fixupInstructionsSysvar sdk reference instructionIndex = .ok reference' ∧
      Agrees sdk message reference' after := by
  have hsame := congrArg (List.findIdx? fun key ↦ decide (key = instructionsId)) hagrees.keys_eq
  rw [← findIdx?_instructionsId, ← findIdx?_instructionsId] at hsame
  unfold fixupInstructionsSysvar at hok ⊢
  rw [← hsame]
  cases hfind : context.accounts.findIdx? fun entry ↦ decide (entry.1 = instructionsId) with
  | none =>
    rw [hfind] at hok
    obtain rfl := Outcome.ok.inj hok
    exact ⟨reference, rfl, hagrees⟩
  | some index =>
    rw [hfind] at hok
    obtain ⟨hlt, hkey, -⟩ := List.findIdx?_eq_some_iff_getElem.mp hfind
    have hkey : context.accounts[index].1 = instructionsId := by simpa using hkey
    obtain ⟨account, haccount⟩ : ∃ account,
        context.accounts[index]? = some (instructionsId, account) :=
      ⟨context.accounts[index].2, by rw [List.getElem?_eq_getElem hlt, ← hkey]⟩
    have hreadOnly := readOnly_instructions hbalanced hloaded haccount
    have hreference := (hagrees.readOnly_eq index hreadOnly).symm.trans haccount
    simp only [haccount] at hok
    obtain ⟨data, hdata, hok⟩ := Outcome.bind_eq_ok.mp hok
    obtain rfl := Outcome.ok.inj hok
    simp only [hreference, hdata, Outcome.ok_bind]
    refine ⟨_, rfl, ?_, fun other hother ↦ ?_⟩
    · simp only [TransactionContext.put, List.map_set, hagrees.keys_eq]
    · have hlength := congrArg List.length hagrees.keys_eq
      simp only [List.length_map] at hlength
      simp only [TransactionContext.put, List.getElem?_set, hlength, hagrees.readOnly_eq other hother]

/-- An account that an instruction of the message names as writable is not read-only. -/
theorem notMem_writableIndices {instruction : CompiledInstruction} {current : InstructionContext}
    (hcurrent : current.instructionAccounts = instructionAccounts sdk message instruction)
    (haccounts : ∀ index ∈ instruction.accounts, index.toNat < message.accountKeys.length)
    {index : ℕ} (hreadOnly : ReadOnly sdk message index) : index ∉ writableIndices current := by
  rintro ⟨entry, hentry, rfl, hwritable⟩
  obtain ⟨listed, hlisted, hposition, hmessage⟩ := mem_instructionAccounts (hcurrent ▸ hentry)
  rcases hreadOnly with hbehind | hfalse
  · have hlt := haccounts listed hlisted
    omega
  · rw [hmessage, ← hposition, hfalse] at hwritable
    cases hwritable

/-- An instruction of the message does to the read-only slots what telling the instructions sysvar its
index does. -/
theorem Agrees.processInstructionAt (hsdk : sdk.Lawful) (hbalanced : sdk.Balanced)
    (hwritable : sdk.RespectsWritable) {invoke : InvokeContext} {state result : MessageState}
    {entry : (CompiledInstruction × List ℕ) × ℕ}
    (haccounts : ∀ index ∈ entry.1.1.accounts, index.toNat < message.accountKeys.length)
    (hloaded : Loaded message state.context)
    (hagrees : Agrees sdk message reference state.context)
    (hok : Playnet.processInstructionAt sdk invoke message state entry = .ok result) :
    ∃ reference', fixupInstructionsSysvar sdk reference entry.2 = .ok reference' ∧
      Agrees sdk message reference' result.context := by
  obtain ⟨⟨instruction, programIndices⟩, instructionIndex⟩ := entry
  simp only [Playnet.processInstructionAt] at hok
  split at hok
  next => cases hok
  next programId hprogram =>
    obtain ⟨context, hfixup, hok⟩ := Outcome.bind_eq_ok.mp hok
    obtain ⟨reference', hreference, hfixed⟩ := hagrees.fixup hbalanced hloaded hfixup
    refine ⟨reference', hreference, ?_⟩
    have hfixedLoaded : Loaded message context :=
      (fixupInstructionsSysvar_effect hfixup).loaded hloaded
    split at hok
    next =>
      obtain ⟨-, -, hok⟩ := Outcome.bind_eq_ok.mp hok
      obtain rfl := Outcome.ok.inj hok
      exact hfixed
    next =>
      obtain ⟨_, hresult, hok⟩ := Outcome.bind_eq_ok.mp hok
      rw [Outcome.mapErr_eq_ok] at hresult
      obtain rfl := Outcome.ok.inj hok
      have heffect := processInstruction_effect hsdk hbalanced rfl haccounts hfixedLoaded hresult
      refine ⟨heffect.map_fst.trans hfixed.keys_eq, fun index hreadOnly ↦ ?_⟩
      have hkept := processInstruction_readOnly hsdk hbalanced hwritable hresult
        (notMem_writableIndices rfl haccounts hreadOnly)
      exact hkept.trans (hfixed.readOnly_eq index hreadOnly)

/-- The instructions sysvar is told the index of every instruction, and nothing else happens. -/
def fixups (sdk : Sdk) (context : TransactionContext) (indices : List ℕ) :
    Outcome TransactionError TransactionContext :=
  indices.foldlM (fixupInstructionsSysvar sdk) context

/-- A message that succeeds does to the read-only slots what telling the instructions sysvar the index
of every instruction does. -/
theorem processMessage_readOnly (hsdk : sdk.Lawful) (hbalanced : sdk.Balanced)
    (hwritable : sdk.RespectsWritable) {invoke : InvokeContext} {programIndices : List (List ℕ)}
    {result : MessageState} (hloaded : Loaded message context)
    (haccounts : ∀ instruction ∈ message.instructions, ∀ index ∈ instruction.accounts,
      index.toNat < message.accountKeys.length)
    (hlength : programIndices.length = message.instructions.length)
    (hok : processMessage sdk invoke message programIndices context = .ok result) :
    ∃ reference, fixups sdk context (List.range message.instructions.length) = .ok reference ∧
      Agrees sdk message reference result.context := by
  have hstart : Loaded message context ∧
      ∃ reference, fixups sdk context [] = .ok reference ∧ Agrees sdk message reference context :=
    ⟨hloaded, context, rfl, rfl, fun _ _ ↦ rfl⟩
  have hindices : (message.instructions.zip programIndices).zipIdx.map Prod.snd =
      List.range message.instructions.length := by
    rw [List.zipIdx_map_snd, List.length_zip, hlength, Nat.min_self, List.range_eq_range']
  rw [← hindices]
  refine (Outcome.foldlM_invariant_done
    (fun (done : List ((CompiledInstruction × List ℕ) × ℕ)) (state : MessageState) ↦
      Loaded message state.context ∧ ∃ reference,
        fixups sdk context (done.map Prod.snd) = .ok reference ∧
          Agrees sdk message reference state.context)
    [] (fun done state entry result hentry hstate hstep ↦ ?_) hstart hok).2
  obtain ⟨hloaded, reference, hreference, hagrees⟩ := hstate
  obtain ⟨hinstruction, -⟩ := List.of_mem_zip (List.fst_mem_of_mem_zipIdx hentry)
  have hnamed := haccounts _ hinstruction
  have heffect := processInstructionAt_effect hsdk hbalanced hloaded hnamed hstep
  obtain ⟨reference', hfixup, hagrees'⟩ :=
    hagrees.processInstructionAt hsdk hbalanced hwritable hnamed hloaded hstep
  refine ⟨heffect.loaded hloaded, reference', ?_, hagrees'⟩
  simp only [fixups] at hreference ⊢
  simp [hreference, hfixup]

end Message

/-! ### The account of the instructions sysvar -/

section Sysvar

variable {sdk : Sdk} {context reference : TransactionContext}

/-- The data of the instructions sysvar after the indices of some instructions have been stored. -/
def storeIndices (sdk : Sdk) (data : List UInt8) (indices : List ℕ) :
    Outcome TransactionError (List UInt8) :=
  indices.foldlM (fun data index ↦ sdk.storeCurrentIndex data (UInt16.ofNat index)) data

/-- Without an account of the instructions sysvar nothing is stored. -/
theorem fixups_of_none
    (hnone : (context.accounts.findIdx? fun entry ↦ decide (entry.1 = instructionsId)) = none)
    (indices : List ℕ) : fixups sdk context indices = .ok context := by
  have hone : ∀ index, fixupInstructionsSysvar sdk context index = .ok context := by
    intro index
    rw [fixupInstructionsSysvar, hnone]
  induction indices with
  | nil => rfl
  | cons index rest ih =>
    rw [fixups, List.foldlM_cons, hone]
    exact ih

/-- Only the data of the first account of the instructions sysvar are stored to. -/
theorem fixups_of_some {first : ℕ} {key : Pubkey}
    (hfind : (context.accounts.findIdx? fun entry ↦ decide (entry.1 = instructionsId)) = some first)
    {indices : List ℕ} :
    ∀ {account : Account}, context.accounts[first]? = some (key, account) →
      fixups sdk context indices = .ok reference →
        ∃ data, storeIndices sdk account.data indices = .ok data ∧
          reference = context.put first key { account with data := data } := by
  induction indices generalizing context with
  | nil =>
    intro account haccount hok
    obtain rfl := Outcome.ok.inj hok
    exact ⟨account.data, rfl, (TransactionContext.put_self haccount).symm⟩
  | cons index rest ih =>
    intro account haccount hok
    rw [fixups, List.foldlM_cons] at hok
    obtain ⟨middle, hmiddle, hok⟩ := Outcome.bind_eq_ok.mp hok
    simp only [fixupInstructionsSysvar, hfind, haccount] at hmiddle
    obtain ⟨data, hdata, hmiddle⟩ := Outcome.bind_eq_ok.mp hmiddle
    obtain rfl := Outcome.ok.inj hmiddle
    obtain ⟨hlt, -⟩ := List.getElem?_eq_some_iff.mp haccount
    have hkeys : (context.put first key { account with data := data }).accounts.map Prod.fst =
        context.accounts.map Prod.fst := by
      have hkey : (context.accounts.map Prod.fst)[first]? = some key := by
        rw [List.getElem?_map, haccount]
        rfl
      obtain ⟨hlt', hget⟩ := List.getElem?_eq_some_iff.mp hkey
      rw [TransactionContext.put, List.map_set, ← hget, List.set_getElem_self]
    have hfind' : ((context.put first key { account with data := data }).accounts.findIdx?
        fun entry ↦ decide (entry.1 = instructionsId)) = some first := by
      rw [findIdx?_instructionsId, hkeys, ← findIdx?_instructionsId, hfind]
    obtain ⟨last, hlast, rfl⟩ := @ih (context.put first key { account with data := data }) hfind'
      { account with data := data } (by simp [TransactionContext.put, hlt]) hok
    refine ⟨last, ?_, by simp [TransactionContext.put]⟩
    rw [storeIndices, List.foldlM_cons, hdata]
    exact hlast

/-- What the stored indices do to one slot: nothing, unless it is the first that holds the
instructions sysvar. -/
theorem fixups_slot {indices : List ℕ} (hok : fixups sdk context indices = .ok reference) {index : ℕ}
    {key : Pubkey} {old : Account} (hold : context.accounts[index]? = some (key, old)) :
    (reference.accounts[index]? = some (key, old) ∧
        (key = instructionsId → instructionsId ∈ (context.accounts.map Prod.fst).take index)) ∨
      key = instructionsId ∧ instructionsId ∉ (context.accounts.map Prod.fst).take index ∧
        ∃ data, storeIndices sdk old.data indices = .ok data ∧
          reference.accounts[index]? = some (key, { old with data := data }) := by
  cases hfind : context.accounts.findIdx? fun entry ↦ decide (entry.1 = instructionsId) with
  | none =>
    have hne : key ≠ instructionsId := by
      have hall := List.findIdx?_eq_none_iff.mp hfind
      simpa using hall _ (List.mem_of_getElem? hold)
    obtain rfl := Outcome.ok.inj ((fixups_of_none hfind indices).symm.trans hok)
    exact Or.inl ⟨hold, fun heq ↦ absurd heq hne⟩
  | some first =>
    obtain ⟨hlt, hkey, hearlier⟩ := List.findIdx?_eq_some_iff_getElem.mp hfind
    have hkey : context.accounts[first].1 = instructionsId := by simpa using hkey
    have hslot : context.accounts[first]? = some (instructionsId, context.accounts[first].2) := by
      rw [List.getElem?_eq_getElem hlt, ← hkey]
    obtain ⟨data, hdata, rfl⟩ := fixups_of_some hfind hslot hok
    by_cases heq : first = index
    · subst heq
      obtain ⟨rfl, rfl⟩ := Prod.mk.inj (Option.some.inj (hslot.symm.trans hold))
      refine Or.inr ⟨rfl, fun hmem ↦ ?_, data, hdata, by simp [TransactionContext.put, hlt]⟩
      obtain ⟨earlier, hbefore, hget⟩ := List.mem_take_iff_getElem.mp hmem
      have hlt' : earlier < first := by omega
      refine hearlier earlier hlt' ?_
      simpa using hget
    · refine Or.inl ⟨by simp [TransactionContext.put, heq, hold], fun hsysvar ↦ ?_⟩
      have hbefore : first < index := by
        by_contra hnot
        have hlt' : index < first := by omega
        obtain ⟨hindex, hget⟩ := List.getElem?_eq_some_iff.mp hold
        exact hearlier index hlt' (by simp [hget, hsysvar])
      refine List.mem_iff_getElem?.mpr ⟨first, ?_⟩
      rw [List.getElem?_take_of_lt hbefore, List.getElem?_map, hslot]
      rfl

end Sysvar

/-- The account that a message leaves in a slot that lists the instructions sysvar: the one that was
loaded, in the first of these slots with the indices of the instructions stored in it. -/
def sysvarLeft (sdk : Sdk) (bank : PgBank) (message : SanitizedMessage) (index : ℕ) :
    Outcome TransactionError Account :=
  let loaded := loadedAccount sdk bank message instructionsId index
  if instructionsId ∈ message.accountKeys.take index then .ok loaded
  else do
    let data ← storeIndices sdk loaded.data (List.range message.instructions.length)
    .ok { loaded with data := data }

/-- The account that a message leaves in the last slot that lists the instructions sysvar, if one does,
is the one the bank holds. -/
def SysvarKept (sdk : Sdk) (bank : PgBank) (message : SanitizedMessage) : Prop :=
  ∀ index, message.accountKeys[index]? = some instructionsId →
    instructionsId ∉ message.accountKeys.drop (index + 1) →
      sysvarLeft sdk bank message index = .ok (bank.getAccountDefault instructionsId)

section Executing

variable {sdk : Sdk} {bank after : PgBank} {tx : SanitizedTransaction}

/-- The slots of a loaded transaction. -/
theorem getElem?_loadedTx {loadedTx : LoadedTransaction} (hloaded : loadTx sdk bank tx = .ok loadedTx)
    {index : ℕ} {key : Pubkey} (hkey : tx.message.accountKeys[index]? = some key) :
    loadedTx.accounts[index]? = some (key, loadedAccount sdk bank tx.message key index) := by
  obtain ⟨hlt, -⟩ := List.getElem?_eq_some_iff.mp hkey
  rw [← List.getElem?_take_of_lt hlt, (loadTx_accounts hloaded).1, getElem?_loadedAccounts hkey]

/-- What a transaction that executes leaves in a read-only slot: the account the bank holds, and for
the instructions sysvar the account it is left with. -/
theorem executed_readOnly (hsdk : sdk.Lawful) (hbalanced : sdk.Balanced)
    (hwritable : sdk.RespectsWritable) {loaded : List TransactionAccount} {executed : MessageState}
    (hexecuted : loadAndExecuteTx sdk bank tx = .ok (loaded, executed)) {index : ℕ} {key : Pubkey}
    (hkey : tx.message.accountKeys[index]? = some key)
    (hreadOnly : sdk.isWritable tx.message index = false) :
    ∃ account, executed.context.accounts[index]? = some (key, account) ∧
      (key ≠ instructionsId → account = bank.getAccountDefault key) ∧
      (key = instructionsId → sysvarLeft sdk bank tx.message index = .ok account) := by
  obtain ⟨loadedTx, hloaded, hexecuted⟩ := Outcome.bind_eq_ok.mp hexecuted
  obtain ⟨executed', hmessage, hexecuted⟩ := Outcome.bind_eq_ok.mp hexecuted
  obtain ⟨rfl, rfl⟩ := Prod.mk.inj (Outcome.ok.inj hexecuted)
  have hslot := getElem?_loadedTx hloaded hkey
  unfold executeLoadedTx at hmessage
  split at hmessage
  next => cases hmessage
  have hkeys : (loadedTx.accounts.take tx.message.accountKeys.length).map Prod.fst =
      tx.message.accountKeys := by
    rw [(loadTx_accounts hloaded).1, map_fst_loadedAccounts]
  obtain ⟨reference, hreference, hagrees⟩ := processMessage_readOnly hsdk hbalanced hwritable
    (loaded_of_take hkeys) tx.accounts_lt (loadTx_accounts hloaded).2 hmessage
  rw [hagrees.readOnly_eq index (Or.inr hreadOnly)]
  have htake : (loadedTx.accounts.map Prod.fst).take index = tx.message.accountKeys.take index := by
    obtain ⟨hlt, -⟩ := List.getElem?_eq_some_iff.mp hkey
    rw [← hkeys, ← List.map_take, ← List.map_take, List.take_take, Nat.min_eq_left hlt.le]
  rcases fixups_slot hreference hslot with ⟨hkept, hearlier⟩ | ⟨rfl, hfirst, data, hdata, hleft⟩
  · refine ⟨_, hkept, fun hne ↦ by simp [loadedAccount, hne], ?_⟩
    rintro rfl
    have hlisted : instructionsId ∈ tx.message.accountKeys.take index := htake ▸ hearlier rfl
    simp [sysvarLeft, hlisted]
  · have hlisted : instructionsId ∉ tx.message.accountKeys.take index := htake ▸ hfirst
    refine ⟨_, hleft, fun hne ↦ absurd rfl hne, fun _ ↦ ?_⟩
    simp [sysvarLeft, hlisted, hdata]

/-- A slot of what is written back. -/
theorem getElem?_post {executed : MessageState} {index : ℕ} {key : Pubkey}
    (hkey : tx.message.accountKeys[index]? = some key) :
    (executed.context.accounts.take tx.message.accountKeys.length)[index]? =
      executed.context.accounts[index]? := by
  obtain ⟨hlt, -⟩ := List.getElem?_eq_some_iff.mp hkey
  exact List.getElem?_take_of_lt hlt

/-- A read-only address that is not the instructions sysvar reads as before. -/
theorem getAccountDefault_readOnly (hsdk : sdk.Lawful) (hbalanced : sdk.Balanced)
    (hwritable : sdk.RespectsWritable) {loaded : List TransactionAccount} {executed : MessageState}
    (hexecuted : loadAndExecuteTx sdk bank tx = .ok (loaded, executed))
    (hwritten : after.accounts = writeAll bank.accounts
      (executed.context.accounts.take tx.message.accountKeys.length)) {key : Pubkey}
    (hne : key ≠ instructionsId)
    (hreadOnly : ∀ index, tx.message.accountKeys[index]? = some key →
      sdk.isWritable tx.message index = false) :
    after.getAccountDefault key = bank.getAccountDefault key := by
  have hpost := (loadAndExecuteTx_effect hsdk hbalanced hexecuted).1
  unfold getAccountDefault
  rw [hwritten]
  by_cases hlisted : key ∈ tx.message.accountKeys
  · obtain ⟨⟨_, account⟩, hlast, rfl⟩ := List.mem_map.mp (mem_keys_latest.mpr (hpost.symm ▸ hlisted))
    have hlookup := @lookup_writeAll_eq_some _ _ _ bank.accounts _ _ _ |>.mpr (Or.inl hlast)
    rcases mem_of_lookup_writeAll hlookup with hmem | hold
    · obtain ⟨index, hindex⟩ := List.mem_iff_getElem?.mp hmem
      have hkey := congrArg (fun keys ↦ keys[index]?) hpost
      simp only [List.getElem?_map, hindex, Option.map_some] at hkey
      obtain ⟨left, hleft, hbank, -⟩ := executed_readOnly hsdk hbalanced hwritable hexecuted
        hkey.symm (hreadOnly index hkey.symm)
      rw [← getElem?_post hkey.symm, hindex] at hleft
      obtain ⟨-, rfl⟩ := Prod.mk.inj (Option.some.inj hleft)
      rw [hlookup]
      exact hbank hne
    · rw [hlookup, hold]
  · rw [lookup_writeAll_of_notMem (hpost.symm ▸ hlisted)]

/-- The instructions sysvar reads as before exactly if the account left in the last of its slots is
the one the bank holds. -/
theorem getAccountDefault_instructions_iff (hsdk : sdk.Lawful) (hbalanced : sdk.Balanced)
    (hwritable : sdk.RespectsWritable) {loaded : List TransactionAccount} {executed : MessageState}
    (hexecuted : loadAndExecuteTx sdk bank tx = .ok (loaded, executed))
    (hwritten : after.accounts = writeAll bank.accounts
      (executed.context.accounts.take tx.message.accountKeys.length)) :
    after.getAccountDefault instructionsId = bank.getAccountDefault instructionsId ↔
      SysvarKept sdk bank tx.message := by
  have hpost := (loadAndExecuteTx_effect hsdk hbalanced hexecuted).1
  have hlast : ∀ index, tx.message.accountKeys[index]? = some instructionsId →
      instructionsId ∉ tx.message.accountKeys.drop (index + 1) →
        sysvarLeft sdk bank tx.message index = .ok (after.getAccountDefault instructionsId) := by
    intro index hkey hno
    obtain ⟨left, hleft, -, hsysvar⟩ := executed_readOnly hsdk hbalanced hwritable hexecuted hkey
      (hbalanced.isWritable_instructions hkey)
    rw [← getElem?_post hkey] at hleft
    have hlookup := lookup_writeAll_of_getElem? bank.accounts hleft (hpost.symm ▸ hno)
    rw [hsysvar rfl, getAccountDefault, hwritten, hlookup]
  constructor
  · intro hkept index hkey hno
    rw [hlast index hkey hno, hkept]
  · intro hkept
    by_cases hlisted : instructionsId ∈ tx.message.accountKeys
    · obtain ⟨index, hkey, hno⟩ := exists_last_index hlisted
      exact Outcome.ok.inj ((hlast index hkey hno).symm.trans (hkept index hkey hno))
    · rw [getAccountDefault, getAccountDefault, hwritten,
        lookup_writeAll_of_notMem (hpost.symm ▸ hlisted)]

/-- A transaction that is processed with success changes what `get_account_default` returns only for
addresses that its message lists as writable, exactly if the account it leaves for the instructions
sysvar, where its message lists that one, is the account the bank holds. -/
theorem readOnly_kept_iff (hsdk : sdk.Lawful) (hbalanced : sdk.Balanced)
    (hwritable : sdk.RespectsWritable) {signature : Signature}
    (hprocess : processTx sdk bank tx = some (after, .ok signature)) :
    (∀ key, (∀ index, tx.message.accountKeys[index]? = some key →
        sdk.isWritable tx.message index = false) →
      after.getAccountDefault key = bank.getAccountDefault key) ↔
        SysvarKept sdk bank tx.message := by
  obtain ⟨loaded, executed, hexecuted, hwritten⟩ :
      ∃ loaded executed, loadAndExecuteTx sdk bank tx = .ok (loaded, executed) ∧
        after.accounts = writeAll bank.accounts
          (executed.context.accounts.take tx.message.accountKeys.length) := by
    have hprocessed := processed_of_processTx hprocess
    rcases hprocessed.accounts_cases with ⟨⟨error, hfailed⟩, -⟩ | hdone
    · cases hprocessed with
      | unrecorded hexecuted => simp [hfailed] at hexecuted
      | recorded hexecuted => simp [hfailed] at hexecuted
    · exact hdone
  rw [← getAccountDefault_instructions_iff hsdk hbalanced hwritable hexecuted hwritten]
  constructor
  · intro hkept
    exact hkept instructionsId fun index hkey ↦ hbalanced.isWritable_instructions hkey
  · intro hsysvar key hreadOnly
    by_cases hne : key = instructionsId
    · rw [hne, hsysvar]
    · exact getAccountDefault_readOnly hsdk hbalanced hwritable hexecuted hwritten hne hreadOnly

end Executing

/-! ### With the small implementation of the SDK -/

/-- The small implementation of the SDK respects what is writable. -/
theorem referenceSdk_respectsWritable : referenceSdk.RespectsWritable where
  setDataLength_writable hok := (ifWritable_eq_ok.mp hok).1
  setOwner_writable hok := (setOwner_referenceSdk hok).2.1
  setState_writable hok := by cases hok
  processInstruction_writable := by
    intro invoke context instruction index hsystem hok
    change (referenceProcessInstruction invoke context instruction).result = .ok () at hok
    simp [referenceProcessInstruction, hsystem] at hok

/-- A transfer whose message does not list the instructions sysvar leaves the system program, which it
lists as read-only, and every other such address. -/
theorem readOnly_kept_iff_transfer :
    let tx := transferTx [payerKp.pubkey, receiverKey, systemProgramId] (by decide) (by decide)
    let start := new referenceSdk (referenceSerde none) payerKp none
    ∃ after, processTx referenceSdk start tx = some (after, .ok tx.signature) ∧
      after.getAccountDefault systemProgramId = start.getAccountDefault systemProgramId := by
  intro tx start
  have hcompute : (processTx referenceSdk start tx).map Prod.snd = some (.ok tx.signature) := by
    decide +kernel
  obtain ⟨⟨after, result⟩, hprocess, rfl⟩ := Option.map_eq_some_iff.mp hcompute
  refine ⟨after, hprocess, ?_⟩
  have hkept : SysvarKept referenceSdk start tx.message := by
    intro index hkey
    have hmem : instructionsId ∈ tx.message.accountKeys := List.mem_of_getElem? hkey
    exact absurd hmem (by decide)
  refine (readOnly_kept_iff referenceSdk_lawful referenceSdk_balanced referenceSdk_respectsWritable
    hprocess).mpr hkept systemProgramId fun index hkey ↦ ?_
  change referenceIsWritable tx.message index = false
  simp [referenceIsWritable, hkey, reservedKeys]

/-- A transfer whose message lists the instructions sysvar writes the account that was made up for it
to the bank. -/
theorem not_readOnly_kept_of_sysvar :
    ¬ ∀ (tx : SanitizedTransaction) (after : PgBank),
      processTx referenceSdk (new referenceSdk (referenceSerde none) payerKp none) tx =
          some (after, .ok tx.signature) →
        ∀ key, (∀ index, tx.message.accountKeys[index]? = some key →
            referenceSdk.isWritable tx.message index = false) →
          after.getAccountDefault key =
            (new referenceSdk (referenceSerde none) payerKp none).getAccountDefault key := by
  intro hall
  let tx := transferTx [payerKp.pubkey, receiverKey, instructionsId, systemProgramId]
    (by decide) (by decide)
  let start := new referenceSdk (referenceSerde none) payerKp none
  have hcompute : (processTx referenceSdk start tx).map
      (fun outcome ↦ (outcome.2, (outcome.1.getAccountDefault instructionsId).data)) =
        some (.ok tx.signature, [0, 0]) := by decide +kernel
  obtain ⟨⟨after, result⟩, hprocess, hpair⟩ := Option.map_eq_some_iff.mp hcompute
  obtain ⟨rfl, hdata⟩ := Prod.mk.inj hpair
  have hkept := hall tx after hprocess instructionsId fun index hkey ↦
    referenceSdk_balanced.isWritable_instructions hkey
  rw [hkept] at hdata
  exact absurd hdata (by decide +kernel)

end Playground.Playnet
