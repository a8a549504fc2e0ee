import Playground.Playnet.MessageProcessor
import Playground.Playnet.SystemProgramEffects

/-!
# What a message does to the accounts

The instructions of a message are run by the system program, whose effect is known, or by programs
whose code the bank does not have. `Sdk.Balanced` says what is relied on for these: a successful
instruction of theirs neither makes nor destroys lamports, touches only the accounts it names, and
leaves the balance of the accounts it does not name as writable.

`processMessage_effect` carries this through the loop: a message that succeeds keeps the lamports of
its accounts as a whole, and one by one those of the accounts loaded behind the accounts of the message
and of the instructions sysvar, which no message can write to.
-/

set_option autoImplicit false
set_option relaxedAutoImplicit false

namespace Playground.Playnet

open Library

/-! ### Programs -/

/-- The address under which `InvokeContext` looks up a builtin program: that of the first program
account of the instruction, if the native loader owns it, and that of its owner otherwise. -/
def builtinId (context : TransactionContext) (instruction : InstructionContext) : Option Pubkey :=
  match instruction.programAccounts.head?.bind fun index ↦ context.accounts[index]? with
  | none => none
  | some (key, account) => some (if account.owner = nativeLoaderId then key else account.owner)

/-- Whether `InvokeContext` runs an instruction with `process_system_instruction`. -/
def runsSystemProgram (invoke : InvokeContext) (context : TransactionContext)
    (instruction : InstructionContext) : Bool :=
  match builtinId context instruction with
  | none => false
  | some id =>
    match invoke.builtinPrograms.find? fun program ↦ decide (program.programId = id) with
    | none => false
    | some program => decide (program.processInstruction = .system)

/-- What the balance of the bank relies on in the SDK, besides `Sdk.Lawful`. -/
structure Sdk.Balanced (sdk : Sdk) : Prop where
  /-- Instructions of the system program are run by the bank's own code. -/
  processInstruction_system : ∀ {invoke context instruction},
    runsSystemProgram invoke context instruction = true →
      (sdk.processInstruction invoke context instruction).result = .ok () →
        ∃ after, processSystemInstruction sdk invoke context instruction = .ok after ∧
          (sdk.processInstruction invoke context instruction).context.accounts = after.accounts
  /-- Instructions of other programs add and remove no account. -/
  processInstruction_length : ∀ {invoke context instruction},
    runsSystemProgram invoke context instruction = false →
      (sdk.processInstruction invoke context instruction).result = .ok () →
        (sdk.processInstruction invoke context instruction).context.accounts.length =
          context.accounts.length
  /-- Instructions of other programs keep the sum of the lamports. -/
  processInstruction_lamports : ∀ {invoke context instruction},
    runsSystemProgram invoke context instruction = false →
      (sdk.processInstruction invoke context instruction).result = .ok () →
        (sdk.processInstruction invoke context instruction).context.lamports = context.lamports
  /-- Instructions of other programs touch only the accounts they name, and only the balances of
  those they name as writable. -/
  processInstruction_framed : ∀ {invoke context instruction index key old},
    runsSystemProgram invoke context instruction = false →
      (sdk.processInstruction invoke context instruction).result = .ok () →
        context.accounts[index]? = some (key, old) →
          ∃ new, (sdk.processInstruction invoke context instruction).context.accounts[index]? =
              some (key, new) ∧
            Framed instruction Set.univ index old new
  /-- The instructions sysvar is not writable. -/
  isWritable_instructions : ∀ {message : SanitizedMessage} {index : ℕ},
    message.accountKeys[index]? = some instructionsId → sdk.isWritable message index = false
  /-- Compiling a message collects every key once. -/
  newMessageWithBlockhash_nodup : ∀ instructions payer blockhash,
    (sdk.newMessageWithBlockhash instructions payer blockhash).accountKeys.Nodup
  /-- Signing a message does not change it. -/
  signTransaction_message : ∀ {message keypairs tx},
    sdk.signTransaction message keypairs = some tx → tx.message = message
  /-- Sanitizing a transaction does not change its message. -/
  sanitizeTransaction_message : ∀ {versioned tx},
    sdk.sanitizeTransaction versioned = .ok tx → tx.message = versioned.message

/-! ### One instruction -/

section Instruction

variable {sdk : Sdk} {message : SanitizedMessage} {instruction : CompiledInstruction}

/-- An account of an instruction is one that its message lists. -/
theorem mem_instructionAccounts {entry : InstructionAccount}
    (hentry : entry ∈ instructionAccounts sdk message instruction) :
    ∃ index ∈ instruction.accounts, entry.indexInTransaction = index.toNat ∧
      entry.isWritable = sdk.isWritable message index.toNat := by
  obtain ⟨position, hposition, rfl⟩ := List.mem_mapIdx.mp hentry
  exact ⟨_, List.getElem_mem hposition, rfl, rfl⟩

end Instruction

/-- The accounts loaded for a message begin with those of its keys. -/
def Loaded (message : SanitizedMessage) (context : TransactionContext) : Prop :=
  ∀ ⦃index key account⦄, context.accounts[index]? = some (key, account) →
    index < message.accountKeys.length → message.accountKeys[index]? = some key

/-- What a message does to the accounts loaded for it: every key stays, and the lamports stay as a
whole, those of an account loaded behind the accounts of the message, and those of the instructions
sysvar. -/
structure MessageEffect (message : SanitizedMessage) (before after : TransactionContext) : Prop where
  lamports_eq : after.lamports = before.lamports
  length_eq : after.accounts.length = before.accounts.length
  getElem? : ∀ {index key old}, before.accounts[index]? = some (key, old) →
    ∃ new, after.accounts[index]? = some (key, new) ∧
      (message.accountKeys.length ≤ index ∨ key = instructionsId → new.lamports = old.lamports)

section Effect

variable {sdk : Sdk} {message : SanitizedMessage} {before middle after : TransactionContext}

/-- Doing nothing is an effect of a message. -/
theorem MessageEffect.refl : MessageEffect message before before :=
  ⟨rfl, rfl, fun hold ↦ ⟨_, hold, fun _ ↦ rfl⟩⟩

/-- Two effects of a message are one. -/
theorem MessageEffect.trans (hfirst : MessageEffect message before middle)
    (hsecond : MessageEffect message middle after) : MessageEffect message before after where
  lamports_eq := hsecond.lamports_eq.trans hfirst.lamports_eq
  length_eq := hsecond.length_eq.trans hfirst.length_eq
  getElem? hold := by
    obtain ⟨first, hfirst, hkept⟩ := hfirst.getElem? hold
    obtain ⟨second, hsecond, hkept'⟩ := hsecond.getElem? hfirst
    exact ⟨second, hsecond, fun hindex ↦ (hkept' hindex).trans (hkept hindex)⟩

/-- The keys loaded for a message stay in place. -/
theorem MessageEffect.loaded (heffect : MessageEffect message before after)
    (hloaded : Loaded message before) : Loaded message after := by
  intro index key account haccount hlt
  have hindex : index < before.accounts.length :=
    heffect.length_eq ▸ (List.getElem?_eq_some_iff.mp haccount).1
  obtain ⟨⟨oldKey, old⟩, hold⟩ : ∃ entry, before.accounts[index]? = some entry :=
    ⟨_, List.getElem?_eq_getElem hindex⟩
  obtain ⟨new, hnew, -⟩ := heffect.getElem? hold
  obtain ⟨rfl, -⟩ := Prod.mk.inj (Option.some.inj (hnew.symm.trans haccount))
  exact hloaded hold hlt

/-- A change of one account that leaves its balance is an effect of a message. -/
theorem Touched.messageEffect {change : ℕ → Account → Account → Prop}
    (htouched : Touched change before after)
    (hchange : ∀ index old new, change index old new → new.lamports = old.lamports) :
    MessageEffect message before after where
  lamports_eq := by
    simpa using htouched.lamports_add 0 0 fun index old new hnew ↦ by
      rw [hchange index old new hnew]
  length_eq := htouched.length_eq
  getElem? hold := by
    obtain ⟨new, hnew, rfl | hkept⟩ := htouched.getElem? hold
    · exact ⟨new, hnew, fun _ ↦ rfl⟩
    · exact ⟨new, hnew, fun _ ↦ hchange _ _ _ hkept⟩

/-- Telling the instructions sysvar the current index leaves all balances. -/
theorem fixupInstructionsSysvar_effect {instructionIndex : ℕ}
    (hok : fixupInstructionsSysvar sdk before instructionIndex = .ok after) :
    MessageEffect message before after := by
  unfold fixupInstructionsSysvar at hok
  split at hok
  next =>
    obtain rfl := Outcome.ok.inj hok
    exact .refl
  next accountIndex hfind =>
    split at hok
    next => cases hok
    next key account haccount =>
      obtain ⟨data, hdata, hok⟩ := Outcome.bind_eq_ok.mp hok
      obtain rfl := Outcome.ok.inj hok
      have htouched : Touched (fun _ old new ↦ new.lamports = old.lamports) before
          (before.put accountIndex key { account with data := data }) :=
        ⟨accountIndex, key, account, { account with data := data }, haccount, rfl, rfl⟩
      exact htouched.messageEffect fun _ _ _ hlamports ↦ hlamports

/-- The accounts that an instruction leaves framed are an effect of its message. -/
theorem messageEffect_of_framed (hbalanced : sdk.Balanced) {instruction : CompiledInstruction}
    {current : InstructionContext}
    (hcurrent : current.instructionAccounts = instructionAccounts sdk message instruction)
    (haccounts : ∀ index ∈ instruction.accounts, index.toNat < message.accountKeys.length)
    (hloaded : Loaded message before) (hlamports : after.lamports = before.lamports)
    (hlength : after.accounts.length = before.accounts.length)
    (hframed : ∀ {index key old}, before.accounts[index]? = some (key, old) →
      ∃ new, after.accounts[index]? = some (key, new) ∧ Framed current Set.univ index old new) :
    MessageEffect message before after := by
  refine ⟨hlamports, hlength, fun {index key old} hold ↦ ?_⟩
  obtain ⟨new, hnew, hframe⟩ := hframed hold
  refine ⟨new, hnew, ?_⟩
  rintro (hbehind | rfl)
  · refine congrArg Account.lamports (hframe.eq_of_notMem ?_)
    rintro ⟨entry, hentry, rfl⟩
    obtain ⟨index, hindex, hposition, -⟩ := mem_instructionAccounts (hcurrent ▸ hentry)
    have hlt := haccounts index hindex
    omega
  · refine hframe.lamports_eq ?_
    rintro ⟨entry, hentry, rfl, hwritable⟩
    obtain ⟨index, hindex, hposition, hmessage⟩ := mem_instructionAccounts (hcurrent ▸ hentry)
    have hkey := hloaded hold (hposition ▸ haccounts index hindex)
    rw [hposition] at hkey
    rw [hmessage, hbalanced.isWritable_instructions hkey] at hwritable
    cases hwritable

/-- An instruction that a program runs with success has an effect of its message. -/
theorem processInstruction_effect (hsdk : sdk.Lawful) (hbalanced : sdk.Balanced)
    {invoke : InvokeContext} {instruction : CompiledInstruction} {current : InstructionContext}
    (hcurrent : current.instructionAccounts = instructionAccounts sdk message instruction)
    (haccounts : ∀ index ∈ instruction.accounts, index.toNat < message.accountKeys.length)
    (hloaded : Loaded message before)
    (hresult : (sdk.processInstruction invoke before current).result = .ok ()) :
    MessageEffect message before (sdk.processInstruction invoke before current).context := by
  cases hsystem : runsSystemProgram invoke before current with
  | false =>
    exact messageEffect_of_framed hbalanced hcurrent haccounts hloaded
      (hbalanced.processInstruction_lamports hsystem hresult)
      (hbalanced.processInstruction_length hsystem hresult)
      (hbalanced.processInstruction_framed hsystem hresult)
  | true =>
    obtain ⟨after, hprocess, heq⟩ := hbalanced.processInstruction_system hsystem hresult
    have heffect := processSystemInstruction_effect hsdk hprocess
    refine messageEffect_of_framed hbalanced hcurrent haccounts hloaded ?_ ?_ ?_
    · rw [TransactionContext.lamports, heq]
      exact heffect.lamports_eq
    · rw [heq, heffect.length_eq]
    · rw [heq]
      exact heffect.framed

/-- An instruction of a message that succeeds has an effect of the message. -/
theorem processInstructionAt_effect (hsdk : sdk.Lawful) (hbalanced : sdk.Balanced)
    {invoke : InvokeContext} {state result : MessageState}
    {entry : (CompiledInstruction × List ℕ) × ℕ} (hloaded : Loaded message state.context)
    (haccounts : ∀ index ∈ entry.1.1.accounts, index.toNat < message.accountKeys.length)
    (hok : processInstructionAt sdk invoke message state entry = .ok result) :
    MessageEffect message state.context result.context := by
  obtain ⟨⟨instruction, programIndices⟩, instructionIndex⟩ := entry
  simp only [processInstructionAt] at hok
  split at hok
  next => cases hok
  next programId hprogram =>
    obtain ⟨context, hfixup, hok⟩ := Outcome.bind_eq_ok.mp hok
    have hfixed : MessageEffect message state.context context :=
      fixupInstructionsSysvar_effect hfixup
    refine hfixed.trans ?_
    split at hok
    next =>
      obtain ⟨-, -, hok⟩ := Outcome.bind_eq_ok.mp hok
      obtain rfl := Outcome.ok.inj hok
      exact .refl
    next =>
      obtain ⟨_, hresult, hok⟩ := Outcome.bind_eq_ok.mp hok
      rw [Outcome.mapErr_eq_ok] at hresult
      obtain rfl := Outcome.ok.inj hok
      exact processInstruction_effect hsdk hbalanced rfl haccounts (hfixed.loaded hloaded) hresult

/-- A message that succeeds has the effect of one. -/
theorem processMessage_effect (hsdk : sdk.Lawful) (hbalanced : sdk.Balanced)
    {invoke : InvokeContext} {programIndices : List (List ℕ)} {context : TransactionContext}
    {result : MessageState} (hloaded : Loaded message context)
    (haccounts : ∀ instruction ∈ message.instructions, ∀ index ∈ instruction.accounts,
      index.toNat < message.accountKeys.length)
    (hok : processMessage sdk invoke message programIndices context = .ok result) :
    MessageEffect message context result.context := by
  refine Outcome.foldlM_invariant (fun state ↦ MessageEffect message context state.context)
    (fun state entry after hentry hstate hstep ↦ ?_) .refl hok
  refine hstate.trans (processInstructionAt_effect hsdk hbalanced (hstate.loaded hloaded) ?_ hstep)
  obtain ⟨hinstruction, -⟩ := List.of_mem_zip (List.fst_mem_of_mem_zipIdx hentry)
  exact haccounts _ hinstruction

end Effect

end Playground.Playnet
