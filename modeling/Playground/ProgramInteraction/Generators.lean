import Playground.Library.Evaluation
import Playground.Library.Except
import Playground.Library.Grounded
import Playground.Library.Json
import Playground.Library.Runs
import Playground.ProgramInteraction.Storage

/-!
# Generators of the values of an instruction

The arguments and the accounts of an instruction are not kept as values but as generators
(`client/src/utils/pg/program-interaction/generator.ts`). A generator may refer to an argument or to an
account of the instruction by its name, and so may the seeds of an address (`instruction.ts` takes them
from the definition in the IDL). `generateValue` follows the references. It is given fuel here, one unit for
each nested call.

What a generator is changed to is offered by the input of the argument or the account
(`views/sidebar/test/Component/Instruction/InstructionInput.tsx` and `FromSeed.tsx`): any other argument of
an equal type, and any other account where a public key is asked for. Only a direct reference to itself is
left out. Two arguments can refer to each other, an account can be a seed of its own address, and then no
amount of fuel is enough (`not_terminating_of_run`). The values can be generated in every state of a run in
which no account is reached from the seeds of its own definition, and nothing is changed to what leads back
to it (`terminating_of_guarded`).

Not formalized here: the search bar by which an item is chosen, the values that are shown with the items,
the errors of the inputs, the secret key that is kept with a random public key, and the names of accounts
that all objects have as properties. What a seed is encoded to and which address is derived are parameters.
-/

set_option autoImplicit false
set_option relaxedAutoImplicit false

namespace Playground.PgProgramInteraction

open Library

/-! ### Generators -/

/-- `InstructionValueGenerator`. A seed is its type and its generator. -/
inductive Generator
  | custom (value : Str)
  | random (value : Str)
  | currentWallet
  | allWallets (name : Str)
  | fromSeed (seeds : List (IdlType × Generator)) (programId : Generator)
  | currentProgram
  | allPrograms (name : Str)
  | pyth (name : Str)
  | accounts (name : Str)
  | arguments (name : Str)

namespace Generator

section Induction

variable {motive : Generator → Prop} (hplain : ∀ generator : Generator,
    (∀ seeds programId, generator ≠ .fromSeed seeds programId) → motive generator)
  (hfromSeed : ∀ seeds programId, (∀ seed ∈ seeds, motive seed.2) → motive programId →
    motive (.fromSeed seeds programId))

include hplain hfromSeed

mutual

/-- What holds of an address if it holds of its seeds and its program, and of all other generators, holds
of all. -/
theorem inductionOn : ∀ generator : Generator, motive generator
  | .custom value => hplain (.custom value) fun _ _ ↦ nofun
  | .random value => hplain (.random value) fun _ _ ↦ nofun
  | .currentWallet => hplain .currentWallet fun _ _ ↦ nofun
  | .allWallets name => hplain (.allWallets name) fun _ _ ↦ nofun
  | .fromSeed seeds programId =>
    hfromSeed seeds programId (inductionOnSeeds seeds) (inductionOn programId)
  | .currentProgram => hplain .currentProgram fun _ _ ↦ nofun
  | .allPrograms name => hplain (.allPrograms name) fun _ _ ↦ nofun
  | .pyth name => hplain (.pyth name) fun _ _ ↦ nofun
  | .accounts name => hplain (.accounts name) fun _ _ ↦ nofun
  | .arguments name => hplain (.arguments name) fun _ _ ↦ nofun

theorem inductionOnSeeds :
    ∀ seeds : List (IdlType × Generator), ∀ seed ∈ seeds, motive seed.2
  | [] => fun _ hmem ↦ absurd hmem List.not_mem_nil
  | (_, generator) :: rest =>
    List.forall_mem_cons.mpr ⟨inductionOn generator, inductionOnSeeds rest⟩

end

end Induction

/-- What a generator refers to by a name. -/
inductive Reference
  | account (name : Str)
  | argument (name : Str)

/-- A generator refers to something, possibly in its seeds. -/
inductive Mentions : Generator → Reference → Prop
  | accounts (name : Str) : Mentions (.accounts name) (.account name)
  | arguments (name : Str) : Mentions (.arguments name) (.argument name)
  | seed {seeds : List (IdlType × Generator)} {programId : Generator} {seed : IdlType × Generator}
      {reference : Reference} (hmem : seed ∈ seeds) (hmentions : Mentions seed.2 reference) :
      Mentions (.fromSeed seeds programId) reference
  | programId {seeds : List (IdlType × Generator)} {programId : Generator} {reference : Reference}
      (hmentions : Mentions programId reference) : Mentions (.fromSeed seeds programId) reference

/-- The generators that a generator is made of: itself, and those of its seeds and of its program. -/
inductive Part : Generator → Generator → Prop
  | self (generator : Generator) : Part generator generator
  | seed {seeds : List (IdlType × Generator)} {programId part : Generator} {seed : IdlType × Generator}
      (hmem : seed ∈ seeds) (hpart : Part part seed.2) : Part part (.fromSeed seeds programId)
  | programId {seeds : List (IdlType × Generator)} {programId part : Generator}
      (hpart : Part part programId) : Part part (.fromSeed seeds programId)

/-- What a part refers to is referred to. -/
theorem Mentions.of_part {part generator : Generator} {reference : Reference}
    (hpart : Part part generator) (hmentions : Mentions part reference) :
    Mentions generator reference := by
  induction hpart with
  | self => exact hmentions
  | seed hmem _ ih => exact .seed hmem (ih hmentions)
  | programId _ ih => exact .programId (ih hmentions)

end Generator

open Generator

/-- The values of an instruction. -/
abbrev InstructionValues := Values Generator

/-! ### Generating values -/

/-- A known program. -/
structure Program where
  name : Str
  programId : Str
  aliases : List Str

/-- What is thrown: a property of what is missing was accessed, or something else was thrown with a
message. -/
inductive GeneratorError
  | missing
  | thrown (message : Str)

/-- What lies outside of the generators: the wallet, the programs, the feeds, and what seeds are encoded to
and addresses derived from. -/
structure Externals where
  currentWallet : Option Str
  wallets : List (Str × Str)
  currentProgram : Option Str
  programs : List Program
  pyth : Str → Except GeneratorError (Option Str)
  publicKey : Option Str → Except GeneratorError Str
  encode : IdlType → Option Str → Except GeneratorError (List UInt8)
  findProgramAddress : List (List UInt8) → Str → Except GeneratorError Str
  sysvarClock : Str
  sysvarRent : Str

/-- An access to a property of what may be missing. -/
def present {α : Type} : Option α → Evaluation GeneratorError α
  | some value => pure value
  | none => Evaluation.ofExcept (.error .missing)

/-- The buffers of the seeds, from a way to generate their values. -/
def seedBuffers (externals : Externals) (generate : Generator → Evaluation GeneratorError (Option Str))
    (seeds : List (IdlType × Generator)) : Evaluation GeneratorError (List (List UInt8)) :=
  seeds.mapM fun seed ↦ do
    let value ← generate seed.2
    Evaluation.ofExcept (externals.encode seed.1 value)

/-- `generateProgramAddressFromSeeds`, from a way to generate values. -/
def generateProgramAddressFromSeeds (externals : Externals)
    (generate : Generator → Evaluation GeneratorError (Option Str))
    (seeds : List (IdlType × Generator)) (programId : Option Str) :
    Evaluation GeneratorError (Option Str) := do
  let key ← Evaluation.ofExcept (externals.publicKey programId)
  let buffers ← seedBuffers externals generate seeds
  let address ← Evaluation.ofExcept (externals.findProgramAddress buffers key)
  pure (some address)

/-- `generateValue`. -/
def generateValue (externals : Externals) (values : InstructionValues) :
    ℕ → Generator → Evaluation GeneratorError (Option Str)
  | 0, _ => Evaluation.unfinished
  | _ + 1, .custom value => pure (some value)
  | _ + 1, .random value => pure (some value)
  | _ + 1, .currentWallet => do
    let key ← present externals.currentWallet
    pure (some key)
  | _ + 1, .allWallets name => do
    let walletAcc ← present (externals.wallets.find? fun acc ↦ acc.1 = name)
    pure (some walletAcc.2)
  | fuel + 1, .fromSeed seeds programId => do
    let key ← generateValue externals values fuel programId
    generateProgramAddressFromSeeds externals (generateValue externals values fuel) seeds key
  | _ + 1, .currentProgram => pure externals.currentProgram
  | _ + 1, .allPrograms name => do
    let program ← present (externals.programs.find? fun program ↦ program.name = name)
    pure (some program.programId)
  | _ + 1, .pyth name => Evaluation.ofExcept (externals.pyth name)
  | fuel + 1, .accounts name => do
    let accRef ← present (values.accounts.find? fun acc ↦ acc.name = name)
    generateValue externals values fuel accRef.generator
  | fuel + 1, .arguments name => do
    let argRef ← present (values.args.find? fun arg ↦ arg.name = name)
    generateValue externals values fuel argRef.generator

/-! ### The items of an instruction -/

/-- An argument or an account of an instruction by its place. -/
inductive Item
  | account (index : ℕ)
  | argument (index : ℕ)
  deriving DecidableEq

namespace InstructionValues

/-- The generator of an item. -/
def generatorOf (values : InstructionValues) : Item → Option Generator
  | .account index => values.accounts[index]?.map SavedAccount.generator
  | .argument index => values.args[index]?.map SavedArg.generator

/-- The item that is found by a name. -/
def resolve (values : InstructionValues) : Reference → Option Item
  | .account name => (values.accounts.findIdx? fun acc ↦ acc.name = name).map .account
  | .argument name => (values.args.findIdx? fun arg ↦ arg.name = name).map .argument

/-- A generator refers to an item. -/
def Leads (values : InstructionValues) (generator : Generator) (target : Item) : Prop :=
  ∃ reference, Mentions generator reference ∧ values.resolve reference = some target

/-- An item refers to an item. -/
def RefersTo (values : InstructionValues) (source target : Item) : Prop :=
  ∃ generator, values.generatorOf source = some generator ∧ values.Leads generator target

/-- The values with another generator of an item. -/
def setGenerator (values : InstructionValues) (item : Item) (generator : Generator) :
    InstructionValues :=
  match item with
  | .account index =>
    { values with accounts := values.accounts.modify index fun acc ↦ { acc with generator } }
  | .argument index =>
    { values with args := values.args.modify index fun arg ↦ { arg with generator } }

end InstructionValues

open InstructionValues

/-! ### Creating an instruction -/

/-- A derivation seed of the definition of an account. -/
inductive PdaSeed
  | const (type : IdlType) (value : Str)
  | arg (type : IdlType) (path : Str)
  | account (type : IdlType) (path : Str)
  | other (kind : Str)

/-- An account of an instruction in the IDL, possibly with the seeds of its address. -/
structure PdaAccount extends IdlAccount where
  pda : Option (List PdaSeed)

/-- An instruction of the IDL with the seeds of the addresses of its accounts. -/
structure PdaInstruction where
  name : Str
  accounts : List PdaAccount
  args : List IdlArg

/-- The seed with its generator. -/
def createSeed : PdaSeed → Except GeneratorError (IdlType × Generator)
  | .const type value => pure (type, .custom value)
  | .arg type path => pure (type, .arguments path)
  | .account type path => pure (type, .accounts path)
  | .other kind =>
    throw (.thrown ("Unknown seed kind: \x60".toList ++ kind ++ "\x60".toList))

/-- `COMMON_WALLET_ACCOUNT_NAMES`. -/
def commonWalletAccountNames : List Str :=
  ["authority".toList, "owner".toList, "payer".toList, "signer".toList]

/-- `getKnownAccountKey`. -/
def getKnownAccountKey (externals : Externals) (name : Str) : Option Str :=
  if name = "clock".toList then some externals.sysvarClock
  else if name = "rent".toList then some externals.sysvarRent
  else none

/-- `createAccountGenerator`. -/
def createAccountGenerator (externals : Externals) (acc : PdaAccount) :
    Except GeneratorError Generator :=
  match acc.pda with
  | some seeds => do
    let seeds ← seeds.mapM createSeed
    pure (.fromSeed seeds .currentProgram)
  | none =>
    if acc.isSigner ∧ acc.name ∈ commonWalletAccountNames then pure .currentWallet
    else
      match externals.programs.find? fun program ↦ acc.name ∈ program.aliases with
      | some knownProgram => pure (.allPrograms knownProgram.name)
      | none => pure (.custom ((getKnownAccountKey externals acc.name).getD []))

/-- The account with its generator. -/
def createAccount (externals : Externals) (acc : PdaAccount) :
    Except GeneratorError (SavedAccount Generator) := do
  let generator ← createAccountGenerator externals acc
  pure { acc.toIdlAccount with generator }

/-- `createGeneratableInstruction`. -/
def createGeneratableInstruction (externals : Externals) (ix : PdaInstruction) :
    Except GeneratorError InstructionValues := do
  let accounts ← ix.accounts.mapM (createAccount externals)
  let args := ix.args.map fun arg ↦ { arg with generator := Generator.custom [] }
  pure { programId := .currentProgram, accounts, args }

/-! ### Changes -/

/-- What an input is given of its argument, account or seed. -/
structure Input where
  name : Str
  type : IdlType
  isMut : Bool
  isSigner : Bool

/-- `"publicKey"`. -/
def publicKeyType : IdlType :=
  .primitive "publicKey".toList

/-- The input of an item. -/
def InstructionValues.input (values : InstructionValues) : Item → Option Input
  | .account index => values.accounts[index]?.map fun acc ↦
    { name := acc.name, type := publicKeyType, isMut := acc.isMut, isSigner := acc.isSigner }
  | .argument index => values.args[index]?.map fun arg ↦
    { name := arg.name, type := arg.type, isMut := false, isSigner := false }

/-- `displayType` of `getIdlType`. -/
def displayType : IdlType → Str
  | .primitive name => name
  | .defined name => name
  | .option inner => "Option<".toList ++ displayType inner ++ ['>']
  | .coption inner => "COption<".toList ++ displayType inner ++ ['>']
  | .vec inner => "Vec<".toList ++ displayType inner ++ ['>']
  | .array inner length =>
    ['['] ++ displayType inner ++ "; ".toList ++ Json.printNumber length ++ [']']

/-- The input asks for a public key. -/
def Input.IsPublicKey (input : Input) : Prop :=
  displayType input.type = "publicKey".toList

/-- The account of the input is neither mutable nor a signer. -/
def Input.IsReadOnly (input : Input) : Prop :=
  ¬ (input.isMut ∨ input.isSigner)

/-- The types of which a seed can be added. -/
def seedTypes : List IdlType :=
  ["string", "publicKey", "bytes", "u8", "u16", "u32", "u64", "u128", "i8", "i16", "i32", "i64",
    "i128"].map fun name ↦ .primitive name.toList

/-- The seeds with which `FromSeed` starts: those that the account of the name already has. -/
def restoredSeeds (values : InstructionValues) (name : Str) : List (IdlType × Generator) :=
  match values.accounts.find? fun acc ↦ acc.name = name with
  | some acc =>
    match acc.generator with
    | .fromSeed seeds _ => seeds
    | _ => []
  | none => []

/-- The generators that can be chosen in an input (`getSearchBarProps` and `createGenerator`). The name of
the input of a seed is the index of the seed. -/
inductive Offered (externals : Externals) (values : InstructionValues) : Input → Generator → Prop
  | custom (input : Input) (value : Str) : Offered externals values input (.custom value)
  | random (input : Input) (value : Str) : Offered externals values input (.random value)
  | currentWallet {input : Input} (hkey : input.IsPublicKey)
      (hwallet : externals.currentWallet.isSome) : Offered externals values input .currentWallet
  | allWallets {input : Input} {name : Str} (hkey : input.IsPublicKey)
      (hwallet : externals.currentWallet.isSome) (hmany : 1 < externals.wallets.length)
      (hname : name ∈ externals.wallets.map Prod.fst) :
      Offered externals values input (.allWallets name)
  | fromSeed {input : Input} {seeds : List (IdlType × Generator)} {programId : Generator}
      (index : IdlType × Generator → ℕ) (hkey : input.IsPublicKey)
      (htypes : ∀ seed ∈ seeds, seed.1 ∈ seedTypes ++ (restoredSeeds values input.name).map Prod.fst)
      (hseeds : ∀ seed ∈ seeds, seed ∉ restoredSeeds values input.name →
        Offered externals values
          { name := Json.printNumber (index seed), type := seed.1, isMut := false, isSigner := false }
          seed.2)
      (hprogram : programId = values.programId ∨ programId = .currentProgram ∨
        ∃ value, programId = .custom value) :
      Offered externals values input (.fromSeed seeds programId)
  | allPrograms {input : Input} {name : Str} (hkey : input.IsPublicKey) (hreadOnly : input.IsReadOnly)
      (hname : name ∈ externals.programs.map Program.name) :
      Offered externals values input (.allPrograms name)
  | pyth {input : Input} {name key : Str} (hkey : input.IsPublicKey) (hreadOnly : input.IsReadOnly)
      (hname : externals.pyth name = .ok (some key)) :
      Offered externals values input (.pyth name)
  | arguments {input : Input} {arg : SavedArg Generator} (hmem : arg ∈ values.args)
      (hname : arg.name ≠ input.name) (htype : isEqual arg.type.toJs input.type.toJs = true) :
      Offered externals values input (.arguments arg.name)
  | accounts {input : Input} {acc : SavedAccount Generator} (hmem : acc ∈ values.accounts)
      (hname : acc.name ≠ input.name) (htype : input.type = publicKeyType) :
      Offered externals values input (.accounts acc.name)

/-- The generator with which `fillRandom` replaces another one. -/
def fillGenerator (value : Str) : Generator → Generator
  | .custom [] => .random value
  | generator => generator

/-- `fillRandom`, from the random values for the items. -/
def fillRandom (random : Item → Str) (values : InstructionValues) : InstructionValues :=
  { values with
    accounts := values.accounts.mapIdx fun index acc ↦
      { acc with generator := fillGenerator (random (.account index)) acc.generator }
    args := values.args.mapIdx fun index arg ↦
      { arg with generator := fillGenerator (random (.argument index)) arg.generator } }

/-- What is done with an instruction: a generator is chosen, `Fill` or `Reset`. -/
inductive Change
  | select (externals : Externals) (item : Item) (generator : Generator)
  | fill (random : Item → Str)
  | reset (externals : Externals)

/-- A change takes the values of an instruction to others. -/
inductive Step (ix : PdaInstruction) : InstructionValues → Change → InstructionValues → Prop
  | select {externals : Externals} {values : InstructionValues} {item : Item} {input : Input}
      {generator : Generator} (hinput : values.input item = some input)
      (hoffered : Offered externals values input generator) :
      Step ix values (.select externals item generator) (values.setGenerator item generator)
  | fill (random : Item → Str) (values : InstructionValues) :
      Step ix values (.fill random) (fillRandom random values)
  | reset {externals : Externals} {values created : InstructionValues}
      (hcreate : createGeneratableInstruction externals ix = .ok created) :
      Step ix values (.reset externals) created

/-! ### Termination -/

/-- The value of a generator is generated, or something is thrown. -/
def Terminates (externals : Externals) (values : InstructionValues) (generator : Generator) : Prop :=
  Evaluation.Ends fun fuel ↦ generateValue externals values fuel generator

/-- Whatever the wallet and the programs are, the values of all generators, and of those of all seeds, are
generated. -/
def Terminating (values : InstructionValues) : Prop :=
  ∀ externals item generator part, values.generatorOf item = some generator →
    Part part generator → Terminates externals values part

section Termination

variable {externals : Externals} {values : InstructionValues} {generator : Generator}

/-- The buffers of the seeds grow with the values. -/
theorem extends_seedBuffers {generate later : Generator → Evaluation GeneratorError (Option Str)}
    (hextends : ∀ generator, Evaluation.Extends (generate generator) (later generator))
    (seeds : List (IdlType × Generator)) :
    Evaluation.Extends (seedBuffers externals generate seeds) (seedBuffers externals later seeds) :=
  Evaluation.Extends.mapM fun seed _ ↦
    Evaluation.Extends.bind (hextends seed.2) fun _ ↦ Evaluation.Extends.refl _

/-- More fuel changes nothing once a value has been generated. -/
theorem growing_generateValue (externals : Externals) (values : InstructionValues)
    (generator : Generator) :
    Evaluation.Growing fun fuel ↦ generateValue externals values fuel generator := by
  intro fuel
  induction fuel generalizing generator with
  | zero => exact fun hfinished ↦ absurd hfinished Evaluation.not_finished_unfinished
  | succ fuel ih =>
    cases generator with
    | fromSeed seeds programId =>
      refine Evaluation.Extends.bind (ih programId) fun key ↦ ?_
      refine Evaluation.Extends.bind (.refl _) fun _ ↦ ?_
      exact Evaluation.Extends.bind (extends_seedBuffers ih seeds) fun _ ↦ .refl _
    | accounts name => exact Evaluation.Extends.bind (.refl _) fun accRef ↦ ih accRef.generator
    | arguments name => exact Evaluation.Extends.bind (.refl _) fun argRef ↦ ih argRef.generator
    | _ => exact Evaluation.Extends.refl _

theorem finished_present {α : Type} (value : Option α) : Evaluation.Finished (present value) := by
  cases value with
  | none => exact Evaluation.finished_ofExcept _
  | some value => exact Evaluation.finished_pure value

/-- What follows a lookup ends if it ends for what is found. -/
theorem ends_present_bind {α β : Type} {value : Option α}
    {next : ℕ → α → Evaluation GeneratorError β}
    (hends : ∀ found, value = some found → Evaluation.Ends fun fuel ↦ next fuel found) :
    Evaluation.Ends fun fuel ↦ present value >>= next fuel := by
  cases value with
  | none => exact ⟨0, Evaluation.finished_ofExcept _⟩
  | some found => exact hends found rfl

/-- An address is generated if its seeds and its program are. -/
theorem Terminates.fromSeed {seeds : List (IdlType × Generator)} {programId : Generator}
    (hseeds : ∀ seed ∈ seeds, Terminates externals values seed.2)
    (hprogram : Terminates externals values programId) :
    Terminates externals values (.fromSeed seeds programId) := by
  have hgrowing := growing_generateValue externals values
  have hbuffers : ∀ seed ∈ seeds, Evaluation.Growing fun fuel ↦
      generateValue externals values fuel seed.2 >>= fun value ↦
        Evaluation.ofExcept (externals.encode seed.1 value) :=
    fun seed _ ↦ (hgrowing seed.2).bind fun _ ↦ .const _
  have hends : Evaluation.Ends fun fuel ↦
      seedBuffers externals (generateValue externals values fuel) seeds :=
    .mapM hbuffers fun seed hseed ↦ .bind (hgrowing seed.2) (fun _ ↦ .const _) (hseeds seed hseed)
      fun _ ↦ .const (Evaluation.finished_ofExcept _)
  refine Evaluation.Ends.of_succ (.bind (hgrowing programId) (fun key ↦ ?_) hprogram fun key ↦ ?_)
    fun _ ↦ rfl
  · exact (Evaluation.Growing.const _).bind fun _ ↦ (Evaluation.Growing.mapM hbuffers).bind fun _ ↦ .const _
  · refine .bind (.const _) (fun _ ↦ (Evaluation.Growing.mapM hbuffers).bind fun _ ↦ .const _)
      (.const (Evaluation.finished_ofExcept _)) fun _ ↦ ?_
    exact .bind (.mapM hbuffers) (fun _ ↦ .const _) hends fun _ ↦
      .const (Evaluation.finished_bind_iff.mpr
        ⟨Evaluation.finished_ofExcept _, fun _ _ ↦ Evaluation.finished_pure _⟩)

/-- What a reference to an account finds is the generator of the item to which it is resolved. -/
theorem generatorOf_resolve_account {name : Str} {acc : SavedAccount Generator}
    (hfind : values.accounts.find? (fun acc ↦ acc.name = name) = some acc) :
    ∃ item, values.resolve (.account name) = some item ∧
      values.generatorOf item = some acc.generator := by
  rw [List.find?_eq_bind_findIdx?_getElem?] at hfind
  obtain ⟨index, hindex, hacc⟩ := Option.bind_eq_some_iff.mp hfind
  refine ⟨.account index, congrArg (Option.map Item.account) hindex, ?_⟩
  rw [generatorOf, hacc]
  rfl

theorem generatorOf_resolve_argument {name : Str} {arg : SavedArg Generator}
    (hfind : values.args.find? (fun arg ↦ arg.name = name) = some arg) :
    ∃ item, values.resolve (.argument name) = some item ∧
      values.generatorOf item = some arg.generator := by
  rw [List.find?_eq_bind_findIdx?_getElem?] at hfind
  obtain ⟨index, hindex, harg⟩ := Option.bind_eq_some_iff.mp hfind
  refine ⟨.argument index, congrArg (Option.map Item.argument) hindex, ?_⟩
  rw [generatorOf, harg]
  rfl

/-- A value is generated if those of all items are to which the generator leads. -/
theorem terminates_of_leads (generator : Generator)
    (hitems : ∀ target found, values.Leads generator target →
      values.generatorOf target = some found → Terminates externals values found) :
    Terminates externals values generator := by
  induction generator using Generator.inductionOn with
  | hplain generator hplain =>
    cases generator with
    | fromSeed seeds programId => exact absurd rfl (hplain seeds programId)
    | accounts name =>
      refine Evaluation.Ends.of_succ (ends_present_bind fun accRef hfind ↦ ?_) fun _ ↦ rfl
      obtain ⟨item, hresolve, hfound⟩ := generatorOf_resolve_account hfind
      exact hitems item accRef.generator ⟨_, .accounts name, hresolve⟩ hfound
    | arguments name =>
      refine Evaluation.Ends.of_succ (ends_present_bind fun argRef hfind ↦ ?_) fun _ ↦ rfl
      obtain ⟨item, hresolve, hfound⟩ := generatorOf_resolve_argument hfind
      exact hitems item argRef.generator ⟨_, .arguments name, hresolve⟩ hfound
    | custom value => exact ⟨1, Evaluation.finished_pure _⟩
    | random value => exact ⟨1, Evaluation.finished_pure _⟩
    | currentProgram => exact ⟨1, Evaluation.finished_pure _⟩
    | pyth name => exact ⟨1, Evaluation.finished_ofExcept _⟩
    | currentWallet =>
      exact ⟨1, Evaluation.finished_bind_iff.mpr
        ⟨finished_present _, fun _ _ ↦ Evaluation.finished_pure _⟩⟩
    | allWallets name =>
      exact ⟨1, Evaluation.finished_bind_iff.mpr
        ⟨finished_present _, fun _ _ ↦ Evaluation.finished_pure _⟩⟩
    | allPrograms name =>
      exact ⟨1, Evaluation.finished_bind_iff.mpr
        ⟨finished_present _, fun _ _ ↦ Evaluation.finished_pure _⟩⟩
  | hfromSeed seeds programId hseeds hprogram =>
    refine Terminates.fromSeed (fun seed hmem ↦ hseeds seed hmem ?_) (hprogram ?_)
    · intro target found hleads
      obtain ⟨reference, hmentions, hresolve⟩ := hleads
      exact hitems target found ⟨reference, .seed hmem hmentions, hresolve⟩
    · intro target found hleads
      obtain ⟨reference, hmentions, hresolve⟩ := hleads
      exact hitems target found ⟨reference, .programId hmentions, hresolve⟩

/-- If the references come to an end, all values are generated. -/
theorem terminating_of_grounded (hgrounded : Grounded values.RefersTo) : Terminating values := by
  intro externals item
  refine hgrounded.induction (motive := fun item ↦ ∀ generator part,
    values.generatorOf item = some generator → Part part generator → Terminates externals values part)
    (fun source ih generator part hgenerator hpart ↦ ?_) item
  refine terminates_of_leads part fun target found hleads hfound ↦ ?_
  obtain ⟨reference, hmentions, hresolve⟩ := hleads
  have hrefers : values.RefersTo source target :=
    ⟨generator, hgenerator, reference, hmentions.of_part hpart, hresolve⟩
  exact ih target hrefers found found hfound (.self found)

end Termination

/-! ### The references of the created instruction -/

/-- A seed of an account refers to an account. -/
def SeedRefers (ix : PdaInstruction) (source target : ℕ) : Prop :=
  ∃ acc seeds type path, ix.accounts[source]? = some acc ∧ acc.pda = some seeds ∧
    PdaSeed.account type path ∈ seeds ∧
    ix.accounts.findIdx? (fun acc ↦ acc.name = path) = some target

/-- No account is reached from the seeds of its own definition. -/
def AcyclicSeeds (ix : PdaInstruction) : Prop :=
  ∀ index, ¬ Relation.TransGen (SeedRefers ix) index index

section Creation

variable {externals : Externals} {ix : PdaInstruction} {values : InstructionValues}

/-- What a created seed refers to is what its definition names. -/
theorem mentions_createSeed {seed : PdaSeed} {created : IdlType × Generator} {reference : Reference}
    (hcreate : createSeed seed = .ok created) (hmentions : Mentions created.2 reference) :
    (∃ type path, seed = .arg type path ∧ reference = .argument path) ∨
      ∃ type path, seed = .account type path ∧ reference = .account path := by
  cases seed with
  | other kind => cases hcreate
  | const type value =>
    obtain rfl := Except.ok.inj hcreate
    cases hmentions
  | arg type path =>
    obtain rfl := Except.ok.inj hcreate
    cases hmentions
    exact .inl ⟨type, path, rfl, rfl⟩
  | account type path =>
    obtain rfl := Except.ok.inj hcreate
    cases hmentions
    exact .inr ⟨type, path, rfl, rfl⟩

/-- A created account refers to what the seeds of its definition name. -/
theorem mentions_createAccountGenerator {acc : PdaAccount} {generator : Generator}
    {reference : Reference} (hcreate : createAccountGenerator externals acc = .ok generator)
    (hmentions : Mentions generator reference) : ∃ seeds, acc.pda = some seeds ∧
      ((∃ type path, .arg type path ∈ seeds ∧ reference = .argument path) ∨
        ∃ type path, .account type path ∈ seeds ∧ reference = .account path) := by
  unfold createAccountGenerator at hcreate
  split at hcreate
  · next seeds hpda =>
    obtain ⟨created, hseeds, hgenerator⟩ := Except.bind_eq_ok.mp hcreate
    obtain rfl := Except.ok.inj hgenerator
    refine ⟨seeds, hpda, ?_⟩
    cases hmentions with
    | programId hmentions => cases hmentions
    | @seed _ _ createdSeed _ hmem hmentions =>
      obtain ⟨seed, hseed, hof⟩ := Except.exists_of_mem_mapM hseeds hmem
      rcases mentions_createSeed hof hmentions with ⟨type, path, rfl, heq⟩ | ⟨type, path, rfl, heq⟩
      · exact .inl ⟨type, path, hseed, heq⟩
      · exact .inr ⟨type, path, hseed, heq⟩
  · next =>
    split at hcreate
    · next =>
      obtain rfl := Except.ok.inj hcreate
      cases hmentions
    · next =>
      split at hcreate
      · next =>
        obtain rfl := Except.ok.inj hcreate
        cases hmentions
      · next =>
        obtain rfl := Except.ok.inj hcreate
        cases hmentions

/-- The created accounts are those of the IDL in their order, each with its generator. -/
theorem accounts_of_create (hcreate : createGeneratableInstruction externals ix = .ok values) :
    List.Forall₂ (fun acc created ↦ created.name = acc.name ∧
      createAccountGenerator externals acc = .ok created.generator) ix.accounts values.accounts := by
  obtain ⟨accounts, haccounts, hvalues⟩ := Except.bind_eq_ok.mp hcreate
  obtain rfl := Except.ok.inj hvalues
  refine (Except.mapM_eq_ok.mp haccounts).imp fun acc created hacc ↦ ?_
  obtain ⟨generator, hgenerator, hcreated⟩ := Except.bind_eq_ok.mp hacc
  obtain rfl := Except.ok.inj hcreated
  exact ⟨rfl, hgenerator⟩

/-- The created arguments are empty. -/
theorem generatorOf_argument_of_create
    (hcreate : createGeneratableInstruction externals ix = .ok values) {index : ℕ}
    {generator : Generator} (hgenerator : values.generatorOf (.argument index) = some generator) :
    generator = .custom [] := by
  obtain ⟨accounts, _, hvalues⟩ := Except.bind_eq_ok.mp hcreate
  obtain rfl := Except.ok.inj hvalues
  obtain ⟨arg, harg, rfl⟩ := Option.map_eq_some_iff.mp hgenerator
  obtain ⟨idlArg, _, rfl⟩ := List.mem_map.mp (List.mem_of_getElem? harg)
  rfl

/-- The names of the created accounts are found where those of the IDL are. -/
theorem findIdx?_of_create (hcreate : createGeneratableInstruction externals ix = .ok values)
    (name : Str) : values.accounts.findIdx? (fun acc ↦ acc.name = name) =
      ix.accounts.findIdx? fun acc ↦ acc.name = name := by
  have haccounts := accounts_of_create hcreate
  generalize values.accounts = created, ix.accounts = accounts at haccounts
  induction haccounts with
  | nil => rfl
  | cons hacc _ ih => rw [List.findIdx?_cons, List.findIdx?_cons, hacc.1, ih]

/-- A created account refers to the accounts to which its seeds do, and to arguments. -/
theorem refersTo_of_create (hcreate : createGeneratableInstruction externals ix = .ok values)
    {source target : Item} (hrefers : values.RefersTo source target) : ∃ first, source = .account first ∧
      ((∃ second, target = .argument second) ∨
        ∃ second, target = .account second ∧ SeedRefers ix first second) := by
  obtain ⟨generator, hgenerator, reference, hmentions, hresolve⟩ := hrefers
  cases source with
  | argument index =>
    obtain rfl := generatorOf_argument_of_create hcreate hgenerator
    cases hmentions
  | account index =>
    refine ⟨index, rfl, ?_⟩
    obtain ⟨saved, hsaved, rfl⟩ := Option.map_eq_some_iff.mp hgenerator
    obtain ⟨hlength, hget⟩ := List.forall₂_iff_get.mp (accounts_of_create hcreate)
    obtain ⟨hindex, rfl⟩ := List.getElem?_eq_some_iff.mp hsaved
    obtain ⟨-, hof⟩ := hget index (hlength ▸ hindex) hindex
    obtain ⟨seeds, hpda, hseeds⟩ := mentions_createAccountGenerator hof hmentions
    rcases hseeds with ⟨type, path, hseed, rfl⟩ | ⟨type, path, hseed, rfl⟩
    · obtain ⟨second, _, htarget⟩ := Option.map_eq_some_iff.mp hresolve
      exact .inl ⟨second, htarget.symm⟩
    · obtain ⟨second, hsecond, htarget⟩ := Option.map_eq_some_iff.mp hresolve
      rw [findIdx?_of_create hcreate] at hsecond
      exact .inr ⟨second, htarget.symm, _, seeds, type, path,
        List.getElem?_eq_getElem (hlength ▸ hindex), hpda, hseed, hsecond⟩

/-- The references of a created instruction come to an end. -/
theorem grounded_of_create (hcreate : createGeneratableInstruction externals ix = .ok values)
    (hacyclic : AcyclicSeeds ix) : Grounded values.RefersTo := by
  have hseeds : Grounded (SeedRefers ix) := by
    refine (grounded_iff_acyclic (Set.finite_Iio ix.accounts.length) ?_).mpr hacyclic
    rintro source target ⟨_, _, _, _, _, _, _, hfind⟩
    obtain ⟨hlt, -⟩ := List.findIdx?_eq_some_iff_getElem.mp hfind
    exact hlt
  have hargument : ∀ index, Acc (fun target source ↦ values.RefersTo source target) (.argument index) := by
    refine fun index ↦ Acc.intro _ fun target htarget ↦ ?_
    obtain ⟨first, heq, -⟩ := refersTo_of_create hcreate htarget
    cases heq
  have haccount : ∀ index, Acc (fun target source ↦ values.RefersTo source target) (.account index) := by
    refine hseeds.induction fun source ih ↦ Acc.intro _ fun target htarget ↦ ?_
    obtain ⟨first, heq, hsecond⟩ := refersTo_of_create hcreate htarget
    cases heq
    rcases hsecond with ⟨second, rfl⟩ | ⟨second, rfl, hrefers⟩
    · exact hargument second
    · exact ih second hrefers
  refine ⟨fun item ↦ ?_⟩
  cases item with
  | account index => exact haccount index
  | argument index => exact hargument index

end Creation

/-! ### Changes keep the references grounded -/

section Changes

variable {values : InstructionValues}

/-- A list in which one entry is changed has the same names. -/
theorem map_modify_eq {α β : Type} {name : α → β} {change : α → α}
    (hkeep : ∀ entry, name (change entry) = name entry) (entries : List α) (index : ℕ) :
    (entries.modify index change).map name = entries.map name := by
  ext1 place
  rw [List.getElem?_map, List.getElem?_map, List.getElem?_modify]
  cases entries[place]? with
  | none => rfl
  | some entry =>
    by_cases hindex : index = place
    · simp [hindex, hkeep]
    · simp [hindex]

/-- Names are resolved alike if the names are the same. -/
theorem resolve_eq_of_names {other : InstructionValues}
    (haccounts : other.accounts.map (fun acc ↦ acc.name) = values.accounts.map fun acc ↦ acc.name)
    (hargs : other.args.map (fun arg ↦ arg.name) = values.args.map fun arg ↦ arg.name)
    (reference : Reference) : other.resolve reference = values.resolve reference := by
  cases reference with
  | account name =>
    have hfind := congrArg (List.findIdx? fun entry ↦ decide (entry = name)) haccounts
    rw [List.findIdx?_map, List.findIdx?_map] at hfind
    exact congrArg (Option.map Item.account) hfind
  | argument name =>
    have hfind := congrArg (List.findIdx? fun entry ↦ decide (entry = name)) hargs
    rw [List.findIdx?_map, List.findIdx?_map] at hfind
    exact congrArg (Option.map Item.argument) hfind

theorem resolve_setGenerator (item : Item) (generator : Generator) (reference : Reference) :
    (values.setGenerator item generator).resolve reference = values.resolve reference := by
  cases item with
  | account index =>
    refine resolve_eq_of_names ?_ ?_ reference
    · show (values.accounts.modify index fun acc ↦ { acc with generator }).map _ = _
      refine map_modify_eq (fun acc ↦ ?_) values.accounts index
      rfl
    · rfl
  | argument index =>
    refine resolve_eq_of_names ?_ ?_ reference
    · rfl
    · show (values.args.modify index fun arg ↦ { arg with generator }).map _ = _
      refine map_modify_eq (fun arg ↦ ?_) values.args index
      rfl

/-- The generators of the other items are kept. -/
theorem generatorOf_setGenerator_of_ne {item other : Item} (hne : other ≠ item)
    (generator : Generator) :
    (values.setGenerator item generator).generatorOf other = values.generatorOf other := by
  cases item with
  | account index =>
    cases other with
    | argument place => rfl
    | account place =>
      have hplace : index ≠ place := fun heq ↦ hne (heq ▸ rfl)
      simp [setGenerator, generatorOf, hplace]
  | argument index =>
    cases other with
    | account place => rfl
    | argument place =>
      have hplace : index ≠ place := fun heq ↦ hne (heq ▸ rfl)
      simp [setGenerator, generatorOf, hplace]

/-- The item has the generator to which it is set. -/
theorem eq_of_generatorOf_setGenerator {item : Item} {generator found : Generator}
    (hfound : (values.setGenerator item generator).generatorOf item = some found) :
    found = generator := by
  cases item with
  | account index =>
    obtain ⟨acc, hacc, rfl⟩ := Option.map_eq_some_iff.mp hfound
    rw [setGenerator, List.getElem?_modify] at hacc
    obtain ⟨before, -, rfl⟩ := Option.map_eq_some_iff.mp hacc
    simp
  | argument index =>
    obtain ⟨arg, harg, rfl⟩ := Option.map_eq_some_iff.mp hfound
    rw [setGenerator, List.getElem?_modify] at harg
    obtain ⟨before, -, rfl⟩ := Option.map_eq_some_iff.mp harg
    simp

/-- References come to an end after a change to what does not lead back. -/
theorem grounded_setGenerator (hgrounded : Grounded values.RefersTo) (item : Item)
    (generator : Generator)
    (hback : ∀ target, values.Leads generator target →
      ¬ Relation.ReflTransGen values.RefersTo target item) :
    Grounded (values.setGenerator item generator).RefersTo := by
  refine hgrounded.redirect item ?_ ?_
  · rintro source target hne ⟨found, hfound, reference, hmentions, hresolve⟩
    rw [generatorOf_setGenerator_of_ne hne] at hfound
    rw [resolve_setGenerator] at hresolve
    exact ⟨found, hfound, reference, hmentions, hresolve⟩
  · rintro target ⟨found, hfound, reference, hmentions, hresolve⟩
    obtain rfl := eq_of_generatorOf_setGenerator hfound
    rw [resolve_setGenerator] at hresolve
    exact hback target ⟨reference, hmentions, hresolve⟩

/-- Filling adds no reference. -/
theorem Generator.Mentions.of_fillGenerator {value : Str} {generator : Generator} {reference : Reference}
    (hmentions : Mentions (fillGenerator value generator) reference) : Mentions generator reference := by
  unfold fillGenerator at hmentions
  split at hmentions
  · cases hmentions
  · exact hmentions

/-- After filling the references are among those before. -/
theorem refersTo_of_fillRandom {random : Item → Str} {source target : Item}
    (hrefers : (fillRandom random values).RefersTo source target) : values.RefersTo source target := by
  obtain ⟨generator, hgenerator, reference, hmentions, hresolve⟩ := hrefers
  have hnames : (fillRandom random values).resolve reference = values.resolve reference := by
    refine resolve_eq_of_names ?_ ?_ reference
    · ext1 index
      cases haccounts : values.accounts[index]? <;> simp [fillRandom, haccounts]
    · ext1 index
      cases hargs : values.args[index]? <;> simp [fillRandom, hargs]
  have hfound : ∃ found value, values.generatorOf source = some found ∧
      generator = fillGenerator value found := by
    cases source with
    | account index =>
      obtain ⟨acc, hacc, rfl⟩ := Option.map_eq_some_iff.mp hgenerator
      obtain ⟨before, hbefore, rfl⟩ :=
        Option.map_eq_some_iff.mp ((List.getElem?_mapIdx).symm.trans hacc)
      exact ⟨before.generator, random (.account index), congrArg (Option.map _) hbefore, rfl⟩
    | argument index =>
      obtain ⟨arg, harg, rfl⟩ := Option.map_eq_some_iff.mp hgenerator
      obtain ⟨before, hbefore, rfl⟩ :=
        Option.map_eq_some_iff.mp ((List.getElem?_mapIdx).symm.trans harg)
      exact ⟨before.generator, random (.argument index), congrArg (Option.map _) hbefore, rfl⟩
  obtain ⟨found, value, hfound, rfl⟩ := hfound
  exact ⟨found, hfound, reference, hmentions.of_fillGenerator, hnames ▸ hresolve⟩

end Changes

/-! ### Runs -/

/-- What an item is changed to does not lead back to it. -/
def LeadsNowhereBack (values : InstructionValues) : Change → Prop
  | .select _ item generator => ∀ target, values.Leads generator target →
    ¬ Relation.ReflTransGen values.RefersTo target item
  | .fill _ => True
  | .reset _ => True

/-- A change to what does not lead back keeps the references grounded. -/
theorem grounded_of_step {ix : PdaInstruction} (hacyclic : AcyclicSeeds ix)
    {values after : InstructionValues} {change : Change} (hgrounded : Grounded values.RefersTo)
    (hback : LeadsNowhereBack values change) (hstep : Step ix values change after) :
    Grounded after.RefersTo := by
  cases hstep with
  | @select _ _ item _ generator _ _ => exact grounded_setGenerator hgrounded item generator hback
  | fill random => exact hgrounded.mono fun _ _ ↦ refersTo_of_fillRandom
  | reset hcreate => exact grounded_of_create hcreate hacyclic

/-- If no account is reached from the seeds of its own definition, and nothing is changed to what leads
back to it, then all values and seeds of an instruction can be generated at all times. -/
theorem terminating_of_guarded {externals : Externals} {ix : PdaInstruction}
    {created values : InstructionValues} {changes : List Change} (hacyclic : AcyclicSeeds ix)
    (hcreate : createGeneratableInstruction externals ix = .ok created)
    (hrun : Run (Guarded (Step ix) LeadsNowhereBack) created changes values) : Terminating values := by
  have hgrounded : Grounded values.RefersTo :=
    hrun.invariant_guarded
      (fun _ _ _ hbefore hback hstep ↦ grounded_of_step hacyclic hbefore hback hstep)
      (grounded_of_create hcreate hacyclic)
  exact terminating_of_grounded hgrounded

/-- The wallet and the programs of an example. -/
def plainExternals : Externals where
  currentWallet := some "wallet".toList
  wallets := []
  currentProgram := some "program".toList
  programs := []
  pyth _ := .ok none
  publicKey key := .ok (key.getD [])
  encode _ _ := .ok []
  findProgramAddress _ key := .ok key
  sysvarClock := "clock".toList
  sysvarRent := "rent".toList

/-- The type of the amounts of an example. -/
def amountType : IdlType :=
  .primitive "u64".toList

/-- An instruction with two amounts and an account that is derived from one of them and from another
account. -/
def transferInstruction : PdaInstruction where
  name := "transfer".toList
  accounts :=
    [⟨⟨"owner".toList, false, true⟩, none⟩,
      ⟨⟨"vault".toList, true, false⟩,
        some [.arg amountType "amount".toList, .account publicKeyType "owner".toList]⟩]
  args := [⟨"amount".toList, amountType⟩, ⟨"limit".toList, amountType⟩]

/-- The values of the example with generators for the amounts. -/
def transferValues (amount limit : Generator) : InstructionValues where
  programId := .currentProgram
  accounts :=
    [⟨⟨"owner".toList, false, true⟩, .currentWallet⟩,
      ⟨⟨"vault".toList, true, false⟩, .fromSeed
        [(amountType, .arguments "amount".toList), (publicKeyType, .accounts "owner".toList)]
        .currentProgram⟩]
  args := [⟨⟨"amount".toList, amountType⟩, amount⟩, ⟨⟨"limit".toList, amountType⟩, limit⟩]

theorem create_transferInstruction :
    createGeneratableInstruction plainExternals transferInstruction =
      .ok (transferValues (.custom []) (.custom [])) := by
  rfl

/-- Each amount can be changed to the other one. -/
theorem step_amount (amount limit : Generator) : Step transferInstruction (transferValues amount limit)
    (.select plainExternals (.argument 0) (.arguments "limit".toList))
    (transferValues (.arguments "limit".toList) limit) := by
  have hmem : ⟨⟨"limit".toList, amountType⟩, limit⟩ ∈ (transferValues amount limit).args :=
    List.mem_cons_of_mem _ List.mem_cons_self
  have hinput : (transferValues amount limit).input (.argument 0) =
      some ⟨"amount".toList, amountType, false, false⟩ := rfl
  have hname : "limit".toList ≠ "amount".toList := by decide
  have htype : isEqual amountType.toJs amountType.toJs = true := by decide
  exact Step.select hinput (Offered.arguments hmem hname htype)

theorem step_limit (amount limit : Generator) : Step transferInstruction (transferValues amount limit)
    (.select plainExternals (.argument 1) (.arguments "amount".toList))
    (transferValues amount (.arguments "amount".toList)) := by
  have hmem : ⟨⟨"amount".toList, amountType⟩, amount⟩ ∈ (transferValues amount limit).args :=
    List.mem_cons_self
  have hinput : (transferValues amount limit).input (.argument 1) =
      some ⟨"limit".toList, amountType, false, false⟩ := rfl
  have hname : "amount".toList ≠ "limit".toList := by decide
  have htype : isEqual amountType.toJs amountType.toJs = true := by decide
  exact Step.select hinput (Offered.arguments hmem hname htype)

/-- Two amounts that refer to each other have no value, however much fuel there is. -/
theorem not_finished_amounts (externals : Externals) (fuel : ℕ) :
    ¬ Evaluation.Finished (generateValue externals
      (transferValues (.arguments "limit".toList) (.arguments "amount".toList)) fuel
      (.arguments "amount".toList)) ∧
    ¬ Evaluation.Finished (generateValue externals
      (transferValues (.arguments "limit".toList) (.arguments "amount".toList)) fuel
      (.arguments "limit".toList)) := by
  induction fuel with
  | zero => exact ⟨Evaluation.not_finished_unfinished, Evaluation.not_finished_unfinished⟩
  | succ fuel ih => exact ⟨ih.2, ih.1⟩

/-- Not every instruction that the inputs lead to has values: the two amounts of a transfer can be made to
refer to each other. -/
theorem not_terminating_of_run : ¬ ∀ externals ix created changes values,
    createGeneratableInstruction externals ix = .ok created →
      Run (Step ix) created changes values → Terminating values := by
  intro hall
  have hrun := (Run.single (step_amount (.custom []) (.custom []))).append
    (Run.single (step_limit (.arguments "limit".toList) (.custom [])))
  have hterminating := hall plainExternals transferInstruction _ _ _ create_transferInstruction hrun
  obtain ⟨fuel, hfinished⟩ := hterminating plainExternals (.argument 0) _ _ rfl (.self _)
  exact (not_finished_amounts plainExternals fuel).2 hfinished

/-- The example refers from the vault to the owner only. -/
theorem acyclicSeeds_transferInstruction : AcyclicSeeds transferInstruction := by
  have hrefers : ∀ source target, SeedRefers transferInstruction source target →
      source = 1 ∧ target = 0 := by
    rintro source target ⟨acc, seeds, type, path, hacc, hpda, hseed, hfind⟩
    rcases source with _ | _ | source
    · obtain rfl := Option.some.inj hacc
      cases hpda
    · obtain rfl := Option.some.inj hacc
      obtain rfl := Option.some.inj hpda
      simp only [List.mem_cons, PdaSeed.account.injEq, reduceCtorEq, false_or, List.not_mem_nil,
        or_false] at hseed
      obtain ⟨-, rfl⟩ := hseed
      exact ⟨rfl, (Option.some.inj hfind).symm⟩
    · cases hacc
  intro index hcycle
  obtain ⟨target, hfirst, -⟩ := Relation.TransGen.head'_iff.mp hcycle
  obtain ⟨source, -, hlast⟩ := Relation.TransGen.tail'_iff.mp hcycle
  obtain ⟨rfl, -⟩ := hrefers _ _ hfirst
  exact absurd (hrefers _ _ hlast).2 one_ne_zero

/-- After the first amount has been changed to the second one, all values can be generated. -/
theorem terminating_of_guarded_amount :
    Terminating (transferValues (.arguments "limit".toList) (.custom [])) := by
  refine terminating_of_guarded acyclicSeeds_transferInstruction create_transferInstruction
    (Run.single ⟨?_, step_amount (.custom []) (.custom [])⟩)
  rintro target ⟨reference, hmentions, hresolve⟩ hreaches
  cases hmentions
  obtain rfl : Item.argument 1 = target := Option.some.inj hresolve
  rcases Relation.ReflTransGen.cases_head hreaches with heq | ⟨next, hnext, -⟩
  · cases heq
  · obtain ⟨generator, hgenerator, reference, hmentions, -⟩ := hnext
    obtain rfl : Generator.custom [] = generator := Option.some.inj hgenerator
    cases hmentions

end Playground.PgProgramInteraction
