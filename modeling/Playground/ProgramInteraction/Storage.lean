import Playground.ProgramInteraction.IdlType
import Mathlib.Data.List.AList
import Mathlib.Data.List.Perm.Subperm

/-!
# The saved instructions

`client/src/utils/pg/program-interaction/storage.ts` keeps the values that were last given to each
instruction. When an IDL is imported, `syncAllInstructions` deletes the instructions that are not in it
and those that have changed. An instruction has changed if it has another number of arguments or
accounts, or if an argument or an account of it is not found in the IDL by its name with the same type or
the same flags.

The arguments are found by their names and passed by their places (`test`): an instruction whose
arguments have only been reordered is kept, and its values go to other arguments. Instructions are found
as properties of an object, which has some that have not been saved (`prototypeNames`).
`synced_iff` says for which instructions everything that is kept agrees with the IDL.

Not formalized here: the session storage and its encoding, what the generators are, and the accounts and
the signers of the transaction.
-/

set_option autoImplicit false
set_option relaxedAutoImplicit false

namespace Playground.PgProgramInteraction

open Library

/-! ### Instructions -/

/-- An argument of `IdlInstruction`. -/
@[ext] structure IdlArg where
  name : Str
  type : IdlType
  deriving DecidableEq

/-- `IdlAccount`. -/
@[ext] structure IdlAccount where
  name : Str
  isMut : Bool
  isSigner : Bool
  deriving DecidableEq

/-- `IdlInstruction`. -/
structure IdlInstruction where
  name : Str
  args : List IdlArg
  accounts : List IdlAccount

/-- A saved argument, which is one of the IDL with its generator. -/
structure SavedArg (γ : Type) extends IdlArg where
  generator : γ

/-- A saved account, which is one of the IDL with its generator. -/
structure SavedAccount (γ : Type) extends IdlAccount where
  generator : γ

/-- The values of `GeneratableInstruction`. -/
structure Values (γ : Type) where
  programId : γ
  accounts : List (SavedAccount γ)
  args : List (SavedArg γ)

/-- `SavedInstructions`. -/
abbrev SavedInstructions (γ : Type) := AList fun _ : Str ↦ Values γ

/-- What is thrown: a property of what has no properties was accessed. -/
inductive Error
  | typeError
  deriving DecidableEq

variable {γ : Type}

/-! ### Syncing -/

/-- The properties that every object has. -/
def prototypeNames : List Str :=
  ["constructor".toList, "__defineGetter__".toList, "__defineSetter__".toList,
    "hasOwnProperty".toList, "__lookupGetter__".toList, "__lookupSetter__".toList,
    "isPrototypeOf".toList, "propertyIsEnumerable".toList, "toString".toList, "valueOf".toList,
    "__proto__".toList, "toLocaleString".toList]

/-- The saved argument is found in the IDL. -/
def isArgEqual (ix : IdlInstruction) (savedArg : SavedArg γ) : Bool :=
  match ix.args.find? fun arg ↦ arg.name = savedArg.name with
  | none => false
  | some arg => isEqual arg.type.toJs savedArg.type.toJs

/-- The saved account is found in the IDL. -/
def isAccountEqual (ix : IdlInstruction) (savedAcc : SavedAccount γ) : Bool :=
  match ix.accounts.find? fun acc ↦ acc.name = savedAcc.name with
  | none => false
  | some acc => savedAcc.isMut = acc.isMut && savedAcc.isSigner = acc.isSigner

/-- The saved values are taken for those of an instruction. -/
def isUpToDate (ix : IdlInstruction) (savedIx : Values γ) : Bool :=
  savedIx.args.length = ix.args.length && savedIx.accounts.length = ix.accounts.length &&
    savedIx.args.all (isArgEqual ix) && savedIx.accounts.all (isAccountEqual ix)

/-- An instruction is to be updated. A property that every object has is no instruction, and has no
arguments. -/
def isToUpdate (savedIxs : SavedInstructions γ) (ix : IdlInstruction) : Except Error Bool :=
  match savedIxs.lookup ix.name with
  | some savedIx => .ok !(isUpToDate ix savedIx)
  | none => if ix.name ∈ prototypeNames then .error .typeError else .ok true

/-- The names of the instructions that are to be updated. -/
def ixNamesToUpdate (savedIxs : SavedInstructions γ) : List IdlInstruction → Except Error (List Str)
  | [] => .ok []
  | ix :: rest => do
    let toUpdate ← isToUpdate savedIxs ix
    let names ← ixNamesToUpdate savedIxs rest
    .ok (if toUpdate then ix.name :: names else names)

/-- The deletion of some instructions. -/
def deleteAll (savedIxs : SavedInstructions γ) (ixNames : List Str) : SavedInstructions γ :=
  ixNames.foldl (fun savedIxs ixName ↦ savedIxs.erase ixName) savedIxs

/-- The deletion of the instructions that the IDL does not have. -/
def deleteRemoved (savedIxs : SavedInstructions γ) (idlIxs : List IdlInstruction) :
    SavedInstructions γ :=
  let ixNames := idlIxs.map IdlInstruction.name
  deleteAll savedIxs (savedIxs.keys.filter fun ixName ↦ ixName ∉ ixNames)

/-- `syncAllInstructions`, with the instructions that are saved afterwards. -/
def syncAllInstructions (savedIxs : SavedInstructions γ) (idlIxs : List IdlInstruction) :
    Except Error (SavedInstructions γ) := do
  let savedIxs := deleteRemoved savedIxs idlIxs
  let ixNamesToUpdate ← ixNamesToUpdate savedIxs idlIxs
  .ok (deleteAll savedIxs ixNamesToUpdate)

/-- What `test` makes of a saved argument: the value that its generator yields, parsed as its type. -/
structure Parsing (γ β : Type) where
  generateValue : γ → Values γ → Str
  parse : IdlType → Str → β

/-- The arguments that `PgProgramInteraction.test` passes, in their order. -/
def test {β : Type} (parsing : Parsing γ β) (values : Values γ) : List β :=
  values.args.map fun arg ↦ parsing.parse arg.type (parsing.generateValue arg.generator values)

/-! ### What is kept -/

/-- The values agree with an instruction: the arguments have its names and types in its order, the
accounts its names and flags. -/
structure Agrees (ix : IdlInstruction) (values : Values γ) : Prop where
  args : values.args.map SavedArg.toIdlArg = ix.args
  accounts : (values.accounts.map SavedAccount.toIdlAccount).Perm ix.accounts

/-- Every argument is passed the value that was saved under its name. -/
def PassesByName {β : Type} (parsing : Parsing γ β) (ix : IdlInstruction) (values : Values γ) :
    Prop :=
  ∀ (index : ℕ) (arg : IdlArg), ix.args[index]? = some arg → (test parsing values)[index]? =
    (values.args.find? fun savedArg ↦ savedArg.name = arg.name).map fun savedArg ↦
      parsing.parse arg.type (parsing.generateValue savedArg.generator values)

/-- Every saved instruction is one of the IDL, with which its values agree. -/
def Synced {β : Type} (parsing : Parsing γ β) (idlIxs : List IdlInstruction)
    (savedIxs : SavedInstructions γ) : Prop :=
  ∀ ixName values, savedIxs.lookup ixName = some values →
    (∃ ix ∈ idlIxs, ix.name = ixName) ∧
      ∀ ix ∈ idlIxs, ix.name = ixName → Agrees ix values ∧ PassesByName parsing ix values

/-- The saved values of an instruction of the IDL are kept. -/
def Kept (idlIxs : List IdlInstruction) (ixName : Str) (values : Values γ) : Prop :=
  (∃ ix ∈ idlIxs, ix.name = ixName) ∧
    ∀ ix ∈ idlIxs, ix.name = ixName → isUpToDate ix values = true

theorem lookup_deleteAll (savedIxs : SavedInstructions γ) (ixNames : List Str) (ixName : Str) :
    (deleteAll savedIxs ixNames).lookup ixName =
      if ixName ∈ ixNames then none else savedIxs.lookup ixName := by
  unfold deleteAll
  induction ixNames generalizing savedIxs with
  | nil => rfl
  | cons first rest ih =>
    rw [List.foldl_cons, ih]
    by_cases hrest : ixName ∈ rest
    · rw [if_pos hrest, if_pos (List.mem_cons_of_mem _ hrest)]
    · rw [if_neg hrest]
      by_cases heq : ixName = first
      · subst heq
        rw [AList.lookup_erase, if_pos List.mem_cons_self]
      · rw [AList.lookup_erase_ne heq, if_neg (by simp [heq, hrest])]

variable {savedIxs synced : SavedInstructions γ} {idlIxs : List IdlInstruction}

/-- What is left after the instructions that the IDL does not have are removed. -/
theorem lookup_removed (savedIxs : SavedInstructions γ) (idlIxs : List IdlInstruction)
    (ixName : Str) :
    (deleteRemoved savedIxs idlIxs).lookup ixName =
      if ixName ∈ idlIxs.map IdlInstruction.name then savedIxs.lookup ixName else none := by
  rw [deleteRemoved, lookup_deleteAll]
  simp only [List.mem_filter, decide_eq_true_eq]
  by_cases hname : ixName ∈ idlIxs.map IdlInstruction.name
  · simp [hname]
  · rw [if_neg hname]
    split_ifs with hkey
    · rfl
    · rw [AList.lookup_eq_none]
      exact fun hmem ↦ hkey ⟨AList.mem_keys.mp hmem, hname⟩

/-- The instructions are to be updated one by one. -/
theorem ixNamesToUpdate_eq_ok {names : List Str}
    (hnames : ixNamesToUpdate savedIxs idlIxs = .ok names) :
    (∀ ix ∈ idlIxs, isToUpdate savedIxs ix ≠ .error .typeError) ∧
      ∀ ixName, ixName ∈ names ↔ ∃ ix ∈ idlIxs, ix.name = ixName ∧
        isToUpdate savedIxs ix = .ok true := by
  induction idlIxs generalizing names with
  | nil =>
    cases hnames
    simp
  | cons ix rest ih =>
    rw [ixNamesToUpdate] at hnames
    cases htoUpdate : isToUpdate savedIxs ix with
    | error error =>
      rw [htoUpdate] at hnames
      cases hnames
    | ok toUpdate =>
      rw [htoUpdate] at hnames
      cases hrest : ixNamesToUpdate savedIxs rest with
      | error error =>
        rw [hrest] at hnames
        cases hnames
      | ok others =>
        rw [hrest] at hnames
        cases hnames
        obtain ⟨hnone, hmem⟩ := ih hrest
        refine ⟨List.forall_mem_cons.mpr ⟨by simp [htoUpdate], hnone⟩, fun ixName ↦ ?_⟩
        rw [List.exists_mem_cons_iff, ← hmem, htoUpdate]
        cases toUpdate
        · simp
        · simp [eq_comm]

/-- Nothing is thrown if no instruction throws. -/
theorem exists_ixNamesToUpdate
    (hnone : ∀ ix ∈ idlIxs, isToUpdate savedIxs ix ≠ .error .typeError) :
    ∃ names, ixNamesToUpdate savedIxs idlIxs = .ok names := by
  induction idlIxs with
  | nil => exact ⟨[], rfl⟩
  | cons ix rest ih =>
    obtain ⟨hix, hrest⟩ := List.forall_mem_cons.mp hnone
    obtain ⟨others, hothers⟩ := ih hrest
    cases htoUpdate : isToUpdate savedIxs ix with
    | error error =>
      cases error
      exact absurd htoUpdate hix
    | ok toUpdate =>
      rw [ixNamesToUpdate, htoUpdate, hothers]
      exact ⟨_, rfl⟩

/-- An instruction throws if it is none of the saved ones but a property of every object. -/
theorem isToUpdate_ne_error_iff {ix : IdlInstruction} :
    isToUpdate savedIxs ix ≠ .error .typeError ↔
      (ix.name ∈ prototypeNames → savedIxs.lookup ix.name ≠ none) := by
  unfold isToUpdate
  cases savedIxs.lookup ix.name with
  | some savedIx => simp
  | none => by_cases hname : ix.name ∈ prototypeNames <;> simp [hname]

/-- Syncing throws unless every instruction of the IDL with the name of a property that every object has
is saved. -/
theorem exists_sync_iff :
    (∃ synced, syncAllInstructions savedIxs idlIxs = .ok synced) ↔
      ∀ ix ∈ idlIxs, ix.name ∈ prototypeNames → savedIxs.lookup ix.name ≠ none := by
  have hsame : ∀ ix ∈ idlIxs,
      (deleteRemoved savedIxs idlIxs).lookup ix.name = savedIxs.lookup ix.name := by
    intro ix hix
    rw [lookup_removed, if_pos (List.mem_map_of_mem hix)]
  constructor
  · rintro ⟨synced, hsync⟩ ix hix
    rw [syncAllInstructions] at hsync
    cases hnames : ixNamesToUpdate (deleteRemoved savedIxs idlIxs) idlIxs with
    | error error =>
      rw [hnames] at hsync
      cases hsync
    | ok names =>
      have hlookup := isToUpdate_ne_error_iff.mp ((ixNamesToUpdate_eq_ok hnames).1 ix hix)
      rwa [hsame ix hix] at hlookup
  · intro hall
    have hnone : ∀ ix ∈ idlIxs,
        isToUpdate (deleteRemoved savedIxs idlIxs) ix ≠ .error .typeError := by
      intro ix hix
      rw [isToUpdate_ne_error_iff, hsame ix hix]
      exact hall ix hix
    obtain ⟨names, hnames⟩ := exists_ixNamesToUpdate hnone
    rw [syncAllInstructions, hnames]
    exact ⟨_, rfl⟩

/-- The instructions that are kept are still saved, with the values they had. -/
theorem lookup_synced (hsync : syncAllInstructions savedIxs idlIxs = .ok synced) (ixName : Str)
    (values : Values γ) :
    synced.lookup ixName = some values ↔
      savedIxs.lookup ixName = some values ∧ Kept idlIxs ixName values := by
  rw [syncAllInstructions] at hsync
  cases hnames : ixNamesToUpdate (deleteRemoved savedIxs idlIxs) idlIxs with
  | error error =>
    rw [hnames] at hsync
    cases hsync
  | ok names =>
    rw [hnames] at hsync
    cases hsync
    have hmem := (ixNamesToUpdate_eq_ok hnames).2 ixName
    rw [lookup_deleteAll, lookup_removed]
    have hkept : ∀ ix ∈ idlIxs, ix.name = ixName → savedIxs.lookup ixName = some values →
        (isToUpdate (deleteRemoved savedIxs idlIxs) ix = .ok true ↔
          isUpToDate ix values = false) := by
      rintro ix hix rfl hlookup
      rw [isToUpdate, lookup_removed, if_pos (List.mem_map_of_mem hix), hlookup]
      simp
    by_cases hin : ixName ∈ idlIxs.map IdlInstruction.name
    · obtain ⟨ix, hix, hname⟩ := List.mem_map.mp hin
      rw [if_pos hin]
      by_cases hupdate : ixName ∈ names
      · rw [if_pos hupdate]
        refine iff_of_false nofun ?_
        rintro ⟨hlookup, -, hall⟩
        obtain ⟨other, hother, hotherName, htrue⟩ := hmem.mp hupdate
        have hfalse := (hkept other hother hotherName hlookup).mp htrue
        rw [hall other hother hotherName] at hfalse
        cases hfalse
      · rw [if_neg hupdate]
        refine ⟨fun hlookup ↦ ⟨hlookup, ⟨ix, hix, hname⟩, fun other hother hotherName ↦ ?_⟩, And.left⟩
        by_contra hnot
        exact hupdate (hmem.mpr ⟨other, hother, hotherName,
          (hkept other hother hotherName hlookup).mpr (Bool.not_eq_true _ ▸ hnot)⟩)
    · rw [if_neg hin, ite_self]
      refine iff_of_false nofun ?_
      rintro ⟨-, ⟨ix, hix, hname⟩, -⟩
      exact hin (List.mem_map.mpr ⟨ix, hix, hname⟩)

/-! ### Agreement -/

variable {ix : IdlInstruction} {values : Values γ}

/-- What is taken for up to date has as many arguments and accounts, all of which are found. -/
theorem isUpToDate_iff : isUpToDate ix values = true ↔
    values.args.length = ix.args.length ∧ values.accounts.length = ix.accounts.length ∧
      (∀ savedArg ∈ values.args, isArgEqual ix savedArg = true) ∧
      ∀ savedAcc ∈ values.accounts, isAccountEqual ix savedAcc = true := by
  simp [isUpToDate, and_assoc]

/-- An argument that is found has the type of the one of its name. -/
theorem mem_args_of_isArgEqual {savedArg : SavedArg γ} (hequal : isArgEqual ix savedArg = true) :
    savedArg.toIdlArg ∈ ix.args := by
  unfold isArgEqual at hequal
  split at hequal
  · cases hequal
  · next arg hfind =>
    have hname : arg.name = savedArg.name := by simpa using List.find?_some hfind
    have htype := (isEqual_toJs _ _).mp hequal
    have hsame : arg = savedArg.toIdlArg := IdlArg.ext hname htype
    exact hsame ▸ List.mem_of_find?_eq_some hfind

/-- An account that is found has the flags of the one of its name. -/
theorem mem_accounts_of_isAccountEqual {savedAcc : SavedAccount γ}
    (hequal : isAccountEqual ix savedAcc = true) : savedAcc.toIdlAccount ∈ ix.accounts := by
  unfold isAccountEqual at hequal
  split at hequal
  · cases hequal
  · next acc hfind =>
    have hname : acc.name = savedAcc.name := by simpa using List.find?_some hfind
    obtain ⟨hmut, hsigner⟩ := Bool.and_eq_true_iff.mp hequal
    have hsame : acc = savedAcc.toIdlAccount := IdlAccount.ext hname
      (of_decide_eq_true hmut).symm (of_decide_eq_true hsigner).symm
    exact hsame ▸ List.mem_of_find?_eq_some hfind

/-- Two lists with one list of distinct names, the entries of one of which are entries of the other, are
one list. -/
theorem eq_of_names {α : Type} {name : α → Str} {saved entries : List α}
    (hnodup : (entries.map name).Nodup) (hnames : saved.map name = entries.map name)
    (hmem : ∀ entry ∈ saved, entry ∈ entries) : saved = entries := by
  have hlength : saved.length = entries.length := by
    simpa using congrArg List.length hnames
  refine List.ext_getElem hlength fun place hplace hother ↦ ?_
  have hsame : name saved[place] = name entries[place] := by
    have hget := congrArg (·[place]?) hnames
    simpa [List.getElem?_eq_getElem hplace, List.getElem?_eq_getElem hother] using hget
  exact List.inj_on_of_nodup_map hnodup (hmem _ (List.getElem_mem hplace))
    (List.getElem_mem hother) hsame

/-- What is up to date agrees with the instruction if its arguments are in its order and its accounts
are distinct. -/
theorem agrees_of_isUpToDate (hupToDate : isUpToDate ix values = true)
    (hargs : (ix.args.map IdlArg.name).Nodup)
    (horder : values.args.map (fun savedArg ↦ savedArg.name) = ix.args.map IdlArg.name)
    (hdistinct : (values.accounts.map fun savedAcc ↦ savedAcc.name).Nodup) : Agrees ix values := by
  obtain ⟨-, hlength, hallArgs, hallAccs⟩ := isUpToDate_iff.mp hupToDate
  constructor
  · refine eq_of_names hargs (by rw [List.map_map]; exact horder) fun arg harg ↦ ?_
    obtain ⟨savedArg, hsavedArg, rfl⟩ := List.mem_map.mp harg
    exact mem_args_of_isArgEqual (hallArgs savedArg hsavedArg)
  · have hnodup : (values.accounts.map SavedAccount.toIdlAccount).Nodup := by
      refine List.Nodup.of_map IdlAccount.name ?_
      rwa [List.map_map]
    refine (List.subperm_of_subset hnodup fun acc hacc ↦ ?_).perm_of_length_le (by simp [hlength])
    obtain ⟨savedAcc, hsavedAcc, rfl⟩ := List.mem_map.mp hacc
    exact mem_accounts_of_isAccountEqual (hallAccs savedAcc hsavedAcc)

/-- Values that agree with the instruction are passed under their names. -/
theorem Agrees.passesByName {β : Type} (parsing : Parsing γ β) (hagrees : Agrees ix values)
    (hargs : (ix.args.map IdlArg.name).Nodup) : PassesByName parsing ix values := by
  intro index arg harg
  rw [← hagrees.args, List.getElem?_map, Option.map_eq_some_iff] at harg
  obtain ⟨savedArg, hsavedArg, rfl⟩ := harg
  have hnodup : (values.args.map fun savedArg ↦ savedArg.name).Nodup := by
    rw [← hagrees.args, List.map_map] at hargs
    exact hargs
  have hfind : (values.args.find? fun other ↦ other.name = savedArg.name) = some savedArg := by
    rw [List.find?_eq_some_iff_getElem]
    obtain ⟨hlt, hget⟩ := List.getElem?_eq_some_iff.mp hsavedArg
    refine ⟨by simp, index, hlt, hget, fun place hplace ↦ ?_⟩
    simp only [Bool.not_eq_eq_eq_not, Bool.not_true, decide_eq_false_iff_not]
    intro hsame
    have hinjective := List.nodup_iff_injective_get.mp hnodup
    have hplaces := @hinjective ⟨place, by simp; omega⟩ ⟨index, by simpa using hlt⟩
      (by simpa [hget] using hsame)
    exact hplace.ne (Fin.mk.inj hplaces)
  rw [test, List.getElem?_map, hsavedArg, hfind]
  rfl

/-- After syncing, everything that is saved agrees with the IDL and is passed under its name, exactly if
nothing is thrown and of each instruction that is kept the saved arguments are in the order of the IDL
and the saved accounts are distinct. -/
theorem synced_iff {β : Type} (parsing : Parsing γ β) (savedIxs : SavedInstructions γ)
    (hargs : ∀ ix ∈ idlIxs, (ix.args.map IdlArg.name).Nodup)
    (haccounts : ∀ ix ∈ idlIxs, (ix.accounts.map IdlAccount.name).Nodup) :
    (∃ synced, syncAllInstructions savedIxs idlIxs = .ok synced ∧ Synced parsing idlIxs synced) ↔
      (∀ ix ∈ idlIxs, ix.name ∈ prototypeNames → savedIxs.lookup ix.name ≠ none) ∧
        ∀ ixName values, savedIxs.lookup ixName = some values → Kept idlIxs ixName values →
          ∀ ix ∈ idlIxs, ix.name = ixName →
            values.args.map (fun savedArg ↦ savedArg.name) = ix.args.map IdlArg.name ∧
              (values.accounts.map fun savedAcc ↦ savedAcc.name).Nodup := by
  constructor
  · rintro ⟨synced, hsync, hsynced⟩
    refine ⟨exists_sync_iff.mp ⟨synced, hsync⟩, fun ixName values hlookup hkept ix hix hname ↦ ?_⟩
    have hstill := (lookup_synced hsync ixName values).mpr ⟨hlookup, hkept⟩
    obtain ⟨hagrees, -⟩ := (hsynced ixName values hstill).2 ix hix hname
    constructor
    · rw [← hagrees.args, List.map_map]
      rfl
    · have hnodup := (hagrees.accounts.map IdlAccount.name).nodup_iff.mpr (haccounts ix hix)
      rwa [List.map_map] at hnodup
  · rintro ⟨hnone, hkept⟩
    obtain ⟨synced, hsync⟩ := exists_sync_iff.mpr hnone
    refine ⟨synced, hsync, fun ixName values hstill ↦ ?_⟩
    obtain ⟨hlookup, hmem, hall⟩ := (lookup_synced hsync ixName values).mp hstill
    refine ⟨hmem, fun ix hix hname ↦ ?_⟩
    obtain ⟨horder, hdistinct⟩ := hkept ixName values hlookup ⟨hmem, hall⟩ ix hix hname
    have hagrees := agrees_of_isUpToDate (hall ix hix hname) (hargs ix hix) horder hdistinct
    exact ⟨hagrees, hagrees.passesByName parsing (hargs ix hix)⟩

/-! ### An instruction with two arguments -/

/-- An instruction with two arguments of one type, in one of their two orders. -/
def swapInstruction (first second : Str) : IdlInstruction where
  name := "swap".toList
  args := [⟨first, .primitive "u64".toList⟩, ⟨second, .primitive "u64".toList⟩]
  accounts := []

/-- The values `1` and `2` of the arguments `a` and `b`. -/
def swapValues : Values Str where
  programId := []
  accounts := []
  args := [⟨⟨"a".toList, .primitive "u64".toList⟩, "1".toList⟩,
    ⟨⟨"b".toList, .primitive "u64".toList⟩, "2".toList⟩]

/-- The instruction is saved. -/
def savedSwap : SavedInstructions Str :=
  AList.singleton "swap".toList swapValues

/-- Every generator is the value that it yields. -/
def plainParsing : Parsing Str (IdlType × Str) where
  generateValue := fun generator _ ↦ generator
  parse := fun type value ↦ (type, value)

/-- The same instruction is imported again. -/
theorem synced_iff_same_order :
    ∃ synced, syncAllInstructions savedSwap [swapInstruction "a".toList "b".toList] = .ok synced ∧
      Synced plainParsing [swapInstruction "a".toList "b".toList] synced := by
  refine (synced_iff plainParsing savedSwap (by decide) (by decide)).mpr ⟨by decide, ?_⟩
  intro ixName values hlookup hkept ix hix hname
  obtain rfl := List.mem_singleton.mp hix
  subst hname
  obtain rfl : swapValues = values := Option.some.inj hlookup
  decide

/-- The instruction is imported with its arguments in the other order. -/
theorem not_synced_other_order :
    ¬ ∃ synced,
      syncAllInstructions savedSwap [swapInstruction "b".toList "a".toList] = .ok synced ∧
        Synced plainParsing [swapInstruction "b".toList "a".toList] synced := by
  rintro ⟨synced, hsync, hsynced⟩
  have hkept : Kept [swapInstruction "b".toList "a".toList] "swap".toList swapValues := by
    refine ⟨⟨_, List.mem_cons_self, rfl⟩, fun ix hix _ ↦ ?_⟩
    rw [List.mem_singleton.mp hix]
    decide
  have hstill := (lookup_synced hsync "swap".toList swapValues).mpr ⟨rfl, hkept⟩
  obtain ⟨hagrees, -⟩ := (hsynced _ _ hstill).2 _ List.mem_cons_self rfl
  exact absurd hagrees.args (by decide)

end Playground.PgProgramInteraction
