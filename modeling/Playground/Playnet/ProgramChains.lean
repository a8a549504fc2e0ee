import Mathlib.Data.List.Forall2
import Playground.Playnet.BankLoading
import Playground.Playnet.ReferenceSdk

/-!
# The programs a transaction loads

Behind the accounts of its keys a transaction loads, for every instruction, the program of the
instruction, its program data if the upgradeable loader owns it, the owner of the program, and so on up
to the native loader. `ProgramChain` says what the list of indices of an instruction should be: read
from its end, the program, the program data of the program, and then the chain of the program's owner.

An index of an account is a `u16`, to which the length of the vector of accounts is cut off. A
transaction that loads has loaded what it should exactly if each account that it needs for its programs
is found again where its cut off place points (`loadedWell_iff_programsFound`), as it is if there are at
most 2¹⁶ accounts. `callsTx 21845`, which calls one upgradeable program again and again, has one account
more than that: it loads, and its last instruction finds the payer in the place of the program data
(`not_loadedWell_calls`).
-/

set_option autoImplicit false
set_option relaxedAutoImplicit false

namespace Playground.Playnet

open Library PgBank

/-! ### What should be loaded -/

/-- The indices of the program data of a program among the accounts: that of the account that the bank
holds of them if the upgradeable loader owns the program, and none otherwise. -/
inductive ProgramdataAt (sdk : Sdk) (bank : PgBank) (accounts : List TransactionAccount)
    (program : Account) : List ℕ → Prop
  | fixed (howner : program.owner ≠ bpfLoaderUpgradeableId) : ProgramdataAt sdk bank accounts program []
  | upgradeable {address : Pubkey} {account : Account} {index : ℕ}
      (howner : program.owner = bpfLoaderUpgradeableId)
      (haddress : sdk.programdataAddress program = some address)
      (hheld : bank.getAccount address = some account)
      (hindex : accounts[index]? = some (address, account)) :
      ProgramdataAt sdk bank accounts program [index]

/-- The indices of a chain of programs: those of the owner's chain, which is shorter by one program, the
index of the program data, and that of the program, which the bank holds and which is executable. -/
inductive ProgramChain (sdk : Sdk) (bank : PgBank) (accounts : List TransactionAccount) :
    ℕ → Pubkey → List ℕ → Prop
  | native : ProgramChain sdk bank accounts 0 nativeLoaderId []
  | program {depth : ℕ} {programId : Pubkey} {program : Account} {index : ℕ}
      {outer programdata : List ℕ} (hne : programId ≠ nativeLoaderId)
      (hheld : bank.getAccount programId = some program)
      (hindex : accounts[index]? = some (programId, program))
      (hexecutable : program.executable = true)
      (hprogramdata : ProgramdataAt sdk bank accounts program programdata)
      (howner : ProgramChain sdk bank accounts depth program.owner outer) :
      ProgramChain sdk bank accounts (depth + 1) programId (outer ++ programdata ++ [index])

/-- The program of an instruction of a message. -/
def SanitizedMessage.programId? (message : SanitizedMessage) (instruction : CompiledInstruction) :
    Option Pubkey :=
  message.accountKeys[instruction.programIdIndex.toNat]?

/-- What a transaction that loads should have loaded: first the accounts of its keys, and for every
instruction the indices of a chain of at most five programs that starts at the instruction's. -/
structure LoadedWell (sdk : Sdk) (bank : PgBank) (tx : SanitizedTransaction)
    (loadedTx : LoadedTransaction) : Prop where
  keys : (loadedTx.accounts.take tx.message.accountKeys.length).map Prod.fst =
    tx.message.accountKeys
  programs : List.Forall₂ (fun instruction indices ↦
      (∀ index ∈ indices, index < loadedTx.accounts.length) ∧
        ∃ programId depth, tx.message.programId? instruction = some programId ∧ depth ≤ 5 ∧
          ProgramChain sdk bank loadedTx.accounts depth programId indices)
    tx.message.instructions loadedTx.programIndices

section Chains

variable {sdk : Sdk} {bank : PgBank} {accounts more : List TransactionAccount} {program : Account}
  {depth : ℕ} {programId : Pubkey} {indices : List ℕ}

/-- The indices of program data stay right as accounts are appended. -/
theorem ProgramdataAt.append (hprogramdata : ProgramdataAt sdk bank accounts program indices) :
    ProgramdataAt sdk bank (accounts ++ more) program indices := by
  cases hprogramdata with
  | fixed howner => exact .fixed howner
  | upgradeable howner haddress hheld hindex =>
    refine .upgradeable howner haddress hheld (Eq.trans ?_ hindex)
    exact List.getElem?_append_left (List.getElem?_eq_some_iff.mp hindex).1

/-- The indices of program data are those of accounts. -/
theorem ProgramdataAt.lt (hprogramdata : ProgramdataAt sdk bank accounts program indices) :
    ∀ index ∈ indices, index < accounts.length := by
  cases hprogramdata with
  | fixed => simp
  | upgradeable _ _ _ hindex => simpa using (List.getElem?_eq_some_iff.mp hindex).1

/-- A chain stays one as accounts are appended. -/
theorem ProgramChain.append (hchain : ProgramChain sdk bank accounts depth programId indices) :
    ProgramChain sdk bank (accounts ++ more) depth programId indices := by
  induction hchain with
  | native => exact .native
  | program hne hheld hindex hexecutable hprogramdata _ ih =>
    refine .program hne hheld (Eq.trans ?_ hindex) hexecutable hprogramdata.append ih
    exact List.getElem?_append_left (List.getElem?_eq_some_iff.mp hindex).1

/-- The indices of a chain are those of accounts. -/
theorem ProgramChain.lt (hchain : ProgramChain sdk bank accounts depth programId indices) :
    ∀ index ∈ indices, index < accounts.length := by
  induction hchain with
  | native => simp
  | program _ _ hindex _ hprogramdata _ ih =>
    intro index hmem
    rcases List.mem_append.mp hmem with hmem | hmem
    · exact (List.mem_append.mp hmem).elim (ih index) (hprogramdata.lt index)
    · rw [List.mem_singleton.mp hmem]
      exact (List.getElem?_eq_some_iff.mp hindex).1

/-- The chain of a program other than the native loader ends with the program, which is executable,
right behind its program data. -/
theorem ProgramChain.ends (hchain : ProgramChain sdk bank accounts depth programId indices)
    (hne : programId ≠ nativeLoaderId) :
    ∃ outer programdata index program, indices = outer ++ programdata ++ [index] ∧
      accounts[index]? = some (programId, program) ∧ program.executable = true ∧
      ProgramdataAt sdk bank accounts program programdata := by
  cases hchain with
  | native => exact absurd rfl hne
  | program _ _ hindex hexecutable hprogramdata _ =>
    exact ⟨_, _, _, _, rfl, hindex, hexecutable, hprogramdata⟩

end Chains

/-! ### The accounts that are needed -/

/-- The program data account of a program, if the bank holds one. -/
def programdataOf (sdk : Sdk) (bank : PgBank) (program : Account) : Option TransactionAccount :=
  match sdk.programdataAddress program with
  | none => none
  | some address => (bank.getAccount address).map fun account ↦ (address, account)

/-- The program data accounts that the program of a chain comes with: at most one, or `none` if one is
missing. -/
def chainProgramdata (sdk : Sdk) (bank : PgBank) (program : Account) :
    Option (List TransactionAccount) :=
  if program.owner = bpfLoaderUpgradeableId then (programdataOf sdk bank program).map ([·])
  else some []

/-- The accounts on the way from a program to the native loader, as far as the bank holds them, and
whether the way leads there within `remaining` programs. -/
def chainAccounts (sdk : Sdk) (bank : PgBank) : ℕ → Pubkey → List TransactionAccount × Bool
  | remaining, programId =>
    if programId = nativeLoaderId then ([], true)
    else
      match remaining with
      | 0 => ([], false)
      | remaining + 1 =>
        match bank.getAccount programId with
        | none => ([], false)
        | some program =>
          match if program.executable = true then chainProgramdata sdk bank program else none with
          | none => ([(programId, program)], false)
          | some programdata =>
            let outer := chainAccounts sdk bank remaining program.owner
            ((programId, program) :: programdata ++ outer.1, outer.2)

/-- The accounts on the ways from some programs to the native loader, up to the first that does not lead
there. -/
def programAccounts (sdk : Sdk) (bank : PgBank) : List Pubkey → List TransactionAccount
  | [] => []
  | programId :: rest =>
    let chain := chainAccounts sdk bank 5 programId
    chain.1 ++ if chain.2 then programAccounts sdk bank rest else []

/-- The program data account that is loaded along with a key of a message. -/
def keyProgramdata (sdk : Sdk) (bank : PgBank) (message : SanitizedMessage) (entry : Pubkey × ℕ) :
    List TransactionAccount :=
  let account := bank.getAccountDefault entry.1
  if sdk.isNonLoaderKey message entry.2 = true ∧ entry.1 ≠ instructionsId ∧
      account.owner = bpfLoaderUpgradeableId ∧ account.executable = true then
    (programdataOf sdk bank account).toList
  else []

/-- The programs of the instructions of a message. -/
def SanitizedMessage.programIds (message : SanitizedMessage) : List Pubkey :=
  message.instructions.filterMap message.programId?

/-- The accounts that a transaction loads before its programs: those of its keys, and their program
data. -/
def keyAccounts (sdk : Sdk) (bank : PgBank) (message : SanitizedMessage) (featureSet : FeatureSet) :
    List TransactionAccount :=
  (message.accountKeys.zipIdx.map fun entry ↦
      (entry.1, accountOfKey sdk bank message featureSet entry.1 entry.2)) ++
    message.accountKeys.zipIdx.flatMap (keyProgramdata sdk bank message)

/-- Each account from a place on is found again at the place that its number is cut off to. -/
def FoundCutOff (accounts : List TransactionAccount) (first : ℕ) : Prop :=
  ∀ index < accounts.length, first ≤ index → accounts[index % 2 ^ 16]? = accounts[index]?

/-- Each account that the programs of a transaction need, appended to those of its keys, is found again
at the place that its number is cut off to. -/
def ProgramsFound (sdk : Sdk) (bank : PgBank) (message : SanitizedMessage) (featureSet : FeatureSet) :
    Prop :=
  FoundCutOff (keyAccounts sdk bank message featureSet ++ programAccounts sdk bank message.programIds)
    (keyAccounts sdk bank message featureSet).length

section FoundCutOff

variable {accounts front more : List TransactionAccount} {entry : TransactionAccount} {first : ℕ}

/-- Places that an index can name are not cut off. -/
theorem foundCutOff_of_length_le (hlength : accounts.length ≤ 2 ^ 16) (first : ℕ) :
    FoundCutOff accounts first := by
  intro index hindex _
  rw [Nat.mod_eq_of_lt (hindex.trans_le hlength)]

/-- There is nothing to find behind all accounts. -/
theorem foundCutOff_length (accounts : List TransactionAccount) : FoundCutOff accounts accounts.length :=
  fun _ hindex hfirst ↦ absurd hindex (Nat.not_lt.mpr hfirst)

/-- What is found is found among the accounts up to its own place. -/
theorem foundCutOff_append (hfirst : first ≤ front.length) :
    FoundCutOff (front ++ more) first ↔ FoundCutOff front first ∧ FoundCutOff (front ++ more) front.length := by
  have hsame : ∀ {index}, index < front.length →
      ((front ++ more)[index % 2 ^ 16]? = (front ++ more)[index]? ↔ front[index % 2 ^ 16]? = front[index]?) := by
    intro index hindex
    rw [List.getElem?_append_left hindex, List.getElem?_append_left ((Nat.mod_le _ _).trans_lt hindex)]
  have hlonger : front.length ≤ (front ++ more).length := by
    rw [List.length_append]
    exact Nat.le_add_right _ _
  constructor
  · refine fun hfound ↦ ⟨fun index hindex hle ↦ ?_, fun index hindex hle ↦ hfound index hindex (hfirst.trans hle)⟩
    exact (hsame hindex).mp (hfound index (hindex.trans_le hlonger) hle)
  · rintro ⟨hfront, hmore⟩ index hindex hle
    rcases Nat.lt_or_ge index front.length with hlt | hge
    · exact (hsame hlt).mpr (hfront index hlt hle)
    · exact hmore index hindex hge

/-- A program and its program data are found if each of them is. -/
theorem foundCutOff_cons (hmore : more.length ≤ 1) :
    FoundCutOff (accounts ++ entry :: more) accounts.length ↔
      (accounts ++ entry :: more)[accounts.length % 2 ^ 16]? = some entry ∧
        ∀ other ∈ more, (accounts ++ entry :: more)[(accounts.length + 1) % 2 ^ 16]? = some other := by
  have hentry : (accounts ++ entry :: more)[accounts.length]? = some entry := by
    rw [List.getElem?_append_right le_rfl, Nat.sub_self]
    rfl
  rcases more with - | ⟨other, - | ⟨third, more⟩⟩
  · constructor
    · intro hfound
      exact ⟨(hfound accounts.length (by simp) le_rfl).trans hentry, fun _ hother ↦ absurd hother List.not_mem_nil⟩
    · rintro ⟨hfirst, -⟩ index hindex hle
      obtain rfl : index = accounts.length := by
        rw [List.length_append, List.length_singleton] at hindex
        omega
      exact hfirst.trans hentry.symm
  · have hother : (accounts ++ [entry, other])[accounts.length + 1]? = some other := by
      rw [List.getElem?_append_right (Nat.le_add_right _ 1), Nat.add_sub_cancel_left]
      rfl
    rw [List.forall_mem_singleton]
    constructor
    · intro hfound
      exact ⟨(hfound accounts.length (by simp) le_rfl).trans hentry,
        (hfound (accounts.length + 1) (by simp) (Nat.le_succ _)).trans hother⟩
    · rintro ⟨hfirst, hsecond⟩ index hindex hle
      obtain rfl | rfl : index = accounts.length ∨ index = accounts.length + 1 := by
        rw [List.length_append, List.length_cons, List.length_singleton] at hindex
        omega
      · exact hfirst.trans hentry.symm
      · exact hsecond.trans hother.symm
  · exact absurd hmore (by simp)

end FoundCutOff

/-! ### What is loaded -/

section Loading

variable {sdk : Sdk} {bank : PgBank}

/-- Loading the program data of a program finds the account that the bank holds. -/
theorem loadProgramdata_eq_ok {program : Account} {entry : TransactionAccount} :
    loadProgramdata sdk bank program = .ok entry ↔ programdataOf sdk bank program = some entry := by
  unfold loadProgramdata programdataOf
  cases sdk.programdataAddress program with
  | none => simp
  | some address =>
    cases hheld : bank.getAccount address with
    | none => simp [hheld]
    | some account => simp [hheld]

/-- The program data account of a program is at the address of its program data, as the bank holds it. -/
theorem programdataOf_eq_some_iff {program : Account} {entry : TransactionAccount} :
    programdataOf sdk bank program = some entry ↔
      sdk.programdataAddress program = some entry.1 ∧ bank.getAccount entry.1 = some entry.2 := by
  unfold programdataOf
  cases sdk.programdataAddress program with
  | none => simp
  | some address =>
    obtain ⟨key, account⟩ := entry
    dsimp only
    rw [Option.map_eq_some_iff, Option.some.injEq]
    constructor
    · rintro ⟨found, hheld, heq⟩
      obtain ⟨rfl, rfl⟩ := Prod.mk.inj heq
      exact ⟨rfl, hheld⟩
    · rintro ⟨rfl, hheld⟩
      exact ⟨account, hheld, rfl⟩

/-- A program comes with one program data account at most. -/
theorem length_chainProgramdata {program : Account} {programdata : List TransactionAccount}
    (hprogramdata : chainProgramdata sdk bank program = some programdata) : programdata.length ≤ 1 := by
  unfold chainProgramdata at hprogramdata
  split at hprogramdata
  next =>
    obtain ⟨entry, -, rfl⟩ := Option.map_eq_some_iff.mp hprogramdata
    exact le_rfl
  next =>
    obtain rfl := Option.some.inj hprogramdata
    exact Nat.zero_le 1

/-- The way from a program that the bank holds begins with the program. -/
theorem chainAccounts_head (remaining : ℕ) {programId : Pubkey} {program : Account}
    (hne : programId ≠ nativeLoaderId) (hheld : bank.getAccount programId = some program) :
    ∃ rest, (chainAccounts sdk bank (remaining + 1) programId).1 = (programId, program) :: rest := by
  unfold chainAccounts
  rw [if_neg hne]
  dsimp only
  rw [hheld]
  dsimp only
  split
  next => exact ⟨[], rfl⟩
  next => exact ⟨_, rfl⟩

/-- The way from an executable program goes through the program, its program data and its owner. -/
theorem chainAccounts_succ {remaining : ℕ} {programId : Pubkey} {program : Account}
    {programdata : List TransactionAccount} (hne : programId ≠ nativeLoaderId)
    (hheld : bank.getAccount programId = some program) (hexecutable : program.executable = true)
    (hprogramdata : chainProgramdata sdk bank program = some programdata) :
    chainAccounts sdk bank (remaining + 1) programId =
      ((programId, program) :: programdata ++ (chainAccounts sdk bank remaining program.owner).1,
        (chainAccounts sdk bank remaining program.owner).2) := by
  rw [chainAccounts, if_neg hne]
  dsimp only
  rw [hheld]
  dsimp only
  rw [if_pos hexecutable, hprogramdata]

/-- A round of the loop of `load_executable_accounts` that does not fail appends the program that the
bank holds, and goes on with the program that it finds at the cut off place: that is executable, and it
is its program data that are appended. -/
theorem loadExecutableChain_succ_ok {alreadyLoaded : Bool} {limit : Option ℕ} {remaining : ℕ}
    {programId : Pubkey} {state result : ChainState} (hne : programId ≠ nativeLoaderId)
    (hok : loadExecutableChain sdk bank alreadyLoaded limit (remaining + 1) programId state =
      .ok result) :
    ∃ program key found programdata size, bank.getAccount programId = some program ∧
      (state.accounts ++ [(programId, program)])[state.accounts.length % 2 ^ 16]? = some (key, found) ∧
      found.executable = true ∧ chainProgramdata sdk bank found = some programdata ∧
      loadExecutableChain sdk bank alreadyLoaded limit remaining found.owner
        ⟨state.accounts ++ (programId, program) :: programdata,
          (programdata.map fun _ ↦ (state.accounts.length + 1) % 2 ^ 16) ++
            state.accounts.length % 2 ^ 16 :: state.accountIndices, size⟩ = .ok result := by
  unfold loadExecutableChain at hok
  rw [if_neg hne] at hok
  dsimp only at hok
  split at hok
  next => cases hok
  next program hheld =>
    split at hok
    next => cases hok
    next key found hfound =>
      simp only [Outcome.ite_err_eq_ok, Bool.not_eq_false] at hok
      obtain ⟨hexecutable, hok⟩ := hok
      obtain ⟨programdata, hprogramdata, hok⟩ := Outcome.bind_eq_ok.mp hok
      obtain ⟨size, -, hok⟩ := Outcome.bind_eq_ok.mp hok
      refine ⟨program, key, found, programdata, size, hheld, hfound, hexecutable, ?_, by simpa using hok⟩
      unfold chainProgramdata
      split at hprogramdata
      next howner =>
        obtain ⟨entry, hentry, hsingle⟩ := Outcome.bind_eq_ok.mp hprogramdata
        obtain rfl := Outcome.ok.inj hsingle
        rw [if_pos howner, loadProgramdata_eq_ok.mp hentry]
        rfl
      next howner =>
        obtain rfl := Outcome.ok.inj hprogramdata
        rw [if_neg howner]

/-- The program data of a program in a chain are where they should be if they are found at an index. -/
theorem programdataAt_iff_found {program : Account} {accounts programdata : List TransactionAccount}
    {index : ℕ} (hprogramdata : chainProgramdata sdk bank program = some programdata) :
    ProgramdataAt sdk bank accounts program (programdata.map fun _ ↦ index) ↔
      ∀ entry ∈ programdata, accounts[index]? = some entry := by
  unfold chainProgramdata at hprogramdata
  split at hprogramdata
  next howner =>
    obtain ⟨⟨address, account⟩, hentry, rfl⟩ := Option.map_eq_some_iff.mp hprogramdata
    obtain ⟨haddress, hheld⟩ := programdataOf_eq_some_iff.mp hentry
    rw [List.map_singleton, List.forall_mem_singleton]
    constructor
    · intro hat
      cases hat with
      | upgradeable _ haddress' hheld' hindex =>
        obtain rfl := Option.some.inj (haddress.symm.trans haddress')
        obtain rfl := Option.some.inj (hheld.symm.trans hheld')
        exact hindex
    · exact .upgradeable howner haddress hheld
  next howner =>
    obtain rfl := Option.some.inj hprogramdata
    exact iff_of_true (.fixed howner) fun _ hentry ↦ absurd hentry List.not_mem_nil

/-- There are as many indices of program data as there are program data. -/
theorem ProgramdataAt.length_eq {program : Account} {accounts programdata : List TransactionAccount}
    {indices : List ℕ} (hat : ProgramdataAt sdk bank accounts program indices)
    (hprogramdata : chainProgramdata sdk bank program = some programdata) :
    indices.length = programdata.length := by
  unfold chainProgramdata at hprogramdata
  cases hat with
  | fixed howner =>
    rw [if_neg howner] at hprogramdata
    obtain rfl := Option.some.inj hprogramdata
    rfl
  | upgradeable howner =>
    rw [if_pos howner] at hprogramdata
    obtain ⟨entry, -, rfl⟩ := Option.map_eq_some_iff.mp hprogramdata
    rfl

/-- Following the chain of loaders puts indices in front of the others. -/
theorem loadExecutableChain_accountIndices {alreadyLoaded : Bool} {limit : Option ℕ} {remaining : ℕ} :
    ∀ {programId : Pubkey} {state result : ChainState},
      loadExecutableChain sdk bank alreadyLoaded limit remaining programId state = .ok result →
        state.accountIndices <:+ result.accountIndices := by
  induction remaining with
  | zero =>
    intro programId state result hok
    unfold loadExecutableChain at hok
    split at hok
    next =>
      obtain rfl := Outcome.ok.inj hok
      exact List.suffix_rfl
    next => cases hok
  | succ remaining ih =>
    intro programId state result hok
    by_cases hnative : programId = nativeLoaderId
    · unfold loadExecutableChain at hok
      rw [if_pos hnative] at hok
      obtain rfl := Outcome.ok.inj hok
      exact List.suffix_rfl
    · obtain ⟨program, key, found, programdata, size, -, -, -, -, hrest⟩ :=
        loadExecutableChain_succ_ok hnative hok
      exact ((List.suffix_cons _ _).trans (List.suffix_append _ _)).trans (ih hrest)

/-- What is at a place that is not cut off further is there already before more is appended. -/
theorem getElem?_cutOff {accounts final : List TransactionAccount} {index : ℕ}
    (hbegins : accounts <+: final) (hindex : index < accounts.length) :
    accounts[index % 2 ^ 16]? = final[index % 2 ^ 16]? := by
  obtain ⟨rest, rfl⟩ := hbegins
  exact (List.getElem?_append_left ((Nat.mod_le _ _).trans_lt hindex)).symm

/-- Following the chain of loaders appends the accounts on the way from the program to the native
loader, which is then reached, and puts a chain of programs in front of the indices, if each of these
accounts is found again at its cut off place. -/
theorem loadExecutableChain_ok {alreadyLoaded : Bool} {limit : Option ℕ} {remaining : ℕ} :
    ∀ {programId : Pubkey} {state result : ChainState},
      FoundCutOff (state.accounts ++ (chainAccounts sdk bank remaining programId).1) state.accounts.length →
      loadExecutableChain sdk bank alreadyLoaded limit remaining programId state = .ok result →
        (chainAccounts sdk bank remaining programId).2 = true ∧
        result.accounts = state.accounts ++ (chainAccounts sdk bank remaining programId).1 ∧
        ∃ depth indices, depth ≤ remaining ∧
          result.accountIndices = indices ++ state.accountIndices ∧
          ProgramChain sdk bank result.accounts depth programId indices := by
  induction remaining with
  | zero =>
    intro programId state result _ hok
    unfold loadExecutableChain at hok
    split at hok
    next hnative =>
      obtain rfl := Outcome.ok.inj hok
      subst hnative
      exact ⟨rfl, (List.append_nil _).symm, 0, [], le_rfl, rfl, .native⟩
    next => cases hok
  | succ remaining ih =>
    intro programId state result hfound hok
    by_cases hnative : programId = nativeLoaderId
    · subst hnative
      unfold loadExecutableChain at hok
      obtain rfl := Outcome.ok.inj hok
      exact ⟨rfl, (List.append_nil _).symm, 0, [], Nat.zero_le _, rfl, .native⟩
    · obtain ⟨program, key, found, programdata, size, hheld, hcut, hexecutable, hprogramdata, hrest⟩ :=
        loadExecutableChain_succ_ok hnative hok
      -- the program is found at its cut off place, and not another one
      obtain ⟨others, hothers⟩ := @chainAccounts_head sdk _ remaining _ _ hnative hheld
      have hhead : (state.accounts ++ [(programId, program)])[state.accounts.length % 2 ^ 16]? =
          some (programId, program) := by
        rw [hothers, ← List.singleton_append, ← List.append_assoc,
          foundCutOff_append (by rw [List.length_append]; exact Nat.le_add_right _ _)] at hfound
        exact ((foundCutOff_cons (show ([] : List TransactionAccount).length ≤ 1 from Nat.zero_le 1)).mp hfound.1).1
      obtain rfl : program = found := (Prod.mk.inj (Option.some.inj (hhead.symm.trans hcut))).2
      have hchain : chainAccounts sdk bank (remaining + 1) programId =
          ((programId, program) :: programdata ++ (chainAccounts sdk bank remaining program.owner).1,
            (chainAccounts sdk bank remaining program.owner).2) :=
        chainAccounts_succ hnative hheld hexecutable hprogramdata
      rw [hchain] at hfound ⊢
      dsimp only at hfound ⊢
      rw [← List.append_assoc,
        foundCutOff_append (by rw [List.length_append]; exact Nat.le_add_right _ _)] at hfound
      obtain ⟨hreaches, haccounts, depth, outer, hdepth, hindices, howner⟩ := ih hfound.2 hrest
      dsimp only at haccounts hindices
      obtain ⟨hplace, hdata⟩ := (foundCutOff_cons (length_chainProgramdata hprogramdata)).mp hfound.1
      rw [haccounts] at howner
      have hchain := ProgramChain.program hnative hheld ((List.getElem?_append_left
        (List.getElem?_eq_some_iff.mp hplace).1).trans hplace) hexecutable
          ((programdataAt_iff_found hprogramdata).mpr hdata).append howner
      rw [← haccounts] at hchain
      exact ⟨hreaches, by rw [haccounts, List.append_assoc], depth + 1, _, Nat.succ_le_succ hdepth,
        by simpa using hindices, hchain⟩

/-- If following the chain of loaders has put a chain of programs in front of the indices, as it is in a
vector that goes on behind the accounts, then it has appended the accounts on the way from the program to
the native loader, and each of them is found again at its cut off place. -/
theorem foundCutOff_of_programChain {alreadyLoaded : Bool} {limit : Option ℕ} {remaining : ℕ}
    {final : List TransactionAccount} :
    ∀ {depth : ℕ} {programId : Pubkey} {state result : ChainState} {indices : List ℕ},
      loadExecutableChain sdk bank alreadyLoaded limit remaining programId state = .ok result →
      result.accounts <+: final → result.accountIndices = indices ++ state.accountIndices →
      ProgramChain sdk bank final depth programId indices →
        (chainAccounts sdk bank remaining programId).2 = true ∧
        result.accounts = state.accounts ++ (chainAccounts sdk bank remaining programId).1 ∧
        FoundCutOff result.accounts state.accounts.length := by
  induction remaining with
  | zero =>
    intro depth programId state result indices hok _ _ _
    unfold loadExecutableChain at hok
    split at hok
    next hnative =>
      obtain rfl := Outcome.ok.inj hok
      subst hnative
      exact ⟨rfl, (List.append_nil _).symm, foundCutOff_length _⟩
    next => cases hok
  | succ remaining ih =>
    intro depth programId state result indices hok hfinal hindices hchain
    cases hchain with
    | native =>
      unfold loadExecutableChain at hok
      obtain rfl := Outcome.ok.inj hok
      exact ⟨rfl, (List.append_nil _).symm, foundCutOff_length _⟩
    | @program depth _ program index outer programdataIndices hnative hheld hindex _ hat howner =>
      obtain ⟨program', key, found, programdata, size, hheld', hcut, hexecutable, hprogramdata, hrest⟩ :=
        loadExecutableChain_succ_ok hnative hok
      obtain rfl := Option.some.inj (hheld.symm.trans hheld')
      have hgrown := loadExecutableChain_accounts hrest
      dsimp only at hgrown
      have hlt : state.accounts.length < (state.accounts ++ (programId, program) :: programdata).length := by
        rw [List.length_append, List.length_cons]
        omega
      -- the last of the indices is that of the program
      obtain ⟨inner, hinner⟩ := loadExecutableChain_accountIndices hrest
      dsimp only at hinner
      have hall : inner ++ (programdata.map fun _ ↦ (state.accounts.length + 1) % 2 ^ 16) ++
          [state.accounts.length % 2 ^ 16] = outer ++ programdataIndices ++ [index] := by
        refine (List.append_left_inj state.accountIndices).mp ?_
        rw [← hindices, ← hinner]
        simp
      obtain ⟨hfront, hlast⟩ := List.append_inj' hall rfl
      obtain rfl := List.singleton_inj.mp hlast
      have hplace := (getElem?_cutOff (hgrown.trans hfinal) hlt).trans hindex
      have hhead : (state.accounts ++ [(programId, program)])[state.accounts.length % 2 ^ 16]? =
          some (programId, program) := by
        refine (getElem?_cutOff ?_ (by simp)).trans hplace
        exact List.prefix_append_right_inj _ |>.mpr (List.cons_prefix_cons.mpr ⟨rfl, List.nil_prefix⟩)
      obtain rfl : program = found := (Prod.mk.inj (Option.some.inj (hhead.symm.trans hcut))).2
      -- those in front of it are those of its program data
      obtain ⟨rfl, rfl⟩ := List.append_inj' hfront
        ((List.length_map _).trans (hat.length_eq hprogramdata).symm)
      rw [chainAccounts_succ hnative hheld hexecutable hprogramdata]
      obtain ⟨hreaches, haccounts, hfound⟩ := ih hrest hfinal hinner.symm howner
      dsimp only at haccounts hfound ⊢
      refine ⟨hreaches, by rw [haccounts, List.append_assoc], ?_⟩
      rw [haccounts] at hfound ⊢
      refine (foundCutOff_append (Nat.le_of_lt hlt)).mpr
        ⟨(foundCutOff_cons (length_chainProgramdata hprogramdata)).mpr ⟨hplace, fun entry hentry ↦ ?_⟩, hfound⟩
      refine (getElem?_cutOff (hgrown.trans hfinal) ?_).trans
        ((programdataAt_iff_found hprogramdata).mp hat entry hentry)
      have hpos := List.length_pos_of_mem hentry
      rw [List.length_append, List.length_cons]
      omega

variable {message : SanitizedMessage}

/-- Loading the programs of an instruction follows the chain of loaders from its program. -/
theorem loadInstruction_eq_ok {limit : Option ℕ} {state result : LoadedTransaction × ℕ}
    {instruction : CompiledInstruction} {programId : Pubkey}
    (hkeys : message.accountKeys <+: state.1.accounts.map Prod.fst)
    (hkey : message.programId? instruction = some programId)
    (hok : loadInstruction sdk bank limit state instruction = .ok result) :
    ∃ alreadyLoaded chain,
      loadExecutableChain sdk bank alreadyLoaded limit 5 programId ⟨state.1.accounts, [], state.2⟩ = .ok chain ∧
        result.1 = ⟨chain.accounts, state.1.programIndices ++ [chain.accountIndices]⟩ := by
  obtain ⟨chain, hchain, hok⟩ := Outcome.bind_eq_ok.mp hok
  obtain rfl := Outcome.ok.inj hok
  obtain ⟨others, hothers⟩ := hkeys
  have hfound : (state.1.accounts.map Prod.fst)[instruction.programIdIndex.toNat]? =
      some programId := by
    rw [← hothers, List.getElem?_append_left (List.getElem?_eq_some_iff.mp hkey).1]
    exact hkey
  rw [List.getElem?_map] at hfound
  obtain ⟨⟨key, account⟩, hentry, rfl⟩ := Option.map_eq_some_iff.mp hfound
  unfold loadExecutableAccounts at hchain
  rw [hentry] at hchain
  exact ⟨_, chain, hchain, rfl⟩

/-- Loading the programs of some instructions appends accounts and lists of indices. -/
theorem loadInstructions_begins {limit : Option ℕ} {instructions : List CompiledInstruction} :
    ∀ {state result : LoadedTransaction × ℕ},
      instructions.foldlM (loadInstruction sdk bank limit) state = .ok result →
        state.1.accounts <+: result.1.accounts ∧ state.1.programIndices <+: result.1.programIndices := by
  induction instructions with
  | nil =>
    intro state result hok
    obtain rfl := Outcome.ok.inj hok
    exact ⟨List.prefix_rfl, List.prefix_rfl⟩
  | cons instruction rest ih =>
    intro state result hok
    rw [List.foldlM_cons] at hok
    obtain ⟨middle, hfirst, hrest⟩ := Outcome.bind_eq_ok.mp hok
    obtain ⟨haccounts, hindices⟩ := ih hrest
    refine ⟨(loadInstruction_accounts hfirst).1.trans haccounts, List.IsPrefix.trans ?_ hindices⟩
    obtain ⟨chain, -, hfirst⟩ := Outcome.bind_eq_ok.mp hfirst
    obtain rfl := Outcome.ok.inj hfirst
    exact List.prefix_append _ _

/-- Loading the programs of some instructions appends the accounts on the ways from their programs to the
native loader, and one chain of programs for each, if each of these accounts is found again at its cut
off place. -/
theorem loadInstructions_ok {limit : Option ℕ} {instructions : List CompiledInstruction} :
    ∀ {state result : LoadedTransaction × ℕ},
      message.accountKeys <+: state.1.accounts.map Prod.fst →
      (∀ instruction ∈ instructions,
        instruction.programIdIndex.toNat < message.accountKeys.length) →
      FoundCutOff (state.1.accounts ++
        programAccounts sdk bank (instructions.filterMap message.programId?)) state.1.accounts.length →
      instructions.foldlM (loadInstruction sdk bank limit) state = .ok result →
        ∃ chains, result.1.programIndices = state.1.programIndices ++ chains ∧
          List.Forall₂ (fun instruction indices ↦ ∃ programId depth,
              message.programId? instruction = some programId ∧ depth ≤ 5 ∧
                ProgramChain sdk bank result.1.accounts depth programId indices)
            instructions chains := by
  induction instructions with
  | nil =>
    intro state result _ _ _ hok
    obtain rfl := Outcome.ok.inj hok
    exact ⟨[], (List.append_nil _).symm, .nil⟩
  | cons instruction rest ih =>
    intro state result hkeys hindices hfound hok
    rw [List.foldlM_cons] at hok
    obtain ⟨middle, hfirst, hrest⟩ := Outcome.bind_eq_ok.mp hok
    obtain ⟨programId, hkey⟩ : ∃ programId, message.programId? instruction = some programId :=
      ⟨_, List.getElem?_eq_getElem (hindices instruction List.mem_cons_self)⟩
    rw [List.filterMap_cons_some hkey, programAccounts, ← List.append_assoc,
      foundCutOff_append (by rw [List.length_append]; exact Nat.le_add_right _ _)] at hfound
    obtain ⟨alreadyLoaded, chain, hchain, hmiddle⟩ := loadInstruction_eq_ok hkeys hkey hfirst
    obtain ⟨hreaches, haccounts, depth, indices, hdepth, hprogramIndices, hprograms⟩ :=
      loadExecutableChain_ok hfound.1 hchain
    rw [hreaches, if_pos rfl] at hfound
    rw [List.append_nil] at hprogramIndices
    have hgrown : middle.1.accounts = state.1.accounts ++ (chainAccounts sdk bank 5 programId).1 := by
      rw [hmiddle, haccounts]
    obtain ⟨chains, hchains, hothers⟩ := ih
      (hkeys.trans (by rw [hgrown, List.map_append]; exact List.prefix_append _ _))
      (fun other hother ↦ hindices other (List.mem_cons_of_mem _ hother))
      (by rw [hgrown]; exact hfound.2) hrest
    obtain ⟨later, hlater⟩ := (loadInstructions_begins hrest).1
    refine ⟨indices :: chains, ?_, .cons ⟨programId, depth, hkey, hdepth, ?_⟩ hothers⟩
    · rw [hchains, hmiddle, hprogramIndices, List.append_assoc, List.singleton_append]
    · rw [← hlater, hmiddle]
      exact hprograms.append

/-- If loading the programs of some instructions has appended chains of programs for each, as they are in
a vector that goes on behind the accounts, then it has appended the accounts on the ways from their
programs to the native loader, and each of them is found again at its cut off place. -/
theorem foundCutOff_of_programChains {limit : Option ℕ} {final : List TransactionAccount}
    {instructions : List CompiledInstruction} :
    ∀ {state result : LoadedTransaction × ℕ} {chains : List (List ℕ)},
      message.accountKeys <+: state.1.accounts.map Prod.fst →
      instructions.foldlM (loadInstruction sdk bank limit) state = .ok result →
      result.1.accounts <+: final → result.1.programIndices = state.1.programIndices ++ chains →
      List.Forall₂ (fun instruction indices ↦ ∃ programId depth,
          message.programId? instruction = some programId ∧
            ProgramChain sdk bank final depth programId indices) instructions chains →
        result.1.accounts = state.1.accounts ++
            programAccounts sdk bank (instructions.filterMap message.programId?) ∧
          FoundCutOff result.1.accounts state.1.accounts.length := by
  induction instructions with
  | nil =>
    intro state result chains _ hok _ _ _
    obtain rfl := Outcome.ok.inj hok
    exact ⟨(List.append_nil _).symm, foundCutOff_length _⟩
  | cons instruction rest ih =>
    intro state result chains hkeys hok hfinal hindices hprograms
    rw [List.foldlM_cons] at hok
    obtain ⟨middle, hfirst, hrest⟩ := Outcome.bind_eq_ok.mp hok
    cases hprograms with
    | @cons _ indices _ chains hprogram hothers =>
    obtain ⟨programId, depth, hkey, hchain⟩ := hprogram
    obtain ⟨alreadyLoaded, chain, hloaded, hmiddle⟩ := loadInstruction_eq_ok hkeys hkey hfirst
    obtain ⟨hlater, more, hmore⟩ := loadInstructions_begins hrest
    -- the first of the chains is the one that the first instruction has appended
    rw [hindices, hmiddle, List.append_assoc] at hmore
    obtain ⟨rfl, rfl⟩ := List.cons.inj (List.append_cancel_left hmore)
    have hgrown : middle.1.accounts = chain.accounts := by rw [hmiddle]
    obtain ⟨hreaches, haccounts, hfound⟩ := foundCutOff_of_programChain hloaded
      ((hgrown ▸ hlater).trans hfinal) (List.append_nil _).symm hchain
    rw [← hgrown] at haccounts hfound
    obtain ⟨hall, hrestFound⟩ := ih
      (hkeys.trans (by rw [haccounts, List.map_append]; exact List.prefix_append _ _)) hrest hfinal
      (by rw [hindices, hmiddle, List.append_assoc]; rfl) hothers
    rw [List.filterMap_cons_some hkey, programAccounts, hreaches, if_pos rfl, ← List.append_assoc,
      ← haccounts]
    refine ⟨hall, ?_⟩
    rw [hall] at hrestFound ⊢
    exact (foundCutOff_append (by rw [haccounts, List.length_append]; exact Nat.le_add_right _ _)).mpr
      ⟨hfound, hrestFound⟩

/-- An account that is not loaded as a program depends on its program data if it is itself a program. -/
theorem loadAccountDeps_ok {index : ℕ} {account : Account} {deps : List TransactionAccount}
    (hok : loadAccountDeps sdk bank message index account = .ok deps) :
    deps = if account.owner = bpfLoaderUpgradeableId ∧ account.executable = true then
      (programdataOf sdk bank account).toList else [] := by
  unfold loadAccountDeps at hok
  split at hok
  next howner =>
    rw [Outcome.ite_err_eq_ok] at hok
    replace hok := hok.2
    split at hok
    next hexecutable =>
      obtain ⟨entry, hentry, hok⟩ := Outcome.bind_eq_ok.mp hok
      obtain rfl := Outcome.ok.inj hok
      rw [if_pos ⟨howner, hexecutable⟩, loadProgramdata_eq_ok.mp hentry]
      rfl
    next hexecutable =>
      obtain rfl := Outcome.ok.inj hok
      rw [if_neg fun hboth ↦ hexecutable hboth.2]
  next howner =>
    rw [Outcome.ite_err_eq_ok] at hok
    obtain rfl := Outcome.ok.inj hok.2
    rw [if_neg fun hboth ↦ howner hboth.1]

/-- A key of a message comes with its program data. -/
theorem loadKey_deps {fee : UInt64} {featureSet : FeatureSet} {validated : Bool} {key : Pubkey}
    {index : ℕ} {account : Account} {deps : List TransactionAccount} {rest : ℕ × Bool}
    (hok : loadKey sdk bank message fee featureSet validated key index =
      .ok (account, deps, rest)) :
    deps = keyProgramdata sdk bank message (key, index) := by
  unfold loadKey at hok
  split at hok
  next hloader =>
    obtain ⟨-, hdeps⟩ := Prod.mk.inj (Outcome.ok.inj hok)
    obtain rfl := (Prod.mk.inj hdeps).1
    simp [keyProgramdata, hloader]
  next hloader =>
    split at hok
    next hkey =>
      obtain ⟨-, hdeps⟩ := Prod.mk.inj (Outcome.ok.inj hok)
      obtain rfl := (Prod.mk.inj hdeps).1
      simp [keyProgramdata, hkey]
    next hkey =>
      obtain ⟨_, -, hok⟩ := Outcome.bind_eq_ok.mp hok
      obtain ⟨found, hfound, hok⟩ := Outcome.bind_eq_ok.mp hok
      obtain ⟨-, hdeps⟩ := Prod.mk.inj (Outcome.ok.inj hok)
      obtain rfl := (Prod.mk.inj hdeps).1
      rw [loadAccountDeps_ok hfound]
      simp [keyProgramdata, hloader, hkey]

/-- A round of the loop over the keys appends the program data of its key. -/
theorem loadAccountKey_accountDeps {fee : UInt64} {featureSet : FeatureSet} {limit : Option ℕ}
    {state result : LoadState} {entry : Pubkey × ℕ}
    (hok : loadAccountKey sdk bank message fee featureSet limit state entry = .ok result) :
    result.accountDeps = state.accountDeps ++ keyProgramdata sdk bank message entry := by
  obtain ⟨⟨account, deps, rest⟩, hkey, hok⟩ := Outcome.bind_eq_ok.mp hok
  obtain ⟨accumulated, -, hok⟩ := Outcome.bind_eq_ok.mp hok
  obtain rfl := Outcome.ok.inj hok
  rw [← loadKey_deps hkey]

/-- The keys of a message load their accounts, and the program data that come with them. -/
theorem loadAccountKeys_ok {fee : UInt64} {featureSet : FeatureSet} {limit : Option ℕ} {loaded : LoadState}
    (hok : message.accountKeys.zipIdx.foldlM (loadAccountKey sdk bank message fee featureSet limit)
      ⟨[], [], false, 0⟩ = .ok loaded) :
    loaded.accounts ++ loaded.accountDeps = keyAccounts sdk bank message featureSet := by
  obtain ⟨haccounts, hdeps⟩ := Outcome.foldlM_invariant_done
    (fun (done : List (Pubkey × ℕ)) (state : LoadState) ↦
      state.accounts = done.map (fun entry ↦
          (entry.1, accountOfKey sdk bank message featureSet entry.1 entry.2)) ∧
        state.accountDeps = done.flatMap (keyProgramdata sdk bank message))
    [] (fun done state entry result _ hstate hstep ↦ by
      rw [loadAccountKey_accounts hstep, loadAccountKey_accountDeps hstep, hstate.1, hstate.2,
        List.map_append, List.flatMap_append, List.flatMap_singleton]
      exact ⟨rfl, rfl⟩) ⟨rfl, rfl⟩ hok
  rw [haccounts, hdeps]
  rfl

/-- The accounts that are loaded before the programs begin with those of the keys. -/
theorem accountKeys_prefix (sdk : Sdk) (bank : PgBank) (message : SanitizedMessage) (featureSet : FeatureSet) :
    message.accountKeys <+: (keyAccounts sdk bank message featureSet).map Prod.fst := by
  have hkeys : (message.accountKeys.zipIdx.map fun entry ↦
      (entry.1, accountOfKey sdk bank message featureSet entry.1 entry.2)).map Prod.fst =
        message.accountKeys := by
    rw [List.map_map]
    exact List.zipIdx_map_fst 0 message.accountKeys
  rw [keyAccounts, List.map_append, hkeys]
  exact List.prefix_append _ _

end Loading

/-- A transaction with few enough accounts finds those of its programs. -/
theorem programsFound_of_length_le {sdk : Sdk} {bank : PgBank} {message : SanitizedMessage}
    {featureSet : FeatureSet}
    (hlength : (keyAccounts sdk bank message featureSet).length +
      (programAccounts sdk bank message.programIds).length ≤ 2 ^ 16) :
    ProgramsFound sdk bank message featureSet :=
  foundCutOff_of_length_le (by rw [List.length_append]; exact hlength) _

/-- A transaction that loads has loaded the accounts of its keys, in front of the others, and a chain of
executable programs for each of its instructions, exactly if each account that its programs need is found
again at the place that its number is cut off to. -/
theorem loadedWell_iff_programsFound (sdk : Sdk) (bank : PgBank) (tx : SanitizedTransaction)
    (fee : UInt64) (featureSet : FeatureSet) (loadedTx : LoadedTransaction)
    (hok : loadTxAccounts sdk bank tx fee featureSet = .ok loadedTx) :
    LoadedWell sdk bank tx loadedTx ↔ ProgramsFound sdk bank tx.message featureSet := by
  rw [loadTxAccounts, Outcome.ite_err_eq_ok] at hok
  obtain ⟨loaded, hloaded, hok⟩ := Outcome.bind_eq_ok.mp hok.2
  rw [Outcome.ite_err_eq_ok] at hok
  obtain ⟨⟨loadedTx', size⟩, hprograms, hok⟩ := Outcome.bind_eq_ok.mp hok.2
  obtain rfl := Outcome.ok.inj hok
  rw [loadAccountKeys_ok hloaded] at hprograms
  have hkeys := accountKeys_prefix sdk bank tx.message featureSet
  constructor
  · intro hwell
    obtain ⟨haccounts, hfound⟩ := foundCutOff_of_programChains hkeys hprograms List.prefix_rfl
      (List.nil_append _).symm (hwell.programs.imp fun instruction indices ↦ by
        rintro ⟨-, programId, depth, hkey, -, hchain⟩
        exact ⟨programId, depth, hkey, hchain⟩)
    rw [haccounts] at hfound
    exact hfound
  · intro hfound
    obtain ⟨chains, hchains, hprogramChains⟩ :=
      loadInstructions_ok hkeys tx.programIdIndex_lt (by exact hfound) hprograms
    constructor
    · rw [List.map_take]
      exact (List.prefix_iff_eq_take.mp
        (hkeys.trans ((loadInstructions_begins hprograms).1.map Prod.fst))).symm
    · rw [hchains, List.nil_append]
      refine hprogramChains.imp fun instruction indices ↦ ?_
      rintro ⟨programId, depth, hkey, hdepth, hchain⟩
      exact ⟨hchain.lt, programId, depth, hkey, hdepth, hchain⟩

/-! ### A program called too often -/

/-- The address in the data of an account that hold an `UpgradeableLoaderState::Program`. -/
def readProgramdataAddress (account : Account) : Option Pubkey :=
  if account.data.take 4 = littleEndian 4 2 ∧ 36 ≤ account.data.length then
    some (BitVec.ofNat 256 (ofLittleEndian ((account.data.drop 4).take 32).reverse))
  else none

/-- The implementation of the SDK, with upgradeable programs. -/
def upgradeableSdk : Sdk :=
  { referenceSdk with programdataAddress := readProgramdataAddress }

/-- The key of an upgradeable program. -/
def programKey : Pubkey :=
  0x4f#256

/-- The key of its program data. -/
def programdataKey : Pubkey :=
  0x5f#256

/-- The account of the upgradeable program. -/
def programAccount : Account :=
  { lamports := 1, data := littleEndian 4 2 ++ referenceHashToBytes programdataKey
    owner := bpfLoaderUpgradeableId, executable := true }

/-- The account of its program data. -/
def programdataAccount : Account :=
  { lamports := 1, data := littleEndian 4 3, owner := bpfLoaderUpgradeableId }

/-- A bank with the upgradeable program. -/
def programBank : PgBank :=
  ((new upgradeableSdk (referenceSerde none) payerKp none).setAccount programKey
    programAccount).setAccount programdataKey programdataAccount

/-- Such a transaction has a signature. -/
theorem callsTx_signatures_ne_nil : ([1#512] : List Signature) ≠ [] :=
  List.cons_ne_nil _ _

/-- A transaction that calls the program a number of times. -/
def callsTx (count : ℕ) : SanitizedTransaction where
  signatures := [1#512]
  message :=
    { header := ⟨1, 0, 2⟩
      accountKeys := [payerKp.pubkey, bpfLoaderUpgradeableId, programKey]
      recentBlockhash := 0
      instructions := List.replicate count ⟨2, [], []⟩ }
  signatures_ne_nil := callsTx_signatures_ne_nil
  programIdIndex_lt := by
    intro instruction hmem
    obtain rfl := List.eq_of_mem_replicate hmem
    exact Nat.lt_succ_self 2
  accounts_lt := by
    intro instruction hmem index hindex
    obtain rfl := List.eq_of_mem_replicate hmem
    exact absurd hindex List.not_mem_nil

/-- The accounts of the keys of such a transaction. -/
def callsKeyAccounts : List TransactionAccount :=
  [(payerKp.pubkey, airdropAccount), (bpfLoaderUpgradeableId, nativeProgramAccount),
    (programKey, programAccount)]

/-- The accounts that are loaded for a call of the program. -/
def callAccounts : List TransactionAccount :=
  [(programKey, programAccount), (programdataKey, programdataAccount),
    (bpfLoaderUpgradeableId, nativeProgramAccount)]

/-- A transaction that calls the program once. -/
theorem loadedWell_iff_programsFound_one_call :
    loadTxAccounts upgradeableSdk programBank (callsTx 1) 0 (fun _ ↦ false) =
        .ok ⟨callsKeyAccounts ++ callAccounts, [[5, 4, 3]]⟩ ∧
      LoadedWell upgradeableSdk programBank (callsTx 1)
        ⟨callsKeyAccounts ++ callAccounts, [[5, 4, 3]]⟩ := by
  have hok : loadTxAccounts upgradeableSdk programBank (callsTx 1) 0 (fun _ ↦ false) =
      .ok ⟨callsKeyAccounts ++ callAccounts, [[5, 4, 3]]⟩ := by decide +kernel
  have hfound : ProgramsFound upgradeableSdk programBank (callsTx 1).message fun _ ↦ false :=
    programsFound_of_length_le (by decide +kernel)
  exact ⟨hok, (loadedWell_iff_programsFound upgradeableSdk programBank (callsTx 1) 0 _ _ hok).mpr hfound⟩

/-- A call of the program appends its accounts, wherever the cut off indices point as long as there is
an account like the one that was meant. -/
theorem loadInstruction_call {state : LoadedTransaction × ℕ} {key loaderKey : Pubkey}
    (hprogram : state.1.accounts[2]? = some (programKey, programAccount))
    (hcut : (state.1.accounts ++ [(programKey, programAccount)])[state.1.accounts.length % 2 ^ 16]? =
      some (key, programAccount))
    (hloader : (state.1.accounts ++ callAccounts)[(state.1.accounts.length + 2) % 2 ^ 16]? =
      some (loaderKey, nativeProgramAccount)) :
    loadInstruction upgradeableSdk programBank none state ⟨2, [], []⟩ =
      .ok (⟨state.1.accounts ++ callAccounts, state.1.programIndices ++
        [[(state.1.accounts.length + 2) % 2 ^ 16, (state.1.accounts.length + 1) % 2 ^ 16,
          state.1.accounts.length % 2 ^ 16]]⟩, state.2) := by
  have hheld : programBank.getAccount programKey = some programAccount := by decide +kernel
  have hdata : loadProgramdata upgradeableSdk programBank programAccount =
      .ok (programdataKey, programdataAccount) := by decide +kernel
  have hnative : programBank.getAccount bpfLoaderUpgradeableId = some nativeProgramAccount := by
    decide +kernel
  have hloaderRound : ∀ indices size, loadExecutableChain upgradeableSdk programBank true none 4
      bpfLoaderUpgradeableId ⟨state.1.accounts ++ callAccounts.take 2, indices, size⟩ =
        .ok ⟨state.1.accounts ++ callAccounts,
          (state.1.accounts.length + 2) % 2 ^ 16 :: indices, size⟩ := by
    intro indices size
    have hlast : state.1.accounts ++ callAccounts.take 2 ++
        [(bpfLoaderUpgradeableId, nativeProgramAccount)] = state.1.accounts ++ callAccounts := by
      simp [callAccounts]
    have hlength : (state.1.accounts ++ callAccounts.take 2).length = state.1.accounts.length + 2 := by
      simp [callAccounts]
    unfold loadExecutableChain
    rw [if_neg (by decide)]
    dsimp only
    rw [hnative]
    dsimp only
    rw [hlast, hlength, hloader]
    dsimp only
    rw [if_neg (by decide), if_neg (by decide)]
    simp only [Outcome.ok_bind, List.map_nil, List.append_nil, List.nil_append,
      accumulateAndCheckLoadedAccountDataSize]
    unfold loadExecutableChain
    rw [if_pos (by decide)]
  have htwo : state.1.accounts ++ [(programKey, programAccount)] ++
      [(programdataKey, programdataAccount)] = state.1.accounts ++ callAccounts.take 2 := by
    simp [callAccounts]
  have hchain : loadExecutableAccounts upgradeableSdk programBank none state.1.accounts 2 state.2 =
      .ok ⟨state.1.accounts ++ callAccounts, [(state.1.accounts.length + 2) % 2 ^ 16,
        (state.1.accounts.length + 1) % 2 ^ 16, state.1.accounts.length % 2 ^ 16], state.2⟩ := by
    unfold loadExecutableAccounts
    rw [hprogram]
    dsimp only
    unfold loadExecutableChain
    rw [if_neg (by decide)]
    dsimp only
    rw [hheld]
    dsimp only
    rw [hcut]
    dsimp only
    rw [if_neg (by decide), if_pos (by decide), hdata]
    simp only [Outcome.ok_bind, List.map_cons, List.map_nil, accumulateAndCheckLoadedAccountDataSize,
      List.length_append, List.length_singleton, htwo]
    exact hloaderRound _ _
  have hindex : (2 : UInt8).toNat = 2 := rfl
  rw [loadInstruction, hindex, hchain]
  rfl

/-- The accounts after a number of calls. -/
theorem length_calls (count : ℕ) :
    (callsKeyAccounts ++ (List.replicate count callAccounts).flatten).length = 3 + 3 * count := by
  simp only [List.length_append, List.length_flatten, List.map_replicate, List.sum_replicate]
  exact congrArg (3 + ·) (Nat.mul_comm count 3)

/-- Calls of the program whose accounts can be counted have indices in order. -/
theorem loadInstruction_calls (count : ℕ) (hcount : 3 + 3 * count ≤ 2 ^ 16) :
    (List.replicate count (⟨2, [], []⟩ : CompiledInstruction)).foldlM
        (loadInstruction upgradeableSdk programBank none) (⟨callsKeyAccounts, []⟩, 0) =
      .ok (⟨callsKeyAccounts ++ (List.replicate count callAccounts).flatten,
        (List.range count).map fun call ↦ [3 + 3 * call + 2, 3 + 3 * call + 1, 3 + 3 * call]⟩,
        0) := by
  induction count with
  | zero => rfl
  | succ count ih =>
    have hlength := length_calls count
    have hcut : (callsKeyAccounts ++ (List.replicate count callAccounts).flatten ++
        [(programKey, programAccount)])[(3 + 3 * count) % 2 ^ 16]? =
          some (programKey, programAccount) := by
      rw [Nat.mod_eq_of_lt (by omega), ← hlength, List.getElem?_concat_length]
    have hloader : (callsKeyAccounts ++ (List.replicate count callAccounts).flatten ++
        callAccounts)[(3 + 3 * count + 2) % 2 ^ 16]? =
          some (bpfLoaderUpgradeableId, nativeProgramAccount) := by
      rw [Nat.mod_eq_of_lt (by omega), ← hlength, List.getElem?_append_right (Nat.le_add_right _ 2),
        Nat.add_sub_cancel_left]
      rfl
    rw [← hlength] at hcut hloader
    have hflatten : (List.replicate (count + 1) callAccounts).flatten =
        (List.replicate count callAccounts).flatten ++ callAccounts := by
      rw [List.replicate_succ', List.flatten_concat]
    rw [hflatten, List.replicate_succ', List.foldlM_append, ih (by omega), Outcome.ok_bind, List.foldlM_cons,
      loadInstruction_call rfl hcut hloader, Outcome.ok_bind, List.foldlM_nil, hlength,
      Nat.mod_eq_of_lt (by omega), Nat.mod_eq_of_lt (by omega), Nat.mod_eq_of_lt (by omega),
      List.range_succ, List.map_append, ← List.append_assoc]
    rfl

/-- The program of a transaction that calls it is not loaded before it is called. -/
theorem isNonLoaderKey_calls {count : ℕ} (hcount : 0 < count) (index : ℕ) :
    upgradeableSdk.isNonLoaderKey (callsTx count).message index = decide (index ≠ 2) := by
  have hne : count ≠ 0 := Nat.pos_iff_ne_zero.mp hcount
  change referenceIsNonLoaderKey (callsTx count).message index = _
  simp [referenceIsNonLoaderKey, callsTx, List.any_replicate, hne, eq_comm]

/-- The keys of a transaction that calls the program load. -/
theorem loadAccountKeys_calls {count : ℕ} (hcount : 0 < count) :
    (callsTx count).message.accountKeys.zipIdx.foldlM
        (loadAccountKey upgradeableSdk programBank (callsTx count).message 0 (fun _ ↦ false) none)
        ⟨[], [], false, 0⟩ =
      .ok ⟨callsKeyAccounts, [], true, 0⟩ := by
  have hpayer : loadKey upgradeableSdk programBank (callsTx count).message 0 (fun _ ↦ false) false
      payerKp.pubkey 0 = .ok (airdropAccount, [], 0, true) := by
    have haccount : programBank.getAccountDefault payerKp.pubkey = airdropAccount := by
      decide +kernel
    have hvalid : validateFeePayer upgradeableSdk airdropAccount 0 = .ok () := by decide +kernel
    rw [loadKey, isNonLoaderKey_calls hcount, if_neg (by decide), if_neg (by decide), haccount]
    dsimp only
    rw [if_pos rfl, hvalid]
    rfl
  have hloader : loadKey upgradeableSdk programBank (callsTx count).message 0 (fun _ ↦ false) true
      bpfLoaderUpgradeableId 1 = .ok (nativeProgramAccount, [], 0, true) := by
    have haccount : programBank.getAccountDefault bpfLoaderUpgradeableId = nativeProgramAccount := by
      decide +kernel
    have hwritable : upgradeableSdk.isWritable (callsTx count).message 1 = false := by
      change referenceIsWritable (callsTx count).message 1 = false
      simp [referenceIsWritable, callsTx, reservedKeys]
    rw [loadKey, isNonLoaderKey_calls hcount, if_neg (by decide), if_neg (by decide), haccount]
    dsimp only
    rw [if_neg (by decide), loadAccountDeps, if_neg (by decide), hwritable, if_neg (by decide)]
    rfl
  have hprogram : loadKey upgradeableSdk programBank (callsTx count).message 0 (fun _ ↦ false) true
      programKey 2 = .ok (programAccount, [], 36, true) := by
    have haccount : programBank.getAccountDefault programKey = programAccount := by decide +kernel
    rw [loadKey, isNonLoaderKey_calls hcount, if_pos (by decide), haccount]
    rfl
  have hkeys : (callsTx count).message.accountKeys.zipIdx =
      [(payerKp.pubkey, 0), (bpfLoaderUpgradeableId, 1), (programKey, 2)] := rfl
  simp only [hkeys, List.foldlM_cons, List.foldlM_nil, loadAccountKey, hpayer, hloader, hprogram,
    Outcome.ok_bind, accumulateAndCheckLoadedAccountDataSize]
  rfl

/-- What `count + 1` calls of the program load if the program data of the last are not counted. -/
def callsLoaded (count : ℕ) : LoadedTransaction where
  accounts := callsKeyAccounts ++ (List.replicate count callAccounts).flatten ++ callAccounts
  programIndices :=
    ((List.range count).map fun call ↦ [3 + 3 * call + 2, 3 + 3 * call + 1, 3 + 3 * call]) ++
      [[1, 0, 3 + 3 * count]]

/-- The instructions of such a transaction are all the same. -/
theorem instructions_callsTx (count : ℕ) :
    (callsTx (count + 1)).message.instructions = List.replicate count ⟨2, [], []⟩ ++ [⟨2, [], []⟩] :=
  List.replicate_succ'

/-- A call whose program is the last account that can be counted finds the payer in the place of the
program data. -/
theorem loadTxAccounts_calls {count : ℕ} (hcount : 3 + 3 * count + 1 = 2 ^ 16) :
    loadTxAccounts upgradeableSdk programBank (callsTx (count + 1)) 0 (fun _ ↦ false) =
      .ok (callsLoaded count) := by
  have hlength := length_calls count
  have hcut : (callsKeyAccounts ++ (List.replicate count callAccounts).flatten ++
      [(programKey, programAccount)])[(3 + 3 * count) % 2 ^ 16]? =
        some (programKey, programAccount) := by
    rw [Nat.mod_eq_of_lt (by omega), ← hlength, List.getElem?_concat_length]
  have hsecond : (3 + 3 * count + 1) % 2 ^ 16 = 0 := by omega
  have hthird : (3 + 3 * count + 2) % 2 ^ 16 = 1 := by omega
  have hloader : (callsKeyAccounts ++ (List.replicate count callAccounts).flatten ++
      callAccounts)[(3 + 3 * count + 2) % 2 ^ 16]? =
        some (bpfLoaderUpgradeableId, nativeProgramAccount) := by
    rw [hthird]
    rfl
  rw [← hlength] at hcut hloader
  rw [loadTxAccounts, if_neg (fun hboth ↦ hboth.2 rfl)]
  dsimp only
  rw [loadAccountKeys_calls (Nat.succ_pos count), Outcome.ok_bind, if_neg (by decide),
    instructions_callsTx, List.append_nil, List.foldlM_append, loadInstruction_calls count (by omega),
    Outcome.ok_bind, List.foldlM_cons, loadInstruction_call rfl hcut hloader, hlength, hsecond, hthird,
    Nat.mod_eq_of_lt (by omega)]
  rfl

/-- The program data of the last call are not where they should be. -/
theorem not_loadedWell_callsLoaded (count : ℕ) :
    ¬ LoadedWell upgradeableSdk programBank (callsTx (count + 1)) (callsLoaded count) := by
  intro hwell
  have hprograms := List.forall₂_drop_append _ _ _ hwell.programs
  rw [instructions_callsTx, List.length_map, List.length_range] at hprograms
  have hdrop : (List.replicate count ⟨2, [], []⟩ ++ [⟨2, [], []⟩] : List CompiledInstruction).drop count =
      [⟨2, [], []⟩] := List.drop_left' List.length_replicate
  rw [hdrop] at hprograms
  obtain ⟨-, programId, depth, hkey, -, hchain⟩ := (List.forall₂_cons.mp hprograms).1
  obtain rfl : programKey = programId := Option.some.inj hkey
  obtain ⟨outer, programdata, index, program, hindices, hindex, -, hprogramdata⟩ :=
    hchain.ends (by decide)
  have hends : [1, 0] ++ [3 + 3 * count] = outer ++ programdata ++ [index] := hindices
  obtain ⟨hfront, hlast⟩ := List.append_inj' hends rfl
  obtain rfl := List.singleton_inj.mp hlast
  have hthere : (callsLoaded count).accounts[3 + 3 * count]? = some (programKey, programAccount) := by
    rw [callsLoaded, ← length_calls count, List.getElem?_append_right le_rfl, Nat.sub_self]
    rfl
  obtain rfl : program = programAccount :=
    (Prod.mk.inj (Option.some.inj (hindex.symm.trans hthere))).2
  cases hprogramdata with
  | fixed howner => exact howner rfl
  | @upgradeable address account place howner haddress _ hplace =>
    obtain ⟨-, hzero⟩ := List.append_inj' (show [1] ++ [0] = outer ++ [place] from hfront) rfl
    obtain rfl := List.singleton_inj.mp hzero
    have haddress' : upgradeableSdk.programdataAddress programAccount = some programdataKey := by
      decide +kernel
    have hkeys : payerKp.pubkey = address := (Prod.mk.inj (Option.some.inj hplace)).1
    rw [haddress', ← hkeys] at haddress
    exact absurd haddress (by decide)

/-- After 21845 calls of the program there is one account more than indices. The transaction loads, but
the last call has found the payer where the program data should be. -/
theorem not_loadedWell_calls :
    ∃ loadedTx, loadTxAccounts upgradeableSdk programBank (callsTx 21845) 0 (fun _ ↦ false) =
        .ok loadedTx ∧
      ¬ LoadedWell upgradeableSdk programBank (callsTx 21845) loadedTx :=
  ⟨callsLoaded 21844, loadTxAccounts_calls (by decide), not_loadedWell_callsLoaded 21844⟩

end Playground.Playnet
