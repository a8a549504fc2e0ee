import Playground.Library.JavaScript
import Playground.Library.Json
import Playground.Library.ParseInt
import Playground.Library.Runs

/-!
# The accounts of the wallet

`PgWallet` of `client/src/utils/pg/wallet/wallet.ts`: adding, importing, removing, renaming and switching
accounts. An account has a name and the 64 bytes of the secret key of its key pair, which end with the 32
bytes of its public key.

`add` asks whether an account has the name, or the key pair it is given. It compares the public key with
the bytes of the secret key, which are longer, so that a key pair is added again under every new name:
`keypairs_distinct_iff` says along which runs no two accounts have one key pair. Names are trimmed when
they are validated and stored as they are given, so that `rename` may give two accounts one name:
`accounts_named_iff` says along which runs the names stay distinct.

Not formalized here: the balance, the wallets of the Wallet Standard, what is stored, how a file is
chosen and read, and the derivation of the current wallet, whose calls of `add` and `switch` are calls
like others.
-/

set_option autoImplicit false
set_option relaxedAutoImplicit false

namespace Playground.PgWallet

open Library

/-! ### Key pairs and accounts -/

/-- `Keypair` of `@solana/web3.js`, with the bytes of its secret key. -/
structure Keypair where
  secretKey : List UInt8
  length_secretKey : secretKey.length = 64
  deriving DecidableEq

/-- The bytes of the public key. -/
def Keypair.publicKey (keypair : Keypair) : List UInt8 :=
  keypair.secretKey.drop 32

/-- `WalletAccount`. Its bytes are those of a secret key. -/
structure Account where
  kp : List UInt8
  name : Str
  length_kp : kp.length = 64
  deriving DecidableEq

/-- The states of the wallet. -/
inductive WalletState
  | setup
  | pg
  | disconnected
  deriving DecidableEq

/-- `Wallet`, with the fields that the accounts concern. -/
structure Wallet where
  state : WalletState
  accounts : List Account
  currentIndex : ℤ
  deriving DecidableEq

/-- `defaultState`. -/
def defaultState : Wallet where
  state := .setup
  accounts := []
  currentIndex := -1

/-- What the methods throw. -/
inductive Error
  | emptyName
  | nameExists (name : Str)
  | indexNotFound (index : ℤ)
  | typeError
  | rangeError
  deriving DecidableEq

/-- The names of the accounts. -/
def Wallet.names (wallet : Wallet) : List Str :=
  wallet.accounts.map Account.name

/-- The account that an access to an index yields. -/
def Wallet.accountAt (wallet : Wallet) (index : ℤ) : Option Account :=
  if 0 ≤ index then wallet.accounts[index.toNat]? else none

/-! ### Names -/

/-- `PgWallet.validateAccountName`. -/
def Wallet.validateAccountName (wallet : Wallet) (name : Str) : Except Error Unit :=
  if trim name = [] then .error .emptyName
  else if trim name ∈ wallet.names then .error (.nameExists (trim name))
  else .ok ()

/-- `PgWallet.getDefaultAccountName`. -/
def getDefaultAccountName (index : ℕ) : Str :=
  "Wallet ".toList ++ Json.printNumber (index + 1)

/-- `PgWallet.getNextAvailableAccountName`, with a bound on the number of calls. -/
def Wallet.getNextAvailableAccountName (wallet : Wallet) : ℕ → ℕ → Option Str
  | 0, _ => none
  | calls + 1, index =>
    match wallet.validateAccountName (getDefaultAccountName index) with
    | .ok () => some (getDefaultAccountName index)
    | .error _ => wallet.getNextAvailableAccountName calls (index + 1)

/-! ### Methods -/

/-- `PgWallet.switch`. -/
def Wallet.switch (wallet : Wallet) (index : ℤ) : Except Error Wallet :=
  match wallet.accountAt index with
  | none => .error (.indexNotFound index)
  | some _ => .ok { wallet with state := .pg, currentIndex := index }

/-- The account that `add` takes for the one to be added. -/
def Account.matches (account : Account) (name : Str) (keypair : Keypair) : Bool :=
  (name ≠ [] && account.name = name) || keypair.publicKey = account.kp

/-- `PgWallet.add` of a name and a key pair. -/
def Wallet.addAccount (wallet : Wallet) (name : Str) (keypair : Keypair) : Except Error Wallet :=
  match wallet.validateAccountName name with
  | .error error => .error error
  | .ok () =>
    match wallet.accounts.findIdx? fun account ↦ account.matches name keypair with
    | some accountIndex => wallet.switch accountIndex
    | none => .ok
        { state := .pg
          accounts := wallet.accounts ++ [⟨keypair.secretKey, name, keypair.length_secretKey⟩]
          currentIndex := wallet.accounts.length }

/-- The name that `add` gives an account when it is given none. Among one more index than there are
accounts there is a free one. -/
def Wallet.defaultName (wallet : Wallet) : Except Error Str :=
  match wallet.getNextAvailableAccountName (wallet.accounts.length + 1) wallet.accounts.length with
  | some name => .ok name
  | none => .error .rangeError

/-- `PgWallet.add`. The defaults are evaluated in any case; `generated` is what `Keypair.generate`
returns. -/
def Wallet.add (wallet : Wallet) (name : Option Str) (keypair : Option Keypair)
    (generated : Keypair) : Except Error Wallet :=
  match wallet.defaultName with
  | .error error => .error error
  | .ok defaultName => wallet.addAccount (name.getD defaultName) (keypair.getD generated)

/-- `PgWallet.remove`. -/
def Wallet.remove (wallet : Wallet) (index : Option ℤ) : Wallet :=
  let accounts := spliceOne wallet.accounts (index.getD wallet.currentIndex)
  { wallet with accounts, currentIndex := (accounts.length : ℤ) - 1 }

/-- `PgWallet.rename`. -/
def Wallet.rename (wallet : Wallet) (name : Str) (index : Option ℤ) : Except Error Wallet :=
  match wallet.validateAccountName name with
  | .error error => .error error
  | .ok () =>
    let index := index.getD wallet.currentIndex
    match wallet.accountAt index with
    | none => .error .typeError
    | some account => .ok
        { wallet with accounts := wallet.accounts.set index.toNat { account with name } }

/-- What `import` relies on: `parseBytes` is the array of bytes that is the text of a file, and
`fromSecretKey` is `Keypair.fromSecretKey`. Both may throw. -/
structure KeypairFiles where
  parseBytes : Str → Option (List UInt8)
  fromSecretKey : List UInt8 → Option Keypair

/-- The key pair of a file. -/
def KeypairFiles.readKeypair (files : KeypairFiles) (text : Str) : Option Keypair := do
  let keypairBytes ← files.parseBytes text
  if keypairBytes.length ≠ 64 then none else files.fromSecretKey keypairBytes

/-- `PgWallet.import`. What is thrown is caught. -/
def Wallet.import (wallet : Wallet) (files : KeypairFiles) (name : Option Str) (file : Option Str)
    (generated : Keypair) : Wallet :=
  match file.bind files.readKeypair with
  | none => wallet
  | some keypair =>
    match wallet.add name (some keypair) generated with
    | .ok added => added
    | .error _ => wallet

/-! ### Runs -/

/-- A call of a method. -/
inductive Operation
  | add (name : Option Str) (keypair : Option Keypair) (generated : Keypair)
  | importFile (name : Option Str) (file : Option Str) (generated : Keypair)
  | remove (index : Option ℤ)
  | rename (name : Str) (index : Option ℤ)
  | switch (index : ℤ)

/-- The wallet after a call. A call that throws has changed nothing. -/
def Wallet.step (files : KeypairFiles) (wallet : Wallet) : Operation → Wallet
  | .add name keypair generated => (wallet.add name keypair generated).toOption.getD wallet
  | .importFile name file generated => wallet.import files name file generated
  | .remove index => wallet.remove index
  | .rename name index => (wallet.rename name index).toOption.getD wallet
  | .switch index => (wallet.switch index).toOption.getD wallet

/-- The wallet after some calls from the default state. -/
def after (files : KeypairFiles) (operations : List Operation) : Wallet :=
  operations.foldl (Wallet.step files) defaultState

/-! ### The next free name -/

/-- Two indices have different names. -/
theorem getDefaultAccountName_injective : Function.Injective getDefaultAccountName := by
  intro first second heq
  have hdigits := congrArg Json.readDigits (List.append_cancel_left heq)
  rw [Json.readDigits_printNumber, Json.readDigits_printNumber] at hdigits
  omega

/-- A default name begins with a letter and ends with a digit. -/
theorem getDefaultAccountName_ends (index : ℕ) :
    (getDefaultAccountName index).head? = some 'W' ∧
      ∀ char ∈ (getDefaultAccountName index).getLast?, char.isDigit = true := by
  obtain ⟨hdigits, hne⟩ := Json.printNumber_digits (index + 1)
  refine ⟨rfl, fun char hchar ↦ hdigits char ?_⟩
  have hlast : (getDefaultAccountName index).getLast? = (Json.printNumber (index + 1)).getLast? :=
    List.getLast?_append_of_ne_nil _ hne
  rw [hlast] at hchar
  exact List.mem_of_getLast? hchar

/-- A default name is not changed by trimming. -/
theorem trim_getDefaultAccountName (index : ℕ) :
    trim (getDefaultAccountName index) = getDefaultAccountName index := by
  obtain ⟨hhead, hlast⟩ := getDefaultAccountName_ends index
  apply trim_eq_self
  · rw [hhead]
    rintro char ⟨⟩
    decide
  · exact fun char hchar ↦ isSpaceChar_of_isDigit (hlast char hchar)

theorem getDefaultAccountName_ne_nil (index : ℕ) : getDefaultAccountName index ≠ [] := by
  intro hnil
  have hhead := (getDefaultAccountName_ends index).1
  rw [hnil] at hhead
  cases hhead

/-- A default name is valid unless an account has it. -/
theorem validate_getDefaultAccountName (wallet : Wallet) (index : ℕ) :
    wallet.validateAccountName (getDefaultAccountName index) =
      if getDefaultAccountName index ∈ wallet.names then .error (.nameExists (getDefaultAccountName index))
      else .ok () := by
  rw [Wallet.validateAccountName, trim_getDefaultAccountName, if_neg (getDefaultAccountName_ne_nil index)]

/-- Names that are taken are passed. -/
theorem getNextAvailableAccountName_of_taken {wallet : Wallet} {index offset calls : ℕ}
    (htaken : ∀ before < offset, getDefaultAccountName (index + before) ∈ wallet.names)
    (hfree : getDefaultAccountName (index + offset) ∉ wallet.names) (hcalls : offset < calls) :
    wallet.getNextAvailableAccountName calls index = some (getDefaultAccountName (index + offset)) := by
  induction offset generalizing index calls with
  | zero =>
    obtain ⟨calls, rfl⟩ := Nat.exists_eq_add_of_lt hcalls
    rw [Nat.add_zero] at hfree
    rw [Wallet.getNextAvailableAccountName, validate_getDefaultAccountName, if_neg hfree]
    rfl
  | succ offset ih =>
    obtain ⟨calls, rfl⟩ := Nat.exists_eq_add_of_lt (Nat.lt_of_succ_lt hcalls)
    have hfirst := htaken 0 offset.succ_pos
    rw [Nat.add_zero] at hfirst
    have hshift : ∀ before, index + (before + 1) = index + 1 + before := fun before ↦ by omega
    rw [Wallet.getNextAvailableAccountName, validate_getDefaultAccountName, if_pos hfirst,
      hshift offset]
    have hlater : ∀ before < offset, getDefaultAccountName (index + 1 + before) ∈ wallet.names := by
      intro before hbefore
      rw [← hshift]
      exact htaken (before + 1) (Nat.succ_lt_succ hbefore)
    have hmore : offset < offset + calls := by omega
    rw [hshift offset] at hfree
    exact ih hlater hfree hmore

/-- Among more default names than there are accounts, one is free. -/
theorem exists_free (wallet : Wallet) (index : ℕ) :
    ∃ offset ≤ wallet.accounts.length, getDefaultAccountName (index + offset) ∉ wallet.names := by
  by_contra hnone
  push Not at hnone
  let tried := (List.range (wallet.accounts.length + 1)).map fun offset ↦
    getDefaultAccountName (index + offset)
  have hnodup : tried.Nodup := List.nodup_range.map fun first second heq ↦
    Nat.add_left_cancel (getDefaultAccountName_injective heq)
  have hsubset : tried ⊆ wallet.names := by
    intro name hname
    obtain ⟨offset, hoffset, rfl⟩ := List.mem_map.mp hname
    exact hnone offset (Nat.lt_succ_iff.mp (List.mem_range.mp hoffset))
  have hle := (List.subperm_of_subset hnodup hsubset).length_le
  simp only [tried, List.length_map, List.length_range, Wallet.names] at hle
  omega

/-- The first free name is found by one call more than there are accounts, at most. -/
theorem exists_getNextAvailableAccountName (wallet : Wallet) (index : ℕ) :
    ∃ offset, (∀ calls > wallet.accounts.length, wallet.getNextAvailableAccountName calls index =
        some (getDefaultAccountName (index + offset))) ∧
      getDefaultAccountName (index + offset) ∉ wallet.names ∧
        ∀ before < offset, getDefaultAccountName (index + before) ∈ wallet.names := by
  obtain ⟨bound, hbound, hfree⟩ := exists_free wallet index
  have hexists : ∃ offset, getDefaultAccountName (index + offset) ∉ wallet.names := ⟨bound, hfree⟩
  have htaken : ∀ before < Nat.find hexists, getDefaultAccountName (index + before) ∈ wallet.names :=
    fun before hbefore ↦ not_not.mp (Nat.find_min hexists hbefore)
  refine ⟨Nat.find hexists, fun calls hcalls ↦ ?_, Nat.find_spec hexists, htaken⟩
  exact getNextAvailableAccountName_of_taken htaken (Nat.find_spec hexists)
    (((Nat.find_min' hexists hfree).trans hbound).trans_lt hcalls)

/-- From every starting index on, the next available name is found: it is the default name of the least number
that is free, and it is not blank. -/
theorem getNextAvailableAccountName_least (wallet : Wallet) (index : ℕ) :
    ∃ number ≥ index,
      (∃ calls, ∀ more ≥ calls,
        wallet.getNextAvailableAccountName more index = some (getDefaultAccountName number)) ∧
      trim (getDefaultAccountName number) ≠ [] ∧
      (∀ account ∈ wallet.accounts, account.name ≠ getDefaultAccountName number) ∧
      ∀ other ≥ index, (∀ account ∈ wallet.accounts, account.name ≠ getDefaultAccountName other) →
        number ≤ other := by
  obtain ⟨offset, hfound, hfree, htaken⟩ := exists_getNextAvailableAccountName wallet index
  refine ⟨index + offset, Nat.le_add_right _ _, ⟨wallet.accounts.length + 1, hfound⟩, ?_, ?_, ?_⟩
  · rw [trim_getDefaultAccountName]
    exact getDefaultAccountName_ne_nil _
  · exact fun account haccount hname ↦ hfree (List.mem_map.mpr ⟨account, haccount, hname⟩)
  · intro other hother hotherFree
    by_contra hlt
    have hmem := htaken (other - index) (by omega)
    rw [Nat.add_sub_cancel' hother] at hmem
    obtain ⟨account, haccount, hname⟩ := List.mem_map.mp hmem
    exact hotherFree account haccount hname

/-- The name that `add` gives is found. -/
theorem exists_defaultName (wallet : Wallet) : ∃ name, wallet.defaultName = .ok name := by
  obtain ⟨offset, hfound, -⟩ := exists_getNextAvailableAccountName wallet wallet.accounts.length
  exact ⟨_, by rw [Wallet.defaultName, hfound _ (Nat.lt_succ_self _)]⟩

/-! ### Adding -/

/-- A public key is shorter than the bytes it is compared with. -/
theorem publicKey_ne_kp (keypair : Keypair) (account : Account) :
    keypair.publicKey ≠ account.kp := by
  intro heq
  have hlength := congrArg List.length heq
  rw [Keypair.publicKey, List.length_drop, keypair.length_secretKey, account.length_kp] at hlength
  omega

/-- Only the name makes an account the one to be added. -/
theorem matches_iff {account : Account} {name : Str} {keypair : Keypair} (hname : name ≠ []) :
    account.matches name keypair = true ↔ account.name = name := by
  simp [Account.matches, hname, publicKey_ne_kp]

/-- A valid name has a character that is not a blank, and its trimmed form is free. -/
theorem validateAccountName_eq_ok_iff {wallet : Wallet} {name : Str} :
    wallet.validateAccountName name = .ok () ↔ trim name ≠ [] ∧ trim name ∉ wallet.names := by
  unfold Wallet.validateAccountName
  split_ifs with hempty hexists
  · simp [hempty]
  · simp [hexists]
  · simp [hempty, hexists]

/-- A valid name is not empty. -/
theorem ne_nil_of_valid {wallet : Wallet} {name : Str}
    (hvalid : wallet.validateAccountName name = .ok ()) : name ≠ [] := by
  rintro rfl
  exact (validateAccountName_eq_ok_iff.mp hvalid).1 rfl

/-- A name that is valid but taken, which trimming changes, selects the account that has it. -/
theorem addAccount_of_mem {wallet : Wallet} {name : Str} {keypair : Keypair}
    (hvalid : wallet.validateAccountName name = .ok ()) (htaken : name ∈ wallet.names) :
    ∃ place < wallet.accounts.length, wallet.addAccount name keypair =
      .ok { wallet with state := .pg, currentIndex := (place : ℤ) } := by
  obtain ⟨account, haccount, hname⟩ := List.mem_map.mp htaken
  have hsome : (wallet.accounts.findIdx? fun account ↦ account.matches name keypair).isSome := by
    rw [List.findIdx?_isSome, List.any_eq_true]
    exact ⟨account, haccount, (matches_iff (ne_nil_of_valid hvalid)).mpr hname⟩
  obtain ⟨place, hplace⟩ := Option.isSome_iff_exists.mp hsome
  have hlt : place < wallet.accounts.length := (List.findIdx?_eq_some_iff_getElem.mp hplace).1
  refine ⟨place, hlt, ?_⟩
  simp [Wallet.addAccount, hvalid, hplace, Wallet.switch, Wallet.accountAt, hlt]

/-- A fresh valid name adds an account. -/
theorem addAccount_of_notMem {wallet : Wallet} {name : Str} {keypair : Keypair}
    (hvalid : wallet.validateAccountName name = .ok ()) (hfresh : name ∉ wallet.names) :
    wallet.addAccount name keypair = .ok
      { state := .pg
        accounts := wallet.accounts ++ [⟨keypair.secretKey, name, keypair.length_secretKey⟩]
        currentIndex := wallet.accounts.length } := by
  have hnone : (wallet.accounts.findIdx? fun account ↦ account.matches name keypair) = none := by
    rw [List.findIdx?_eq_none_iff]
    intro account haccount
    rw [← Bool.not_eq_true, matches_iff (ne_nil_of_valid hvalid)]
    rintro rfl
    exact hfresh (List.mem_map_of_mem haccount)
  simp [Wallet.addAccount, hvalid, hnone]

/-! ### What a call adds -/

/-- The name and the key pair of a call of `add`. -/
def Wallet.params (wallet : Wallet) (name : Option Str) (keypair : Option Keypair)
    (generated : Keypair) : Option (Str × Keypair) :=
  wallet.defaultName.toOption.map fun defaultName ↦
    (name.getD defaultName, keypair.getD generated)

/-- The name and the key pair of the call of `add` that a call is or makes. -/
def Operation.adding (files : KeypairFiles) (wallet : Wallet) :
    Operation → Option (Str × Keypair)
  | .add name keypair generated => wallet.params name keypair generated
  | .importFile name file generated =>
    (file.bind files.readKeypair).bind fun keypair ↦ wallet.params name (some keypair) generated
  | _ => none

/-- `add` adds an account for its parameters. -/
theorem add_of_params {wallet : Wallet} {name : Option Str} {keypair : Option Keypair}
    {generated : Keypair} {added : Str × Keypair}
    (hadded : wallet.params name keypair generated = some added) :
    wallet.add name keypair generated = wallet.addAccount added.1 added.2 := by
  obtain ⟨defaultName, hdefault⟩ := exists_defaultName wallet
  rw [Wallet.params, hdefault] at hadded
  obtain rfl := Option.some.inj hadded
  rw [Wallet.add, hdefault]

/-- A call that adds is one of `addAccount`, whose errors change nothing. -/
theorem step_of_adding {files : KeypairFiles} {wallet : Wallet} {operation : Operation}
    {added : Str × Keypair} (hadded : operation.adding files wallet = some added) :
    wallet.step files operation = (wallet.addAccount added.1 added.2).toOption.getD wallet := by
  cases operation with
  | add name keypair generated => rw [Wallet.step, add_of_params hadded]
  | importFile name file generated =>
    obtain ⟨keypair, hkeypair, hparams⟩ := Option.bind_eq_some_iff.mp hadded
    rw [Wallet.step, Wallet.import, hkeypair]
    dsimp only
    rw [add_of_params hparams]
    cases wallet.addAccount added.1 added.2 <;> rfl
  | remove | rename | switch => cases hadded

/-- An import that adds nothing changes nothing, and `add` always adds. -/
theorem step_of_adding_none {files : KeypairFiles} {wallet : Wallet} {name file : Option Str}
    {generated : Keypair} (hnone : (Operation.importFile name file generated).adding files wallet
      = none) : wallet.step files (.importFile name file generated) = wallet := by
  obtain ⟨defaultName, hdefault⟩ := exists_defaultName wallet
  rw [Wallet.step, Wallet.import]
  cases hread : file.bind files.readKeypair with
  | none => rfl
  | some keypair =>
    rw [Operation.adding, hread, Option.bind_some, Wallet.params, hdefault] at hnone
    cases hnone

/-- A call of `add` adds. -/
theorem adding_add_ne_none {files : KeypairFiles} {wallet : Wallet} {name : Option Str}
    {keypair : Option Keypair} {generated : Keypair} :
    (Operation.add name keypair generated).adding files wallet ≠ none := by
  obtain ⟨defaultName, hdefault⟩ := exists_defaultName wallet
  rw [Operation.adding, Wallet.params, hdefault]
  exact Option.some_ne_none _

/-! ### The other calls -/

/-- What `remove` leaves, and the index it sets. -/
@[simp] theorem accounts_remove (wallet : Wallet) (index : Option ℤ) :
    (wallet.remove index).accounts =
      spliceOne wallet.accounts (index.getD wallet.currentIndex) := rfl

@[simp] theorem currentIndex_remove (wallet : Wallet) (index : Option ℤ) :
    (wallet.remove index).currentIndex = ((wallet.remove index).accounts.length : ℤ) - 1 := rfl

/-- `rename` changes nothing, or one name. -/
theorem step_rename (files : KeypairFiles) (wallet : Wallet) (name : Str) (index : Option ℤ) :
    wallet.step files (.rename name index) = wallet ∧
        (wallet.validateAccountName name = .ok () →
          wallet.accountAt (index.getD wallet.currentIndex) = none) ∨
      ∃ account, wallet.validateAccountName name = .ok () ∧
        wallet.accountAt (index.getD wallet.currentIndex) = some account ∧
        wallet.step files (.rename name index) = { wallet with
          accounts := wallet.accounts.set (index.getD wallet.currentIndex).toNat
            { account with name } } := by
  cases hvalid : wallet.validateAccountName name with
  | error error =>
    left
    simp [Wallet.step, Wallet.rename, hvalid, Except.toOption]
  | ok =>
    cases haccount : wallet.accountAt (index.getD wallet.currentIndex) with
    | none =>
      left
      simp [Wallet.step, Wallet.rename, hvalid, haccount, Except.toOption]
    | some account =>
      right
      exact ⟨account, rfl, rfl, by simp [Wallet.step, Wallet.rename, hvalid, haccount,
        Except.toOption]⟩

/-- `switch` changes nothing, or the state and the index, to a valid one. -/
theorem step_switch (files : KeypairFiles) (wallet : Wallet) (index : ℤ) :
    wallet.step files (.switch index) = wallet ∨
      0 ≤ index ∧ index < wallet.accounts.length ∧
        wallet.step files (.switch index) = { wallet with state := .pg, currentIndex := index } := by
  cases haccount : wallet.accountAt index with
  | none =>
    left
    simp [Wallet.step, Wallet.switch, haccount, Except.toOption]
  | some account =>
    right
    unfold Wallet.accountAt at haccount
    split at haccount
    · next hindex =>
      have hlt := (List.getElem?_eq_some_iff.mp haccount).1
      refine ⟨hindex, by omega, ?_⟩
      simp [Wallet.step, Wallet.switch, Wallet.accountAt, hindex, haccount, Except.toOption]
    · cases haccount

/-! ### Distinct key pairs -/

/-- The key pairs that are saved. -/
def Wallet.keypairs (wallet : Wallet) : List (List UInt8) :=
  wallet.accounts.map Account.kp

/-- No two accounts have one key pair. -/
def Wallet.KeypairsDistinct (wallet : Wallet) : Prop :=
  wallet.keypairs.Nodup

/-- A call that adds a key pair which is saved already, under a fresh valid name. -/
def Operation.Readds (files : KeypairFiles) (wallet : Wallet) (operation : Operation)
    (keypair : Keypair) : Prop :=
  ∃ name, operation.adding files wallet = some (name, keypair) ∧
    wallet.validateAccountName name = .ok () ∧ name ∉ wallet.names ∧
    keypair.secretKey ∈ wallet.keypairs

/-- Nothing is added, and the account that has the key pair becomes the current one. -/
def SelectsSaved (keypair : Keypair) (before after : Wallet) : Prop :=
  after.accounts = before.accounts ∧
    ∃ account, after.accountAt after.currentIndex = some account ∧ account.kp = keypair.secretKey

/-- A name does not concern the key pairs. -/
theorem keypairs_set {wallet : Wallet} {index : ℤ} {account : Account}
    (haccount : wallet.accountAt index = some account) (name : Str) :
    (wallet.accounts.set index.toNat { account with name }).map Account.kp = wallet.keypairs := by
  unfold Wallet.accountAt at haccount
  split at haccount
  · obtain ⟨hlt, rfl⟩ := List.getElem?_eq_some_iff.mp haccount
    have hbound : index.toNat < wallet.keypairs.length := by
      rwa [Wallet.keypairs, List.length_map]
    have hkp : wallet.accounts[index.toNat].kp = wallet.keypairs[index.toNat] := by
      simp only [Wallet.keypairs, List.getElem_map]
    rw [List.map_set]
    show (wallet.keypairs.set index.toNat wallet.accounts[index.toNat].kp) = wallet.keypairs
    rw [hkp, List.set_getElem_self]
  · cases haccount

/-- A call that does not add leaves a part of the key pairs. -/
theorem keypairs_step_sublist {files : KeypairFiles} {wallet : Wallet} {operation : Operation}
    (hnone : operation.adding files wallet = none) :
    (wallet.step files operation).keypairs.Sublist wallet.keypairs := by
  cases operation with
  | add name keypair generated => exact absurd hnone adding_add_ne_none
  | importFile name file generated => rw [step_of_adding_none hnone]
  | remove index => exact (spliceOne_sublist wallet.accounts _).map Account.kp
  | rename name index =>
    rcases step_rename files wallet name index with ⟨hsame, -⟩ | ⟨account, -, haccount, hstep⟩
    · rw [hsame]
    · rw [hstep]
      exact keypairs_set haccount _ ▸ List.Sublist.refl _
  | switch index =>
    rcases step_switch files wallet index with hsame | ⟨-, -, hstep⟩
    · rw [hsame]
    · rw [hstep]
      exact List.Sublist.refl _

/-- A call keeps the key pairs distinct exactly if it does not add one of them again. -/
theorem keypairsDistinct_step_iff (files : KeypairFiles) (wallet : Wallet) (operation : Operation)
    (hdistinct : wallet.KeypairsDistinct) :
    (wallet.step files operation).KeypairsDistinct ↔
      ∀ keypair, ¬ operation.Readds files wallet keypair := by
  cases hadding : operation.adding files wallet with
  | none =>
    refine iff_of_true ((keypairs_step_sublist hadding).nodup hdistinct) ?_
    rintro keypair ⟨name, hsome, -⟩
    rw [hadding] at hsome
    cases hsome
  | some added =>
    obtain ⟨name, keypair⟩ := added
    have hreadds : (∀ other, ¬ operation.Readds files wallet other) ↔
        ¬ (wallet.validateAccountName name = .ok () ∧ name ∉ wallet.names ∧
          keypair.secretKey ∈ wallet.keypairs) := by
      constructor
      · exact fun hnone hagain ↦ hnone keypair ⟨name, hadding, hagain⟩
      · rintro hnot other ⟨otherName, hother, hagain⟩
        rw [hadding] at hother
        cases hother
        exact hnot hagain
    rw [step_of_adding hadding, hreadds]
    cases hvalid : wallet.validateAccountName name with
    | error error =>
      have hsame : wallet.addAccount name keypair = .error error := by
        rw [Wallet.addAccount, hvalid]
      rw [hsame]
      exact iff_of_true hdistinct (fun hagain ↦ nomatch hagain.1)
    | ok =>
      by_cases htaken : name ∈ wallet.names
      · obtain ⟨place, -, hadd⟩ := @addAccount_of_mem wallet name keypair hvalid htaken
        rw [hadd]
        exact iff_of_true hdistinct fun hagain ↦ hagain.2.1 htaken
      · rw [addAccount_of_notMem hvalid htaken]
        show (List.map Account.kp (wallet.accounts ++ [_])).Nodup ↔ _
        rw [List.map_append, List.map_singleton, List.nodup_append_comm, List.singleton_append,
          List.nodup_cons]
        constructor
        · exact fun hnew hagain ↦ hnew.1 hagain.2.2
        · exact fun hnot ↦ ⟨fun hsaved ↦ hnot ⟨rfl, htaken, hsaved⟩, hdistinct⟩

/-- Whatever is called, no two accounts have one key pair and adding one that is saved selects its
account, exactly if no key pair that is saved is added again under a fresh valid name. -/
theorem keypairs_distinct_iff (files : KeypairFiles) (operations : List Operation) :
    ((∀ before, before <+: operations → (after files before).KeypairsDistinct) ∧
      ∀ before operation, before ++ [operation] <+: operations → ∀ keypair,
        operation.Readds files (after files before) keypair →
          SelectsSaved keypair (after files before) (after files (before ++ [operation]))) ↔
      ∀ before operation, before ++ [operation] <+: operations → ∀ keypair,
        ¬ operation.Readds files (after files before) keypair := by
  have hstart : defaultState.KeypairsDistinct := List.nodup_nil
  have hruns := forall_prefix_iff hstart (keypairsDistinct_step_iff files) operations
  constructor
  · exact fun hall ↦ hruns.mp hall.1
  · exact fun hall ↦ ⟨hruns.mpr hall, fun before operation hprefix keypair hreadds ↦
      absurd hreadds (hall before operation hprefix keypair)⟩

/-- No file is ever chosen. -/
def noFiles : KeypairFiles where
  parseBytes := fun _ ↦ none
  fromSecretKey := fun _ ↦ none

/-- The key pair of the seed that is zero. -/
def zeroKeypair : Keypair where
  secretKey := List.replicate 32 0 ++
    [0x3b, 0x6a, 0x27, 0xbc, 0xce, 0xb6, 0xa4, 0x2d, 0x62, 0xa3, 0xa8, 0xd0, 0x2a, 0x6f, 0x0d, 0x73,
     0x65, 0x32, 0x15, 0x77, 0x1d, 0xe2, 0x43, 0xa6, 0x3a, 0xc0, 0x48, 0xa1, 0x8b, 0x59, 0xda, 0x29]
  length_secretKey := rfl

/-- The key pair of the seed whose bytes are all one. -/
def onesKeypair : Keypair where
  secretKey := List.replicate 32 1 ++
    [0x8a, 0x88, 0xe3, 0xdd, 0x74, 0x09, 0xf1, 0x95, 0xfd, 0x52, 0xdb, 0x2d, 0x3c, 0xba, 0x5d, 0x72,
     0xca, 0x67, 0x09, 0xbf, 0x1d, 0x94, 0x12, 0x1b, 0xf3, 0x74, 0x88, 0x01, 0xb4, 0x0f, 0x6f, 0x5c]
  length_secretKey := rfl

/-- A key pair that is added under two names is saved twice. -/
theorem not_keypairsDistinct_two_names :
    ¬ (after noFiles [.add (some "a".toList) (some zeroKeypair) zeroKeypair,
      .add (some "b".toList) (some zeroKeypair) zeroKeypair]).KeypairsDistinct := by
  unfold Wallet.KeypairsDistinct
  decide

/-! ### Distinct names -/

/-- The names are distinct and not blank, and the current index is that of an account, or `-1` if
there are none. -/
structure Wallet.Named (wallet : Wallet) : Prop where
  trim_ne_nil : ∀ name ∈ wallet.names, trim name ≠ []
  nodup : wallet.names.Nodup
  currentIndex : wallet.accounts = [] ∧ wallet.currentIndex = -1 ∨
    0 ≤ wallet.currentIndex ∧ wallet.currentIndex < wallet.accounts.length

/-- A renaming that takes effect and gives an account the name of another one. -/
def Operation.RenamesToTaken (wallet : Wallet) : Operation → Prop
  | .rename name index =>
    wallet.validateAccountName name = .ok () ∧
      (wallet.accountAt (index.getD wallet.currentIndex)).isSome ∧
      name ∈ wallet.names.eraseIdx (index.getD wallet.currentIndex).toNat
  | _ => False

/-- An account that is added has a valid name, and becomes the last and the current one. -/
theorem named_addAccount {wallet : Wallet} (hnamed : wallet.Named) (name : Str)
    (keypair : Keypair) : ((wallet.addAccount name keypair).toOption.getD wallet).Named := by
  cases hvalid : wallet.validateAccountName name with
  | error error =>
    have hsame : wallet.addAccount name keypair = .error error := by
      rw [Wallet.addAccount, hvalid]
    rw [hsame]
    exact hnamed
  | ok =>
    by_cases htaken : name ∈ wallet.names
    · obtain ⟨place, hlt, hadd⟩ := @addAccount_of_mem wallet name keypair hvalid htaken
      rw [hadd]
      exact { trim_ne_nil := hnamed.trim_ne_nil
              nodup := hnamed.nodup
              currentIndex := Or.inr ⟨Int.natCast_nonneg _, Int.ofNat_lt.mpr hlt⟩ }
    · rw [addAccount_of_notMem hvalid htaken]
      constructor
      · show ∀ other ∈ List.map Account.name (wallet.accounts ++ [_]), _
        rw [List.map_append, List.map_singleton]
        intro other hother
        rcases List.mem_append.mp hother with hold | hnew
        · exact hnamed.trim_ne_nil other hold
        · rw [List.mem_singleton.mp hnew]
          exact (validateAccountName_eq_ok_iff.mp hvalid).1
      · show (List.map Account.name (wallet.accounts ++ [_])).Nodup
        rw [List.map_append, List.map_singleton, List.nodup_append_comm, List.singleton_append]
        exact List.nodup_cons.mpr ⟨htaken, hnamed.nodup⟩
      · right
        show 0 ≤ (wallet.accounts.length : ℤ) ∧
          (wallet.accounts.length : ℤ) < (wallet.accounts ++ [_]).length
        rw [List.length_append, List.length_singleton]
        omega

/-- What is left after a removal keeps its names, and the last account becomes the current one. -/
theorem named_remove {wallet : Wallet} (hnamed : wallet.Named) (index : Option ℤ) :
    (wallet.remove index).Named := by
  have hsublist : (wallet.remove index).names.Sublist wallet.names :=
    (spliceOne_sublist wallet.accounts _).map Account.name
  constructor
  · exact fun name hname ↦ hnamed.trim_ne_nil name (hsublist.subset hname)
  · exact hsublist.nodup hnamed.nodup
  · rw [currentIndex_remove]
    cases hlength : (wallet.remove index).accounts.length with
    | zero => exact Or.inl ⟨List.length_eq_zero_iff.mp hlength, rfl⟩
    | succ length => exact Or.inr (by omega)

/-- One name is replaced. The names stay distinct exactly if it is none of the others. -/
theorem named_set_iff {wallet : Wallet} (hnamed : wallet.Named) {index : ℤ} {account : Account}
    {name : Str} (haccount : wallet.accountAt index = some account) (hblank : trim name ≠ []) :
    Wallet.Named { wallet with
        accounts := wallet.accounts.set index.toNat { account with name } } ↔
      name ∉ wallet.names.eraseIdx index.toNat := by
  have hindex : index.toNat < wallet.accounts.length := by
    unfold Wallet.accountAt at haccount
    split at haccount
    · exact (List.getElem?_eq_some_iff.mp haccount).1
    · cases haccount
  have hlt : index.toNat < wallet.names.length := by rwa [Wallet.names, List.length_map]
  set renamed : Wallet := { wallet with
    accounts := wallet.accounts.set index.toNat { account with name } } with hrenamed
  have hnames : renamed.names = wallet.names.set index.toNat name := List.map_set
  have hperm : renamed.names.Perm (name :: wallet.names.eraseIdx index.toNat) := by
    rw [hnames]
    exact List.set_perm_cons_eraseIdx hlt name
  constructor
  · intro hafter
    have hnodup := hperm.nodup_iff.mp hafter.nodup
    exact (List.nodup_cons.mp hnodup).1
  · intro hfree
    constructor
    · intro other hother
      rcases List.mem_cons.mp (hperm.mem_iff.mp hother) with rfl | hrest
      · exact hblank
      · exact hnamed.trim_ne_nil other (List.mem_of_mem_eraseIdx hrest)
    · exact hperm.nodup_iff.mpr (List.nodup_cons.mpr
        ⟨hfree, (List.eraseIdx_sublist wallet.names _).nodup hnamed.nodup⟩)
    · rcases hnamed.currentIndex with ⟨hempty, -⟩ | hvalid
      · rw [hempty] at hindex
        exact absurd hindex (Nat.not_lt_zero _)
      · right
        show 0 ≤ wallet.currentIndex ∧ wallet.currentIndex < (wallet.accounts.set _ _).length
        rwa [List.length_set]

/-- A call keeps the names distinct exactly if it gives no account the name of another one. -/
theorem named_step_iff (files : KeypairFiles) (wallet : Wallet) (operation : Operation)
    (hnamed : wallet.Named) :
    (wallet.step files operation).Named ↔ ¬ operation.RenamesToTaken wallet := by
  cases operation with
  | add name keypair generated =>
    refine iff_of_true ?_ id
    obtain ⟨added, hadded⟩ := Option.ne_none_iff_exists'.mp
      (@adding_add_ne_none files wallet name keypair generated)
    rw [step_of_adding hadded]
    exact named_addAccount hnamed _ _
  | importFile name file generated =>
    refine iff_of_true ?_ id
    cases hadded : (Operation.importFile name file generated).adding files wallet with
    | none =>
      rw [step_of_adding_none hadded]
      exact hnamed
    | some added =>
      rw [step_of_adding hadded]
      exact named_addAccount hnamed _ _
  | remove index => exact iff_of_true (named_remove hnamed index) id
  | rename name index =>
    rcases step_rename files wallet name index with
      ⟨hsame, hnone⟩ | ⟨account, hvalid, haccount, hstep⟩
    · rw [hsame]
      refine iff_of_true hnamed ?_
      rintro ⟨hvalid, hsome, -⟩
      rw [hnone hvalid] at hsome
      cases hsome
    · rw [hstep, named_set_iff hnamed haccount (validateAccountName_eq_ok_iff.mp hvalid).1]
      simp [Operation.RenamesToTaken, hvalid, haccount]
  | switch index =>
    refine iff_of_true ?_ id
    rcases step_switch files wallet index with hsame | ⟨hnonneg, hlt, hstep⟩
    · rw [hsame]
      exact hnamed
    · rw [hstep]
      exact { trim_ne_nil := hnamed.trim_ne_nil
              nodup := hnamed.nodup
              currentIndex := Or.inr ⟨hnonneg, hlt⟩ }

/-- Whatever is called, the names are distinct and not blank and the current index is valid, exactly
if no account is ever given, untrimmed, the name of another one. -/
theorem accounts_named_iff (files : KeypairFiles) (operations : List Operation) :
    (∀ before, before <+: operations → (after files before).Named) ↔
      ∀ before operation, before ++ [operation] <+: operations →
        ¬ operation.RenamesToTaken (after files before) := by
  have hstart : defaultState.Named :=
    { trim_ne_nil := nofun
      nodup := List.nodup_nil
      currentIndex := Or.inl ⟨rfl, rfl⟩ }
  exact forall_prefix_iff hstart (named_step_iff files) operations

/-- The name of an account that begins with a blank is given to another one, since only its trimmed
form is looked for. -/
theorem not_named_untrimmed :
    ¬ (after noFiles [.add (some "x".toList) none zeroKeypair,
      .add (some " a".toList) none onesKeypair,
      .rename " a".toList (some 0)]).Named := by
  intro hnamed
  exact absurd hnamed.nodup (by decide)

end Playground.PgWallet
