import Playground.Library.Json
import Playground.Playnet.BankRuns

/-!
# Saving and reloading a bank

`wasm/playnet/src/serde.rs` and the derived serialization of `PgBank`. A bank is saved as a JSON
object with six fields. The accounts are a map whose keys are the public keys as strings, written by
hand because JSON has no other keys; the key pair is the array of its bytes. The other fields of the
bank are skipped and take their defaults when it is read.

What `serde_json` and the SDK do with the primitive parts is a parameter, `BankCodec`, of which
`BankCodec.RoundTrips` says that everything written is read back. The accounts are kept in hash maps,
whose entries come in an order that nobody knows: `HashOrder` is one such order, and every save and
every reload may have its own.

`reload_agrees` is the round trip: a bank that is saved and made again has the same counters, hashes
and key pair, and the same accounts but for those that `PgBank::new` writes, and saving and reloading
it again changes nothing.

Not formalized here: the messages of errors, and texts that are not JSON behind a field on which the
deserializer panics.
-/

set_option autoImplicit false
set_option relaxedAutoImplicit false

namespace Playground.Playnet

open Library PgBank

/-! ### Primitive parts -/

/-- The serialization of the primitive parts of a bank. -/
structure BankCodec where
  /-- The text of a JSON value, as `serde_json::to_string` writes it. -/
  write : Json → String
  /-- The JSON value of a text, as `serde_json::from_str` reads it. -/
  read : String → Option Json
  /-- `Account::serialize`. -/
  account : Account → Json
  /-- `Account::deserialize`. -/
  readAccount : Json → Option Account
  /-- `u64::serialize`. -/
  u64 : UInt64 → Json
  /-- `u64::deserialize`. -/
  readU64 : Json → Option UInt64
  /-- `Hash::serialize`. -/
  hash : Hash → Json
  /-- `Hash::deserialize`. -/
  readHash : Json → Option Hash
  /-- `Serializer::serialize_bytes`. -/
  bytes : List UInt8 → Json
  /-- `Vec::<u8>::deserialize`. -/
  readBytes : Json → Option (List UInt8)
  /-- `Pubkey::to_string`. -/
  pubkeyToString : Pubkey → List Char
  /-- `Pubkey::from_str`. -/
  pubkeyFromStr : List Char → Option Pubkey
  /-- `Keypair::to_bytes`. -/
  keypairToBytes : Keypair → List UInt8
  /-- `Keypair::from_bytes`. -/
  keypairFromBytes : List UInt8 → Option Keypair

/-- What is relied on in the primitive parts: everything written is read back. -/
structure BankCodec.RoundTrips (codec : BankCodec) : Prop where
  read_write : ∀ json, codec.read (codec.write json) = some json
  readAccount_account : ∀ account, codec.readAccount (codec.account account) = some account
  readU64_u64 : ∀ value, codec.readU64 (codec.u64 value) = some value
  readHash_hash : ∀ hash, codec.readHash (codec.hash hash) = some hash
  readBytes_bytes : ∀ bytes, codec.readBytes (codec.bytes bytes) = some bytes
  fromStr_toString : ∀ key, codec.pubkeyFromStr (codec.pubkeyToString key) = some key
  fromBytes_toBytes : ∀ keypair,
    codec.keypairFromBytes (codec.keypairToBytes keypair) = some keypair

/-- The order in which the entries of hash maps come: of the accounts by key, and of the accounts by
the strings of their keys. -/
structure HashOrder where
  accounts : Store Pubkey Account → List (Pubkey × Account)
  strings : Store (List Char) Account → List (List Char × Account)

/-- Every entry comes once. -/
def Enumerates {κ β : Type} [DecidableEq κ] (entries : Store κ β → List (κ × β)) : Prop :=
  ∀ store, ((entries store).map Prod.fst).Nodup ∧
    ∀ key value, (key, value) ∈ entries store ↔ store.lookup key = some value

/-- An order in which every entry of a map comes once. -/
structure HashOrder.Lawful (order : HashOrder) : Prop where
  accounts : Enumerates order.accounts
  strings : Enumerates order.strings

/-! ### The custom modules -/

section Serde

variable (codec : BankCodec) (order : HashOrder)

/-- `bank_accounts::serialize`. -/
def bankAccountsSerialize (accounts : Store Pubkey Account) : Json :=
  .object ((order.accounts accounts).map fun entry ↦
    (codec.pubkeyToString entry.1, codec.account entry.2))

/-- One entry of the `HashMap<String, Account>` that is read. -/
def readStringEntry (strings : Store (List Char) Account) (member : List Char × Json) :
    Outcome Unit (Store (List Char) Account) :=
  match codec.readAccount member.2 with
  | none => .err ()
  | some account => .ok (strings.insert member.1 account)

/-- One round of the loop of `bank_accounts::deserialize`: `Pubkey::from_str(&s).unwrap()`. -/
def insertPubkey (accounts : Store Pubkey Account) (entry : List Char × Account) :
    Outcome Unit (Store Pubkey Account) :=
  match codec.pubkeyFromStr entry.1 with
  | none => .panic
  | some key => .ok (accounts.insert key entry.2)

/-- `bank_accounts::deserialize`. -/
def bankAccountsDeserialize : Json → Outcome Unit (Store Pubkey Account)
  | .object members => do
    let strings ← members.foldlM (readStringEntry codec) ∅
    (order.strings strings).foldlM (insertPubkey codec) ∅
  | _ => .err ()

/-- `bank_keypair::serialize`. -/
def bankKeypairSerialize (keypair : Keypair) : Json :=
  codec.bytes (codec.keypairToBytes keypair)

/-- `bank_keypair::deserialize`. -/
def bankKeypairDeserialize (json : Json) : Outcome Unit Keypair :=
  match codec.readBytes json with
  | none => .err ()
  | some buffer =>
    match codec.keypairFromBytes buffer with
    | none => .panic
    | some keypair => .ok keypair

/-! ### The derived serialization -/

/-- The derived `Serialize` of `PgBank`. -/
def serializeBank (saved : SavedBank) : Json :=
  .object
    [("accounts".toList, bankAccountsSerialize codec order saved.accounts),
      ("slot".toList, codec.u64 saved.slot),
      ("block_height".toList, codec.u64 saved.blockHeight),
      ("genesis_hash".toList, codec.hash saved.genesisHash),
      ("latest_blockhash".toList, codec.hash saved.latestBlockhash),
      ("airdrop_kp".toList, bankKeypairSerialize codec saved.airdropKp)]

/-- The fields that the derived `Deserialize` has read so far. -/
structure SavedFields where
  accounts : Option (Store Pubkey Account) := none
  slot : Option UInt64 := none
  blockHeight : Option UInt64 := none
  genesisHash : Option Hash := none
  latestBlockhash : Option Hash := none
  airdropKp : Option Keypair := none

/-- A value that is missing is an error. -/
def orError {α : Type} : Option α → Outcome Unit α
  | some value => .ok value
  | none => .err ()

/-- Reading one field: a field that comes twice is an error. -/
def readField {α : Type} (current : Option α) (read : Outcome Unit α) (store : α → SavedFields) :
    Outcome Unit SavedFields :=
  match current with
  | some _ => .err ()
  | none => do
    let value ← read
    .ok (store value)

/-- One member of the object in the derived `Deserialize`. A name that is not that of a field is
passed over. -/
def visitField (fields : SavedFields) (member : List Char × Json) : Outcome Unit SavedFields :=
  let (name, json) := member
  if name = "accounts".toList then
    readField fields.accounts (bankAccountsDeserialize codec order json) fun accounts ↦
      { fields with accounts := some accounts }
  else if name = "slot".toList then
    readField fields.slot (orError (codec.readU64 json)) fun slot ↦
      { fields with slot := some slot }
  else if name = "block_height".toList then
    readField fields.blockHeight (orError (codec.readU64 json)) fun blockHeight ↦
      { fields with blockHeight := some blockHeight }
  else if name = "genesis_hash".toList then
    readField fields.genesisHash (orError (codec.readHash json)) fun genesisHash ↦
      { fields with genesisHash := some genesisHash }
  else if name = "latest_blockhash".toList then
    readField fields.latestBlockhash (orError (codec.readHash json)) fun latestBlockhash ↦
      { fields with latestBlockhash := some latestBlockhash }
  else if name = "airdrop_kp".toList then
    readField fields.airdropKp (bankKeypairDeserialize codec json) fun airdropKp ↦
      { fields with airdropKp := some airdropKp }
  else .ok fields

/-- The end of the derived `Deserialize`: a field that has not come is an error. -/
def finishFields : SavedFields → Outcome Unit SavedBank
  | ⟨some accounts, some slot, some blockHeight, some genesisHash, some latestBlockhash,
      some airdropKp⟩ =>
    .ok ⟨accounts, slot, blockHeight, genesisHash, latestBlockhash, airdropKp⟩
  | _ => .err ()

/-- The derived `Deserialize` of `PgBank`, from an object or from an array of the fields. -/
def deserializeBank : Json → Outcome Unit SavedBank
  | .object members => do
    let fields ← members.foldlM (visitField codec order) {}
    finishFields fields
  | .array [accounts, slot, blockHeight, genesisHash, latestBlockhash, airdropKp] => do
    let accounts ← bankAccountsDeserialize codec order accounts
    let slot ← orError (codec.readU64 slot)
    let blockHeight ← orError (codec.readU64 blockHeight)
    let genesisHash ← orError (codec.readHash genesisHash)
    let latestBlockhash ← orError (codec.readHash latestBlockhash)
    let airdropKp ← bankKeypairDeserialize codec airdropKp
    .ok ⟨accounts, slot, blockHeight, genesisHash, latestBlockhash, airdropKp⟩
  | _ => .err ()

/-- `serde_json::from_str::<PgBank>`, by what it makes of the saved fields. -/
def bankFromStr (text : String) : Outcome Unit SavedBank :=
  match codec.read text with
  | none => .err ()
  | some json => deserializeBank codec order json

/-- The serialization of banks. -/
def bankSerde : Serde where
  toString saved := codec.write (serializeBank codec order saved)
  fromStr text :=
    match bankFromStr codec order text with
    | .ok saved => some saved
    | _ => none

/-- `PgBank::new` with this serialization, which panics where the deserializer does. -/
def newFromText (sdk : Sdk) (airdropKp : Keypair) (maybeBankString : Option String) :
    Option PgBank :=
  match maybeBankString.map (bankFromStr codec order) with
  | some .panic => none
  | _ => some (new sdk (bankSerde codec order) airdropKp maybeBankString)

end Serde

/-! ### What is written is read back -/

section RoundTrip

variable {codec : BankCodec} {order other : HashOrder}

/-- A loop that inserts an entry in every round is a bulk write. -/
theorem foldlM_insert {α κ β : Type} [DecidableEq κ] {step : Store κ β → α → Outcome Unit (Store κ β)}
    {entry : α → κ × β} {items : List α}
    (hstep : ∀ item ∈ items, ∀ store : Store κ β,
      step store item = .ok (store.insert (entry item).1 (entry item).2)) :
    ∀ store, items.foldlM step store = .ok (writeAll store (items.map entry)) := by
  induction items with
  | nil => exact fun _ ↦ rfl
  | cons item rest ih =>
    intro store
    rw [List.foldlM_cons, hstep item List.mem_cons_self, Outcome.ok_bind,
      ih fun other hother ↦ hstep other (List.mem_cons_of_mem _ hother)]
    rfl

/-- The strings of distinct keys are distinct. -/
theorem pubkeyToString_injective (hcodec : codec.RoundTrips) :
    Function.Injective codec.pubkeyToString := by
  intro first second hsame
  have hboth := congrArg codec.pubkeyFromStr hsame
  rw [hcodec.fromStr_toString, hcodec.fromStr_toString] at hboth
  exact Option.some.inj hboth

/-- The entries of a serialized map are read, with the strings of the keys. -/
theorem foldlM_readStringEntry (hcodec : codec.RoundTrips)
    (entries : List (Pubkey × Account)) :
    (entries.map fun entry ↦ (codec.pubkeyToString entry.1, codec.account entry.2)).foldlM
        (readStringEntry codec) ∅ =
      .ok (writeAll ∅ (entries.map fun entry ↦ (codec.pubkeyToString entry.1, entry.2))) := by
  have hloop := @foldlM_insert _ _ _ _ (readStringEntry codec)
    (fun member ↦ (member.1, (codec.readAccount member.2).getD {}))
    (entries.map fun entry ↦ (codec.pubkeyToString entry.1, codec.account entry.2))
  rw [hloop]
  · simp [hcodec.readAccount_account, Function.comp_def]
  · intro member hmember store
    obtain ⟨entry, -, rfl⟩ := List.mem_map.mp hmember
    simp [readStringEntry, hcodec.readAccount_account]

/-- Entries that are those of a map, with the strings of the keys for the keys, make the map again. -/
theorem foldlM_insertPubkey (hcodec : codec.RoundTrips) {accounts : Store Pubkey Account}
    {entries : List (List Char × Account)} (hnodup : (entries.map Prod.fst).Nodup)
    (hentries : ∀ string account, (string, account) ∈ entries ↔
      ∃ key, accounts.lookup key = some account ∧ codec.pubkeyToString key = string) :
    entries.foldlM (insertPubkey codec) ∅ = .ok accounts := by
  let decoded : List (Pubkey × Account) := entries.map fun entry ↦
    ((codec.pubkeyFromStr entry.1).getD 0, entry.2)
  have hinsert : entries.foldlM (insertPubkey codec) ∅ = .ok (writeAll ∅ decoded) := by
    apply foldlM_insert
    intro entry hentry store
    obtain ⟨key, -, hstring⟩ := (hentries entry.1 entry.2).mp hentry
    simp [insertPubkey, ← hstring, hcodec.fromStr_toString]
  have hdecoded : ∀ key account, (key, account) ∈ decoded ↔ accounts.lookup key = some account := by
    intro key account
    simp only [decoded, List.mem_map, Prod.exists, Prod.mk.injEq]
    constructor
    · rintro ⟨string, _, hentry, rfl, rfl⟩
      obtain ⟨key, hlookup, rfl⟩ := (hentries _ _).mp hentry
      rwa [hcodec.fromStr_toString]
    · intro hlookup
      refine ⟨codec.pubkeyToString key, account, (hentries _ _).mpr ⟨key, hlookup, rfl⟩, ?_, rfl⟩
      rw [hcodec.fromStr_toString, Option.getD_some]
  have hback : ∀ string ∈ entries.map Prod.fst,
      codec.pubkeyToString ((codec.pubkeyFromStr string).getD 0) = string := by
    intro string hstring
    obtain ⟨⟨_, account⟩, hentry, rfl⟩ := List.mem_map.mp hstring
    obtain ⟨key, -, hkey⟩ := (hentries _ _).mp hentry
    rw [← hkey, hcodec.fromStr_toString, Option.getD_some]
  have hkeys : decoded.map Prod.fst =
      (entries.map Prod.fst).map fun string ↦ (codec.pubkeyFromStr string).getD 0 := by
    simp [decoded, Function.comp_def]
  have hnodupDecoded : (decoded.map Prod.fst).Nodup := by
    rw [hkeys]
    apply hnodup.map_on
    intro first hfirst second hsecond hsame
    rw [← hback first hfirst, ← hback second hsecond, hsame]
  rw [hinsert, writeAll_empty_eq hnodupDecoded hdecoded]

/-- The map of accounts is read back, whatever the orders of the hash maps. -/
theorem bankAccountsDeserialize_serialize (hcodec : codec.RoundTrips) (horder : order.Lawful)
    (hother : other.Lawful) (accounts : Store Pubkey Account) :
    bankAccountsDeserialize codec other (bankAccountsSerialize codec order accounts) =
      .ok accounts := by
  let written : List (List Char × Account) :=
    (order.accounts accounts).map fun entry ↦ (codec.pubkeyToString entry.1, entry.2)
  have hread := foldlM_readStringEntry hcodec (order.accounts accounts)
  have hnodup : (written.map Prod.fst).Nodup := by
    have hkeys := (horder.accounts accounts).1.map (pubkeyToString_injective hcodec)
    simpa [written, Function.comp_def] using hkeys
  have hentries : ∀ string account, (string, account) ∈ other.strings (writeAll ∅ written) ↔
      ∃ key, accounts.lookup key = some account ∧ codec.pubkeyToString key = string := by
    intro string account
    rw [(hother.strings _).2, lookup_writeAll_empty hnodup]
    simp only [written, List.mem_map, Prod.mk.injEq, Prod.exists]
    constructor
    · rintro ⟨key, _, hentry, rfl, rfl⟩
      exact ⟨key, ((horder.accounts accounts).2 _ _).mp hentry, rfl⟩
    · rintro ⟨key, hlookup, rfl⟩
      exact ⟨key, account, ((horder.accounts accounts).2 _ _).mpr hlookup, rfl, rfl⟩
  have hinsert := foldlM_insertPubkey hcodec (hother.strings (writeAll ∅ written)).1 hentries
  rw [bankAccountsSerialize, bankAccountsDeserialize, hread, Outcome.ok_bind, hinsert]

/-- The key pair is read back. -/
theorem bankKeypairDeserialize_serialize (hcodec : codec.RoundTrips) (keypair : Keypair) :
    bankKeypairDeserialize codec (bankKeypairSerialize codec keypair) = .ok keypair := by
  simp [bankKeypairDeserialize, bankKeypairSerialize, hcodec.readBytes_bytes,
    hcodec.fromBytes_toBytes]

/-- What is saved of a bank is read back. -/
theorem bankFromStr_toString (hcodec : codec.RoundTrips) (horder : order.Lawful)
    (hother : other.Lawful) (saved : SavedBank) :
    bankFromStr codec other ((bankSerde codec order).toString saved) = .ok saved := by
  have haccounts := bankAccountsDeserialize_serialize hcodec horder hother saved.accounts
  have hkeypair := bankKeypairDeserialize_serialize hcodec saved.airdropKp
  simp [bankFromStr, bankSerde, hcodec.read_write, deserializeBank, serializeBank, visitField,
    readField, finishFields, orError, haccounts, hkeypair, hcodec.readU64_u64,
    hcodec.readHash_hash]

end RoundTrip

/-! ### Saving and reloading -/

/-- What is saved of a bank that is made of the saved fields of another. -/
theorem toSaved_new {sdk : Sdk} {serde : Serde} {airdropKp : Keypair} {text : String}
    {saved : SavedBank} (hread : serde.fromStr text = some saved) :
    (new sdk serde airdropKp (some text)).toSaved =
      { saved with accounts := writeAll saved.accounts (genesisAccounts sdk saved.airdropKp) } := by
  simp [new, readBank, hread, ofSaved, toSaved]

/-- A saved bank is reloaded, with the accounts of a new bank written over its own. -/
theorem newFromText_getSaveData {codec : BankCodec} (hcodec : codec.RoundTrips)
    {order other : HashOrder} (horder : order.Lawful) (hother : other.Lawful) (sdk : Sdk)
    (airdropKp : Keypair) (bank : PgBank) :
    ∃ reloaded, newFromText codec other sdk airdropKp
        (some (getSaveData (bankSerde codec order) bank)) = some reloaded ∧
      reloaded.toSaved = { bank.toSaved with
        accounts := writeAll bank.accounts (genesisAccounts sdk bank.airdropKp) } := by
  have hread := bankFromStr_toString hcodec horder hother bank.toSaved
  have hsome : (bankSerde codec other).fromStr (getSaveData (bankSerde codec order) bank) =
      some bank.toSaved := by
    simp only [bankSerde, getSaveData] at hread ⊢
    rw [hread]
  refine ⟨new sdk (bankSerde codec other) airdropKp
    (some (getSaveData (bankSerde codec order) bank)), ?_, ?_⟩
  · simp only [newFromText, getSaveData, Option.map_some, hread]
  · rw [toSaved_new hsome]
    rfl

/-- A bank that is saved and made again, in whatever orders the hash maps are written and read, has
the counters, the hashes and the key pair it had, and every account it had but for those that are
written to each new bank. To save and to reload it a second time changes nothing that is saved. -/
theorem reload_agrees {codec : BankCodec} (hcodec : codec.RoundTrips)
    {first second third fourth : HashOrder} (hfirst : first.Lawful) (hsecond : second.Lawful)
    (hthird : third.Lawful) (hfourth : fourth.Lawful) (sdk : Sdk)
    (airdropKp otherKp : Keypair) (bank : PgBank) :
    ∃ reloaded again,
      newFromText codec second sdk airdropKp
          (some (getSaveData (bankSerde codec first) bank)) = some reloaded ∧
        reloaded.slot = bank.slot ∧ reloaded.blockHeight = bank.blockHeight ∧
        reloaded.genesisHash = bank.genesisHash ∧
        reloaded.latestBlockhash = bank.latestBlockhash ∧
        reloaded.airdropKp = bank.airdropKp ∧
        (∀ key, key ∉ [bpfLoaderId, bpfLoaderUpgradeableId, systemProgramId, clockId, rentId,
            bank.airdropKp.pubkey] → reloaded.getAccount key = bank.getAccount key) ∧
        newFromText codec fourth sdk otherKp
          (some (getSaveData (bankSerde codec third) reloaded)) = some again ∧
        again.toSaved = reloaded.toSaved := by
  obtain ⟨reloaded, hreload, hsaved⟩ :=
    newFromText_getSaveData hcodec hfirst hsecond sdk airdropKp bank
  obtain ⟨again, hagain, hsavedAgain⟩ :=
    newFromText_getSaveData hcodec hthird hfourth sdk otherKp reloaded
  have haccounts : reloaded.accounts =
      writeAll bank.accounts (genesisAccounts sdk bank.airdropKp) := congrArg SavedBank.accounts hsaved
  have hkeypair : reloaded.airdropKp = bank.airdropKp := congrArg SavedBank.airdropKp hsaved
  refine ⟨reloaded, again, hreload, congrArg SavedBank.slot hsaved,
    congrArg SavedBank.blockHeight hsaved, congrArg SavedBank.genesisHash hsaved,
    congrArg SavedBank.latestBlockhash hsaved, hkeypair, ?_, hagain, ?_⟩
  · intro key hkey
    rw [getAccount, getAccount, haccounts]
    exact lookup_writeAll_of_notMem hkey
  · rw [hsavedAgain, hkeypair, haccounts, writeAll_writeAll, ← haccounts]
    rfl

end Playground.Playnet
