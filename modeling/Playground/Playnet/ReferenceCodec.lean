import Mathlib.Data.Char
import Mathlib.Data.Finset.Sort
import Mathlib.Data.List.Lex
import Mathlib.Data.Nat.Digits.Defs
import Playground.Playnet.BankSerde
import Playground.Playnet.ReferenceSdk

/-!
# A small serialization of banks

The assumptions of `BankCodec.RoundTrips` and `HashOrder.Lawful` can be met: `referenceCodec` writes
the parts of a bank as `serde_json` and the SDK do. Integers are numbers, bytes are arrays of numbers,
an account is an object with its five fields, a public key as a string is in base 58, and the text is
the compact one of `Json.print`. `referenceOrder` gives the entries of a map sorted by their keys.

Not formalized here: the forms that the deserializers accept and the serializers never write, such as
an account as an array of its fields.
-/

set_option autoImplicit false
set_option relaxedAutoImplicit false

namespace Playground.Playnet

open Library PgBank

/-! ### Bytes and numbers -/

/-- The bytes of a number say which number it is. -/
theorem ofLittleEndian_littleEndian (length value : ℕ) :
    ofLittleEndian (littleEndian length value) = value % 256 ^ length := by
  induction length generalizing value with
  | zero => simp [littleEndian, ofLittleEndian, Nat.mod_one]
  | succ length ih =>
    have hrest : littleEndian (length + 1) value =
        UInt8.ofNat value :: littleEndian length (value / 256) := by
      simp [littleEndian, List.range_succ_eq_map, Function.comp_def, pow_succ',
        Nat.div_div_eq_div_mul]
    calc ofLittleEndian (littleEndian (length + 1) value)
        = value % 256 + 256 * ofLittleEndian (littleEndian length (value / 256)) := by
          simp [hrest, ofLittleEndian]
      _ = value % 256 + 256 * (value / 256 % 256 ^ length) := by rw [ih]
      _ = value % 256 ^ (length + 1) := by rw [pow_succ', Nat.mod_mul]

/-- The 256 bits that bytes stand for, the most significant byte first. -/
def bitsOfBytes (bytes : List UInt8) : BitVec 256 :=
  BitVec.ofNat 256 (ofLittleEndian bytes.reverse)

/-- The bytes of 256 bits say which bits they are. -/
theorem bitsOfBytes_referenceHashToBytes (bits : BitVec 256) :
    bitsOfBytes (referenceHashToBytes bits) = bits := by
  rw [bitsOfBytes, referenceHashToBytes, List.reverse_reverse, ofLittleEndian_littleEndian]
  apply BitVec.eq_of_toNat_eq
  have hlt : bits.toNat < 2 ^ 256 := bits.isLt
  rw [BitVec.toNat_ofNat, show (256 : ℕ) ^ 32 = 2 ^ 256 by norm_num, Nat.mod_mod,
    Nat.mod_eq_of_lt hlt]

/-- There are 32 bytes in 256 bits. -/
theorem length_referenceHashToBytes (bits : BitVec 256) :
    (referenceHashToBytes bits).length = 32 := by
  simp [referenceHashToBytes, littleEndian]

/-- A byte as a JSON number. -/
def byteJson (byte : UInt8) : Json :=
  .number byte.toNat

/-- The byte of a JSON number. -/
def readByte : Json → Option UInt8
  | .number value => if value < 256 then some (UInt8.ofNat value) else none
  | _ => none

/-- Bytes as a JSON array. -/
def bytesJson (bytes : List UInt8) : Json :=
  .array (bytes.map byteJson)

/-- The bytes of a JSON array. -/
def readBytes : Json → Option (List UInt8)
  | .array elements => elements.mapM readByte
  | _ => none

/-- Bytes are read back. -/
theorem readBytes_bytesJson (bytes : List UInt8) : readBytes (bytesJson bytes) = some bytes := by
  have hbyte : ∀ byte : UInt8, readByte (byteJson byte) = some byte := by
    intro byte
    simp [readByte, byteJson, byte.toNat_lt]
  induction bytes with
  | nil => rfl
  | cons byte rest ih =>
    have hrest : (rest.map byteJson).mapM readByte = some rest := ih
    simp [readBytes, bytesJson, hbyte, hrest]

/-- An unsigned integer of 64 bits as a JSON number. -/
def u64Json (value : UInt64) : Json :=
  .number value.toNat

/-- The unsigned integer of 64 bits of a JSON number. -/
def readU64 : Json → Option UInt64
  | .number value => if value < 2 ^ 64 then some (UInt64.ofNat value) else none
  | _ => none

/-- Unsigned integers of 64 bits are read back. -/
theorem readU64_u64Json (value : UInt64) : readU64 (u64Json value) = some value := by
  have hlt : value.toNat < 2 ^ 64 := value.toNat_lt
  rw [u64Json, readU64, if_pos hlt, UInt64.ofNat_toNat]

/-- 256 bits as a JSON array of bytes. -/
def bitsJson (bits : BitVec 256) : Json :=
  bytesJson (referenceHashToBytes bits)

/-- The 256 bits of a JSON array of bytes. -/
def readBits (json : Json) : Option (BitVec 256) :=
  (readBytes json).bind fun bytes ↦ if bytes.length = 32 then some (bitsOfBytes bytes) else none

/-- 256 bits are read back. -/
theorem readBits_bitsJson (bits : BitVec 256) : readBits (bitsJson bits) = some bits := by
  rw [readBits, bitsJson, readBytes_bytesJson, Option.bind_some,
    if_pos (length_referenceHashToBytes bits), bitsOfBytes_referenceHashToBytes]

/-! ### Accounts and key pairs -/

/-- An account as a JSON object. -/
def accountJson (account : Account) : Json :=
  .object
    [("lamports".toList, u64Json account.lamports), ("data".toList, bytesJson account.data),
      ("owner".toList, bitsJson account.owner), ("executable".toList, .bool account.executable),
      ("rentEpoch".toList, u64Json account.rentEpoch)]

/-- The account of a JSON object. -/
def readAccount : Json → Option Account
  | .object members => do
    let lamports ← (Json.member members "lamports").bind readU64
    let data ← (Json.member members "data").bind readBytes
    let owner ← (Json.member members "owner").bind readBits
    let executable ← (Json.member members "executable").bind Json.readBool
    let rentEpoch ← (Json.member members "rentEpoch").bind readU64
    some ⟨lamports, data, owner, executable, rentEpoch⟩
  | _ => none

/-- Accounts are read back. -/
theorem readAccount_accountJson (account : Account) :
    readAccount (accountJson account) = some account := by
  simp (disch := simp) only [readAccount, accountJson, Json.member_self, Json.member_of_ne,
    readU64_u64Json, readBytes_bytesJson, readBits_bitsJson, Json.readBool, Option.bind_eq_bind,
    Option.bind_some]

/-- The bytes of a key pair, the secret first. -/
def keypairToBytes (keypair : Keypair) : List UInt8 :=
  referenceHashToBytes keypair.secret ++ referenceHashToBytes keypair.pubkey

/-- The key pair of 64 bytes. -/
def keypairFromBytes (bytes : List UInt8) : Option Keypair :=
  if bytes.length = 64 then some ⟨bitsOfBytes (bytes.drop 32), bitsOfBytes (bytes.take 32)⟩ else none

/-- Key pairs are read back. -/
theorem keypairFromBytes_keypairToBytes (keypair : Keypair) :
    keypairFromBytes (keypairToBytes keypair) = some keypair := by
  have hlength := length_referenceHashToBytes keypair.secret
  have hsecret : (keypairToBytes keypair).take 32 = referenceHashToBytes keypair.secret := by
    rw [keypairToBytes, List.take_left' hlength]
  have hpubkey : (keypairToBytes keypair).drop 32 = referenceHashToBytes keypair.pubkey := by
    rw [keypairToBytes, List.drop_left' hlength]
  have hboth : (keypairToBytes keypair).length = 64 := by
    simp [keypairToBytes, length_referenceHashToBytes]
  rw [keypairFromBytes, if_pos hboth, hsecret, hpubkey, bitsOfBytes_referenceHashToBytes,
    bitsOfBytes_referenceHashToBytes]

/-! ### Base 58 -/

/-- The digits of base 58. -/
def base58Alphabet : List Char :=
  "123456789ABCDEFGHJKLMNPQRSTUVWXYZabcdefghijkmnopqrstuvwxyz".toList

/-- The text of a public key: a one for every zero byte at its front, then its digits. -/
def pubkeyToBase58 (key : Pubkey) : List Char :=
  let zeros := ((referenceHashToBytes key).takeWhile fun byte ↦ byte = 0).length
  (List.replicate zeros 0 ++ (Nat.digits 58 key.toNat).reverse).map fun digit ↦
    base58Alphabet.getD digit '1'

/-- The number that digits of base 58 stand for. -/
def ofBase58 (text : List Char) : ℕ :=
  Nat.ofDigits 58 (text.map base58Alphabet.idxOf).reverse

/-- The public key of a text, which has to be the text of a public key. -/
def pubkeyFromBase58 (text : List Char) : Option Pubkey :=
  let key := BitVec.ofNat 256 (ofBase58 text)
  if pubkeyToBase58 key = text then some key else none

/-- The text of a public key says which number it is. -/
theorem ofBase58_pubkeyToBase58 (key : Pubkey) : ofBase58 (pubkeyToBase58 key) = key.toNat := by
  have hdigit : ∀ digit < 58, base58Alphabet.idxOf (base58Alphabet.getD digit '1') = digit := by
    decide
  have hall : ∀ digits : List ℕ, (∀ digit ∈ digits, digit < 58) →
      (digits.map fun digit ↦ base58Alphabet.getD digit '1').map base58Alphabet.idxOf = digits := by
    intro digits hlt
    rw [List.map_map]
    exact (List.map_congr_left fun digit hmem ↦ hdigit digit (hlt digit hmem)).trans
      (List.map_id digits)
  rw [ofBase58, pubkeyToBase58, hall]
  · rw [List.reverse_append, List.reverse_reverse, List.reverse_replicate,
      Nat.ofDigits_append_replicate_zero, Nat.ofDigits_digits]
  · intro digit hmem
    rcases List.mem_append.mp hmem with hzero | hmem
    · rw [List.eq_of_mem_replicate hzero]
      norm_num
    · exact Nat.digits_lt_base (by norm_num) (List.mem_reverse.mp hmem)

/-- The texts of public keys are read back. -/
theorem pubkeyFromBase58_pubkeyToBase58 (key : Pubkey) :
    pubkeyFromBase58 (pubkeyToBase58 key) = some key := by
  simp [pubkeyFromBase58, ofBase58_pubkeyToBase58]

/-! ### The serialization -/

/-- The serialization of the parts of a bank. -/
def referenceCodec : BankCodec where
  write json := String.ofList json.print
  read text := Json.parse text.toList
  account := accountJson
  readAccount := readAccount
  u64 := u64Json
  readU64 := readU64
  hash := bitsJson
  readHash := readBits
  bytes := bytesJson
  readBytes := readBytes
  pubkeyToString := pubkeyToBase58
  pubkeyFromStr := pubkeyFromBase58
  keypairToBytes := keypairToBytes
  keypairFromBytes := keypairFromBytes

/-- Everything that is written is read back. -/
theorem referenceCodec_roundTrips : referenceCodec.RoundTrips where
  read_write json := by
    show Json.parse (String.ofList json.print).toList = some json
    rw [String.toList_ofList, Json.parse_print]
  readAccount_account := readAccount_accountJson
  readU64_u64 := readU64_u64Json
  readHash_hash := readBits_bitsJson
  readBytes_bytes := readBytes_bytesJson
  fromStr_toString := pubkeyFromBase58_pubkeyToBase58
  fromBytes_toBytes := keypairFromBytes_keypairToBytes

/-- The entries of a map, sorted by the ranks of the keys. -/
def sortedEntries {κ β ι : Type} [DecidableEq κ] [LinearOrder ι] (rank : κ → ι)
    (hrank : Function.Injective rank) (store : Store κ β) : List (κ × β) :=
  let _ : LinearOrder κ := LinearOrder.lift' rank hrank
  (store.keys.sort (· ≤ ·)).filterMap fun key ↦ (store.lookup key).map fun value ↦ (key, value)

/-- Every entry of a map is listed once. -/
theorem enumerates_sortedEntries {κ β ι : Type} [DecidableEq κ] [LinearOrder ι] {rank : κ → ι}
    (hrank : Function.Injective rank) :
    Enumerates (sortedEntries (β := β) rank hrank) := by
  intro store
  let _ : LinearOrder κ := LinearOrder.lift' rank hrank
  have hnodup : (store.keys.sort (· ≤ ·)).Nodup := Finset.sort_nodup _ _
  have hkeys : (sortedEntries (β := β) rank hrank store).map Prod.fst = store.keys.sort (· ≤ ·) := by
    have hbound : ∀ keys : List κ, (∀ key ∈ keys, key ∈ store) →
        ((keys.filterMap fun key ↦ (store.lookup key).map fun value ↦ (key, value)).map Prod.fst) =
          keys := by
      intro keys hmem
      induction keys with
      | nil => rfl
      | cons key rest ih =>
        obtain ⟨value, hlookup⟩ := Finmap.mem_iff.mp (hmem key List.mem_cons_self)
        have hrest := ih fun other hother ↦ hmem other (List.mem_cons_of_mem _ hother)
        simp [hlookup, hrest]
    exact hbound _ fun key hmem ↦ Finmap.mem_keys.mp ((Finset.mem_sort _).mp hmem)
  constructor
  · rw [hkeys]
    exact hnodup
  · intro key value
    simp only [sortedEntries, List.mem_filterMap, Option.map_eq_some_iff, Prod.mk.injEq]
    constructor
    · rintro ⟨_, -, _, hlookup, rfl, rfl⟩
      exact hlookup
    · intro hlookup
      have hmem : key ∈ store.keys := Finmap.mem_keys.mpr (Finmap.mem_iff.mpr ⟨value, hlookup⟩)
      exact ⟨key, (Finset.mem_sort _).mpr hmem, value, hlookup, rfl, rfl⟩

/-- The entries of accounts sorted by the numbers of the keys, and by their strings. -/
def referenceOrder : HashOrder where
  accounts := sortedEntries BitVec.toNat fun _ _ ↦ BitVec.eq_of_toNat_eq
  strings := sortedEntries id fun _ _ ↦ id

/-- Every entry is listed once. -/
theorem referenceOrder_lawful : referenceOrder.Lawful where
  accounts := enumerates_sortedEntries _
  strings := enumerates_sortedEntries _

/-- After a transfer the bank is saved and made again, and saved once more. -/
theorem reload_agrees_transfer :
    let tx := transferTx [payerKp.pubkey, receiverKey, systemProgramId] (by decide) (by decide)
    let start := new referenceSdk (bankSerde referenceCodec referenceOrder) payerKp none
    ∃ bank reloaded result, processTx referenceSdk start tx = some (bank, result) ∧
      newFromText referenceCodec referenceOrder referenceSdk payerKp
          (some (getSaveData (bankSerde referenceCodec referenceOrder) bank)) = some reloaded ∧
        reloaded.getAccount receiverKey = bank.getAccount receiverKey := by
  intro tx start
  have hcompute : (processTx referenceSdk start tx).isSome = true := by decide +kernel
  obtain ⟨⟨bank, result⟩, hprocess⟩ := Option.isSome_iff_exists.mp hcompute
  obtain ⟨reloaded, -, hreload, -, -, -, -, -, haccounts, -⟩ :=
    reload_agrees referenceCodec_roundTrips referenceOrder_lawful referenceOrder_lawful
      referenceOrder_lawful referenceOrder_lawful referenceSdk payerKp payerKp bank
  have hkeypair : bank.airdropKp = payerKp := by
    have hsame : ((processTx referenceSdk start tx).map fun done ↦ done.1.airdropKp) =
      some payerKp := by decide +kernel
    rw [hprocess] at hsame
    exact Option.some.inj hsame
  refine ⟨bank, reloaded, result, hprocess, hreload, haccounts receiverKey ?_⟩
  rw [hkeypair]
  decide

end Playground.Playnet
