import Playground.Playnet.BankHistory
import Playground.Playnet.ReferenceCodec

/-!
# The hashes a bank reports

`get_genesis_hash` and `get_latest_blockhash` of `wasm/playnet/src/runtime/bank.rs`. A bank has a field
for each of the two hashes, but both accessors read the latest blockhash.

A path is a sequence of calls and reloads together with the banks they leave. The accounts are written
and read in any order of the hash maps, so a path may have another order at every reload. Along a path
the blockhash is hashed once more exactly when the slot goes up by one (`HashPath.advanced`), so two
banks of a path report the same latest blockhash exactly if they are in the same slot, and all banks of
it report one genesis hash exactly if no call of it starts a slot (`reportedHashes_iff`).
-/

set_option autoImplicit false
set_option relaxedAutoImplicit false

namespace Playground.Playnet

open Library PgBank

namespace PgBank

/-- `PgBank::get_slot`. -/
def getSlot (bank : PgBank) : UInt64 :=
  bank.slot

/-- `PgBank::get_genesis_hash`. -/
def getGenesisHash (bank : PgBank) : Hash :=
  bank.latestBlockhash

/-- `PgBank::get_latest_blockhash`. -/
def getLatestBlockhash (bank : PgBank) : Hash :=
  bank.latestBlockhash

end PgBank

/-! ### Paths -/

/-- A call that does not panic, or a reload under some orders of the hash maps. -/
def HashStep (sdk : Sdk) (codec : BankCodec) (before : PgBank) (call : BankCall) (after : PgBank) :
    Prop :=
  match call with
  | .call call => ∃ result, call.run sdk before = some (after, result)
  | .reload freshKp => ∃ order other : HashOrder, order.Lawful ∧ other.Lawful ∧
      newFromText codec other sdk freshKp (some (getSaveData (bankSerde codec order) before)) =
        some after

/-- The paths from a bank: the calls with the banks that they leave. -/
def HashPath (sdk : Sdk) (codec : BankCodec) : PgBank → List (BankCall × PgBank) → Prop
  | _, [] => True
  | before, (call, after) :: rest =>
    HashStep sdk codec before call after ∧ HashPath sdk codec after rest

/-- The banks of a path. -/
def pathBanks (start : PgBank) (path : List (BankCall × PgBank)) : List PgBank :=
  start :: path.map Prod.snd

/-- A transaction is recorded if it is processed: it loads and executes, has no upgradeable loader
`Write`, and its signature is not recorded. -/
def RecordsTx (sdk : Sdk) (bank : PgBank) (tx : SanitizedTransaction) : Prop :=
  (∃ outcome, loadAndExecuteTx sdk bank tx = .ok outcome) ∧
    bpfUpgradeableWriteIxExists tx = false ∧ bank.txs.lookup tx.signature = none

/-- A call records its transaction. -/
def Records (sdk : Sdk) (bank : PgBank) : BankCall → Prop
  | .call call => ∃ tx, call.tx? sdk bank = some tx ∧ RecordsTx sdk bank tx
  | .reload _ => False

/-- No call of a path records its transaction. -/
def RecordsNothing (sdk : Sdk) : PgBank → List (BankCall × PgBank) → Prop
  | _, [] => True
  | before, (call, after) :: rest => ¬ Records sdk before call ∧ RecordsNothing sdk after rest

/-- Hashing a blockhash again and again does not lead back to it in as many steps as there are slots. -/
def NoShortCycles (sdk : Sdk) : Prop :=
  ∀ (hash : Hash) (count : ℕ), 0 < count → count < 2 ^ 64 →
    (nextBlockhash sdk)^[count] hash ≠ hash

section Paths

variable {sdk : Sdk} {codec : BankCodec} {before after bank : PgBank} {call : BankCall}

/-- Processing a transaction starts a slot, with the next blockhash, exactly if it is recorded. -/
theorem PgBank.Processed.hashes {tx : SanitizedTransaction}
    {result : Except TransactionError Signature}
    (hprocessed : Processed sdk before tx after result) :
    (RecordsTx sdk before tx ∧ after.slot.toNat = before.slot.toNat + 1 ∧
        after.latestBlockhash = nextBlockhash sdk before.latestBlockhash) ∨
      (¬ RecordsTx sdk before tx ∧ after.slot = before.slot ∧
        after.latestBlockhash = before.latestBlockhash) := by
  cases hprocessed with
  | failed hfailed => simp [RecordsTx, hfailed]
  | unrecorded hexecuted hwrite => simp [RecordsTx, hwrite, setAccounts_eq]
  | replayed hexecuted hwrite hrecorded => simp [RecordsTx, hrecorded, setAccounts_eq]
  | recorded hexecuted hwrite hfresh hslot hslotFits _ =>
    refine .inl ⟨⟨⟨_, hexecuted⟩, hwrite, hfresh⟩, ?_, ?_⟩
    · simp only [recordTx, setAccounts_slot, UInt64.toNat_add]
      exact Nat.mod_eq_of_lt hslotFits
    · simp only [recordTx, setAccounts_eq]
      rfl

/-- A step starts a slot, with the next blockhash, exactly if it records a transaction. -/
theorem HashStep.hashes (hcodec : codec.RoundTrips) (hstep : HashStep sdk codec before call after) :
    (Records sdk before call ∧ after.slot.toNat = before.slot.toNat + 1 ∧
        after.latestBlockhash = nextBlockhash sdk before.latestBlockhash) ∨
      (¬ Records sdk before call ∧ after.slot = before.slot ∧
        after.latestBlockhash = before.latestBlockhash) := by
  cases call with
  | call call =>
    obtain ⟨result, hrun⟩ := hstep
    rcases TxCall.run_cases hrun with ⟨hnone, rfl, -⟩ | ⟨tx, htx, hprocessed⟩
    · exact .inr ⟨by simp [Records, hnone], rfl, rfl⟩
    · have hrecords : Records sdk before (.call call) ↔ RecordsTx sdk before tx := by
        simp [Records, htx]
      rw [hrecords]
      exact hprocessed.hashes
  | reload freshKp =>
    obtain ⟨order, other, horder, hother, hreload⟩ := hstep
    obtain ⟨reloaded, hreloaded, hsaved⟩ :=
      newFromText_getSaveData hcodec horder hother sdk freshKp before
    obtain rfl := Option.some.inj (hreloaded.symm.trans hreload)
    exact .inr ⟨id, congrArg SavedBank.slot hsaved, congrArg SavedBank.latestBlockhash hsaved⟩

/-- Every bank of a path is some slots further than the first, and its blockhash has been hashed as many
times. -/
theorem HashPath.advanced (hcodec : codec.RoundTrips) {path : List (BankCall × PgBank)} :
    ∀ {start : PgBank}, HashPath sdk codec start path → ∀ bank ∈ pathBanks start path,
      ∃ count, bank.slot.toNat = start.slot.toNat + count ∧
        bank.latestBlockhash = (nextBlockhash sdk)^[count] start.latestBlockhash := by
  induction path with
  | nil =>
    intro start _ bank hbank
    obtain rfl := List.mem_singleton.mp hbank
    exact ⟨0, rfl, rfl⟩
  | cons step rest ih =>
    intro start hpath bank hbank
    obtain ⟨call, after⟩ := step
    obtain ⟨hstep, hrest⟩ := hpath
    rcases List.mem_cons.mp hbank with rfl | hlater
    · exact ⟨0, rfl, rfl⟩
    · obtain ⟨count, hslot, hhash⟩ := ih hrest bank hlater
      rcases hstep.hashes hcodec with ⟨-, hslot', hhash'⟩ | ⟨-, hslot', hhash'⟩
      · refine ⟨count + 1, by omega, ?_⟩
        rw [hhash, hhash', Function.iterate_succ_apply]
      · rw [hslot'] at hslot
        rw [hhash'] at hhash
        exact ⟨count, hslot, hhash⟩

/-- Without short cycles, hashing a blockhash different numbers of times gives different blockhashes. -/
theorem NoShortCycles.iterate_injective (hcycles : NoShortCycles sdk) {hash : Hash}
    {first second : ℕ} (hfirst : first < 2 ^ 64) (hsecond : second < 2 ^ 64)
    (hsame : (nextBlockhash sdk)^[first] hash = (nextBlockhash sdk)^[second] hash) :
    first = second := by
  wlog hle : first ≤ second generalizing first second
  · exact (this hsecond hfirst hsame.symm (Nat.le_of_not_le hle)).symm
  by_contra hne
  have hcycle := hcycles ((nextBlockhash sdk)^[first] hash) (second - first) (by omega) (by omega)
  rw [← Function.iterate_add_apply, Nat.sub_add_cancel hle] at hcycle
  exact hcycle hsame.symm

/-- Two banks of a path report the same latest blockhash exactly if they are in the same slot. -/
theorem HashPath.latestBlockhash_eq_iff (hcodec : codec.RoundTrips) (hcycles : NoShortCycles sdk)
    {start : PgBank} {path : List (BankCall × PgBank)} (hpath : HashPath sdk codec start path)
    {first second : PgBank} (hfirst : first ∈ pathBanks start path)
    (hsecond : second ∈ pathBanks start path) :
    first.getLatestBlockhash = second.getLatestBlockhash ↔ first.getSlot = second.getSlot := by
  obtain ⟨count, hslot, hhash⟩ := hpath.advanced hcodec first hfirst
  obtain ⟨count', hslot', hhash'⟩ := hpath.advanced hcodec second hsecond
  have hlt := first.slot.toNat_lt
  have hlt' := second.slot.toNat_lt
  have hslots : first.getSlot = second.getSlot ↔ count = count' := by
    rw [getSlot, getSlot, ← UInt64.toNat_inj]
    omega
  rw [hslots, getLatestBlockhash, getLatestBlockhash, hhash, hhash']
  constructor
  · exact hcycles.iterate_injective (by omega) (by omega)
  · rintro rfl
    rfl

/-- All banks of a path report one genesis hash exactly if no call of it records its transaction. -/
theorem HashPath.genesisHash_eq_iff (hcodec : codec.RoundTrips) (hcycles : NoShortCycles sdk)
    {path : List (BankCall × PgBank)} :
    ∀ {start : PgBank}, HashPath sdk codec start path →
      ((∀ bank ∈ pathBanks start path, bank.getGenesisHash = start.getGenesisHash) ↔
        RecordsNothing sdk start path) := by
  induction path with
  | nil =>
    intro start _
    simp [pathBanks, RecordsNothing]
  | cons step rest ih =>
    intro start hpath
    obtain ⟨call, after⟩ := step
    obtain ⟨hstep, hrest⟩ := hpath
    rcases hstep.hashes hcodec with ⟨hrecords, -, hhash⟩ | ⟨hrecords, -, hhash⟩
    · have hne : after.getGenesisHash ≠ start.getGenesisHash := by
        rw [getGenesisHash, getGenesisHash, hhash]
        exact hcycles start.latestBlockhash 1 Nat.one_pos (by decide)
      constructor
      · intro hsame
        exact absurd (hsame after (List.mem_cons_of_mem _ List.mem_cons_self)) hne
      · exact fun hnothing ↦ absurd hrecords hnothing.1
    · have hsame : after.getGenesisHash = start.getGenesisHash := hhash
      have hrec : (∀ bank ∈ pathBanks start ((call, after) :: rest),
          bank.getGenesisHash = start.getGenesisHash) ↔
            ∀ bank ∈ pathBanks after rest, bank.getGenesisHash = after.getGenesisHash := by
        rw [hsame]
        exact List.forall_mem_cons.trans (and_iff_right rfl)
      rw [hrec, ih hrest]
      exact (and_iff_right hrecords).symm

end Paths

/-- What the accessors should report along a path: one genesis hash, and a latest blockhash that changes
exactly when the slot does. -/
def ReportedHashes (start : PgBank) (path : List (BankCall × PgBank)) : Prop :=
  (∀ bank ∈ pathBanks start path, bank.getGenesisHash = start.getGenesisHash) ∧
    ∀ first ∈ pathBanks start path, ∀ second ∈ pathBanks start path,
      (first.getLatestBlockhash ≠ second.getLatestBlockhash ↔ first.getSlot ≠ second.getSlot)

/-- Along every path the latest blockhash changes exactly when the slot does. The hashes are reported as
they should be exactly along the paths no call of which records its transaction. -/
theorem reportedHashes_iff {sdk : Sdk} {codec : BankCodec} (hcodec : codec.RoundTrips)
    (hcycles : NoShortCycles sdk) {start : PgBank} {path : List (BankCall × PgBank)}
    (hpath : HashPath sdk codec start path) :
    (∀ first ∈ pathBanks start path, ∀ second ∈ pathBanks start path,
        (first.getLatestBlockhash ≠ second.getLatestBlockhash ↔ first.getSlot ≠ second.getSlot)) ∧
      (ReportedHashes start path ↔ RecordsNothing sdk start path) := by
  have hlatest : ∀ first ∈ pathBanks start path, ∀ second ∈ pathBanks start path,
      (first.getLatestBlockhash ≠ second.getLatestBlockhash ↔
        first.getSlot ≠ second.getSlot) := fun first hfirst second hsecond ↦
    not_congr (hpath.latestBlockhash_eq_iff hcodec hcycles hfirst hsecond)
  refine ⟨hlatest, ?_⟩
  rw [ReportedHashes, and_iff_left hlatest]
  exact hpath.genesisHash_eq_iff hcodec hcycles

/-! ### A path with a transfer -/

/-- SHA-256 of `b"playnet"`. -/
def genesisBlockhash : Hash :=
  0x46357a4441858063d6c999a6a016eaab1ed5a70447dbf705869a82cb0c390da4#256

/-- SHA-256 of the genesis hash. -/
def firstBlockhash : Hash :=
  0xd0d0ab731ba6258cf8a270fae70b19e70b55342af425d1432d19569d188e6c01#256

/-- SHA-256 of the hash after the genesis hash. -/
def secondBlockhash : Hash :=
  0x7bc0a11a140bcb3ca32bcbbd5df7abe04194c6b321bcdfcdb48927f835880aa0#256

/-- A hash function that gives the blockhashes of the first slots, and from there on the next number. -/
def chainedHash (bytes : List UInt8) : Hash :=
  let hash := bitsOfBytes bytes
  if bytes = PgBank.playnetBytes then genesisBlockhash
  else if hash = genesisBlockhash then firstBlockhash
  else if hash = firstBlockhash then secondBlockhash
  else hash + 1

/-- The implementation of the SDK with this hash function. -/
def chainedSdk : Sdk :=
  { referenceSdk with hash := chainedHash }

/-- The blockhash that follows another. -/
theorem nextBlockhash_chainedSdk (hash : Hash) :
    nextBlockhash chainedSdk hash =
      if hash = genesisBlockhash then firstBlockhash
      else if hash = firstBlockhash then secondBlockhash else hash + 1 := by
  have hne : referenceHashToBytes hash ≠ PgBank.playnetBytes := by
    intro hsame
    have hlength := congrArg List.length hsame
    rw [length_referenceHashToBytes] at hlength
    exact absurd hlength (by decide)
  change chainedHash (referenceHashToBytes hash) = _
  rw [chainedHash, bitsOfBytes_referenceHashToBytes, if_neg hne]

/-- As long as they meet neither of the first two, the blockhashes count up. -/
theorem iterate_of_ne {hash : Hash} {count : ℕ}
    (hne : ∀ earlier < count, (nextBlockhash chainedSdk)^[earlier] hash ≠ genesisBlockhash ∧
      (nextBlockhash chainedSdk)^[earlier] hash ≠ firstBlockhash) :
    (nextBlockhash chainedSdk)^[count] hash = hash + BitVec.ofNat 256 count := by
  induction count with
  | zero => simp
  | succ count ih =>
    obtain ⟨hgenesis, hfirst⟩ := hne count (Nat.lt_succ_self count)
    have hcount := ih fun earlier hlt ↦ hne earlier (Nat.lt_succ_of_lt hlt)
    rw [Function.iterate_succ_apply', nextBlockhash_chainedSdk, if_neg hgenesis, if_neg hfirst,
      hcount, BitVec.add_assoc]
    congr 1
    exact (BitVec.ofNat_add count 1).symm

/-- Counting up from the second blockhash, the first two are far away. -/
theorem second_add_ne {count : ℕ} (hcount : count < 2 ^ 64) :
    secondBlockhash + BitVec.ofNat 256 count ≠ genesisBlockhash ∧
      secondBlockhash + BitVec.ofNat 256 count ≠ firstBlockhash := by
  constructor <;>
  · intro hsame
    have hnat := congrArg BitVec.toNat hsame
    simp only [BitVec.toNat_add, BitVec.toNat_ofNat, secondBlockhash, genesisBlockhash,
      firstBlockhash] at hnat
    omega

/-- From the second blockhash, the blockhashes count up for as many steps as there are slots. -/
theorem iterate_second (count : ℕ) (hcount : count < 2 ^ 64) :
    (nextBlockhash chainedSdk)^[count] secondBlockhash =
      secondBlockhash + BitVec.ofNat 256 count := by
  induction count using Nat.strong_induction_on with
  | _ count ih =>
    apply iterate_of_ne
    intro earlier hlt
    rw [ih earlier hlt (hlt.trans hcount)]
    exact second_add_ne (hlt.trans hcount)

/-- The first blockhash does not come back after fewer steps than there are slots. -/
theorem iterate_first_ne {count : ℕ} (hpos : 0 < count) (hcount : count < 2 ^ 64) :
    (nextBlockhash chainedSdk)^[count] firstBlockhash ≠ firstBlockhash := by
  obtain ⟨count, rfl⟩ := Nat.exists_eq_succ_of_ne_zero hpos.ne'
  have hnext : nextBlockhash chainedSdk firstBlockhash = secondBlockhash := by
    rw [nextBlockhash_chainedSdk, if_neg (by decide), if_pos rfl]
  rw [Function.iterate_succ_apply, hnext, iterate_second count (by omega)]
  exact (second_add_ne (by omega)).2

/-- The genesis hash does not come back after fewer steps than there are slots. -/
theorem iterate_genesis_ne {count : ℕ} (hpos : 0 < count) (hcount : count < 2 ^ 64) :
    (nextBlockhash chainedSdk)^[count] genesisBlockhash ≠ genesisBlockhash := by
  obtain ⟨count, rfl⟩ := Nat.exists_eq_succ_of_ne_zero hpos.ne'
  have hnext : nextBlockhash chainedSdk genesisBlockhash = firstBlockhash := by
    rw [nextBlockhash_chainedSdk, if_pos rfl]
  have hnext' : nextBlockhash chainedSdk firstBlockhash = secondBlockhash := by
    rw [nextBlockhash_chainedSdk, if_neg (by decide), if_pos rfl]
  rw [Function.iterate_succ_apply, hnext]
  cases count with
  | zero => exact (by decide : firstBlockhash ≠ genesisBlockhash)
  | succ count =>
    rw [Function.iterate_succ_apply, hnext', iterate_second count (by omega)]
    exact (second_add_ne (by omega)).1

/-- No blockhash comes back after fewer steps than there are slots: the steps meet neither of the first
two blockhashes, and count up, or one of the two would come back as well. -/
theorem chainedSdk_noShortCycles : NoShortCycles chainedSdk := by
  intro hash count hpos hcount hcycle
  have hback : ∀ index, (nextBlockhash chainedSdk)^[count] ((nextBlockhash chainedSdk)^[index] hash) =
      (nextBlockhash chainedSdk)^[index] hash := by
    intro index
    rw [← Function.iterate_add_apply, Nat.add_comm, Function.iterate_add_apply, hcycle]
  have hne : ∀ index, (nextBlockhash chainedSdk)^[index] hash ≠ genesisBlockhash ∧
      (nextBlockhash chainedSdk)^[index] hash ≠ firstBlockhash := by
    intro index
    have hsame := hback index
    constructor
    · intro hmeets
      rw [hmeets] at hsame
      exact iterate_genesis_ne hpos hcount hsame
    · intro hmeets
      rw [hmeets] at hsame
      exact iterate_first_ne hpos hcount hsame
  have hcounts := iterate_of_ne fun index (_ : index < count) ↦ hne index
  have hnat := congrArg BitVec.toNat (hcounts.symm.trans hcycle)
  simp only [BitVec.toNat_add, BitVec.toNat_ofNat] at hnat
  have hlt := hash.isLt
  omega

/-- A transfer of five lamports. -/
def fiveLamportsTx : SanitizedTransaction :=
  transferTx [payerKp.pubkey, receiverKey, systemProgramId] (by decide) (by decide)

/-- A new bank. -/
def chainedBank : PgBank :=
  new chainedSdk (referenceSerde none) payerKp none

/-- The transfer succeeds, and the bank it leaves has another blockhash. -/
theorem exists_transfer :
    ∃ after result, processTx chainedSdk chainedBank fiveLamportsTx = some (after, result) ∧
      after.latestBlockhash = firstBlockhash := by
  have hcompute : (processTx chainedSdk chainedBank fiveLamportsTx).map
      (fun done ↦ done.1.latestBlockhash) = some firstBlockhash := by decide +kernel
  obtain ⟨⟨after, result⟩, hprocess, hhash⟩ := Option.map_eq_some_iff.mp hcompute
  exact ⟨after, result, hprocess, hhash⟩

/-- A transfer, and a reload of the bank that it leaves. -/
theorem reportedHashes_iff_transfer :
    ∃ path, HashPath chainedSdk referenceCodec chainedBank path ∧ path.length = 2 ∧
      (ReportedHashes chainedBank path ↔ RecordsNothing chainedSdk chainedBank path) := by
  obtain ⟨after, result, hprocess, -⟩ := exists_transfer
  obtain ⟨reloaded, hreloaded, -⟩ := newFromText_getSaveData referenceCodec_roundTrips
    referenceOrder_lawful referenceOrder_lawful chainedSdk payerKp after
  have hpath : HashPath chainedSdk referenceCodec chainedBank
      [(.call (.processTx fiveLamportsTx), after), (.reload payerKp, reloaded)] :=
    ⟨⟨result, hprocess⟩,
      ⟨referenceOrder, referenceOrder, referenceOrder_lawful, referenceOrder_lawful, hreloaded⟩,
      trivial⟩
  exact ⟨_, hpath, rfl,
    (reportedHashes_iff referenceCodec_roundTrips chainedSdk_noShortCycles hpath).2⟩

/-- After a transfer the bank reports another genesis hash. -/
theorem not_reportedHashes_transfer :
    NoShortCycles chainedSdk ∧ ∃ path, HashPath chainedSdk referenceCodec chainedBank path ∧
      ¬ ReportedHashes chainedBank path := by
  obtain ⟨after, result, hprocess, hhash⟩ := exists_transfer
  refine ⟨chainedSdk_noShortCycles, [(.call (.processTx fiveLamportsTx), after)],
    ⟨⟨result, hprocess⟩, trivial⟩, fun hreported ↦ ?_⟩
  have hsame : after.latestBlockhash = chainedBank.latestBlockhash :=
    hreported.1 after (List.mem_cons_of_mem _ List.mem_cons_self)
  have hgenesis : chainedBank.latestBlockhash = genesisBlockhash := by decide +kernel
  rw [hhash, hgenesis] at hsame
  exact absurd hsame (by decide)

end Playground.Playnet
