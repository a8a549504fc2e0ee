import Playground.Deploy.LoadBuffer

/-!
# The rounds of `loadBuffer`

The chunks cover the program's data, each byte at its own offset (`chunksCover`). In every run, a round
attempts each of the chunks that differ once, and a round that is not aborted attempts all of them; the
workers are those of `Pool`, because a chunk of the data is never empty. A write only makes the account
agree with the data in more places, so that an account that is read as holding the data holds it for
good, however old the version that has been read is: `loadBuffer_loads` puts these together.
-/

set_option autoImplicit false
set_option relaxedAutoImplicit false

namespace Playground.Deploy

open Library

variable {programData : List UInt8}

/-! ### Chunks -/

/-- The bytes of a slice. -/
theorem getElem?_slice (data : List UInt8) (start stop position : ℕ) :
    (slice data start stop)[position]? =
      if start + position < stop then data[start + position]? else none := by
  rw [slice, List.getElem?_drop, List.getElem?_take]

/-- The bytes of a chunk are bytes of the data, from the offset of the chunk on. -/
theorem getElem?_chunk (data : List UInt8) (index position : ℕ) :
    (chunk data index)[position]? =
      if position < writeChunkSize then data[chunkOffset index + position]? else none := by
  rw [chunk, getElem?_slice]
  simp only [Nat.add_lt_add_iff_left]

/-- The chunks are those that begin within the data. -/
theorem lt_txCount_iff (index : ℕ) :
    index < txCount programData ↔ chunkOffset index < programData.length := by
  unfold txCount chunkOffset writeChunkSize packetDataSize
  omega

/-- A chunk of the data is not empty. -/
theorem length_chunk_ne_zero {index : ℕ} (hindex : index < txCount programData) :
    (chunk programData index).length ≠ 0 := by
  have hoffset := (lt_txCount_iff index).mp hindex
  have hfirst := getElem?_chunk programData index 0
  rw [if_pos (by decide), Nat.add_zero, List.getElem?_eq_getElem hoffset] at hfirst
  intro hlength
  rw [List.length_eq_zero_iff.mp hlength] at hfirst
  simp at hfirst

/-- Every byte of the data is in one chunk, and a chunk has no other bytes. -/
structure ChunksCover (programData : List UInt8) : Prop where
  covered : ∀ position byte, programData[position]? = some byte →
    ∃! index, index < txCount programData ∧ chunkOffset index ≤ position ∧
      (chunk programData index)[position - chunkOffset index]? = some byte
  in_place : ∀ index position byte, (chunk programData index)[position]? = some byte →
    programData[chunkOffset index + position]? = some byte

/-- The chunks cover the data. -/
theorem chunksCover (programData : List UInt8) : ChunksCover programData where
  covered := by
    intro position byte hbyte
    have hposition : position < programData.length := (List.getElem?_eq_some_iff.mp hbyte).1
    have hlow : chunkOffset (position / writeChunkSize) ≤ position :=
      Nat.div_mul_le_self position writeChunkSize
    have hhigh : position - chunkOffset (position / writeChunkSize) < writeChunkSize := by
      have hdiv := Nat.div_add_mod' position writeChunkSize
      have hmod := Nat.mod_lt position (show 0 < writeChunkSize by decide)
      unfold chunkOffset
      omega
    refine ⟨position / writeChunkSize, ⟨?_, hlow, ?_⟩, ?_⟩
    · exact (lt_txCount_iff _).mpr (Nat.lt_of_le_of_lt hlow hposition)
    · rw [getElem?_chunk, if_pos hhigh, Nat.add_sub_cancel' hlow, hbyte]
    · rintro other ⟨-, hother, hget⟩
      rw [getElem?_chunk] at hget
      have hnear : position - chunkOffset other < writeChunkSize := by
        by_contra hfar
        rw [if_neg hfar] at hget
        contradiction
      unfold chunkOffset at hother hnear
      refine (Nat.div_eq_of_lt_le hother ?_).symm
      rw [Nat.add_mul, Nat.one_mul]
      omega
  in_place := by
    intro index position byte hget
    rw [getElem?_chunk] at hget
    by_cases hposition : position < writeChunkSize
    · rwa [if_pos hposition] at hget
    · rw [if_neg hposition] at hget
      contradiction

/-! ### The account -/

/-- An account agrees with the data at a position. -/
def Agrees (programData account : List UInt8) (position : ℕ) : Prop :=
  account[bufferHeaderSize + position]? = programData[position]?

/-- An account holds the data if it agrees with it at every position. -/
theorem onChainProgramData_eq_iff (account : List UInt8) :
    onChainProgramData programData account = programData ↔
      ∀ position < programData.length, Agrees programData account position := by
  unfold Agrees
  constructor
  · intro heq position hposition
    have hget := congrArg (·[position]?) heq
    simp only [onChainProgramData] at hget
    rwa [getElem?_slice, if_pos (by omega)] at hget
  · intro hall
    apply List.ext_getElem?
    intro position
    rw [onChainProgramData, getElem?_slice]
    by_cases hposition : position < programData.length
    · rw [if_pos (by omega), hall position hposition]
    · rw [if_neg (by omega), List.getElem?_eq_none (by omega)]

/-- A chunk that is written keeps the positions at which the account agrees with the data. -/
theorem agrees_write (program : BufferProgram) {account : List UInt8} {index position : ℕ}
    (hagrees : Agrees programData account position) :
    Agrees programData (program.write account (chunkOffset index) (chunk programData index))
      position := by
  unfold Agrees at hagrees ⊢
  rcases program.write_getElem? account (chunkOffset index) (chunk programData index)
    (bufferHeaderSize + position) with hsame | ⟨hlow, hhigh, hwritten⟩
  · rw [hsame, hagrees]
  · have hoffset : bufferHeaderSize + position - (bufferHeaderSize + chunkOffset index) =
        position - chunkOffset index := by omega
    have hnear : position - chunkOffset index < (chunk programData index).length := by omega
    have hsize : position - chunkOffset index < writeChunkSize := by
      by_contra hfar
      have hnone := getElem?_chunk programData index (position - chunkOffset index)
      rw [if_neg hfar, List.getElem?_eq_none_iff] at hnone
      omega
    rw [hwritten, hoffset, getElem?_chunk, if_pos hsize]
    congr 1
    omega

/-! ### Rounds -/

/-- A round attempts chunks that differ, each once. -/
structure Round.AttemptsOnce (programData : List UInt8) (round : Round) : Prop where
  nodup : (round.pool.taken.map Prod.snd).Nodup
  missing : ∀ index ∈ round.pool.taken.map Prod.snd, index < txCount programData ∧
    chunk programData index ≠ chunk round.onChain index

/-- A round attempts every chunk that differs. -/
def Round.AttemptsAll (programData : List UInt8) (round : Round) : Prop :=
  ∀ index < txCount programData, chunk programData index ≠ chunk round.onChain index →
    index ∈ round.pool.taken.map Prod.snd

/-- The chunks that differ. -/
theorem mem_missingIndices {onChain : List UInt8} {index : ℕ} :
    index ∈ missingIndices programData onChain ↔
      index < txCount programData ∧ chunk programData index ≠ chunk onChain index := by
  simp [missingIndices]

/-- A chunk that differs is listed once. -/
theorem nodup_missingIndices (onChain : List UInt8) :
    (missingIndices programData onChain).Nodup :=
  List.nodup_range.filter _

/-- What holds of a round: its workers share the list of the chunks that differ. -/
structure Round.Right (programData : List UInt8) (loadConcurrency : ℕ) (cancelled : Prop)
    (round : Round) : Prop where
  jobs : round.pool.jobs = missingIndices programData round.onChain
  workers : round.pool.workers.length = loadConcurrency
  sound : round.pool.Sound cancelled

variable {loadConcurrency : ℕ} {cancelled : Prop} {round : Round}

/-- A round attempts chunks that differ, each once. -/
theorem Round.Right.attemptsOnce (hround : round.Right programData loadConcurrency cancelled) :
    round.AttemptsOnce programData where
  nodup := hround.sound.nodup_taken (by rw [hround.jobs]; exact nodup_missingIndices _)
  missing := by
    intro index hindex
    rw [hround.sound.taken_eq, hround.jobs] at hindex
    exact mem_missingIndices.mp ((List.take_sublist _ _).mem hindex)

/-- When all workers have stopped without having been aborted, every chunk that differs has been
attempted. -/
theorem Round.Right.attemptsAll (hround : round.Right programData loadConcurrency cancelled)
    (hpositive : 0 < loadConcurrency)
    (hstopped : ∀ worker ∈ round.pool.workers, worker = .stopped) (hrunning : ¬ cancelled) :
    round.AttemptsAll programData := by
  intro index hindex hdiffers
  have hworkers : round.pool.workers ≠ [] := by
    intro hnone
    have hlength := hround.workers
    rw [hnone, List.length_nil] at hlength
    omega
  rw [hround.sound.taken_eq_jobs hworkers hstopped hrunning, hround.jobs]
  exact mem_missingIndices.mpr ⟨hindex, hdiffers⟩

/-! ### Runs -/

/-- What holds along every run: only chunks at their own offsets have been written, the account agrees
with the data wherever a past version did, the rounds are right, and the account holds the data once
the loop has been left by its end. -/
structure Loads (programData : List UInt8) (loadConcurrency : ℕ) (state : State) : Prop where
  writes : ∀ write ∈ state.writes, ∃ index < txCount programData,
    write = ⟨chunkOffset index, chunk programData index⟩
  past : ∀ version ∈ state.past, ∀ position, Agrees programData version position →
    Agrees programData state.account position
  loading : ∀ round, state.phase = .loading round →
    round.Right programData loadConcurrency (state.aborted = true)
  finished : ∀ entry ∈ state.rounds, entry.1.AttemptsOnce programData ∧
    (entry.2 = false → entry.1.AttemptsAll programData)
  returned : state.phase = .returned true →
    onChainProgramData programData state.account = programData

/-- Before the first round. -/
theorem loads_start (programData : List UInt8) (loadConcurrency : ℕ) (account : List UInt8) :
    Loads programData loadConcurrency (start account) where
  writes := by simp [start]
  past := by simp [start]
  loading := by simp [start]
  finished := by simp [start]
  returned := by simp [start]

variable {program : BufferProgram} {state : State}

/-- An instruction reaches the account. -/
theorem loads_land (hstate : Loads programData loadConcurrency state) {write : Write}
    (hwrite : write ∈ state.writes) :
    Loads programData loadConcurrency { state with
      account := program.write state.account write.offset write.bytes
      past := state.account :: state.past } := by
  obtain ⟨index, -, rfl⟩ := hstate.writes write hwrite
  have hkeep : ∀ position, Agrees programData state.account position →
      Agrees programData
        (program.write state.account (chunkOffset index) (chunk programData index)) position :=
    fun position hagrees ↦ agrees_write program hagrees
  refine ⟨hstate.writes, ?_, hstate.loading, hstate.finished, fun hphase ↦ ?_⟩
  · intro version hversion position hagrees
    rcases List.mem_cons.mp hversion with rfl | hmem
    · exact hkeep position hagrees
    · exact hkeep position (hstate.past version hmem position hagrees)
  · rw [onChainProgramData_eq_iff]
    intro position hposition
    exact hkeep position ((onChainProgramData_eq_iff _).mp (hstate.returned hphase) position hposition)

/-- A version of the account is read. -/
theorem loads_compare (hstate : Loads programData loadConcurrency state) {version : List UInt8}
    (hversion : version ∈ state.account :: state.past) :
    Loads programData loadConcurrency (compare programData loadConcurrency state version) := by
  unfold compare
  by_cases hequal : onChainProgramData programData version = programData
  · rw [if_pos hequal]
    refine ⟨hstate.writes, hstate.past, by simp, hstate.finished, fun _ ↦ ?_⟩
    rw [onChainProgramData_eq_iff] at hequal ⊢
    intro position hposition
    rcases List.mem_cons.mp hversion with rfl | hmem
    · exact hequal position hposition
    · exact hstate.past version hmem position (hequal position hposition)
  · rw [if_neg hequal]
    refine ⟨hstate.writes, hstate.past, fun round hphase ↦ ?_, hstate.finished, by simp⟩
    rw [← Phase.loading.inj hphase]
    exact ⟨rfl, List.length_replicate, Pool.sound_start _ _ _⟩

/-- A worker takes its turn. -/
theorem loads_work (hstate : Loads programData loadConcurrency state)
    (hphase : state.phase = .loading round) (worker : ℕ) :
    Loads programData loadConcurrency (work programData state round worker) := by
  have hround := hstate.loading round hphase
  have hlength : ∀ other : Worker ℕ,
      (round.pool.workers.set worker other).length = loadConcurrency := by
    intro other
    rw [List.length_set, hround.workers]
  unfold work
  by_cases haborted : state.aborted = true
  · rw [if_pos haborted]
    refine ⟨hstate.writes, hstate.past, fun other hother ↦ ?_, hstate.finished, by simp⟩
    rw [← Phase.loading.inj hother]
    exact ⟨hround.jobs, hlength _, hround.sound.stop worker haborted⟩
  · rw [if_neg haborted]
    cases hjob : round.pool.jobs[round.pool.next]? with
    | none =>
      refine ⟨hstate.writes, hstate.past, fun other hother ↦ ?_, hstate.finished, by simp⟩
      rw [← Phase.loading.inj hother]
      exact ⟨hround.jobs, hlength _, hround.sound.drain worker hjob⟩
    | some index =>
      have hmissing : index ∈ missingIndices programData round.onChain := by
        rw [← hround.jobs]
        exact List.mem_of_getElem? hjob
      have hindex := (mem_missingIndices.mp hmissing).1
      dsimp only
      rw [if_neg (length_chunk_ne_zero hindex)]
      refine ⟨?_, hstate.past, fun other hother ↦ ?_, hstate.finished, by simp⟩
      · intro write hwrite
        rcases List.mem_append.mp hwrite with hmem | hmem
        · exact hstate.writes write hmem
        · exact ⟨index, hindex, List.mem_singleton.mp hmem⟩
      · rw [← Phase.loading.inj hother]
        exact ⟨hround.jobs, hlength _, hround.sound.take worker hjob⟩

/-- A transaction is settled. -/
theorem loads_settle (hstate : Loads programData loadConcurrency state)
    (hphase : state.phase = .loading round) (worker index : ℕ) (fulfilled : Bool) :
    Loads programData loadConcurrency (settle state round worker index fulfilled) := by
  have hround := hstate.loading round hphase
  refine ⟨hstate.writes, hstate.past, fun other hother ↦ ?_, hstate.finished, by simp [settle]⟩
  rw [← Phase.loading.inj hother]
  exact ⟨hround.jobs, (List.length_set ..).trans hround.workers, hround.sound.release worker⟩

/-- All workers have stopped. -/
theorem loads_finish (hpositive : 0 < loadConcurrency)
    (hstate : Loads programData loadConcurrency state) (hphase : state.phase = .loading round)
    (hstopped : ∀ worker ∈ round.pool.workers, worker = .stopped) :
    Loads programData loadConcurrency { state with
      phase := .looping
      isMissing := true
      rounds := state.rounds ++ [(round, state.aborted)] } := by
  have hround := hstate.loading round hphase
  refine ⟨hstate.writes, hstate.past, by simp, fun entry hentry ↦ ?_, by simp⟩
  rcases List.mem_append.mp hentry with hmem | hmem
  · exact hstate.finished entry hmem
  · rw [List.mem_singleton.mp hmem]
    refine ⟨hround.attemptsOnce, fun haborted ↦ hround.attemptsAll hpositive hstopped ?_⟩
    exact Bool.not_eq_true _ ▸ haborted

/-- Every event keeps what holds along a run. -/
theorem loads_step (hpositive : 0 < loadConcurrency) (state : State) (event : Event) (after : State)
    (hstate : Loads programData loadConcurrency state)
    (hstep : StepsTo (step program programData loadConcurrency) state event after) :
    Loads programData loadConcurrency after := by
  unfold StepsTo at hstep
  cases event with
  | abort =>
    obtain rfl := Option.some.inj hstep
    refine ⟨hstate.writes, hstate.past, fun round hphase ↦ ?_, hstate.finished, hstate.returned⟩
    have hround := hstate.loading round hphase
    exact ⟨hround.jobs, hround.workers, hround.sound.mono fun _ ↦ rfl⟩
  | land position =>
    obtain ⟨write, hwrite, rfl⟩ := Option.map_eq_some_iff.mp hstep
    exact loads_land hstate (List.mem_of_getElem? hwrite)
  | loop =>
    cases hphase : state.phase with
    | looping =>
      simp only [step, hphase, Option.some.injEq] at hstep
      rw [← hstep]
      refine ⟨hstate.writes, hstate.past, ?_, hstate.finished, ?_⟩ <;> dsimp only <;> split <;> simp
    | reading => simp [step, hphase] at hstep
    | loading round => simp [step, hphase] at hstep
    | returned completed => simp [step, hphase] at hstep
  | read version =>
    cases hphase : state.phase with
    | reading =>
      simp only [step, hphase] at hstep
      obtain ⟨account, haccount, rfl⟩ := Option.map_eq_some_iff.mp hstep
      exact loads_compare hstate (List.mem_of_getElem? haccount)
    | looping => simp [step, hphase] at hstep
    | loading round => simp [step, hphase] at hstep
    | returned completed => simp [step, hphase] at hstep
  | work worker =>
    cases hphase : state.phase with
    | loading round =>
      simp only [step, hphase, Option.ite_none_right_eq_some, Option.some.injEq] at hstep
      rw [← hstep.2]
      exact loads_work hstate hphase worker
    | looping => simp [step, hphase] at hstep
    | reading => simp [step, hphase] at hstep
    | returned completed => simp [step, hphase] at hstep
  | settle worker fulfilled =>
    cases hphase : state.phase with
    | loading round =>
      simp only [step, hphase] at hstep
      split at hstep
      · rw [← Option.some.inj hstep]
        exact loads_settle hstate hphase worker _ fulfilled
      · contradiction
    | looping => simp [step, hphase] at hstep
    | reading => simp [step, hphase] at hstep
    | returned completed => simp [step, hphase] at hstep
  | finish =>
    cases hphase : state.phase with
    | loading round =>
      simp only [step, hphase, Option.ite_none_right_eq_some, Option.some.injEq] at hstep
      rw [← hstep.2]
      exact loads_finish hpositive hstate hphase hstep.1
    | looping => simp [step, hphase] at hstep
    | reading => simp [step, hphase] at hstep
    | returned completed => simp [step, hphase] at hstep

/-- The chunks cover the data, each byte at its own offset. In every run, the workers of a round attempt
chunks that differ, no chunk twice, and all of them unless the call is aborted; only chunks of the
data are written, each at its own offset; and once the loop has been left by its end the account holds
the data. -/
theorem loadBuffer_loads (program : BufferProgram) (programData : List UInt8) {loadConcurrency : ℕ}
    (hpositive : 0 < loadConcurrency) :
    ChunksCover programData ∧ ∀ account events state,
      Run (StepsTo (step program programData loadConcurrency)) (start account) events state →
        (∀ round, state.phase = .loading round → round.AttemptsOnce programData) ∧
        (∀ entry ∈ state.rounds, entry.1.AttemptsOnce programData ∧
          (entry.2 = false → entry.1.AttemptsAll programData)) ∧
        (∀ write ∈ state.writes, ∃ index < txCount programData,
          write = ⟨chunkOffset index, chunk programData index⟩) ∧
        (state.phase = .returned true →
          onChainProgramData programData state.account = programData) := by
  refine ⟨chunksCover programData, fun account events state hrun ↦ ?_⟩
  have hstate := hrun.invariant (loads_step hpositive)
    (loads_start programData loadConcurrency account)
  exact ⟨fun round hphase ↦ (hstate.loading round hphase).attemptsOnce, hstate.finished,
    hstate.writes, hstate.returned⟩

/-- A loader that writes the bytes if the account is large enough. -/
def plainProgram : BufferProgram where
  write := fun account offset bytes ↦
    if bufferHeaderSize + offset + bytes.length ≤ account.length then
      account.take (bufferHeaderSize + offset) ++
        (bytes ++ account.drop (bufferHeaderSize + offset + bytes.length))
    else account
  write_getElem? := by
    intro account offset bytes position
    by_cases hfits : bufferHeaderSize + offset + bytes.length ≤ account.length
    · simp only [if_pos hfits]
      have hlength : (account.take (bufferHeaderSize + offset)).length = bufferHeaderSize + offset := by
        rw [List.length_take]
        omega
      by_cases hlow : position < bufferHeaderSize + offset
      · rw [List.getElem?_append_left (by omega), List.getElem?_take_of_lt hlow]
        exact Or.inl rfl
      · rw [List.getElem?_append_right (by omega), hlength]
        by_cases hhigh : position < bufferHeaderSize + offset + bytes.length
        · rw [List.getElem?_append_left (by omega)]
          exact Or.inr ⟨by omega, hhigh, rfl⟩
        · rw [List.getElem?_append_right (by omega), List.getElem?_drop]
          refine Or.inl ?_
          congr 1
          omega
    · simp [hfits]

/-- Data of one byte more than a chunk. -/
def twoChunks : List UInt8 :=
  List.replicate writeChunkSize 7 ++ [8]

/-- Two workers write a chunk each. The transaction of the second one fails, and the next round writes its
chunk again. -/
def twoRounds : List Event :=
  [.loop, .read 0, .work 0, .work 1, .settle 1 false, .land 0, .settle 0 true, .work 1, .work 0,
    .finish, .loop, .read 0, .work 0, .work 1, .settle 0 true, .work 0, .land 2, .finish, .loop, .read 0]

/-- Two chunks are loaded by two workers in two rounds, although a transaction fails. -/
theorem loadBuffer_loads_two_chunks :
    ∃ state, Run (StepsTo (step plainProgram twoChunks 2))
      (start (List.replicate (bufferHeaderSize + twoChunks.length) 0)) twoRounds state ∧
        state.rounds.map (fun entry ↦ entry.1.pool.jobs) = [[0, 1], [1]] ∧
        state.phase = .returned true ∧
        (∀ entry ∈ state.rounds, entry.1.AttemptsOnce twoChunks) ∧
        onChainProgramData twoChunks state.account = twoChunks := by
  have houtcome : (twoRounds.foldlM (step plainProgram twoChunks 2)
      (start (List.replicate (bufferHeaderSize + twoChunks.length) 0))).map (fun state ↦
        (state.rounds.map fun entry ↦ entry.1.pool.jobs, state.phase)) =
          some ([[0, 1], [1]], .returned true) := by
    decide +kernel
  obtain ⟨state, hfold, houtcome⟩ := Option.map_eq_some_iff.mp houtcome
  obtain ⟨hrounds, hreturned⟩ := Prod.mk.inj houtcome
  have hrun := Run.of_foldlM hfold
  obtain ⟨-, hattempts, -, hloads⟩ :=
    (loadBuffer_loads plainProgram twoChunks (by decide)).2 _ _ _ hrun
  exact ⟨state, hrun, hrounds, hreturned, fun entry hentry ↦ (hattempts entry hentry).1,
    hloads hreturned⟩

end Playground.Deploy
