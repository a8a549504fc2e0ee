import Playground.Library.Runs
import Playground.Library.WorkerPool

/-!
# `BpfLoaderUpgradeable.loadBuffer`

`client/src/utils/bpf-upgradeable-browser/bpf-upgradeable-browser.ts`. The program's data is written to a
buffer account in chunks. Each round reads the account, compares it with the data chunk by chunk, and
lets `loadConcurrency` workers write the chunks that differ: a worker takes the chunk at the index
they share, sends a transaction and goes on whether or not the transaction fails. The loop is left when
the account holds the data, or when it is aborted.

The client, its workers and the chain take steps in any order. A transaction that has been sent may
reach the account at any later time, also after it has been reported to have failed, or never, and the
account that is read may be one of the past, as the node that is asked may be behind. What the chain's
program does to the account is a parameter, `BufferProgram`.

Not formalized here: the waiting times, the fetching of an account that is not there yet, which is
repeated until it succeeds, and the messages on the console.
-/

set_option autoImplicit false
set_option relaxedAutoImplicit false

namespace Playground.Deploy

open Library

/-! ### The program on the chain -/

/-- `BUFFER_HEADER_SIZE`. -/
def bufferHeaderSize : ℕ :=
  37

/-- `PACKET_DATA_SIZE`. -/
def packetDataSize : ℕ :=
  1280 - 40 - 8

/-- `WRITE_CHUNK_SIZE`. -/
def writeChunkSize : ℕ :=
  packetDataSize - 220 - 44

/-- The `Write` instruction of the loader. It puts `bytes` at an offset behind the header of the account:
every byte of the account stays, or becomes the one that is written there. -/
structure BufferProgram where
  write : List UInt8 → ℕ → List UInt8 → List UInt8
  write_getElem? : ∀ account offset bytes position,
    (write account offset bytes)[position]? = account[position]? ∨
      bufferHeaderSize + offset ≤ position ∧ position < bufferHeaderSize + offset + bytes.length ∧
        (write account offset bytes)[position]? = bytes[position - (bufferHeaderSize + offset)]?

/-! ### Chunks -/

/-- `Buffer.slice`. -/
def slice (data : List UInt8) (start stop : ℕ) : List UInt8 :=
  (data.take stop).drop start

/-- The offset of a chunk. -/
def chunkOffset (index : ℕ) : ℕ :=
  index * writeChunkSize

/-- A chunk of some data. -/
def chunk (data : List UInt8) (index : ℕ) : List UInt8 :=
  slice data (chunkOffset index) (chunkOffset index + writeChunkSize)

/-- `txCount`. -/
def txCount (programData : List UInt8) : ℕ :=
  (programData.length + writeChunkSize - 1) / writeChunkSize

/-- `onChainProgramData`: what an account holds where the program's data belongs. -/
def onChainProgramData (programData account : List UInt8) : List UInt8 :=
  slice account bufferHeaderSize (bufferHeaderSize + programData.length)

/-- `missingIndices`: the chunks that differ. -/
def missingIndices (programData onChain : List UInt8) : List ℕ :=
  (List.range (txCount programData)).filter fun index ↦
    chunk programData index ≠ chunk onChain index

/-! ### The loop -/

/-- An instruction that has been sent. -/
structure Write where
  offset : ℕ
  bytes : List UInt8
  deriving DecidableEq

/-- What is reported to the caller. -/
inductive Callback
  | onMissing (missingCount : ℕ)
  | onWrite (offset : ℕ)
  deriving DecidableEq

/-- A round: the data that has been read from the chain, and the workers with the chunks they are to
write. -/
structure Round where
  onChain : List UInt8
  pool : Pool ℕ
  deriving DecidableEq

/-- Where the loop is: at its head, reading the account, waiting for the workers of a round, or left,
by its end or because it has been aborted. -/
inductive Phase
  | looping
  | reading
  | loading (round : Round)
  | returned (completed : Bool)
  deriving DecidableEq

/-- The state of a call of `loadBuffer` and of the account, the newest version of which is `account`.
`rounds` records the rounds that are over, with whether the call had been aborted by then. -/
structure State where
  aborted : Bool
  account : List UInt8
  past : List (List UInt8)
  writes : List Write
  isMissing : Bool
  phase : Phase
  callbacks : List Callback
  rounds : List (Round × Bool)
  deriving DecidableEq

/-- What can happen: the caller aborts, an instruction that has been sent reaches the account, the loop
goes on, a version of the account is read, a worker takes its next turn, a transaction is settled, or
all workers of a round have stopped. -/
inductive Event
  | abort
  | land (position : ℕ)
  | loop
  | read (version : ℕ)
  | work (worker : ℕ)
  | settle (worker : ℕ) (fulfilled : Bool)
  | finish
  deriving DecidableEq

/-- The state in which `loadBuffer` is called. -/
def start (account : List UInt8) : State where
  aborted := false
  account := account
  past := []
  writes := []
  isMissing := false
  phase := .looping
  callbacks := []
  rounds := []

/-- The account has been read: the loop is left, or a round begins. -/
def compare (programData : List UInt8) (loadConcurrency : ℕ) (state : State)
    (account : List UInt8) : State :=
  let onChain := onChainProgramData programData account
  if onChain = programData then { state with phase := .returned true }
  else
    let missing := missingIndices programData onChain
    { state with
      phase := .loading ⟨onChain, Pool.start missing loadConcurrency⟩
      callbacks := state.callbacks ++ if state.isMissing then [.onMissing missing.length] else [] }

/-- A worker that is ready takes its turn: it returns when the call has been aborted; it takes the chunk
at the index, which is no number when no chunk is left, so that there are no bytes; and without bytes
it leaves its loop. -/
def work (programData : List UInt8) (state : State) (round : Round) (worker : ℕ) : State :=
  if state.aborted then { state with phase := .loading { round with pool := round.pool.stop worker } }
  else
    match round.pool.jobs[round.pool.next]? with
    | none => { state with phase := .loading { round with pool := round.pool.drain worker } }
    | some index =>
      let bytes := chunk programData index
      if bytes.length = 0 then
        { state with phase := .loading { round with pool := round.pool.drain worker } }
      else
        { state with
          phase := .loading { round with pool := round.pool.take worker index }
          writes := state.writes ++ [⟨chunkOffset index, bytes⟩] }

/-- A transaction is settled, and its worker is ready again. -/
def settle (state : State) (round : Round) (worker index : ℕ) (fulfilled : Bool) : State :=
  { state with
    phase := .loading { round with pool := round.pool.release worker }
    callbacks := state.callbacks ++
      if fulfilled && !state.isMissing then [.onWrite (chunkOffset index + writeChunkSize)] else [] }

/-- One event. -/
def step (program : BufferProgram) (programData : List UInt8) (loadConcurrency : ℕ)
    (state : State) : Event → Option State
  | .abort => some { state with aborted := true }
  | .land position => state.writes[position]?.map fun write ↦
      { state with
        account := program.write state.account write.offset write.bytes
        past := state.account :: state.past }
  | .loop =>
    match state.phase with
    | .looping => some { state with
        phase := if state.aborted then .returned false else .reading }
    | _ => none
  | .read version =>
    match state.phase with
    | .reading => (state.account :: state.past)[version]?.map
        (compare programData loadConcurrency state)
    | _ => none
  | .work worker =>
    match state.phase with
    | .loading round =>
      if round.pool.workers[worker]? = some .ready then some (work programData state round worker)
      else none
    | _ => none
  | .settle worker fulfilled =>
    match state.phase with
    | .loading round =>
      match round.pool.workers[worker]? with
      | some (.working index) => some (settle state round worker index fulfilled)
      | _ => none
    | _ => none
  | .finish =>
    match state.phase with
    | .loading round =>
      if ∀ worker ∈ round.pool.workers, worker = .stopped then
        some { state with
          phase := .looping
          isMissing := true
          rounds := state.rounds ++ [(round, state.aborted)] }
      else none
    | _ => none

end Playground.Deploy
