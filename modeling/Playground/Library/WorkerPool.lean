import Mathlib.Data.List.Basic
import Mathlib.Data.List.Nodup

/-!
# Workers that share an index

A pool is a list of jobs, an index into it and workers that take the job at the index and move the
index on. A worker that finds no job stops; one may also stop because the work has been cancelled.
`taken` records which worker has taken which job.

Whatever the order in which the workers come, the jobs taken are the first ones of the list, each taken
once (`Sound.taken_eq`), and once all workers have stopped without having been cancelled they are all of
the list (`Sound.taken_eq_jobs`), provided that there are workers at all.

Not formalized here: what a worker does with its job.
-/

set_option autoImplicit false
set_option relaxedAutoImplicit false

namespace Playground.Library

variable {α : Type*}

/-- What a worker is doing. -/
inductive Worker (α : Type*)
  | ready
  | working (job : α)
  | stopped
  deriving DecidableEq

/-- A pool of workers. -/
structure Pool (α : Type*) where
  jobs : List α
  next : ℕ
  workers : List (Worker α)
  taken : List (ℕ × α)
  deriving DecidableEq

namespace Pool

/-- A pool of idle workers. -/
def start (jobs : List α) (count : ℕ) : Pool α where
  jobs := jobs
  next := 0
  workers := List.replicate count .ready
  taken := []

/-- The index moves on, and a worker begins with the job that was there. -/
def take (pool : Pool α) (worker : ℕ) (job : α) : Pool α :=
  { pool with
    next := pool.next + 1
    workers := pool.workers.set worker (.working job)
    taken := pool.taken ++ [(worker, job)] }

/-- The index moves on, and a worker that has found no job stops. -/
def drain (pool : Pool α) (worker : ℕ) : Pool α :=
  { pool with next := pool.next + 1, workers := pool.workers.set worker .stopped }

/-- A worker is done with its job. -/
def release (pool : Pool α) (worker : ℕ) : Pool α :=
  { pool with workers := pool.workers.set worker .ready }

/-- A worker stops without looking for a job. -/
def stop (pool : Pool α) (worker : ℕ) : Pool α :=
  { pool with workers := pool.workers.set worker .stopped }

/-- The jobs that have been taken are the ones before the index, and a worker has stopped only if the
work has been cancelled or no job was left. -/
structure Sound (cancelled : Prop) (pool : Pool α) : Prop where
  taken_eq : pool.taken.map Prod.snd = pool.jobs.take pool.next
  drained : Worker.stopped ∈ pool.workers → cancelled ∨ pool.jobs.length ≤ pool.next

variable {cancelled : Prop} {pool : Pool α}

/-- Idle workers have taken nothing. -/
theorem sound_start (cancelled : Prop) (jobs : List α) (count : ℕ) :
    Sound cancelled (start jobs count) where
  taken_eq := rfl
  drained := by
    intro hstopped
    exact absurd (List.eq_of_mem_replicate hstopped) (by simp)

/-- A worker takes the job at the index. -/
theorem Sound.take (hpool : pool.Sound cancelled) {job : α} (worker : ℕ)
    (hjob : pool.jobs[pool.next]? = some job) : (pool.take worker job).Sound cancelled where
  taken_eq := by
    simp [Pool.take, hpool.taken_eq, List.take_add_one, hjob]
  drained := by
    intro hstopped
    rcases List.mem_or_eq_of_mem_set hstopped with hmem | heq
    · rcases hpool.drained hmem with hcancelled | hlength
      · exact Or.inl hcancelled
      · exact Or.inr (Nat.le_succ_of_le hlength)
    · simp at heq

/-- A worker finds no job at the index. -/
theorem Sound.drain (hpool : pool.Sound cancelled) (worker : ℕ)
    (hjob : pool.jobs[pool.next]? = none) : (pool.drain worker).Sound cancelled := by
  have hlength : pool.jobs.length ≤ pool.next := List.getElem?_eq_none_iff.mp hjob
  refine ⟨?_, fun _ ↦ Or.inr (Nat.le_succ_of_le hlength)⟩
  show pool.taken.map Prod.snd = pool.jobs.take (pool.next + 1)
  rw [hpool.taken_eq, List.take_of_length_le hlength,
    List.take_of_length_le (Nat.le_succ_of_le hlength)]

/-- A worker is done with its job. -/
theorem Sound.release (hpool : pool.Sound cancelled) (worker : ℕ) :
    (pool.release worker).Sound cancelled where
  taken_eq := hpool.taken_eq
  drained := by
    intro hstopped
    rcases List.mem_or_eq_of_mem_set hstopped with hmem | heq
    · exact hpool.drained hmem
    · simp at heq

/-- A worker stops after the work has been cancelled. -/
theorem Sound.stop (hpool : pool.Sound cancelled) (worker : ℕ) (hcancelled : cancelled) :
    (pool.stop worker).Sound cancelled where
  taken_eq := hpool.taken_eq
  drained := fun _ ↦ Or.inl hcancelled

/-- Cancelling the work. -/
theorem Sound.mono {other : Prop} (hpool : pool.Sound cancelled) (himp : cancelled → other) :
    pool.Sound other where
  taken_eq := hpool.taken_eq
  drained := fun hstopped ↦ (hpool.drained hstopped).imp_left himp

/-- No job is taken twice. -/
theorem Sound.nodup_taken (hpool : pool.Sound cancelled) (hjobs : pool.jobs.Nodup) :
    (pool.taken.map Prod.snd).Nodup := by
  rw [hpool.taken_eq]
  exact (List.take_sublist _ _).nodup hjobs

/-- When all workers have stopped without having been cancelled, every job has been taken. -/
theorem Sound.taken_eq_jobs (hpool : pool.Sound cancelled) (hworkers : pool.workers ≠ [])
    (hstopped : ∀ worker ∈ pool.workers, worker = .stopped) (hrunning : ¬ cancelled) :
    pool.taken.map Prod.snd = pool.jobs := by
  obtain ⟨worker, rest, hcons⟩ := List.exists_cons_of_ne_nil hworkers
  have hmem : worker ∈ pool.workers := by
    rw [hcons]
    exact List.mem_cons_self
  have hlength : pool.jobs.length ≤ pool.next :=
    (hpool.drained (hstopped worker hmem ▸ hmem)).resolve_left hrunning
  rw [hpool.taken_eq, List.take_of_length_le hlength]

end Pool

end Playground.Library
