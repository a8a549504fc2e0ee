import Playground.Library.Runs
import Mathlib.Data.List.Nodup
import Mathlib.Data.List.Perm.Subperm

/-!
# Linearizability

A sequential object is a function that takes a value and an operation to the value behind the operation and
its result. A history of calls and returns is linearizable if the operations can be put in an order that
contains every operation that has returned, keeps an operation that returned before another was called in
front of that other one, and gives every result when the operations are applied one after the other
(`Linearizes`).

An atomic object takes each operation in one step somewhere between its call and its return. Every run of
it is linearizable, the order being that of these steps (`linearizes_of_run`). An implementation is shown
linearizable by a run of the atomic object with the same history.
-/

set_option autoImplicit false
set_option relaxedAutoImplicit false

namespace Playground.Library

/-- An event of a history. -/
inductive HistoryEvent (ω ρ : Type*)
  | call (id : ℕ) (operation : ω)
  | ret (id : ℕ) (result : ρ)
  deriving DecidableEq

/-- An operation that has been applied, with its result. -/
structure Commit (ω ρ : Type*) where
  id : ℕ
  operation : ω
  result : ρ

variable {σ ω ρ : Type*} (apply : σ → ω → σ × ρ)

/-- The sequential object applies an operation. -/
def SequentialStep (before : σ) (commit : Commit ω ρ) (after : σ) : Prop :=
  apply before commit.operation = (after, commit.result)

/-- An order of operations explains a history that goes from one value to another. -/
structure Linearizes (start : σ) (history : List (HistoryEvent ω ρ)) (commits : List (Commit ω ρ))
    (finish : σ) : Prop where
  nodup : (commits.map Commit.id).Nodup
  called : ∀ commit ∈ commits, HistoryEvent.call commit.id commit.operation ∈ history
  returned : ∀ id result, HistoryEvent.ret id result ∈ history →
    ∃ operation, ⟨id, operation, result⟩ ∈ commits
  ordered : ∀ first result second operation,
    [HistoryEvent.ret first result, HistoryEvent.call second operation].Sublist history →
      second ∈ commits.map Commit.id → [first, second].Sublist (commits.map Commit.id)
  replays : Run (SequentialStep apply) start commits finish

/-- Some order of operations explains a history. -/
def Linearizable (start : σ) (history : List (HistoryEvent ω ρ)) (finish : σ) : Prop :=
  ∃ commits, Linearizes apply start history commits finish

/-! ### The atomic object -/

/-- The value of an object, what has been called and returned, and what has been applied. -/
structure Atomic (σ ω ρ : Type*) where
  value : σ
  history : List (HistoryEvent ω ρ)
  commits : List (Commit ω ρ)

/-- The steps of an operation. -/
inductive AtomicEvent (ω ρ : Type*)
  | call (id : ℕ) (operation : ω)
  | commit (id : ℕ) (operation : ω)
  | ret (id : ℕ) (result : ρ)

/-- An operation is called once, applied once behind its call, and returns the result it got then. -/
inductive AtomicStep : Atomic σ ω ρ → AtomicEvent ω ρ → Atomic σ ω ρ → Prop
  | call {object : Atomic σ ω ρ} {id : ℕ} {operation : ω}
      (hfresh : ∀ other, HistoryEvent.call id other ∉ object.history) :
      AtomicStep object (.call id operation)
        { object with history := object.history ++ [.call id operation] }
  | commit {object : Atomic σ ω ρ} {id : ℕ} {operation : ω}
      (hcalled : HistoryEvent.call id operation ∈ object.history)
      (hnew : id ∉ object.commits.map Commit.id) :
      AtomicStep object (.commit id operation)
        ⟨(apply object.value operation).1, object.history,
          object.commits ++ [⟨id, operation, (apply object.value operation).2⟩]⟩
  | ret {object : Atomic σ ω ρ} {id : ℕ} {operation : ω} {result : ρ}
      (hcommit : ⟨id, operation, result⟩ ∈ object.commits) :
      AtomicStep object (.ret id result)
        { object with history := object.history ++ [.ret id result] }

/-- The atomic object before any call. -/
def Atomic.start (value : σ) : Atomic σ ω ρ :=
  ⟨value, [], []⟩

/-! ### The order of the applications -/

/-- Two elements in order at the end of a list: both before the last, or the second is the last. -/
theorem pair_sublist_append_singleton_iff {α : Type*} {first second last : α} {list : List α} :
    [first, second].Sublist (list ++ [last]) ↔
      [first, second].Sublist list ∨ first ∈ list ∧ second = last := by
  rw [← List.reverse_sublist, List.reverse_append, List.reverse_singleton, List.singleton_append,
    List.sublist_cons_iff, ← List.reverse_sublist, List.reverse_reverse, List.reverse_reverse]
  refine or_congr Iff.rfl ?_
  constructor
  · rintro ⟨rest, heq, hrest⟩
    obtain ⟨rfl, rfl⟩ := List.cons_eq_cons.mp heq
    exact ⟨List.mem_reverse.mp (List.singleton_sublist.mp hrest), rfl⟩
  · rintro ⟨hfirst, rfl⟩
    exact ⟨[first], rfl, List.singleton_sublist.mpr (List.mem_reverse.mpr hfirst)⟩

variable {apply} {start : σ} {before after : Atomic σ ω ρ} {event : AtomicEvent ω ρ}

/-- A step of the atomic object keeps the order of its applications an explanation of its history. -/
theorem Linearizes.step (hbefore : Linearizes apply start before.history before.commits before.value)
    (hstep : AtomicStep apply before event after) :
    Linearizes apply start after.history after.commits after.value := by
  cases hstep with
  | @call id operation hfresh =>
    refine ⟨hbefore.nodup, fun commit hcommit ↦ ?_, fun other result hreturned ↦ ?_,
      fun first result second other hpair hsecond ↦ ?_, hbefore.replays⟩
    · exact List.mem_append_left _ (hbefore.called commit hcommit)
    · rcases List.mem_append.mp hreturned with hold | hnew
      · exact hbefore.returned other result hold
      · cases List.mem_singleton.mp hnew
    · rcases pair_sublist_append_singleton_iff.mp hpair with hold | ⟨-, hlast⟩
      · exact hbefore.ordered first result second other hold hsecond
      · obtain ⟨rfl, rfl⟩ := HistoryEvent.call.inj hlast
        obtain ⟨commit, hcommit, rfl⟩ := List.mem_map.mp hsecond
        exact absurd (hbefore.called commit hcommit) (hfresh commit.operation)
  | @commit id operation hcalled hnew =>
    refine ⟨?_, fun commit hcommit ↦ ?_, fun other result hreturned ↦ ?_,
      fun first result second other hpair hsecond ↦ ?_, hbefore.replays.snoc rfl⟩
    · rw [List.map_append, List.map_singleton]
      exact hbefore.nodup.append (List.nodup_singleton _) (List.disjoint_singleton.mpr hnew)
    · rcases List.mem_append.mp hcommit with hold | hlast
      · exact hbefore.called commit hold
      · rw [List.mem_singleton.mp hlast]
        exact hcalled
    · obtain ⟨operation, hcommit⟩ := hbefore.returned other result hreturned
      exact ⟨operation, List.mem_append_left _ hcommit⟩
    · rw [List.map_append, List.map_singleton] at hsecond ⊢
      rw [pair_sublist_append_singleton_iff]
      rcases List.mem_append.mp hsecond with hold | hlast
      · exact .inl (hbefore.ordered first result second other hpair hold)
      · obtain ⟨operation, hcommit⟩ := hbefore.returned first result (hpair.subset List.mem_cons_self)
        exact .inr ⟨List.mem_map_of_mem (f := Commit.id) hcommit, List.mem_singleton.mp hlast⟩
  | @ret id operation result hcommit =>
    refine ⟨hbefore.nodup, fun commit hmem ↦ ?_, fun other given hreturned ↦ ?_,
      fun first given second other hpair hsecond ↦ ?_, hbefore.replays⟩
    · exact List.mem_append_left _ (hbefore.called commit hmem)
    · rcases List.mem_append.mp hreturned with hold | hnew
      · exact hbefore.returned other given hold
      · obtain ⟨rfl, rfl⟩ := HistoryEvent.ret.inj (List.mem_singleton.mp hnew)
        exact ⟨operation, hcommit⟩
    · rcases pair_sublist_append_singleton_iff.mp hpair with hold | ⟨-, hlast⟩
      · exact hbefore.ordered first given second other hold hsecond
      · cases hlast

/-- The order of the applications explains every run of the atomic object. -/
theorem linearizes_of_run {events : List (AtomicEvent ω ρ)} {finish : Atomic σ ω ρ}
    (hrun : Run (AtomicStep apply) (.start start) events finish) :
    Linearizes apply start finish.history finish.commits finish.value := by
  let property (object : Atomic σ ω ρ) : Prop :=
    Linearizes apply start object.history object.commits object.value
  refine @Run.invariant _ _ _ property (fun _ _ _ hbefore hstep ↦ hbefore.step hstep) _ _ _ hrun ?_
  exact ⟨List.nodup_nil, fun _ hmem ↦ absurd hmem List.not_mem_nil,
    fun _ _ hmem ↦ absurd hmem List.not_mem_nil,
    fun _ _ _ _ _ hmem ↦ absurd hmem List.not_mem_nil, .nil start⟩

/-- If the operations that have been called are known to be applied one after the other, they are applied in
no other order. -/
theorem Linearizes.map_id_eq {history : List (HistoryEvent ω ρ)} {commits : List (Commit ω ρ)}
    {finish : σ} (hlinearizes : Linearizes apply start history commits finish) {ids : List ℕ}
    (hcalled : ∀ id operation, HistoryEvent.call id operation ∈ history → id ∈ ids)
    (hids : ids.Sublist (commits.map Commit.id)) : commits.map Commit.id = ids := by
  have hsubset : commits.map Commit.id ⊆ ids := by
    intro id hid
    obtain ⟨commit, hcommit, rfl⟩ := List.mem_map.mp hid
    exact hcalled commit.id commit.operation (hlinearizes.called commit hcommit)
  exact (hids.eq_of_length_le (hlinearizes.nodup.subperm hsubset).length_le).symm

end Playground.Library
