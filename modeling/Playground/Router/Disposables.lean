import Playground.Library.Runs

/-!
# The disposables of `PgRouter.init`

`client/src/utils/pg/router.ts`. `PgRouter.init` listens to path changes. At a change it disposes what
the variable `disposable` holds, starts the handler of the first route that matches, and assigns what
the handler returns once it has been awaited. A handler that fails leaves the variable as it is, and
the router navigates to `/`, which is a change of the path unless `/` is where the app is.

`State` is the closure of the listener with the handlers in flight. A handler is named by its position
in the order of the changes, and so is the disposable it returns. `returned` and `disposed` record what
has happened and are read by no branch.

`Managed` is what the router is for: no disposable is disposed twice, and when nothing is going on the
only one that is not disposed is the one of the last path. It fails
(`not_managed_of_failed_handler`): the variable is not cleared when what it holds is disposed, and a
handler may return after the handler of a later path has been started. `guard` names the events after
which it does not fail: `managed_iff_guarded` proves that it holds along every run whose events meet the
guard, and that an event which breaks the guard is followed by a violation.

Not formalized here: the parameters of a route's path, and what the handlers do.
-/

set_option autoImplicit false
set_option relaxedAutoImplicit false

namespace Playground.Router

open Library

/-! ### The listener -/

/-- A handler that is awaited, and whether its path had a route. -/
structure Handler where
  id : ℕ
  hasRoute : Bool
  deriving DecidableEq

/-- The closure of the listener. `pending` counts the navigations to `/` that have been begun because a
handler has failed, and of which it is not yet decided whether they change the path. -/
structure State where
  disposable : Option ℕ
  inFlight : List Handler
  pending : ℕ
  changes : ℕ
  returned : List ℕ
  disposed : List ℕ
  deriving DecidableEq

/-- What can happen: a change to a path, with a route or without; a handler that fulfils, with a
disposable or without; a handler that rejects; and the end of a navigation, which changes the path
or stays. -/
inductive Event
  | changePath (hasRoute : Bool)
  | fulfilled (id : ℕ) (returns : Bool)
  | rejected (id : ℕ)
  | navigated (hasRoute : Bool)
  | stayed
  deriving DecidableEq

/-- The state in which `PgRouter.init` returns. -/
def initial : State where
  disposable := none
  inFlight := []
  pending := 0
  changes := 0
  returned := []
  disposed := []

/-- The listener, up to the `await`. -/
def changePath (state : State) (hasRoute : Bool) : State :=
  { state with
    inFlight := state.inFlight ++ [⟨state.changes, hasRoute⟩]
    changes := state.changes + 1
    disposed := state.disposed ++ state.disposable.toList }

/-- The handlers that are still awaited when one of them has been settled. -/
def settle (state : State) (id : ℕ) : List Handler :=
  state.inFlight.filter fun handler ↦ handler.id ≠ id

/-- The assignment after the `await`. -/
def assign (state : State) (id : ℕ) (returns : Bool) : State :=
  { state with
    disposable := if returns then some id else none
    inFlight := settle state id
    returned := state.returned ++ if returns then [id] else [] }

/-- The `catch` block: the navigation is begun. -/
def navigate (state : State) (id : ℕ) : State :=
  { state with inFlight := settle state id, pending := state.pending + 1 }

/-- One event. Without a route there is nothing to fail or to return a disposable. -/
def step (state : State) : Event → Option State
  | .changePath hasRoute => some (changePath state hasRoute)
  | .fulfilled id returns =>
    (state.inFlight.find? fun handler ↦ handler.id = id).bind fun handler ↦
      if returns && !handler.hasRoute then none else some (assign state id returns)
  | .rejected id =>
    (state.inFlight.find? fun handler ↦ handler.id = id).bind fun handler ↦
      if handler.hasRoute then some (navigate state id) else none
  | .navigated hasRoute =>
    if state.pending = 0 then none
    else some (changePath { state with pending := state.pending - 1 } hasRoute)
  | .stayed => if state.pending = 0 then none else some { state with pending := state.pending - 1 }

/-! ### What the router is for -/

/-- No handler is in flight and no path change is to come. -/
def State.Quiet (state : State) : Prop :=
  state.inFlight = [] ∧ state.pending = 0

/-- No disposable is disposed twice, and when nothing is going on the only one that is not disposed is
that of the handler of the last path, if it has returned one. -/
structure Managed (state : State) : Prop where
  once : state.disposed.Nodup
  quiet : state.Quiet → ∀ id ∈ state.returned, id ∉ state.disposed ↔ id + 1 = state.changes

/-- What the variable holds has been disposed. -/
def State.Spent (state : State) : Prop :=
  ∀ id, state.disposable = some id → id ∈ state.disposed

/-- What the variable holds has not been disposed. -/
def State.Fresh (state : State) : Prop :=
  ∀ id, state.disposable = some id → id ∉ state.disposed

/-- The events that keep the disposables managed. A path may change as long as the variable holds
nothing that has been disposed; a handler may fulfil as long as it holds nothing that has not; and the
last event before nothing is going on may not leave the disposable of an earlier path there. -/
def guard (state : State) : Event → Prop
  | .changePath _ | .navigated _ => state.Fresh
  | .fulfilled id returns => state.Spent ∧
      (returns = true → settle state id = [] → state.pending = 0 → id + 1 = state.changes)
  | .rejected _ => True
  | .stayed => state.inFlight = [] → state.pending = 1 → ∀ id, state.disposable = some id →
      id ∈ state.disposed ∨ id + 1 = state.changes

/-! ### Guarded runs -/

/-- What holds along a guarded run: every disposable that has been returned is disposed or in the
variable, and the one in the variable is right when nothing is going on. -/
structure Kept (state : State) : Prop where
  once : state.disposed.Nodup
  kept : ∀ id ∈ state.returned, id ∈ state.disposed ∨ state.disposable = some id
  held : ∀ id, state.disposable = some id → id ∈ state.returned
  opened : ∀ id ∈ state.disposed, id ∈ state.returned
  past : ∀ id ∈ state.returned, id < state.changes
  older : ∀ id ∈ state.disposed, id + 1 < state.changes
  flying : ∀ handler ∈ state.inFlight, handler.id < state.changes ∧ handler.id ∉ state.returned
  distinct : (state.inFlight.map Handler.id).Nodup
  quiet : state.Quiet → ∀ id, state.disposable = some id →
    id ∈ state.disposed ∨ id + 1 = state.changes

/-- Before the first change. -/
theorem kept_initial : Kept initial where
  once := List.nodup_nil
  kept := by simp [initial]
  held := by simp [initial]
  opened := by simp [initial]
  past := by simp [initial]
  older := by simp [initial]
  flying := by simp [initial]
  distinct := List.nodup_nil
  quiet := by simp [initial]

/-- What is kept is managed. -/
theorem Kept.managed {state : State} (hstate : Kept state) : Managed state where
  once := hstate.once
  quiet := by
    intro hquiet id hid
    constructor
    · intro hnot
      have hheld := (hstate.kept id hid).resolve_left hnot
      exact (hstate.quiet hquiet id hheld).resolve_left hnot
    · intro hlast hdisposed
      have holder := hstate.older id hdisposed
      omega

/-- The path changes, as the end of a navigation or not. -/
theorem kept_changePath {state : State} (hstate : Kept state) (hfresh : state.Fresh)
    (pending : ℕ) (hasRoute : Bool) :
    Kept (changePath { state with pending := pending } hasRoute) where
  once := by
    refine List.nodup_append.mpr ⟨hstate.once, ?_, ?_⟩
    · cases state.disposable <;> simp
    · intro id hid other hother heq
      rw [Option.mem_toList] at hother
      exact hfresh other hother (heq ▸ hid)
  kept := by
    intro id hid
    refine Or.inl (List.mem_append.mpr ?_)
    exact (hstate.kept id hid).imp_right Option.mem_toList.mpr
  held := hstate.held
  opened := by
    intro id hid
    rcases List.mem_append.mp hid with hmem | hmem
    · exact hstate.opened id hmem
    · exact hstate.held id (Option.mem_toList.mp hmem)
  past := fun id hid ↦ Nat.lt_succ_of_lt (hstate.past id hid)
  older := by
    intro id hid
    show id + 1 < state.changes + 1
    rcases List.mem_append.mp hid with hmem | hmem
    · exact Nat.lt_succ_of_lt (hstate.older id hmem)
    · have hpast := hstate.past id (hstate.held id (Option.mem_toList.mp hmem))
      omega
  flying := by
    intro handler hhandler
    rcases List.mem_append.mp hhandler with hmem | hmem
    · obtain ⟨hlow, hnot⟩ := hstate.flying handler hmem
      exact ⟨Nat.lt_succ_of_lt hlow, hnot⟩
    · rw [List.mem_singleton.mp hmem]
      refine ⟨Nat.lt_succ_self _, fun hid ↦ ?_⟩
      exact absurd (hstate.past _ hid) (Nat.lt_irrefl _)
  distinct := by
    rw [changePath, List.map_append]
    refine List.nodup_append.mpr ⟨hstate.distinct, by simp, ?_⟩
    intro id hid other hother heq
    obtain ⟨handler, hmem, rfl⟩ := List.mem_map.mp hid
    have hlow := (hstate.flying handler hmem).1
    simp only [List.map_cons, List.map_nil, List.mem_singleton] at hother
    omega
  quiet := fun hquiet ↦ absurd hquiet.1 (by simp [changePath])

/-- The handlers that are left when one of them is settled. -/
theorem mem_settle {state : State} {id : ℕ} {handler : Handler} :
    handler ∈ settle state id ↔ handler ∈ state.inFlight ∧ handler.id ≠ id := by
  simp [settle]

/-- The handlers that are left are distinct. -/
theorem nodup_settle {state : State} (hstate : Kept state) (id : ℕ) :
    ((settle state id).map Handler.id).Nodup :=
  (List.filter_sublist.map Handler.id).nodup hstate.distinct

/-- A handler fulfils. -/
theorem kept_assign {state : State} (hstate : Kept state) {handler : Handler} {returns : Bool}
    (hmem : handler ∈ state.inFlight) (hguard : guard state (.fulfilled handler.id returns)) :
    Kept (assign state handler.id returns) := by
  obtain ⟨hlow, hnot⟩ := hstate.flying handler hmem
  obtain ⟨hspent, hlast⟩ := hguard
  have hdisposed : ∀ id ∈ state.returned, id ∈ state.disposed := fun id hid ↦
    (hstate.kept id hid).elim (fun h ↦ h) (hspent id)
  cases returns with
  | false =>
    refine ⟨hstate.once, ?_, by simp [assign], ?_, ?_, hstate.older, ?_, nodup_settle hstate _,
      by simp [assign]⟩
    · intro id hid
      exact Or.inl (hdisposed id (by simpa [assign] using hid))
    · intro id hid
      simpa [assign] using hstate.opened id hid
    · intro id hid
      exact hstate.past id (by simpa [assign] using hid)
    · intro other hother
      obtain ⟨hlow, hnot⟩ := hstate.flying other (mem_settle.mp hother).1
      exact ⟨hlow, by simpa [assign] using hnot⟩
  | true =>
    refine ⟨hstate.once, ?_, ?_, fun id hid ↦ List.mem_append_left _ (hstate.opened id hid), ?_,
      hstate.older, ?_, nodup_settle hstate _, ?_⟩
    · intro id hid
      rcases List.mem_append.mp hid with hid | hid
      · exact Or.inl (hdisposed id hid)
      · exact Or.inr (congrArg some (List.mem_singleton.mp hid).symm)
    · intro id hid
      obtain rfl : handler.id = id := Option.some.inj hid
      exact List.mem_append_right _ (List.mem_singleton_self _)
    · intro id hid
      rcases List.mem_append.mp hid with hid | hid
      · exact hstate.past id hid
      · rw [List.mem_singleton.mp hid]
        exact hlow
    · intro other hother
      obtain ⟨hin, hne⟩ := mem_settle.mp hother
      obtain ⟨hotherLow, hotherNot⟩ := hstate.flying other hin
      refine ⟨hotherLow, fun hid ↦ ?_⟩
      rcases List.mem_append.mp hid with hid | hid
      · exact hotherNot hid
      · exact hne (List.mem_singleton.mp hid)
    · intro hquiet id hid
      obtain rfl : handler.id = id := Option.some.inj hid
      exact Or.inr (hlast rfl hquiet.1 hquiet.2)

/-- A handler rejects. -/
theorem kept_navigate {state : State} (hstate : Kept state) (id : ℕ) : Kept (navigate state id) where
  once := hstate.once
  kept := hstate.kept
  held := hstate.held
  opened := hstate.opened
  past := hstate.past
  older := hstate.older
  flying := fun handler hhandler ↦ hstate.flying handler (mem_settle.mp hhandler).1
  distinct := nodup_settle hstate id
  quiet := fun hquiet ↦ absurd hquiet.2 (Nat.succ_ne_zero _)

/-- A navigation is decided. -/
theorem kept_decided {state : State} (hstate : Kept state)
    (hquiet : state.inFlight = [] → state.pending = 1 → ∀ id, state.disposable = some id →
      id ∈ state.disposed ∨ id + 1 = state.changes) (hpending : state.pending ≠ 0) :
    Kept { state with pending := state.pending - 1 } where
  once := hstate.once
  kept := hstate.kept
  held := hstate.held
  opened := hstate.opened
  past := hstate.past
  older := hstate.older
  flying := hstate.flying
  distinct := hstate.distinct
  quiet := by
    intro hnone id hid
    have hzero : state.pending - 1 = 0 := hnone.2
    exact hquiet hnone.1 (by omega) id hid

/-- What an event needs and does. -/
theorem step_eq_some {state after : State} {event : Event} (hstep : step state event = some after) :
    match event with
    | .changePath hasRoute => after = changePath state hasRoute
    | .fulfilled id returns => (∃ handler ∈ state.inFlight, handler.id = id) ∧
        after = assign state id returns
    | .rejected id => after = navigate state id
    | .navigated hasRoute => state.pending ≠ 0 ∧
        after = changePath { state with pending := state.pending - 1 } hasRoute
    | .stayed => state.pending ≠ 0 ∧ after = { state with pending := state.pending - 1 } := by
  cases event with
  | changePath hasRoute => exact (Option.some.inj hstep).symm
  | fulfilled id returns =>
    obtain ⟨handler, hfind, hstep⟩ := Option.bind_eq_some_iff.mp hstep
    rw [Option.ite_none_left_eq_some] at hstep
    exact ⟨⟨handler, List.mem_of_find?_eq_some hfind, by simpa using List.find?_some hfind⟩,
      (Option.some.inj hstep.2).symm⟩
  | rejected id =>
    obtain ⟨handler, -, hstep⟩ := Option.bind_eq_some_iff.mp hstep
    rw [Option.ite_none_right_eq_some] at hstep
    exact (Option.some.inj hstep.2).symm
  | navigated hasRoute =>
    rw [step, Option.ite_none_left_eq_some] at hstep
    exact ⟨hstep.1, (Option.some.inj hstep.2).symm⟩
  | stayed =>
    rw [step, Option.ite_none_left_eq_some] at hstep
    exact ⟨hstep.1, (Option.some.inj hstep.2).symm⟩

/-- Every guarded event keeps the disposables. -/
theorem kept_step (state : State) (event : Event) (after : State) (hstate : Kept state)
    (hguard : guard state event) (hstep : StepsTo step state event after) : Kept after := by
  have hafter := step_eq_some hstep
  cases event with
  | changePath hasRoute =>
    obtain rfl : after = changePath state hasRoute := hafter
    exact kept_changePath hstate hguard state.pending hasRoute
  | fulfilled id returns =>
    obtain ⟨⟨handler, hmem, rfl⟩, rfl⟩ := hafter
    exact kept_assign hstate hmem hguard
  | rejected id =>
    obtain rfl : after = navigate state id := hafter
    exact kept_navigate hstate id
  | navigated hasRoute =>
    obtain ⟨-, rfl⟩ := hafter
    exact kept_changePath hstate hguard _ hasRoute
  | stayed =>
    obtain ⟨hpending, rfl⟩ := hafter
    exact kept_decided hstate hguard hpending

/-- Every guarded run keeps the disposables. -/
theorem kept_of_guarded {events : List Event} {finish : State}
    (hrun : Run (Guarded (StepsTo step) guard) initial events finish) : Kept finish :=
  hrun.invariant_guarded kept_step kept_initial

/-! ### Events that break the guard -/

/-- A change of the path disposes again what has been disposed. -/
theorem not_managed_changePath {state : State} (hbreak : ¬ state.Fresh) (pending : ℕ)
    (hasRoute : Bool) : ¬ Managed (changePath { state with pending := pending } hasRoute) := by
  intro hmanaged
  apply hbreak
  intro id hid hdisposed
  have honce := (List.nodup_append.mp hmanaged.once).2.2
  exact honce id hdisposed id (Option.mem_toList.mpr hid) rfl

/-- Handlers that are in flight may all fulfil without disposables. -/
theorem exists_run_fulfilled : ∀ (handlers : List Handler) (state : State),
    state.inFlight = handlers → (handlers.map Handler.id).Nodup →
      ∃ events finish, Run (StepsTo step) state events finish ∧ finish.inFlight = [] ∧
        finish.pending = state.pending ∧ finish.changes = state.changes ∧
          finish.returned = state.returned ∧ finish.disposed = state.disposed := by
  intro handlers
  induction handlers with
  | nil =>
    intro state hflight _
    exact ⟨[], state, .nil state, hflight, rfl, rfl, rfl, rfl⟩
  | cons first rest ih =>
    intro state hflight hdistinct
    rw [List.map_cons, List.nodup_cons] at hdistinct
    have hstep : step state (.fulfilled first.id false) = some (assign state first.id false) := by
      simp [step, hflight]
    have hleft : (assign state first.id false).inFlight = rest := by
      show settle state first.id = rest
      rw [settle, hflight, List.filter_cons, List.filter_eq_self.mpr]
      · simp
      · intro handler hmem
        have hne : handler.id ≠ first.id := by
          intro heq
          exact hdistinct.1 (heq ▸ List.mem_map_of_mem hmem)
        simpa using hne
    obtain ⟨events, finish, hrun, hnone, hpending, hchanges, hreturned, hdisposed⟩ :=
      ih (assign state first.id false) hleft hdistinct.2
    exact ⟨_, finish, .cons hstep hrun, hnone, hpending, hchanges,
      hreturned.trans (List.append_nil _), hdisposed⟩

/-- Navigations that have been begun may all stay. -/
theorem exists_run_stayed : ∀ (count : ℕ) (state : State), state.pending = count →
    ∃ events finish, Run (StepsTo step) state events finish ∧
      finish.inFlight = state.inFlight ∧ finish.pending = 0 ∧ finish.changes = state.changes ∧
        finish.returned = state.returned ∧ finish.disposed = state.disposed := by
  intro count
  induction count with
  | zero =>
    intro state hpending
    exact ⟨[], state, .nil state, rfl, hpending, rfl, rfl, rfl⟩
  | succ count ih =>
    intro state hpending
    have hstep : step state .stayed = some { state with pending := count } := by
      simp [step, hpending]
    obtain ⟨events, finish, hrun, hflight, hzero, hchanges, hreturned, hdisposed⟩ :=
      ih { state with pending := count } rfl
    exact ⟨_, finish, .cons hstep hrun, hflight, hzero, hchanges, hreturned, hdisposed⟩

/-- A disposable that is in the variable and has not been disposed when a handler fulfils is lost: once
the path has changed again and nothing is going on, it is still not disposed. -/
theorem not_managed_of_lost {state : State} (hstate : Kept state) {handler : Handler}
    {returns : Bool} (hmem : handler ∈ state.inFlight) (hbreak : ¬ state.Spent) :
    ∃ events finish, Run (StepsTo step) (assign state handler.id returns) events finish ∧
      ¬ Managed finish := by
  simp only [State.Spent, not_forall] at hbreak
  obtain ⟨lost, hheld, hnot⟩ := hbreak
  have hreturned := hstate.held lost hheld
  have hne : lost ≠ handler.id := by
    rintro rfl
    exact (hstate.flying handler hmem).2 hreturned
  have hlow := hstate.past lost hreturned
  have hchange : step (assign state handler.id returns) (.changePath true) =
      some (changePath (assign state handler.id returns) true) := rfl
  have hdistinct : ((changePath (assign state handler.id returns) true).inFlight.map
      Handler.id).Nodup := by
    show ((settle state handler.id ++ [Handler.mk state.changes true]).map Handler.id).Nodup
    rw [List.map_append]
    refine List.nodup_append.mpr ⟨nodup_settle hstate _, by simp, ?_⟩
    intro id hid other hother heq
    obtain ⟨old, hold, rfl⟩ := List.mem_map.mp hid
    have hpast := (hstate.flying old (mem_settle.mp hold).1).1
    simp only [List.map_cons, List.map_nil, List.mem_singleton] at hother
    omega
  obtain ⟨first, between, hfirst, hnone, -, hchanges, hkept, hdisposed⟩ :=
    exists_run_fulfilled _ _ rfl hdistinct
  obtain ⟨second, finish, hsecond, hflight, hzero, hchangesEnd, hkeptEnd, hdisposedEnd⟩ :=
    exists_run_stayed _ between rfl
  refine ⟨_, finish, .cons hchange (hfirst.append hsecond), fun hmanaged ↦ ?_⟩
  have hquiet : finish.Quiet := ⟨hflight.trans hnone, hzero⟩
  have hmemEnd : lost ∈ finish.returned := by
    rw [hkeptEnd, hkept]
    exact List.mem_append_left _ hreturned
  have hnotEnd : lost ∉ finish.disposed := by
    rw [hdisposedEnd, hdisposed]
    intro hid
    rcases List.mem_append.mp hid with hid | hid
    · exact hnot hid
    · have hnew : (if returns = true then some handler.id else none) = some lost :=
        Option.mem_toList.mp hid
      rw [Option.ite_none_right_eq_some] at hnew
      exact hne (Option.some.inj hnew.2).symm
  have hlast := (hmanaged.quiet hquiet lost hmemEnd).mp hnotEnd
  rw [hchangesEnd, hchanges] at hlast
  have hnext : lost + 1 = state.changes + 1 := hlast
  omega

/-- The disposables are managed along every run whose events meet the guard, and an event that breaks
the guard is followed by a violation: at once, or when the path has changed again and the handlers have
been settled. -/
theorem managed_iff_guarded {events : List Event} {state : State}
    (hrun : Run (Guarded (StepsTo step) guard) initial events state) :
    Managed state ∧
    ∀ event after, step state event = some after → ¬ guard state event →
      ∃ later finish, Run (StepsTo step) after later finish ∧ ¬ Managed finish := by
  have hstate := kept_of_guarded hrun
  refine ⟨hstate.managed, ?_⟩
  intro event after hstep hbreak
  have hafter := step_eq_some hstep
  cases event with
  | changePath hasRoute =>
    obtain rfl : after = changePath state hasRoute := hafter
    exact ⟨[], _, .nil _, not_managed_changePath hbreak state.pending hasRoute⟩
  | fulfilled id returns =>
    obtain ⟨⟨handler, hmem, rfl⟩, rfl⟩ := hafter
    by_cases hspent : state.Spent
    · have hlast : ¬ (returns = true → settle state handler.id = [] → state.pending = 0 →
          handler.id + 1 = state.changes) := fun h ↦ hbreak ⟨hspent, h⟩
      simp only [Classical.not_imp] at hlast
      obtain ⟨rfl, hflight, hpending, hother⟩ := hlast
      refine ⟨[], _, .nil _, fun hmanaged ↦ hother ?_⟩
      have hquiet : (assign state handler.id true).Quiet := ⟨hflight, hpending⟩
      refine (hmanaged.quiet hquiet handler.id ?_).mp ?_
      · exact List.mem_append_right _ (List.mem_singleton_self _)
      · exact fun hdisposed ↦ (hstate.flying handler hmem).2 (hstate.opened _ hdisposed)
    · exact not_managed_of_lost hstate hmem hspent
  | rejected id => exact absurd trivial hbreak
  | navigated hasRoute =>
    obtain ⟨-, rfl⟩ := hafter
    exact ⟨[], _, .nil _, not_managed_changePath hbreak _ hasRoute⟩
  | stayed =>
    obtain ⟨hpending, rfl⟩ := hafter
    simp only [guard, Classical.not_imp, not_forall, not_or] at hbreak
    obtain ⟨hflight, hone, id, hheld, hnot, hother⟩ := hbreak
    refine ⟨[], _, .nil _, fun hmanaged ↦ hother ?_⟩
    have hquiet : State.Quiet { state with pending := state.pending - 1 } :=
      ⟨hflight, by simp [hone]⟩
    exact (hmanaged.quiet hquiet id (hstate.held id hheld)).mp hnot

/-- Two paths one after the other, both with disposables, are managed; a path that changes after a
handler has failed is not. -/
theorem managed_iff_guarded_two_paths :
    Managed ⟨some 1, [], 0, 2, [0, 1], [0]⟩ ∧
      ∃ later finish, Run (StepsTo step) ⟨some 0, [⟨2, true⟩], 0, 3, [0], [0, 0]⟩ later finish ∧
        ¬ Managed finish := by
  constructor
  · refine (@managed_iff_guarded [.changePath true, .fulfilled 0 true, .changePath true,
      .fulfilled 1 true] _ ?_).1
    exact .cons ⟨by simp [guard, State.Fresh, initial], rfl⟩
      (.cons ⟨⟨by simp [State.Spent, changePath, initial], by simp [changePath, initial]⟩, rfl⟩
        (.cons ⟨by simp [guard, State.Fresh, assign, changePath, initial], rfl⟩
          (.single ⟨⟨by simp [State.Spent, assign, changePath, initial],
            by simp [assign, changePath, initial]⟩, rfl⟩)))
  · refine (@managed_iff_guarded [.changePath true, .fulfilled 0 true, .changePath true, .rejected 1]
      ⟨some 0, [], 1, 2, [0], [0]⟩ ?_).2 (.navigated true) _ rfl (by simp [guard, State.Fresh])
    exact .cons ⟨by simp [guard, State.Fresh, initial], rfl⟩
      (.cons ⟨⟨by simp [State.Spent, changePath, initial], by simp [changePath, initial]⟩, rfl⟩
        (.cons ⟨by simp [guard, State.Fresh, assign, changePath, initial], rfl⟩
          (.single ⟨trivial, rfl⟩)))

/-- A handler returns a disposable, the handler of the next path fails, and the router navigates to `/`:
the disposable is disposed twice. -/
theorem not_managed_of_failed_handler :
    ¬ ∀ events finish, Run (StepsTo step) initial events finish → Managed finish := by
  intro hall
  have hmanaged := hall [.changePath true, .fulfilled 0 true, .changePath true, .rejected 1,
    .navigated true] _ (Run.of_foldlM rfl)
  have honce : [0, 0].Nodup := hmanaged.once
  exact absurd honce (by decide)

end Playground.Router
