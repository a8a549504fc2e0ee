import Mathlib.Logic.Function.Basic
import Playground.Library.Runs

/-!
# The program info of a workspace

`PgProgramInfo` (`client/src/utils/pg/program-info.ts`) is an updatable class whose storage is a file of
the current workspace. `useProgramInfo` (`client/src/pages/ide/Global/Global.tsx`) disposes what it has
subscribed and initializes the class again whenever the explorer has been initialized or has switched the
workspace, by a callback that `PgCommon.batchChanges` debounces. The initialization that
`updatable` (`client/src/utils/pg/decorators/updatable.ts`) adds reads the storage, updates the class and
subscribes the storage to its changes; every subscription has a timer of its own, which is not cleared
when it is disposed. The path of the file is resolved when a read or a write begins, and
`PgExplorer.switchWorkspace` changes the current name in the middle of its steps.

`Persists` is what these are for: a workspace's file is only ever written with program info that was
loaded from it or set while it was the current one, and once nothing is pending the program info in memory
is that of the current workspace and one subscription is active. It fails
(`not_persists_of_overlapping_steps`): a timer that expires after the name has changed writes the program
info of the workspace that is left, and initializations that overlap leave a subscription that nothing
disposes. `guard` names the steps that keep it, and `persists_of_run` proves it along every run of them.

`origins`, `isLoaded` and `written` record where the program info comes from and what has been written;
no branch reads them.

Not formalized here: the properties that are not persisted, a change of which is an update of no property
(`dll`, `importedProgram` and the derived ones); the parsing of the file; changes of the current name
outside `switchWorkspace`; unmounting. The end of an initialization is one step: between its parts only
microtasks run, none of which reads the variable of the hook.
-/

set_option autoImplicit false
set_option relaxedAutoImplicit false

namespace Playground.ProgramInfo

open Library

/-! ### Data -/

/-- A value for every property that is persisted. -/
structure PerProperty (α : Type*) where
  uuid : α
  kp : α
  customPk : α
  idl : α
  deriving DecidableEq

namespace PerProperty

variable {α β γ : Type*}

/-- The same value for every property. -/
def const (value : α) : PerProperty α :=
  ⟨value, value, value, value⟩

/-- Two values combined, property by property. -/
def map₂ (combine : α → β → γ) (first : PerProperty α) (second : PerProperty β) : PerProperty γ where
  uuid := combine first.uuid second.uuid
  kp := combine first.kp second.kp
  customPk := combine first.customPk second.customPk
  idl := combine first.idl second.idl

end PerProperty

/-- `ProgramInfo`; a property that has not been set is `null`. -/
abbrev Info (Value : Type*) := PerProperty (Option Value)

/-- `defaultState`. -/
def defaultState {Value : Type*} : Info Value :=
  .const none

/-- A call of `switchWorkspace`, before or after it has changed the current name. -/
structure Switch (Name : Type*) where
  name : Name
  entered : Bool
  deriving DecidableEq

/-- A call of `init`: the workspace whose file it reads, and what it has read. -/
structure Init (Name Value : Type*) where
  workspace : Option Name
  read : Option (Info Value)
  deriving DecidableEq

/-- A subscription of the storage to the changes, and whether its timer is set. -/
structure Subscription where
  isActive : Bool
  timeout : Bool
  deriving DecidableEq

/-- A write to the file of a workspace. -/
structure Write (Name Value : Type*) where
  workspace : Name
  info : Info Value
  deriving DecidableEq

/-- The explorer's current workspace, the files, the calls and writes in flight, the timer and the
disposable of `useProgramInfo`, and the class with its subscriptions in the order in which they were
made. -/
structure State (Name Value : Type*) where
  allNames : List Name
  currentName : Option Name
  files : Name → Option (Info Value)
  switches : List (Switch Name)
  sharedTimeout : Bool
  inits : List (Init Name Value)
  programInfo : Option ℕ
  isInitialized : Bool
  subscriptions : List Subscription
  writes : List (Write Name Value)
  info : Info Value
  origins : PerProperty (Option Name)
  isLoaded : Bool
  written : List (Name × PerProperty (Option Name))

/-- What can happen: a call of `switchWorkspace` and its later steps, the last of which may be an error;
the end of the explorer's initialization; the expiry of the timer of `useProgramInfo`; the two later
steps of `init`; an update; the expiry of the timer of a subscription; and the end of a write, which may
fail. -/
inductive Event (Name Value : Type*)
  | switchWorkspace (name : Name)
  | setWorkspaceName (index : ℕ)
  | didSwitchWorkspace (index : ℕ)
  | throwSwitch (index : ℕ)
  | didInit
  | timeout
  | readInfo (index : ℕ)
  | finishInit (index : ℕ)
  | update (changes : PerProperty (Option (Option Value)))
  | expire (index : ℕ)
  | land (index : ℕ) (succeeds : Bool)

variable {Name Value : Type*}

/-- The state in which the explorer has been initialized for the first time. -/
def mounted (allNames : List Name) (currentName : Option Name) (files : Name → Option (Info Value)) :
    State Name Value where
  allNames
  currentName
  files
  switches := []
  sharedTimeout := true
  inits := []
  programInfo := none
  isInitialized := false
  subscriptions := []
  writes := []
  info := defaultState
  origins := .const none
  isLoaded := false
  written := []

/-! ### Steps -/

section Steps

variable [DecidableEq Name]

/-- `PgWorkspace.setCurrentName`. -/
def State.setCurrentName (state : State Name Value) (name : Name) : State Name Value :=
  if name ∈ state.allNames then
    { state with
      currentName := some name
      isLoaded := state.isLoaded && state.currentName = some name }
  else state

/-- `switchWorkspace` changes the current name, after the metadata has been saved. -/
def setWorkspaceName (state : State Name Value) (index : ℕ) : Option (State Name Value) :=
  match state.switches[index]? with
  | some ⟨name, false⟩ =>
    some { state.setCurrentName name with switches := state.switches.set index ⟨name, true⟩ }
  | _ => none

/-- `switchWorkspace` ends with the event that it has switched, which sets the timer. -/
def didSwitchWorkspace (state : State Name Value) (index : ℕ) : Option (State Name Value) :=
  match state.switches[index]? with
  | some ⟨_, true⟩ =>
    some { state with switches := state.switches.eraseIdx index, sharedTimeout := true }
  | _ => none

/-- `switchWorkspace` ends with an error. -/
def throwSwitch (state : State Name Value) (index : ℕ) : Option (State Name Value) :=
  if index < state.switches.length then
    some { state with switches := state.switches.eraseIdx index }
  else none

/-- `programInfo?.dispose()`. -/
def State.dispose (state : State Name Value) : List Subscription :=
  match state.programInfo with
  | none => state.subscriptions
  | some index => state.subscriptions.modify index fun subscription ↦
      { subscription with isActive := false }

/-- `init` begins to read: without a workspace it has read the default. -/
def startInit : Option Name → Init Name Value
  | none => ⟨none, some defaultState⟩
  | some name => ⟨some name, none⟩

/-- The callback of `useProgramInfo`, up to the `await`. -/
def timeout (state : State Name Value) : State Name Value :=
  { state with
    sharedTimeout := false
    subscriptions := state.dispose
    inits := state.inits ++ [startInit state.currentName] }

/-- The file is read; the default is taken if it is not there. -/
def readInfo (state : State Name Value) (index : ℕ) : Option (State Name Value) :=
  match state.inits[index]? with
  | some ⟨some name, none⟩ =>
    some { state with
      inits := state.inits.set index ⟨some name, some ((state.files name).getD defaultState)⟩ }
  | _ => none

/-- A change event: the timers of the subscriptions are set. -/
def notify (subscriptions : List Subscription) : List Subscription :=
  subscriptions.map fun subscription ↦
    { subscription with timeout := subscription.timeout || subscription.isActive }

/-- `init` takes over what has been read, subscribes the storage and yields the disposable. The
subscription begins with a change event if the class has been initialized before. -/
def finishInit (state : State Name Value) (index : ℕ) : Option (State Name Value) :=
  match state.inits[index]? with
  | some ⟨workspace, some info⟩ =>
    some { state with
      inits := state.inits.eraseIdx index
      programInfo := some state.subscriptions.length
      isInitialized := true
      subscriptions := notify state.subscriptions ++ [⟨true, state.isInitialized⟩]
      info
      origins := .const workspace
      isLoaded := workspace = state.currentName }
  | _ => none

/-- `update`. -/
def update (state : State Name Value) (changes : PerProperty (Option (Option Value))) :
    State Name Value :=
  { state with
    info := changes.map₂ (fun change value ↦ change.getD value) state.info
    origins := changes.map₂ (fun change origin ↦ if change.isSome then state.currentName else origin)
      state.origins
    subscriptions := notify state.subscriptions }

/-- `storage.write`, up to the `await`: the path of the file is that in the current workspace. -/
def State.write (state : State Name Value) : State Name Value :=
  match state.currentName with
  | none => state
  | some name =>
    { state with
      writes := state.writes ++ [⟨name, state.info⟩]
      written := state.written ++ [(name, state.origins)] }

/-- The timer of a subscription expires, whether it is active or not. -/
def expire (state : State Name Value) (index : ℕ) : Option (State Name Value) :=
  match state.subscriptions[index]? with
  | some ⟨isActive, true⟩ =>
    some { state with subscriptions := state.subscriptions.set index ⟨isActive, false⟩ }.write
  | _ => none

/-- A write ends. -/
def land (state : State Name Value) (index : ℕ) (succeeds : Bool) : Option (State Name Value) :=
  (state.writes[index]?).map fun write ↦
    { state with
      writes := state.writes.eraseIdx index
      files := if succeeds then Function.update state.files write.workspace (some write.info)
        else state.files }

/-- One event. -/
def step (state : State Name Value) : Event Name Value → Option (State Name Value)
  | .switchWorkspace name => some { state with switches := state.switches ++ [⟨name, false⟩] }
  | .setWorkspaceName index => setWorkspaceName state index
  | .didSwitchWorkspace index => didSwitchWorkspace state index
  | .throwSwitch index => throwSwitch state index
  | .didInit => some { state with sharedTimeout := true }
  | .timeout => if state.sharedTimeout then some (timeout state) else none
  | .readInfo index => readInfo state index
  | .finishInit index => finishInit state index
  | .update changes => some (update state changes)
  | .expire index => expire state index
  | .land index succeeds => land state index succeeds

end Steps

/-! ### What the program info is for -/

/-- Nothing is pending. -/
structure Settled (state : State Name Value) : Prop where
  switches : state.switches = []
  sharedTimeout : state.sharedTimeout = false
  inits : state.inits = []
  timeouts : ∀ subscription ∈ state.subscriptions, subscription.timeout = false
  writes : state.writes = []

/-- Every write to the file of a workspace is of program info that was loaded from it or set while it was
the current one. Once nothing is pending, the program info in memory is that of the current workspace, and
one subscription is active. -/
structure Persists (state : State Name Value) : Prop where
  own : ∀ name origins, (name, origins) ∈ state.written → origins = .const (some name)
  current : Settled state → state.origins = .const state.currentName
  single : Settled state → state.subscriptions.countP Subscription.isActive = 1

/-- The steps that keep it: no timer of a subscription expires between a change of the current name and
the load of the program info of that workspace, the callback of `useProgramInfo` is not called while an
initialization is in flight, and no switch ends with an error after it has changed the current name,
unless the program info of that workspace is in memory. -/
def guard (state : State Name Value) : Event Name Value → Prop
  | .expire _ => state.currentName = none ∨ state.isLoaded = true
  | .timeout => state.inits = []
  | .throwSwitch index => state.isLoaded = true ∨
      ∀ called, state.switches[index]? = some called → called.entered = false
  | _ => True

/-! ### Guarded runs -/

/-- Which subscriptions are active. -/
def State.activity (state : State Name Value) : List Bool :=
  state.subscriptions.map Subscription.isActive

/-- The active subscriptions are counted by their flags. -/
theorem countP_isActive (state : State Name Value) :
    state.subscriptions.countP Subscription.isActive = state.activity.count true := by
  rw [State.activity, List.count_eq_countP, List.countP_map]
  congr 1
  funext subscription
  cases hactive : subscription.isActive <;> simp [hactive]

/-- The workspaces whose files are being read. -/
def State.reading (state : State Name Value) : List (Option Name) :=
  state.inits.map Init.workspace

/-- What the hook is up to: its callback has not been called yet, it is initializing and has disposed what
it had subscribed, or it has the disposable of the last subscription, the only active one. -/
inductive Subscribed (state : State Name Value) : Prop
  | mounted (hreading : state.reading = []) (htimer : state.sharedTimeout = true)
      (hnone : state.programInfo = none) (hactivity : state.activity = [])
  | initializing (workspace : Option Name) (hreading : state.reading = [workspace])
      (hactivity : ∀ isActive ∈ state.activity, isActive = false)
  | subscribed (front : List Bool) (hreading : state.reading = [])
      (hprogramInfo : state.programInfo = some front.length)
      (hactivity : state.activity = front ++ [true]) (hfront : ∀ isActive ∈ front, isActive = false)

/-- The program info in memory is that of the current workspace, or it will be loaded. -/
def Pending (state : State Name Value) : Prop :=
  state.isLoaded = true ∨ state.sharedTimeout = true ∨
    (∃ called ∈ state.switches, called.entered = true) ∨ state.currentName ∈ state.reading

/-- Where the program info comes from in the states of a guarded run. -/
structure Loading (state : State Name Value) : Prop where
  own : ∀ name origins, (name, origins) ∈ state.written → origins = .const (some name)
  loaded : state.isLoaded = true → state.origins = .const state.currentName
  reads : state.isLoaded = true → ∀ workspace ∈ state.reading, workspace = state.currentName
  pending : Pending state

/-- The states of a guarded run. -/
structure Tracking (state : State Name Value) : Prop extends Loading state where
  subscribed : Subscribed state

/-- A tracking state persists: nothing is left that would load the program info or subscribe to it. -/
theorem Tracking.persists {state : State Name Value} (htracking : Tracking state) : Persists state where
  own := htracking.own
  current := by
    intro hsettled
    rcases htracking.pending with hloaded | htimer | ⟨called, hcalled, -⟩ | hreading
    · exact htracking.loaded hloaded
    · exact absurd (hsettled.sharedTimeout.symm.trans htimer) (by simp)
    · rw [hsettled.switches] at hcalled
      cases hcalled
    · rw [State.reading, hsettled.inits] at hreading
      cases hreading
  single := by
    intro hsettled
    cases htracking.subscribed with
    | mounted _ htimer _ _ => exact absurd (hsettled.sharedTimeout.symm.trans htimer) (by simp)
    | initializing workspace hreading _ =>
      rw [State.reading, hsettled.inits] at hreading
      cases hreading
    | subscribed front _ _ hactivity hfront =>
      have hnone : front.count true = 0 := List.count_eq_zero.mpr fun hmem ↦
        absurd (hfront true hmem) (by simp)
      rw [countP_isActive, hactivity, List.count_append, hnone]
      rfl

/-- Only the hook's timer is set when the explorer has been initialized for the first time. -/
theorem tracking_mounted (allNames : List Name) (currentName : Option Name)
    (files : Name → Option (Info Value)) : Tracking (mounted allNames currentName files) where
  own := fun _ _ hwritten ↦ by cases hwritten
  loaded := fun hloaded ↦ by cases hloaded
  reads := fun hloaded ↦ by cases hloaded
  pending := .inr (.inl rfl)
  subscribed := .mounted rfl rfl rfl rfl

/-! #### Subscriptions -/

/-- An entry that is replaced by one that looks the same. -/
theorem map_set_of_getElem? {α β : Type*} {view : α → β} {entries : List α} {index : ℕ} {entry : α}
    (hentry : entries[index]? = some entry) {other : α} (hsame : view other = view entry) :
    (entries.set index other).map view = entries.map view := by
  obtain ⟨hlength, rfl⟩ := List.getElem?_eq_some_iff.mp hentry
  rw [List.map_set, hsame, ← List.getElem_map view (h := by rwa [List.length_map]),
    List.set_getElem_self]

/-- A change event makes no subscription active or inactive. -/
theorem map_isActive_notify (subscriptions : List Subscription) :
    (notify subscriptions).map Subscription.isActive =
      subscriptions.map Subscription.isActive := by
  rw [notify, List.map_map]
  rfl

/-- The hook has the same disposable, the same files are being read, and the same subscriptions are
active. Its timer may have been set. -/
structure SameHook (state after : State Name Value) : Prop where
  reading : after.reading = state.reading
  timer : state.sharedTimeout = true → after.sharedTimeout = true
  programInfo : after.programInfo = state.programInfo
  activity : after.activity = state.activity

/-- Only the callback of the hook and the end of an initialization do anything to the hook. -/
theorem sameHook_of_step [DecidableEq Name] {state after : State Name Value} {event : Event Name Value}
    (hstep : step state event = some after) :
    event = .timeout ∨ (∃ index, event = .finishInit index) ∨ SameHook state after := by
  cases event with
  | timeout => exact .inl rfl
  | finishInit index => exact .inr (.inl ⟨index, rfl⟩)
  | switchWorkspace name =>
    obtain rfl := Option.some.inj hstep
    exact .inr (.inr ⟨rfl, id, rfl, rfl⟩)
  | setWorkspaceName index =>
    change setWorkspaceName state index = some after at hstep
    unfold setWorkspaceName at hstep
    split at hstep
    · obtain rfl := Option.some.inj hstep
      unfold State.setCurrentName
      split <;> exact .inr (.inr ⟨rfl, id, rfl, rfl⟩)
    · cases hstep
  | didSwitchWorkspace index =>
    change didSwitchWorkspace state index = some after at hstep
    unfold didSwitchWorkspace at hstep
    split at hstep
    · obtain rfl := Option.some.inj hstep
      exact .inr (.inr ⟨rfl, fun _ ↦ rfl, rfl, rfl⟩)
    · cases hstep
  | throwSwitch index =>
    obtain ⟨-, hstep⟩ := Option.ite_none_right_eq_some.mp hstep
    obtain rfl := Option.some.inj hstep
    exact .inr (.inr ⟨rfl, id, rfl, rfl⟩)
  | didInit =>
    obtain rfl := Option.some.inj hstep
    exact .inr (.inr ⟨rfl, fun _ ↦ rfl, rfl, rfl⟩)
  | readInfo index =>
    change readInfo state index = some after at hstep
    unfold readInfo at hstep
    split at hstep
    · next name hinit =>
      obtain rfl := Option.some.inj hstep
      exact .inr (.inr ⟨map_set_of_getElem? hinit rfl, id, rfl, rfl⟩)
    · cases hstep
  | update changes =>
    obtain rfl := Option.some.inj hstep
    exact .inr (.inr ⟨rfl, id, rfl, map_isActive_notify _⟩)
  | expire index =>
    change expire state index = some after at hstep
    unfold expire at hstep
    split at hstep
    · next isActive hsubscription =>
      obtain rfl := Option.some.inj hstep
      have hactivity : (state.subscriptions.set index ⟨isActive, false⟩).map Subscription.isActive =
          state.activity := map_set_of_getElem? hsubscription rfl
      unfold State.write
      split <;> exact .inr (.inr ⟨rfl, id, rfl, hactivity⟩)
    · cases hstep
  | land index succeeds =>
    obtain ⟨write, -, rfl⟩ := Option.map_eq_some_iff.mp hstep
    exact .inr (.inr ⟨rfl, id, rfl, rfl⟩)

namespace Subscribed

variable {state after : State Name Value}

/-- What the hook is up to depends on its variables and on which subscriptions are active. -/
theorem sameHook (hsubscribed : Subscribed state) (hsame : SameHook state after) :
    Subscribed after := by
  cases hsubscribed with
  | mounted hnone hset hprogram hempty =>
    exact .mounted (hsame.reading.trans hnone) (hsame.timer hset) (hsame.programInfo.trans hprogram)
      (hsame.activity.trans hempty)
  | initializing workspace hone hinactive =>
    exact .initializing workspace (hsame.reading.trans hone) (hsame.activity ▸ hinactive)
  | subscribed front hnone hprogram hlast hfront =>
    exact .subscribed front (hsame.reading.trans hnone) (hsame.programInfo.trans hprogram)
      (hsame.activity.trans hlast) hfront

/-- Disposing leaves no subscription active. -/
theorem dispose (hsubscribed : Subscribed state) (hreading : state.reading = []) :
    ∀ isActive ∈ state.dispose.map Subscription.isActive, isActive = false := by
  cases hsubscribed with
  | mounted _ _ hprogram hempty =>
    have hnone : state.dispose = state.subscriptions := by rw [State.dispose, hprogram]
    have hempty : state.subscriptions.map Subscription.isActive = [] := hempty
    rw [hnone, hempty]
    exact fun _ hmem ↦ by cases hmem
  | initializing workspace hone _ =>
    rw [hreading] at hone
    cases hone
  | subscribed front _ hprogram hlast hfront =>
    have hlast : state.subscriptions.map Subscription.isActive = front ++ [true] := hlast
    obtain ⟨earlier, rest, hsubscriptions, hearlier, hrest⟩ := List.map_eq_append_iff.mp hlast
    obtain ⟨subscription, rfl, -⟩ := List.map_eq_singleton_iff.mp hrest
    have hdisposed : state.dispose.map Subscription.isActive = front ++ [false] := by
      rw [State.dispose, hprogram]
      dsimp only
      rw [hsubscriptions, ← hearlier, List.length_map, List.modify_eq_set_getElem?]
      simp
    rw [hdisposed]
    intro isActive hmem
    rcases List.mem_append.mp hmem with hmem | hmem
    · exact hfront isActive hmem
    · exact List.mem_singleton.mp hmem

/-- An initialization that ends is the only one in flight. -/
theorem reading_eq (hsubscribed : Subscribed state) {index : ℕ} {init : Init Name Value}
    (hinit : state.inits[index]? = some init) :
    state.reading = [init.workspace] ∧ state.inits.eraseIdx index = [] ∧
      ∀ isActive ∈ state.activity, isActive = false := by
  have hmem : init.workspace ∈ state.reading :=
    List.mem_map.mpr ⟨_, List.mem_of_getElem? hinit, rfl⟩
  cases hsubscribed with
  | mounted hreading _ _ _ =>
    rw [hreading] at hmem
    cases hmem
  | subscribed front hreading _ _ _ =>
    rw [hreading] at hmem
    cases hmem
  | initializing workspace hreading hactivity =>
    rw [hreading] at hmem ⊢
    obtain ⟨only, hinits, -⟩ := List.map_eq_singleton_iff.mp hreading
    have hlength : index < state.inits.length := (List.getElem?_eq_some_iff.mp hinit).1
    refine ⟨by rw [List.mem_singleton.mp hmem], ?_, hactivity⟩
    rw [hinits] at hlength ⊢
    obtain rfl : index = 0 := by simpa using hlength
    rfl

/-- The callback of the hook disposes and begins to read. -/
theorem timeout (hsubscribed : Subscribed state) (hinits : state.inits = []) :
    Subscribed (timeout state) := by
  have hnone : state.reading = [] := by rw [State.reading, hinits, List.map_nil]
  refine .initializing (startInit state.currentName : Init Name Value).workspace ?_
    (hsubscribed.dispose hnone)
  show (state.inits ++ [startInit state.currentName]).map Init.workspace = _
  rw [hinits, List.nil_append, List.map_singleton]

/-- The end of an initialization makes the only active subscription. -/
theorem finishInit [DecidableEq Name] (hsubscribed : Subscribed state) {index : ℕ}
    (hstep : finishInit state index = some after) : Subscribed after := by
  unfold ProgramInfo.finishInit at hstep
  split at hstep
  · next workspace info hinit =>
    obtain rfl := Option.some.inj hstep
    obtain ⟨-, hnone, hactivity⟩ := hsubscribed.reading_eq hinit
    refine .subscribed state.activity ?_ ?_ ?_ hactivity
    · rw [State.reading, hnone]
      rfl
    · rw [State.activity, List.length_map]
    · rw [State.activity, List.map_append, map_isActive_notify]
      rfl
  · cases hstep

/-- One event that meets the guard. -/
theorem step [DecidableEq Name] (hsubscribed : Subscribed state) {event : Event Name Value}
    (hguard : guard state event) (hstep : step state event = some after) : Subscribed after := by
  rcases sameHook_of_step hstep with rfl | ⟨index, rfl⟩ | hsame
  · obtain ⟨-, hstep⟩ := Option.ite_none_right_eq_some.mp hstep
    rw [← Option.some.inj hstep]
    exact hsubscribed.timeout hguard
  · exact hsubscribed.finishInit hstep
  · exact hsubscribed.sameHook hsame

end Subscribed

/-! #### Loading -/

namespace Loading

variable {state after : State Name Value}

/-- A switch that has been called leaves pending what was pending. -/
theorem switchWorkspace (hloading : Loading state) (name : Name) :
    Loading { state with switches := state.switches ++ [⟨name, false⟩] } where
  own := hloading.own
  loaded := hloading.loaded
  reads := hloading.reads
  pending := by
    rcases hloading.pending with hloaded | htimer | ⟨called, hcalled, hentered⟩ | hreading
    · exact .inl hloaded
    · exact .inr (.inl htimer)
    · exact .inr (.inr (.inl ⟨called, List.mem_append_left _ hcalled, hentered⟩))
    · exact .inr (.inr (.inr hreading))

/-- The end of a switch sets the timer of the hook. -/
theorem setTimer (hloading : Loading state) (switches : List (Switch Name)) :
    Loading { state with switches, sharedTimeout := true } :=
  ⟨hloading.own, hloading.loaded, hloading.reads, .inr (.inl rfl)⟩

/-- An error of a switch leaves something pending, if the switch has not changed the name. -/
theorem throwSwitch (hloading : Loading state) {index : ℕ}
    (hguard : state.isLoaded = true ∨
      ∀ called, state.switches[index]? = some called → called.entered = false)
    (hstep : throwSwitch state index = some after) : Loading after := by
  obtain ⟨-, hstep⟩ := Option.ite_none_right_eq_some.mp hstep
  obtain rfl := Option.some.inj hstep
  refine ⟨hloading.own, hloading.loaded, hloading.reads, ?_⟩
  rcases hguard with hloaded | hguard
  · exact .inl hloaded
  rcases hloading.pending with hloaded | htimer | ⟨called, hcalled, hentered⟩ | hreading
  · exact .inl hloaded
  · exact .inr (.inl htimer)
  · refine .inr (.inr (.inl ⟨called, ?_, hentered⟩))
    obtain ⟨place, hplace⟩ := List.mem_iff_getElem?.mp hcalled
    refine List.mem_eraseIdx_iff_getElem?.mpr ⟨place, ?_, hplace⟩
    rintro rfl
    exact absurd ((hguard called hplace).symm.trans hentered) (by simp)
  · exact .inr (.inr (.inr hreading))

/-- The callback of the hook begins to read the file of the current workspace. -/
theorem timeout (hloading : Loading state) (hinits : state.inits = []) :
    Loading (timeout state) := by
  have hstarted : (startInit state.currentName : Init Name Value).workspace = state.currentName := by
    cases state.currentName <;> rfl
  have hreading : (ProgramInfo.timeout state).reading = [state.currentName] := by
    show (state.inits ++ [startInit state.currentName]).map Init.workspace = _
    rw [hinits, List.nil_append, List.map_singleton, hstarted]
  refine ⟨hloading.own, hloading.loaded, fun _ workspace hmem ↦ ?_, .inr (.inr (.inr ?_))⟩
  · rw [hreading] at hmem
    exact List.mem_singleton.mp hmem
  · rw [hreading]
    exact List.mem_singleton_self _

/-- What has been read does not change whose file it is. -/
theorem readInfo (hloading : Loading state) {index : ℕ}
    (hstep : readInfo state index = some after) : Loading after := by
  unfold ProgramInfo.readInfo at hstep
  split at hstep
  · next name hinit =>
    obtain rfl := Option.some.inj hstep
    have hreading : (state.inits.set index
        ⟨some name, some ((state.files name).getD defaultState)⟩).map Init.workspace =
          state.reading := map_set_of_getElem? hinit rfl
    refine ⟨hloading.own, hloading.loaded, fun hloaded ↦ ?_, ?_⟩
    · rw [State.reading, hreading]
      exact hloading.reads hloaded
    · unfold Pending
      rw [State.reading, hreading]
      exact hloading.pending
  · cases hstep

/-- An update sets properties while the workspace is the current one. -/
theorem update (hloading : Loading state) (changes : PerProperty (Option (Option Value))) :
    Loading (update state changes) where
  own := hloading.own
  loaded := by
    intro hloaded
    have horigins : state.origins = .const state.currentName := hloading.loaded hloaded
    simp [ProgramInfo.update, horigins, PerProperty.map₂, PerProperty.const]
  reads := hloading.reads
  pending := hloading.pending

/-- A timer that expires writes the program info of the current workspace to its file. -/
theorem expire (hloading : Loading state) {index : ℕ}
    (hguard : state.currentName = none ∨ state.isLoaded = true)
    (hstep : expire state index = some after) : Loading after := by
  unfold ProgramInfo.expire at hstep
  split at hstep
  · obtain rfl := Option.some.inj hstep
    unfold State.write
    split
    · exact ⟨hloading.own, hloading.loaded, hloading.reads, hloading.pending⟩
    · next name hname =>
      refine ⟨fun other origins hwritten ↦ ?_, hloading.loaded, hloading.reads, hloading.pending⟩
      rcases List.mem_append.mp hwritten with hbefore | hnew
      · exact hloading.own other origins hbefore
      · obtain ⟨rfl, rfl⟩ := Prod.mk.inj (List.mem_singleton.mp hnew)
        rcases hguard with hnone | hloaded
        · exact absurd (hname.symm.trans hnone) (by simp)
        · exact (hloading.loaded hloaded).trans (congrArg _ hname)
  · cases hstep

variable [DecidableEq Name]

/-- A switch that has changed the name is pending until it ends. Where the name is another one, the
program info in memory is no longer that of the current workspace. -/
theorem setWorkspaceName (hloading : Loading state) {index : ℕ}
    (hstep : setWorkspaceName state index = some after) : Loading after := by
  unfold ProgramInfo.setWorkspaceName at hstep
  split at hstep
  · next name hcalled =>
    obtain rfl := Option.some.inj hstep
    have hlength : index < state.switches.length := (List.getElem?_eq_some_iff.mp hcalled).1
    have hentered : ∃ called ∈ state.switches.set index ⟨name, true⟩, called.entered = true :=
      ⟨⟨name, true⟩, List.mem_set hlength _, rfl⟩
    unfold State.setCurrentName
    split
    · have hsame : (state.isLoaded && decide (state.currentName = some name)) = true →
          state.isLoaded = true ∧ state.currentName = some name := by simp
      refine ⟨hloading.own, fun hloaded ↦ ?_, fun hloaded ↦ ?_, .inr (.inr (.inl hentered))⟩
      · obtain ⟨hloaded, hname⟩ := hsame hloaded
        exact (hloading.loaded hloaded).trans (congrArg _ hname)
      · obtain ⟨hloaded, hname⟩ := hsame hloaded
        exact fun workspace hmem ↦ (hloading.reads hloaded workspace hmem).trans hname
    · exact ⟨hloading.own, hloading.loaded, hloading.reads, .inr (.inr (.inl hentered))⟩
  · cases hstep

/-- What the only initialization in flight has loaded is of the current workspace, unless the name has
changed and it will be loaded again. -/
theorem finishInit (hloading : Loading state) (hsubscribed : Subscribed state) {index : ℕ}
    (hstep : finishInit state index = some after) : Loading after := by
  unfold ProgramInfo.finishInit at hstep
  split at hstep
  · next workspace info hinit =>
    obtain rfl := Option.some.inj hstep
    obtain ⟨hreading, hnone, -⟩ := hsubscribed.reading_eq hinit
    have hmem : workspace ∈ state.reading := hreading ▸ List.mem_singleton_self _
    refine ⟨hloading.own, fun hloaded ↦ ?_, fun _ ↦ ?_, ?_⟩
    · exact congrArg PerProperty.const (of_decide_eq_true hloaded)
    · rw [State.reading, hnone]
      exact fun _ hmem ↦ by cases hmem
    · rcases hloading.pending with hloaded | htimer | hswitch | hcurrent
      · exact .inl (decide_eq_true (hloading.reads hloaded workspace hmem))
      · exact .inr (.inl htimer)
      · exact .inr (.inr (.inl hswitch))
      · rw [hreading, List.mem_singleton] at hcurrent
        exact .inl (decide_eq_true hcurrent.symm)
  · cases hstep

end Loading

/-! #### Runs -/

/-- One event that meets the guard. -/
theorem tracking_step [DecidableEq Name] {state after : State Name Value} (htracking : Tracking state)
    {event : Event Name Value} (hguard : guard state event) (hstep : step state event = some after) :
    Tracking after := by
  refine ⟨?_, htracking.subscribed.step hguard hstep⟩
  cases event with
  | switchWorkspace name =>
    rw [← Option.some.inj hstep]
    exact htracking.toLoading.switchWorkspace name
  | setWorkspaceName index => exact htracking.toLoading.setWorkspaceName hstep
  | didSwitchWorkspace index =>
    change didSwitchWorkspace state index = some after at hstep
    unfold didSwitchWorkspace at hstep
    split at hstep
    · rw [← Option.some.inj hstep]
      exact htracking.toLoading.setTimer _
    · cases hstep
  | throwSwitch index => exact htracking.toLoading.throwSwitch hguard hstep
  | didInit =>
    rw [← Option.some.inj hstep]
    exact htracking.toLoading.setTimer state.switches
  | timeout =>
    obtain ⟨-, hstep⟩ := Option.ite_none_right_eq_some.mp hstep
    rw [← Option.some.inj hstep]
    exact htracking.toLoading.timeout hguard
  | readInfo index => exact htracking.toLoading.readInfo hstep
  | finishInit index => exact htracking.toLoading.finishInit htracking.subscribed hstep
  | update changes =>
    rw [← Option.some.inj hstep]
    exact htracking.toLoading.update changes
  | expire index => exact htracking.toLoading.expire hguard hstep
  | land index succeeds =>
    obtain ⟨write, -, rfl⟩ := Option.map_eq_some_iff.mp hstep
    exact ⟨htracking.own, htracking.loaded, htracking.reads, htracking.pending⟩

/-- Along every run whose steps meet the guard, the program info persists in every state reached. -/
theorem persists_of_run [DecidableEq Name] {allNames : List Name} {currentName : Option Name}
    {files : Name → Option (Info Value)} {events : List (Event Name Value)}
    {finish : State Name Value}
    (hrun : Run (Guarded (StepsTo step) guard) (mounted allNames currentName files) events finish) :
    Persists finish := by
  have htracking : Tracking finish :=
    hrun.invariant_guarded (fun _ _ _ hbefore hguard hstep ↦ tracking_step hbefore hguard hstep)
      (tracking_mounted allNames currentName files)
  exact htracking.persists

/-! ### Overlapping initializations -/

section Overlapping

/-- The subscriptions that are active or will be. -/
def State.claimed (state : State Name Value) : ℕ :=
  state.activity.count true + state.inits.length

/-- Disposing makes one subscription inactive at most. -/
theorem count_dispose (state : State Name Value) :
    state.activity.count true ≤ (state.dispose.map Subscription.isActive).count true + 1 := by
  have hmodify : ∀ (subscriptions : List Subscription) (index : ℕ),
      (subscriptions.map Subscription.isActive).count true ≤
        ((subscriptions.modify index fun subscription ↦ { subscription with isActive := false }).map
          Subscription.isActive).count true + 1 := by
    intro subscriptions
    induction subscriptions with
    | nil => intro index; simp
    | cons subscription rest ih =>
      intro index
      cases index with
      | zero =>
        rw [List.modify_zero_cons, List.map_cons, List.map_cons, List.count_cons, List.count_cons]
        split <;> simp
      | succ index =>
        have hrest := ih index
        rw [List.modify_succ_cons, List.map_cons, List.map_cons, List.count_cons, List.count_cons]
        omega
  unfold State.dispose
  split
  · exact Nat.le_succ _
  · exact hmodify _ _

variable {state after : State Name Value}

/-- Calling the callback of the hook while an initialization is in flight claims a second subscription. -/
theorem two_le_claimed_timeout (hinits : state.inits ≠ []) : 2 ≤ (timeout state).claimed := by
  have hpositive : 0 < state.inits.length := List.length_pos_iff.mpr hinits
  have hlength : (timeout state).inits.length = state.inits.length + 1 := List.length_append
  unfold State.claimed
  omega

/-- Calling the callback of the hook claims a subscription and disposes one at most. -/
theorem claimed_le_timeout (state : State Name Value) : state.claimed ≤ (timeout state).claimed := by
  have hlength : (timeout state).inits.length = state.inits.length + 1 := List.length_append
  have hcount : state.activity.count true ≤ (timeout state).activity.count true + 1 :=
    count_dispose state
  unfold State.claimed
  omega

/-- The end of an initialization makes the subscription that it claims. -/
theorem claimed_finishInit [DecidableEq Name] {index : ℕ}
    (hstep : finishInit state index = some after) : after.claimed = state.claimed := by
  unfold finishInit at hstep
  split at hstep
  · next workspace info hinit =>
    obtain rfl := Option.some.inj hstep
    have hlength : index < state.inits.length := (List.getElem?_eq_some_iff.mp hinit).1
    simp only [State.claimed, State.activity, List.map_append, map_isActive_notify, List.count_append,
      List.length_eraseIdx_of_lt hlength, List.map_singleton, List.count_singleton_self]
    omega
  · cases hstep

/-- No event lowers the number of subscriptions that are active or will be. -/
theorem claimed_le_of_step [DecidableEq Name] {event : Event Name Value}
    (hstep : step state event = some after) : state.claimed ≤ after.claimed := by
  rcases sameHook_of_step hstep with rfl | ⟨index, rfl⟩ | hsame
  · obtain ⟨-, hstep⟩ := Option.ite_none_right_eq_some.mp hstep
    rw [← Option.some.inj hstep]
    exact claimed_le_timeout state
  · exact Nat.le_of_eq (claimed_finishInit hstep).symm
  · have hlength : after.inits.length = state.inits.length := by
      simpa [State.reading] using congrArg List.length hsame.reading
    exact Nat.le_of_eq (by rw [State.claimed, State.claimed, hsame.activity, hlength])

/-- An initialization that begins while another one is in flight leaves two subscriptions active at least
once nothing is pending, whatever happens in between. -/
theorem two_le_active_of_overlapping [DecidableEq Name] {events : List (Event Name Value)}
    {finish : State Name Value} (hinits : state.inits ≠ [])
    (hrun : Run (StepsTo step) (timeout state) events finish) (hsettled : Settled finish) :
    2 ≤ finish.subscriptions.countP Subscription.isActive := by
  have hclaimed : 2 ≤ finish.claimed :=
    hrun.invariant (fun _ _ _ hbefore hstep ↦ Nat.le_trans hbefore (claimed_le_of_step hstep))
      (two_le_claimed_timeout hinits)
  rwa [State.claimed, hsettled.inits, ← countP_isActive] at hclaimed

end Overlapping

/-! ### Histories -/

/-- The explorer with the workspaces `a` and `b`, of which the first one has a keypair. -/
def twoWorkspaces : State String ℕ :=
  mounted ["a", "b"] (some "a") fun name ↦
    if name = "a" then some ⟨none, some 1, none, none⟩ else none

/-- A property is set and written, and then the other workspace is opened. -/
def orderlySteps : List (Event String ℕ) :=
  [.timeout, .readInfo 0, .finishInit 0, .update ⟨some (some 2), none, none, none⟩, .expire 0,
    .switchWorkspace "b", .setWorkspaceName 0, .didSwitchWorkspace 0, .timeout, .readInfo 0,
    .finishInit 0, .expire 1, .land 0 true, .land 0 true]

/-- The other workspace is opened, and a build that finishes before the end of the switch sets a property.
Then the first workspace is opened again while the program info of the other one is being read. -/
def overlappingSteps : List (Event String ℕ) :=
  [.timeout, .readInfo 0, .finishInit 0, .switchWorkspace "b", .setWorkspaceName 0,
    .update ⟨some (some 2), none, none, none⟩, .expire 0, .didSwitchWorkspace 0, .timeout,
    .switchWorkspace "a", .setWorkspaceName 0, .didSwitchWorkspace 0, .timeout, .readInfo 0,
    .finishInit 0, .readInfo 0, .finishInit 0, .expire 1, .expire 2, .land 0 true, .land 0 true,
    .land 0 true]

/-- The program info persists where a workspace is opened after what was set in another one has been
written. -/
theorem persists_of_run_orderlySteps :
    Persists ((orderlySteps.foldlM step twoWorkspaces).getD twoWorkspaces) := by
  refine @persists_of_run String ℕ _ ["a", "b"] (some "a")
    (fun name ↦ if name = "a" then some ⟨none, some 1, none, none⟩ else none) orderlySteps _ ?_
  exact .cons ⟨rfl, rfl⟩ (.cons ⟨trivial, rfl⟩ (.cons ⟨trivial, rfl⟩ (.cons ⟨trivial, rfl⟩
    (.cons ⟨Or.inr rfl, rfl⟩ (.cons ⟨trivial, rfl⟩ (.cons ⟨trivial, rfl⟩ (.cons ⟨trivial, rfl⟩
      (.cons ⟨rfl, rfl⟩ (.cons ⟨trivial, rfl⟩ (.cons ⟨trivial, rfl⟩ (.cons ⟨Or.inr rfl, rfl⟩
        (.cons ⟨trivial, rfl⟩ (.single ⟨trivial, rfl⟩)))))))))))))

/-- The program info of the first workspace is written to the file of the other one, and two subscriptions
stay active. -/
theorem not_persists_of_overlapping_steps :
    ¬ ∀ allNames currentName files events (finish : State String ℕ),
      Run (StepsTo step) (mounted allNames currentName files) events finish → Persists finish := by
  intro hall
  have hrun : Run (StepsTo step) twoWorkspaces overlappingSteps
      ((overlappingSteps.foldlM step twoWorkspaces).getD twoWorkspaces) := Run.of_foldlM (by rfl)
  have hown := (hall _ _ _ _ _ hrun).own "b" ⟨some "b", some "a", some "a", some "a"⟩
    (by decide)
  exact absurd hown (by decide)

end Playground.ProgramInfo
