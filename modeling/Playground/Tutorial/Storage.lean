import Playground.Library.JavaScript
import Playground.Library.Json
import Playground.Library.Linearizability
import Playground.Library.OrderedMap

/-!
# The storage of a tutorial

`client/src/utils/pg/tutorial/storage.ts`, and `readToJSONOrDefault` of
`client/src/utils/pg/explorer/fs.ts`. The items are in a file. `getItem` reads it; `setItem` and `removeItem`
read it, change what they have read and write it; `clear` writes the default. Without a file, or if its text
cannot be parsed, an operation gets the default itself, which `setItem` then changes for good.

The calls of one storage go on in any order, in steps between which they wait: `call` is the part of an
operation up to its first wait, `read` and `write` are what the file system does, `resume` is the part behind
the reading, `finish` the return of a change. `base` in `Phase.writing` records what was read. No branch
reads it.

Every run is linearizable (`linearizable_of_run`) in which a change only writes while the file holds what it
has read, and nothing uses the default once it has entries: then an operation takes effect where it reads,
if it is `getItem`, and else where it writes. The names that every object has are no keys.

Not formalized here: a file system that fails to write, a file whose JSON is no object, and values that JSON
does not give back.
-/

set_option autoImplicit false
set_option relaxedAutoImplicit false

namespace Playground.Tutorial

open Library

/-- What is used of `JSON`: `JSON.stringify` and `JSON.parse`, which may throw, of data. -/
structure DataJson (V : Type) where
  stringify : OrderedMap Str V → Str
  parse : Str → Option (OrderedMap Str V)

/-- What is written is read back, with the same value under every key. -/
def DataJson.RoundTrips {V : Type} (json : DataJson V) : Prop :=
  ∀ data, ∃ read, json.parse (json.stringify data) = some read ∧ read.lookup = data.lookup

/-- The operations. -/
inductive Operation (V : Type)
  | getItem (key : Str)
  | setItem (key : Str) (value : V)
  | removeItem (key : Str)
  | clear
  deriving DecidableEq

/-- What a member access gives: nothing, a value, or what every object has under the key. -/
inductive Item (V : Type)
  | undefined
  | value (value : V)
  | inherited (key : Str)
  deriving DecidableEq

/-- The names that `Object.prototype` has members under. -/
def prototypeNames : List Str :=
  ["constructor", "__defineGetter__", "__defineSetter__", "hasOwnProperty", "__lookupGetter__",
    "__lookupSetter__", "isPrototypeOf", "propertyIsEnumerable", "toString", "valueOf", "__proto__",
    "toLocaleString"].map String.toList

variable {V : Type}

/-- `data[key]`. -/
def access (data : OrderedMap Str V) (key : Str) : Item V :=
  match data.lookup key with
  | some value => .value value
  | none => if key ∈ prototypeNames then .inherited key else .undefined

/-- `data[key] = value`. Under `__proto__` no entry is written. -/
def assign (data : OrderedMap Str V) (key : Str) (value : V) : OrderedMap Str V :=
  if key = "__proto__".toList then data else data.set key value

/-- How an operation changes the data that it has read. -/
def Operation.mutation : Operation V → Option (OrderedMap Str V → OrderedMap Str V)
  | .setItem key value => some fun data ↦ assign data key value
  | .removeItem key => some fun data ↦ data.erase key
  | .getItem _ | .clear => none

/-- Where an operation waits: for its reading, behind it with the parsed data or without (the default is
used), for its writing, behind it, or nowhere any more. -/
inductive Phase (V : Type)
  | reading
  | found (read : Option (OrderedMap Str V))
  | writing (base : Option (OrderedMap Str V)) (text : Str)
  | written
  | returned

/-- The file, the default, the calls with their phases, and what has been called and returned. -/
structure Storage (V : Type) where
  file : Option Str
  defaultData : OrderedMap Str V
  calls : List (Operation V × Phase V)
  history : List (HistoryEvent (Operation V) (Item V))

variable (json : DataJson V)

/-- A storage that nothing has been called of. -/
def Storage.start (file : Option Str) : Storage V :=
  ⟨file, .empty, [], []⟩

/-- The data in the file, if there are any. -/
def Storage.readFile (storage : Storage V) : Option (OrderedMap Str V) :=
  storage.file.bind json.parse

/-- The value that the file has under a key. -/
def Storage.current (storage : Storage V) : Str → Option V :=
  ((storage.readFile json).getD .empty).lookup

/-- The first phase of an operation: `clear` writes the default without reading. -/
def Storage.firstPhase (storage : Storage V) : Operation V → Phase V
  | .clear => .writing none (json.stringify storage.defaultData)
  | _ => .reading

/-- The steps. -/
inductive StorageEvent (V : Type)
  | call (operation : Operation V)
  | read (id : ℕ)
  | resume (id : ℕ)
  | write (id : ℕ)
  | finish (id : ℕ)

/-- One step. -/
inductive StorageStep : Storage V → StorageEvent V → Storage V → Prop
  | call {storage : Storage V} {operation : Operation V} :
      StorageStep storage (.call operation)
        { storage with
          calls := storage.calls ++ [(operation, storage.firstPhase json operation)]
          history := storage.history ++ [.call storage.calls.length operation] }
  | read {storage : Storage V} {id : ℕ} {operation : Operation V}
      (hcall : storage.calls[id]? = some (operation, .reading)) :
      StorageStep storage (.read id)
        { storage with calls := storage.calls.set id (operation, .found (storage.readFile json)) }
  | resumeGet {storage : Storage V} {id : ℕ} {key : Str} {read : Option (OrderedMap Str V)}
      (hcall : storage.calls[id]? = some (.getItem key, .found read)) :
      StorageStep storage (.resume id)
        { storage with
          calls := storage.calls.set id (.getItem key, .returned)
          history := storage.history ++ [.ret id (access (read.getD storage.defaultData) key)] }
  | resumeChange {storage : Storage V} {id : ℕ} {operation : Operation V}
      {read : Option (OrderedMap Str V)} {mutation : OrderedMap Str V → OrderedMap Str V}
      (hcall : storage.calls[id]? = some (operation, .found read))
      (hmutation : operation.mutation = some mutation) :
      StorageStep storage (.resume id)
        { storage with
          defaultData := if read.isNone then mutation storage.defaultData else storage.defaultData
          calls := storage.calls.set id (operation, .writing read
            (json.stringify (mutation (read.getD storage.defaultData)))) }
  | write {storage : Storage V} {id : ℕ} {operation : Operation V}
      {base : Option (OrderedMap Str V)} {text : Str}
      (hcall : storage.calls[id]? = some (operation, .writing base text)) :
      StorageStep storage (.write id)
        { storage with file := some text, calls := storage.calls.set id (operation, .written) }
  | finish {storage : Storage V} {id : ℕ} {operation : Operation V}
      (hcall : storage.calls[id]? = some (operation, .written)) :
      StorageStep storage (.finish id)
        { storage with
          calls := storage.calls.set id (operation, .returned)
          history := storage.history ++ [.ret id .undefined] }

/-! ### A map of items -/

/-- What an operation does to a map of items, and its result. -/
def applyMap (map : Str → Option V) : Operation V → (Str → Option V) × Item V
  | .getItem key => (map, (map key).elim .undefined .value)
  | .setItem key value => (Function.update map key (some value), .undefined)
  | .removeItem key => (Function.update map key none, .undefined)
  | .clear => (fun _ ↦ none, .undefined)

/-- When a step keeps to the map: `clear` finds the default without entries; what an operation that found no
data sees of the default is empty; a key that is read without a value is none that every object has, and a
key that is written is not `__proto__`; a change writes while the file holds what it has read. -/
def storageGuard (storage : Storage V) : StorageEvent V → Prop
  | .call .clear => storage.defaultData.lookup = fun _ ↦ none
  | .resume id =>
    ∀ operation read, storage.calls[id]? = some (operation, .found read) →
      match operation with
      | .getItem key =>
        (read = none → storage.defaultData.lookup key = none) ∧
          ((read.getD storage.defaultData).lookup key = none → key ∉ prototypeNames)
      | .setItem key _ =>
        key ≠ "__proto__".toList ∧ (read = none → storage.defaultData.lookup = fun _ ↦ none)
      | _ => read = none → storage.defaultData.lookup = fun _ ↦ none
  | .write id =>
    ∀ operation base text, storage.calls[id]? = some (operation, .writing base text) →
      operation ≠ .clear → storage.current json = (base.getD .empty).lookup
  | _ => True

/-! ### The atomic map -/

/-- What has been applied of an operation that waits. -/
def PhaseFits (commits : List (Commit (Operation V) (Item V))) (id : ℕ) (operation : Operation V) :
    Phase V → Prop
  | .reading => id ∉ commits.map Commit.id
  | .found read =>
    match operation with
    | .getItem key =>
      ⟨id, operation, (((read.getD .empty).lookup key).elim .undefined .value)⟩ ∈ commits
    | _ => id ∉ commits.map Commit.id
  | .writing base text =>
    id ∉ commits.map Commit.id ∧ (∀ key, operation ≠ .getItem key) ∧
      ∃ data, json.parse text = some data ∧
        data.lookup = (applyMap (base.getD .empty).lookup operation).1
  | .written => ⟨id, operation, .undefined⟩ ∈ commits
  | .returned => True

/-- The atomic map has the items of the file, the same history, and has applied what fits to the phases. -/
structure Simulates (storage : Storage V)
    (object : Atomic (Str → Option V) (Operation V) (Item V)) : Prop where
  value : object.value = storage.current json
  history : object.history = storage.history
  fresh : ∀ id operation, HistoryEvent.call id operation ∈ storage.history → id < storage.calls.length
  applied : ∀ commit ∈ object.commits, commit.id < storage.calls.length
  called : ∀ id operation phase, storage.calls[id]? = some (operation, phase) →
    HistoryEvent.call id operation ∈ storage.history
  fits : ∀ id operation phase, storage.calls[id]? = some (operation, phase) →
    PhaseFits json object.commits id operation phase

variable {json}

/-- Access to an own member. -/
theorem access_eq {data : OrderedMap Str V} {key : Str}
    (hkey : data.lookup key = none → key ∉ prototypeNames) :
    access data key = (data.lookup key).elim .undefined .value := by
  unfold access
  cases hlookup : data.lookup key with
  | some value => rfl
  | none => exact if_neg (hkey hlookup)

/-- The change of an operation is that of the map. -/
theorem lookup_mutation {operation : Operation V}
    {mutation : OrderedMap Str V → OrderedMap Str V} (hmutation : operation.mutation = some mutation)
    (hproto : ∀ key value, operation = .setItem key value → key ≠ "__proto__".toList)
    (data : OrderedMap Str V) : (mutation data).lookup = (applyMap data.lookup operation).1 := by
  cases operation with
  | setItem key value =>
    obtain rfl := Option.some.inj hmutation
    funext other
    change (assign data key value).lookup other = Function.update data.lookup key (some value) other
    rw [assign, if_neg (hproto key value rfl), OrderedMap.lookup_set, Function.update_apply]
  | removeItem key =>
    obtain rfl := Option.some.inj hmutation
    funext other
    change (data.erase key).lookup other = Function.update data.lookup key none other
    rw [OrderedMap.lookup_erase, Function.update_apply]
  | getItem key => cases hmutation
  | clear => cases hmutation

/-- What fits to a phase still does when another operation is applied. -/
theorem PhaseFits.append {commits : List (Commit (Operation V) (Item V))} {id : ℕ}
    {operation : Operation V} {phase : Phase V} (hfits : PhaseFits json commits id operation phase)
    {commit : Commit (Operation V) (Item V)} (hne : id ≠ commit.id) :
    PhaseFits json (commits ++ [commit]) id operation phase := by
  have hnotMem : id ∉ commits.map Commit.id → id ∉ (commits ++ [commit]).map Commit.id := by
    intro hnot hmem
    rw [List.map_append, List.map_singleton] at hmem
    rcases List.mem_append.mp hmem with hold | hlast
    · exact hnot hold
    · exact hne (List.mem_singleton.mp hlast)
  cases phase with
  | reading => exact hnotMem hfits
  | found read =>
    cases operation with
    | getItem key => exact List.mem_append_left _ hfits
    | setItem key value => exact hnotMem hfits
    | removeItem key => exact hnotMem hfits
    | clear => exact hnotMem hfits
  | writing base text => exact ⟨hnotMem hfits.1, hfits.2⟩
  | written => exact List.mem_append_left _ hfits
  | returned => trivial

section Steps

variable {storage after : Storage V} {object : Atomic (Str → Option V) (Operation V) (Item V)} {id : ℕ}
  {operation : Operation V} {phase : Phase V}

/-- A call among those of which one has got a new phase. -/
theorem eq_or_of_calls_set {calls : List (Operation V × Phase V)} {other : ℕ}
    {entry : Operation V × Phase V} (hentry : (calls.set id (operation, phase))[other]? = some entry) :
    other = id ∧ entry = (operation, phase) ∨ other ≠ id ∧ calls[other]? = some entry := by
  rw [List.getElem?_set] at hentry
  split at hentry
  next heq =>
    split at hentry
    · exact .inl ⟨heq.symm, (Option.some.inj hentry).symm⟩
    · cases hentry
  next hne => exact .inr ⟨fun heq ↦ hne heq.symm, hentry⟩

/-- A call gets a phase that fits to what has been applied. -/
theorem Simulates.setPhase (hsimulates : Simulates json storage object) {before : Phase V}
    (hcall : storage.calls[id]? = some (operation, before)) (data : OrderedMap Str V)
    (hfits : PhaseFits json object.commits id operation phase) :
    Simulates json
      { storage with defaultData := data, calls := storage.calls.set id (operation, phase) } object := by
  have hlength : (storage.calls.set id (operation, phase)).length = storage.calls.length :=
    List.length_set
  refine ⟨hsimulates.value, hsimulates.history, fun other called hmem ↦ ?_, fun commit hcommit ↦ ?_,
    fun other called entry hentry ↦ ?_, fun other called entry hentry ↦ ?_⟩
  · exact hlength.symm ▸ hsimulates.fresh other called hmem
  · exact hlength.symm ▸ hsimulates.applied commit hcommit
  · rcases eq_or_of_calls_set hentry with ⟨rfl, heq⟩ | ⟨-, hold⟩
    · obtain ⟨rfl, rfl⟩ := Prod.mk.inj heq
      exact hsimulates.called other called before hcall
    · exact hsimulates.called other called entry hold
  · rcases eq_or_of_calls_set hentry with ⟨rfl, heq⟩ | ⟨-, hold⟩
    · obtain ⟨rfl, rfl⟩ := Prod.mk.inj heq
      exact hfits
    · exact hsimulates.fits other called entry hold

/-- An operation is applied, and its call gets a phase that fits. -/
theorem Simulates.commit (hsimulates : Simulates json storage object) {before : Phase V}
    (hcall : storage.calls[id]? = some (operation, before))
    (hnew : id ∉ object.commits.map Commit.id) {file : Option Str}
    (hvalue : (applyMap object.value operation).1 =
      Storage.current json { storage with file := file })
    (hfits : ∀ commits, ⟨id, operation, (applyMap object.value operation).2⟩ ∈ commits →
      PhaseFits json commits id operation phase) :
    ∃ event next, AtomicStep applyMap object event next ∧
      Simulates json
        { storage with file := file, calls := storage.calls.set id (operation, phase) } next := by
  have hlength : (storage.calls.set id (operation, phase)).length = storage.calls.length :=
    List.length_set
  have hcalled := hsimulates.called id operation before hcall
  refine ⟨_, _, .commit (hsimulates.history ▸ hcalled) hnew, hvalue, hsimulates.history,
    fun other called hmem ↦ ?_, fun commit hcommit ↦ ?_, fun other called entry hentry ↦ ?_,
    fun other called entry hentry ↦ ?_⟩
  · exact hlength.symm ▸ hsimulates.fresh other called hmem
  · rw [hlength]
    rcases List.mem_append.mp hcommit with hold | hlast
    · exact hsimulates.applied commit hold
    · rw [List.mem_singleton.mp hlast]
      exact hsimulates.fresh id operation hcalled
  · rcases eq_or_of_calls_set hentry with ⟨rfl, heq⟩ | ⟨-, hold⟩
    · obtain ⟨rfl, rfl⟩ := Prod.mk.inj heq
      exact hcalled
    · exact hsimulates.called other called entry hold
  · rcases eq_or_of_calls_set hentry with ⟨rfl, heq⟩ | ⟨hne, hold⟩
    · obtain ⟨rfl, rfl⟩ := Prod.mk.inj heq
      exact hfits _ (List.mem_append_right _ (List.mem_singleton.mpr rfl))
    · exact (hsimulates.fits other called entry hold).append hne

/-- An operation that has been applied returns its result. -/
theorem Simulates.ret (hsimulates : Simulates json storage object) {before : Phase V}
    (hcall : storage.calls[id]? = some (operation, before)) {result : Item V}
    (hcommit : ⟨id, operation, result⟩ ∈ object.commits) :
    ∃ event next, AtomicStep applyMap object event next ∧
      Simulates json
        { storage with
          calls := storage.calls.set id (operation, .returned)
          history := storage.history ++ [.ret id result] } next := by
  have hset : Simulates json
      { storage with calls := storage.calls.set id (operation, .returned) } object :=
    hsimulates.setPhase hcall storage.defaultData trivial
  refine ⟨_, _, .ret hcommit, hset.value, congrArg (· ++ [.ret id result]) hset.history,
    fun other called hmem ↦ ?_, hset.applied, fun other called entry hentry ↦ ?_, hset.fits⟩
  · rcases List.mem_append.mp hmem with hold | hlast
    · exact hset.fresh other called hold
    · cases List.mem_singleton.mp hlast
  · exact List.mem_append_left _ (hset.called other called entry hentry)

/-- An operation is called. -/
theorem Simulates.call (hsimulates : Simulates json storage object)
    (hclear : operation = .clear → ∃ data,
      json.parse (json.stringify storage.defaultData) = some data ∧ data.lookup = fun _ ↦ none) :
    ∃ event next, AtomicStep applyMap object event next ∧
      Simulates json
        { storage with
          calls := storage.calls ++ [(operation, storage.firstPhase json operation)]
          history := storage.history ++ [.call storage.calls.length operation] } next := by
  have hfresh : ∀ other, HistoryEvent.call storage.calls.length other ∉ object.history := by
    intro other hmem
    exact absurd (hsimulates.fresh _ other (hsimulates.history ▸ hmem)) (lt_irrefl _)
  have hnew : storage.calls.length ∉ object.commits.map Commit.id := by
    intro hmem
    obtain ⟨commit, hcommit, heq⟩ := List.mem_map.mp hmem
    exact absurd (hsimulates.applied commit hcommit) (heq ▸ lt_irrefl _)
  have hfirst : PhaseFits json object.commits storage.calls.length operation
      (storage.firstPhase json operation) := by
    cases operation with
    | getItem key => exact hnew
    | setItem key value => exact hnew
    | removeItem key => exact hnew
    | clear => exact ⟨hnew, fun key heq ↦ (by cases heq), hclear rfl⟩
  have hlength : (storage.calls ++ [(operation, storage.firstPhase json operation)]).length =
      storage.calls.length + 1 :=
    List.length_append
  have hentry : ∀ id called entry,
      (storage.calls ++ [(operation, storage.firstPhase json operation)])[id]? = some (called, entry) →
        storage.calls[id]? = some (called, entry) ∨
          id = storage.calls.length ∧ called = operation ∧
            entry = storage.firstPhase json operation := by
    intro id called entry hentry
    rw [List.getElem?_append] at hentry
    split at hentry
    next => exact .inl hentry
    next hge =>
      rw [List.getElem?_singleton] at hentry
      split at hentry
      next hzero =>
        obtain ⟨rfl, rfl⟩ := Prod.mk.inj (Option.some.inj hentry)
        exact .inr ⟨by omega, rfl, rfl⟩
      next => cases hentry
  refine ⟨_, _, .call hfresh, hsimulates.value, congrArg (· ++ _) hsimulates.history,
    fun id called hmem ↦ ?_, fun commit hcommit ↦ ?_, fun id called entry hcall ↦ ?_,
    fun id called entry hcall ↦ ?_⟩
  · rw [hlength]
    rcases List.mem_append.mp hmem with hold | hlast
    · exact Nat.lt_succ_of_lt (hsimulates.fresh id called hold)
    · obtain ⟨rfl, -⟩ := HistoryEvent.call.inj (List.mem_singleton.mp hlast)
      exact Nat.lt_succ_self _
  · rw [hlength]
    exact Nat.lt_succ_of_lt (hsimulates.applied commit hcommit)
  · rcases hentry id called entry hcall with hold | ⟨rfl, rfl, rfl⟩
    · exact List.mem_append_left _ (hsimulates.called id called entry hold)
    · exact List.mem_append_right _ (List.mem_singleton.mpr rfl)
  · rcases hentry id called entry hcall with hold | ⟨rfl, rfl, rfl⟩
    · exact hsimulates.fits id called entry hold
    · exact hfirst

end Steps

/-! ### Runs -/

/-- A step that meets the guard is one of the atomic map, or leaves the atomic map as it is. -/
theorem Simulates.step (hjson : json.RoundTrips) {before after : Storage V}
    {object : Atomic (Str → Option V) (Operation V) (Item V)} {event : StorageEvent V}
    (hsimulates : Simulates json before object) (hguard : storageGuard json before event)
    (hstep : StorageStep json before event after) :
    Simulates json after object ∨
      ∃ event next, AtomicStep applyMap object event next ∧ Simulates json after next := by
  cases hstep with
  | @call operation =>
    refine .inr (hsimulates.call fun hclear ↦ ?_)
    obtain ⟨data, hdata, hlookup⟩ := hjson before.defaultData
    subst hclear
    exact ⟨data, hdata, hlookup.trans hguard⟩
  | @read id operation hcall =>
    have hnew : id ∉ object.commits.map Commit.id := hsimulates.fits id operation _ hcall
    cases operation with
    | getItem key =>
      refine .inr (hsimulates.commit hcall hnew hsimulates.value fun commits hcommit ↦ ?_)
      rw [hsimulates.value] at hcommit
      exact hcommit
    | setItem key value => exact .inl (hsimulates.setPhase hcall before.defaultData hnew)
    | removeItem key => exact .inl (hsimulates.setPhase hcall before.defaultData hnew)
    | clear => exact .inl (hsimulates.setPhase hcall before.defaultData hnew)
  | @resumeGet id key read hcall =>
    have hcommit := hsimulates.fits id _ _ hcall
    obtain ⟨hdefault, hinherited⟩ := hguard _ _ hcall
    refine .inr (hsimulates.ret hcall ?_)
    rw [access_eq hinherited]
    cases read with
    | some data => exact hcommit
    | none =>
      rw [Option.getD_none, hdefault rfl]
      exact hcommit
  | @resumeChange id operation read mutation hcall hmutation =>
    have hdefault : read = none → before.defaultData.lookup = fun _ ↦ none := by
      have hchange := hguard _ _ hcall
      cases operation with
      | getItem key => cases hmutation
      | setItem key value => exact hchange.2
      | removeItem key => exact hchange
      | clear => cases hmutation
    have hproto : ∀ key value, operation = .setItem key value → key ≠ "__proto__".toList := by
      intro key value heq
      subst heq
      exact (hguard _ _ hcall).1
    have hbase : (read.getD before.defaultData).lookup = (read.getD .empty).lookup := by
      cases read with
      | some data => rfl
      | none => exact (hdefault rfl).trans (funext fun key ↦ (OrderedMap.lookup_empty key).symm)
    obtain ⟨data, hdata, hlookup⟩ := hjson (mutation (read.getD before.defaultData))
    refine .inl (hsimulates.setPhase hcall _ ⟨?_, ?_, data, hdata, ?_⟩)
    · have hnew := hsimulates.fits id operation _ hcall
      cases operation with
      | getItem key => cases hmutation
      | setItem key value => exact hnew
      | removeItem key => exact hnew
      | clear => cases hmutation
    · intro key heq
      subst heq
      cases hmutation
    · rw [hlookup, lookup_mutation hmutation hproto, hbase]
  | @write id operation base text hcall =>
    obtain ⟨hnew, hchange, data, hdata, hlookup⟩ := hsimulates.fits id operation _ hcall
    have hvalue : (applyMap object.value operation).1 =
        Storage.current json { before with file := some text } := by
      have hcurrent : Storage.current json { before with file := some text } = data.lookup := by
        change (((some text).bind json.parse).getD .empty).lookup = data.lookup
        rw [Option.bind_some, hdata, Option.getD_some]
      rw [hcurrent, hlookup, hsimulates.value]
      by_cases hclear : operation = .clear
      · rw [hclear]
        rfl
      · rw [hguard operation base text hcall hclear]
    refine .inr (hsimulates.commit hcall hnew hvalue fun commits hcommit ↦ ?_)
    cases operation with
    | getItem key => exact absurd rfl (hchange key)
    | setItem key value => exact hcommit
    | removeItem key => exact hcommit
    | clear => exact hcommit
  | @finish id operation hcall =>
    exact .inr (hsimulates.ret hcall (hsimulates.fits id operation _ hcall))

/-- A run of the atomic map simulates a storage. -/
def Simulated (json : DataJson V) (file : Option Str) (storage : Storage V) : Prop :=
  ∃ object atomicEvents,
    Run (AtomicStep applyMap) (.start ((Storage.start file).current json)) atomicEvents object ∧
      Simulates json storage object

/-- Assumes: JSON gives back what it has written. Every run whose steps meet the guard is linearizable: the
results and the items of the file are those of a map on which the operations are applied one after the
other, in an order that keeps to that of their calls and returns. -/
theorem linearizable_of_run (hjson : json.RoundTrips) {file : Option Str}
    {events : List (StorageEvent V)} {finish : Storage V}
    (hrun : Run (Guarded (StorageStep json) (storageGuard json)) (.start file) events finish) :
    Linearizable applyMap ((Storage.start file).current json) finish.history (finish.current json) := by
  have hsimulated : Simulated json file finish := by
    refine hrun.invariant_guarded (fun before event after hbefore hguard hstep ↦ ?_) ?_
    · obtain ⟨object, atomicEvents, hatomic, hsimulates⟩ := hbefore
      rcases hsimulates.step hjson hguard hstep with hsame | ⟨atomicEvent, next, hnext, hafter⟩
      · exact ⟨object, atomicEvents, hatomic, hsame⟩
      · exact ⟨next, atomicEvents ++ [atomicEvent], hatomic.snoc hnext, hafter⟩
    · exact ⟨_, [], .nil _, rfl, rfl, fun _ _ hmem ↦ absurd hmem List.not_mem_nil,
        fun _ hmem ↦ absurd hmem List.not_mem_nil, fun _ _ _ hcall ↦ (by cases hcall),
        fun _ _ _ hcall ↦ (by cases hcall)⟩
  obtain ⟨object, atomicEvents, hatomic, hsimulates⟩ := hsimulated
  have hlinearizes := linearizes_of_run hatomic
  rw [hsimulates.history, hsimulates.value] at hlinearizes
  exact ⟨object.commits, hlinearizes⟩

/-! ### One item -/

/-- `JSON` for data whose values are JSON values. -/
def printedData : DataJson Json where
  stringify data := Json.print (.object data.entries)
  parse text :=
    match Json.parse text with
    | some (.object members) => some (.ofEntries members)
    | _ => none

/-- What is printed of data is parsed as the same data. -/
theorem parse_stringify (data : OrderedMap Str Json) :
    printedData.parse (printedData.stringify data) = some data := by
  change (match Json.parse (Json.print (.object data.entries)) with
    | some (.object members) => some (OrderedMap.ofEntries members)
    | _ => none) = some data
  rw [Json.parse_print]
  exact congrArg some data.ofEntries_entries

/-- Printed data are read back. -/
theorem roundTrips_printedData : printedData.RoundTrips :=
  fun data ↦ ⟨data, parse_stringify data, rfl⟩

/-- One item. -/
def oneItem : OrderedMap Str Json :=
  OrderedMap.empty.set "step".toList (.number 1)

/-- The call that sets the item. -/
def setStep : Operation Json :=
  .setItem "step".toList (.number 1)

/-- The storage while the item is being set. -/
def setting (file : Option Str) (data : OrderedMap Str Json) (phase : Phase Json) : Storage Json :=
  ⟨file, data, [(setStep, phase)], [.call 0 setStep]⟩

/-- The storage after the item has been set without a file. The default has the item, too. -/
def afterSet : Storage Json :=
  ⟨some (printedData.stringify oneItem), oneItem, [(setStep, .returned)],
    [.call 0 setStep, .ret 0 .undefined]⟩

/-- The file has the item. -/
theorem current_afterSet (calls : List (Operation Json × Phase Json))
    (history : List (HistoryEvent (Operation Json) (Item Json))) :
    Storage.current printedData ⟨some (printedData.stringify oneItem), oneItem, calls, history⟩ =
      oneItem.lookup := by
  change ((printedData.parse (printedData.stringify oneItem)).getD .empty).lookup = oneItem.lookup
  rw [parse_stringify]
  rfl

/-- The item is not `__proto__`. -/
theorem assign_empty : assign .empty "step".toList (.number 1) = oneItem :=
  if_neg (by decide)

/-- Setting the item meets the guard. -/
theorem run_afterSet :
    Run (Guarded (StorageStep printedData) (storageGuard printedData)) (.start none)
      [.call setStep, .read 0, .resume 0, .write 0, .finish 0] afterSet := by
  let text := printedData.stringify oneItem
  have hcall : StorageStep printedData (.start none) (.call setStep) (setting none .empty .reading) :=
    .call
  have hread : StorageStep printedData (setting none .empty .reading) (.read 0)
      (setting none .empty (.found none)) :=
    .read rfl
  have hresume : StorageStep printedData (setting none .empty (.found none)) (.resume 0)
      (setting none oneItem (.writing none text)) := by
    have hstep := @StorageStep.resumeChange _ printedData (setting none .empty (.found none)) 0 _ _ _ rfl
      (rfl : setStep.mutation = _)
    rw [show none.getD (setting none .empty (.found none)).defaultData = .empty from rfl,
      show (setting none .empty (.found none)).defaultData = .empty from rfl, assign_empty] at hstep
    exact hstep
  have hwrite : StorageStep printedData (setting none oneItem (.writing none text)) (.write 0)
      (setting (some text) oneItem .written) :=
    .write rfl
  have hfinish : StorageStep printedData (setting (some text) oneItem .written) (.finish 0) afterSet :=
    .finish rfl
  have hresumeGuard : storageGuard printedData (setting none .empty (.found none)) (.resume 0) := by
    intro operation read heq
    obtain ⟨rfl, hphase⟩ := Prod.mk.inj (Option.some.inj heq)
    exact ⟨by decide, fun _ ↦ rfl⟩
  have hwriteGuard : storageGuard printedData (setting none oneItem (.writing none text)) (.write 0) := by
    intro operation base other heq hclear
    obtain ⟨-, hphase⟩ := Prod.mk.inj (Option.some.inj heq)
    obtain ⟨rfl, -⟩ := Phase.writing.inj hphase
    rfl
  exact .cons ⟨trivial, hcall⟩ (.cons ⟨trivial, hread⟩ (.cons ⟨hresumeGuard, hresume⟩
    (.cons ⟨hwriteGuard, hwrite⟩ (.single ⟨trivial, hfinish⟩))))

/-- The call that reads the item. -/
def getStep : Operation Json :=
  .getItem "step".toList

/-- The storage while the item is being set and read at the same time. -/
def overlapping (file : Option Str) (data : OrderedMap Str Json) (first second : Phase Json)
    (returned : List (HistoryEvent (Operation Json) (Item Json))) : Storage Json :=
  ⟨file, data, [(setStep, first), (getStep, second)],
    [.call 0 setStep, .call 1 getStep] ++ returned⟩

/-- The storage after the item has been set, and read between the writing and the return of the call that
sets it. -/
def afterBoth : Storage Json :=
  overlapping (some (printedData.stringify oneItem)) oneItem .returned .returned
    [.ret 1 (.value (.number 1)), .ret 0 .undefined]

/-- The item has its value. -/
theorem access_oneItem : access oneItem "step".toList = .value (.number 1) :=
  access_eq (by decide)

/-- Setting the item and reading it at the same time meets the guard. -/
theorem run_afterBoth :
    Run (Guarded (StorageStep printedData) (storageGuard printedData)) (.start none)
      [.call setStep, .call getStep, .read 0, .resume 0, .write 0, .read 1, .resume 1, .finish 0]
      afterBoth := by
  let text := printedData.stringify oneItem
  have hset : StorageStep printedData (.start none) (.call setStep) (setting none .empty .reading) :=
    .call
  have hget : StorageStep printedData (setting none .empty .reading) (.call getStep)
      (overlapping none .empty .reading .reading []) :=
    .call
  have hread : StorageStep printedData (overlapping none .empty .reading .reading []) (.read 0)
      (overlapping none .empty (.found none) .reading []) :=
    .read rfl
  have hresume : StorageStep printedData (overlapping none .empty (.found none) .reading [])
      (.resume 0) (overlapping none oneItem (.writing none text) .reading []) := by
    have hstep := @StorageStep.resumeChange _ printedData
      (overlapping none .empty (.found none) .reading []) 0 _ _ _ rfl (rfl : setStep.mutation = _)
    rw [show none.getD (overlapping none .empty (.found none) .reading []).defaultData = .empty from rfl,
      show (overlapping none .empty (.found none) .reading []).defaultData = .empty from rfl,
      assign_empty] at hstep
    exact hstep
  have hwrite : StorageStep printedData (overlapping none oneItem (.writing none text) .reading [])
      (.write 0) (overlapping (some text) oneItem .written .reading []) :=
    .write rfl
  have hreadBack : StorageStep printedData (overlapping (some text) oneItem .written .reading [])
      (.read 1) (overlapping (some text) oneItem .written (.found (some oneItem)) []) := by
    have hstep := @StorageStep.read _ printedData
      (overlapping (some text) oneItem .written .reading []) 1 getStep rfl
    rw [Storage.readFile, show (overlapping (some text) oneItem .written .reading []).file.bind
      printedData.parse = printedData.parse text from rfl, parse_stringify] at hstep
    exact hstep
  have hvalue : StorageStep printedData
      (overlapping (some text) oneItem .written (.found (some oneItem)) []) (.resume 1)
      (overlapping (some text) oneItem .written .returned [.ret 1 (.value (.number 1))]) := by
    have hstep := @StorageStep.resumeGet _ printedData
      (overlapping (some text) oneItem .written (.found (some oneItem)) []) 1 _ _ rfl
    rw [Option.getD_some, access_oneItem] at hstep
    exact hstep
  have hfinish : StorageStep printedData
      (overlapping (some text) oneItem .written .returned [.ret 1 (.value (.number 1))]) (.finish 0)
      afterBoth :=
    .finish rfl
  have hresumeGuard : storageGuard printedData (overlapping none .empty (.found none) .reading [])
      (.resume 0) := by
    intro operation read heq
    obtain ⟨rfl, hphase⟩ := Prod.mk.inj (Option.some.inj heq)
    exact ⟨by decide, fun _ ↦ rfl⟩
  have hwriteGuard : storageGuard printedData
      (overlapping none oneItem (.writing none text) .reading []) (.write 0) := by
    intro operation base other heq hclear
    obtain ⟨-, hphase⟩ := Prod.mk.inj (Option.some.inj heq)
    obtain ⟨rfl, -⟩ := Phase.writing.inj hphase
    rfl
  have hvalueGuard : storageGuard printedData
      (overlapping (some text) oneItem .written (.found (some oneItem)) []) (.resume 1) := by
    intro operation read heq
    obtain ⟨rfl, hphase⟩ := Prod.mk.inj (Option.some.inj heq)
    obtain rfl := Phase.found.inj hphase
    exact ⟨by simp, fun hnone ↦ absurd hnone (by decide)⟩
  exact .cons ⟨trivial, hset⟩ (.cons ⟨trivial, hget⟩ (.cons ⟨trivial, hread⟩
    (.cons ⟨hresumeGuard, hresume⟩ (.cons ⟨hwriteGuard, hwrite⟩ (.cons ⟨trivial, hreadBack⟩
      (.cons ⟨hvalueGuard, hvalue⟩ (.single ⟨trivial, hfinish⟩)))))))

/-- A first item that is set and read at the same time is linearizable. -/
theorem linearizable_of_run_afterBoth :
    HistoryEvent.ret 1 (.value (.number 1)) ∈ afterBoth.history ∧
      Linearizable applyMap ((Storage.start none).current printedData) afterBoth.history
        (afterBoth.current printedData) :=
  ⟨by simp [afterBoth, overlapping], linearizable_of_run roundTrips_printedData run_afterBoth⟩

/-- The storage while it is being cleared. -/
def clearing (phase : Phase Json) : Storage Json :=
  ⟨some (printedData.stringify oneItem), oneItem, [(setStep, .returned), (.clear, phase)],
    [.call 0 setStep, .ret 0 .undefined, .call 1 .clear]⟩

/-- The storage after it has been cleared: the default has been written, which has the item. -/
def afterClear : Storage Json :=
  ⟨some (printedData.stringify oneItem), oneItem, [(setStep, .returned), (.clear, .returned)],
    [.call 0 setStep, .ret 0 .undefined, .call 1 .clear, .ret 1 .undefined]⟩

/-- Clearing after the item has been set. -/
theorem run_afterClear :
    Run (StorageStep printedData) (.start none)
      ([.call setStep, .read 0, .resume 0, .write 0, .finish 0] ++ [.call .clear, .write 1, .finish 1])
      afterClear := by
  let text := printedData.stringify oneItem
  have hcall : StorageStep printedData afterSet (.call .clear) (clearing (.writing none text)) :=
    .call
  have hwrite : StorageStep printedData (clearing (.writing none text)) (.write 1) (clearing .written) :=
    .write rfl
  have hfinish : StorageStep printedData (clearing .written) (.finish 1) afterClear :=
    .finish rfl
  exact (run_afterSet.mono fun _ _ _ hstep ↦ hstep.2).append
    (.cons hcall (.cons hwrite (.single hfinish)))

/-- What has been set before the storage is cleared is there after it. -/
theorem not_linearizable_afterClear :
    ¬ ∀ (file : Option Str) (events : List (StorageEvent Json)) (finish : Storage Json),
      Run (StorageStep printedData) (.start file) events finish →
        Linearizable applyMap ((Storage.start file).current printedData) finish.history
          (finish.current printedData) := by
  intro hall
  obtain ⟨commits, hlinearizes⟩ := hall none _ afterClear run_afterClear
  have hcleared : 1 ∈ commits.map Commit.id := by
    obtain ⟨operation, hcommit⟩ := hlinearizes.returned 1 .undefined (by simp [afterClear])
    exact List.mem_map_of_mem hcommit
  have hordered : [0, 1].Sublist (commits.map Commit.id) :=
    hlinearizes.ordered 0 .undefined 1 .clear
      (.cons _ (.cons_cons _ (.cons_cons _ (.cons _ .slnil)))) hcleared
  have hids : commits.map Commit.id = [0] ++ [1] :=
    hlinearizes.map_id_eq (fun id operation hcalled ↦ by
      have hid : id = 0 ∧ operation = setStep ∨ id = 1 ∧ operation = .clear := by
        simpa [afterClear] using hcalled
      rcases hid with ⟨rfl, -⟩ | ⟨rfl, -⟩
      · exact List.mem_cons_self
      · exact List.mem_cons_of_mem _ List.mem_cons_self) hordered
  obtain ⟨front, last, rfl, -, hlast⟩ := List.map_eq_append_iff.mp hids
  obtain ⟨commit, rfl, hid⟩ := List.map_eq_singleton_iff.mp hlast
  have hclear : commit.operation = .clear := by
    have hcalled := hlinearizes.called commit
      (List.mem_append_right _ (List.mem_singleton.mpr rfl))
    simpa [afterClear, hid] using hcalled
  obtain ⟨middle, -, happlied⟩ := Run.exists_of_append_singleton hlinearizes.replays
  rw [SequentialStep, hclear] at happlied
  have hempty : (fun _ ↦ none) = afterClear.current printedData := congrArg Prod.fst happlied
  rw [afterClear, current_afterSet] at hempty
  exact absurd (congrFun hempty "step".toList) (by decide)

end Playground.Tutorial
