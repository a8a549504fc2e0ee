import Playground.Explorer.Switching

/-!
# Histories of `init`

`PgExplorer.init` is called with files, which it shows as a temporary project, with the name of a
workspace, or without parameters. It skips a workspace whose name it remembers from the last switch.
But a call with files replaces the files without forgetting the name, so a later call for the
remembered workspace is skipped although the explorer does not show it.

A session follows the calls, and notes whether files have been shown since the remembered workspace
was opened. `init_shows_of_calls` says that the call for a workspace shows it after every history in
which this is not the case for its own name.
-/

set_option autoImplicit false
set_option relaxedAutoImplicit false

namespace Playground.Explorer

open Library

variable {F : Type} (system : FileSystem F) (json : Json) {content : F → Content}

/-! ### Sessions -/

/-- The parameters of `init`. The values of the files are objects. -/
structure InitParams where
  files : Option ExplorerFiles
  name : Option Str
  hitems : ∀ given, files = some given → ∀ path ∈ given.keys, given.item path ≠ none

/-- The explorer before the first call. -/
def State.atStart (disk : F) : State F where
  disk
  explorer := getDefaultState
  isTemporary := false
  hasWorkspace := false
  workspaces := .initial
  initializedWorkspaceName := none
  opened := none

/-- The workspaces that the explorer knows, or that it will read from the config. -/
def State.knownWorkspaces (state : State F) : Workspaces :=
  if state.hasWorkspace then state.workspaces
  else
    match system.readFile state.disk workspacesConfigPath with
    | .ok data => (json.parseWorkspaces data).getD state.workspaces
    | .error _ => state.workspaces

/-- `init` without files skips a workspace that it takes for initialized. -/
def State.skips (state : State F) (name : Option Str) : Bool :=
  state.initializedWorkspaceName.isSome ∧
    state.initializedWorkspaceName = name.or state.currentWorkspaceName

/-- `init` without files finds a workspace to open. -/
def State.finds (state : State F) (name : Option Str) : Bool :=
  match name.or (state.knownWorkspaces system json).currentName with
  | some found => found ≠ [] ∧ found ∈ (state.knownWorkspaces system json).allNames
  | none => false

/-- The explorer, and whether files have been shown since the remembered workspace was opened. -/
structure Session (F : Type) where
  state : State F
  replaced : Bool

/-- A session after a call of `init`, which may throw. -/
def Session.call (session : Session F) (params : InitParams) : Session F where
  state := finalState (init system json params.files params.name session.state)
  replaced := params.files.isSome || (session.replaced &&
    (session.state.skips params.name || !session.state.finds system json params.name))

/-- A session after a history of calls. -/
def Session.ofCalls (disk : F) (calls : List InitParams) : Session F :=
  calls.foldl (Session.call system json) ⟨.atStart disk, false⟩

/-- What holds of a session after every call. -/
structure Session.Consistent (content : F → Content) (session : Session F) : Prop where
  holds : HoldsWorkspaces (content session.state.disk) (session.state.knownWorkspaces system json)
  items : ∀ path ∈ session.state.explorer.files.keys, session.state.explorer.files.item path ≠ none
  saved : session.state.hasWorkspace = true →
    content session.state.disk [configDir, configFile] =
      some (.file (json.stringifyWorkspaces session.state.workspaces))
  remembered : session.replaced = false → ∀ name,
    session.state.initializedWorkspaceName = some name → ShowsWorkspace content session.state name

variable {system json}

/-! ### Files -/

section Files

variable {state : State F}

theorem knownWorkspaces_of_hasWorkspace (hworkspace : state.hasWorkspace = true) :
    state.knownWorkspaces system json = state.workspaces :=
  if_pos hworkspace

/-- The config is read as it has been saved. -/
theorem knownWorkspaces_of_saved (hlawful : system.Lawful content) (hjson : json.RoundTrips)
    (hsaved : content state.disk [configDir, configFile] =
      some (.file (json.stringifyWorkspaces state.workspaces))) :
    state.knownWorkspaces system json = state.workspaces := by
  have hplace : resolve workspacesConfigPath = some [configDir, configFile] := by decide
  unfold State.knownWorkspaces
  rw [hlawful.readFile_found hplace hsaved]
  dsimp only
  rw [hjson.parseWorkspaces_stringifyWorkspaces, Option.getD_some, ite_self]

/-- Opening a file changes the tabs and nothing else. -/
theorem openFile_frame (state : State F) (path : Str) :
    ∃ explorer opened, state.openFile path = { state with explorer, opened } ∧
      explorer.files = state.explorer.files := by
  unfold State.openFile
  split
  · exact ⟨state.explorer, state.opened, rfl, rfl⟩
  · exact ⟨_, _, rfl, rfl⟩

/-- A call with files shows them. The disk and the remembered name are as before. -/
theorem initTemporary_eq_ok (files : ExplorerFiles) (state : State F) :
    ∃ explorer opened, initTemporary files state =
        .ok () { state with explorer, opened, isTemporary := true, hasWorkspace := false } ∧
      explorer.files = files := by
  let emptied : State F :=
    { state with
      isTemporary := true
      hasWorkspace := false
      explorer := { getDefaultState with files } }
  unfold initTemporary
  cases hopen : getDefaultOpenFile (convertToTupleFiles files) with
  | none => exact ⟨{ getDefaultState with files }, state.opened, rfl, rfl⟩
  | some path =>
    obtain ⟨fullPath, hfull⟩ : ∃ fullPath, emptied.convertToFullPath path = .ok fullPath := by
      unfold State.convertToFullPath
      split
      · exact ⟨path, rfl⟩
      · exact ⟨_, rfl⟩
    obtain ⟨explorer, opened, heq, hfiles⟩ := openFile_frame emptied fullPath
    refine ⟨explorer, opened, ?_, hfiles⟩
    refine bind_eq_ok.mpr ⟨(), emptied, rfl, ?_⟩
    refine bind_eq_ok.mpr ⟨fullPath, emptied, convertToFullPath_eq_ok.mpr ⟨hfull, rfl⟩, ?_⟩
    rw [modify_eq_ok, heq]

/-- Assumes: a lawful file system, and a `JSON` that reads back what it writes. A call with files
keeps a session consistent. -/
theorem Session.Consistent.call_files (hlawful : system.Lawful content) (hjson : json.RoundTrips)
    {session : Session F} (hconsistent : session.Consistent system json content)
    {params : InitParams} {files : ExplorerFiles} (hfiles : params.files = some files) :
    (session.call system json params).Consistent system json content := by
  obtain ⟨explorer, opened, hrun, hshown⟩ := initTemporary_eq_ok files session.state
  have hafter : (session.call system json params).state =
      { session.state with explorer, opened, isTemporary := true, hasWorkspace := false } := by
    have hinit : init system json params.files params.name session.state =
        initTemporary files session.state := by
      rw [hfiles]
      rfl
    rw [Session.call, hinit, hrun]
    rfl
  have hreplaced : (session.call system json params).replaced = true := by
    rw [Session.call, hfiles]
    rfl
  have hknown : (session.call system json params).state.knownWorkspaces system json =
      session.state.knownWorkspaces system json := by
    rw [hafter]
    by_cases hworkspace : session.state.hasWorkspace = true
    · rw [knownWorkspaces_of_hasWorkspace hworkspace]
      exact knownWorkspaces_of_saved hlawful hjson (hconsistent.saved hworkspace)
    · unfold State.knownWorkspaces
      rw [if_neg hworkspace, if_neg (by exact Bool.false_ne_true)]
  constructor
  · rw [hknown, hafter]
    exact hconsistent.holds
  · rw [hafter]
    change ∀ path ∈ explorer.files.keys, explorer.files.item path ≠ none
    rw [hshown]
    exact params.hitems files hfiles
  · rw [hafter]
    exact fun hfalse ↦ absurd hfalse Bool.false_ne_true
  · rw [hreplaced]
    exact fun hfalse ↦ absurd hfalse (by decide)

end Files

/-! ### Workspaces -/

section Workspaces

variable {state : State F}

/-- The explorer when it knows the workspaces. -/
def State.ready (state : State F) (workspaces : Workspaces) (disk : F) : State F :=
  { state with disk, workspaces, isTemporary := false, hasWorkspace := true }

/-- The part of `initPersistent` after the workspaces are known. -/
def openWorkspace (system : FileSystem F) (json : Json) (name : Option Str) : Action F Unit := do
  let state ← get
  match name.or state.currentWorkspaceName with
  | some workspaceName =>
    if workspaceName ≠ [] ∧ workspaceName ∈ state.workspaces.allNames then
      switchWorkspace system json workspaceName none
    else if state.workspaces.allNames = [] then modifyExplorer fun _ ↦ getDefaultState
    else pure ()
  | none =>
    if state.workspaces.allNames = [] then modifyExplorer fun _ ↦ getDefaultState else pure ()

/-- The config is read if the workspaces are not known. -/
theorem readToJSONOrDefault_workspaces {state : State F} (hworkspace : state.hasWorkspace = false) :
    PgFs.readToJSONOrDefault system json.parseWorkspaces workspacesConfigPath state.workspaces state =
      .ok (state.knownWorkspaces system json) state := by
  have hfull : IsFullPath workspacesConfigPath := ⟨_, rfl⟩
  unfold State.knownWorkspaces
  rw [if_neg (Bool.not_eq_true _ ▸ hworkspace)]
  change EStateM.tryCatch _ _ state = _
  cases hdata : system.readFile state.disk workspacesConfigPath with
  | ok data =>
    have hbody : (do
        let data ← PgFs.readToString system workspacesConfigPath
        pure ((json.parseWorkspaces data).getD state.workspaces) : Action F Workspaces) state =
        .ok ((json.parseWorkspaces data).getD state.workspaces) state :=
      bind_eq_ok.mpr ⟨data, state, readToString_of_isFullPath hfull hdata, rfl⟩
    rw [EStateM.tryCatch, hbody]
  | error error =>
    have hbody : (do
        let data ← PgFs.readToString system workspacesConfigPath
        pure ((json.parseWorkspaces data).getD state.workspaces) : Action F Workspaces) state =
        .error (.fs error) state := by
      refine bind_eq_error.mpr (.inl (bind_eq_error.mpr (.inr ⟨_, state,
        convertToFullPath_of_isFullPath hfull state, ?_⟩)))
      simp [readDisk, evaluate, hdata, Except.mapError]
    rw [EStateM.tryCatch, hbody]
    rfl

/-- Assumes: a lawful file system. The workspaces are read if they are not known, and the config is
saved. -/
theorem initPersistent_eq (hlawful : system.Lawful content)
    (hfree : HiddenFree (content state.disk) [] configDir configFile)
    (hsaved : state.hasWorkspace = true → content state.disk [configDir, configFile] =
      some (.file (json.stringifyWorkspaces state.workspaces))) (name : Option Str) :
    ∃ disk, initPersistent system json name state =
        openWorkspace system json name (state.ready (state.knownWorkspaces system json) disk) ∧
      (state.hasWorkspace = true → disk = state.disk) ∧
      HiddenWrite (content state.disk) (content disk) ∧
      content disk [configDir, configFile] =
        some (.file (json.stringifyWorkspaces (state.knownWorkspaces system json))) := by
  let persistent : State F := { state with isTemporary := false }
  let rest : Action F Unit := openWorkspace system json name
  have hsplit : initPersistent system json name state =
      (runIf (!persistent.hasWorkspace) (initWorkspaces system json) >>= fun _ ↦ rest)
        persistent := rfl
  rw [hsplit]
  by_cases hworkspace : state.hasWorkspace = true
  · have hready : state.ready (state.knownWorkspaces system json) state.disk = persistent := by
      rw [knownWorkspaces_of_hasWorkspace hworkspace, State.ready, ← hworkspace]
    refine ⟨state.disk, ?_, fun _ ↦ rfl, .same, ?_⟩
    · rw [hready]
      change (runIf (!state.hasWorkspace) (initWorkspaces system json) >>= fun _ ↦ rest)
        persistent = rest persistent
      rw [hworkspace]
      rfl
    · rw [knownWorkspaces_of_hasWorkspace hworkspace]
      exact hsaved hworkspace
  · have hnone : state.hasWorkspace = false := Bool.not_eq_true _ ▸ hworkspace
    let known : State F := state.ready (state.knownWorkspaces system json) state.disk
    obtain ⟨disk, hrun, hwritten⟩ := @saveWorkspaces_eq_ok _ system json content known hlawful hfree
      rfl
    have hread : PgFs.readToJSONOrDefault system json.parseWorkspaces workspacesConfigPath
        persistent.workspaces persistent = .ok (state.knownWorkspaces system json) persistent :=
      readToJSONOrDefault_workspaces hnone
    have hinit : initWorkspaces system json persistent =
        .ok () (state.ready (state.knownWorkspaces system json) disk) :=
      bind_eq_ok.mpr ⟨persistent, persistent, rfl, bind_eq_ok.mpr ⟨_, persistent, hread,
        bind_eq_ok.mpr ⟨(), known, rfl, hrun⟩⟩⟩
    refine ⟨disk, ?_, fun htrue ↦ absurd htrue hworkspace, ?_, ?_⟩
    · change EStateM.bind (runIf (!state.hasWorkspace) (initWorkspaces system json)) _ persistent = _
      have hrun : runIf (!state.hasWorkspace) (initWorkspaces system json) =
          initWorkspaces system json := by
        rw [hnone]
        rfl
      rw [hrun, EStateM.bind, hinit]
    · rw [hwritten]
      exact .config _ hfree
    · rw [hwritten]
      exact addHidden_file_self

/-- What holds of the explorer when it knows the workspaces. -/
structure Ready (json : Json) (content : F → Content) (state : State F) : Prop where
  holds : HoldsWorkspaces (content state.disk) state.workspaces
  items : ∀ path ∈ state.explorer.files.keys, state.explorer.files.item path ≠ none
  persistent : state.isTemporary = false
  hasWorkspace : state.hasWorkspace = true
  saved : content state.disk [configDir, configFile] =
    some (.file (json.stringifyWorkspaces state.workspaces))

/-- Assumes: a lawful file system. A workspace that is there is opened, and shown. -/
theorem Ready.switchWorkspace (hlawful : system.Lawful content) (hready : Ready json content state)
    {name : Str} (hname : name ∈ state.workspaces.allNames) :
    ∃ after, switchWorkspace system json name none state = .ok () after ∧
      ShowsWorkspace content after name ∧ after.initializedWorkspaceName = some name ∧
      Ready json content after := by
  obtain ⟨saved, hsave, hwrite⟩ := @saveMeta_returns _ system json content state hlawful
    hready.holds hready.persistent hready.items
  have hholds := hready.holds.hiddenWrite hwrite
  obtain ⟨hne, place, hdisk⟩ := hholds.onDisk name hname
  obtain ⟨disk, files, metaFile, hconfig, hloaded, -, hrun⟩ :=
    @switchWorkspace_eq_ok _ system json content state name hlawful saved hsave hholds.configFree
      place hdisk.resolve_eq (hdisk.folder hlawful) hready.hasWorkspace hready.persistent hname hne
  have hshows : ShowsWorkspace content (state.switched disk name files metaFile) name :=
    shows_switched hready.hasWorkspace hready.persistent hname hdisk.resolve_eq hloaded
  refine ⟨_, hrun, hshows, rfl, ?_, ?_, hready.persistent, hready.hasWorkspace, ?_⟩
  · change HoldsWorkspaces (content disk) (state.workspaces.setCurrentName name)
    rw [hconfig]
    exact (hholds.hiddenWrite (.config _ hholds.configFree)).setCurrentName hname
  · obtain ⟨_, _, hstored⟩ := hshows.files
    exact hstored.items
  · change content disk _ = some (.file (json.stringifyWorkspaces (state.workspaces.setCurrentName name)))
    rw [hconfig]
    exact addHidden_file_self

/-- Assumes: a lawful file system. What `openWorkspace` does: it opens a workspace that it finds, and
otherwise it resets the explorer if there are no workspaces. -/
theorem Ready.openWorkspace (hlawful : system.Lawful content) (hready : Ready json content state)
    (name : Option Str) :
    (∃ found after, name.or state.workspaces.currentName = some found ∧
        found ∈ state.workspaces.allNames ∧ openWorkspace system json name state = .ok () after ∧
        ShowsWorkspace content after found ∧ after.initializedWorkspaceName = some found ∧
        Ready json content after) ∨
      (∀ found, name.or state.workspaces.currentName = some found →
        found ∉ state.workspaces.allNames) ∧
      openWorkspace system json name state = .ok ()
        (if state.workspaces.allNames = [] then { state with explorer := getDefaultState }
          else state) := by
  have hcurrent : state.currentWorkspaceName = state.workspaces.currentName :=
    if_pos hready.hasWorkspace
  have hreset : ∀ action : Action F Unit,
      action = (if state.workspaces.allNames = [] then modifyExplorer fun _ ↦ getDefaultState
        else pure ()) →
      action state = .ok ()
        (if state.workspaces.allNames = [] then { state with explorer := getDefaultState }
          else state) := by
    rintro action rfl
    by_cases hnames : state.workspaces.allNames = []
    · rw [if_pos hnames, if_pos hnames]
      rfl
    · rw [if_neg hnames, if_neg hnames]
      rfl
  unfold Explorer.openWorkspace
  rw [get_bind_apply, hcurrent]
  cases htarget : name.or state.workspaces.currentName with
  | none =>
    refine .inr ⟨fun found hfound ↦ absurd hfound (by simp), ?_⟩
    exact hreset _ rfl
  | some found =>
    by_cases hfound : found ∈ state.workspaces.allNames
    · have hne := (hready.holds.onDisk found hfound).1
      obtain ⟨after, hrun, hshows, hinitialized, hafter⟩ := hready.switchWorkspace hlawful hfound
      refine .inl ⟨found, after, rfl, hfound, ?_, hshows, hinitialized, hafter⟩
      dsimp only
      rw [if_pos ⟨hne, hfound⟩]
      exact hrun
    · refine .inr ⟨fun other hother ↦ ?_, ?_⟩
      · rwa [← Option.some.inj hother]
      · dsimp only
        rw [if_neg fun hboth ↦ hfound hboth.2]
        exact hreset _ rfl

/-- The explorer is ready once it knows the workspaces. -/
theorem ready_of_consistent {session : Session F}
    (hconsistent : session.Consistent system json content) {disk : F}
    (hwrite : HiddenWrite (content session.state.disk) (content disk))
    (hsaved : content disk [configDir, configFile] =
      some (.file (json.stringifyWorkspaces (session.state.knownWorkspaces system json)))) :
    Ready json content
      (session.state.ready (session.state.knownWorkspaces system json) disk) where
  holds := hconsistent.holds.hiddenWrite hwrite
  items := hconsistent.items
  persistent := rfl
  hasWorkspace := rfl
  saved := hsaved

/-- A session whose explorer is ready is consistent if it shows the remembered workspace. -/
theorem Ready.consistent {after : State F} (hready : Ready json content after) {replaced : Bool}
    (hremembered : replaced = false → ∀ name, after.initializedWorkspaceName = some name →
      ShowsWorkspace content after name) :
    (Session.mk after replaced).Consistent system json content := by
  refine ⟨?_, hready.items, fun _ ↦ hready.saved, hremembered⟩
  rw [knownWorkspaces_of_hasWorkspace hready.hasWorkspace]
  exact hready.holds

/-- A remembered workspace that is shown is known, and the explorer is as it is when it is ready. -/
theorem Session.Consistent.ready_of_remembered {session : Session F}
    (hconsistent : session.Consistent system json content) (hkept : session.replaced = false)
    {name : Str} (hname : session.state.initializedWorkspaceName = some name) :
    session.state.hasWorkspace = true ∧
      name ∈ (session.state.knownWorkspaces system json).allNames ∧
      session.state.ready (session.state.knownWorkspaces system json) session.state.disk =
        session.state := by
  have hshows := hconsistent.remembered hkept name hname
  have hcurrent := hshows.current
  have hworkspace : session.state.hasWorkspace = true := by
    by_contra hnone
    rw [State.currentWorkspaceName, if_neg hnone] at hcurrent
    cases hcurrent
  rw [State.currentWorkspaceName, if_pos hworkspace] at hcurrent
  have hknown := @knownWorkspaces_of_hasWorkspace _ system json _ hworkspace
  refine ⟨hworkspace, ?_, ?_⟩
  · apply hconsistent.holds.current
    rw [hknown, hcurrent]
  · rw [hknown, State.ready, ← hworkspace, ← hshows.persistent]

/-- Assumes: a lawful file system. A call without files keeps a session consistent. -/
theorem Session.Consistent.call_workspace (hlawful : system.Lawful content) {session : Session F}
    (hconsistent : session.Consistent system json content) {params : InitParams}
    (hfiles : params.files = none) :
    (session.call system json params).Consistent system json content := by
  let known := session.state.knownWorkspaces system json
  by_cases hskips : session.state.skips params.name = true
  · have hcall : session.call system json params = session := by
      have hskip := of_decide_eq_true hskips
      have hinit : init system json params.files params.name session.state =
          .ok () session.state := by
        rw [hfiles]
        unfold init
        rw [get_bind_apply]
        dsimp only
        rw [if_pos hskip]
        rfl
      rw [Session.call, hinit, hfiles, hskips]
      simp [finalState]
    rw [hcall]
    exact hconsistent
  · have hinit : init system json params.files params.name session.state =
        initPersistent system json params.name session.state := by
      rw [hfiles]
      unfold init
      rw [get_bind_apply]
      dsimp only
      rw [if_neg fun hskip ↦ hskips (decide_eq_true hskip)]
    obtain ⟨disk, hopen, hsame, hwrite, hsaved⟩ := @initPersistent_eq _ system json content
      session.state hlawful hconsistent.holds.configFree hconsistent.saved params.name
    have hready := ready_of_consistent hconsistent hwrite hsaved
    have hskipsFalse : session.state.skips params.name = false := Bool.not_eq_true _ ▸ hskips
    rcases hready.openWorkspace hlawful params.name with
      ⟨found, after, htarget, hfound, hrun, hshows, hinitialized, hafter⟩ | ⟨hnone, hrun⟩
    · have hcall : session.call system json params = ⟨after, false⟩ := by
        have hne := (hready.holds.onDisk found hfound).1
        have hfinds : session.state.finds system json params.name = true := by
          unfold State.finds
          change (match params.name.or known.currentName with
            | some found => decide (found ≠ [] ∧ found ∈ known.allNames)
            | none => false) = true
          have htarget' : params.name.or known.currentName = some found := htarget
          rw [htarget']
          exact decide_eq_true ⟨hne, hfound⟩
        rw [Session.call, hinit, hopen, hrun, hfiles, hskipsFalse, hfinds]
        simp [finalState]
      rw [hcall]
      refine hafter.consistent fun _ name hname ↦ ?_
      rw [hinitialized] at hname
      rwa [← Option.some.inj hname]
    · have hfinds : session.state.finds system json params.name = false := by
        unfold State.finds
        split
        · next found htarget =>
          exact decide_eq_false fun hboth ↦ hnone found htarget hboth.2
        · rfl
      let ready := session.state.ready known disk
      let after := if known.allNames = [] then { ready with explorer := getDefaultState } else ready
      have hcall : session.call system json params = ⟨after, session.replaced⟩ := by
        rw [Session.call, hinit, hopen, hrun, hfiles, hskipsFalse, hfinds]
        simp [finalState]
        rfl
      rw [hcall]
      by_cases hnames : known.allNames = []
      · have hafter : after = { ready with explorer := getDefaultState } := if_pos hnames
        have hreset : Ready json content { ready with explorer := getDefaultState } :=
          ⟨hready.holds, fun path hpath ↦ (List.not_mem_nil hpath).elim, rfl, rfl, hready.saved⟩
        rw [hafter]
        refine hreset.consistent fun hkept name hname ↦ ?_
        have hmem := (hconsistent.ready_of_remembered hkept hname).2.1
        change name ∈ known.allNames at hmem
        rw [hnames] at hmem
        cases hmem
      · have hafter : after = ready := if_neg hnames
        rw [hafter]
        refine hready.consistent fun hkept name hname ↦ ?_
        obtain ⟨hworkspace, -, heq⟩ := hconsistent.ready_of_remembered hkept hname
        rw [hsame hworkspace, heq]
        exact hconsistent.remembered hkept name hname

end Workspaces

/-! ### Histories -/

/-- Assumes: a lawful file system, and a `JSON` that reads back what it writes. A call of `init` keeps
a session consistent. -/
theorem Session.Consistent.call (hlawful : system.Lawful content) (hjson : json.RoundTrips)
    {session : Session F} (hconsistent : session.Consistent system json content)
    (params : InitParams) : (session.call system json params).Consistent system json content := by
  cases hfiles : params.files with
  | none => exact hconsistent.call_workspace hlawful hfiles
  | some files => exact hconsistent.call_files hlawful hjson hfiles

/-- Assumes: a lawful file system, a `JSON` that reads back what it writes, and workspaces that are on
the disk. Every history of calls leads to a consistent session. -/
theorem consistent_ofCalls (hlawful : system.Lawful content) (hjson : json.RoundTrips) {disk : F}
    (hholds : HoldsWorkspaces (content disk) ((State.atStart disk).knownWorkspaces system json))
    (calls : List InitParams) :
    (Session.ofCalls system json disk calls).Consistent system json content := by
  have hstart : (Session.mk (.atStart disk) false).Consistent system json content :=
    ⟨hholds, fun path hpath ↦ (List.not_mem_nil hpath).elim,
      fun hfalse ↦ absurd hfalse Bool.false_ne_true, fun _ name hname ↦ by cases hname⟩
  unfold Session.ofCalls
  generalize Session.mk (State.atStart disk) false = session at hstart
  induction calls generalizing session with
  | nil => exact hstart
  | cons params rest ih => exact ih _ (hstart.call hlawful hjson params)

/-- Assumes: a lawful file system, a `JSON` that reads back what it writes, and workspaces that are on
the disk. After every history of calls, the call for a workspace shows it, unless the workspace is
the remembered one and files have been shown since it was opened. A call for the remembered workspace
does not show it while the project is temporary. -/
theorem init_shows_of_calls (hlawful : system.Lawful content) (hjson : json.RoundTrips) {disk : F}
    (hholds : HoldsWorkspaces (content disk) ((State.atStart disk).knownWorkspaces system json))
    (calls : List InitParams) {session : Session F}
    (hsession : Session.ofCalls system json disk calls = session) {name : Str}
    (hname : name ∈ (session.state.knownWorkspaces system json).allNames) :
    (¬ (session.replaced = true ∧ session.state.initializedWorkspaceName = some name) →
      ∃ after, init system json none (some name) session.state = .ok () after ∧
        ShowsWorkspace content after name) ∧
    (session.state.isTemporary = true ∧ session.state.initializedWorkspaceName = some name →
      ∃ after, init system json none (some name) session.state = .ok () after ∧
        ¬ ShowsWorkspace content after name) := by
  have hconsistent := consistent_ofCalls hlawful hjson hholds calls
  rw [hsession] at hconsistent
  have hskip : session.state.initializedWorkspaceName = some name →
      init system json none (some name) session.state = .ok () session.state := by
    intro hremembered
    unfold init
    rw [get_bind_apply]
    dsimp only
    rw [if_pos (by rw [hremembered]; exact ⟨rfl, rfl⟩)]
    rfl
  constructor
  · intro hcondition
    by_cases hremembered : session.state.initializedWorkspaceName = some name
    · have hkept : session.replaced = false := by
        rw [← Bool.not_eq_true]
        exact fun hreplaced ↦ hcondition ⟨hreplaced, hremembered⟩
      exact ⟨session.state, hskip hremembered, hconsistent.remembered hkept name hremembered⟩
    · obtain ⟨opened, hopen, -, hwrite, hsaved⟩ := @initPersistent_eq _ system json content
        session.state hlawful hconsistent.holds.configFree hconsistent.saved (some name)
      have hready := ready_of_consistent hconsistent hwrite hsaved
      have hinit : init system json none (some name) session.state =
          initPersistent system json (some name) session.state := by
        unfold init
        rw [get_bind_apply]
        dsimp only
        rw [if_neg fun hboth ↦ hremembered hboth.2]
      rw [hinit, hopen]
      rcases hready.openWorkspace hlawful (some name) with
        ⟨found, after, htarget, -, hrun, hshows, -⟩ | ⟨hnone, -⟩
      · obtain rfl : name = found := Option.some.inj htarget
        exact ⟨after, hrun, hshows⟩
      · exact absurd hname (hnone name rfl)
  · rintro ⟨htemporary, hremembered⟩
    refine ⟨session.state, hskip hremembered, fun hshows ↦ ?_⟩
    rw [hshows.persistent] at htemporary
    cases htemporary

/-! ### A history -/

/-- A disk with the workspace `ws`, which the config lists. -/
def storedDisk : FileTree :=
  (finalState (saveWorkspaces fileTrees referenceJson (workspaceWith "a.ts"))).disk

/-- The call `init({ name })`. -/
def initName (name : String) : InitParams where
  files := none
  name := some name.toList
  hitems := fun _ hfiles ↦ by cases hfiles

/-- The call `init({ files })` with one file. -/
def initFiles (path : String) : InitParams where
  files := some (convertToExplorerFiles [(path.toList, [])])
  name := none
  hitems := by
    rintro given ⟨⟩ name hname
    rw [convertToExplorerFiles] at hname ⊢
    obtain rfl | hnone := OrderedMap.mem_keys_set.mp hname
    · exact fun hitem ↦ by simp [ExplorerFiles.item] at hitem
    · cases hnone

/-- The config of the disk. -/
theorem knownWorkspaces_storedDisk :
    (State.atStart storedDisk).knownWorkspaces fileTrees referenceJson =
      ⟨["ws".toList], some "ws".toList⟩ := by
  decide +kernel

/-- The workspace of the config is on the disk. -/
theorem holdsWorkspaces_storedDisk :
    HoldsWorkspaces storedDisk.content
      ((State.atStart storedDisk).knownWorkspaces fileTrees referenceJson) := by
  have hdir : (workspaceWith "a.ts").disk.content ([] ++ [configDir]) = none := by decide +kernel
  have hfile : (workspaceWith "a.ts").disk.content ([] ++ [configDir, configFile]) = none := by
    decide +kernel
  have hfree : HiddenFree (workspaceWith "a.ts").disk.content [] configDir configFile := by
    constructor
    · intro data hdata
      rw [hdir] at hdata
      cases hdata
    · rw [hfile]
      exact fun hnone ↦ by cases hnone
  have hworkspace : (workspaceWith "a.ts").hasWorkspace = true := by decide +kernel
  obtain ⟨disk, hrun, hwritten⟩ := @saveWorkspaces_eq_ok _ fileTrees referenceJson FileTree.content
    (workspaceWith "a.ts") lawful_fileTrees hfree hworkspace
  have hdisk : storedDisk = disk := by rw [storedDisk, hrun]; rfl
  have hwrite : HiddenWrite (workspaceWith "a.ts").disk.content storedDisk.content := by
    rw [hdisk, hwritten]
    exact .config _ hfree
  rw [knownWorkspaces_storedDisk]
  refine ⟨hwrite.hiddenFree hfree (by decide) (by decide), ?_, ?_⟩
  · rintro name ⟨⟩
    exact List.mem_singleton.mpr rfl
  · intro name hname
    obtain rfl := List.mem_singleton.mp hname
    have hpath : workspacePath "ws".toList = "/ws/".toList := by decide
    rw [hpath]
    exact ⟨by decide, workspacePlace, hwrite.onDisk onDisk_workspaceWith⟩

/-- A workspace that has not been opened is shown after a temporary project. -/
theorem init_shows_of_calls_storedDisk :
    ∃ after, init fileTrees referenceJson none (some "ws".toList)
        (Session.ofCalls fileTrees referenceJson storedDisk [initFiles "src/lib.rs"]).state =
          .ok () after ∧
      ShowsWorkspace FileTree.content after "ws".toList :=
  (init_shows_of_calls lawful_fileTrees referenceJson_roundTrips holdsWorkspaces_storedDisk
    [initFiles "src/lib.rs"] rfl (by decide +kernel)).1 (by decide +kernel)

/-- A workspace that has been opened is not shown after a temporary project. -/
theorem not_shows_of_temporary :
    ¬ ∀ disk : FileTree, HoldsWorkspaces disk.content
        ((State.atStart disk).knownWorkspaces fileTrees referenceJson) →
      ∀ (calls : List InitParams) (name : Str),
        name ∈ ((Session.ofCalls fileTrees referenceJson disk calls).state.knownWorkspaces
          fileTrees referenceJson).allNames →
        ShowsWorkspace FileTree.content
          (finalState (init fileTrees referenceJson none (some name)
            (Session.ofCalls fileTrees referenceJson disk calls).state)) name := by
  intro hall
  have hshows := hall storedDisk holdsWorkspaces_storedDisk [initName "ws", initFiles "src/lib.rs"]
    "ws".toList (by decide +kernel)
  exact absurd hshows.persistent (by decide +kernel)

end Playground.Explorer
