import Playground.Explorer.SettledWorkspaces

/-!
# Runs of operations on workspaces

Runs of `newWorkspace`, `switchWorkspace`, `renameWorkspace` and `deleteWorkspace` of `PgExplorer`, each of
which returns.

A rename changes the current name in its place and no other (`renamed_of_renameWorkspace`): the folder of
the workspace has been moved to where the new name says, so that the switch at the end finds it and deletes
nothing. A name that begins with a slash cannot be renamed, as its folder would be moved below itself.
`workspacesSound_of_run` proves what holds after every operation of a run. A deletion may remove more than
the current name (`not_deletes_current_only`): a file may be where the folder of a workspace was.

Not formalized here: operations on items between those on workspaces.
-/

set_option autoImplicit false
set_option relaxedAutoImplicit false

namespace Playground.Explorer

open Library

variable {F : Type} {system : FileSystem F} {json : Json} {content : F → Content}

/-! ### Names that stay valid -/

section Names

variable {workspaces changed : Workspaces}

/-- The current name is one of the names, or there is none. -/
theorem Workspaces.Valid.setCurrentName (hvalid : workspaces.Valid) (name : Str) :
    (workspaces.setCurrentName name).Valid := by
  unfold Workspaces.setCurrentName
  split
  · next hmem =>
    refine ⟨hvalid.nodup, ?_, ?_⟩
    · rintro other ⟨⟩
      exact hmem
    · rintro ⟨⟩
  · exact hvalid

/-- A name that is new is put at the end. -/
theorem Workspaces.Valid.new (hvalid : workspaces.Valid) {name : Str}
    (hnew : workspaces.new name = .ok changed) : changed.Valid := by
  unfold Workspaces.new at hnew
  by_cases hmem : name ∈ workspaces.allNames
  · rw [if_pos hmem] at hnew
    cases hnew
  · rw [if_neg hmem] at hnew
    obtain rfl := Except.ok.inj hnew
    refine ⟨List.nodup_append.mpr ⟨hvalid.nodup, List.nodup_singleton name, ?_⟩, ?_, ?_⟩
    · rintro other hother last hlast rfl
      exact hmem (List.mem_singleton.mp hlast ▸ hother)
    · rintro other ⟨⟩
      exact List.mem_append_right _ (List.mem_singleton_self name)
    · rintro ⟨⟩

/-- A name that is new replaces the current one in its place. -/
theorem Workspaces.Valid.rename (hvalid : workspaces.Valid) {name newName : Str}
    (hcurrent : workspaces.currentName = some name) (hfree : newName ∉ workspaces.allNames) :
    (Workspaces.mk (workspaces.allNames.map fun other ↦ if other = name then newName else other)
      (some newName)).Valid := by
  refine ⟨?_, ?_, ?_⟩
  · refine hvalid.nodup.map_on fun first hfirst second hsecond hsame ↦ ?_
    by_cases hone : first = name <;> by_cases htwo : second = name
    · rw [hone, htwo]
    · rw [if_pos hone, if_neg htwo] at hsame
      exact absurd (hsame ▸ hsecond) hfree
    · rw [if_neg hone, if_pos htwo] at hsame
      exact absurd (hsame ▸ hfirst) hfree
    · rwa [if_neg hone, if_neg htwo] at hsame
  · rintro other ⟨⟩
    exact List.mem_map.mpr ⟨name, hvalid.current name hcurrent, if_pos rfl⟩
  · rintro ⟨⟩

end Names

/-! ### Renaming -/

section Rename

/-- A valid name of a workspace is a component, and has no dot and no dollar sign. -/
theorem isComponent_of_isWorkspaceNameValid {name : Str} (hvalid : isWorkspaceNameValid name = true) :
    IsComponent name ∧ '.' ∉ name ∧ '$' ∉ name := by
  unfold isWorkspaceNameValid at hvalid
  rw [Bool.and_eq_true, List.all_eq_true] at hvalid
  obtain ⟨hfirst, hall⟩ := hvalid
  have hnot : ∀ char, (isWordChar char || isSpaceChar char || char == '-') = false → char ∉ name :=
    fun char hchar hmem ↦ absurd ((hall char hmem).symm.trans hchar) (by simp)
  have hdot : '.' ∉ name := hnot '.' (by decide)
  refine ⟨⟨?_, ?_, ?_, hnot '/' (by decide)⟩, hdot, hnot '$' (by decide)⟩
  · rintro rfl
    cases hfirst
  · rintro rfl
    exact hdot (by decide)
  · rintro rfl
    exact hdot (by decide)

/-- A component after a folder, with or without a slash, denotes a place in the folder. -/
theorem resolve_append_component {folder : Str} {name : Component} {place : List Component}
    (hfolder : folder.getLast? = some '/') (hplace : resolve folder = some place)
    (hname : IsComponent name) {slash : Str} (hslash : slash = [] ∨ slash = ['/']) :
    resolve (folder ++ (name ++ slash)) = some (place ++ [name]) := by
  obtain ⟨front, rfl⟩ := exists_eq_append_slash hfolder
  have hbelow : resolve (front ++ ['/'] ++ name) = some (place ++ [name]) := by
    rw [resolve_append_trailing] at hplace
    rw [List.append_assoc, List.singleton_append, resolve_append_slash_name front hname.2.2.2, hplace,
      Option.bind_some, resolveStep_of_isComponent hname]
  rw [← List.append_assoc]
  rcases hslash with rfl | rfl
  · rwa [List.append_nil]
  · rwa [resolve_append_trailing]

/-- A slash is appended to a name, or not. -/
theorem appendSlash_eq_append {name : Str} (hne : name ≠ []) :
    ∃ slash, appendSlash name = name ++ slash ∧ (slash = [] ∨ slash = ['/']) := by
  refine ⟨if name.getLast? = some '/' then [] else ['/'], if_neg hne, ?_⟩
  split
  · exact Or.inl rfl
  · exact Or.inr rfl

/-- The path of a workspace whose name does not begin with a slash has the name after the root. -/
theorem workspacePath_eq_append {first : Char} {rest slash : Str} (hfirst : first ≠ '/')
    (hslash : appendSlash (first :: rest) = (first :: rest) ++ slash) :
    workspacePath (first :: rest) = rootDirPath ++ ((first :: rest) ++ slash) := by
  unfold workspacePath joinPaths
  rw [hslash, List.cons_append]
  unfold withoutPreSlash
  split
  · next heq => exact absurd (List.cons.inj heq).1 hfirst
  · rfl

/-- The place of a workspace whose name is a component. -/
theorem resolve_workspacePath {name : Str} (hname : IsComponent name) :
    resolve (workspacePath name) = some [name] := by
  obtain ⟨slash, hslash, hcases⟩ := appendSlash_eq_append hname.1
  obtain ⟨first, rest, rfl⟩ := List.exists_cons_of_ne_nil hname.1
  have hfirst : first ≠ '/' := fun heq ↦ hname.2.2.2 (heq ▸ List.mem_cons_self)
  rw [workspacePath_eq_append hfirst hslash]
  exact @resolve_append_component rootDirPath (first :: rest) [] (by decide) (by decide) hname slash
    hcases

/-- The path to which the folder of a workspace is moved: below the root, or below the folder itself if
the name of the workspace begins with a slash. -/
theorem resolve_renamedPath {before : State F} (hpersistent : before.isTemporary = false) {name : Str}
    (hcurrent : before.currentWorkspaceName = some name) (hne : name ≠ []) {newName : Component}
    (hnew : IsComponent newName) (hdollar : '$' ∉ newName) {place : List Component}
    (hplace : resolve (workspacePath name) = some place) :
    ∃ fullPath, before.convertToFullPath (replaceFirst (workspacePath name) name newName) =
        .ok fullPath ∧ IsFullPath fullPath ∧
      (resolve fullPath = some [newName] ∨ resolve fullPath = some (place ++ [newName])) := by
  have hroot := currentWorkspacePath_eq_ok hcurrent hne
  obtain ⟨slash, hslash, hcases⟩ := appendSlash_eq_append hne
  obtain ⟨first, rest, rfl⟩ := List.exists_cons_of_ne_nil hne
  by_cases hfirst : first = '/'
  · -- the path is that of the name, which the new name replaces as a whole
    subst hfirst
    have hpath : workspacePath ('/' :: rest) = ('/' :: rest) ++ slash := by
      unfold workspacePath joinPaths
      rw [hslash]
      rfl
    have hlast : (workspacePath ('/' :: rest)).getLast? = some '/' := by
      rw [hpath, ← hslash]
      exact getLast?_appendSlash hne
    have hreplaced : replaceFirst (workspacePath ('/' :: rest)) ('/' :: rest) newName =
        newName ++ slash := by
      rw [hpath, replaceFirst_append, substitute_of_notMem hdollar]
    obtain ⟨char, more, rfl⟩ := List.exists_cons_of_ne_nil hnew.1
    have hchar : char ≠ '/' := fun heq ↦ hnew.2.2.2 (heq ▸ List.mem_cons_self)
    have hrelative : ¬ rootDirPath <+: (char :: more) ++ slash := by
      intro hprefix
      obtain ⟨tail, htail⟩ := hprefix
      exact hchar (List.cons.inj htail).1.symm
    refine ⟨workspacePath ('/' :: rest) ++ ((char :: more) ++ slash), ?_, ?_, Or.inr ?_⟩
    · rw [hreplaced, State.convertToFullPath, if_neg hrelative, State.getProjectRootPath, hpersistent,
        if_neg (by simp), hroot, Except.map, joinPaths, appendSlash_of_getLast? hlast]
      have hkept : withoutPreSlash ((char :: more) ++ slash) = (char :: more) ++ slash := by
        rw [List.cons_append]
        unfold withoutPreSlash
        split
        · next heq => exact absurd (List.cons.inj heq).1 hchar
        · rfl
      rw [hkept]
    · exact isFullPath_append (isFullPath_of_currentWorkspacePath hroot).1 _
    · exact resolve_append_component hlast hplace hnew hcases
  · have hpath : workspacePath (first :: rest) = '/' :: ((first :: rest) ++ slash) :=
      workspacePath_eq_append hfirst hslash
    have hnot : ¬ (first :: rest) <+: '/' :: ((first :: rest) ++ slash) := by
      rintro ⟨tail, htail⟩
      exact hfirst (List.cons.inj htail).1
    have hreplaced : replaceFirst (workspacePath (first :: rest)) (first :: rest) newName =
        rootDirPath ++ (newName ++ slash) := by
      rw [hpath, replaceFirst, splitFirst, if_neg hnot, splitFirst_append, Option.map_some]
      dsimp only
      rw [substitute_of_notMem hdollar]
      exact List.append_assoc rootDirPath newName slash
    refine ⟨rootDirPath ++ (newName ++ slash), ?_, List.prefix_append _ _, Or.inl ?_⟩
    · rw [hreplaced]
      exact before.convertToFullPath_of_root (List.prefix_append _ _)
    · exact @resolve_append_component rootDirPath newName [] (by decide) (by decide) hnew slash hcases

/-- Moving an item renames it on the disk, changes the items and saves the metadata. -/
theorem moveItem_returns {before after : State F} (hpersistent : before.isTemporary = false)
    {oldPath newPath : Str} (hold : IsFullPath oldPath) (hnew : IsFullPath newPath)
    {opts : RenameItemOptions}
    (hmove : moveItem system json oldPath newPath opts before = .ok () after) :
    ∃ disk explorer opened, system.rename before.disk oldPath newPath = .ok disk ∧
      saveMeta system json { before with disk, explorer, opened } = .ok () after := by
  obtain ⟨_, state, hcheck, hmove⟩ := bind_eq_ok.mp hmove
  obtain ⟨-, rfl⟩ := throwIf_eq_ok.mp hcheck
  obtain ⟨srcPath, state, hsrc, hmove⟩ := bind_eq_ok.mp hmove
  obtain ⟨-, rfl⟩ := evaluate_eq_ok.mp hsrc
  obtain ⟨_, state, hcheck, hmove⟩ := bind_eq_ok.mp hmove
  obtain ⟨-, rfl⟩ := throwIf_eq_ok.mp hcheck
  obtain ⟨_, state, hcheck, hmove⟩ := bind_eq_ok.mp hmove
  obtain ⟨-, rfl⟩ := throwIf_eq_ok.mp hcheck
  rw [get_bind_apply] at hmove
  obtain ⟨_, state, hcheck, hmove⟩ := bind_eq_ok.mp hmove
  obtain ⟨-, rfl⟩ := throwIf_eq_ok.mp hcheck
  obtain ⟨_, renamed, hrename, hmove⟩ := bind_eq_ok.mp hmove
  rw [runIf, hpersistent, if_pos (by rfl)] at hrename
  obtain ⟨fullPath, state, hconvert, hrename⟩ := bind_eq_ok.mp hrename
  obtain ⟨hfull, rfl⟩ := convertToFullPath_eq_ok.mp hconvert
  obtain ⟨newFullPath, state, hconvertNew, hrename⟩ := bind_eq_ok.mp hrename
  obtain ⟨hnewFull, rfl⟩ := convertToFullPath_eq_ok.mp hconvertNew
  obtain rfl : oldPath = fullPath :=
    Except.ok.inj ((before.convertToFullPath_of_root hold).symm.trans hfull)
  obtain rfl : newPath = newFullPath :=
    Except.ok.inj ((before.convertToFullPath_of_root hnew).symm.trans hnewFull)
  obtain ⟨disk, hdisk, rfl⟩ := onDisk_eq_ok.mp hrename
  obtain ⟨_, changed, hchange, hmove⟩ := bind_eq_ok.mp hmove
  obtain rfl := modify_eq_ok.mp hchange
  obtain ⟨_, announced, hannounce, hsave⟩ := bind_eq_ok.mp hmove
  obtain rfl := modify_eq_ok.mp hannounce
  exact ⟨disk, _, _, hdisk, hsave⟩

/-- Saving the metadata leaves a folder where it is. -/
theorem folder_of_saveMeta (hlawful : system.Lawful content) (henclosed : system.Enclosed)
    {before after : State F} {place : List Component}
    (hfolder : content before.disk place = some .folder)
    (hsave : saveMeta system json before = .ok () after) : content after.disk place = some .folder :=
  Triple.of_ok ((robust_folder place).saveMeta hlawful henclosed fun _ ↦ trivial) hfolder hsave

/-- Saving the config leaves a folder where it is. -/
theorem folder_of_saveWorkspaces (hlawful : system.Lawful content) (henclosed : system.Enclosed)
    {before after : State F} {place : List Component}
    (hfolder : content before.disk place = some .folder)
    (hsave : saveWorkspaces system json before = .ok () after) :
    content after.disk place = some .folder := by
  have hkeeps : Keeps (fun state : State F ↦ content state.disk place = some .folder)
      (saveWorkspaces system json) :=
    Keeps.get_bind fun _ ↦ keeps_runIf fun _ ↦
      (robust_folder place).writeFile hlawful henclosed (fun _ _ _ _ _ ↦ trivial) _ _
  exact Triple.of_ok hkeeps hfolder hsave

/-- Renaming the folder of a workspace to a name that is a component puts it below the root. -/
theorem folder_of_renameItem (hlawful : system.Lawful content) (henclosed : system.Enclosed)
    {before after : State F} (hpersistent : before.isTemporary = false) {name : Str}
    (hcurrent : before.currentWorkspaceName = some name) (hne : name ≠ []) {newName : Component}
    (hnew : IsComponent newName) (hdollar : '$' ∉ newName) {place : List Component}
    (hplace : resolve (workspacePath name) = some place)
    (hfolder : content before.disk place = some .folder) {opts : RenameItemOptions}
    (hrename : renameItem system json (workspacePath name)
      (replaceFirst (workspacePath name) name newName) opts before = .ok () after) :
    content after.disk [newName] = some .folder := by
  have hold : IsFullPath (workspacePath name) :=
    (isFullPath_of_currentWorkspacePath (currentWorkspacePath_eq_ok hcurrent hne)).1
  obtain ⟨newPath, hnewPath, hnewFull, htarget⟩ :=
    resolve_renamedPath hpersistent hcurrent hne hnew hdollar hplace
  obtain ⟨fullPath, state, hconvert, hrename⟩ := bind_eq_ok.mp hrename
  obtain ⟨hfull, rfl⟩ := convertToFullPath_eq_ok.mp hconvert
  obtain rfl : workspacePath name = fullPath :=
    Except.ok.inj ((before.convertToFullPath_of_root hold).symm.trans hfull)
  obtain ⟨newFullPath, state, hconvertNew, hrename⟩ := bind_eq_ok.mp hrename
  obtain ⟨hconverted, rfl⟩ := convertToFullPath_eq_ok.mp hconvertNew
  obtain rfl : newPath = newFullPath := Except.ok.inj (hnewPath.symm.trans hconverted)
  by_cases hsame : isPathsEqual newPath (workspacePath name) = true
  · -- the folder is there already
    rw [if_pos hsame] at hrename
    obtain ⟨-, rfl⟩ := pure_eq_ok.mp hrename
    have hresolve : resolve newPath = some place := by
      have hslash : appendSlash newPath = appendSlash (workspacePath name) := of_decide_eq_true hsame
      rw [← resolve_appendSlash, hslash, resolve_appendSlash, hplace]
    rcases htarget with htarget | htarget
    · rwa [Option.some.inj (htarget.symm.trans hresolve)]
    · have hlength := congrArg List.length (Option.some.inj (hresolve.symm.trans htarget))
      simp at hlength
  · rw [if_neg hsame] at hrename
    obtain ⟨disk, explorer, opened, hdisk, hsave⟩ :=
      moveItem_returns hpersistent hold hnewFull hrename
    refine folder_of_saveMeta hlawful henclosed ?_ hsave
    show content disk [newName] = _
    rcases htarget with htarget | htarget
    · obtain ⟨-, -, -, hmoved⟩ := hlawful.rename_effect hplace htarget hdisk
      rw [hmoved, Content.move, if_pos List.prefix_rfl, List.drop_length, List.append_nil]
      exact hfolder
    · -- a folder cannot be moved below itself
      obtain ⟨-, -, hapart, -⟩ := hlawful.rename_effect hplace htarget hdisk
      rcases hapart with hequal | hbelow
      · have hlength := congrArg List.length hequal
        simp at hlength
      · exact absurd (List.prefix_append place [newName]) hbelow

/-- Entering a workspace leaves a folder where it is. -/
theorem folder_of_enterWorkspace (hlawful : system.Lawful content) (henclosed : system.Enclosed)
    {before entered : State F} {name : Str} {place : List Component}
    (hfolder : content before.disk place = some .folder)
    (henter : enterWorkspace system json name before = .ok () entered) :
    content entered.disk place = some .folder := by
  obtain ⟨_, saved, hsave, henter⟩ := bind_eq_ok.mp henter
  obtain ⟨_, changed, hchange, henter⟩ := bind_eq_ok.mp henter
  obtain ⟨changedWorkspaces, -, rfl⟩ := changeWorkspaces_eq_ok.mp hchange
  have hchanged : content ({ saved with workspaces := changedWorkspaces } : State F).disk place =
      some .folder := @folder_of_saveMeta _ _ _ _ hlawful henclosed _ saved _ hfolder hsave
  exact folder_of_saveWorkspaces hlawful henclosed hchanged henter

/-- Assumes: a lawful file system. A rename that returns changes the current name in its place and no
other, and leaves what holds between two operations. -/
theorem renamed_of_renameWorkspace (hlawful : system.Lawful content) (henclosed : system.Enclosed)
    {before after : State F} (hbefore : Opened json content before) {newName : Str}
    (hrename : renameWorkspace system json newName before = .ok () after) :
    Opened json content after ∧ ∃ name, before.workspaces.currentName = some name ∧
      after.workspaces = ⟨before.workspaces.allNames.map fun other ↦
        if other = name then trim newName else other, some (trim newName)⟩ := by
  unfold renameWorkspace at hrename
  dsimp only at hrename
  rw [get_bind_apply] at hrename
  obtain ⟨_, state, hcheck, hrename⟩ := bind_eq_ok.mp hrename
  obtain ⟨-, rfl⟩ := throwIf_eq_ok.mp hcheck
  obtain ⟨root, state, hpath, hrename⟩ := bind_eq_ok.mp hrename
  obtain ⟨hroot, rfl⟩ : before.currentWorkspacePath = .ok root ∧ before = state :=
    evaluate_eq_ok.mp hpath
  obtain ⟨_, state, hcheck, hrename⟩ := bind_eq_ok.mp hrename
  obtain ⟨hvalidName, rfl⟩ := throwIf_eq_ok.mp hcheck
  obtain ⟨_, state, hcheck, hrename⟩ := bind_eq_ok.mp hrename
  obtain ⟨hfree, rfl⟩ := throwIf_eq_ok.mp hcheck
  obtain ⟨_, moved, hmove, hrename⟩ := bind_eq_ok.mp hrename
  obtain ⟨_, renamed, hchange, hswitch⟩ := bind_eq_ok.mp hrename
  have hname : before.currentWorkspaceName = before.workspaces.currentName := if_pos hbefore.known
  cases hcurrent : before.workspaces.currentName with
  | none =>
    unfold State.currentWorkspacePath at hroot
    rw [hname, hcurrent] at hroot
    cases hroot
  | some name =>
    have hcurrentName := hname.trans hcurrent
    obtain ⟨hne, place, hplace, hfolder⟩ := hbefore.rooted name hcurrent
    obtain rfl : workspacePath name = root :=
      Except.ok.inj ((currentWorkspacePath_eq_ok hcurrentName hne).symm.trans hroot)
    obtain ⟨hcomponent, -, hdollar⟩ :=
      isComponent_of_isWorkspaceNameValid (by simpa using hvalidName)
    have hfree : trim newName ∉ before.workspaces.allNames := of_decide_eq_false hfree
    rw [hcurrentName, Option.getD_some] at hmove
    have hmoved := folder_of_renameItem hlawful henclosed hbefore.persistent hcurrentName hne hcomponent
      hdollar hplace hfolder hmove
    have hknows : Knows before.workspaces moved :=
      Triple.of_ok (keeps_knows_renameItem _ _ _) ⟨hbefore.persistent, hbefore.known, rfl⟩ hmove
    have hvalid := hbefore.valid.rename hcurrent hfree
    obtain ⟨changed, hchanged, rfl⟩ := changeWorkspaces_eq_ok.mp hchange
    have hnames : changed = ⟨before.workspaces.allNames.map fun other ↦
        if other = name then trim newName else other, some (trim newName)⟩ := by
      rw [hknows.workspaces_eq, Workspaces.rename, if_neg hfree, hcurrent] at hchanged
      simpa using (Except.ok.inj hchanged).symm
    have hset : changed.setCurrentName (trim newName) = changed := by
      have hmem := hvalid.current (trim newName) rfl
      rw [hnames, setCurrentName_of_mem hmem]
    have hchangedKnows : Knows changed { moved with workspaces := changed } :=
      ⟨hknows.persistent, hknows.known, rfl⟩
    obtain ⟨hopened, entered, henter, hentered, henteredNames, hswitched⟩ :=
      opened_of_switchWorkspace hlawful henclosed hchangedKnows
        (by rw [hset, hnames]; exact hvalid) hswitch
    rw [hset] at henteredNames
    refine ⟨hopened, name, rfl, ?_⟩
    rw [← hnames, ← henteredNames]
    cases hswitched with
    | loaded loaded hload hsame => exact hsame
    | deleted error failed deleted hload hsettled hfailed hdeleted hsame =>
      -- the folder that has been moved is there, so that its files can be loaded
      have hrenamed : content ({ moved with workspaces := changed } : State F).disk [trim newName] =
          some .folder := hmoved
      have henteredFolder : content entered.disk [trim newName] = some .folder :=
        folder_of_enterWorkspace hlawful henclosed hrenamed henter
      have henteredName : entered.emptied.currentWorkspaceName = some (trim newName) := by
        show (if entered.hasWorkspace then entered.workspaces.currentName else none) = _
        rw [if_pos hentered.known, henteredNames, hnames]
      obtain ⟨files, hloaded, -⟩ := loadFiles_eq_ok hlawful
        (currentWorkspacePath_eq_ok henteredName hcomponent.1) (resolve_workspacePath hcomponent)
        henteredFolder
      exact absurd (hloaded.symm.trans hload) (by simp)

end Rename

/-! ### Creating -/

section Create

/-- A call that does not look at the disk keeps the names. -/
theorem keeps_knows_writeFiles {workspaces : Workspaces} (files : TupleFiles) :
    Keeps (Knows (F := F) workspaces)
      (files.forM fun file ↦ PgFs.writeFile system file.1 file.2 true) :=
  Keeps.forM fun _ _ ↦ blind_knows.writeFile _ _ _

/-- The files of the explorer are written. -/
theorem keeps_knows_writeAllFromState {workspaces : Workspaces} :
    Keeps (Knows (F := F) workspaces) (writeAllFromState system) := by
  refine Keeps.get_bind fun state ↦ Keeps.forM fun path _ ↦ ?_
  split
  · exact blind_knows.writeFile _ _ _
  · exact blind_knows.createDir _ _

/-- A workspace that is created from files. -/
theorem opened_of_newWorkspaceFromFiles (hlawful : system.Lawful content) (henclosed : system.Enclosed)
    {before after : State F} (hbefore : Settled json content before) {name : Str}
    {opts : NewWorkspaceOptions}
    (hcreate : newWorkspaceFromFiles system json name opts before = .ok () after) :
    Opened json content after := by
  unfold newWorkspaceFromFiles at hcreate
  rw [get_bind_apply] at hcreate
  obtain ⟨_, state, hcheck, hcreate⟩ := bind_eq_ok.mp hcreate
  obtain ⟨-, rfl⟩ := throwIf_eq_ok.mp hcheck
  obtain ⟨_, created, hchange, hcreate⟩ := bind_eq_ok.mp hcreate
  obtain ⟨changed, hnew, rfl⟩ := changeWorkspaces_eq_ok.mp hchange
  obtain ⟨_, written, hwrite, hswitch⟩ := bind_eq_ok.mp hcreate
  have hcreated : Knows changed { before with workspaces := changed } :=
    ⟨hbefore.persistent, hbefore.known, rfl⟩
  have hwritten : Knows changed written := Triple.of_ok (keeps_knows_writeFiles _) hcreated hwrite
  have hvalid := (hbefore.valid.new hnew).setCurrentName name
  exact (opened_of_switchWorkspace hlawful henclosed hwritten hvalid hswitch).1

/-- Initializing the workspaces takes over those that are known, saves them and leaves folders where they
are. -/
theorem initWorkspaces_returns (hlawful : system.Lawful content) (henclosed : system.Enclosed)
    {before after : State F} (hpersistent : before.isTemporary = false)
    (hworkspace : before.hasWorkspace = false)
    (hinit : initWorkspaces system json before = .ok () after) :
    Knows (before.knownWorkspaces system json) after ∧
      content after.disk [configDir, configFile] =
        some (.file (json.stringifyWorkspaces (before.knownWorkspaces system json))) ∧
      ∀ place, content before.disk place = some .folder → content after.disk place = some .folder := by
  unfold initWorkspaces at hinit
  rw [get_bind_apply] at hinit
  obtain ⟨workspaces, state, hread, hinit⟩ := bind_eq_ok.mp hinit
  have hsame := hread.symm.trans (readToJSONOrDefault_workspaces hworkspace)
  injection hsame with hworkspaces hstate
  subst hworkspaces hstate
  obtain ⟨_, known, hmodify, hsave⟩ := bind_eq_ok.mp hinit
  have hknown : Knows (state.knownWorkspaces system json) known := by
    rw [← modify_eq_ok.mp hmodify]
    exact ⟨hpersistent, rfl, rfl⟩
  obtain ⟨hknows, hstored⟩ := stored_of_saveWorkspaces hlawful hknown hsave
  refine ⟨hknows, hstored, fun place hfolder ↦ ?_⟩
  have hunsaved : content known.disk place = some .folder := by
    rw [← modify_eq_ok.mp hmodify]
    exact hfolder
  exact folder_of_saveWorkspaces hlawful henclosed hunsaved hsave

/-- A temporary project that is kept. -/
theorem opened_of_newWorkspaceFromTemporary (hlawful : system.Lawful content)
    (henclosed : system.Enclosed) {before after : State F} (hworkspace : before.hasWorkspace = false)
    (hknown : (before.knownWorkspaces system json).Valid) {name : Str}
    (hcreate : newWorkspaceFromTemporary system json name before = .ok () after) :
    Opened json content after := by
  obtain ⟨_, persistent, hmodify, hcreate⟩ := bind_eq_ok.mp hcreate
  obtain rfl : { before with isTemporary := false } = persistent := modify_eq_ok.mp hmodify
  obtain ⟨_, ready, hinit, hcreate⟩ := bind_eq_ok.mp hcreate
  obtain ⟨_, created, hchange, hcreate⟩ := bind_eq_ok.mp hcreate
  obtain ⟨changed, hnew, rfl⟩ := changeWorkspaces_eq_ok.mp hchange
  obtain ⟨_, moved, hmove, hcreate⟩ := bind_eq_ok.mp hcreate
  obtain ⟨_, written, hwrite, hswitch⟩ := bind_eq_ok.mp hcreate
  have hready : Knows (before.knownWorkspaces system json) ready :=
    (@initWorkspaces_returns _ _ _ _ hlawful henclosed { before with isTemporary := false } _ rfl
      hworkspace hinit).1
  have hmoved : Knows changed moved := by
    obtain rfl := modify_eq_ok.mp hmove
    exact ⟨hready.persistent, hready.known, rfl⟩
  have hwritten : Knows changed written :=
    Triple.of_ok keeps_knows_writeAllFromState hmoved hwrite
  rw [hready.workspaces_eq] at hnew
  have hvalid := (hknown.new hnew).setCurrentName name
  exact (opened_of_switchWorkspace hlawful henclosed hwritten hvalid hswitch).1

end Create

/-! ### Runs -/

section Runs

/-- A public operation on workspaces. -/
inductive WorkspaceCall
  | newWorkspace (name : Str) (opts : NewWorkspaceOptions)
  | switchWorkspace (name : Str) (defaultOpenFile : Option Str)
  | renameWorkspace (newName : Str)
  | deleteWorkspace

/-- The operation. -/
def performWorkspace (system : FileSystem F) (json : Json) : WorkspaceCall → Action F Unit
  | .newWorkspace name opts => newWorkspace system json name opts
  | .switchWorkspace name defaultOpenFile => switchWorkspace system json name defaultOpenFile
  | .renameWorkspace newName => renameWorkspace system json newName
  | .deleteWorkspace => deleteWorkspace system json

/-- An operation returns. -/
def WorkspaceStep (system : FileSystem F) (json : Json) (before : State F) (call : WorkspaceCall)
    (after : State F) : Prop :=
  performWorkspace system json call before = .ok () after

/-- Where a run begins: a workspace is open, or there is none yet, as with a temporary project, and the
config is valid. -/
inductive Begins (system : FileSystem F) (json : Json) (content : F → Content) (state : State F) : Prop
  | opened (hopened : Opened json content state)
  | closed (hworkspace : state.hasWorkspace = false)
      (hknown : (state.knownWorkspaces system json).Valid)

/-- A check for workspaces that is passed has found some. -/
theorem hasWorkspace_of_check {before checked : State F}
    (hcheck : throwIf (!before.hasWorkspace) WorkspaceError.notFound before = .ok () checked) :
    before.hasWorkspace = true := by
  simpa using (throwIf_eq_ok.mp hcheck).1

/-- A switch needs workspaces. -/
theorem hasWorkspace_of_switchWorkspace {before after : State F} {name : Str}
    {defaultOpenFile : Option Str}
    (hswitch : switchWorkspace system json name defaultOpenFile before = .ok () after) :
    before.hasWorkspace = true := by
  obtain ⟨_, entered, henter, hswitch⟩ := bind_eq_ok.mp hswitch
  obtain ⟨_, ready, hinit, -⟩ := bind_eq_ok.mp hswitch
  by_contra hnone
  have hblind : Blind fun state : State F ↦ ¬ state.hasWorkspace = true := fun _ _ hstate ↦ hstate
  have hkeeps : Keeps (fun state : State F ↦ ¬ state.hasWorkspace = true)
      (enterWorkspace system json name) := by
    refine Keeps.bind hblind.saveMeta fun _ ↦ Keeps.bind ?_ fun _ ↦ hblind.saveWorkspaces
    exact fun _ hstate ↦ hstate
  have hentered := Triple.of_ok hkeeps hnone henter
  unfold initCurrentWorkspaceWith at hinit
  rw [get_bind_apply] at hinit
  obtain ⟨_, checked, hcheck, -⟩ := bind_eq_ok.mp hinit
  exact hentered (hasWorkspace_of_check hcheck)

/-- A rename needs workspaces. -/
theorem hasWorkspace_of_renameWorkspace {before after : State F} {newName : Str}
    (hrename : renameWorkspace system json newName before = .ok () after) :
    before.hasWorkspace = true := by
  unfold renameWorkspace at hrename
  dsimp only at hrename
  rw [get_bind_apply] at hrename
  obtain ⟨_, checked, hcheck, -⟩ := bind_eq_ok.mp hrename
  exact hasWorkspace_of_check hcheck

/-- A deletion needs workspaces. -/
theorem hasWorkspace_of_deleteWorkspace {before after : State F}
    (hdelete : deleteWorkspace system json before = .ok () after) : before.hasWorkspace = true := by
  unfold deleteWorkspace at hdelete
  rw [get_bind_apply, deleteWorkspaceWithin, get_bind_apply] at hdelete
  obtain ⟨_, checked, hcheck, -⟩ := bind_eq_ok.mp hdelete
  exact hasWorkspace_of_check hcheck

/-- Without workspaces an operation returns only if it keeps a temporary project. -/
theorem keeps_temporary_of_workspaceStep {before after : State F} {call : WorkspaceCall}
    (hworkspace : before.hasWorkspace = false) (hstep : WorkspaceStep system json before call after) :
    ∃ name, newWorkspaceFromTemporary system json name before = .ok () after := by
  have habsurd : before.hasWorkspace = true →
      ∃ name, newWorkspaceFromTemporary system json name before = .ok () after :=
    fun hfound ↦ absurd (hworkspace.symm.trans hfound) (by simp)
  unfold WorkspaceStep at hstep
  cases call with
  | newWorkspace name opts =>
    obtain ⟨_, state, hcheck, hcreate⟩ := bind_eq_ok.mp hstep
    obtain ⟨-, rfl⟩ := throwIf_eq_ok.mp hcheck
    rw [get_bind_apply] at hcreate
    by_cases htemporary : (opts.fromTemporary && before.isTemporary) = true
    · rw [if_pos htemporary] at hcreate
      exact ⟨_, hcreate⟩
    · rw [if_neg htemporary, newWorkspaceFromFiles, get_bind_apply] at hcreate
      obtain ⟨_, checked, hcheck, -⟩ := bind_eq_ok.mp hcreate
      exact habsurd (hasWorkspace_of_check hcheck)
  | switchWorkspace name defaultOpenFile => exact habsurd (hasWorkspace_of_switchWorkspace hstep)
  | renameWorkspace newName => exact habsurd (hasWorkspace_of_renameWorkspace hstep)
  | deleteWorkspace => exact habsurd (hasWorkspace_of_deleteWorkspace hstep)

/-- After an operation that returns a workspace is open, if there is any. -/
theorem opened_of_workspaceStep (hlawful : system.Lawful content) (henclosed : system.Enclosed)
    {before after : State F} {call : WorkspaceCall} (hbefore : Begins system json content before)
    (hstep : WorkspaceStep system json before call after) : Opened json content after := by
  cases hbefore with
  | closed hworkspace hknown =>
    obtain ⟨name, hcreate⟩ := keeps_temporary_of_workspaceStep hworkspace hstep
    exact opened_of_newWorkspaceFromTemporary hlawful henclosed hworkspace hknown hcreate
  | opened hopened =>
    have hknows : Knows before.workspaces before := ⟨hopened.persistent, hopened.known, rfl⟩
    unfold WorkspaceStep at hstep
    cases call with
    | newWorkspace name opts =>
      obtain ⟨_, state, hcheck, hcreate⟩ := bind_eq_ok.mp hstep
      obtain ⟨-, rfl⟩ := throwIf_eq_ok.mp hcheck
      rw [get_bind_apply, hopened.persistent, Bool.and_false, if_neg (by simp)] at hcreate
      exact opened_of_newWorkspaceFromFiles hlawful henclosed hopened.toSettled hcreate
    | switchWorkspace name defaultOpenFile =>
      exact (opened_of_switchWorkspace hlawful henclosed hknows
        (hopened.valid.setCurrentName name) hstep).1
    | renameWorkspace newName =>
      exact (renamed_of_renameWorkspace hlawful henclosed hopened hstep).1
    | deleteWorkspace =>
      obtain ⟨name, -, hdeleted⟩ := deleted_of_deleteWorkspace hlawful henclosed hopened.toSettled hstep
      exact hdeleted.opened

/-- A run leads to where a run may begin. -/
theorem begins_of_run (hlawful : system.Lawful content) (henclosed : system.Enclosed)
    {start finish : State F} {calls : List WorkspaceCall}
    (hrun : Run (WorkspaceStep system json) start calls finish)
    (hstart : Begins system json content start) : Begins system json content finish :=
  hrun.invariant (fun _ _ _ hbefore hstep ↦
    .opened (opened_of_workspaceStep hlawful henclosed hbefore hstep)) hstart

/-- Assumes: a lawful file system, and a valid config whose current workspace is on the disk. `init` of a
workspace leads to where a run may begin. -/
theorem begins_of_init (hlawful : system.Lawful content) (henclosed : system.Enclosed) {disk : F}
    {after : State F} {name : Option Str}
    (hvalid : ((State.atStart disk).knownWorkspaces system json).Valid)
    (hrooted : ∀ current, ((State.atStart disk).knownWorkspaces system json).currentName = some current →
      current ≠ [] ∧ ∃ place, resolve (workspacePath current) = some place ∧
        content disk place = some .folder)
    (hinit : init system json none name (.atStart disk) = .ok () after) :
    Begins system json content after := by
  unfold init at hinit
  rw [get_bind_apply] at hinit
  dsimp only at hinit
  rw [if_neg (by simp [State.atStart])] at hinit
  obtain ⟨_, persistent, hmodify, hinit⟩ := bind_eq_ok.mp hinit
  obtain rfl : { State.atStart disk with isTemporary := false } = persistent :=
    modify_eq_ok.mp hmodify
  rw [get_bind_apply] at hinit
  obtain ⟨_, ready, hready, hinit⟩ := bind_eq_ok.mp hinit
  obtain ⟨hknows, hstored, hfolders⟩ :=
    @initWorkspaces_returns _ _ _ _ hlawful henclosed (State.atStart disk) ready rfl rfl hready
  have hopened : Opened json content ready := by
    refine ⟨⟨hknows.persistent, hknows.known, ?_, ?_⟩, ?_⟩
    · rw [hknows.workspaces_eq]
      exact hvalid
    · rw [hknows.workspaces_eq]
      exact hstored
    · intro current hcurrent
      rw [hknows.workspaces_eq] at hcurrent
      obtain ⟨hne, place, hplace, hfolder⟩ := hrooted current hcurrent
      exact ⟨hne, place, hplace, hfolders place hfolder⟩
  have hcleared : Opened json content { ready with explorer := getDefaultState } :=
    blindToItems_opened ready _ ready.opened hopened
  have hnothing : (if ready.workspaces.allNames = [] then modifyExplorer fun _ ↦ getDefaultState
      else pure () : Action F Unit) ready = .ok () after → Opened json content after := by
    by_cases hnames : ready.workspaces.allNames = []
    · rw [if_pos hnames]
      intro hmodify
      rwa [← modify_eq_ok.mp hmodify]
    · rw [if_neg hnames]
      intro hpure
      rwa [← (pure_eq_ok.mp hpure).2]
  rw [get_bind_apply] at hinit
  refine .opened ?_
  cases hname : name.or ready.currentWorkspaceName with
  | none =>
    rw [hname] at hinit
    exact hnothing hinit
  | some workspaceName =>
    rw [hname] at hinit
    dsimp only at hinit
    by_cases hfound : workspaceName ≠ [] ∧ workspaceName ∈ ready.workspaces.allNames
    · rw [if_pos hfound] at hinit
      exact (opened_of_switchWorkspace hlawful henclosed ⟨hopened.persistent, hopened.known, rfl⟩
        (hopened.valid.setCurrentName _) hinit).1
    · rw [if_neg hfound] at hinit
      exact hnothing hinit

/-- `init` of a temporary project leads to where a run may begin. -/
theorem begins_of_initTemporary {disk : F} {after : State F} {files : ExplorerFiles}
    {name : Option Str} (hvalid : ((State.atStart disk).knownWorkspaces system json).Valid)
    (hinit : init system json (some files) name (.atStart disk) = .ok () after) :
    Begins system json content after := by
  obtain ⟨explorer, opened, heq, -⟩ := initTemporary_eq_ok files (.atStart disk)
  have hsame := hinit.symm.trans heq
  injection hsame with _ hafter
  rw [hafter]
  exact .closed rfl hvalid

/-- The names and the current one are valid, and the config on the disk is what the explorer has in
memory. -/
structure WorkspacesSound (system : FileSystem F) (json : Json) (state : State F) : Prop where
  valid : state.workspaces.Valid
  persisted : ∃ data, system.readFile state.disk workspacesConfigPath = .ok data ∧
    json.parseWorkspaces data = some state.workspaces

/-- What an operation does to the names: a rename changes the current name in its place, and a deletion
removes it, and the other names stay exactly if the workspace that is opened next can be set up. Else the
names that are left are the first ones of the others. -/
def NamesAfter (system : FileSystem F) (json : Json) (before after : State F) : WorkspaceCall → Prop
  | .renameWorkspace newName => ∃ name, before.workspaces.currentName = some name ∧
      after.workspaces = ⟨before.workspaces.allNames.map fun other ↦
        if other = name then trim newName else other, some (trim newName)⟩
  | .deleteWorkspace => ∃ name, before.workspaces.currentName = some name ∧
      after.workspaces.allNames <+: (before.workspaces.allNames.filter fun other ↦ other ≠ name) ∧
      (after.workspaces.allNames = (before.workspaces.allNames.filter fun other ↦ other ≠ name) ↔
        SetsUpNext system json before)
  | .newWorkspace _ _ | .switchWorkspace _ _ => True

/-- Assumes: a lawful file system that is enclosed, and a `JSON` that reads back what it writes. In every
run the workspaces are sound after every operation, and a rename and a deletion do to the names what they
should, a deletion if the workspace that is opened next can be set up. -/
theorem workspacesSound_of_run (hlawful : system.Lawful content) (henclosed : system.Enclosed)
    (hjson : json.RoundTrips) {start before after : State F} {calls : List WorkspaceCall}
    {call : WorkspaceCall} (hstart : Begins system json content start)
    (hrun : Run (WorkspaceStep system json) start calls before)
    (hstep : WorkspaceStep system json before call after) :
    WorkspacesSound system json after ∧ NamesAfter system json before after call := by
  have hbefore := begins_of_run hlawful henclosed hrun hstart
  have hafter := opened_of_workspaceStep hlawful henclosed hbefore hstep
  refine ⟨⟨hafter.valid, _, hlawful.readFile_found resolve_workspacesConfigPath hafter.stored,
    hjson.parseWorkspaces_stringifyWorkspaces _⟩, ?_⟩
  have hopened : before.hasWorkspace = true → Opened json content before := by
    intro hworkspace
    cases hbefore with
    | opened hopened => exact hopened
    | closed hnone => exact absurd (hnone.symm.trans hworkspace) (by simp)
  cases call with
  | newWorkspace name opts => exact trivial
  | switchWorkspace name defaultOpenFile => exact trivial
  | renameWorkspace newName =>
    exact (renamed_of_renameWorkspace hlawful henclosed
      (hopened (hasWorkspace_of_renameWorkspace hstep)) hstep).2
  | deleteWorkspace =>
    obtain ⟨name, hname, hdeleted⟩ := deleted_of_deleteWorkspace hlawful henclosed
      (hopened (hasWorkspace_of_deleteWorkspace hstep)).toSettled hstep
    exact ⟨name, hname, hdeleted.names, hdeleted.only⟩

end Runs

/-! ### Histories -/

/-- The explorer after `init` on an empty disk. -/
def emptyExplorer : State FileTree :=
  finalState (init fileTrees referenceJson none none (.atStart FileTree.empty))

/-- The creation of a workspace from files, under a name that is not checked. -/
def importFiles (name : String) (files : List (String × String)) : WorkspaceCall :=
  .newWorkspace name.toList
    ⟨some (files.map fun file ↦ (file.1.toList, file.2.toList)), none, false, true⟩

/-- The state that an operation leads to, if it returns. -/
def stepWorkspaces (state : State FileTree) (call : WorkspaceCall) : Option (State FileTree) :=
  match performWorkspace fileTrees referenceJson call state with
  | .ok _ after => some after
  | .error _ _ => none

/-- The explorer after operations that return. -/
def explorerAfter (calls : List WorkspaceCall) : State FileTree :=
  (calls.foldlM stepWorkspaces emptyExplorer).getD emptyExplorer

/-- Operations that return are a run. -/
theorem run_explorerAfter {calls : List WorkspaceCall}
    (hreturns : (calls.foldlM stepWorkspaces emptyExplorer).isSome = true) :
    Run (WorkspaceStep fileTrees referenceJson) emptyExplorer calls (explorerAfter calls) := by
  obtain ⟨finish, hfinish⟩ := Option.isSome_iff_exists.mp hreturns
  rw [explorerAfter, hfinish, Option.getD_some]
  refine (Run.of_foldlM hfinish).mono fun before call after hstep ↦ ?_
  unfold StepsTo stepWorkspaces at hstep
  unfold WorkspaceStep
  cases hcall : performWorkspace fileTrees referenceJson call before with
  | ok value found =>
    rw [hcall] at hstep
    rw [Option.some.inj hstep]
  | error error found =>
    rw [hcall] at hstep
    cases hstep

/-- A run may begin with an empty disk. -/
theorem begins_emptyExplorer : Begins fileTrees referenceJson FileTree.content emptyExplorer := by
  have hknown : (State.atStart FileTree.empty).knownWorkspaces fileTrees referenceJson = .initial := by
    decide +kernel
  refine @begins_of_init _ _ _ _ lawful_fileTrees enclosed_fileTrees FileTree.empty emptyExplorer none
    ?_ ?_ (eq_ok_finalState (by decide +kernel))
  · rw [hknown]
    exact ⟨List.nodup_nil, fun _ hname ↦ (nomatch hname), fun _ ↦ rfl⟩
  · rw [hknown]
    exact fun _ hname ↦ (nomatch hname)

/-- Creating two workspaces and renaming the second one. -/
def renameHistory : List WorkspaceCall :=
  [importFiles "a" [("src/lib.rs", "")], importFiles "b" [("src/lib.rs", "")]]

/-- The workspaces are sound after a rename, which changes the second name only. -/
theorem workspacesSound_of_renameHistory :
    WorkspacesSound fileTrees referenceJson
        (finalState (performWorkspace fileTrees referenceJson (.renameWorkspace "c".toList)
          (explorerAfter renameHistory))) ∧
      NamesAfter fileTrees referenceJson (explorerAfter renameHistory)
        (finalState (performWorkspace fileTrees referenceJson (.renameWorkspace "c".toList)
          (explorerAfter renameHistory))) (.renameWorkspace "c".toList) :=
  workspacesSound_of_run lawful_fileTrees enclosed_fileTrees referenceJson_roundTrips
    begins_emptyExplorer (run_explorerAfter (by decide +kernel)) (eq_ok_finalState (by decide +kernel))

/-- Four workspaces, one of them in the folder of another, the deletion of the outer one, a file that is
put where its folder was, and the deletion of the workspace that is made with the file. -/
def brokenHistory : List WorkspaceCall :=
  [importFiles "z" [("src/lib.rs", "")], importFiles "p/a.b" [("src/lib.rs", "")],
    importFiles "w" [("src/lib.rs", "")], importFiles "p" [("src/lib.rs", "")], .deleteWorkspace,
    importFiles "y" [("/p/a.b", ""), ("src/lib.rs", "")], .deleteWorkspace]

/-- A deletion may remove more than the current name: the workspace that it opens next has no folder. -/
theorem not_deletes_current_only :
    ¬ ∀ (start before after : State FileTree) (calls : List WorkspaceCall),
      Begins fileTrees referenceJson FileTree.content start →
      Run (WorkspaceStep fileTrees referenceJson) start calls before →
      WorkspaceStep fileTrees referenceJson before .deleteWorkspace after →
        ∃ name, before.workspaces.currentName = some name ∧
          after.workspaces.allNames = before.workspaces.allNames.filter fun other ↦ other ≠ name := by
  intro hall
  -- one evaluation of the history for all that is needed of it
  obtain ⟨hreturns, hdeleted, hbefore, hafter⟩ :
      (brokenHistory.foldlM stepWorkspaces emptyExplorer).isSome = true ∧
        returns (deleteWorkspace fileTrees referenceJson (explorerAfter brokenHistory)) = true ∧
        (explorerAfter brokenHistory).workspaces =
          ⟨["z".toList, "p/a.b".toList, "w".toList], some "w".toList⟩ ∧
        (finalState (deleteWorkspace fileTrees referenceJson
          (explorerAfter brokenHistory))).workspaces.allNames = ["z".toList] := by decide +kernel
  obtain ⟨name, hname, hnames⟩ := hall emptyExplorer (explorerAfter brokenHistory)
    (finalState (deleteWorkspace fileTrees referenceJson (explorerAfter brokenHistory))) brokenHistory
    begins_emptyExplorer (run_explorerAfter hreturns) (eq_ok_finalState hdeleted)
  rw [hbefore] at hname hnames
  obtain rfl : "w".toList = name := Option.some.inj hname
  rw [hafter] at hnames
  exact absurd hnames (by decide)

end Playground.Explorer
