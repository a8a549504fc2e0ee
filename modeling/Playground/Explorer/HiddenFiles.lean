import Playground.Explorer.Loading

/-!
# Writing the app's own files

`saveMeta` and `_saveWorkspaces` write a file in a hidden folder, `.workspace` in the folder of the
workspace and `.config` at the root, and let `PgFs.writeFile` create the folders on the way. Where the
folder that holds the hidden one is there (`FolderPath`) and neither the hidden folder nor the file is
an entry of the other kind, the write succeeds: the hidden folder is there afterwards, the file has the
new content, and nothing else has changed (`writeFile_hidden`).
-/

set_option autoImplicit false
set_option relaxedAutoImplicit false

namespace Playground.Explorer

open Library

/-! ### Folders on the way -/

/-- From a place each part of a path leads to a folder. -/
def PassesFolders (content : Content) : List Component → List Component → Prop
  | _, [] => True
  | above, part :: rest =>
    ∃ next, resolveStep above part = some next ∧ content next = some .folder ∧
      PassesFolders content next rest

/-- The parts of a path, without the empty ones. -/
def pathParts (path : Str) : List Component :=
  (path.splitOn '/').filter fun part ↦ part ≠ []

/-- Everything on the way of a path is a folder. -/
def FolderPath (content : Content) (path : Str) : Prop :=
  PassesFolders content [] (pathParts path)

/-- Parts with a slash before each. -/
def joinNames (names : List Component) : Str :=
  (names.map fun name ↦ '/' :: name).flatten

theorem joinNames_concat (names : List Component) (name : Component) :
    joinNames (names ++ [name]) = joinNames names ++ '/' :: name := by
  simp [joinNames]

theorem joinNames_cons (name : Component) (names : List Component) :
    joinNames (name :: names) = '/' :: name ++ joinNames names := by
  simp [joinNames]

/-- The parts of joined names. -/
theorem splitOn_joinNames {names : List Component} (hnames : ∀ name ∈ names, '/' ∉ name) :
    (joinNames names).splitOn '/' = [] :: names := by
  induction names using List.reverseRecOn with
  | nil => rfl
  | append_singleton front name ih =>
    have hfront := ih fun other hother ↦ hnames other (List.mem_append_left _ hother)
    have hname : '/' ∉ name := hnames name (List.mem_append_right _ List.mem_cons_self)
    rw [joinNames_concat, List.splitOn_append_cons_self, hfront, List.splitOn_eq_singleton hname]
    rfl

/-- Empty parts make no difference. -/
theorem foldlM_resolveStep_filter (parts : List Component) :
    ∀ above : List Component,
      (parts.filter fun part ↦ part ≠ []).foldlM resolveStep above = parts.foldlM resolveStep above := by
  induction parts with
  | nil => exact fun _ ↦ rfl
  | cons part rest ih =>
    intro above
    by_cases hpart : part = []
    · rw [List.filter_cons_of_neg (by simpa using hpart), List.foldlM_cons, hpart, ih]
      rfl
    · rw [List.filter_cons_of_pos (by simpa using hpart), List.foldlM_cons, List.foldlM_cons]
      congr 1
      funext next
      exact ih next

theorem notMem_of_mem_pathParts (path : Str) : ∀ part ∈ pathParts path, '/' ∉ part :=
  fun part hpart ↦ not_mem_of_mem_splitOn part (List.mem_filter.mp hpart).1

/-- Joined names lead where the names lead. -/
theorem resolve_joinNames {names : List Component} (hnames : ∀ name ∈ names, '/' ∉ name) :
    resolve (joinNames names) = names.foldlM resolveStep [] := by
  rw [resolve, splitOn_joinNames hnames]
  rfl

theorem resolve_eq_foldlM (path : Str) : resolve path = (pathParts path).foldlM resolveStep [] :=
  (foldlM_resolveStep_filter _ _).symm

/-- Following parts that lead to folders ends at a folder. -/
theorem PassesFolders.exists_place {content : Content} {parts : List Component} :
    ∀ {above : List Component}, content above = some .folder → PassesFolders content above parts →
      ∃ place, parts.foldlM resolveStep above = some place ∧ content place = some .folder := by
  induction parts with
  | nil => exact fun habove _ ↦ ⟨_, rfl, habove⟩
  | cons part rest ih =>
    rintro above - ⟨next, hstep, hnext, hrest⟩
    obtain ⟨place, hplace, hfolder⟩ := ih hnext hrest
    refine ⟨place, ?_, hfolder⟩
    rw [List.foldlM_cons, hstep]
    exact hplace

section Writing

variable {F : Type} {system : FileSystem F} {content : F → Content} {state : State F}

/-- Assumes: a lawful file system. A path of folders denotes a folder. -/
theorem FolderPath.exists_place (hlawful : system.Lawful content) {disk : F} {path : Str}
    (hpath : FolderPath (content disk) path) :
    ∃ place, resolve path = some place ∧ content disk place = some .folder := by
  rw [resolve_eq_foldlM]
  exact PassesFolders.exists_place (hlawful.root disk) hpath

theorem itemExists_of_found (hlawful : system.Lawful content) {path : Str}
    {place : List Component} {node : Node} (hfull : IsFullPath path)
    (hplace : resolve path = some place) (hnode : content state.disk place = some node) :
    PgFs.itemExists system path state = .ok true state := by
  have hstat := @getMetadata_of_isFullPath _ system state _ _ hfull (hlawful.stat_found hplace hnode)
  have hfound : (do
      let _ ← PgFs.getMetadata system path
      pure true : Action F Bool) state = .ok true state :=
    bind_eq_ok.mpr ⟨_, state, hstat, rfl⟩
  refine bind_eq_ok.mpr ⟨path, state, convertToFullPath_of_isFullPath hfull state, ?_⟩
  change EStateM.tryCatch _ _ state = _
  rw [EStateM.tryCatch, hfound]

theorem itemExists_of_missing (hlawful : system.Lawful content) {path : Str}
    {place : List Component} (hfull : IsFullPath path) (hplace : resolve path = some place)
    (hnode : content state.disk place = none) :
    PgFs.itemExists system path state = .ok false state := by
  refine bind_eq_ok.mpr ⟨path, state, convertToFullPath_of_isFullPath hfull state, ?_⟩
  obtain ⟨error, hstat, hcode⟩ : ∃ error, system.stat state.disk path = .error error ∧
      (error = .enoent ∨ error = .enotdir) := by
    rcases hlawful.stat_missing hplace hnode with hstat | hstat
    · exact ⟨_, hstat, .inl rfl⟩
    · exact ⟨_, hstat, .inr rfl⟩
  have hthrow : (do
      let _ ← PgFs.getMetadata system path
      pure true : Action F Bool) state = .error (.fs error) state := by
    refine bind_eq_error.mpr (.inl (bind_eq_error.mpr (.inr ⟨path, state,
      convertToFullPath_of_isFullPath hfull state, ?_⟩)))
    simp [readDisk, evaluate, hstat, Except.mapError]
  change EStateM.tryCatch _ _ state = _
  rw [EStateM.tryCatch, hthrow]
  rcases hcode with rfl | rfl
  · rfl
  · rfl

/-- Assumes: a lawful file system. Folders that are there are not created. -/
theorem createDirs_append (hlawful : system.Lawful content) {parts : List Component}
    (rest : List Component) :
    ∀ {currentPath : Str} {above : List Component}, IsFullPath (currentPath ++ ['/']) →
      resolve currentPath = some above → (∀ part ∈ parts, '/' ∉ part) →
        PassesFolders (content state.disk) above parts →
          PgFs.createDirs system currentPath (parts ++ rest) state =
            PgFs.createDirs system (currentPath ++ joinNames parts) rest state := by
  induction parts with
  | nil =>
    intro currentPath above _ _ _ _
    rw [joinNames, List.map_nil, List.flatten_nil, List.append_nil]
    rfl
  | cons part parts ih =>
    rintro currentPath above hfull habove hslash ⟨next, hstep, hnext, hpasses⟩
    have hpart : '/' ∉ part := hslash part List.mem_cons_self
    have hsub : IsFullPath (currentPath ++ '/' :: part) := by
      rw [← List.singleton_append, ← List.append_assoc]
      exact isFullPath_append hfull part
    have hplace : resolve (currentPath ++ '/' :: part) = some next := by
      rw [resolve_append_slash_name currentPath hpart, habove, Option.bind_some, hstep]
    have hfound := @itemExists_of_found _ system content state hlawful _ _ _ hsub hplace hnext
    have hrest := ih (isFullPath_append hsub ['/']) hplace
      (fun other hother ↦ hslash other (List.mem_cons_of_mem _ hother)) hpasses
    rw [joinNames_cons, ← List.append_assoc, ← hrest]
    change EStateM.bind (PgFs.itemExists system (currentPath ++ '/' :: part)) _ state = _
    rw [EStateM.bind, hfound]
    rfl

/-- A disk on which a folder is there. -/
def addFolder (content : Content) (place : List Component) : Content :=
  Function.update content place (some .folder)

/-- Assumes: a lawful file system. A folder in a folder that is there is created if it is not there. -/
theorem createDirs_singleton (hlawful : system.Lawful content) {currentPath : Str}
    {place : List Component} {dir : Component} (hfull : IsFullPath (currentPath ++ ['/']))
    (hplace : resolve currentPath = some place) (hfolder : content state.disk place = some .folder)
    (hdir : IsComponent dir)
    (hkind : ∀ data, content state.disk (place ++ [dir]) ≠ some (.file data)) :
    ∃ disk, PgFs.createDirs system currentPath [dir] state = .ok () { state with disk } ∧
      content disk = addFolder (content state.disk) (place ++ [dir]) := by
  have hsub : IsFullPath (currentPath ++ '/' :: dir) := by
    rw [← List.singleton_append, ← List.append_assoc]
    exact isFullPath_append hfull dir
  have hdirPlace : resolve (currentPath ++ '/' :: dir) = some (place ++ [dir]) := by
    rw [resolve_append_slash_name currentPath hdir.2.2.2, hplace, Option.bind_some,
      resolveStep_of_isComponent hdir]
  cases hnode : content state.disk (place ++ [dir]) with
  | some node =>
    have hnodeFolder : node = .folder := by
      cases node with
      | folder => rfl
      | file data => exact absurd hnode (hkind data)
    have hfound := @itemExists_of_found _ system content state hlawful _ _ _ hsub hdirPlace hnode
    refine ⟨state.disk, bind_eq_ok.mpr ⟨true, state, hfound, rfl⟩, ?_⟩
    rw [addFolder, ← hnodeFolder, ← hnode, Function.update_eq_self]
  | none =>
    have hmissing := @itemExists_of_missing _ system content state hlawful _ _ hsub hdirPlace hnode
    have hin : (content state.disk).InFolder (place ++ [dir]) := by
      refine ⟨by simp, ?_⟩
      rwa [List.dropLast_concat]
    obtain ⟨disk, hmkdir⟩ := hlawful.mkdir_succeeds hdirPlace hin hnode
    refine ⟨disk, bind_eq_ok.mpr ⟨false, state, hmissing, ?_⟩,
      (hlawful.mkdir_effect hdirPlace hmkdir).2⟩
    have hcreate : onDisk (fun disk ↦ system.mkdir disk (currentPath ++ '/' :: dir)) state =
        .ok () { state with disk } := onDisk_eq_ok.mpr ⟨disk, hmkdir, rfl⟩
    exact bind_eq_ok.mpr ⟨(), { state with disk }, hcreate, rfl⟩

/-- A disk on which a file is there in a hidden folder. -/
def addHidden (content : Content) (place : List Component) (dir file : Component)
    (data : List Char) : Content :=
  Function.update (addFolder content (place ++ [dir])) (place ++ [dir, file]) (some (.file data))

/-- The fold of `getParentPathFromPath` joins the names that are not empty. -/
theorem foldl_itemName (names : List Component) (path : Str) :
    names.foldl (fun parentPath itemName ↦
        if itemName = [] then parentPath else parentPath ++ '/' :: itemName) path =
      path ++ joinNames (names.filter fun part ↦ part ≠ []) := by
  induction names generalizing path with
  | nil => exact (List.append_nil path).symm
  | cons name rest ih =>
    rw [List.foldl_cons, ih]
    by_cases hname : name = []
    · rw [if_pos hname, List.filter_cons_of_neg (by simpa using hname)]
    · rw [if_neg hname, List.filter_cons_of_pos (by simpa using hname), joinNames_cons,
        List.append_assoc]

/-- The parent path of a file in a hidden folder. -/
theorem getParentPathFromPath_hidden {front : Str} {dir file : Component}
    (hfull : IsFullPath (front ++ ['/'])) (hdir : IsComponent dir) (hfile : IsComponent file)
    (hdot : '.' ∈ file) :
    getParentPathFromPath (front ++ '/' :: dir ++ '/' :: file) =
      joinNames (pathParts front ++ [dir]) ++ ['/'] := by
  obtain ⟨parts, hparts⟩ : ∃ parts, front.splitOn '/' = [] :: parts := by
    cases front with
    | nil => exact ⟨[], rfl⟩
    | cons first rest =>
      obtain ⟨tail, htail⟩ := hfull
      obtain rfl : '/' = first := (List.cons.inj htail).1
      exact ⟨rest.splitOn '/', List.splitOn_append_cons_self [] rest⟩
  have hsplit : (front ++ '/' :: dir ++ '/' :: file).splitOn '/' =
      [] :: (parts ++ [dir]) ++ [file] := by
    rw [List.splitOn_append_cons_self, List.splitOn_append_cons_self,
      List.splitOn_eq_singleton hdir.2.2.2, List.splitOn_eq_singleton hfile.2.2.2, hparts]
    rfl
  have htype : getItemTypeFromPath (front ++ '/' :: dir ++ '/' :: file) = .file := by
    have happend := @getItemTypeFromPath_append (front ++ '/' :: dir ++ ['/']) file
      List.getLast?_concat hfile
    rw [List.append_assoc, List.singleton_append] at happend
    rw [happend, getItemTypeFromName, if_pos hdot]
  have hothers : (([] :: (parts ++ [dir]) ++ [file]).eraseIdx
      (([] :: (parts ++ [dir]) ++ [file]).length - 1)) = [] :: (parts ++ [dir]) := by
    rw [List.eraseIdx_length_sub_one, List.dropLast_concat]
  have hfilter : (parts ++ [dir]).filter (fun part ↦ part ≠ []) = pathParts front ++ [dir] := by
    rw [List.filter_append, pathParts, hparts]
    simp [hdir.1]
  unfold getParentPathFromPath
  rw [htype, hsplit]
  dsimp only
  rw [hothers]
  dsimp only
  rw [foldl_itemName, hfilter, List.nil_append, joinNames_concat]
  have hne : joinNames (pathParts front) ++ '/' :: dir ≠ [] := by simp
  have hlast : (joinNames (pathParts front) ++ '/' :: dir).getLast? ≠ some '/' := by
    have := getLast?_append_ne hdir (joinNames (pathParts front) ++ ['/'])
    rwa [List.append_assoc, List.singleton_append] at this
  rw [appendSlash, if_neg hne, if_neg hlast]

/-- Assumes: a lawful file system. Writing a file in a hidden folder, of a folder that is there,
succeeds if neither is an entry of the other kind. -/
theorem writeFile_hidden (hlawful : system.Lawful content) {front : Str} {place : List Component}
    {dir file : Component} (hfull : IsFullPath (front ++ ['/']))
    (hfront : FolderPath (content state.disk) front) (hplace : resolve front = some place)
    (hdir : IsComponent dir) (hfile : IsComponent file) (hdot : '.' ∈ file)
    (hdirKind : ∀ data, content state.disk (place ++ [dir]) ≠ some (.file data))
    (hfileKind : content state.disk (place ++ [dir, file]) ≠ some .folder) (data : Str) :
    ∃ disk, PgFs.writeFile system (front ++ '/' :: dir ++ '/' :: file) data true state =
        .ok () { state with disk } ∧
      content disk = addHidden (content state.disk) place dir file data := by
  let fullPath : Str := front ++ '/' :: dir ++ '/' :: file
  let parent : Str := joinNames (pathParts front ++ [dir]) ++ ['/']
  have hslash := notMem_of_mem_pathParts front
  have hfolder : content state.disk place = some .folder := by
    obtain ⟨place', hplace', hfolder⟩ := hfront.exists_place hlawful
    rwa [Option.some.inj (hplace.symm.trans hplace')]
  have hpartsPlace : resolve (joinNames (pathParts front)) = some place := by
    rw [resolve_joinNames hslash, ← resolve_eq_foldlM, hplace]
  have hfullPath : IsFullPath fullPath := by
    have hprefix : (front ++ ['/']) <+: fullPath := ⟨dir ++ '/' :: file, by simp [fullPath]⟩
    exact hfull.trans hprefix
  have hjoined : IsFullPath (joinNames (pathParts front) ++ ['/']) := by
    cases hparts : pathParts front with
    | nil => exact ⟨[], rfl⟩
    | cons first rest => exact ⟨first ++ joinNames rest ++ ['/'], by simp [joinNames, rootDirPath]⟩
  have hparentFull : IsFullPath parent := by
    have hprefix : (joinNames (pathParts front) ++ ['/']) <+: parent :=
      ⟨dir ++ ['/'], by simp [parent, joinNames]⟩
    exact hjoined.trans hprefix
  have hfolders : ((parent.splitOn '/').dropLast.drop 1) = pathParts front ++ [dir] := by
    have hnames : ∀ name ∈ pathParts front ++ [dir], '/' ∉ name := by
      intro name hname
      rcases List.mem_append.mp hname with hname | hname
      · exact hslash name hname
      · exact List.mem_singleton.mp hname ▸ hdir.2.2.2
    rw [List.splitOn_append_cons_self, splitOn_joinNames hnames, List.splitOn_nil,
      List.dropLast_concat, List.drop_one, List.tail_cons]
  obtain ⟨created, hcreate, hadded⟩ := createDirs_singleton hlawful hjoined hpartsPlace hfolder hdir
    hdirKind
  have hcreateDir : PgFs.createDir system parent true state = .ok () { state with disk := created } := by
    refine bind_eq_ok.mpr ⟨parent, state, convertToFullPath_of_isFullPath hparentFull state, ?_⟩
    have hroot : resolve [] = some [] := rfl
    have hslashPath : IsFullPath ([] ++ ['/']) := ⟨[], rfl⟩
    have happend := @createDirs_append _ system content state hlawful _ [dir] [] [] hslashPath hroot
      hslash hfront
    rw [if_pos rfl, hfolders, happend]
    exact hcreate
  have hfilePlace : resolve fullPath = some (place ++ [dir, file]) := by
    rw [resolve_append_slash_name _ hfile.2.2.2, resolve_append_slash_name _ hdir.2.2.2, hplace,
      Option.bind_some, resolveStep_of_isComponent hdir, Option.bind_some,
      resolveStep_of_isComponent hfile, List.append_assoc]
    rfl
  have hne : place ++ [dir, file] ≠ place ++ [dir] := by simp
  have hin : (content created).InFolder (place ++ [dir, file]) := by
    refine ⟨by simp, ?_⟩
    have hdrop : (place ++ [dir, file]).dropLast = place ++ [dir] := by
      rw [← List.singleton_append (l := [file]), ← List.append_assoc, List.dropLast_concat]
    rw [hdrop, hadded, addFolder, Function.update_self]
  have hkind : content created (place ++ [dir, file]) ≠ some .folder := by
    rwa [hadded, addFolder, Function.update_of_ne hne]
  obtain ⟨written, hwrite⟩ := hlawful.writeFile_succeeds data hfilePlace hin hkind
  refine ⟨written, ?_, ?_⟩
  · refine bind_eq_ok.mpr ⟨fullPath, state, convertToFullPath_of_isFullPath hfullPath state, ?_⟩
    refine bind_eq_ok.mpr ⟨(), { state with disk := created }, ?_, ?_⟩
    · rw [getParentPathFromPath_hidden hfull hdir hfile hdot]
      exact hcreateDir
    · exact onDisk_eq_ok.mpr ⟨written, hwrite, rfl⟩
  · rw [(hlawful.writeFile_effect hfilePlace hwrite).2, hadded]
    rfl

end Writing

/-! ### Frames -/

/-- No entry of another kind is in the place of a hidden folder or of the file in it. -/
structure HiddenFree (content : Content) (place : List Component) (dir file : Component) : Prop where
  dirKind : ∀ data, content (place ++ [dir]) ≠ some (.file data)
  fileKind : content (place ++ [dir, file]) ≠ some .folder

section Frames

variable {before : Content} {place : List Component} {dir file : Component} {data : List Char}

/-- More folders, more paths of folders. -/
theorem PassesFolders.mono {after : Content}
    (hfolders : ∀ other, before other = some .folder → after other = some .folder)
    {parts : List Component} :
    ∀ {above : List Component}, PassesFolders before above parts → PassesFolders after above parts := by
  induction parts with
  | nil => exact fun _ ↦ trivial
  | cons part rest ih =>
    rintro above ⟨next, hstep, hnext, hrest⟩
    exact ⟨next, hstep, hfolders next hnext, ih hrest⟩

theorem addHidden_file_self :
    addHidden before place dir file data (place ++ [dir, file]) = some (.file data) :=
  Function.update_self _ _ _

theorem addHidden_of_ne {other : List Component} (hdir : other ≠ place ++ [dir])
    (hfile : other ≠ place ++ [dir, file]) :
    addHidden before place dir file data other = before other := by
  rw [addHidden, Function.update_of_ne hfile, addFolder, Function.update_of_ne hdir]

/-- A hidden file that is written takes no folder away. -/
theorem addHidden_folder (hfree : HiddenFree before place dir file) {other : List Component}
    (hfolder : before other = some .folder) :
    addHidden before place dir file data other = some .folder := by
  have hne : other ≠ place ++ [dir, file] := by
    rintro rfl
    exact hfree.fileKind hfolder
  rw [addHidden, Function.update_of_ne hne, addFolder]
  by_cases hdir : other = place ++ [dir]
  · rw [hdir, Function.update_self]
  · rw [Function.update_of_ne hdir, hfolder]

/-- A path of folders stays one when a hidden file is written. -/
theorem FolderPath.addHidden (hfree : HiddenFree before place dir file) {path : Str}
    (hpath : FolderPath before path) :
    FolderPath (addHidden before place dir file data) path :=
  PassesFolders.mono (fun _ ↦ addHidden_folder hfree) hpath

/-- Places that end with different names differ. -/
theorem concat_ne {above other : List Component} {first second : Component}
    (hne : first ≠ second) : above ++ [first] ≠ other ++ [second] := by
  intro heq
  have hlast := congrArg List.getLast? heq
  rw [List.getLast?_concat, List.getLast?_concat] at hlast
  exact hne (Option.some.inj hlast)

/-- A hidden file that is written is not in the way of another one, if neither is named as the
folder of the other. -/
theorem HiddenFree.addHidden {otherPlace : List Component} {otherDir otherFile : Component}
    (hfree : HiddenFree before otherPlace otherDir otherFile) (hdir : otherDir ≠ file)
    (hfile : otherFile ≠ dir) :
    HiddenFree (addHidden before place dir file data) otherPlace otherDir otherFile := by
  have hfileSplit : place ++ [dir, file] = (place ++ [dir]) ++ [file] := by simp
  have hotherSplit : otherPlace ++ [otherDir, otherFile] =
      (otherPlace ++ [otherDir]) ++ [otherFile] := by simp
  constructor
  · intro text
    have hne : otherPlace ++ [otherDir] ≠ place ++ [dir, file] := by
      rw [hfileSplit]
      exact concat_ne hdir
    rw [Explorer.addHidden, Function.update_of_ne hne, addFolder]
    by_cases hsame : otherPlace ++ [otherDir] = place ++ [dir]
    · rw [hsame, Function.update_self]
      exact fun heq ↦ by cases heq
    · rw [Function.update_of_ne hsame]
      exact hfree.dirKind text
  · have hne : otherPlace ++ [otherDir, otherFile] ≠ place ++ [dir] := by
      rw [hotherSplit]
      exact concat_ne hfile
    rw [Explorer.addHidden]
    by_cases hsame : otherPlace ++ [otherDir, otherFile] = place ++ [dir, file]
    · rw [hsame, Function.update_self]
      exact fun heq ↦ by cases heq
    · rw [Function.update_of_ne hsame, addFolder, Function.update_of_ne hne]
      exact hfree.fileKind

end Frames

end Playground.Explorer
