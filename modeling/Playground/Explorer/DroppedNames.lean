import Playground.Explorer.WorkspaceRuns

/-!
# Names that have been dropped

A switch to a workspace whose files cannot be loaded deletes it, and what is shown then is another
workspace or none: a name that is not listed any more and is not that of the current workspace (`Dropped`)
stays so, whatever else is deleted (`keeps_dropped_deleteWorkspaceWithin`). So the files of the workspace
that a switch has come to have been loaded from its folder (`folder_of_switchWorkspace`).
-/

set_option autoImplicit false
set_option relaxedAutoImplicit false

namespace Playground.Explorer

open Library

variable {F : Type} {system : FileSystem F} {json : Json} {content : F → Content} {name : Str}

/-- The name is not listed, and is not that of the current workspace. -/
structure Dropped (name : Str) (state : State F) : Prop where
  unlisted : name ∉ state.workspaces.allNames
  other : state.workspaces.currentName ≠ some name

theorem blind_dropped : Blind (Dropped (F := F) name) :=
  fun _ _ hdropped ↦ ⟨hdropped.unlisted, hdropped.other⟩

theorem blindToItems_dropped : BlindToItems (Dropped (F := F) name) :=
  fun _ _ _ hdropped ↦ ⟨hdropped.unlisted, hdropped.other⟩

/-- A workspace that is entered is listed. -/
theorem keeps_dropped_enterWorkspace (entered : Str) :
    Keeps (Dropped name) (enterWorkspace system json entered) := by
  refine Keeps.bind blind_dropped.saveMeta fun _ ↦ Keeps.bind ?_ fun _ ↦ blind_dropped.saveWorkspaces
  intro state hdropped
  show Dropped name { state with workspaces := state.workspaces.setCurrentName entered }
  by_cases hlisted : entered ∈ state.workspaces.allNames
  · rw [setCurrentName_of_mem hlisted]
    exact ⟨hdropped.unlisted, fun heq ↦ hdropped.unlisted (Option.some.inj heq ▸ hlisted)⟩
  · rw [Workspaces.setCurrentName, if_neg hlisted]
    exact hdropped

/-- The part of a switch after a workspace has been entered. -/
theorem keeps_dropped_showWorkspace {deleteWorkspace : Action F Unit}
    (hdelete : Keeps (Dropped name) deleteWorkspace) (entered : Str) (defaultOpenFile : Option Str) :
    Keeps (Dropped name) (do
      initCurrentWorkspaceWith system json deleteWorkspace
      openDefaultFile system json defaultOpenFile
      modify fun state ↦ { state with initializedWorkspaceName := some entered }) := by
  refine Keeps.bind (Keeps.get_bind fun state ↦ Keeps.bind (keeps_throwIf _ _) fun _ ↦ Keeps.bind ?_
    fun _ ↦ Keeps.bind (Keeps.tryCatch blindToItems_dropped.blindToExplorer.loadFiles fun _ ↦ hdelete)
      fun _ ↦ Keeps.get_bind fun state ↦ Keeps.ite (fun _ ↦ Keeps.pure ()) fun _ ↦
        blindToItems_dropped.blindToExplorer.loadMeta) fun _ ↦
    Keeps.bind (blindToItems_dropped.openDefaultFile blind_dropped.saveMeta _) fun _ ↦ ?_
  · exact fun state hdropped ↦ blindToItems_dropped state _ state.opened hdropped
  · exact fun state hdropped ↦ ⟨hdropped.unlisted, hdropped.other⟩

/-- Deleting workspaces brings no name back. -/
theorem keeps_dropped_deleteWorkspaceWithin (bound : ℕ) :
    Keeps (Dropped name) (deleteWorkspaceWithin system json bound) := by
  induction bound with
  | zero => exact Keeps.throw _
  | succ bound ih =>
    refine Keeps.get_bind fun state ↦ Keeps.bind (keeps_throwIf _ _) fun _ ↦
      Keeps.bind (keeps_evaluate _) fun root ↦
        Keeps.bind (blindToItems_dropped.deleteItem blind_dropped root) fun _ ↦
          Keeps.get_bind fun state ↦ Keeps.bind ?_ fun _ ↦ ?_
    · rintro state ⟨hunlisted, hother⟩
      exact ⟨fun hlisted ↦ hunlisted (List.mem_of_mem_filter hlisted), hother⟩
    · split
      · exact Keeps.bind (keeps_dropped_enterWorkspace _) fun _ ↦ keeps_dropped_showWorkspace ih _ none
      · refine Keeps.bind ?_ fun _ ↦ blind_dropped.saveWorkspaces
        exact fun state _ ↦ ⟨List.not_mem_nil, Option.some_ne_none name ∘ Eq.symm⟩

/-- Deleting the current workspace drops its name. -/
theorem dropped_of_deleteWorkspace {before after : State F} (hbefore : Knows before.workspaces before)
    (hcurrent : before.workspaces.currentName = some name)
    (hdelete : deleteWorkspace system json before = .ok () after) : Dropped name after := by
  rw [deleteWorkspace, get_bind_apply] at hdelete
  obtain ⟨removed, hremove, hnext⟩ := deleteWorkspaceWithin_returns hdelete
  obtain ⟨other, hother, hremoved⟩ := knows_deleteCurrent hbefore hremove
  obtain rfl : name = other := Option.some.inj (hcurrent.symm.trans hother)
  have hunlisted : name ∉ removed.workspaces.allNames := by
    rw [hremoved.workspaces_eq]
    exact fun hlisted ↦ of_decide_eq_true (List.mem_filter.mp hlisted).2 rfl
  cases hlast : removed.workspaces.allNames.getLast? with
  | none =>
    rw [hlast] at hnext
    exact Triple.of_ok blind_dropped.saveWorkspaces
      ⟨List.not_mem_nil, Option.some_ne_none name ∘ Eq.symm⟩ hnext
  | some lastWorkspace =>
    rw [hlast] at hnext
    have hlisted : lastWorkspace ∈ removed.workspaces.allNames := List.mem_of_getLast? hlast
    -- the name that is entered is another one
    obtain ⟨_, entered, henter, hrest⟩ := bind_eq_ok.mp hnext
    obtain ⟨_, saved, hsave, henter⟩ := bind_eq_ok.mp henter
    have hsaved : Knows removed.workspaces saved := by
      refine Triple.of_ok blind_knows.saveMeta ?_ hsave
      exact ⟨hremoved.persistent, hremoved.known, rfl⟩
    obtain ⟨_, set, hset, hstore⟩ := bind_eq_ok.mp henter
    obtain ⟨workspaces, hworkspaces, rfl⟩ := changeWorkspaces_eq_ok.mp hset
    obtain rfl := Except.ok.inj hworkspaces
    have hentered : Dropped name entered := by
      refine Triple.of_ok blind_dropped.saveWorkspaces ?_ hstore
      rw [hsaved.workspaces_eq, setCurrentName_of_mem hlisted]
      exact ⟨hunlisted, fun heq ↦ hunlisted (Option.some.inj heq ▸ hlisted)⟩
    exact Triple.of_ok
      (keeps_dropped_showWorkspace (keeps_dropped_deleteWorkspaceWithin _) lastWorkspace none) hentered hrest

/-- Assumes: a lawful file system whose calls fail above the root. A switch that has come to the workspace
that it has entered has found its folder. -/
theorem folder_of_switchWorkspace (hlawful : system.Lawful content) (henclosed : system.Enclosed)
    {before entered after : State F} (hentered : Knows entered.workspaces entered)
    (hcurrent : entered.workspaces.currentName = some name)
    (henter : enterWorkspace system json name before = .ok () entered)
    (hswitch : switchWorkspace system json name none before = .ok () after)
    (hafter : after.workspaces.currentName = some name) :
    ∃ place, resolve (workspacePath name) = some place ∧ content entered.disk place = some .folder := by
  obtain ⟨_, entered', henter', hrest⟩ := bind_eq_ok.mp hswitch
  obtain rfl : entered = entered' := by
    have hsame := henter.symm.trans henter'
    injection hsame
  obtain ⟨_, ready, hinit, hrest⟩ := bind_eq_ok.mp hrest
  obtain ⟨_, opened, hopen, hrest⟩ := bind_eq_ok.mp hrest
  obtain rfl := modify_eq_ok.mp hrest
  obtain ⟨loaded, hloaded, hready⟩ := initCurrentWorkspaceWith_returns hinit
  have hemptied : Knows entered.workspaces entered.emptied :=
    blindToItems_knows entered _ entered.opened hentered
  rcases hloaded with hload | ⟨error, failed, hload, hdelete⟩
  · have hname : entered.emptied.currentWorkspaceName = some name := by
      rw [State.currentWorkspaceName, if_pos hemptied.known]
      exact hcurrent
    exact (rooted_of_loadFiles hlawful henclosed hname hload).2
  · -- the workspace has been deleted, so that it is not the current one
    have hfailed : Knows entered.workspaces failed :=
      Triple.of_error blindToItems_knows.blindToExplorer.loadFiles hemptied hload
    have hdropped : Dropped name loaded := by
      refine dropped_of_deleteWorkspace ?_ ?_ hdelete
      · exact ⟨hfailed.persistent, hfailed.known, rfl⟩
      · rw [hfailed.workspaces_eq]
        exact hcurrent
    have hkept : Dropped name ready := by
      rcases hready with rfl | hmeta
      · exact hdropped
      · exact Triple.of_ok blindToItems_dropped.blindToExplorer.loadMeta hdropped hmeta
    have hlast : Dropped name opened :=
      Triple.of_ok (blindToItems_dropped.openDefaultFile blind_dropped.saveMeta _) hkept hopen
    exact absurd hafter hlast.other

end Playground.Explorer
