import Clemvion.Common.ReferenceInScope
import Clemvion.Library.Loop
import Clemvion.Library.QueueSearch

/-!
# FoldersService — the folders of the workspaces

The table of folders, and the requests that create, change and remove them.  Ids are uuids, so none of
them is the empty string; `none` stands for the `null` of a root.
-/

namespace Clemvion.Folders

open Common Library

/-! ## 1. The table -/

def maxNestingDepth : Nat := 5

structure Folder (uuid : Type) where
  id : uuid
  workspaceId : uuid
  name : String
  parentId : Option uuid
  sortOrder : Int
  deriving DecidableEq, Repr

variable {uuid : Type} [DecidableEq uuid]

def findOne (rows : List (Folder uuid)) (id workspaceId : uuid) : Option (Folder uuid) :=
  rows.find? fun folder => folder.id = id ∧ folder.workspaceId = workspaceId

def findById (rows : List (Folder uuid)) (id workspaceId : uuid) :
    Except ServiceException (Folder uuid) :=
  match findOne rows id workspaceId with
  | none => .error (.notFound "RESOURCE_NOT_FOUND" "Folder not found")
  | some folder => .ok folder

/-- `UNIQUE (workspace_id, parent_id, name)`, under which roots are never equal. -/
def nameTaken (rows : List (Folder uuid)) (folder : Folder uuid) : Bool :=
  rows.any fun other => other.id ≠ folder.id ∧ other.workspaceId = folder.workspaceId ∧
    other.parentId = folder.parentId ∧ folder.parentId ≠ none ∧ other.name = folder.name

/-- The foreign key of `(parent_id, workspace_id)`. -/
def parentMissing (rows : List (Folder uuid)) (folder : Folder uuid) : Bool :=
  match folder.parentId with
  | none => false
  | some parentId => (findOne rows parentId folder.workspaceId).isNone

def replaceRow (rows : List (Folder uuid)) (folder : Folder uuid) : List (Folder uuid) :=
  rows.map fun other => if other.id = folder.id then folder else other

def insertFolder (rows : List (Folder uuid)) (folder : Folder uuid) :
    Except ServiceException (List (Folder uuid)) :=
  if folder.id ∈ rows.map Folder.id then .error (.queryFailed "folder_pkey")
  else if nameTaken rows folder then .error (.queryFailed "folder_workspace_id_parent_id_name_key")
  else if parentMissing rows folder then .error (.queryFailed "fk_folder_parent_id")
  else .ok (rows ++ [folder])

def saveFolder (rows : List (Folder uuid)) (folder : Folder uuid) :
    Except ServiceException (List (Folder uuid)) :=
  if nameTaken rows folder then .error (.queryFailed "folder_workspace_id_parent_id_name_key")
  else if parentMissing rows folder then .error (.queryFailed "fk_folder_parent_id")
  else .ok (replaceRow rows folder)

def childIds (rows : List (Folder uuid)) (parentId : uuid) : List uuid :=
  (rows.filter fun folder => folder.parentId = some parentId).map Folder.id

/-- `ON DELETE CASCADE`: the row goes, and with every row those that point to it. -/
def deleteCascade (rows : List (Folder uuid)) (id : uuid) : List (Folder uuid) :=
  let gone := collect (childIds rows) (rows.filterMap Folder.parentId).dedup [id]
  rows.filter fun folder => folder.id ∉ gone

/-! ## 2. Depth and subtree -/

structure DepthState (uuid : Type) where
  currentId : Option uuid
  visited : List uuid
  depth : Nat

def depthStep (rows : List (Folder uuid)) (workspaceId : uuid) (s : DepthState uuid) :
    DepthState uuid × Option Nat :=
  match s.currentId with
  | none => (s, some s.depth)
  | some currentId =>
    if currentId ∈ s.visited ∨ s.depth > maxNestingDepth + 1 then (s, some s.depth)
    else
      ({ currentId := (findOne rows currentId workspaceId).bind Folder.parentId
         visited := currentId :: s.visited
         depth := s.depth + 1 }, none)

/-- The loop ends within `maxNestingDepth + 3` passes, whatever the rows are. -/
def getDepth (rows : List (Folder uuid)) (folderId workspaceId : uuid) : Nat :=
  (runLoop (depthStep rows workspaceId) (maxNestingDepth + 3) ⟨some folderId, [], 0⟩).2.getD 0

structure Subtree (uuid : Type) where
  ids : List uuid
  frontier : List uuid
  height : Nat

/-- The body of the loop over the children: `(ids, next)`. -/
def addChild (rootId : uuid) (acc : List uuid × List uuid) (child : Folder uuid) :
    List uuid × List uuid :=
  if child.id ≠ rootId ∧ child.id ∉ acc.1 then (acc.1 ++ [child.id], acc.2 ++ [child.id]) else acc

def subtreeStep (rows : List (Folder uuid)) (rootId workspaceId : uuid) (s : Subtree uuid) :
    Subtree uuid :=
  let children := rows.filter fun folder =>
    folder.workspaceId = workspaceId ∧ ∃ parentId ∈ s.frontier, folder.parentId = some parentId
  let found := children.foldl (addChild rootId) (s.ids, [])
  { ids := found.1, frontier := found.2, height := s.height + 1 }

def subtreeOpen (s : Subtree uuid) : Bool := !s.frontier.isEmpty && s.height ≤ maxNestingDepth

/-- Level by level; the bound on the height leaves `maxNestingDepth + 1` passes. -/
def collectSubtree (rows : List (Folder uuid)) (rootId workspaceId : uuid) : Subtree uuid :=
  whileLoop subtreeOpen (subtreeStep rows rootId workspaceId) (maxNestingDepth + 1) ⟨[], [rootId], 0⟩

/-! ## 3. The requests -/

def assertParentInWorkspace (rows : List (Folder uuid)) (parentId workspaceId : uuid) :
    Except ServiceException Unit :=
  if (findOne rows parentId workspaceId).isSome then .ok ()
  else .error (throwInvalidReferences [⟨"parentId", "Parent folder not found in this workspace"⟩])

/-- `undefined` fields are not sent; a `parentId` of `null` is a root. -/
structure CreateFolderDto (uuid : Type) where
  name : String
  parentId : Option (Option uuid)
  sortOrder : Option Int

structure UpdateFolderDto (uuid : Type) where
  name : Option String
  parentId : Option (Option uuid)
  sortOrder : Option Int

def CreateFolderDto.folder (data : CreateFolderDto uuid) (id workspaceId : uuid) : Folder uuid :=
  { id, workspaceId, name := data.name, parentId := data.parentId.getD none
    sortOrder := data.sortOrder.getD 0 }

def create (rows : List (Folder uuid)) (newId workspaceId : uuid) (data : CreateFolderDto uuid) :
    Except ServiceException (List (Folder uuid)) := do
  match data.parentId with
  | some (some parentId) =>
    assertParentInWorkspace rows parentId workspaceId
    if getDepth rows parentId workspaceId ≥ maxNestingDepth then
      throw (validationError s!"Maximum folder nesting depth is {maxNestingDepth}")
  | _ => pure ()
  insertFolder rows (data.folder newId workspaceId)

def validateParentChange (rows : List (Folder uuid)) (id workspaceId : uuid) :
    Option uuid → Except ServiceException Unit
  | none => .ok ()
  | some newParentId => do
    if newParentId = id then throw (validationError "A folder cannot be its own parent")
    assertParentInWorkspace rows newParentId workspaceId
    let subtree := collectSubtree rows id workspaceId
    if newParentId ∈ subtree.ids then
      throw (validationError "A folder cannot be moved under its own descendant")
    let parentDepth := getDepth rows newParentId workspaceId
    if parentDepth + subtree.height > maxNestingDepth then
      throw (validationError s!"Maximum folder nesting depth is {maxNestingDepth}")

/-- `Object.assign(folder, omitUndefined(data))`. -/
def UpdateFolderDto.assign (data : UpdateFolderDto uuid) (folder : Folder uuid) : Folder uuid :=
  { folder with
    name := data.name.getD folder.name
    parentId := data.parentId.getD folder.parentId
    sortOrder := data.sortOrder.getD folder.sortOrder }

def update (rows : List (Folder uuid)) (id workspaceId : uuid) (data : UpdateFolderDto uuid) :
    Except ServiceException (List (Folder uuid)) := do
  let folder ← findById rows id workspaceId
  match data.parentId with
  | some parentId => if parentId ≠ folder.parentId then validateParentChange rows id workspaceId parentId
  | none => pure ()
  saveFolder rows (data.assign folder)

def remove (rows : List (Folder uuid)) (id workspaceId : uuid) :
    Except ServiceException (List (Folder uuid)) := do
  let folder ← findById rows id workspaceId
  pure (deleteCascade rows folder.id)

/-- The requests, and the removal of a workspace, which takes its folders along. -/
inductive FolderRequest (uuid : Type)
  | create (newId workspaceId : uuid) (data : CreateFolderDto uuid)
  | update (id workspaceId : uuid) (data : UpdateFolderDto uuid)
  | remove (id workspaceId : uuid)
  | removeWorkspace (workspaceId : uuid)

def handle (rows : List (Folder uuid)) : FolderRequest uuid → Except ServiceException (List (Folder uuid))
  | .create newId workspaceId data => create rows newId workspaceId data
  | .update id workspaceId data => update rows id workspaceId data
  | .remove id workspaceId => remove rows id workspaceId
  | .removeWorkspace workspaceId => .ok (rows.filter fun folder => folder.workspaceId ≠ workspaceId)

/-- The table after some requests; one that throws changes nothing. -/
def tableAfter (requests : List (FolderRequest uuid)) : List (Folder uuid) :=
  requests.foldl (fun rows request => (handle rows request).toOption.getD rows) []

end Clemvion.Folders
