import Fairy.Workspace.Models

namespace Fairy.Workspace

open Fairy.Lib

section Mutations

namespace WorkspaceFileMutation

def affectedPaths (m : WorkspaceFileMutation) : List WorkspacePath :=
  match m.destinationPath with
  | none => [m.path]
  | some destination => [m.path, destination]

section Checks

variable (sha256 : Bytes → String)

def requireHash (path : String) (current : Option Bytes) (expected : Option String) :
    Except WorkspaceError Unit :=
  match current with
  | none => .error (.fileNotFound path)
  | some content =>
    if expected ≠ some (sha256 content) then
      .error (.valueError ("Workspace file hash conflict: " ++ path))
    else .ok ()

/-- `validate_current`. -/
def validateCurrent (m : WorkspaceFileMutation) (current : Option Bytes)
    (destinationExists : Bool) : Except WorkspaceError Unit :=
  match m.operation with
  | .create => if current ≠ none then .error (.fileExists m.path.text) else .ok ()
  | .upsert =>
    if m.expectedHash ≠ none then requireHash sha256 m.path.text current m.expectedHash
    else .ok ()
  | operation =>
    match requireHash sha256 m.path.text current m.expectedHash with
    | .error error => .error error
    | .ok () =>
      if operation = .rename ∧ destinationExists then
        .error (.fileExists ((m.destinationPath.map (·.text)).getD "None"))
      else .ok ()

/-- The hash check of `validate_mutation`. -/
def matchHash (path : String) (current : Option Bytes) (expected : Option String) :
    Except WorkspaceError Unit :=
  match current, expected with
  | none, _ => .error (.changesetJournal ("file does not exist: " ++ path))
  | some _, none => .error (.changesetJournal "expected hash is missing")
  | some content, some expected =>
    if sha256 content ≠ expected then .error (.changesetJournal ("file hash conflict: " ++ path))
    else .ok ()

/-- `validate_mutation` of the local worker, which asks nothing of an upsert. -/
def validateMutation (m : WorkspaceFileMutation) (current : Option Bytes)
    (occupied : WorkspacePath → Bool) : Except WorkspaceError Unit :=
  match m.operation with
  | .create =>
    if current ≠ none then .error (.changesetJournal ("file already exists: " ++ m.path.text))
    else .ok ()
  | .upsert => .ok ()
  | .update | .delete => matchHash sha256 m.path.text current m.expectedHash
  | .rename =>
    match matchHash sha256 m.path.text current m.expectedHash, m.destinationPath with
    | .error error, _ => .error error
    | .ok (), none => .error (.changesetJournal "rename destination is missing")
    | .ok (), some destination =>
      if occupied destination then
        .error (.changesetJournal ("rename destination exists: " ++ destination.text))
      else .ok ()

/-- `PathGuard.validate_write` of a normalized path in a tree without links. -/
def validateWrite (path : WorkspacePath) : Except WorkspaceError Unit :=
  if ∃ part ∈ path.parts, '\x00' ∈ part.toList then .error (.scopeViolation "path contains NUL")
  else .ok ()

/-- What `apply_changeset` checks of a mutation before the first one runs. -/
def check (m : WorkspaceFileMutation) (t : Tree) : Provisioner → Except WorkspaceError Unit
  | .filesystem =>
    match validateWrite m.path, (m.destinationPath.map validateWrite).getD (.ok ()) with
    | .error error, _ => .error error
    | .ok (), .error error => .error error
    | .ok (), .ok () => m.validateCurrent sha256 (t.files m.path.parts)
        (m.destinationPath.any fun destination => t.node destination.parts ≠ none)
  | .localWorker =>
    m.validateMutation sha256 (t.files m.path.parts) fun path => t.node path.parts ≠ none

end Checks

/-- The directories above a path are made, those that exist being kept. -/
def makeParents (path : WorkspacePath) : List (FileCall String Bytes) :=
  (FileTree.ancestors path.parts).map .ensureDirectory

/-- The calls of a write. A plain upsert of the provisioner goes through `write_text`,
which decodes its content first. -/
def writeCalls (m : WorkspaceFileMutation) : Provisioner → List (FileCall String Bytes)
  | .filesystem =>
    match m.content with
    | none => [.raise "AssertionError"]
    | some content =>
      if m.operation = .upsert ∧ m.expectedHash = none ∧ m.expectedWorkspaceRevision = none ∧
          ¬ (ByteArray.mk content.toArray).validateUTF8 then [.raise "UnicodeDecodeError"]
      else FileCall.write m.path.parts content
  | .localWorker =>
    match m.content with
    | none => [.raise "file content is missing"]
    | some content => FileCall.write m.path.parts content

/-- The calls by which `apply_changeset` performs a mutation. -/
def calls (m : WorkspaceFileMutation) (side : Provisioner) : List (FileCall String Bytes) :=
  match m.operation, side with
  | .upsert, _ | .create, _ | .update, _ => m.writeCalls side
  | .delete, .filesystem => [.discard m.path.parts]
  | .delete, .localWorker => [.unlink m.path.parts]
  | .rename, .filesystem =>
    match m.destinationPath with
    | none => [.raise "AssertionError"]
    | some destination =>
      .read m.path.parts :: makeParents destination ++
        [.copy m.path.parts destination.parts, .discard m.path.parts]
  | .rename, .localWorker =>
    match m.destinationPath with
    | none => [.raise "rename destination is missing"]
    | some destination =>
      makeParents destination ++
        [.copy m.path.parts destination.parts, .unlink m.path.parts]

end WorkspaceFileMutation

/-- What `apply_changeset` checks before it prepares the transaction. -/
def checkChangeset (sha256 : Bytes → String) (side : Provisioner) (t : Tree) :
    List WorkspaceFileMutation → Except WorkspaceError Unit
  | [] => .ok ()
  | m :: ms =>
    match m.check sha256 t side with
    | .error error => .error error
    | .ok () => checkChangeset sha256 side t ms

def changesetCalls (side : Provisioner) (ms : List WorkspaceFileMutation) :
    List (FileCall String Bytes) := ms.flatMap (·.calls side)

/-- The paths of a changeset, each once. -/
def changesetPaths (ms : List WorkspaceFileMutation) : List WorkspacePath :=
  (ms.flatMap (·.affectedPaths)).eraseDups

section Files

/-- The digests of two files of one letter. -/
def knownDigests (content : Bytes) : String :=
  if content = [120] then "2d711642b726b04401627ca9fbac32f5c8530fb1903cc4db02258717921a4881"
  else if content = [121] then "a1fce4363854ff888cff4b8e7875d600c2682390412a8cf79b37d0b11148b0fa"
  else ""

def treeOf (files : List (List String × Bytes)) : Tree :=
  files.foldl (fun t x =>
    match FileCall.runAll t (FileCall.write x.1 x.2) with
    | .ok t => t
    | .error _ => t) .empty

def pathA : WorkspacePath := ⟨["a"], by decide⟩

def pathB : WorkspacePath := ⟨["b"], by decide⟩

def pathC : WorkspacePath := ⟨["c"], by decide⟩

def renameTo (path destination : WorkspacePath) (content : Bytes) : WorkspaceFileMutation where
  operation := .rename
  path := path
  destinationPath := some destination
  content := none
  expectedHash := some (knownDigests content)
  expectedWorkspaceRevision := none

def upsertOf (path : WorkspacePath) (content : Bytes) (expectedHash : Option String) :
    WorkspaceFileMutation where
  operation := .upsert
  path := path
  destinationPath := none
  content := some content
  expectedHash := expectedHash
  expectedWorkspaceRevision := none

end Files

end Mutations

namespace TransactionDirectory

/-- The directory as it is made. -/
def fresh : TransactionDirectory := ⟨none, false, ∅⟩

/-- The backup of one path, and the journal entries with it. -/
def backUp (t : Tree) (path : WorkspacePath)
    (x : List JournalEntry × Finmap fun _ : Nat => Bytes) :
    Except WorkspaceError (List JournalEntry × Finmap fun _ : Nat => Bytes) :=
  match t.node path.parts with
  | none => .ok (x.1 ++ [⟨path, false⟩], x.2)
  | some .directory => .error (.os (.isADirectory path.parts))
  | some (.file content) => .ok (x.1 ++ [⟨path, true⟩], x.2.insert x.1.length content)

def backUpAll (t : Tree) : List WorkspacePath → List JournalEntry × (Finmap fun _ : Nat => Bytes) →
    Except WorkspaceError (List JournalEntry × Finmap fun _ : Nat => Bytes)
  | [], x => .ok x
  | path :: paths, x =>
    match backUp t path x with
    | .error error => .error error
    | .ok x => backUpAll t paths x

/-- The calls of `rollback` for the entry with an index. -/
def restore (backups : Finmap fun _ : Nat => Bytes) (entry : JournalEntry) (index : Nat) :
    List (FileCall String Bytes) :=
  if entry.existed then
    match backups.lookup index with
    | none => [.raise "changeset backup is missing"]
    | some content => FileCall.write entry.relativePath.parts content
  else [.discard entry.relativePath.parts]

/-- `rollback`. -/
def rollback (backups : Finmap fun _ : Nat => Bytes) (entries : List JournalEntry) :
    List (FileCall String Bytes) :=
  entries.zipIdx.flatMap fun x => restore backups x.1 x.2

end TransactionDirectory

namespace VersionStore

open TransactionDirectory

/-- `recover`, whose cleanup removes the transaction. -/
def recover (v : VersionStore) : Except WorkspaceError VersionStore :=
  match v.transaction with
  | none => .ok v
  | some tx =>
    match tx.manifest with
    | none => .ok { v with transaction := none }
    | some entries =>
      if tx.applied then .ok { v with transaction := none }
      else match FileCall.runAll v.tree (rollback tx.backups entries) with
        | .error error => .error (.os error)
        | .ok tree => .ok ⟨tree, none⟩

/-- `apply_changeset`, when nothing interrupts it. -/
def applyChangeset (sha256 : Bytes → String) (side : Provisioner) (v : VersionStore)
    (ms : List WorkspaceFileMutation) : Except WorkspaceError VersionStore :=
  match v.recover with
  | .error error => .error error
  | .ok v =>
    match checkChangeset sha256 side v.tree ms, backUpAll v.tree (changesetPaths ms) ([], ∅) with
    | .error error, _ => .error error
    | .ok (), .error error => .error error
    | .ok (), .ok _ =>
      match FileCall.runAll v.tree (changesetCalls side ms) with
      | .error error => .error (.os error)
      | .ok tree => .ok ⟨tree, none⟩

end VersionStore

end Fairy.Workspace
