import Fairy.Lib.Text
import Fairy.Lib.UndoJournal

namespace Fairy.Workspace

open Fairy.Lib

abbrev Bytes := List UInt8

/-- The files and directories of a version. -/
abbrev Tree := FileTree String Bytes

abbrev Files := List String → Option Bytes

inductive WorkspaceError
  | valueError (message : String)
  | scopeViolation (message : String)
  | fileExists (path : String)
  | fileNotFound (path : String)
  | os (error : FileError String)
  /-- `WorkerError::ChangesetJournal`. -/
  | changesetJournal (message : String)
  deriving DecidableEq

/-- The parts that `require_project_relative_path` accepts. -/
def Normalized (parts : List String) : Prop :=
  parts ≠ [] ∧ ∀ part ∈ parts, part ∉ ["", ".", ".."] ∧ '\\' ∉ part.toList ∧ ':' ∉ part.toList

instance : DecidablePred Normalized := fun _ => inferInstanceAs (Decidable (_ ∧ _))

/-- A normalized project-relative path, by its parts. -/
structure WorkspacePath where
  parts : List String
  normalized : Normalized parts
  deriving DecidableEq

def WorkspacePath.text (p : WorkspacePath) : String := "/".intercalate p.parts

def requireProjectRelativePath (value : String) : Except WorkspaceError WorkspacePath :=
  let parts := ((Text.strip value).toList.splitOn '/').map String.ofList
  if h : Normalized parts then .ok ⟨parts, h⟩
  else .error (.valueError "path must be a normalized project-relative path")

inductive FileMutationOperation
  | upsert | create | update | delete | rename
  deriving DecidableEq

structure WorkspaceFileMutation where
  operation : FileMutationOperation
  path : WorkspacePath
  destinationPath : Option WorkspacePath
  content : Option Bytes
  expectedHash : Option String
  expectedWorkspaceRevision : Option Nat
  deriving DecidableEq

/-- Who applies changesets: `FileSystemWorkspaceProvisioner` or the `WorkspaceManager` of
the local worker. -/
inductive Provisioner
  | filesystem | localWorker
  deriving DecidableEq

structure JournalEntry where
  relativePath : WorkspacePath
  existed : Bool
  deriving DecidableEq

/-- The directory of a transaction. What is staged in it nobody reads again. -/
structure TransactionDirectory where
  manifest : Option (List JournalEntry)
  applied : Bool
  backups : Finmap fun _ : Nat => Bytes

/-- What a version has on disk. -/
structure VersionStore where
  tree : Tree
  transaction : Option TransactionDirectory

end Fairy.Workspace
