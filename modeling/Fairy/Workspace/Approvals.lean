import Fairy.Lib.Dict
import Fairy.Workspace.Models
import Fairy.Workspace.FileTransaction

namespace Fairy.Workspace

open Fairy.Lib TransactionDirectory

section Index

open Fairy.Lib

/-- What the index says of a text: kind, language, imports, exports, symbols and summary. -/
inductive IndexedContent (S : Type)
  | oversized
  | binary
  | text (semantics : S)
  deriving DecidableEq

structure ProjectFile (S : Type) where
  byteLength : Nat
  contentHash : String
  content : IndexedContent S
  deriving DecidableEq

structure ProjectIndex (S : Type) where
  generation : Nat
  files : Dict (List String) (ProjectFile S)

def maxIndexedFiles : Nat := 20000

def maxSemanticBytes : Nat := 1000000

def ignoredDirectories : List String :=
  [".git", ".hg", ".idea", ".svn", ".venv", ".vscode", "__pycache__", "build", "dist",
    "node_modules", "target", "venv"]

def ignoredFiles : List String := [".git"]

def secretNames : List String :=
  ["credentials", "credentials.json", "id_dsa", "id_ecdsa", "id_ed25519", "id_rsa",
    "secrets.json"]

def secretSuffixes : List String := [".key", ".p12", ".pem", ".pfx"]

/-- `ProjectIndexer`, by what it takes from the libraries: the digest, `str.casefold` and
`_semantics`, which may raise. -/
structure ProjectIndexer (S : Type) where
  sha256 : Bytes → String
  casefold : String → String
  semantics : List String → Bytes → Option S

namespace ProjectIndexer

variable {S : Type} (x : ProjectIndexer S)

/-- `_ignored`. -/
def Ignored (path : List String) : Prop :=
  let parts := path.map x.casefold
  let name := parts.getLast?.getD ""
  (∃ part ∈ parts.dropLast, part ∈ ignoredDirectories) ∨ name ∈ ignoredFiles ∨ name = ".env" ∨
    ".env.".toList <+: name.toList ∨ name ∈ secretNames ∨
    ∃ suffix ∈ secretSuffixes, suffix.toList <:+ name.toList

instance : DecidablePred x.Ignored := fun _ => inferInstanceAs (Decidable (_ ∨ _))

/-- `_index_file`. -/
def indexFile (path : List String) (data : Bytes) : Option (ProjectFile S) :=
  if data.length > maxSemanticBytes then some ⟨data.length, x.sha256 data, .oversized⟩
  else if 0 ∈ data ∨ ¬ (ByteArray.mk data.toArray).validateUTF8 then
    some ⟨data.length, x.sha256 data, .binary⟩
  else (x.semantics path data).map fun s => ⟨data.length, x.sha256 data, .text s⟩

/-- The files that are indexed. -/
def listed (t : Tree) : Dict (List String) Bytes :=
  Dict.collect (fun path n =>
    match n with
    | .file data => if x.Ignored path then none else some data
    | .directory => none) t.entries

/-- `build`, or nothing where it raises. -/
def build (t : Tree) (generation : Nat) : Option (ProjectIndex S) :=
  let files := Dict.collect x.indexFile (x.listed t)
  if (∀ path ∈ (x.listed t).keys, path ∈ files) ∧ Dict.size (x.listed t) ≤ maxIndexedFiles then
    some ⟨generation, files⟩
  else none

/-- The index has the files of the tree that are not ignored, each as it is. -/
def Describes (index : ProjectIndex S) (t : Tree) : Prop :=
  ∀ path, index.files.lookup path =
    if x.Ignored path then none else (t.files path).bind (x.indexFile path)

variable {x} {t : Tree} {generation : Nat} {index : ProjectIndex S}

theorem lookup_listed (path : List String) :
    (x.listed t).lookup path = if x.Ignored path then none else t.files path := by
  simp only [listed, Dict.lookup_collect, FileTree.files, FileTree.node]
  cases t.entries.lookup path with
  | none => simp
  | some n => cases n <;> simp

theorem build_some (h : x.build t generation = some index) :
    index.generation = generation ∧ index.files = Dict.collect x.indexFile (x.listed t) ∧
      ∀ path ∈ (x.listed t).keys, path ∈ index.files := by
  simp only [build, Option.ite_none_right_eq_some, Option.some.injEq] at h
  obtain ⟨⟨hall, _⟩, rfl⟩ := h
  exact ⟨rfl, rfl, hall⟩

theorem build_describes (h : x.build t generation = some index) : x.Describes index t := by
  intro path
  rw [(build_some h).2.1, Dict.lookup_collect, lookup_listed]
  split <;> rfl

end ProjectIndexer

end Index

inductive ChangesetStatus
  | proposed | awaitingApproval | applying | applied | rejected | failed | rolledBack
  deriving DecidableEq

inductive ApprovalDecision
  | pending | approved | rejected
  deriving DecidableEq

/-- A changeset, by the mutations that `decode_mutation` makes of its patches. -/
structure Changeset where
  mutations : List WorkspaceFileMutation
  status : ChangesetStatus
  decision : ApprovalDecision

/-- The exceptions that come from outside while a changeset is decided and applied. A worker
that is killed while it applies a changeset does not get to undo it either. -/
structure Faults where
  /-- The decision is not recorded. -/
  record : Bool
  /-- The application is not started. -/
  start : Bool
  /-- A patch is not decoded, or the workspace not read. -/
  decode : Bool
  /-- `apply_changeset` raises before its first call. -/
  prepare : Bool
  /-- The call of the mutations that fails. -/
  perform : Option Nat
  /-- The transaction is not marked as applied. -/
  mark : Bool
  /-- The call of the rollback that fails. -/
  undo : Option Nat
  /-- The reply of `apply_changeset` is lost, or the stored index or a file not read. -/
  reply : Bool
  /-- The failure is not recorded. -/
  fail : Bool
  /-- The success is not recorded. -/
  settle : Bool
  deriving DecidableEq

def Faults.none : Faults :=
  ⟨false, false, false, false, .none, false, .none, false, false, false⟩

/-- The calls up to the first that fails, with whether all were made. -/
def runUntil : Tree → List (FileCall String Bytes) → Option Nat → Tree × Bool
  | t, [], _ => (t, true)
  | t, _ :: _, some 0 => (t, false)
  | t, call :: calls, stop =>
    match call.run t with
    | .error _ => (t, false)
    | .ok t => runUntil t calls (stop.map (· - 1))

/-- `expected_workspace_revision`, and the comparison with the revision of the workspace. -/
def checkRevision (revision : Option Nat) (ms : List WorkspaceFileMutation) :
    Except WorkspaceError Unit :=
  match (ms.filterMap (·.expectedWorkspaceRevision)).eraseDups with
  | [] => .ok ()
  | [expected] =>
    if revision ≠ some expected then
      .error (.valueError s!"expected Workspace revision {expected} before applying Changeset")
    else .ok ()
  | _ => .error (.valueError "Changeset contains inconsistent Workspace revisions")

section Apply

variable (sha256 : Bytes → String) (side : Provisioner) (faults : Faults)

/-- `apply_changeset` to a version on which no transaction is left: the tree, and whether it
returns. -/
def applyWithin (t : Tree) (ms : List WorkspaceFileMutation) : Tree × Bool :=
  if faults.prepare then (t, false)
  else
    match checkChangeset sha256 side t ms, backUpAll t (changesetPaths ms) ([], ∅) with
    | .error _, _ | .ok (), .error _ => (t, false)
    | .ok (), .ok (entries, backups) =>
      match runUntil t (changesetCalls side ms) faults.perform with
      | (t', true) =>
        if faults.mark then ((runUntil t' (rollback backups entries) faults.undo).1, false)
        else (t', true)
      | (t', false) => ((runUntil t' (rollback backups entries) faults.undo).1, false)

end Apply

/-- A version with its stored index and one of its changesets. -/
structure Decision (S : Type) where
  tree : Tree
  index : Option (ProjectIndex S)
  changeset : Changeset

namespace Decision

variable {S : Type} (x : ProjectIndexer S) (side : Provisioner) (revision : Option Nat)
  (faults : Faults)

def withStatus (σ : Decision S) (status : ChangesetStatus) : Decision S :=
  { σ with changeset := { σ.changeset with status } }

/-- `record_approval_decision`, or nothing where it raises. -/
def record (approved : Bool) (σ : Decision S) : Option (Decision S) :=
  let decision := if approved then ApprovalDecision.approved else .rejected
  if σ.changeset.decision ≠ .pending then
    if σ.changeset.decision = decision then some σ else none
  else if σ.changeset.status ≠ .awaitingApproval then none
  else
    let σ := { σ with changeset := { σ.changeset with decision } }
    some (if approved then σ else σ.withStatus .rejected)

/-- The transaction that records a failure. Where it fails itself, the changeset stays as
it was. -/
def failed (σ : Decision S) : Decision S :=
  if faults.fail then σ else σ.withStatus .failed

/-- What follows `apply_changeset`: the new index, and the status. -/
def refresh (σ : Decision S) : Decision S :=
  match x.build σ.tree ((σ.index.map (·.generation)).getD 0 + 1) with
  | none => σ.failed faults
  | some index =>
    if faults.reply then σ.failed faults
    else if faults.settle then σ
    else { σ.withStatus .applied with index := some index }

/-- The application of a changeset that is `APPLYING`. -/
def apply (σ : Decision S) : Decision S :=
  if faults.decode then σ.failed faults
  else
    match checkRevision revision σ.changeset.mutations with
    | .error _ => σ.failed faults
    | .ok () =>
      match applyWithin x.sha256 side faults σ.tree σ.changeset.mutations with
      | (tree, false) => { σ with tree }.failed faults
      | (tree, true) => { σ with tree }.refresh x faults

/-- `decide_approval`. -/
def decideApproval (approved : Bool) (σ : Decision S) : Decision S :=
  if faults.record then σ
  else
    match σ.record approved with
    | none => σ
    | some σ =>
      if approved = false ∨ σ.changeset.status ≠ .awaitingApproval ∨ faults.start then σ
      else (σ.withStatus .applying).apply x side revision faults

/-- The decision comes to `apply_changeset`. -/
def Applies (approved : Bool) (σ : Decision S) : Prop :=
  approved = true ∧ σ.changeset.status = .awaitingApproval ∧ σ.changeset.decision ≠ .rejected ∧
    faults.record = false ∧ faults.start = false ∧ faults.decode = false ∧
    checkRevision revision σ.changeset.mutations = .ok ()

end Decision

end Fairy.Workspace
