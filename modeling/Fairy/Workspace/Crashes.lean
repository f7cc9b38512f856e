import Fairy.Workspace.FileTransaction
import Fairy.Lib.Run

namespace Fairy.Workspace

open Fairy.Lib TransactionDirectory

section Journals

/-- The old contents that the entries and the backups of a transaction speak of. -/
def journal (backups : Finmap fun _ : Nat => Bytes) (entries : List JournalEntry) :
    UndoJournal String Bytes :=
  entries.zipIdx.map fun x =>
    (x.1.relativePath.parts, if x.1.existed then backups.lookup x.2 else none)

/-- Each file that existed has its backup. -/
def Complete (backups : Finmap fun _ : Nat => Bytes) (entries : List JournalEntry) : Prop :=
  ∀ x ∈ entries.zipIdx, x.1.existed = true → backups.lookup x.2 ≠ none

section Journals

variable {backups : Finmap fun _ : Nat => Bytes} {entries : List JournalEntry} {t : Tree}

theorem journal_paths (backups : Finmap fun _ : Nat => Bytes) (entries : List JournalEntry) :
    (journal backups entries).paths = entries.map (·.relativePath.parts) := by
  rw [UndoJournal.paths, journal, List.map_map]
  conv_rhs => rw [← List.zipIdx_map_fst 0 entries, List.map_map]
  rfl

/-- With its backups, a rollback is the undo of the journal. -/
theorem rollback_eq (h : Complete backups entries) :
    rollback backups entries = (journal backups entries).undo := by
  rw [rollback, UndoJournal.undo, journal, List.flatMap_map]
  refine List.flatMap_congr fun x hx => ?_
  unfold restore
  by_cases he : x.1.existed = true
  · rw [if_pos he, if_pos he]
    cases hb : backups.lookup x.2 with
    | none => exact absurd hb (h x hx he)
    | some content => rfl
  · rw [if_neg he, if_neg he]

/-- A backup adds the content of its path to the journal. -/
theorem backUp_ok {path : WorkspacePath} {x : List JournalEntry × Finmap fun _ : Nat => Bytes}
    (h : backUp t path (entries, backups) = .ok x) (hc : Complete backups entries) :
    x.1.map (·.relativePath) = entries.map (·.relativePath) ++ [path] ∧
      Complete x.2 x.1 ∧ ¬ t.IsDirectory path.parts ∧
      journal x.2 x.1 = journal backups entries ++ [(path.parts, t.files path.parts)] := by
  have hindex : ∀ y ∈ entries.zipIdx, y.2 ≠ entries.length := by
    intro y hy
    have hlt := List.snd_lt_of_mem_zipIdx hy
    omega
  unfold backUp at h
  split at h
  · rename_i hn
    cases h
    refine ⟨by simp, ?_, by simp [FileTree.IsDirectory, hn], ?_⟩
    · intro y hy he
      rw [List.zipIdx_append, List.mem_append] at hy
      obtain hy | hy := hy
      · exact hc y hy he
      · obtain rfl := List.mem_singleton.mp hy
        cases he
    · have hfile : t.files path.parts = none := by
        rw [FileTree.files_eq_none, hn]
        simp
      simp [journal, List.zipIdx_append, hfile]
  · cases h
  · rename_i content hn
    cases h
    have hold : ∀ y ∈ entries.zipIdx,
        (backups.insert entries.length content).lookup y.2 = backups.lookup y.2 :=
      fun y hy => Finmap.lookup_insert_of_ne _ (hindex y hy)
    refine ⟨by simp, ?_, by simp [FileTree.IsDirectory, hn], ?_⟩
    · intro y hy he
      rw [List.zipIdx_append, List.mem_append] at hy
      obtain hy | hy := hy
      · rw [hold y hy]
        exact hc y hy he
      · have hlast : y.2 = entries.length := by simp [List.mem_singleton.mp hy]
        rw [hlast, Finmap.lookup_insert]
        simp
    · have hfile : t.files path.parts = some content := FileTree.files_eq_some.mpr hn
      have hmap : entries.zipIdx.map (fun y => (y.1.relativePath.parts,
          if y.1.existed then (backups.insert entries.length content).lookup y.2 else none)) =
          journal backups entries :=
        List.map_congr_left fun y hy => by rw [hold y hy]
      rw [journal, List.zipIdx_append, List.map_append, hmap]
      simp [hfile]

theorem mem_changesetPaths {ms : List WorkspaceFileMutation} {path : WorkspacePath} :
    path ∈ changesetPaths ms ↔ ∃ m ∈ ms, path ∈ m.affectedPaths := by
  rw [changesetPaths, List.mem_eraseDups, List.mem_flatMap]

theorem write_target {p q : List String} {content : Bytes} {call : FileCall String Bytes}
    (hc : call ∈ FileCall.write p content) (hq : call.target = some q) : q = p := by
  obtain hc | hc := List.mem_append.mp hc
  · obtain ⟨_, _, rfl⟩ := List.mem_map.mp hc
    cases hq
  · obtain rfl := List.mem_singleton.mp hc
    exact (Option.some.inj hq).symm

theorem writeCalls_target {side : Provisioner} {m : WorkspaceFileMutation} {q : List String}
    {call : FileCall String Bytes} (hc : call ∈ m.writeCalls side) (hq : call.target = some q) :
    q = m.path.parts := by
  cases side with
  | filesystem =>
    simp only [WorkspaceFileMutation.writeCalls] at hc
    split at hc
    · obtain rfl := List.mem_singleton.mp hc
      cases hq
    · split at hc
      · obtain rfl := List.mem_singleton.mp hc
        cases hq
      · exact write_target hc hq
  | localWorker =>
    simp only [WorkspaceFileMutation.writeCalls] at hc
    split at hc
    · obtain rfl := List.mem_singleton.mp hc
      cases hq
    · exact write_target hc hq

/-- The calls of a mutation write at its paths. -/
theorem calls_target {side : Provisioner} {m : WorkspaceFileMutation} {q : List String}
    {call : FileCall String Bytes} (hc : call ∈ m.calls side) (hq : call.target = some q) :
    ∃ path ∈ m.affectedPaths, path.parts = q := by
  have hpath : m.path ∈ m.affectedPaths := by
    unfold WorkspaceFileMutation.affectedPaths
    split <;> simp
  have hparents : ∀ destination, call ∉ WorkspaceFileMutation.makeParents destination := by
    intro destination hc
    obtain ⟨_, _, rfl⟩ := List.mem_map.mp hc
    cases hq
  unfold WorkspaceFileMutation.calls at hc
  split at hc
  · exact ⟨m.path, hpath, (writeCalls_target hc hq).symm⟩
  · exact ⟨m.path, hpath, (writeCalls_target hc hq).symm⟩
  · exact ⟨m.path, hpath, (writeCalls_target hc hq).symm⟩
  · obtain rfl := List.mem_singleton.mp hc
    exact ⟨m.path, hpath, Option.some.inj hq⟩
  · obtain rfl := List.mem_singleton.mp hc
    exact ⟨m.path, hpath, Option.some.inj hq⟩
  · split at hc
    · obtain rfl := List.mem_singleton.mp hc
      cases hq
    rename_i destination hd
    have hdest : destination ∈ m.affectedPaths := by
      simp [WorkspaceFileMutation.affectedPaths, hd]
    simp only [List.cons_append, List.mem_cons, List.mem_append, List.not_mem_nil, or_false] at hc
    obtain rfl | hc | rfl | rfl := hc
    · cases hq
    · exact absurd hc (hparents destination)
    · exact ⟨destination, hdest, Option.some.inj hq⟩
    · exact ⟨m.path, hpath, Option.some.inj hq⟩
  · split at hc
    · obtain rfl := List.mem_singleton.mp hc
      cases hq
    rename_i destination hd
    have hdest : destination ∈ m.affectedPaths := by
      simp [WorkspaceFileMutation.affectedPaths, hd]
    simp only [List.mem_cons, List.mem_append, List.not_mem_nil, or_false] at hc
    obtain hc | rfl | rfl := hc
    · exact absurd hc (hparents destination)
    · exact ⟨destination, hdest, Option.some.inj hq⟩
    · exact ⟨m.path, hpath, Option.some.inj hq⟩

theorem changesetCalls_target {side : Provisioner} {ms : List WorkspaceFileMutation}
    {q : List String} {call : FileCall String Bytes} (hc : call ∈ changesetCalls side ms)
    (hq : call.target = some q) : q ∈ (changesetPaths ms).map (·.parts) := by
  obtain ⟨m, hm, hc⟩ := List.mem_flatMap.mp hc
  obtain ⟨path, hp, rfl⟩ := calls_target hc hq
  exact List.mem_map.mpr ⟨path, mem_changesetPaths.mpr ⟨m, hm, hp⟩, rfl⟩

end Journals

end Journals

/-- When the directory of a transaction is removed: by `recover`, because it could not be
prepared, or after the changeset has been applied or undone. -/
inductive Clearing
  | recovered | unprepared | applied | undone
  deriving DecidableEq

/-- Where a call of `apply_changeset` stands. -/
inductive Phase
  | idle
  /-- `recover` rolls an earlier changeset back. -/
  | recovering (todo : List (FileCall String Bytes))
  | preparing (todo : List WorkspacePath) (entries : List JournalEntry)
  | performing (todo : List (FileCall String Bytes))
  /-- `apply_changeset` rolls its own changeset back. -/
  | undoing (todo : List (FileCall String Bytes))
  | clearing (why : Clearing)

inductive Outcome
  | returned | raised
  deriving DecidableEq

/-- A version and the call of `apply_changeset` that works on it. What follows `changeset`
the program does not know: the tree that the changeset began with, the files as they
stood when it was called, and as they stood at the last `applied` marker. -/
structure World where
  store : VersionStore
  phase : Phase
  outcome : Option Outcome
  changeset : List WorkspaceFileMutation
  before : Tree
  start : Files
  committed : Files

inductive Item
  | manifest | applied | backup (index : Nat) | directory

inductive Act
  | call (mutations : List WorkspaceFileMutation)
  /-- The next file system step. -/
  | step
  /-- The next step fails, and changes nothing. -/
  | fail
  /-- A step of the removal of the transaction directory. -/
  | delete (item : Item)
  /-- The removal is given up. -/
  | leave
  | crash

namespace World

variable (sha256 : Bytes → String) (side : Provisioner)

def withTree (σ : World) (tree : Tree) : World := { σ with store := { σ.store with tree } }

def withTransaction (σ : World) (transaction : Option TransactionDirectory) : World :=
  { σ with store := { σ.store with transaction } }

def ended (σ : World) (outcome : Outcome) : World :=
  { σ with phase := .idle, outcome := some outcome }

/-- The checks, and `prepare` up to its first backup. -/
def prepare (σ : World) : World :=
  match checkChangeset sha256 side σ.store.tree σ.changeset with
  | .error _ => σ.ended .raised
  | .ok () =>
    { σ.withTransaction (some .fresh) with
      phase := .preparing (changesetPaths σ.changeset) []
      before := σ.store.tree }

/-- An exception in the changeset starts its rollback. -/
def undo (σ : World) : World :=
  match σ.store.transaction with
  | some ⟨some entries, _, backups⟩ => { σ with phase := .undoing (rollback backups entries) }
  | _ => σ.ended .raised

/-- The directory of the transaction is gone. -/
def cleared (σ : World) : Clearing → World
  | .recovered => σ.prepare sha256 side
  | .applied => σ.ended .returned
  | .unprepared | .undone => σ.ended .raised

def begin (σ : World) (mutations : List WorkspaceFileMutation) : World :=
  let σ := { σ with changeset := mutations, outcome := none, start := σ.committed }
  match σ.store.transaction with
  | none => σ.prepare sha256 side
  | some ⟨some entries, false, backups⟩ =>
    { σ with phase := .recovering (rollback backups entries) }
  | some _ => { σ with phase := .clearing .recovered }

def step (σ : World) : World :=
  match σ.phase with
  | .idle | .clearing _ => σ
  | .recovering [] => { σ with phase := .clearing .recovered }
  | .recovering (call :: todo) =>
    match call.run σ.store.tree with
    | .error _ => σ.ended .raised
    | .ok tree => { σ.withTree tree with phase := .recovering todo }
  | .preparing [] entries =>
    { σ.withTransaction
        (σ.store.transaction.map fun tx => { tx with manifest := some entries }) with
      phase := .performing (changesetCalls side σ.changeset) }
  | .preparing (path :: todo) entries =>
    match σ.store.transaction with
    | none => σ
    | some tx =>
      match backUp σ.store.tree path (entries, tx.backups) with
      | .error _ => { σ with phase := .clearing .unprepared }
      | .ok x =>
        { σ.withTransaction (some { tx with backups := x.2 }) with phase := .preparing todo x.1 }
  | .performing [] =>
    { σ.withTransaction (σ.store.transaction.map fun tx => { tx with applied := true }) with
      phase := .clearing .applied
      committed := σ.store.tree.files }
  | .performing (call :: todo) =>
    match call.run σ.store.tree with
    | .error _ => σ.undo
    | .ok tree => { σ.withTree tree with phase := .performing todo }
  | .undoing [] => { σ with phase := .clearing .undone }
  | .undoing (call :: todo) =>
    match call.run σ.store.tree with
    | .error _ => σ.ended .raised
    | .ok tree => { σ.withTree tree with phase := .undoing todo }

def fail (σ : World) : World :=
  match σ.phase with
  | .preparing _ _ => { σ with phase := .clearing .unprepared }
  | .performing _ => σ.undo
  | _ => σ

/-- The directory goes last, when it is empty. -/
def delete (σ : World) (item : Item) : World :=
  match σ.phase, σ.store.transaction with
  | .clearing why, some tx =>
    match item with
    | .manifest => σ.withTransaction (some { tx with manifest := none })
    | .applied => σ.withTransaction (some { tx with applied := false })
    | .backup index => σ.withTransaction (some { tx with backups := tx.backups.erase index })
    | .directory =>
      if tx.manifest = none ∧ tx.applied = false ∧ tx.backups = ∅ then
        (σ.withTransaction none).cleared sha256 side why
      else σ
  | _, _ => σ

/-- `recover` raises where its removal fails; the other removals ignore errors. -/
def leave (σ : World) : World :=
  match σ.phase with
  | .clearing .applied => σ.ended .returned
  | .clearing _ => σ.ended .raised
  | _ => σ

def after (σ : World) : Act → World
  | .call mutations =>
    match σ.phase with
    | .idle => σ.begin sha256 side mutations
    | _ => σ
  | .step => σ.step side
  | .fail => σ.fail
  | .delete item => σ.delete sha256 side item
  | .leave => σ.leave
  | .crash => { σ with phase := .idle, outcome := none }

/-- A version that no changeset has touched yet. -/
def initial (tree : Tree) : World where
  store := ⟨tree, none⟩
  phase := .idle
  outcome := none
  changeset := []
  before := tree
  start := tree.files
  committed := tree.files

end World

/-- The files are those after all mutations of the last changeset. -/
def AllPerformed (side : Provisioner) (σ : World) : Prop :=
  σ.before.files = σ.start ∧ ∃ tree,
    FileCall.runAll σ.before (changesetCalls side σ.changeset) = .ok tree ∧
      σ.committed = tree.files

/-- What is promised at any moment: the next recovery succeeds, with the files as they
were committed; these are the files before the last changeset or after all of it; they
are the ones after it and in place once it has returned, and the ones before it and in
place where it has raised. -/
structure CrashSafe (side : Provisioner) (σ : World) : Prop where
  recovers : ∃ v, σ.store.recover = .ok v ∧ v.transaction = none ∧ v.tree.files = σ.committed
  atomic : σ.committed = σ.start ∨ AllPerformed side σ
  returned : σ.outcome = some .returned → AllPerformed side σ ∧ σ.store.tree.files = σ.committed
  raised : σ.outcome = some .raised → σ.committed = σ.start ∧ σ.store.tree.files = σ.committed

/-- No directory is made at a path of the changeset, and while there is a manifest, neither
the marker is removed nor, where there is no marker, a backup. -/
def Careful (σ : World) : Act → Prop
  | .step => ∀ p todo, σ.phase = .performing (.ensureDirectory p :: todo) →
      σ.store.tree.node p = none → p ∉ (changesetPaths σ.changeset).map (·.parts)
  | .delete .applied => ∀ tx, σ.store.transaction = some tx → tx.manifest = none
  | .delete (.backup _) => ∀ tx, σ.store.transaction = some tx →
      tx.manifest = none ∨ tx.applied = true
  | _ => True

end Fairy.Workspace
