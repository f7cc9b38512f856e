import Fairy.Workspace.Crashes

namespace Fairy.Workspace

open Fairy.Lib TransactionDirectory

/-- A recovery of the version leads to the old files. -/
def Recoverable (old : Files) (v : VersionStore) : Prop :=
  match v.transaction with
  | some ⟨some entries, false, backups⟩ =>
    Complete backups entries ∧ (journal backups entries).Covers old v.tree
  | _ => v.tree.files = old

section Stores

variable {old : Files} {v : VersionStore}

theorem recoverable_of_files (hf : v.tree.files = old)
    (h : ∀ entries backups, v.transaction = some ⟨some entries, false, backups⟩ →
      Complete backups entries ∧ (journal backups entries).Covers old v.tree) :
    Recoverable old v := by
  unfold Recoverable
  split
  · rename_i entries backups htx
    exact h entries backups htx
  · exact hf

theorem Recoverable.journaled (h : Recoverable old v) {entries : List JournalEntry}
    {backups : Finmap fun _ : Nat => Bytes}
    (htx : v.transaction = some ⟨some entries, false, backups⟩) :
    Complete backups entries ∧ (journal backups entries).Covers old v.tree := by
  unfold Recoverable at h
  rw [htx] at h
  exact h

theorem recoverable_journaled {entries : List JournalEntry}
    {backups : Finmap fun _ : Nat => Bytes}
    (htx : v.transaction = some ⟨some entries, false, backups⟩) (hc : Complete backups entries)
    (hj : (journal backups entries).Covers old v.tree) : Recoverable old v := by
  unfold Recoverable
  rw [htx]
  exact ⟨hc, hj⟩

theorem Recoverable.recover (h : Recoverable old v) :
    ∃ w, v.recover = .ok w ∧ w.transaction = none ∧ w.tree.files = old := by
  obtain ⟨tree, transaction⟩ := v
  obtain _ | ⟨_ | entries, applied, backups⟩ := transaction
  · exact ⟨_, rfl, rfl, h⟩
  · exact ⟨_, rfl, rfl, h⟩
  · cases applied with
    | true => exact ⟨_, rfl, rfl, h⟩
    | false =>
      obtain ⟨hc, hj⟩ := h
      obtain ⟨u, hu, hold⟩ := hj.undo
      refine ⟨⟨u, none⟩, ?_, rfl, hold⟩
      rw [← rollback_eq hc] at hu
      simp [VersionStore.recover, hu]

/-- The contents that stand in a tree are a journal that covers it. -/
theorem covers_of_files {j : UndoJournal String Bytes} {t : Tree} (hf : t.files = old)
    (hj : ∀ e ∈ j, t.files e.1 = e.2 ∧ ¬ t.IsDirectory e.1) : j.Covers old t where
  recorded e he := by rw [← hf, (hj e he).1]
  kept p _ := by rw [hf]
  free p hp := by
    obtain ⟨e, he, rfl⟩ := List.mem_map.mp hp
    exact (hj e he).2
  above e he hsome q hq hne := by
    obtain ⟨content, hc⟩ := Option.ne_none_iff_exists'.mp hsome
    have hfile := (hj e he).1.trans hc
    exact FileTree.isDirectory_of_prefix (FileTree.files_eq_some.mp hfile) hq hne

end Stores

section Phases

variable (side : Provisioner)

/-- A rollback, by `recover` or of the changeset itself, is under way. -/
def RollingBack (σ : World) (todo : List (FileCall String Bytes)) : Prop :=
  σ.committed = σ.start ∧ ∃ entries backups,
    σ.store.transaction = some ⟨some entries, false, backups⟩ ∧ Complete backups entries ∧
      (journal backups entries).Undoing σ.committed σ.store.tree todo

/-- The first paths of the changeset have been backed up. -/
def BackingUp (σ : World) (todo : List WorkspacePath) (entries : List JournalEntry) : Prop :=
  σ.committed = σ.start ∧ σ.store.tree = σ.before ∧ σ.before.files = σ.committed ∧
    entries.map (·.relativePath) ++ todo = changesetPaths σ.changeset ∧ ∃ backups,
      σ.store.transaction = some ⟨none, false, backups⟩ ∧ Complete backups entries ∧
        ∀ e ∈ journal backups entries, σ.before.files e.1 = e.2 ∧ ¬ σ.before.IsDirectory e.1

/-- The first calls of the changeset have been run. -/
def Performing (σ : World) (todo : List (FileCall String Bytes)) : Prop :=
  σ.committed = σ.start ∧ σ.before.files = σ.start ∧
    (∃ done, changesetCalls side σ.changeset = done ++ todo ∧
      FileCall.runAll σ.before done = .ok σ.store.tree) ∧
    ∃ entries backups, σ.store.transaction = some ⟨some entries, false, backups⟩ ∧
      entries.map (·.relativePath) = changesetPaths σ.changeset ∧ Complete backups entries ∧
        (journal backups entries).Covers σ.committed σ.store.tree

def Undone (σ : World) : Prop := σ.committed = σ.start ∧ σ.store.tree.files = σ.committed

def Done (σ : World) : Prop := AllPerformed side σ ∧ σ.store.tree.files = σ.committed

/-- What holds in each phase of a call, and after it. -/
def PhaseOk (σ : World) : Phase → Option Outcome → Prop
  | .idle, none => True
  | .idle, some .returned => Done side σ
  | .idle, some .raised => Undone σ
  | .recovering todo, none => RollingBack σ todo
  | .preparing todo entries, none => BackingUp σ todo entries
  | .performing todo, none => Performing side σ todo
  | .undoing todo, none => RollingBack σ todo
  | .clearing .applied, none => Done side σ
  | .clearing _, none => Undone σ
  | _, some _ => False

structure Invariant (σ : World) : Prop where
  recoverable : Recoverable σ.committed σ.store
  atomic : σ.committed = σ.start ∨ AllPerformed side σ
  phase : PhaseOk side σ σ.phase σ.outcome

end Phases

section Steps

variable {sha256 : Bytes → String} {side : Provisioner} {σ : World}

theorem Invariant.crashSafe (h : Invariant side σ) : CrashSafe side σ where
  recovers := h.recoverable.recover
  atomic := h.atomic
  returned ho := by
    have hp := h.phase
    rw [ho] at hp
    cases hphase : σ.phase <;> simp only [hphase, PhaseOk] at hp
    exact hp
  raised ho := by
    have hp := h.phase
    rw [ho] at hp
    cases hphase : σ.phase <;> simp only [hphase, PhaseOk] at hp
    exact hp

theorem invariant_initial (t : Tree) : Invariant side (World.initial t) where
  recoverable := rfl
  atomic := .inl rfl
  phase := trivial

/-- While a call is at work it has no outcome. -/
theorem Invariant.busy (h : Invariant side σ) (hb : σ.phase ≠ .idle) : σ.outcome = none := by
  have hp := h.phase
  cases ho : σ.outcome with
  | none => rfl
  | some o =>
    rw [ho] at hp
    cases hphase : σ.phase with
    | idle => exact absurd hphase hb
    | recovering => simp [hphase, PhaseOk] at hp
    | preparing => simp [hphase, PhaseOk] at hp
    | performing => simp [hphase, PhaseOk] at hp
    | undoing => simp [hphase, PhaseOk] at hp
    | clearing why => simp [hphase, PhaseOk] at hp

theorem Invariant.phaseOk (h : Invariant side σ) {phase : Phase} (hp : σ.phase = phase)
    (hb : phase ≠ .idle) : PhaseOk side σ phase none := by
  have hok := h.phase
  rw [h.busy (hp ▸ hb), hp] at hok
  exact hok

theorem invariant_raised (h : Undone σ) (hr : Recoverable σ.committed σ.store) :
    Invariant side (σ.ended .raised) where
  recoverable := hr
  atomic := .inl h.1
  phase := h

theorem invariant_returned (h : Done side σ) (hr : Recoverable σ.committed σ.store) :
    Invariant side (σ.ended .returned) where
  recoverable := hr
  atomic := .inr h.1
  phase := h

theorem invariant_prepare (h : Undone σ) (hr : Recoverable σ.committed σ.store)
    (ho : σ.outcome = none) : Invariant side (σ.prepare sha256 side) := by
  unfold World.prepare
  split
  · exact invariant_raised h hr
  · refine ⟨h.2, .inl h.1, ?_⟩
    simp only [World.withTransaction, ho, PhaseOk]
    refine ⟨h.1, rfl, h.2, rfl, ∅, rfl, ?_, ?_⟩
    · intro x hx
      cases hx
    · intro e he
      cases he

theorem invariant_begin (h : Invariant side σ) (ms : List WorkspaceFileMutation) :
    Invariant side (σ.begin sha256 side ms) := by
  have hr := h.recoverable
  simp only [World.begin]
  split
  · rename_i htx
    have hfiles : σ.store.tree.files = σ.committed := by
      unfold Recoverable at hr
      rw [htx] at hr
      exact hr
    exact invariant_prepare ⟨rfl, hfiles⟩ hr rfl
  · rename_i entries backups htx
    obtain ⟨hc, hj⟩ := hr.journaled htx
    refine ⟨hr, .inl rfl, rfl, entries, backups, htx, hc, ?_⟩
    rw [rollback_eq hc]
    exact hj.undoing
  · rename_i tx hne htx
    have hfiles : σ.store.tree.files = σ.committed := by
      unfold Recoverable at hr
      split at hr
      · rename_i entries backups htx'
        exact absurd (Option.some.inj (htx.symm.trans htx')) (hne entries backups)
      · exact hr
    exact ⟨hr, .inl rfl, rfl, hfiles⟩

theorem invariant_undo (h : Performing side σ todo) (ho : σ.outcome = none) :
    Invariant side σ.undo := by
  obtain ⟨hstart, _, _, entries, backups, htx, _, hc, hj⟩ := h
  have hundo : σ.undo = { σ with phase := .undoing (rollback backups entries) } := by
    simp only [World.undo, htx]
  rw [hundo]
  refine ⟨recoverable_journaled htx hc hj, .inl hstart, ?_⟩
  simp only [ho, PhaseOk]
  refine ⟨hstart, entries, backups, htx, hc, ?_⟩
  rw [rollback_eq hc]
  exact hj.undoing

theorem Invariant.recovering_step (h : Invariant side σ) {todo : List (FileCall String Bytes)}
    (hp : σ.phase = .recovering todo) : Invariant side (σ.step side) := by
  have ho := h.busy (by simp [hp])
  obtain ⟨hstart, entries, backups, htx, hc, hundo⟩ : RollingBack σ todo :=
    h.phaseOk hp (by simp)
  cases todo with
  | nil =>
    simp only [World.step, hp]
    refine ⟨h.recoverable, h.atomic, ?_⟩
    simp only [ho, PhaseOk]
    exact ⟨hstart, hundo.files⟩
  | cons call todo =>
    obtain ⟨u, hu, hrest⟩ := hundo.step
    simp only [World.step, hp, hu]
    refine ⟨recoverable_journaled htx hc hrest.covers, h.atomic, ?_⟩
    simp only [World.withTree, ho, PhaseOk]
    exact ⟨hstart, entries, backups, htx, hc, hrest⟩

theorem Invariant.undoing_step (h : Invariant side σ) {todo : List (FileCall String Bytes)}
    (hp : σ.phase = .undoing todo) : Invariant side (σ.step side) := by
  have ho := h.busy (by simp [hp])
  obtain ⟨hstart, entries, backups, htx, hc, hundo⟩ : RollingBack σ todo :=
    h.phaseOk hp (by simp)
  cases todo with
  | nil =>
    simp only [World.step, hp]
    refine ⟨h.recoverable, h.atomic, ?_⟩
    simp only [ho, PhaseOk]
    exact ⟨hstart, hundo.files⟩
  | cons call todo =>
    obtain ⟨u, hu, hrest⟩ := hundo.step
    simp only [World.step, hp, hu]
    refine ⟨recoverable_journaled htx hc hrest.covers, h.atomic, ?_⟩
    simp only [World.withTree, ho, PhaseOk]
    exact ⟨hstart, entries, backups, htx, hc, hrest⟩

theorem Invariant.preparing_step (h : Invariant side σ) {todo : List WorkspacePath}
    {entries : List JournalEntry} (hp : σ.phase = .preparing todo entries) :
    Invariant side (σ.step side) := by
  have ho := h.busy (by simp [hp])
  obtain ⟨hstart, htree, hfiles, hpaths, backups, htx, hc, hj⟩ : BackingUp σ todo entries :=
    h.phaseOk hp (by simp)
  have hnow : σ.store.tree.files = σ.committed := by rw [htree, hfiles]
  cases todo with
  | nil =>
    have hcovers : (journal backups entries).Covers σ.committed σ.store.tree :=
      covers_of_files hnow (by rwa [htree])
    have hmanifest : (σ.withTransaction (some ⟨some entries, false, backups⟩)).store.transaction =
        some ⟨some entries, false, backups⟩ := rfl
    simp only [World.step, hp, htx, Option.map_some]
    refine ⟨recoverable_journaled hmanifest hc hcovers, h.atomic, ?_⟩
    simp only [World.withTransaction, ho, PhaseOk]
    refine ⟨hstart, hfiles.trans hstart, ⟨[], rfl, ?_⟩, entries, backups, rfl, ?_, hc, hcovers⟩
    · exact congrArg Except.ok htree.symm
    · rwa [List.append_nil] at hpaths
  | cons path todo =>
    simp only [World.step, hp, htx]
    split
    · refine ⟨h.recoverable, h.atomic, ?_⟩
      simp only [ho, PhaseOk]
      exact ⟨hstart, hnow⟩
    · rename_i x hx
      rw [htree] at hx
      obtain ⟨hentries, hc', hdir, hjournal⟩ := backUp_ok hx hc
      refine ⟨hnow, h.atomic, ?_⟩
      simp only [World.withTransaction, ho, PhaseOk]
      refine ⟨hstart, htree, hfiles, ?_, x.2, rfl, hc', ?_⟩
      · rw [hentries, List.append_assoc]
        exact hpaths
      · intro e he
        rw [hjournal, List.mem_append] at he
        obtain he | he := he
        · exact hj e he
        · obtain rfl := List.mem_singleton.mp he
          exact ⟨rfl, hdir⟩

theorem Invariant.performing_step (h : Invariant side σ) {todo : List (FileCall String Bytes)}
    (hp : σ.phase = .performing todo)
    (hcareful : ∀ p rest, σ.phase = .performing (.ensureDirectory p :: rest) →
      σ.store.tree.node p = none → p ∉ (changesetPaths σ.changeset).map (·.parts)) :
    Invariant side (σ.step side) := by
  have ho := h.busy (by simp [hp])
  obtain ⟨hstart, hfiles, ⟨done, hcalls, hdone⟩, entries, backups, htx, hpaths, hc, hj⟩ :
      Performing side σ todo := h.phaseOk hp (by simp)
  cases todo with
  | nil =>
    rw [List.append_nil] at hcalls
    have hall : AllPerformed side { σ with committed := σ.store.tree.files } :=
      ⟨hfiles, σ.store.tree, hcalls ▸ hdone, rfl⟩
    simp only [World.step, hp, htx, Option.map_some]
    refine ⟨rfl, .inr hall, ?_⟩
    simp only [World.withTransaction, ho, PhaseOk]
    exact ⟨hall, rfl⟩
  | cons call todo =>
    simp only [World.step, hp]
    split
    · exact invariant_undo (h.phaseOk hp (by simp)) ho
    · rename_i tree hrun
      have hin : call ∈ changesetCalls side σ.changeset := by
        rw [hcalls]
        exact List.mem_append_right _ List.mem_cons_self
      have hjp : (journal backups entries).paths = (changesetPaths σ.changeset).map (·.parts) := by
        rw [journal_paths, ← hpaths, List.map_map]
        rfl
      have htame : (journal backups entries).Tame σ.store.tree call := by
        refine ⟨fun p ht => ?_, fun p hd hn => ?_⟩
        · rw [hjp]
          exact changesetCalls_target hin ht
        · rw [hjp]
          exact hcareful p todo (by rw [hp, hd]) hn
      have hcovers := hj.run htame hrun
      refine ⟨recoverable_journaled htx hc hcovers, h.atomic, ?_⟩
      simp only [World.withTree, ho, PhaseOk]
      refine ⟨hstart, hfiles, ⟨done ++ [call], ?_, ?_⟩, entries, backups, htx, hpaths, hc, hcovers⟩
      · rw [hcalls, List.append_assoc]
        rfl
      · rw [FileCall.runAll_append hdone, FileCall.runAll_cons hrun]
        rfl

theorem Invariant.step (h : Invariant side σ) (hcareful : Careful σ .step) :
    Invariant side (σ.step side) := by
  cases hp : σ.phase with
  | idle => simpa only [World.step, hp] using h
  | clearing why => simpa only [World.step, hp] using h
  | recovering todo => exact h.recovering_step hp
  | undoing todo => exact h.undoing_step hp
  | preparing todo entries => exact h.preparing_step hp
  | performing todo => exact h.performing_step hp hcareful

theorem Invariant.fail (h : Invariant side σ) : Invariant side σ.fail := by
  cases hp : σ.phase with
  | preparing todo entries =>
    have ho := h.busy (by simp [hp])
    obtain ⟨hstart, htree, hfiles, _⟩ : BackingUp σ todo entries := h.phaseOk hp (by simp)
    simp only [World.fail, hp]
    refine ⟨h.recoverable, h.atomic, ?_⟩
    simp only [ho, PhaseOk]
    exact ⟨hstart, by rw [htree, hfiles]⟩
  | performing todo =>
    have hperf : Performing side σ todo := h.phaseOk hp (by simp)
    simp only [World.fail, hp]
    exact invariant_undo hperf (h.busy (by simp [hp]))
  | idle => simpa only [World.fail, hp] using h
  | clearing why => simpa only [World.fail, hp] using h
  | recovering todo => simpa only [World.fail, hp] using h
  | undoing todo => simpa only [World.fail, hp] using h

/-- A directory is removed only when its files are as they should be. -/
theorem clearing_files {why : Clearing} (h : PhaseOk side σ (.clearing why) none) :
    σ.store.tree.files = σ.committed := by
  cases why <;> exact h.2

theorem Invariant.delete (h : Invariant side σ) {item : Item}
    (hcareful : Careful σ (.delete item)) : Invariant side (σ.delete sha256 side item) := by
  unfold World.delete
  split
  · rename_i why tx hp htx
    have ho := h.busy (by simp [hp])
    have hok : PhaseOk side σ (.clearing why) none := h.phaseOk hp (by simp)
    have hfiles := clearing_files hok
    have hclearing : ∀ transaction, PhaseOk side (σ.withTransaction transaction)
        (σ.withTransaction transaction).phase (σ.withTransaction transaction).outcome := by
      intro transaction
      simp only [World.withTransaction, ho, hp]
      cases why <;> exact hok
    cases item with
    | manifest =>
      exact ⟨recoverable_of_files hfiles (by simp [World.withTransaction]), h.atomic, hclearing _⟩
    | applied =>
      have hnone := hcareful tx htx
      refine ⟨recoverable_of_files hfiles ?_, h.atomic, hclearing _⟩
      simp [World.withTransaction, hnone]
    | backup index =>
      refine ⟨recoverable_of_files hfiles ?_, h.atomic, hclearing _⟩
      obtain hnone | happlied := hcareful tx htx
      · simp [World.withTransaction, hnone]
      · simp [World.withTransaction, happlied]
    | directory =>
      simp only
      split
      · have hr : Recoverable (σ.withTransaction none).committed (σ.withTransaction none).store :=
          hfiles
        cases why with
        | recovered => exact invariant_prepare hok hr ho
        | applied => exact invariant_returned hok hr
        | unprepared => exact invariant_raised hok hr
        | undone => exact invariant_raised hok hr
      · exact h
  · exact h

theorem Invariant.leave (h : Invariant side σ) : Invariant side σ.leave := by
  cases hp : σ.phase with
  | clearing why =>
    have hok : PhaseOk side σ (.clearing why) none := h.phaseOk hp (by simp)
    cases why with
    | applied =>
      simp only [World.leave, hp]
      exact invariant_returned hok h.recoverable
    | recovered =>
      simp only [World.leave, hp]
      exact invariant_raised hok h.recoverable
    | unprepared =>
      simp only [World.leave, hp]
      exact invariant_raised hok h.recoverable
    | undone =>
      simp only [World.leave, hp]
      exact invariant_raised hok h.recoverable
  | idle => simpa only [World.leave, hp] using h
  | recovering todo => simpa only [World.leave, hp] using h
  | preparing todo entries => simpa only [World.leave, hp] using h
  | performing todo => simpa only [World.leave, hp] using h
  | undoing todo => simpa only [World.leave, hp] using h

theorem Invariant.after (h : Invariant side σ) {act : Act} (hcareful : Careful σ act) :
    Invariant side (σ.after sha256 side act) := by
  cases act with
  | call ms =>
    simp only [World.after]
    split
    · exact invariant_begin h ms
    · exact h
  | step => exact h.step hcareful
  | fail => exact h.fail
  | delete item => exact h.delete hcareful
  | leave => exact h.leave
  | crash => exact ⟨h.recoverable, h.atomic, trivial⟩

/-- The act writes the `applied` marker. -/
def Commits (σ : World) : Act → Prop
  | .step => σ.phase = .performing []
  | _ => False

theorem committed_prepare (σ : World) : (σ.prepare sha256 side).committed = σ.committed := by
  unfold World.prepare
  split <;> rfl

theorem committed_undo (σ : World) : σ.undo.committed = σ.committed := by
  unfold World.undo
  split <;> rfl

theorem committed_begin (σ : World) (ms : List WorkspaceFileMutation) :
    (σ.begin sha256 side ms).committed = σ.committed := by
  simp only [World.begin]
  split
  · exact committed_prepare _
  · rfl
  · rfl

theorem committed_step (hn : σ.phase ≠ .performing []) :
    (σ.step side).committed = σ.committed := by
  unfold World.step
  split
  · rfl
  · rfl
  · rfl
  · split <;> rfl
  · rfl
  · split
    · rfl
    · split <;> rfl
  · rename_i hp
    exact absurd hp hn
  · split
    · exact committed_undo σ
    · rfl
  · rfl
  · split <;> rfl

/-- Only the marker commits. -/
theorem committed_after {act : Act} (hn : ¬ Commits σ act) :
    (σ.after sha256 side act).committed = σ.committed := by
  cases act with
  | call ms =>
    simp only [World.after]
    split
    · exact committed_begin σ ms
    · rfl
  | step => exact committed_step hn
  | fail =>
    simp only [World.after, World.fail]
    split
    · rfl
    · exact committed_undo σ
    · rfl
  | delete item =>
    simp only [World.after, World.delete]
    split
    · rename_i why tx _ _
      cases item with
      | directory =>
        simp only
        split
        · cases why with
          | recovered => exact committed_prepare _
          | applied => rfl
          | unprepared => rfl
          | undone => rfl
        · rfl
      | manifest => rfl
      | applied => rfl
      | backup index => rfl
    · rfl
  | leave =>
    simp only [World.after, World.leave]
    split <;> rfl
  | crash => rfl

variable (sha256 side) in
def ChangesetStep (σ : World) (act : Act) (τ : World) : Prop := τ = σ.after sha256 side act

/-- In every run that makes no directory at a path of its changeset and removes the
manifest of a transaction first, a crash loses nothing; and what a changeset has returned
with stays until another one commits. -/
theorem changesets_crash_safe {t : Tree}
    (h : Run (ChangesetStep sha256 side) Careful (World.initial t) σ) :
    CrashSafe side σ ∧ ∀ τ, σ.outcome = some .returned →
      Run (ChangesetStep sha256 side) (fun σ act => Careful σ act ∧ ¬ Commits σ act) σ τ →
      ∃ v, τ.store.recover = .ok v ∧ v.tree.files = σ.store.tree.files := by
  have hkeep : ∀ (σ : World) act τ, Invariant side σ → Careful σ act →
      ChangesetStep sha256 side σ act τ → Invariant side τ := by
    rintro σ act _ hσ hcareful rfl
    exact hσ.after hcareful
  have hσ : Invariant side σ := h.invariant hkeep (invariant_initial t)
  refine ⟨hσ.crashSafe, fun τ ho hrun => ?_⟩
  have hτ : Invariant side τ :=
    hrun.invariant (fun σ act τ hσ hc hstep => hkeep σ act τ hσ hc.1 hstep) hσ
  have hsame : τ.committed = σ.committed := by
    refine hrun.invariant (I := fun ρ => ρ.committed = σ.committed) ?_ rfl
    rintro ρ act _ hρ hc rfl
    exact (committed_after hc.2).trans hρ
  obtain ⟨v, hv, _, hfiles⟩ := hτ.recoverable.recover
  exact ⟨v, hv, by rw [hfiles, hsame, (hσ.crashSafe.returned ho).2]⟩

end Steps

section Runs

def makesDirectory : Phase → Bool
  | .performing (.ensureDirectory _ :: _) => true
  | _ => false

/-- The act makes no directory at all, and removes nothing before the manifest. -/
def Quiet (σ : World) : Act → Bool
  | .step => !makesDirectory σ.phase
  | .delete .applied => σ.store.transaction.all fun tx => tx.manifest.isNone
  | .delete (.backup _) => σ.store.transaction.all fun tx => tx.manifest.isNone
  | _ => true

theorem careful_of_quiet {σ : World} {act : Act} (h : Quiet σ act = true) : Careful σ act := by
  cases act with
  | step =>
    intro p todo hp
    simp [Quiet, hp, makesDirectory] at h
  | delete item =>
    cases item with
    | applied =>
      intro tx htx
      simpa [Quiet, htx] using h
    | backup index =>
      intro tx htx
      exact .inl (by simpa [Quiet, htx] using h)
    | manifest => trivial
    | directory => trivial
  | call ms => trivial
  | fail => trivial
  | leave => trivial
  | crash => trivial

def commits (σ : World) : Act → Bool
  | .step =>
    match σ.phase with
    | .performing [] => true
    | _ => false
  | _ => false

theorem commits_iff {σ : World} {act : Act} : Commits σ act ↔ commits σ act = true := by
  cases act with
  | step =>
    simp only [Commits, commits]
    split <;> simp_all
  | call ms => simp [Commits, commits]
  | fail => simp [Commits, commits]
  | delete item => simp [Commits, commits]
  | leave => simp [Commits, commits]
  | crash => simp [Commits, commits]

def worldAfter (t : Tree) (acts : List Act) : World :=
  acts.foldl (fun σ act => σ.after knownDigests .filesystem act) (World.initial t)

def oneFile : Tree := treeOf [(["a"], [120])]

/-- One file is changed and another one made. -/
def twoUpserts : List WorkspaceFileMutation :=
  [upsertOf pathA [121] (some (knownDigests [120])), upsertOf pathB [120] none]

/-- Both paths are backed up, the manifest is written and the first mutation is run. -/
def firstUpsert : List Act := [.call twoUpserts, .step, .step, .step, .step]

/-- The first try crashes in the middle; the second one recovers and returns. -/
def crashedOnce : List Act :=
  firstUpsert ++ [.crash, .call twoUpserts, .step, .step, .step, .delete .manifest,
    .delete (.backup 0), .delete .directory, .step, .step, .step, .step, .step, .step, .leave]

/-- Another changeset recovers, begins, and crashes. -/
def crashedAgain : List Act :=
  [.call [upsertOf pathB [121] none], .delete .manifest, .delete .applied, .delete (.backup 0),
    .delete .directory, .step, .step, .step, .crash]

theorem changesets_crash_safe_once :
    (worldAfter oneFile crashedOnce).outcome = some .returned ∧
      CrashSafe .filesystem (worldAfter oneFile crashedOnce) ∧
      ∃ v, (worldAfter oneFile (crashedOnce ++ crashedAgain)).store.recover = .ok v ∧
        v.tree.files = (worldAfter oneFile crashedOnce).store.tree.files := by
  have hquiet : Run (ChangesetStep knownDigests .filesystem) (fun σ act => Quiet σ act = true)
      (World.initial oneFile) (worldAfter oneFile crashedOnce) := Run.foldl (by decide +kernel)
  have hrun : Run (ChangesetStep knownDigests .filesystem) Careful (World.initial oneFile)
      (worldAfter oneFile crashedOnce) := hquiet.mono fun _ _ => careful_of_quiet
  have hagain : Run (ChangesetStep knownDigests .filesystem)
      (fun σ act => Careful σ act ∧ ¬ Commits σ act) (worldAfter oneFile crashedOnce)
      (worldAfter oneFile (crashedOnce ++ crashedAgain)) := by
    have hfold : worldAfter oneFile (crashedOnce ++ crashedAgain) =
        crashedAgain.foldl (fun σ act => σ.after knownDigests .filesystem act)
          (worldAfter oneFile crashedOnce) := List.foldl_append
    have hquiet : Run (ChangesetStep knownDigests .filesystem)
        (fun σ act => Quiet σ act = true ∧ commits σ act = false) (worldAfter oneFile crashedOnce)
        (worldAfter oneFile (crashedOnce ++ crashedAgain)) := by
      rw [hfold]
      exact Run.foldl (by decide +kernel)
    refine hquiet.mono fun σ act hq => ⟨careful_of_quiet hq.1, fun hc => ?_⟩
    rw [commits_iff, hq.2] at hc
    cases hc
  have hreturned : (worldAfter oneFile crashedOnce).outcome = some .returned := by decide +kernel
  obtain ⟨hsafe, hstays⟩ := changesets_crash_safe hrun
  exact ⟨hreturned, hsafe, hstays _ hreturned hagain⟩

/-- The marker is removed first; what else is left then is left for good. -/
def markerFirst : List Act :=
  firstUpsert ++ [.step, .step, .delete .applied, .leave]

/-- The changeset fails, and its backup is removed first. -/
def backupFirst : List Act :=
  firstUpsert ++ [.fail, .step, .step, .step, .delete (.backup 0), .leave]

/-- A file makes room for a directory, and the program crashes. -/
def fileToDirectory : List Act :=
  [.call [{ upsertOf pathA [] (some (knownDigests [120])) with
      operation := .delete, content := none }, upsertOf ⟨["a", "b"], by decide⟩ [121] none],
    .step, .step, .step, .step, .step, .step, .crash]

def recoveredFile (σ : World) : Except WorkspaceError (Option Bytes) :=
  σ.store.recover.map fun v => v.tree.files ["a"]

theorem changesets_not_crash_safe :
    -- the changeset has returned, and is reverted
    ((worldAfter oneFile markerFirst).outcome = some .returned ∧
      (worldAfter oneFile markerFirst).store.tree.files ["a"] = some [121] ∧
      (recoveredFile (worldAfter oneFile markerFirst)).toOption = some (some [120]) ∧
      ¬ CrashSafe .filesystem (worldAfter oneFile markerFirst)) ∧
    -- the changeset has raised, and no later one can begin
    ((worldAfter oneFile backupFirst).outcome = some .raised ∧
      (recoveredFile (worldAfter oneFile backupFirst)).toOption = none) ∧
    -- the changeset is interrupted, and no later one can begin
    (recoveredFile (worldAfter oneFile fileToDirectory)).toOption = none := by
  have hreturned : (worldAfter oneFile markerFirst).outcome = some .returned := by decide +kernel
  have hnow : (worldAfter oneFile markerFirst).store.tree.files ["a"] = some [121] := by
    decide +kernel
  have hlater : (recoveredFile (worldAfter oneFile markerFirst)).toOption = some (some [120]) := by
    decide +kernel
  refine ⟨⟨hreturned, hnow, hlater, fun h => ?_⟩, ⟨by decide +kernel, by decide +kernel⟩,
    by decide +kernel⟩
  obtain ⟨v, hv, _, hfiles⟩ := h.recovers
  rw [recoveredFile, hv] at hlater
  have hold : v.tree.files ["a"] = some [120] := Option.some.inj hlater
  rw [hfiles, ← (h.returned hreturned).2, hnow] at hold
  revert hold
  decide

end Runs

end Fairy.Workspace
