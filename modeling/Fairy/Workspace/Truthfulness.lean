import Fairy.Workspace.Approvals
import Fairy.Workspace.Changesets
import Fairy.Workspace.Recovery

namespace Fairy.Workspace

open Fairy.Lib

section Apply

variable {sha256 : Bytes → String} {side : Provisioner} {faults : Faults} {t u : Tree}
  {ms : List WorkspaceFileMutation}

theorem runUntil_ok {calls : List (FileCall String Bytes)} {stop : Option Nat}
    (h : runUntil t calls stop = (u, true)) : FileCall.runAll t calls = .ok u := by
  fun_induction runUntil t calls stop with
  | case1 t => exact congrArg Except.ok (Prod.mk.inj h).1
  | case2 t call calls => cases (Prod.mk.inj h).2
  | case3 t call calls stop _ error hrun => cases (Prod.mk.inj h).2
  | case4 t call calls stop _ v hrun ih => rw [FileCall.runAll_cons hrun, ih h]

/-- A changeset whose application returns has had its effect. -/
theorem applyWithin_files (h : applyWithin sha256 side faults t ms = (u, true)) :
    u.files = ms.foldl (fun f m => m.effect f) t.files := by
  simp only [applyWithin] at h
  split at h
  · cases h
  split at h
  · cases h
  · cases h
  split at h
  · rename_i v hrun
    split at h
    · cases h
    · cases h
      exact changesetCalls_files (runUntil_ok hrun)
  · cases h

theorem runUntil_of_runAll {calls : List (FileCall String Bytes)}
    (h : FileCall.runAll t calls = .ok u) : runUntil t calls none = (u, true) := by
  induction calls generalizing t with
  | nil => exact congrArg (·, true) (Except.ok.inj h)
  | cons call calls ih =>
    obtain ⟨v, hv, hrest⟩ := FileCall.runAll_cons_ok h
    simp only [runUntil, hv]
    exact ih hrest

/-- However far the calls come, the journal covers the tree that they leave. -/
theorem covers_runUntil {j : UndoJournal String Bytes} {old : Files}
    {calls : List (FileCall String Bytes)} {stop : Option Nat} (h : j.Covers old t)
    (htarget : ∀ call ∈ calls, ∀ p, call.target = some p → p ∈ j.paths)
    (hdirectory : ∀ p, .ensureDirectory p ∈ calls → p ∉ j.paths) :
    j.Covers old (runUntil t calls stop).1 := by
  fun_induction runUntil t calls stop with
  | case1 => exact h
  | case2 => exact h
  | case3 => exact h
  | case4 t call calls stop _ v hrun ih =>
    refine ih (h.run ⟨htarget call (.head _), fun p hp _ => ?_⟩ hrun)
      (fun c hc => htarget c (.tail _ hc)) fun p hp => hdirectory p (.tail _ hp)
    exact hdirectory p (hp ▸ .head _)

theorem backUpAll_ok {paths : List WorkspacePath}
    {y z : List JournalEntry × Finmap fun _ : Nat => Bytes}
    (h : TransactionDirectory.backUpAll t paths y = .ok z) (hc : Complete y.2 y.1)
    (hj : ∀ e ∈ journal y.2 y.1, t.files e.1 = e.2 ∧ ¬ t.IsDirectory e.1) :
    Complete z.2 z.1 ∧ (∀ e ∈ journal z.2 z.1, t.files e.1 = e.2 ∧ ¬ t.IsDirectory e.1) ∧
      z.1.map (·.relativePath) = y.1.map (·.relativePath) ++ paths := by
  induction paths generalizing y with
  | nil =>
    obtain rfl := Except.ok.inj h
    exact ⟨hc, hj, (List.append_nil _).symm⟩
  | cons path paths ih =>
    simp only [TransactionDirectory.backUpAll] at h
    split at h
    · cases h
    rename_i w hw
    obtain ⟨hpaths, hcomplete, hfile, hjournal⟩ := backUp_ok hw hc
    obtain ⟨hz, hjz, hpz⟩ := ih h hcomplete fun e he => by
      rw [hjournal] at he
      obtain he | he := List.mem_append.mp he
      · exact hj e he
      · rw [List.mem_singleton.mp he]
        exact ⟨rfl, hfile⟩
    exact ⟨hz, hjz, by rw [hpz, hpaths, List.append_assoc]; rfl⟩

/-- The changeset makes no directory at one of its own paths. -/
def Apart (side : Provisioner) (ms : List WorkspaceFileMutation) : Prop :=
  ∀ p, .ensureDirectory p ∈ changesetCalls side ms → p ∉ (changesetPaths ms).map (·.parts)

/-- An application that is broken off leaves the files as they were, unless its undoing is
broken off too. -/
theorem applyWithin_restores (hundo : faults.undo = none) (hapart : Apart side ms)
    (h : applyWithin sha256 side faults t ms = (u, false)) : u.files = t.files := by
  simp only [applyWithin] at h
  split at h
  · rw [(Prod.mk.inj h).1]
  split at h
  · rw [(Prod.mk.inj h).1]
  · rw [(Prod.mk.inj h).1]
  rename_i entries backups _ hbackup
  obtain ⟨hcomplete, hjournal, hpaths⟩ :=
    backUpAll_ok hbackup (fun x hx => absurd hx List.not_mem_nil) nofun
  have hpaths : entries.map (·.relativePath) = changesetPaths ms := hpaths
  have hjp : (journal backups entries).paths = (changesetPaths ms).map (·.parts) := by
    rw [journal_paths, ← hpaths, List.map_map]
    rfl
  have hcovers : (journal backups entries).Covers t.files
      (runUntil t (changesetCalls side ms) faults.perform).1 := by
    refine covers_runUntil (covers_of_files rfl hjournal) (fun call hc p hp => ?_) fun p hp => ?_
    · rw [hjp]
      exact changesetCalls_target hc hp
    · rw [hjp]
      exact hapart p hp
  obtain ⟨v, hv, hfiles⟩ := hcovers.undo
  rw [← rollback_eq hcomplete] at hv
  have hback := runUntil_of_runAll hv
  split at h
  · rename_i t' hrun
    rw [hrun] at hback
    split at h
    · rw [hundo, hback] at h
      rw [← (Prod.mk.inj h).1, hfiles]
    · cases h
  · rename_i t' hrun
    rw [hrun] at hback
    rw [hundo, hback] at h
    rw [← (Prod.mk.inj h).1, hfiles]

end Apply

namespace Decision

variable {S : Type} {x : ProjectIndexer S} {side : Provisioner} {revision : Option Nat}
  {faults : Faults} {approved : Bool} {σ : Decision S}

/-- What the status after a decision says of the files and of the index. -/
def Truthful (x : ProjectIndexer S) (before after : Decision S) : Prop :=
  (after.changeset.status = .failed → after.tree.files = before.tree.files) ∧
    (before.changeset.status ≠ .applied → after.changeset.status = .applied →
      after.tree.files =
        before.changeset.mutations.foldl (fun f m => m.effect f) before.tree.files ∧
      ∃ index, after.index = some index ∧ x.Describes index after.tree)

/-- The state in which the files are touched. -/
def underway (σ : Decision S) (tree : Tree) : Decision S :=
  { σ with tree, changeset := ⟨σ.changeset.mutations, .applying, .approved⟩ }

theorem record_applies (h : σ.Applies revision faults approved) :
    σ.record approved =
      some { σ with changeset := { σ.changeset with decision := .approved } } := by
  obtain ⟨rfl, hstatus, hdecision, _⟩ := h
  obtain ⟨tree, index, mutations, status, decision⟩ := σ
  subst hstatus
  cases decision with
  | pending => rfl
  | approved => rfl
  | rejected => exact absurd rfl hdecision

theorem decideApproval_applies (h : σ.Applies revision faults approved) :
    σ.decideApproval x side revision faults approved =
      (σ.underway σ.tree).apply x side revision faults := by
  obtain ⟨rfl, hstatus, _, hrecord, hstart, _, _⟩ := id h
  have hgo : ¬ (true = false ∨ σ.changeset.status ≠ .awaitingApproval ∨ faults.start = true) := by
    simp [hstatus, hstart]
  simp only [decideApproval, hrecord, record_applies h, if_neg hgo]
  rfl

theorem decideApproval_broken (h : σ.Applies revision faults approved) {tree : Tree}
    (ha : applyWithin x.sha256 side faults σ.tree σ.changeset.mutations = (tree, false)) :
    σ.decideApproval x side revision faults approved = (σ.underway tree).failed faults := by
  rw [decideApproval_applies h]
  obtain ⟨_, _, _, _, _, hdecode, hrevision⟩ := h
  simp only [apply, underway, hdecode, hrevision, ha, Bool.false_eq_true, if_false]

theorem decideApproval_returned (h : σ.Applies revision faults approved) {tree : Tree}
    (ha : applyWithin x.sha256 side faults σ.tree σ.changeset.mutations = (tree, true)) :
    σ.decideApproval x side revision faults approved = (σ.underway tree).refresh x faults := by
  rw [decideApproval_applies h]
  obtain ⟨_, _, _, _, _, hdecode, hrevision⟩ := h
  simp only [apply, underway, hdecode, hrevision, ha, Bool.false_eq_true, if_false]

/-- What recording a decision changes. -/
theorem record_some {τ : Decision S} (h : σ.record approved = some τ) :
    τ.tree = σ.tree ∧ τ.changeset.mutations = σ.changeset.mutations ∧
      (τ.changeset.status = .rejected ∨ τ.changeset.status = σ.changeset.status) ∧
      (approved = true → σ.changeset.decision ≠ .rejected ∧
        τ.changeset.status = σ.changeset.status) := by
  obtain ⟨tree, index, mutations, status, decision⟩ := σ
  cases decision with
  | pending =>
    by_cases hstatus : status = .awaitingApproval
    · subst hstatus
      cases approved with
      | false =>
        obtain rfl := Option.some.inj h
        exact ⟨rfl, rfl, .inl rfl, nofun⟩
      | true =>
        obtain rfl := Option.some.inj h
        exact ⟨rfl, rfl, .inr rfl, fun _ => ⟨nofun, rfl⟩⟩
    · simp [record, hstatus] at h
  | approved =>
    cases approved with
    | false => simp [record] at h
    | true =>
      obtain rfl := Option.some.inj h
      exact ⟨rfl, rfl, .inr rfl, fun _ => ⟨nofun, rfl⟩⟩
  | rejected =>
    cases approved with
    | false =>
      obtain rfl := Option.some.inj h
      exact ⟨rfl, rfl, .inr rfl, nofun⟩
    | true => simp [record] at h

theorem failed_tree : (σ.failed faults).tree = σ.tree := by
  rw [failed]
  split <;> rfl

theorem failed_status (h : σ.changeset.status ≠ .applied) :
    (σ.failed faults).changeset.status ≠ .applied := by
  rw [failed]
  split
  · exact h
  · exact nofun

/-- Where a decision does not come to the files, it leaves them, and applies nothing. -/
theorem decideApproval_idle (h : ¬ σ.Applies revision faults approved) :
    (σ.decideApproval x side revision faults approved).tree = σ.tree ∧
      ((σ.decideApproval x side revision faults approved).changeset.status = .applied →
        σ.changeset.status = .applied) := by
  simp only [decideApproval]
  split
  · exact ⟨rfl, id⟩
  rename_i hrecord
  split
  · exact ⟨rfl, id⟩
  rename_i τ hτ
  obtain ⟨htree, hmutations, hstatus, happroved⟩ := record_some hτ
  split
  · refine ⟨htree, fun happlied => ?_⟩
    obtain hrejected | hsame := hstatus
    · rw [hrejected] at happlied
      cases happlied
    · rw [← hsame, happlied]
  rename_i hgo
  rw [not_or, not_or] at hgo
  obtain ⟨hyes, hawaiting, hstart⟩ := hgo
  have hyes : approved = true := by simpa using hyes
  obtain ⟨hdecision, hsame⟩ := happroved hyes
  have happlying : (τ.withStatus .applying).changeset.status ≠ .applied := nofun
  simp only [apply]
  split
  · exact ⟨failed_tree.trans htree, fun happlied => absurd happlied (failed_status happlying)⟩
  rename_i hdecode
  split
  · exact ⟨failed_tree.trans htree, fun happlied => absurd happlied (failed_status happlying)⟩
  rename_i hrevision
  refine absurd ⟨hyes, ?_, hdecision, by simpa using hrecord, by simpa using hstart,
    by simpa using hdecode, ?_⟩ h
  · rw [← hsame]
    exact not_not.mp hawaiting
  · rw [← hmutations]
    exact hrevision

theorem truthful_applying (tree : Tree) : Truthful x σ (σ.underway tree) :=
  ⟨nofun, fun _ => nofun⟩

/-- A recorded failure tells the truth where the files are as they were. -/
theorem truthful_failed (tree : Tree) : Truthful x σ ((σ.underway tree).failed faults) ↔
    (tree.files ≠ σ.tree.files → faults.fail = false → False) := by
  cases hfail : faults.fail with
  | true => simpa [failed, hfail] using truthful_applying tree
  | false =>
    simp only [failed, hfail, Bool.false_eq_true, if_false]
    refine ⟨fun h hne _ => hne (h.1 rfl), fun h => ⟨fun _ => ?_, fun _ => nofun⟩⟩
    exact not_not.mp fun hne => h hne trivial

theorem truthful_applied {tree : Tree} {index : ProjectIndex S}
    (htree : tree.files =
      σ.changeset.mutations.foldl (fun f m => m.effect f) σ.tree.files)
    (hindex : x.Describes index tree) :
    Truthful x σ { (σ.underway tree).withStatus .applied with index := some index } :=
  ⟨nofun, fun _ _ => ⟨htree, index, rfl, hindex⟩⟩

theorem refresh_tree : (σ.refresh x faults).tree = σ.tree := by
  simp only [refresh]
  split
  · exact failed_tree
  split
  · exact failed_tree
  split <;> rfl

theorem decideApproval_tree (h : σ.Applies revision faults approved) :
    (σ.decideApproval x side revision faults approved).tree =
      (applyWithin x.sha256 side faults σ.tree σ.changeset.mutations).1 := by
  cases ha : applyWithin x.sha256 side faults σ.tree σ.changeset.mutations with
  | mk tree done =>
    cases done with
    | false => rw [decideApproval_broken h ha, failed_tree, underway]
    | true => rw [decideApproval_returned h ha, refresh_tree, underway]

theorem failed_mutations :
    (σ.failed faults).changeset.mutations = σ.changeset.mutations := by
  rw [failed]
  split <;> rfl

theorem refresh_mutations :
    (σ.refresh x faults).changeset.mutations = σ.changeset.mutations := by
  simp only [refresh]
  split
  · exact failed_mutations
  split
  · exact failed_mutations
  split <;> rfl

/-- No decision changes what a changeset asks for. -/
theorem decideApproval_mutations :
    (σ.decideApproval x side revision faults approved).changeset.mutations =
      σ.changeset.mutations := by
  simp only [decideApproval]
  split
  · rfl
  split
  · rfl
  rename_i τ hτ
  have hmutations := (record_some hτ).2.1
  split
  · exact hmutations
  rw [← hmutations]
  simp only [apply]
  split
  · exact failed_mutations
  split
  · exact failed_mutations
  split
  · exact failed_mutations
  · exact refresh_mutations

/-- Whenever `apply_changeset` leaves other files than it found, it returns, and the reply and
the new index come; or not even the failure is recorded. -/
def Unharmed (x : ProjectIndexer S) (side : Provisioner) (faults : Faults) (σ : Decision S) :
    Prop :=
  let applied := applyWithin x.sha256 side faults σ.tree σ.changeset.mutations
  applied.1.files ≠ σ.tree.files → faults.fail = false →
    applied.2 = true ∧ faults.reply = false ∧
      (x.build applied.1 ((σ.index.map (·.generation)).getD 0 + 1)).isSome

/-- The status that a decision leaves tells the truth if and only if no exception comes
after the files have changed, from the broken-off undoing of the changes, from the reply,
from the stored index or from the building of the new one. -/
theorem changeset_status_truthful_iff (x : ProjectIndexer S) (side : Provisioner)
    (revision : Option Nat) (faults : Faults) (approved : Bool) (σ : Decision S) :
    Truthful x σ (σ.decideApproval x side revision faults approved) ↔
      (σ.Applies revision faults approved → σ.Unharmed x side faults) := by
  by_cases h : σ.Applies revision faults approved
  · cases ha : applyWithin x.sha256 side faults σ.tree σ.changeset.mutations with
    | mk tree done =>
      simp only [h, true_implies, Unharmed, ha]
      cases done with
      | false =>
        rw [decideApproval_broken h ha, truthful_failed]
        simp
      | true =>
        rw [decideApproval_returned h ha]
        simp only [refresh]
        cases hbuild : x.build tree ((σ.index.map (·.generation)).getD 0 + 1) with
        | none =>
          have hnone : x.build (σ.underway tree).tree
              (((σ.underway tree).index.map (·.generation)).getD 0 + 1) = none := hbuild
          rw [hnone, truthful_failed]
          simp
        | some index =>
          have hsome : x.build (σ.underway tree).tree
              (((σ.underway tree).index.map (·.generation)).getD 0 + 1) = some index := hbuild
          rw [hsome]
          cases hreply : faults.reply with
          | true =>
            simp only [if_true]
            rw [truthful_failed]
            simp
          | false =>
            have htrue : Truthful x σ (if faults.settle then σ.underway tree
                else { (σ.underway tree).withStatus .applied with index := some index }) := by
              split
              · exact truthful_applying tree
              · exact truthful_applied (applyWithin_files ha) (ProjectIndexer.build_describes hbuild)
            simpa using htrue
  · obtain ⟨htree, happlied⟩ := decideApproval_idle h
    refine ⟨fun _ hyes => absurd hyes h, fun _ => ⟨fun _ => by rw [htree], fun hnot hyes => ?_⟩⟩
    exact absurd (happlied hyes) hnot

end Decision

/-- `_pyproject_summary` raises where the project names no dependencies. -/
def sampleIndexer : ProjectIndexer Unit where
  sha256 := knownDigests
  casefold s := s
  semantics path data := if path = ["pyproject.toml"] ∧ data = [10] then none else some ()

def pyproject : WorkspacePath := ⟨["pyproject.toml"], by decide⟩

/-- A changeset that writes an empty `pyproject.toml` is about to be decided. -/
def emptyManifest : Decision Unit :=
  ⟨.empty, none, ⟨[upsertOf pyproject [10] none], .awaitingApproval, .pending⟩⟩

/-- The changeset is `FAILED`, and the file is there. -/
theorem changeset_status_untruthful :
    ¬ Decision.Truthful sampleIndexer emptyManifest
      (emptyManifest.decideApproval sampleIndexer .filesystem none .none true) := by
  have hstatus : (emptyManifest.decideApproval sampleIndexer .filesystem none .none
      true).changeset.status = .failed := by
    decide +kernel
  have hfile : (emptyManifest.decideApproval sampleIndexer .filesystem none .none
      true).tree.files ["pyproject.toml"] = some [10] := by
    decide +kernel
  have hbefore : emptyManifest.tree.files ["pyproject.toml"] = none := by decide +kernel
  intro h
  rw [h.1 hstatus, hbefore] at hfile
  cases hfile

end Fairy.Workspace
