import Fairy.Lib.Run
import Fairy.Workspace.Truthfulness
import Mathlib.Algebra.GroupWithZero.Nat

namespace Fairy.Workspace

open Fairy.Lib

/-- The lengths of files by their paths. -/
abbrev Sizes := Dict (List String) Nat

structure Limits where
  maxFiles : Nat
  maxBytes : Nat

/-- What a mutation makes of `indexed_sizes`, or nothing where an assertion fails. -/
def WorkspaceFileMutation.resize (m : WorkspaceFileMutation) (sizes : Sizes) : Option Sizes :=
  match m.operation with
  | .delete => some (sizes.erase m.path.parts)
  | .rename =>
    m.destinationPath.map fun destination =>
      (sizes.erase m.path.parts).insert destination.parts ((sizes.lookup m.path.parts).getD 0)
  | .upsert | .create | .update =>
    m.content.map fun content => sizes.insert m.path.parts content.length

def resizeAll (sizes : Sizes) : List WorkspaceFileMutation → Option Sizes
  | [] => some sizes
  | m :: ms =>
    match m.resize sizes with
    | none => none
    | some sizes => resizeAll sizes ms

/-- The sizes that the stored index tells. -/
def indexedSizes {S : Type} : Option (ProjectIndex S) → Sizes
  | none => ∅
  | some index => Dict.collect (fun _ file => some file.byteLength) index.files

def payloadBytes (ms : List WorkspaceFileMutation) : Nat :=
  ((ms.filterMap (·.content)).map List.length).sum

/-- `validate_changeset_limits`. -/
def validateChangesetLimits (limits : Limits) (sizes : Sizes) (ms : List WorkspaceFileMutation) :
    Except WorkspaceError Unit :=
  if payloadBytes ms > 2 * 1024 * 1024 then
    .error (.valueError "Changeset batch exceeds the 2 MiB limit")
  else
    match resizeAll sizes ms with
    | none => .error (.valueError "AssertionError")
    | some sizes =>
      if sizes.size > limits.maxFiles then .error (.valueError "Workspace file quota exceeded")
      else if sizes.total > limits.maxBytes then
        .error (.valueError "Workspace byte quota exceeded")
      else .ok ()

/-- A changeset with the sizes that it was checked against. -/
structure Proposal where
  changeset : Changeset
  checked : Sizes

/-- A version with its stored index and the changesets that were proposed to it. -/
structure ReviewedVersion (S : Type) where
  tree : Tree
  index : Option (ProjectIndex S)
  proposals : List Proposal

inductive ChangesetAct
  | propose (mutations : List WorkspaceFileMutation)
  | decide (number : Nat) (approved : Bool) (revision : Option Nat) (faults : Faults)

namespace ReviewedVersion

variable {S : Type} (x : ProjectIndexer S) (side : Provisioner) (limits : Limits)

def decision (σ : ReviewedVersion S) (p : Proposal) : Decision S := ⟨σ.tree, σ.index, p.changeset⟩

def after (σ : ReviewedVersion S) : ChangesetAct → ReviewedVersion S
  | .propose mutations =>
    match validateChangesetLimits limits (indexedSizes σ.index) mutations with
    | .error _ => σ
    | .ok () =>
      { σ with
        proposals :=
          σ.proposals ++ [⟨⟨mutations, .awaitingApproval, .pending⟩, indexedSizes σ.index⟩] }
  | .decide number approved revision faults =>
    match σ.proposals[number]? with
    | none => σ
    | some p =>
      let τ := (σ.decision p).decideApproval x side revision faults approved
      ⟨τ.tree, τ.index, σ.proposals.set number { p with changeset := τ.changeset }⟩

end ReviewedVersion

/-- The lengths of the files of a tree. -/
def fileSizes (t : Tree) : Sizes :=
  Dict.collect (fun _ n =>
    match n with
    | .file content => some content.length
    | .directory => none) t.entries

def WithinQuota (limits : Limits) (t : Tree) : Prop :=
  (fileSizes t).size ≤ limits.maxFiles ∧ (fileSizes t).total ≤ limits.maxBytes

instance (limits : Limits) (t : Tree) : Decidable (WithinQuota limits t) :=
  inferInstanceAs (Decidable (_ ∧ _))

section Sizes

variable {sizes sizes' : Sizes} {f : Files} {m : WorkspaceFileMutation}
  {ms : List WorkspaceFileMutation}

theorem lookup_fileSizes (t : Tree) (p : List String) :
    (fileSizes t).lookup p = (t.files p).map List.length := by
  simp only [fileSizes, Dict.lookup_collect, FileTree.files, FileTree.node]
  cases t.entries.lookup p with
  | none => rfl
  | some n => cases n <;> rfl

/-- Each file is accounted for with its length. -/
def Bounds (sizes : Sizes) (f : Files) : Prop :=
  ∀ p content, f p = some content → sizes.lookup p = some content.length

theorem Bounds.insert (h : Bounds sizes f) (p : List String) (content : Bytes) :
    Bounds (sizes.insert p content.length) (Function.update f p (some content)) := by
  intro q c hq
  by_cases hqp : q = p
  · subst hqp
    rw [Function.update_self] at hq
    obtain rfl := Option.some.inj hq
    exact Finmap.lookup_insert _
  · rw [Function.update_of_ne hqp] at hq
    rw [Finmap.lookup_insert_of_ne _ hqp]
    exact h q c hq

theorem Bounds.erase (h : Bounds sizes f) (p : List String) :
    Bounds (sizes.erase p) (Function.update f p none) := by
  intro q c hq
  by_cases hqp : q = p
  · subst hqp
    rw [Function.update_self] at hq
    cases hq
  · rw [Function.update_of_ne hqp] at hq
    rw [Finmap.lookup_erase_ne hqp]
    exact h q c hq

/-- The simulated sizes follow what a mutation makes of the files. -/
theorem Bounds.resize (h : Bounds sizes f) (hm : m.resize sizes = some sizes') :
    Bounds sizes' (m.effect f) := by
  have hwrite : m.content.map (fun content => sizes.insert m.path.parts content.length) =
      some sizes' → ∃ content, m.content = some content ∧
        Bounds sizes' (Function.update f m.path.parts (some content)) := by
    intro hs
    obtain ⟨content, hc, rfl⟩ := Option.map_eq_some_iff.mp hs
    exact ⟨content, hc, h.insert _ content⟩
  unfold WorkspaceFileMutation.resize at hm
  unfold WorkspaceFileMutation.effect
  cases hop : m.operation with
  | upsert =>
    obtain ⟨content, hc, hbound⟩ := hwrite (by simpa [hop] using hm)
    simpa only [hop, hc] using hbound
  | create =>
    obtain ⟨content, hc, hbound⟩ := hwrite (by simpa [hop] using hm)
    simpa only [hop, hc] using hbound
  | update =>
    obtain ⟨content, hc, hbound⟩ := hwrite (by simpa [hop] using hm)
    simpa only [hop, hc] using hbound
  | delete =>
    simp only [hop, Option.some.injEq] at hm
    subst hm
    exact h.erase _
  | rename =>
    simp only [hop] at hm
    obtain ⟨destination, hd, rfl⟩ := Option.map_eq_some_iff.mp hm
    simp only [hd]
    intro q c hq
    by_cases hqp : q = m.path.parts
    · rw [hqp, Function.update_self] at hq
      cases hq
    rw [Function.update_of_ne hqp] at hq
    by_cases hqd : q = destination.parts
    · rw [hqd, Function.update_self] at hq
      rw [hqd, Finmap.lookup_insert, h _ c hq]
      rfl
    · rw [Function.update_of_ne hqd] at hq
      rw [Finmap.lookup_insert_of_ne _ hqd, Finmap.lookup_erase_ne hqp]
      exact h q c hq

theorem Bounds.resizeAll (h : Bounds sizes f) (hm : resizeAll sizes ms = some sizes') :
    Bounds sizes' (ms.foldl (fun f m => m.effect f) f) := by
  induction ms generalizing sizes f with
  | nil =>
    obtain rfl := Option.some.inj hm
    exact h
  | cons m ms ih =>
    simp only [Workspace.resizeAll] at hm
    split at hm
    · cases hm
    · rename_i hresize
      exact ih (h.resize hresize) hm

theorem bounds_iff_covers {t : Tree} :
    Bounds sizes t.files ↔ Dict.Covers sizes (fileSizes t) := by
  constructor
  · intro h p n hn
    rw [lookup_fileSizes] at hn
    obtain ⟨content, hc, rfl⟩ := Option.map_eq_some_iff.mp hn
    exact h p content hc
  · intro h p content hc
    exact h p content.length (by rw [lookup_fileSizes, hc]; rfl)

theorem validateChangesetLimits_ok {limits : Limits}
    (h : validateChangesetLimits limits sizes ms = .ok ()) :
    ∃ sizes', Workspace.resizeAll sizes ms = some sizes' ∧
      sizes'.size ≤ limits.maxFiles ∧ sizes'.total ≤ limits.maxBytes := by
  simp only [validateChangesetLimits] at h
  split at h
  · cases h
  split at h
  · cases h
  rename_i sizes' hsizes
  split at h
  · cases h
  split at h
  · cases h
  exact ⟨sizes', hsizes, by omega, by omega⟩

end Sizes

namespace ReviewedVersion

variable {S : Type} {x : ProjectIndexer S} {side : Provisioner} {limits : Limits}
  {σ : ReviewedVersion S}

/-- A changeset that comes to be applied was checked against the lengths of all files that
it meets, and it is applied or undone to the end. -/
def Accounted (x : ProjectIndexer S) (side : Provisioner) (σ : ReviewedVersion S) :
    ChangesetAct → Prop
  | .propose _ => True
  | .decide number approved revision faults => ∀ p, σ.proposals[number]? = some p →
      (σ.decision p).Applies revision faults approved →
      Dict.Covers p.checked (fileSizes σ.tree) ∧
        ((applyWithin x.sha256 side faults σ.tree p.changeset.mutations).2 = true ∨
          faults.undo = none ∧ Apart side p.changeset.mutations)

/-- What is promised of a version with its proposals. -/
structure Kept (limits : Limits) (σ : ReviewedVersion S) : Prop where
  within : WithinQuota limits σ.tree
  checked : ∀ p ∈ σ.proposals, ∃ sizes, resizeAll p.checked p.changeset.mutations = some sizes ∧
    sizes.size ≤ limits.maxFiles ∧ sizes.total ≤ limits.maxBytes

theorem withinQuota_of_bounds {t : Tree} {sizes : Sizes} (h : Bounds sizes t.files)
    (hsize : sizes.size ≤ limits.maxFiles) (htotal : sizes.total ≤ limits.maxBytes) :
    WithinQuota limits t :=
  ⟨(bounds_iff_covers.mp h).size_le.trans hsize, (bounds_iff_covers.mp h).total_le.trans htotal⟩

theorem withinQuota_of_files {t u : Tree} (h : u.files = t.files) (ht : WithinQuota limits t) :
    WithinQuota limits u := by
  have hsizes : fileSizes u = fileSizes t := by
    apply Finmap.ext_lookup
    intro p
    rw [lookup_fileSizes, lookup_fileSizes, h]
  rwa [WithinQuota, hsizes]

theorem Kept.decided {p : Proposal} {approved : Bool} {revision : Option Nat} {faults : Faults}
    (h : Kept limits σ) (hp : p ∈ σ.proposals)
    (ha : (σ.decision p).Applies revision faults approved →
      Dict.Covers p.checked (fileSizes σ.tree) ∧
        ((applyWithin x.sha256 side faults σ.tree p.changeset.mutations).2 = true ∨
          faults.undo = none ∧ Apart side p.changeset.mutations)) :
    WithinQuota limits ((σ.decision p).decideApproval x side revision faults approved).tree := by
  by_cases happlies : (σ.decision p).Applies revision faults approved
  · obtain ⟨hcovers, hend⟩ := ha happlies
    rw [Decision.decideApproval_tree happlies]
    change WithinQuota limits (applyWithin x.sha256 side faults σ.tree p.changeset.mutations).1
    cases happly : applyWithin x.sha256 side faults σ.tree p.changeset.mutations with
    | mk tree done =>
      rw [happly] at hend
      cases done with
      | true =>
        obtain ⟨sizes, hsizes, hsize, htotal⟩ := h.checked p hp
        have hafter := (bounds_iff_covers.mpr hcovers).resizeAll hsizes
        rw [← applyWithin_files happly] at hafter
        exact withinQuota_of_bounds hafter hsize htotal
      | false =>
        obtain ⟨hundo, hapart⟩ := hend.resolve_left nofun
        exact withinQuota_of_files (applyWithin_restores hundo hapart happly) h.within
  · rw [(Decision.decideApproval_idle happlies).1]
    exact h.within

theorem Kept.after (h : Kept limits σ) {act : ChangesetAct} (ha : σ.Accounted x side act) :
    Kept limits (σ.after x side limits act) := by
  cases act with
  | propose mutations =>
    simp only [ReviewedVersion.after]
    split
    · exact h
    · rename_i hvalid
      refine ⟨h.within, fun p hp => ?_⟩
      obtain hp | hp := List.mem_append.mp hp
      · exact h.checked p hp
      · rw [List.mem_singleton.mp hp]
        exact validateChangesetLimits_ok hvalid
  | decide number approved revision faults =>
    simp only [ReviewedVersion.after]
    split
    · exact h
    · rename_i p hp
      have hmem := List.mem_of_getElem? hp
      refine ⟨h.decided hmem (ha p hp), fun q hq => ?_⟩
      obtain hq | rfl := List.mem_or_eq_of_mem_set hq
      · exact h.checked q hq
      · rw [Decision.decideApproval_mutations]
        exact h.checked p hmem

end ReviewedVersion

section Runs

end Runs

end Fairy.Workspace
