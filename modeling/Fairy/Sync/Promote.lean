import Mathlib.Logic.Basic
import Fairy.Sync.Models

namespace Fairy.Sync

namespace ProjectRevisionState

variable {s : ProjectRevisionState} {versionId : String} {expectedRevision : Int}

/-- `promote` refuses the version. -/
def Refuses (s : ProjectRevisionState) (versionId : String) (expectedRevision : Int) : Prop :=
  expectedRevision ≠ s.revision ∧ ¬ s.Replays versionId expectedRevision

instance (s : ProjectRevisionState) (versionId : String) (expectedRevision : Int) :
    Decidable (s.Refuses versionId expectedRevision) := inferInstanceAs (Decidable (_ ∧ _))

theorem refuses_congr {t : ProjectRevisionState} (hr : t.revision = s.revision)
    (ha : t.activeVersionId = s.activeVersionId) :
    t.Refuses versionId expectedRevision ↔ s.Refuses versionId expectedRevision := by
  unfold Refuses Replays
  rw [hr, ha]

/-- The version among the candidates, once. -/
def retain (s : ProjectRevisionState) (versionId : String) : ProjectRevisionState :=
  { s with
    candidateVersionIds :=
      if versionId ∈ s.candidateVersionIds then s.candidateVersionIds
      else s.candidateVersionIds ++ [versionId] }

theorem mem_retain : versionId ∈ (s.retain versionId).candidateVersionIds := by
  unfold retain
  by_cases h : versionId ∈ s.candidateVersionIds
  · simp [h]
  · simp [h]

theorem mem_retain_of_mem {u : String} (hu : u ∈ s.candidateVersionIds) :
    u ∈ (s.retain versionId).candidateVersionIds := by
  unfold retain
  dsimp only
  split
  · exact hu
  · exact List.mem_append_left _ hu

theorem retain_eq_self : s.retain versionId = s ↔ versionId ∈ s.candidateVersionIds := by
  unfold retain
  by_cases h : versionId ∈ s.candidateVersionIds
  · simp [h]
  · simp only [h, if_false, iff_false]
    intro he
    have hc := congrArg candidateVersionIds he
    simp at hc

/-- The revision the project has after the call. -/
def revisionAfter (s : ProjectRevisionState) (expectedRevision : Int) : Nat :=
  if expectedRevision = s.revision then s.revision + 1 else s.revision

theorem promote_refuses (h : s.Refuses versionId expectedRevision) :
    s.promote versionId expectedRevision = (.error (.versionConflict
      (conflictMessage expectedRevision s.revision)), s.retain versionId) := by
  unfold promote
  rw [if_pos h.1, if_neg h.2]
  rfl

theorem promote_accepts (h : ¬ s.Refuses versionId expectedRevision) :
    (s.promote versionId expectedRevision).1 = .ok () := by
  unfold promote
  split
  · rename_i hne
    rw [if_pos (not_not.mp fun hr => h ⟨hne, hr⟩)]
  · rfl

theorem promote_revision :
    (s.promote versionId expectedRevision).2.revision = s.revisionAfter expectedRevision := by
  unfold promote revisionAfter
  by_cases he : expectedRevision = s.revision
  · rw [if_neg (not_not.mpr he), if_pos he]
  · rw [if_pos he, if_neg he]
    split
    · rfl
    · rfl

/-- `promote` leaves the project as it is. -/
def Settled (s : ProjectRevisionState) (versionId : String) (expectedRevision : Int) : Prop :=
  expectedRevision ≠ s.revision ∧
    (s.Replays versionId expectedRevision ∨ versionId ∈ s.candidateVersionIds)

theorem promote_eq_self :
    (s.promote versionId expectedRevision).2 = s ↔ s.Settled versionId expectedRevision := by
  unfold promote Settled
  by_cases he : expectedRevision = s.revision
  · rw [if_neg (not_not.mpr he)]
    constructor
    · intro h
      have hr := congrArg revision h
      simp at hr
    · intro h
      exact absurd he h.1
  · rw [if_pos he]
    by_cases hr : s.Replays versionId expectedRevision
    · simp [he, hr]
    · rw [if_neg hr]
      simp only [ne_eq, he, not_false_eq_true, hr, false_or, true_and]
      exact retain_eq_self

end ProjectRevisionState

end Fairy.Sync
