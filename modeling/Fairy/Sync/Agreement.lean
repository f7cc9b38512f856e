import Fairy.Sync.Decisions
import Fairy.Sync.InMemory

namespace Fairy.Sync

open Fairy.Lib

section

variable {F : Type} (fingerprint : Json → F)

/-- A stored event agrees with a replay in every field that may not change. -/
structure Agrees (stored : SyncedEvent) (e : EventFields) : Prop where
  runId : stored.runId = e.runId
  deviceId : stored.deviceId = e.deviceId
  projectId : stored.projectId = e.projectId
  conversationId : stored.conversationId = e.conversationId
  taskId : stored.taskId = e.taskId
  versionId : stored.versionId = e.versionId
  taskSequence : stored.taskSequence = e.taskSequence
  schemaVersion : stored.schemaVersion = e.schemaVersion
  eventType : stored.eventType = e.eventType
  visibility : stored.visibility = e.visibility
  message : stored.message = e.message
  payload : fingerprint stored.payload = fingerprint e.payload

/-- Payloads with one fingerprint hold the same integers at the same places. -/
def Separates : Prop :=
  ∀ p q : Json, fingerprint p = fingerprint q → ∀ path, p.int? path = q.int? path

end

variable {F : Type} [DecidableEq F] {fingerprint : Json → F}

theorem changed_eq_nil {fields : List (String × Bool)} :
    changed fields = [] ↔ ∀ f ∈ fields, f.2 = false := by
  simp [changed, List.filter_eq_nil_iff]

theorem InMemorySyncStore.mismatched_eq_nil {stored : SyncedEvent} {e : EventFields} :
    mismatched fingerprint stored e = [] ↔ Agrees fingerprint stored e := by
  unfold mismatched
  rw [changed_eq_nil]
  constructor
  · intro h
    simp only [List.forall_mem_cons, decide_eq_false_iff_not, not_not] at h
    obtain ⟨h1, h2, h3, h4, h5, h6, h7, h8, h9, h10, h11, h12, _⟩ := h
    exact ⟨h1, h2, h3, h4, h5, h6, h7, h8, h9, h10, h11, h12⟩
  · intro h
    simp [h.runId, h.deviceId, h.projectId, h.conversationId, h.taskId, h.versionId,
      h.taskSequence, h.schemaVersion, h.eventType, h.visibility, h.message, h.payload]

theorem SyncDatabase.mismatched_eq_nil {stored : SyncedEvent} {userId : String}
    {e : EventFields} : mismatched fingerprint stored userId e = [] ↔
      stored.userId = userId ∧ Agrees fingerprint stored e := by
  unfold mismatched
  rw [changed_eq_nil]
  constructor
  · intro h
    simp only [List.forall_mem_cons, decide_eq_false_iff_not, not_not] at h
    obtain ⟨h1, hu, h2, h3, h4, h5, h6, h7, h8, h9, h10, h11, h12, _⟩ := h
    exact ⟨hu, h1, h2, h3, h4, h5, h6, h7, h8, h9, h10, h11, h12⟩
  · rintro ⟨hu, h⟩
    simp [hu, h.runId, h.deviceId, h.projectId, h.conversationId, h.taskId, h.versionId,
      h.taskSequence, h.schemaVersion, h.eventType, h.visibility, h.message, h.payload]

section

variable {r : PromoteRequest} {eventId : String} {scope : DecisionScope} {conflict conflict' : Bool}
  {revision revision' : Nat} {stored : SyncedEvent}

theorem decisionEvent_revision : (r.decisionEvent eventId scope conflict revision).payload.int?
    ["payload", "project_revision"] = some (revision : Int) := rfl

theorem decisionEvent_schema :
    1 ≤ (r.decisionEvent eventId scope conflict revision).schemaVersion := Int.le_refl 1

theorem decisionEvent_type (h : (r.decisionEvent eventId scope conflict revision).eventType =
    (r.decisionEvent eventId scope conflict' revision').eventType) : conflict = conflict' := by
  revert h
  cases conflict <;> cases conflict' <;> simp [PromoteRequest.decisionEvent]

omit [DecidableEq F] in
/-- A decision event replays another of the same request just when it records the
same decision at the same revision. -/
theorem Agrees.decision_iff (hf : Separates fingerprint)
    (h : Agrees fingerprint stored (r.decisionEvent eventId scope conflict revision)) :
    Agrees fingerprint stored (r.decisionEvent eventId scope conflict' revision') ↔
      conflict' = conflict ∧ revision' = revision := by
  constructor
  · intro h'
    refine ⟨decisionEvent_type (h'.eventType.symm.trans h.eventType), ?_⟩
    have hint := hf _ _ (h'.payload.symm.trans h.payload) ["payload", "project_revision"]
    rw [decisionEvent_revision, decisionEvent_revision] at hint
    exact Int.ofNat.inj (Option.some.inj hint)
  · rintro ⟨rfl, rfl⟩
    exact h

end

namespace ProjectRevisionState

variable {s t : ProjectRevisionState} {versionId : String} {expectedRevision : Int}

/-- The project is a later state of another: its revision has not gone back, and with
the same revision it has the same active version. -/
structure Later (s t : ProjectRevisionState) : Prop where
  revision : s.revision ≤ t.revision
  active : t.revision = s.revision → t.activeVersionId = s.activeVersionId

theorem Later.refl (s : ProjectRevisionState) : s.Later s := ⟨Nat.le_refl _, fun _ => rfl⟩

theorem Later.trans {u : ProjectRevisionState} (h : s.Later t) (h' : t.Later u) : s.Later u := by
  have hs := h.revision
  have ht := h'.revision
  refine ⟨Nat.le_trans hs ht, fun he => ?_⟩
  rw [h'.active (by omega), h.active (by omega)]

/-- A project that has answered a request: it would give the same decision again. -/
structure Answers (s : ProjectRevisionState) (versionId : String) (expectedRevision : Int)
    (conflict : Bool) (revision : Nat) : Prop where
  conflict : decide (s.Refuses versionId expectedRevision) = conflict
  revision : s.revision = revision
  passed : expectedRevision ≠ s.revision

/-- It gives that decision again at a later time just when its revision has not moved. -/
theorem Answers.again_iff {conflict : Bool} {revision : Nat}
    (h : s.Answers versionId expectedRevision conflict revision) (hl : s.Later t) :
    (decide (t.Refuses versionId expectedRevision) = conflict ∧
      t.revisionAfter expectedRevision = revision) ↔ t.revision = s.revision := by
  have hle := hl.revision
  have hrev := h.revision
  constructor
  · rintro ⟨_, hafter⟩
    unfold revisionAfter at hafter
    split at hafter
    · omega
    · omega
  · intro he
    refine ⟨?_, ?_⟩
    · rw [← h.conflict]
      exact decide_eq_decide.mpr (refuses_congr he (hl.active he))
    · unfold revisionAfter
      rw [if_neg (he ▸ h.passed), he, hrev]

theorem promote_later : s.Later (s.promote versionId expectedRevision).2 := by
  refine ⟨?_, fun he => ?_⟩
  · rw [promote_revision]
    unfold revisionAfter
    split
    · exact Nat.le_succ _
    · exact Nat.le_refl _
  · rw [promote_revision] at he
    unfold revisionAfter at he
    split at he
    · exact absurd he (Nat.succ_ne_self _)
    · rename_i hne
      unfold promote
      rw [if_pos hne]
      split
      · rfl
      · rfl

/-- A project has answered the request that it has just been asked. -/
theorem promote_answers : (s.promote versionId expectedRevision).2.Answers versionId
    expectedRevision (decide (s.Refuses versionId expectedRevision))
    (s.revisionAfter expectedRevision) := by
  by_cases he : expectedRevision = s.revision
  · have hp : (s.promote versionId expectedRevision).2.revision = s.revision + 1 := by
      rw [promote_revision, revisionAfter, if_pos he]
    have ha : (s.promote versionId expectedRevision).2.activeVersionId = some versionId := by
      unfold promote
      rw [if_neg (not_not.mpr he)]
    refine ⟨?_, promote_revision, by omega⟩
    apply decide_eq_decide.mpr
    refine iff_of_false (fun hr => ?_) (fun hr => hr.1 he)
    exact hr.2 ⟨ha, by omega⟩
  · have hp : (s.promote versionId expectedRevision).2.revision = s.revision := by
      rw [promote_revision, revisionAfter, if_neg he]
    refine ⟨decide_eq_decide.mpr (refuses_congr hp (promote_later.active hp)), promote_revision, ?_⟩
    rw [hp]
    exact he

end ProjectRevisionState

end Fairy.Sync
