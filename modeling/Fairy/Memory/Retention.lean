import Fairy.Memory.Operations
import Fairy.Lib.Batch

namespace Fairy.Memory

open Fairy.Lib
open Fairy.Commanding (Uuid Time)

structure MemoryPayloadPurgeResult where
  observations : Nat
  claims : Nat
  deriving DecidableEq

/-- `_PURGED_TEXT`. -/
def purgedText : String := "[purged]"

/-- `{"purged": True}`. -/
def purgedValue : Json := .obj [("purged", .bool true)]

/-- `_PURGED_HASH`. -/
def Hashing.purgedHash (x : Hashing) : String := x.sha256 purgedText

/-- `_PURGED_FINGERPRINT`. -/
def Hashing.purgedFingerprint (x : Hashing) : String := x.sha256 "fairy-memory-payload-purged"

/-- A revision whose text is purged. -/
def RevisionRow.purged (x : Hashing) (row : RevisionRow) : RevisionRow :=
  { row with
    value := purgedValue
    normalizedText := purgedText
    contentFingerprint := x.purgedFingerprint }

/-- The order of `created_at, id`. -/
def TombstoneRow.earlier : TombstoneRow → TombstoneRow → Bool := byKeys (·.createdAt) (·.id)

namespace MemoryStore

variable (x : Hashing) (s : MemoryStore)

/-- The tombstones that a purge selects from. -/
def dueTombstones (before : Time) : List TombstoneRow :=
  s.tombstones.select fun row => row.createdAt ≤ before ∧
    row.targetKind ∈ [MemoryTargetKind.observation, .claim]

/-- The tombstones that one call looks at. -/
def purgeBatch (before : Time) (limit : Nat) : List TombstoneRow :=
  batch TombstoneRow.earlier limit (s.dueTombstones before)

/-- `_snapshot_bound_sources`. -/
def SnapshotBound (kind : MemorySourceKind) (id : Uuid) : Prop :=
  ∃ item ∈ s.snapshotItems, item.sourceKind = kind ∧ item.sourceId = id

instance {s : MemoryStore} {kind : MemorySourceKind} {id : Uuid} :
    Decidable (s.SnapshotBound kind id) :=
  inferInstanceAs (Decidable (∃ item ∈ s.snapshotItems, item.sourceKind = kind ∧ item.sourceId = id))

/-- The targets of one kind in a batch, without those a snapshot is bound to. -/
def purgeTargets (batch : List TombstoneRow) (target : MemoryTargetKind)
    (source : MemorySourceKind) : List Uuid :=
  (batch.filter fun row => row.targetKind = target ∧ ¬ s.SnapshotBound source row.targetId).map
    (·.targetId)

def removeDocuments (kind : MemorySourceKind) (ids : List Uuid) : MemoryStore :=
  { s with documents := s.documents.delete fun d => d.sourceKind = kind ∧ d.sourceId ∈ ids }

/-- Without ids, the statements of `_purge_observations` change nothing. -/
def purgeObservations (ids : List Uuid) : MemoryStore × Nat :=
  let t := s.removeDocuments .observation ids
  let count := (t.observations.select fun row =>
    row.id ∈ ids ∧ row.status = .forgotten ∧ row.content ≠ purgedText).length
  let observations := t.observations.update
    (fun row => row.id ∈ ids ∧ row.status = .forgotten ∧ row.content ≠ purgedText)
    fun row => { row with
      content := purgedText
      contentHash := x.purgedHash
      contentFingerprint := x.purgedFingerprint }
  ({ t with observations }, count)

/-- Without ids, the statements of `_purge_claims` change nothing. -/
def purgeClaims (ids : List Uuid) : MemoryStore × Nat :=
  let t := s.removeDocuments .claimRevision ids
  let count := (t.claims.select fun row =>
    row.id ∈ ids ∧ row.status = .forgotten ∧ row.subject ≠ purgedText).length
  let revisions := t.revisions.update (fun row => row.claimId ∈ ids) (RevisionRow.purged x)
  let claims := t.claims.update
    (fun row => row.id ∈ ids ∧ row.status = .forgotten ∧ row.subject ≠ purgedText)
    fun row => { row with
      subject := purgedText
      predicate := purgedText
      contentFingerprint := x.purgedFingerprint }
  ({ t with revisions, claims }, count)

def purgeForgottenPayloads (before : Time) (limit : Nat) :
    Except MemoryError (MemoryStore × MemoryPayloadPurgeResult) :=
  if ¬ (1 ≤ limit ∧ limit ≤ 10000) then
    .error (.valueError "memory retention limit must be between 1 and 10,000")
  else
    let batch := s.purgeBatch before limit
    let observationIds := s.purgeTargets batch .observation .observation
    let claimIds := s.purgeTargets batch .claim .claimRevision
    let (t, observations) := s.purgeObservations x observationIds
    let (u, claims) := t.purgeClaims x claimIds
    .ok (u, ⟨observations, claims⟩)

end MemoryStore

end Fairy.Memory
