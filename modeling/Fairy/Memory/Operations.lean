import Fairy.Memory.Repository

namespace Fairy.Memory.MemoryStore

open Fairy.Lib
open Fairy.Commanding (Uuid Time EventVisibility LedgerEvent)

variable (x : Hashing) (s : MemoryStore)

/-- `INSERT ... ON CONFLICT DO NOTHING` into `memory_observations`. -/
def insertObservation (row : ObservationRow) : MemoryStore :=
  let observations := s.observations.insertUnless
    (fun other => other.id = row.id ∨ other.requestFingerprint = row.requestFingerprint) row
    (fun _ h => .inl h) trivial
  { s with observations }

/-- `INSERT ... ON CONFLICT DO NOTHING` into `memory_claims`. -/
def insertClaim (row : ClaimRow) : MemoryStore :=
  let claims := s.claims.insertUnless
    (fun other => other.id = row.id ∨ other.requestFingerprint = row.requestFingerprint) row
    (fun _ h => .inl h) trivial
  { s with claims }

/-- `INSERT ... ON CONFLICT DO NOTHING` into `memory_tombstones`. -/
def insertTombstone (row : TombstoneRow) : MemoryStore :=
  let tombstones := s.tombstones.insertUnless
    (fun other => other.id = row.id ∨
      (other.targetKind = row.targetKind ∧ other.targetId = row.targetId) ∨
      other.requestFingerprint = row.requestFingerprint) row
    (fun _ h => .inl h) trivial
  { s with tombstones }

def appendObservation (o : MemoryObservation) (requestFingerprint : String) :
    Except MemoryError MemoryStore := do
  validateRequestFingerprint requestFingerprint
  let content := x.fingerprint (observationFingerprint o)
  s.verifyObservationSource o
  let t := s.insertObservation ⟨o, requestFingerprint, content⟩
  match t.observationByRequest requestFingerprint with
  | none =>
    if (t.observationRow o.id).isSome then
      throw (.memoryConflict "memory Observation ID is already in use")
    else throw (.memoryConflict "memory Observation could not be inserted")
  | some row =>
    verifyContentFingerprint row.contentFingerprint content "Observation"
    return t

def transitionObservation (observationId : Uuid) (expectedStatus status : ObservationStatus) :
    Except MemoryError MemoryStore :=
  match s.observationRow observationId with
  | none => .error (.keyError s!"memory Observation not found: {observationId}")
  | some current =>
    if current.status = status then .ok s
    else do
      let changed ← current.toMemoryObservation.transitionTo status
      if ∃ row ∈ s.observations.rows, row.id = observationId ∧ row.status = expectedStatus then
        let observations := s.observations.update
          (fun row => row.id = observationId ∧ row.status = expectedStatus)
          fun row => { row with status := changed.status }
        return { s with observations }
      else throw (.memoryConflict "memory Observation status changed")

def createClaim (claim : MemoryClaim) (requestFingerprint : String) :
    Except MemoryError MemoryStore := do
  validateRequestFingerprint requestFingerprint
  let content := x.fingerprint (claimFingerprint claim)
  let t := s.insertClaim ⟨claim, requestFingerprint, content⟩
  match t.claimByRequest requestFingerprint with
  | none =>
    if (t.claimRow claim.id).isSome then
      throw (.memoryConflict "memory Claim ID is already in use")
    else throw (.memoryConflict "memory Claim could not be inserted")
  | some row =>
    verifyContentFingerprint row.contentFingerprint content "Claim"
    return t

/-- `expected_revision or None`. -/
def expectedSuperseded (expectedRevision : Nat) : Option Nat :=
  if expectedRevision = 0 then none else some expectedRevision

/-- The status of a claim with a new revision. -/
def revisedStatus (now : Time) (status : ClaimStatus) (revision : MemoryClaimRevision) :
    ClaimStatus :=
  if ∃ t ∈ revision.validTo, t ≤ now then .expired
  else if status ∈ [ClaimStatus.candidate, .expired] then .active
  else status

def advancedClaim (now : Time) (revision : MemoryClaimRevision) (status : ClaimStatus)
    (row : ClaimRow) : ClaimRow :=
  { row with currentRevision := revision.revision, status := status, updatedAt := now }

/-- `UPDATE memory_claims` with the number of a new revision. -/
def advanceClaim (now : Time) (expectedRevision : Nat) (revision : MemoryClaimRevision)
    (targetStatus : ClaimStatus) : Except MemoryError MemoryStore :=
  if ∃ row ∈ s.claims.rows, row.id = revision.claimId ∧ row.currentRevision = expectedRevision ∧
      row.status ≠ .forgotten then
    let claims := s.claims.update
      (fun row => row.id = revision.claimId ∧ row.currentRevision = expectedRevision ∧
        row.status ≠ .forgotten)
      (advancedClaim now revision targetStatus)
    .ok { s with claims }
  else .error (.memoryConflict "Claim revision changed concurrently")

/-- `UPDATE memory_claim_revisions SET is_current = false` for one claim. -/
def retireRevisions (claimId : Uuid) : MemoryStore :=
  let revisions := s.revisions.update (fun row => row.claimId = claimId ∧ row.isCurrent)
    fun row => { row with isCurrent := false }
  { s with revisions }

def newRevisionRow (revision : MemoryClaimRevision) (resolvedClaimIds : List Uuid)
    (requestFingerprint : String) : RevisionRow where
  toMemoryClaimRevision := { revision with resolvedClaimIds }
  isCurrent := true
  requestFingerprint := requestFingerprint
  contentFingerprint := x.fingerprint (revisionFingerprint revision resolvedClaimIds)

/-- `INSERT` into `memory_claim_revisions`. -/
def insertRevision (row : RevisionRow) : Except MemoryError MemoryStore :=
  if ∃ other ∈ s.revisions.rows, other.claimId = row.claimId ∧
      other.requestFingerprint = row.requestFingerprint then
    .error (.integrityError "uq_memory_claim_revisions_tenant_request")
  else
    match s.revisions.insertAll [row] with
    | none => .error (.integrityError "memory_claim_revisions")
    | some revisions => .ok { s with revisions := revisions }

/-- The claim of a write, which must not be forgotten. -/
def requireClaim (claimId : Uuid) : Except MemoryError ClaimRow :=
  match s.claimRow claimId with
  | none => .error (.keyError s!"memory Claim not found: {claimId}")
  | some claim =>
    if claim.status = .forgotten then
      .error (.memoryForgotten s!"memory Claim has been forgotten: {claimId}")
    else .ok claim

def requireExpected (claimId : Uuid) (expectedRevision : Nat) (revision : MemoryClaimRevision) :
    Except MemoryError Unit :=
  if revision.claimId ≠ claimId ∨ revision.revision ≠ expectedRevision + 1 then
    .error (.memoryConflict "Claim revision does not match the expected revision")
  else if revision.supersedesRevision ≠ expectedSuperseded expectedRevision then
    .error (.memoryConflict "Claim revision does not supersede the expected revision")
  else .ok ()

def requireAppendable (claim : ClaimRow) : Except MemoryError Unit :=
  if claim.status ∉ [ClaimStatus.candidate, .active, .conflicted, .expired] then
    .error (.memoryConflict s!"cannot append a revision to a {claim.status.value} Claim")
  else .ok ()

def requireCurrent (claim : ClaimRow) (expectedRevision : Nat) : Except MemoryError Unit :=
  if claim.currentRevision ≠ expectedRevision then
    .error (.memoryConflict (s!"expected Claim revision {expectedRevision}, " ++
      s!"current revision is {claim.currentRevision}"))
  else .ok ()

/-- The three statements of a new revision; the claim is read back after them. -/
def writeRevision (now : Time) (claim : ClaimRow) (expectedRevision : Nat)
    (revision : MemoryClaimRevision) (resolvedClaimIds : List Uuid)
    (requestFingerprint : String) : Except MemoryError (MemoryStore × MemoryClaim) := do
  let advanced ←
    s.advanceClaim now expectedRevision revision (revisedStatus now claim.status revision)
  let retired := if expectedRevision = 0 then advanced else advanced.retireRevisions claim.id
  let inserted ← retired.insertRevision (newRevisionRow x revision resolvedClaimIds
    requestFingerprint)
  match inserted.claimRow claim.id with
  | none => .error .assertionError
  | some updated => .ok (inserted, updated.toMemoryClaim)

/-- `_append_revision`; the claim is the one it returns. -/
def appendRevisionWith (now : Time) (claimId : Uuid) (expectedRevision : Nat)
    (revision : MemoryClaimRevision) (resolvedClaimIds : List Uuid)
    (requestFingerprint : String) : Except MemoryError (MemoryStore × MemoryClaim) := do
  validateRequestFingerprint requestFingerprint
  requireExpected claimId expectedRevision revision
  let claim ← s.requireClaim claimId
  requireAppendable claim
  match s.revisionByRequest claimId requestFingerprint with
  | some replay =>
    verifyContentFingerprint replay.contentFingerprint
      (x.fingerprint (revisionFingerprint revision resolvedClaimIds)) "Claim revision"
    return (s, claim.toMemoryClaim)
  | none =>
    requireCurrent claim expectedRevision
    s.verifyRevisionSources claim.toMemoryClaim revision
    s.writeRevision x now claim expectedRevision revision resolvedClaimIds requestFingerprint

def appendRevision (now : Time) (claimId : Uuid) (expectedRevision : Nat)
    (revision : MemoryClaimRevision) (requestFingerprint : String) :
    Except MemoryError MemoryStore :=
  (s.appendRevisionWith x now claimId expectedRevision revision [] requestFingerprint).map Prod.fst

def verifyConflictSet (conflictSetId : Option Uuid) (resolvedId : Uuid) :
    Except MemoryError Unit :=
  match s.claimRow resolvedId with
  | none => .error (.memoryConflict "resolved Claims must belong to the same conflict set")
  | some resolved =>
    if resolved.conflictSetId ≠ conflictSetId then
      .error (.memoryConflict "resolved Claims must belong to the same conflict set")
    else .ok ()

/-- The status of a claim whose conflict is resolved. -/
def resolvedStatus (now : Time) (revision : MemoryClaimRevision) : ClaimStatus :=
  if ∃ t ∈ revision.validTo, t ≤ now then .expired else .active

def settledClaim (updatedAt : Time) (status : ClaimStatus) (row : ClaimRow) : ClaimRow :=
  { row with status := status, updatedAt := updatedAt }

/-- `UPDATE memory_claims` with the status of a claim whose conflict is resolved. -/
def settleClaim (updatedAt : Time) (claimId : Uuid) (updated : MemoryClaim)
    (status : ClaimStatus) : MemoryStore :=
  let claims := s.claims.update
    (fun row => row.id = claimId ∧ row.currentRevision = updated.currentRevision)
    (settledClaim updatedAt status)
  { s with claims }

def requireConflicted (claim : ClaimRow) : Except MemoryError Unit :=
  if claim.status ≠ .conflicted then .error (.memoryConflict "memory Claim is not conflicted")
  else .ok ()

/-- The clock is read again for the status of the claim and for its `updated_at`. -/
def resolveConflict (now decidedAt updatedAt : Time) (claimId : Uuid) (expectedRevision : Nat)
    (revision : MemoryClaimRevision) (resolvedClaimIds : List Uuid)
    (requestFingerprint : String) : Except MemoryError MemoryStore :=
  if resolvedClaimIds = [] then
    .error (.valueError "conflict resolution requires resolved_claim_ids")
  else do
    validateRequestFingerprint requestFingerprint
    let current ← s.requireClaim claimId
    match s.revisionByRequest claimId requestFingerprint with
    | some replay =>
      verifyContentFingerprint replay.contentFingerprint
        (x.fingerprint (revisionFingerprint revision resolvedClaimIds)) "Claim revision"
      return s
    | none =>
      requireConflicted current
      resolvedClaimIds.forM (s.verifyConflictSet current.conflictSetId)
      let (t, updated) ← s.appendRevisionWith x now claimId expectedRevision revision
        resolvedClaimIds requestFingerprint
      return t.settleClaim updatedAt claimId updated (resolvedStatus decidedAt revision)

def forgottenClaim (row : ClaimRow) : ClaimRow := { row with status := .forgotten }

def forgottenObservation (row : ObservationRow) : ObservationRow :=
  { row with status := .forgotten }

/-- `UPDATE ... SET status = 'forgotten'` of the target of a tombstone. -/
def forgetTarget (kind : MemoryTargetKind) (targetId : Uuid) : MemoryStore :=
  if kind = .claim then
    let claims := s.claims.update (fun row => row.id = targetId) forgottenClaim
    { s with claims }
  else
    let observations := s.observations.update (fun row => row.id = targetId) forgottenObservation
    { s with observations }

def hasTarget (kind : MemoryTargetKind) (targetId : Uuid) : Bool :=
  if kind = .claim then (s.claimRow targetId).isSome else (s.observationRow targetId).isSome

def requireTarget (tombstone : MemoryTombstone) : Except MemoryError Unit :=
  if s.hasTarget tombstone.targetKind tombstone.targetId then .ok ()
  else .error (.keyError s!"memory target not found: {tombstone.targetId}")

def requireTargetKind (kind : MemoryTargetKind) : Except MemoryError Unit :=
  if kind ∉ [MemoryTargetKind.claim, .observation] then
    .error (.valueError "target memory kind is not persisted in this delivery slice")
  else .ok ()

def requireSameRequest (row : TombstoneRow) (requestFingerprint : String) :
    Except MemoryError Unit :=
  if row.requestFingerprint ≠ requestFingerprint then
    .error (.memoryConflict "memory target was forgotten by another request")
  else .ok ()

def forget (tombstone : MemoryTombstone) (requestFingerprint : String) :
    Except MemoryError MemoryStore := do
  validateRequestFingerprint requestFingerprint
  let content := x.fingerprint (tombstoneFingerprint tombstone)
  requireTargetKind tombstone.targetKind
  let _ ← s.verifySourceEvent tombstone.sourceEventId
  s.requireTarget tombstone
  let t := s.insertTombstone ⟨tombstone, requestFingerprint, content⟩
  match t.tombstoneByTarget tombstone.targetKind tombstone.targetId with
  | none => throw (.memoryConflict "memory Tombstone could not be inserted")
  | some row =>
    verifyContentFingerprint row.contentFingerprint content "Tombstone"
    requireSameRequest row requestFingerprint
    let forgotten := t.forgetTarget tombstone.targetKind tombstone.targetId
    return if tombstone.targetKind = .claim then forgotten.retireRevisions tombstone.targetId
      else forgotten

end Fairy.Memory.MemoryStore
