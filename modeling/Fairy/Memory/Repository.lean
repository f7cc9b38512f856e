import Fairy.Memory.Models
import Fairy.Lib.Batch

namespace Fairy.Memory

open Fairy.Lib
open Fairy.Commanding (Uuid Time EventVisibility LedgerEvent)

/-- A row of `memory_observations`. -/
structure ObservationRow extends MemoryObservation where
  requestFingerprint : String
  contentFingerprint : String
  deriving DecidableEq

/-- A row of `memory_claims`. -/
structure ClaimRow extends MemoryClaim where
  requestFingerprint : String
  contentFingerprint : String
  deriving DecidableEq

/-- A row of `memory_claim_revisions`. -/
structure RevisionRow extends MemoryClaimRevision where
  isCurrent : Bool
  requestFingerprint : String
  contentFingerprint : String
  deriving DecidableEq

/-- A row of `memory_tombstones`. -/
structure TombstoneRow extends MemoryTombstone where
  requestFingerprint : String
  contentFingerprint : String
  deriving DecidableEq

/-- A row of `memory_snapshot_items`. -/
structure SnapshotItemRow where
  snapshotId : Uuid
  ordinal : Nat
  sourceKind : MemorySourceKind
  sourceId : Uuid
  deriving DecidableEq

def RevisionRow.key (r : RevisionRow) : Uuid × Nat := (r.claimId, r.revision)

/-- `ck_memory_claim_revisions_revision`. -/
def RevisionRow.Numbered (r : RevisionRow) : Prop := 1 ≤ r.revision

instance : DecidablePred RevisionRow.Numbered := fun r => inferInstanceAs (Decidable (1 ≤ r.revision))

/-- The primary key of `memory_search_documents`, which stores no revision as 0. -/
def MemorySearchDocument.key (d : MemorySearchDocument) : Nat × MemorySourceKind × Uuid × Nat :=
  (d.projectionGeneration, d.sourceKind, d.sourceId, d.sourceRevision.getD 0)

/-- A row of `memory_projection_checkpoints`. -/
structure CheckpointRow where
  generation : Nat
  sourceWatermarkCursor : Nat
  projectedWatermarkCursor : Nat
  state : ProjectionState
  lastErrorCode : Option String
  deriving DecidableEq

/-- The tables as one tenant's memory sees them. -/
structure MemoryStore where
  events : Table LedgerEvent LedgerEvent.eventId fun _ => True
  observations : Table ObservationRow (·.id) fun _ => True
  claims : Table ClaimRow (·.id) fun _ => True
  revisions : Table RevisionRow RevisionRow.key RevisionRow.Numbered
  tombstones : Table TombstoneRow (·.id) fun _ => True
  snapshotItems : List SnapshotItemRow
  documents : Table MemorySearchDocument MemorySearchDocument.key fun _ => True
  checkpoints : Table CheckpointRow (·.generation) fun _ => True

/-- The payloads that `_fingerprint` digests. -/
inductive Payload
  | observation (projectId : Option Uuid) (conversationId taskId : Uuid)
      (versionId : Option Uuid) (scopeDigest : String) (sourceEventId : Uuid)
      (sourceCursor : Nat) (sourceType : MemorySourceType) (content contentHash : String)
      (proposedNamespace : MemoryNamespace) (authority : MemoryAuthority)
      (confidence : Confidence) (sensitivity : MemorySensitivity) (actor : String)
  | claim (namespaceOf : MemoryNamespace) (projectId conversationId taskId versionId : Option Uuid)
      (deviceId : Option String) (subject predicate : String) (currentRevision : Nat)
      (status : ClaimStatus)
  | revision (claimId : Uuid) (revision : Nat) (value : Json) (normalizedText : String)
      (sourceObservationIds sourceEventIds : List Uuid) (authority : MemoryAuthority)
      (confidence : Confidence) (validFrom validTo : Option Time) (actor : String)
      (supersedesRevision : Option Nat) (resolvedClaimIds : List Uuid)
  | tombstone (targetKind : MemoryTargetKind) (targetId : Uuid) (reason actor : String)
      (sourceEventId : Uuid)

def observationFingerprint (o : MemoryObservation) : Payload :=
  .observation o.projectId o.conversationId o.taskId o.versionId o.scopeDigest o.sourceEventId
    o.sourceCursor o.sourceType o.content o.contentHash o.proposedNamespace o.authority
    o.confidence o.sensitivity o.actor

def claimFingerprint (c : MemoryClaim) : Payload :=
  .claim c.namespaceOf c.projectId c.conversationId c.taskId c.versionId c.deviceId c.subject
    c.predicate c.currentRevision c.status

def revisionFingerprint (r : MemoryClaimRevision) (resolvedClaimIds : List Uuid) : Payload :=
  .revision r.claimId r.revision r.value r.normalizedText r.sourceObservationIds r.sourceEventIds
    r.authority r.confidence r.validFrom r.validTo r.actor r.supersedesRevision resolvedClaimIds

def tombstoneFingerprint (t : MemoryTombstone) : Payload :=
  .tombstone t.targetKind t.targetId t.reason t.actor t.sourceEventId

/-- `hashlib.sha256` of a text in hexadecimal, and the canonical `json.dumps` of a payload. -/
structure Hashing where
  sha256 : String → String
  dumps : Payload → String

/-- `_fingerprint`. -/
def Hashing.fingerprint (x : Hashing) (p : Payload) : String := x.sha256 (x.dumps p)

def validateRequestFingerprint (value : String) : Except MemoryError Unit :=
  if value.toList.length = 64 ∧ value.toList.all (fun c => c.isDigit ∨ ('a' ≤ c ∧ c ≤ 'f')) then
    .ok ()
  else .error (.valueError "request_fingerprint must be a lowercase SHA-256 digest")

def verifyContentFingerprint (stored expected kind : String) : Except MemoryError Unit :=
  if stored ≠ expected then .error (.memoryConflict s!"{kind} replay content does not match")
  else .ok ()

/-- The order of `source_cursor, id`. -/
def observationOrder : MemoryObservation → MemoryObservation → Bool :=
  byKeys (·.sourceCursor) (·.id)

namespace MemoryStore

def empty : MemoryStore := ⟨.empty, .empty, .empty, .empty, .empty, [], .empty, .empty⟩

section Read

variable (s : MemoryStore)

def observationRow (id : Uuid) : Option ObservationRow := s.observations.find? id

def claimRow (id : Uuid) : Option ClaimRow := s.claims.find? id

def observationByRequest (fingerprint : String) : Option ObservationRow :=
  s.observations.oneOrNone fun row => row.requestFingerprint = fingerprint

def claimByRequest (fingerprint : String) : Option ClaimRow :=
  s.claims.oneOrNone fun row => row.requestFingerprint = fingerprint

def revisionByRequest (claimId : Uuid) (fingerprint : String) : Option RevisionRow :=
  s.revisions.oneOrNone fun row => row.claimId = claimId ∧ row.requestFingerprint = fingerprint

def tombstoneByTarget (kind : MemoryTargetKind) (targetId : Uuid) : Option TombstoneRow :=
  s.tombstones.oneOrNone fun row => row.targetKind = kind ∧ row.targetId = targetId

def verifySourceEvent (eventId : Uuid) : Except MemoryError LedgerEvent :=
  match s.events.find? eventId with
  | none => .error (.memoryConflict s!"memory source event not found: {eventId}")
  | some event =>
    if event.visibility = .internal then
      .error (.memoryConflict "internal events cannot become memory provenance")
    else .ok event

def verifyObservationSource (o : MemoryObservation) : Except MemoryError Unit := do
  let event ← s.verifySourceEvent o.sourceEventId
  if event.cursor ≠ o.sourceCursor ∨ event.projectId ≠ o.projectId ∨
      event.conversationId ≠ some o.conversationId ∨ event.taskId ≠ some o.taskId ∨
      event.versionId ≠ o.versionId then
    throw (.memoryConflict "Observation provenance does not match its source event")

def observationMatchesClaim (o : MemoryObservation) (c : MemoryClaim) : Bool :=
  match c.namespaceOf with
  | .projectCanonical => o.projectId = c.projectId
  | .conversationDraft => some o.conversationId = c.conversationId
  | .taskEpisode => some o.taskId = c.taskId
  | .userProfile | .deviceLocal => true

def verifySourceObservation (c : MemoryClaim) (observationId : Uuid) : Except MemoryError Unit :=
  match s.observationRow observationId with
  | none => .error (.memoryConflict s!"source Observation is unavailable: {observationId}")
  | some o =>
    if o.status = .forgotten then
      .error (.memoryConflict s!"source Observation is unavailable: {observationId}")
    else if observationMatchesClaim o.toMemoryObservation c then .ok ()
    else .error (.memoryConflict "source Observation is outside the Claim Scope")

def verifyRevisionSources (c : MemoryClaim) (r : MemoryClaimRevision) : Except MemoryError Unit := do
  r.sourceObservationIds.forM (s.verifySourceObservation c)
  r.sourceEventIds.forM fun eventId => (s.verifySourceEvent eventId).map fun _ => ()

def getObservation (id : Uuid) (includeForgotten : Bool) :
    Except MemoryError (Option MemoryObservation) :=
  match s.observationRow id with
  | none => .ok none
  | some row =>
    if row.status = .forgotten ∧ includeForgotten = false then
      .error (.memoryForgotten s!"memory Observation has been forgotten: {id}")
    else .ok (some row.toMemoryObservation)

def getClaim (id : Uuid) (includeForgotten : Bool) : Except MemoryError (Option MemoryClaim) :=
  match s.claimRow id with
  | none => .ok none
  | some row =>
    if row.status = .forgotten ∧ includeForgotten = false then
      .error (.memoryForgotten s!"memory Claim has been forgotten: {id}")
    else .ok (some row.toMemoryClaim)

/-- In the order of `revision`. -/
def revisionsForClaim (claimId : Uuid) : List RevisionRow :=
  (s.revisions.select fun row => row.claimId = claimId).mergeSort fun a b => a.revision ≤ b.revision

def observationsForProjection : List MemoryObservation :=
  (s.observations.rows.map (·.toMemoryObservation)).mergeSort observationOrder

def claimsForProjection : List MemoryClaim :=
  (s.claims.rows.map (·.toMemoryClaim)).mergeSort fun a b => a.id ≤ b.id

end Read

end MemoryStore

/-- What a scoped read is bound to. -/
structure ReadScope where
  projectId : Option Uuid := none
  conversationId : Option Uuid := none
  taskId : Option Uuid := none
  deviceId : Option String := none
  deriving DecidableEq

namespace ReadScope

def required (scope : ReadScope) (n : MemoryNamespace) : Except MemoryError Unit :=
  if n = .projectCanonical ∧ scope.projectId = none then
    .error (.valueError s!"{n.value} read requires project_id")
  else if n = .conversationDraft ∧ scope.conversationId = none then
    .error (.valueError s!"{n.value} read requires conversation_id")
  else if n = .deviceLocal ∧ scope.deviceId = none then
    .error (.valueError s!"{n.value} read requires device_id")
  else if n = .taskEpisode ∧ scope.taskId = none then
    .error (.valueError s!"{n.value} read requires task_id")
  else .ok ()

/-- `_validate_read_scope`. -/
def validate (scope : ReadScope) (n : MemoryNamespace) : Except MemoryError Unit := do
  scope.required n
  if n = .userProfile ∧ (scope.projectId ≠ none ∨ scope.conversationId ≠ none ∨
      scope.taskId ≠ none ∨ scope.deviceId ≠ none) then
    throw (.valueError "user_profile read cannot bind project, conversation, task, or device")

/-- `_scope_statement`: a column that the scope leaves open is not compared. -/
def admits {α : Type} [DecidableEq α] (bound : Option α) (column : Option α) : Bool :=
  match bound with
  | none => true
  | some value => column = some value

def admitsObservation (scope : ReadScope) (o : MemoryObservation) : Bool :=
  admits scope.projectId o.projectId && admits scope.conversationId (some o.conversationId) &&
    admits scope.taskId (some o.taskId)

def admitsClaim (scope : ReadScope) (c : MemoryClaim) : Bool :=
  admits scope.projectId c.projectId && admits scope.conversationId c.conversationId &&
    admits scope.taskId c.taskId && admits scope.deviceId c.deviceId

end ReadScope

namespace MemoryStore

variable (s : MemoryStore)

def visibleObservationStatuses : List ObservationStatus := [.pending, .accepted, .promoted]

def activeClaimStatuses : List ClaimStatus := [.active, .conflicted]

def requireReadLimit : Option Nat → Except MemoryError Unit
  | none => .ok ()
  | some limit =>
    if 1 ≤ limit ∧ limit ≤ 1000 then .ok ()
    else .error (.valueError "Observation read limit must be between 1 and 1,000")

/-- The rows that a scoped read of the observations selects. -/
def scopedObservations (n : MemoryNamespace) (scope : ReadScope) (retrievableOnly : Bool) :
    List MemoryObservation :=
  (s.observations.rows.map (·.toMemoryObservation)).filter fun o =>
    o.proposedNamespace = n ∧ o.status ∈ visibleObservationStatuses ∧
      (retrievableOnly → o.status ∈ [ObservationStatus.accepted, .promoted] ∧
        o.scanResult = .clean ∧ o.sensitivity ≠ .secretText) ∧
      scope.admitsObservation o

def observationsForScope (n : MemoryNamespace) (scope : ReadScope) (limit : Option Nat)
    (newestFirst retrievableOnly : Bool) : Except MemoryError (List MemoryObservation) := do
  requireReadLimit limit
  scope.validate n
  let ordered := (s.scopedObservations n scope retrievableOnly).mergeSort fun a b =>
    if newestFirst then observationOrder b a else observationOrder a b
  return match limit with
    | none => ordered
    | some l => ordered.take l

/-- The join with `memory_claim_revisions`. -/
def hasValidRevision (now : Time) (c : MemoryClaim) : Bool :=
  s.revisions.rows.any fun r =>
    r.claimId = c.id ∧ r.revision = c.currentRevision ∧ r.isCurrent ∧
      (∀ t ∈ r.validFrom, t ≤ now) ∧ ∀ t ∈ r.validTo, t > now

def claimsForScope (now : Time) (n : MemoryNamespace) (scope : ReadScope) :
    Except MemoryError (List MemoryClaim) := do
  scope.validate n
  let rows := (s.claims.rows.map (·.toMemoryClaim)).filter fun c =>
    c.namespaceOf = n ∧ c.status ∈ activeClaimStatuses ∧ s.hasValidRevision now c ∧
      scope.admitsClaim c
  return rows.mergeSort fun a b =>
    ((compare a.subject b.subject).then
      ((compare a.predicate b.predicate).then (compare a.id b.id))).isLE

end MemoryStore

end Fairy.Memory
