import Fairy.Memory.Effects
import Fairy.Memory.Models

namespace Fairy.Memory

open Fairy.Lib
open Fairy.Commanding (Uuid Time LedgerEvent)

structure MemoryProjectionHealth where
  generation : Nat
  state : ProjectionState
  sourceWatermarkCursor : Nat
  projectedWatermarkCursor : Nat
  lastErrorCode : Option String
  deriving DecidableEq

def MemorySourceKind.value : MemorySourceKind → String
  | .claimRevision => "claim_revision"
  | .observation => "observation"
  | .domainEvent => "domain_event"

namespace MemorySearchDocument

/-- `__post_init__`, for a document in the language that the projection writes. -/
def validate (d : MemorySearchDocument) : Except MemoryError Unit :=
  if ∃ r ∈ d.sourceRevision, r < 1 then .error (.valueError "source_revision must be positive")
  else if d.sourceKind = .claimRevision ∧ d.sourceRevision = none then
    .error (.valueError "Claim revision documents require source_revision")
  else if Text.strip d.normalizedText = "" then .error (.valueError "normalized_text is required")
  else if d.sourceCursor < 1 then .error (.valueError "source_cursor must be positive")
  else if d.projectionGeneration < 1 then
    .error (.valueError "projection_generation must be positive")
  else if d.namespaceOf = some .projectCanonical ∧ d.projectId = none then
    .error (.valueError "project_canonical document requires project_id")
  else if d.namespaceOf = some .conversationDraft ∧ d.conversationId = none then
    .error (.valueError "conversation_draft document requires conversation_id")
  else .ok ()

/-- The order of the documents of a refresh. -/
def order (a b : MemorySearchDocument) : Bool :=
  ((compare a.sourceKind.value b.sourceKind.value).then ((compare a.sourceId b.sourceId).then
    (compare (a.sourceRevision.getD 0) (b.sourceRevision.getD 0)))).isLE

end MemorySearchDocument

/-- What a document keeps of the scope of its source. -/
structure ProjectionScope where
  projectId : Option Uuid
  conversationId : Option Uuid
  taskId : Option Uuid
  versionId : Option Uuid

/-- `_projection_scope`. -/
def projectionScope (n : MemoryNamespace) (scope : ProjectionScope) : ProjectionScope :=
  match n with
  | .userProfile => ⟨none, none, none, none⟩
  | .projectCanonical => { scope with conversationId := none, taskId := none }
  | .conversationDraft => { scope with taskId := none }
  | .taskEpisode | .deviceLocal => scope

def observationSupportsClaim (o : MemoryObservation) (c : MemoryClaim) : Bool :=
  match c.namespaceOf with
  | .projectCanonical => o.projectId = c.projectId
  | .conversationDraft => some o.conversationId = c.conversationId
  | .taskEpisode => some o.taskId = c.taskId
  | .userProfile => true
  | .deviceLocal => false

section Documents

variable (x : Hashing) (p : ContentScan) (s : MemoryStore) (generation : Nat)

/-- `MemorySearchDocument.create`. -/
def createDocument (sourceKind : MemorySourceKind) (sourceId : Uuid) (sourceRevision : Option Nat)
    (n : MemoryNamespace) (scope : ProjectionScope) (normalizedText : String)
    (sourceCursor : Nat) : Except MemoryError MemorySearchDocument := do
  let normalized := Text.strip normalizedText
  let document : MemorySearchDocument :=
    { sourceKind, sourceId, sourceRevision, namespaceOf := some n, projectId := scope.projectId
      conversationId := scope.conversationId, taskId := scope.taskId, versionId := scope.versionId
      language := "und", normalizedText := normalized, contentHash := x.sha256 normalized
      sourceCursor, projectionGeneration := generation }
  document.validate
  return document

def observationDocument (o : MemoryObservation) :
    Except MemoryError (Option MemorySearchDocument) :=
  if p.isObservationRetrievable o = false then return none
  else do
    let scope := projectionScope o.proposedNamespace
      ⟨o.projectId, some o.conversationId, some o.taskId, o.versionId⟩
    let document ← createDocument x generation .observation o.id none o.proposedNamespace scope
      o.content o.sourceCursor
    return some document

def currentRevision (c : MemoryClaim) : Option RevisionRow :=
  (s.revisionsForClaim c.id).find? fun r => r.revision = c.currentRevision

/-- Every source of a revision is there, retrievable and in the scope of the claim. -/
def sourcesSupport (c : MemoryClaim) (r : RevisionRow) : Bool :=
  r.sourceObservationIds.all fun id =>
    match s.observationRow id with
    | none => false
    | some o => p.isObservationRetrievable o.toMemoryObservation &&
        observationSupportsClaim o.toMemoryObservation c

def sourceCursors (r : RevisionRow) : List Nat :=
  r.sourceObservationIds.filterMap fun id => (s.observationRow id).map (·.sourceCursor)

def claimDocument (at' : Time) (c : MemoryClaim) :
    Except MemoryError (Option MemorySearchDocument) :=
  if c.status ∉ [ClaimStatus.active, .conflicted] then return none
  else
    match currentRevision s c with
    | none => return none
    | some r =>
      if isRevisionCurrent r.toMemoryClaimRevision at' = false then return none
      else if (p.scanContent r.normalizedText .privateText).allowed = false then return none
      else if sourcesSupport p s c r = false then return none
      else
        match (sourceCursors s r).max? with
        | none => throw (.valueError "max() arg is an empty sequence")
        | some cursor => do
          let scope := projectionScope c.namespaceOf
            ⟨c.projectId, c.conversationId, c.taskId, c.versionId⟩
          let document ← createDocument x generation .claimRevision c.id (some r.revision)
            c.namespaceOf scope s!"{c.subject} {c.predicate} {r.normalizedText}" cursor
          return some document

/-- The documents that a refresh computes from what it has read. -/
def deriveDocuments (at' : Time) : Except MemoryError (List MemorySearchDocument) := do
  let observations ← (s.observationsForProjection.mergeSort fun a b => a.id ≤ b.id).mapM
    (observationDocument x p generation)
  let claims ← s.claimsForProjection.mapM (claimDocument x p s generation at')
  return (observations ++ claims).reduceOption.mergeSort MemorySearchDocument.order

end Documents

namespace MemoryStore

variable (x : Hashing) (s : MemoryStore)

def currentCursor : Nat := (s.events.rows.map (·.cursor)).foldr max 0

/-- `remove_source`, for every observation and every claim that a refresh has read. -/
def removeSources (view : MemoryStore) : MemoryStore :=
  (s.removeDocuments .observation (view.observations.rows.map (·.id))).removeDocuments
    .claimRevision (view.claims.rows.map (·.id))

def upsertDocument (document : MemorySearchDocument) : Except MemoryError MemoryStore :=
  match s.documents.find? document.key with
  | none => .ok { s with documents := s.documents.upsert document trivial }
  | some stored =>
    if document.sourceCursor > stored.sourceCursor ∨
        document.sourceCursor = stored.sourceCursor ∧ document.contentHash = stored.contentHash then
      .ok { s with documents := s.documents.upsert document trivial }
    else if stored.sourceCursor = document.sourceCursor then
      .error (.memoryConflict "projection source cursor has conflicting content")
    else .ok s

def upsertDocuments (documents : List MemorySearchDocument) : Except MemoryError MemoryStore :=
  documents.foldlM upsertDocument s

def advanceCheckpoint (generation sourceWatermarkCursor : Nat) :
    MemoryStore × MemoryProjectionHealth :=
  let row : CheckpointRow :=
    match s.checkpoints.find? generation with
    | none => ⟨generation, sourceWatermarkCursor, sourceWatermarkCursor, .ready, none⟩
    | some stored =>
      ⟨generation, max stored.sourceWatermarkCursor sourceWatermarkCursor,
        max stored.projectedWatermarkCursor sourceWatermarkCursor, .ready, none⟩
  ({ s with checkpoints := s.checkpoints.upsert row trivial },
    ⟨generation, .ready, min sourceWatermarkCursor row.projectedWatermarkCursor,
      row.projectedWatermarkCursor, none⟩)

/-- `available` is `sqlite_fts_available`. -/
def health (available : Bool) (generation sourceWatermarkCursor : Nat) : MemoryProjectionHealth :=
  let unavailable : MemoryProjectionHealth :=
    ⟨generation, .unavailable, sourceWatermarkCursor, 0, some "MEMORY_PROJECTION_UNAVAILABLE"⟩
  if available = false then unavailable
  else
    match s.checkpoints.find? generation with
    | none => unavailable
    | some row =>
      if row.state = .ready ∧ row.projectedWatermarkCursor < sourceWatermarkCursor then
        ⟨generation, .stale, sourceWatermarkCursor, row.projectedWatermarkCursor,
          some "MEMORY_PROJECTION_STALE"⟩
      else if row.state = .ready then
        ⟨generation, .ready, sourceWatermarkCursor, row.projectedWatermarkCursor, none⟩
      else ⟨generation, row.state, sourceWatermarkCursor, row.projectedWatermarkCursor,
        row.lastErrorCode⟩

/-- The transaction of a refresh, with the documents that it has computed from `view`, the cursor
that it has read and the event of its completion. -/
def completeRefresh (view : MemoryStore) (documents : List MemorySearchDocument) (cursor : Nat)
    (completed : LedgerEvent) : Except MemoryError MemoryStore := do
  let replaced ← (s.removeSources view).upsertDocuments documents
  let (advanced, health) := replaced.advanceCheckpoint 1 cursor
  let recorded ← advanced.recordEvent completed
  return (recorded.advanceCheckpoint health.generation recorded.currentCursor).1

end MemoryStore

/-- What the permanent deletion of a conversation or of a project purges of the memory. -/
inductive ContentPurge
  | conversation (conversationId : Uuid) (taskIds snapshotIds : List Uuid)
  | project (projectId : Uuid)

namespace MemoryStore

variable (s : MemoryStore)

/-- `_delete_memory_claims`. -/
def deleteClaims (ids : List Uuid) : MemoryStore :=
  { s with
    tombstones := s.tombstones.delete fun t => t.targetId ∈ ids
    revisions := s.revisions.delete fun r => r.claimId ∈ ids
    claims := s.claims.delete fun c => c.id ∈ ids }

/-- The claims that a purge deletes. -/
def purgedClaims : ContentPurge → List Uuid
  | .conversation conversationId taskIds _ =>
    (s.claims.select fun c => c.conversationId = some conversationId ∨
      ∃ task ∈ c.taskId, task ∈ taskIds).map (·.id)
  | .project projectId => (s.claims.select fun c => c.projectId = some projectId).map (·.id)

/-- `purge_conversation_content` and `purge_project_content`. -/
def purgeContent (purge : ContentPurge) : MemoryStore :=
  let t := s.deleteClaims (s.purgedClaims purge)
  match purge with
  | .conversation conversationId taskIds snapshotIds =>
    { t with
      snapshotItems := t.snapshotItems.filter fun item => item.snapshotId ∉ snapshotIds
      documents := t.documents.delete fun d => d.conversationId = some conversationId ∨
        ∃ task ∈ d.taskId, task ∈ taskIds
      observations := t.observations.delete fun o => o.conversationId = conversationId }
  | .project projectId =>
    { t with documents := t.documents.delete fun d => d.projectId = some projectId }

end MemoryStore

end Fairy.Memory
