import Fairy.Snapshot.Selection

namespace Fairy.Snapshot

open Fairy.Lib
open Fairy.Memory
open Fairy.Commanding (Uuid Time)

inductive MemorySnapshotStatus
  | ready | degraded
  deriving DecidableEq

structure MemorySnapshotItem where
  ordinal : Nat
  sourceKind : MemorySourceKind
  sourceId : Uuid
  sourceRevision : Option Nat
  namespaceOf : Option MemoryNamespace
  selectionReason : MemorySelectionReason
  authority : MemoryAuthority
  scoreComponents : ScoreComponents
  renderedText : String
  tokenCount : Nat
  deriving DecidableEq

/-- A snapshot, without its identifier, its hash and its time. -/
structure MemorySnapshot where
  projectId : Option Uuid
  conversationId : Uuid
  taskId : Uuid
  baseVersionId : Option Uuid
  targetVersionId : Option Uuid
  policyVersion : String
  sourceWatermarkCursor : Nat
  projectionGeneration : Nat
  projectionWatermarkCursor : Nat
  projectionState : ProjectionState
  status : MemorySnapshotStatus
  degradedReason : Option String
  tokenCount : Nat
  items : List MemorySnapshotItem
  deriving DecidableEq

structure MemoryProjectionHealth where
  generation : Nat
  state : ProjectionState
  projectedWatermarkCursor : Nat
  lastErrorCode : Option String
  deriving DecidableEq

def projectionStateValue : ProjectionState → String
  | .ready => "READY"
  | .stale => "STALE"
  | .unavailable => "UNAVAILABLE"
  | .failed => "FAILED"

def ScoreComponents.named (scores : ScoreComponents) : List (String × Rat) :=
  [("authority", scores.authority), ("exact", scores.exact), ("lexical", scores.lexical),
    ("recency", scores.recency), ("confidence", scores.confidence)]

/-- `_validate_score` of a named component. -/
def validateScore (component : String × Rat) : Except SnapshotError Unit :=
  if 0 ≤ component.2 ∧ component.2 ≤ 1 then .ok ()
  else .error (.valueError
    s!"score component {component.1} score must be finite and between 0 and 1")

/-- `MemorySnapshotItem.create`. -/
def MemorySnapshotItem.create (ordinal : Nat) (c : SnapshotCandidate) :
    Except SnapshotError MemorySnapshotItem := do
  let rendered := Text.strip c.renderedText
  if c.sourceRevision = some 0 then throw (.valueError "source_revision must be positive")
  if rendered = "" then throw (.valueError "rendered_text is required")
  if c.tokenCount < 1 then throw (.valueError "token_count must be positive")
  c.scoreComponents.named.forM validateScore
  return {
    ordinal, sourceKind := c.sourceKind, sourceId := c.sourceId, sourceRevision := c.sourceRevision
    namespaceOf := c.namespaceOf, selectionReason := c.selectionReason, authority := c.authority
    scoreComponents := c.scoreComponents, renderedText := rendered, tokenCount := c.tokenCount }

/-- `_validate_snapshot_status` and the bound on the tokens. -/
def MemorySnapshot.validate (m : MemorySnapshot) : Except SnapshotError Unit := do
  if m.status = .ready then
    if m.projectionState ≠ .ready then
      throw (.valueError "READY Snapshot requires a READY projection")
    if m.projectionWatermarkCursor < m.sourceWatermarkCursor then
      throw (.valueError "READY Snapshot projection cannot trail its source watermark")
    if m.degradedReason ≠ none then
      throw (.valueError "READY Snapshot cannot have a degraded reason")
  else
    if m.projectionState = .ready then
      throw (.valueError "DEGRADED Snapshot cannot report a READY projection")
    if Text.blank (m.degradedReason.getD "") then
      throw (.valueError "DEGRADED Snapshot requires a degraded reason")
  if m.tokenCount > 3000 then
    throw (.valueError "Snapshot cannot exceed the 3,000 token hard ceiling")

/-- A builder with the answers of its index and its clocks: `none` is a call that raises. -/
structure SnapshotSources where
  policyVersion : String
  projectionGeneration : Nat
  at' : Time
  now : Time
  health : Option MemoryProjectionHealth
  search : Option (List MemorySearchHit)

def maxQueryLength : Nat := 10000

/-- `_projection_health`. -/
def projectionHealth (generation watermark : Nat) (answer : Option MemoryProjectionHealth) :
    MemoryProjectionHealth × Option String :=
  match answer with
  | none =>
    (⟨generation, .failed, 0, some "MEMORY_PROJECTION_HEALTH_FAILED"⟩,
      some "MEMORY_PROJECTION_HEALTH_FAILED")
  | some health =>
    if health.generation ≠ generation then
      (⟨generation, .failed, 0, some "MEMORY_PROJECTION_GENERATION_MISMATCH"⟩,
        some "MEMORY_PROJECTION_GENERATION_MISMATCH")
    else if health.state = .ready ∧ health.projectedWatermarkCursor < watermark then
      (⟨generation, .stale, health.projectedWatermarkCursor, some "MEMORY_PROJECTION_STALE"⟩,
        some "MEMORY_PROJECTION_STALE")
    else if health.state ≠ .ready then
      (health, some (health.lastErrorCode.getD
        s!"MEMORY_PROJECTION_{projectionStateValue health.state}"))
    else (health, none)

/-- The health, the reason to degrade and the hits that `build` goes on with. -/
def searched (sources : SnapshotSources) (watermark : Nat) :
    MemoryProjectionHealth × Option String × List MemorySearchHit :=
  match projectionHealth sources.projectionGeneration watermark sources.health with
  | (health, some reason) => (health, some reason, [])
  | (health, none) =>
    match sources.search with
    | some hits => (health, none, hits)
    | none =>
      (⟨sources.projectionGeneration, .failed, health.projectedWatermarkCursor,
        some "MEMORY_SEARCH_FAILED"⟩, some "MEMORY_SEARCH_FAILED", [])

section Build

variable (f : SnapshotRules) (p : ContentScan) (s : MemoryStore)

/-- An error of the memory repository passes through. -/
def liftMemory {α : Type} (x : Except MemoryError α) : Except SnapshotError α :=
  x.mapError .memory

/-- The candidates of the claims and those of the history, found or fallen back to. -/
def collect (req : SnapshotRequest) (sources : SnapshotSources) (degraded : Bool)
    (hits : List MemorySearchHit) : Except MemoryError (List SnapshotCandidate) := do
  let validHits := normalizeHits hits req.scope sources.projectionGeneration
    req.sourceWatermarkCursor
  let (claims, provenance) ← claimCandidates f p s req validHits sources.now sources.at'
  if degraded then
    let history ← fallbackHistoryCandidates f p s req provenance
    return claims ++ history
  else return claims ++ searchHistoryCandidates f p s req validHits provenance

/-- The items of a snapshot. -/
def selectItems (req : SnapshotRequest) (sources : SnapshotSources) (degraded : Bool)
    (hits : List MemorySearchHit) : Except SnapshotError (List MemorySnapshotItem) := do
  let candidates ← liftMemory (collect f p s req sources degraded hits)
  let ordered ← select candidates
  ordered.zipIdx.mapM fun (c, ordinal) => MemorySnapshotItem.create ordinal c

def build (sources : SnapshotSources) (scope : ScopeContract) (query : String)
    (sourceWatermarkCursor : Nat) : Except SnapshotError MemorySnapshot := do
  let normalizedQuery := Text.strip query
  if normalizedQuery = "" then throw (.valueError "Snapshot query is required")
  if normalizedQuery.length > maxQueryLength then
    throw (.valueError "Snapshot query cannot exceed 10,000 characters")
  let (health, degradedReason, hits) := searched sources sourceWatermarkCursor
  let items ← selectItems f p s ⟨scope, normalizedQuery, sourceWatermarkCursor⟩ sources
    degradedReason.isSome hits
  let snapshot : MemorySnapshot := {
    projectId := scope.projectId, conversationId := scope.conversationId, taskId := scope.taskId
    baseVersionId := scope.baseVersionId, targetVersionId := scope.targetVersionId
    policyVersion := Text.strip sources.policyVersion, sourceWatermarkCursor
    projectionGeneration := sources.projectionGeneration
    projectionWatermarkCursor := health.projectedWatermarkCursor, projectionState := health.state
    status := if degradedReason = none then .ready else .degraded
    degradedReason, tokenCount := (items.map (·.tokenCount)).sum, items }
  snapshot.validate
  return snapshot

end Build

end Fairy.Snapshot
