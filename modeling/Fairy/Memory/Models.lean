import Fairy.Commanding.Models
import Fairy.Lib.Fallible

namespace Fairy.Memory

open Fairy.Lib
open Fairy.Commanding (Uuid Time EventVisibility LedgerEvent)

inductive MemoryError
  | memoryConflict (message : String)
  | memoryForgotten (message : String)
  | invalidTransition (message : String)
  | keyError (message : String)
  | valueError (message : String)
  | integrityError (constraint : String)
  | assertionError
  deriving DecidableEq

inductive MemoryNamespace
  | projectCanonical | conversationDraft | userProfile | deviceLocal | taskEpisode
  deriving DecidableEq

inductive MemoryAuthority
  | deterministicCore | explicitUser | acceptedVersion | modelSuggestion
  deriving DecidableEq

inductive ObservationStatus
  | pending | accepted | rejected | promoted | forgotten
  deriving DecidableEq

inductive ClaimStatus
  | candidate | active | conflicted | superseded | expired | rejected | forgotten
  deriving DecidableEq

/-- `MemorySensitivity`; two of its members are keywords here. -/
inductive MemorySensitivity
  | publicText | privateText | secretText
  deriving DecidableEq

inductive MemoryScanResult
  | unchecked | clean | injectionBlocked | secretBlocked
  deriving DecidableEq

inductive MemorySourceType
  | userMessage | coreEvent | commandResult | acceptedArtifact | explicitUserAction
  | modelSuggestion
  deriving DecidableEq

inductive MemoryTargetKind
  | observation | claim | episode | snapshot
  deriving DecidableEq

inductive MemorySourceKind
  | claimRevision | observation | domainEvent
  deriving DecidableEq

namespace ClaimStatus

def value : ClaimStatus → String
  | candidate => "candidate"
  | active => "active"
  | conflicted => "conflicted"
  | superseded => "superseded"
  | expired => "expired"
  | rejected => "rejected"
  | forgotten => "forgotten"

end ClaimStatus

namespace ObservationStatus

def value : ObservationStatus → String
  | pending => "pending"
  | accepted => "accepted"
  | rejected => "rejected"
  | promoted => "promoted"
  | forgotten => "forgotten"

/-- `_OBSERVATION_TRANSITIONS`. -/
def transitions : ObservationStatus → List ObservationStatus
  | pending => [accepted, rejected, forgotten]
  | accepted => [promoted, rejected, forgotten]
  | promoted => [forgotten]
  | rejected => [forgotten]
  | forgotten => []

end ObservationStatus

def MemoryNamespace.value : MemoryNamespace → String
  | .projectCanonical => "project_canonical"
  | .conversationDraft => "conversation_draft"
  | .userProfile => "user_profile"
  | .deviceLocal => "device_local"
  | .taskEpisode => "task_episode"

/-- A finite `float` that `_validate_confidence` accepts. -/
abbrev Confidence := {q : Rat // 0 ≤ q ∧ q ≤ 1}

structure MemoryObservation where
  id : Uuid
  projectId : Option Uuid
  conversationId : Uuid
  taskId : Uuid
  versionId : Option Uuid
  scopeDigest : String
  sourceEventId : Uuid
  sourceCursor : Nat
  sourceType : MemorySourceType
  content : String
  contentHash : String
  proposedNamespace : MemoryNamespace
  authority : MemoryAuthority
  confidence : Confidence
  sensitivity : MemorySensitivity
  scanResult : MemoryScanResult
  status : ObservationStatus
  actor : String
  createdAt : Time
  deriving DecidableEq

def MemoryObservation.transitionTo (o : MemoryObservation) (status : ObservationStatus) :
    Except MemoryError MemoryObservation :=
  if status ∈ o.status.transitions then .ok { o with status := status }
  else .error (.invalidTransition
    s!"cannot transition MemoryObservation from {o.status.value} to {status.value}")

structure MemoryClaim where
  id : Uuid
  namespaceOf : MemoryNamespace
  projectId : Option Uuid
  conversationId : Option Uuid
  taskId : Option Uuid
  versionId : Option Uuid
  deviceId : Option String
  subject : String
  predicate : String
  currentRevision : Nat
  conflictSetId : Option Uuid
  status : ClaimStatus
  createdAt : Time
  updatedAt : Time
  deriving DecidableEq

structure MemoryClaimRevision where
  claimId : Uuid
  revision : Nat
  value : Json
  normalizedText : String
  sourceObservationIds : List Uuid
  sourceEventIds : List Uuid
  authority : MemoryAuthority
  confidence : Confidence
  validFrom : Option Time
  validTo : Option Time
  recordedAt : Time
  actor : String
  supersedesRevision : Option Nat
  resolvedClaimIds : List Uuid
  deriving DecidableEq

structure MemoryTombstone where
  id : Uuid
  targetKind : MemoryTargetKind
  targetId : Uuid
  reason : String
  actor : String
  sourceEventId : Uuid
  createdAt : Time
  deriving DecidableEq

namespace MemoryClaim

def validateClaimScope (c : MemoryClaim) : Except MemoryError Unit :=
  if c.namespaceOf = .projectCanonical ∧ c.projectId = none then
    .error (.valueError "project_canonical Claim requires project_id")
  else if c.namespaceOf = .conversationDraft ∧ c.conversationId = none then
    .error (.valueError "conversation_draft Claim requires conversation_id")
  else if c.namespaceOf = .deviceLocal ∧ Text.strip (c.deviceId.getD "") = "" then
    .error (.valueError "device_local Claim requires device_id")
  else if c.namespaceOf = .taskEpisode ∧ c.taskId = none then
    .error (.valueError "task_episode Claim requires task_id")
  else if c.namespaceOf = .userProfile ∧ (c.projectId ≠ none ∨ c.conversationId ≠ none ∨
      c.taskId ≠ none ∨ c.versionId ≠ none ∨ c.deviceId ≠ none) then
    .error (.valueError
      "user_profile Claim cannot bind project, conversation, task, version, or device")
  else .ok ()

def restore (c : MemoryClaim) : Except MemoryError MemoryClaim := do
  if Text.strip c.subject = "" ∨ Text.strip c.predicate = "" then
    throw (.valueError "memory claim subject and predicate are required")
  c.validateClaimScope
  return { c with
    deviceId := c.deviceId.map Text.strip
    subject := Text.strip c.subject
    predicate := Text.strip c.predicate }

/-- The identifier and the clock are drawn where the source draws them. -/
def create (id : Uuid) (now : Time) (namespaceOf : MemoryNamespace) (subject predicate : String)
    (projectId conversationId taskId versionId : Option Uuid) (deviceId : Option String) :
    Except MemoryError MemoryClaim :=
  restore { id, namespaceOf, projectId, conversationId, taskId, versionId, deviceId, subject,
            predicate, currentRevision := 0, conflictSetId := none, status := .candidate,
            createdAt := now, updatedAt := now }

/-- A claim that has just been created has no revision. -/
theorem currentRevision_create {id : Uuid} {now : Time} {n : MemoryNamespace} {subject predicate : String}
    {projectId conversationId taskId versionId : Option Uuid} {deviceId : Option String}
    {claim : MemoryClaim}
    (h : create id now n subject predicate projectId conversationId taskId versionId deviceId =
      .ok claim) : claim.currentRevision = 0 := by
  simp only [create, restore] at h
  split at h
  · cases h
  · obtain ⟨_, _, h⟩ := bind_ok h
    rw [← pure_ok h]

end MemoryClaim

inductive ProjectionState
  | ready | stale | unavailable | failed
  deriving DecidableEq

/-- A document of the search index, without its identifier and its time. -/
structure MemorySearchDocument where
  sourceKind : MemorySourceKind
  sourceId : Uuid
  sourceRevision : Option Nat
  namespaceOf : Option MemoryNamespace
  projectId : Option Uuid
  conversationId : Option Uuid
  taskId : Option Uuid
  versionId : Option Uuid
  language : String
  normalizedText : String
  contentHash : String
  sourceCursor : Nat
  projectionGeneration : Nat
  deriving DecidableEq

inductive WorkspaceType
  | projectChat | chatScratch
  deriving DecidableEq

/-- The part of a `ScopeContract` that memory reads. -/
structure ScopeContract where
  workspaceType : WorkspaceType
  projectId : Option Uuid
  conversationId : Uuid
  taskId : Uuid
  baseVersionId : Option Uuid
  targetVersionId : Option Uuid
  memoryReadScope : List String
  deriving DecidableEq

/-- The regular expressions and character classes that the policy looks for in a text. -/
structure ContentScan where
  containsSecret : String → Bool
  containsInvisibleControl : String → Bool
  containsInstruction : String → Bool

structure MemoryPolicyDecision where
  allowed : Bool
  errorCode : Option String
  reason : String
  scanResult : MemoryScanResult
  deriving DecidableEq

/-- `_READ_SCOPE_ALIASES`. -/
def readScopeAliases : MemoryNamespace → List String
  | .projectCanonical => ["project_canonical"]
  | .conversationDraft => ["conversation_draft", "current_conversation", "current_conversation_draft"]
  | .userProfile => ["user_profile", "personal"]
  | .deviceLocal => ["device_local"]
  | .taskEpisode => ["task_episode", "failure_lesson"]

def canReadNamespace (n : MemoryNamespace) (scope : ScopeContract) : Bool :=
  if ¬ (readScopeAliases n).any (· ∈ scope.memoryReadScope) then false
  else if n = .projectCanonical then
    scope.workspaceType = .projectChat ∧ scope.projectId ≠ none
  else n ≠ .deviceLocal

namespace ContentScan

variable (p : ContentScan)

def scanContent (content : String) (sensitivity : MemorySensitivity) : MemoryPolicyDecision :=
  if sensitivity = .secretText ∨ p.containsSecret content then
    ⟨false, some "MEMORY_SECRET_BLOCKED", "Memory contains secret-like material", .secretBlocked⟩
  else if p.containsInvisibleControl content ∨ p.containsInstruction content then
    ⟨false, some "MEMORY_INJECTION_BLOCKED",
      "Memory contains instruction-like or invisible control content", .injectionBlocked⟩
  else ⟨true, none, "", .clean⟩

def isObservationRetrievable (o : MemoryObservation) : Bool :=
  if o.status ∉ [ObservationStatus.accepted, .promoted] then false
  else if o.sensitivity = .secretText then false
  else if o.scanResult ≠ .clean then false
  else (p.scanContent o.content o.sensitivity).allowed

theorem isObservationRetrievable_iff {o : MemoryObservation} :
    p.isObservationRetrievable o = true ↔ o.status ∈ [ObservationStatus.accepted, .promoted] ∧
      o.sensitivity ≠ .secretText ∧ o.scanResult = .clean ∧
      (p.scanContent o.content o.sensitivity).allowed = true := by
  simp only [isObservationRetrievable]
  split
  · simp_all
  rename_i hstatus
  split
  · simp_all
  rename_i hsensitivity
  split
  · simp_all
  rename_i hscan
  exact ⟨fun h => ⟨not_not.mp hstatus, hsensitivity, not_not.mp hscan, h⟩, fun h => h.2.2.2⟩

theorem not_retrievable_of_forgotten {o : MemoryObservation} (h : o.status = .forgotten) :
    p.isObservationRetrievable o = false := by
  simp [isObservationRetrievable, h]

end ContentScan

def isRevisionCurrent (r : MemoryClaimRevision) (at' : Time) : Bool :=
  (∀ t ∈ r.validFrom, t ≤ at') ∧ ∀ t ∈ r.validTo, t > at'

end Fairy.Memory
