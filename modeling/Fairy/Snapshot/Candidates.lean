import Fairy.Memory.Projection
import Mathlib.Algebra.Order.Ring.Unbundled.Rat
import Mathlib.Data.List.Infix

namespace Fairy.Snapshot

open Fairy.Lib
open Fairy.Memory
open Fairy.Commanding (Uuid Time)

/-- A hit of the search index, with a score that `_validate_score` accepts. -/
structure MemorySearchHit where
  document : MemorySearchDocument
  lexicalScore : Confidence
  exactMatch : Bool
  deriving DecidableEq

/-- The namespaces of a snapshot, in their order. -/
def readableNamespaces (scope : ScopeContract) : List MemoryNamespace :=
  [MemoryNamespace.userProfile, .projectCanonical, .conversationDraft, .taskEpisode,
    .deviceLocal].filter fun n => canReadNamespace n scope ∧ n ≠ .deviceLocal

/-- The bounds of the scoped reads of a snapshot. -/
def repositoryScope (n : MemoryNamespace) (scope : ScopeContract) : ReadScope :=
  match n with
  | .projectCanonical => { projectId := scope.projectId }
  | .conversationDraft => { conversationId := some scope.conversationId }
  | .taskEpisode => { taskId := some scope.taskId }
  | .userProfile | .deviceLocal => {}

def claimIsInScope (c : MemoryClaim) (scope : ScopeContract) : Bool :=
  if c.status ∉ [ClaimStatus.active, .conflicted] then false
  else if c.versionId ≠ none ∧ c.versionId ≠ scope.targetVersionId.or scope.baseVersionId then false
  else
    match c.namespaceOf with
    | .projectCanonical => scope.projectId ≠ none ∧ c.projectId = scope.projectId
    | .conversationDraft => c.conversationId = some scope.conversationId
    | .userProfile => c.projectId = none ∧ c.conversationId = none ∧ c.taskId = none ∧
        c.versionId = none ∧ c.deviceId = none
    | .taskEpisode => c.taskId = some scope.taskId
    | .deviceLocal => false

def observationIsInScope (o : MemoryObservation) (n : MemoryNamespace) (scope : ScopeContract) :
    Bool :=
  match n with
  | .projectCanonical => o.projectId = scope.projectId
  | .conversationDraft => o.conversationId = scope.conversationId
  | .taskEpisode => o.taskId = scope.taskId
  | .userProfile => true
  | .deviceLocal => false

def documentIsInScope (d : MemorySearchDocument) (scope : ScopeContract)
    (projectionGeneration sourceWatermarkCursor : Nat) : Bool :=
  if d.projectionGeneration ≠ projectionGeneration ∨ d.sourceCursor > sourceWatermarkCursor then
    false
  else
    match d.namespaceOf with
    | some .projectCanonical => scope.projectId ≠ none ∧ d.projectId = scope.projectId
    | some .conversationDraft => d.conversationId = some scope.conversationId
    | some .userProfile => d.projectId = none ∧ d.conversationId = none ∧ d.taskId = none
    | some .taskEpisode => d.taskId = some scope.taskId
    | some .deviceLocal | none => false

theorem mem_readableNamespaces {n : MemoryNamespace} {scope : ScopeContract}
    (h : n ∈ readableNamespaces scope) : canReadNamespace n scope = true := by
  simp only [readableNamespaces, List.mem_filter, decide_eq_true_eq] at h
  exact h.2.1

/-- What texts and floats are to Python: `str.casefold`, the words of a text, the division of two
integers and `round(..., 6)`. -/
structure SnapshotRules where
  casefold : String → String
  words : String → List String
  divide : Nat → Nat → Rat
  round : Rat → Rat

inductive MemorySelectionReason
  | exactCanonical | canonical | exactProfile | userProfile | conversationDraft | lexicalHistory
  | relationalFallback | conflictDisclosure
  deriving DecidableEq

inductive SnapshotSection
  | profile | canonical | draft | history
  deriving DecidableEq

/-- `MEMORY_AUTHORITY_PRECEDENCE`. -/
def authorityPrecedence : MemoryAuthority → Nat
  | .deterministicCore => 400
  | .acceptedVersion => 350
  | .explicitUser => 300
  | .modelSuggestion => 100

def authorityValue : MemoryAuthority → String
  | .deterministicCore => "deterministic_core"
  | .explicitUser => "explicit_user"
  | .acceptedVersion => "accepted_version"
  | .modelSuggestion => "model_suggestion"

structure ScoreComponents where
  authority : Rat
  exact : Rat
  lexical : Rat
  recency : Rat
  confidence : Rat
  deriving DecidableEq

abbrev CandidateKey := MemorySourceKind × Uuid × Option Nat

structure SnapshotCandidate where
  sourceKind : MemorySourceKind
  sourceId : Uuid
  sourceRevision : Option Nat
  namespaceOf : Option MemoryNamespace
  authority : MemoryAuthority
  selectionReason : MemorySelectionReason
  scoreComponents : ScoreComponents
  renderedText : String
  tokenCount : Nat
  sourceCursor : Nat
  exactMatch : Bool
  lexicalScore : Rat
  confidence : Confidence
  conflictSetId : Option Uuid
  inSection : SnapshotSection
  deriving DecidableEq

def SnapshotCandidate.key (c : SnapshotCandidate) : CandidateKey :=
  (c.sourceKind, c.sourceId, c.sourceRevision)

section Rendering

/-- `html.escape`. -/
def escape (text : String) : String :=
  String.join (text.toList.map fun c =>
    if c = '&' then "&amp;" else if c = '<' then "&lt;" else if c = '>' then "&gt;"
    else if c = '"' then "&quot;" else if c = '\'' then "&#x27;" else c.toString)

def renderClaim (c : MemoryClaim) (r : MemoryClaimRevision) (conflict : Bool) : String :=
  let conflictLine := if conflict then "\nCONFLICT: live alternative; do not silently resolve."
    else ""
  "<memory-source kind=\"claim_revision\" role=\"data\" namespace=\"" ++ c.namespaceOf.value ++
    "\" authority=\"" ++ authorityValue r.authority ++ "\">" ++ conflictLine ++
    "\nsubject: " ++ escape c.subject ++ "\npredicate: " ++ escape c.predicate ++
    "\nvalue: " ++ escape r.normalizedText ++ "\n</memory-source>"

def renderObservation (o : MemoryObservation) : String :=
  "<memory-source kind=\"observation\" role=\"untrusted-data\" namespace=\"" ++
    o.proposedNamespace.value ++ "\" authority=\"" ++ authorityValue o.authority ++ "\">\n" ++
    escape o.content ++ "\n</memory-source>"

variable (f : SnapshotRules)

def isExactQueryMatch (query content : String) : Bool :=
  let normalizedQuery := Text.strip (f.casefold query)
  let normalizedContent := f.casefold content
  if normalizedQuery.toList <:+: normalizedContent.toList then true
  else
    let queryTokens := f.words normalizedQuery
    queryTokens ≠ [] ∧ ∀ token ∈ queryTokens, token ∈ f.words normalizedContent

end Rendering

section Hits

def MemorySearchHit.key (hit : MemorySearchHit) : CandidateKey :=
  (hit.document.sourceKind, hit.document.sourceId, hit.document.sourceRevision)

/-- The order of `_hit_input_key`. -/
def hitInputOrder (a b : MemorySearchHit) : Bool :=
  ((compare a.document.sourceKind.value b.document.sourceKind.value).then
    ((compare a.document.sourceId b.document.sourceId).then
      ((compare (a.document.sourceRevision.getD 0) (b.document.sourceRevision.getD 0)).then
        ((compare a.document.sourceCursor b.document.sourceCursor).then
          (compare a.document.contentHash b.document.contentHash))))).isLE

/-- The comparison of `_hit_quality_key`. -/
def hitQuality (a b : MemorySearchHit) : Ordering :=
  (compare a.exactMatch.toNat b.exactMatch.toNat).then
    ((compareOfLessAndEq a.lexicalScore.1 b.lexicalScore.1).then
      ((compare a.document.sourceCursor b.document.sourceCursor).then
        (compare a.document.contentHash b.document.contentHash)))

def hitIsInScope (scope : ScopeContract) (generation watermark : Nat) (hit : MemorySearchHit) :
    Bool :=
  hit.document.sourceKind ∈ [MemorySourceKind.claimRevision, .observation] ∧
    documentIsInScope hit.document scope generation watermark

/-- A hit takes the place of a worse one with its key. -/
def betterHit (hits : List MemorySearchHit) (hit : MemorySearchHit) : List MemorySearchHit :=
  match hits.find? fun current => current.key = hit.key with
  | none => hits ++ [hit]
  | some current =>
    if hitQuality hit current = .gt then
      hits.map fun other => if other.key = hit.key then hit else other
    else hits

/-- The values of the dictionary of `normalize_hits`. -/
def normalizeHits (hits : List MemorySearchHit) (scope : ScopeContract)
    (generation watermark : Nat) : List MemorySearchHit :=
  ((hits.mergeSort hitInputOrder).filter (hitIsInScope scope generation watermark)).foldl
    betterHit []

end Hits

/-- What the candidates of one snapshot are collected for. -/
structure SnapshotRequest where
  scope : ScopeContract
  query : String
  sourceWatermarkCursor : Nat

section Collector

variable (f : SnapshotRules) (p : ContentScan) (s : MemoryStore) (req : SnapshotRequest)

/-- `_candidate`. -/
def makeCandidate (sourceKind : MemorySourceKind) (sourceId : Uuid) (sourceRevision : Option Nat)
    (n : MemoryNamespace) (authority : MemoryAuthority) (selectionReason : MemorySelectionReason)
    (renderedText : String) (sourceCursor : Nat) (exactMatch : Bool) (lexicalScore : Rat)
    (confidence : Confidence) (conflictSetId : Option Uuid) (inSection : SnapshotSection) :
    SnapshotCandidate where
  sourceKind := sourceKind
  sourceId := sourceId
  sourceRevision := sourceRevision
  namespaceOf := some n
  authority := authority
  selectionReason := selectionReason
  scoreComponents := {
    authority := f.round (f.divide (authorityPrecedence authority) 400)
    exact := if exactMatch then 1 else 0
    lexical := f.round lexicalScore
    recency := f.round (if 0 < req.sourceWatermarkCursor then
      min 1 (f.divide sourceCursor req.sourceWatermarkCursor) else 0)
    confidence := f.round confidence.1 }
  renderedText := renderedText
  tokenCount := renderedText.utf8ByteSize
  sourceCursor := sourceCursor
  exactMatch := exactMatch
  lexicalScore := lexicalScore
  confidence := confidence
  conflictSetId := conflictSetId
  inSection := inSection

/-- `_safe_observation`. -/
def safeObservation (id : Uuid) : Option MemoryObservation :=
  match s.getObservation id false with
  | .ok found => found
  | .error _ => none

/-- `_source_observations`. -/
def sourceObservations (r : MemoryClaimRevision) : Option (List MemoryObservation) :=
  r.sourceObservationIds.mapM (safeObservation s)

def claimReason (n : MemoryNamespace) (exactMatch conflict : Bool) : MemorySelectionReason :=
  if conflict then .conflictDisclosure
  else
    match n with
    | .projectCanonical => if exactMatch then .exactCanonical else .canonical
    | .userProfile => if exactMatch then .exactProfile else .userProfile
    | .conversationDraft => .conversationDraft
    | .taskEpisode | .deviceLocal => .lexicalHistory

def claimSection : MemoryNamespace → SnapshotSection
  | .userProfile => .profile
  | .projectCanonical => .canonical
  | .conversationDraft => .draft
  | .taskEpisode | .deviceLocal => .history

/-- A source that a claim may be shown for. -/
def sourceAdmitted (n : MemoryNamespace) (o : MemoryObservation) : Bool :=
  o.sourceCursor ≤ req.sourceWatermarkCursor ∧ observationIsInScope o n req.scope ∧
    p.isObservationRetrievable o

/-- The current revision of a claim and its sources, when the claim may be shown. -/
def admittedClaim (at' : Time) (n : MemoryNamespace) (c : MemoryClaim) :
    Option (RevisionRow × List MemoryObservation) :=
  if claimIsInScope c req.scope = false then none
  else do
    let r ← currentRevision s c
    if isRevisionCurrent r.toMemoryClaimRevision at' = false ∨
        (p.scanContent r.normalizedText .privateText).allowed = false then none
    else do
      let sources ← sourceObservations s r.toMemoryClaimRevision
      if sources.all (sourceAdmitted p req n) then some (r, sources) else none

/-- The order of `_claim_input_key`. -/
def claimInputOrder (a b : MemoryClaim) : Bool :=
  ((compare a.namespaceOf.value b.namespaceOf.value).then
    ((compare (f.casefold a.subject) (f.casefold b.subject)).then
      ((compare (f.casefold a.predicate) (f.casefold b.predicate)).then
        (compare a.id b.id)))).isLE

/-- The candidate of a claim, with the observations it rests on. -/
def claimCandidate (hits : List MemorySearchHit) (at' : Time) (n : MemoryNamespace)
    (c : MemoryClaim) : Except MemoryError (Option (SnapshotCandidate × List Uuid)) :=
  match admittedClaim p s req at' n c with
  | none => return none
  | some (r, sources) =>
    match (sources.map (·.sourceCursor)).max? with
    | none => throw (.valueError "max() iterable argument is empty")
    | some sourceCursor =>
      let hit := hits.find? fun hit => hit.key = (.claimRevision, c.id, some r.revision)
      let exactMatch := (hit.elim false (·.exactMatch)) || isExactQueryMatch f req.query
        s!"{c.subject} {c.predicate} {r.normalizedText}"
      let conflict := c.status = .conflicted || c.conflictSetId.isSome
      return some (makeCandidate f req .claimRevision c.id (some r.revision) n r.authority
        (claimReason n exactMatch conflict) (renderClaim c r.toMemoryClaimRevision conflict)
        sourceCursor exactMatch (hit.elim 0 (·.lexicalScore.1)) r.confidence c.conflictSetId
        (claimSection n), r.sourceObservationIds)

/-- The candidates of the claims of one namespace; `now` is the clock of the repository. -/
def namespaceCandidates (hits : List MemorySearchHit) (now at' : Time) (n : MemoryNamespace) :
    Except MemoryError (List (Option (SnapshotCandidate × List Uuid))) := do
  let claims ← s.claimsForScope now n (repositoryScope n req.scope)
  (claims.mergeSort (claimInputOrder f)).mapM (claimCandidate f p s req hits at' n)

def claimCandidates (hits : List MemorySearchHit) (now at' : Time) :
    Except MemoryError (List SnapshotCandidate × List Uuid) := do
  let found ← (readableNamespaces req.scope).mapM (namespaceCandidates f p s req hits now at')
  return (found.flatten.reduceOption.map Prod.fst, found.flatten.reduceOption.flatMap Prod.snd)

/-- `_observation_candidate`. -/
def observationCandidate (o : MemoryObservation) (lexicalScore : Rat) (exactMatch : Bool)
    (reason : MemorySelectionReason) : Option SnapshotCandidate :=
  if o.sourceCursor > req.sourceWatermarkCursor ∨
      canReadNamespace o.proposedNamespace req.scope = false ∨
      observationIsInScope o o.proposedNamespace req.scope = false ∨
      p.isObservationRetrievable o = false then none
  else some (makeCandidate f req .observation o.id none o.proposedNamespace o.authority reason
    (renderObservation o) o.sourceCursor
    (exactMatch || isExactQueryMatch f req.query o.content) lexicalScore o.confidence none .history)

def searchHistoryCandidates (hits : List MemorySearchHit) (excluded : List Uuid) :
    List SnapshotCandidate :=
  (hits.mergeSort hitInputOrder).filterMap fun hit =>
    if hit.document.sourceKind ≠ .observation ∨ hit.document.sourceId ∈ excluded then none
    else do
      let o ← safeObservation s hit.document.sourceId
      observationCandidate f p req o hit.lexicalScore.1 hit.exactMatch .lexicalHistory

/-- `_FALLBACK_OBSERVATION_LIMIT`. -/
def fallbackObservationLimit : Nat := 100

/-- The order of `(-source_cursor, str(id))`. -/
def newestOrder (a b : MemoryObservation) : Bool :=
  ((compare b.sourceCursor a.sourceCursor).then (compare a.id b.id)).isLE

/-- The values of the dictionary of the scoped observations. -/
def scopedObservations : Except MemoryError (List MemoryObservation) := do
  let perNamespace ← (readableNamespaces req.scope).mapM fun n =>
    s.observationsForScope n (repositoryScope n req.scope) (some fallbackObservationLimit) true true
  return perNamespace.flatten.foldl (fun found o =>
    if found.any (·.id = o.id) then found.map fun other => if other.id = o.id then o else other
    else found ++ [o]) []

/-- The loop stops once it has as many candidates as the limit. -/
def fallbackHistoryCandidates (excluded : List Uuid) :
    Except MemoryError (List SnapshotCandidate) := do
  let observations ← scopedObservations s req
  return ((observations.mergeSort newestOrder).filterMap fun o =>
    if o.id ∈ excluded then none
    else observationCandidate f p req o 0 (isExactQueryMatch f req.query o.content)
      .relationalFallback).take fallbackObservationLimit

end Collector

end Fairy.Snapshot
