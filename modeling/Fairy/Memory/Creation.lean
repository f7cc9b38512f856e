import Fairy.Lib.Words
import Fairy.Memory.Chain
import Fairy.Memory.Projection

namespace Fairy.Memory

open Fairy.Lib
open Fairy.Commanding (Uuid Time)

namespace MemoryObservation

/-- The version is the target of the scope or else its base. -/
def create (x : Hashing) (id : Uuid) (now : Time) (scope : ScopeContract) (scopeDigest : String)
    (sourceEventId : Uuid) (sourceCursor : Nat) (sourceType : MemorySourceType) (content : String)
    (proposedNamespace : MemoryNamespace) (authority : MemoryAuthority) (confidence : Confidence)
    (sensitivity : MemorySensitivity) (actor : String) : Except MemoryError MemoryObservation :=
  if sourceCursor < 1 then .error (.valueError "source_cursor must be positive")
  else if Text.strip content = "" then .error (.valueError "memory content is required")
  else if Text.strip actor = "" then .error (.valueError "memory actor is required")
  else .ok {
    id, projectId := scope.projectId, conversationId := scope.conversationId
    taskId := scope.taskId, versionId := scope.targetVersionId.or scope.baseVersionId, scopeDigest
    sourceEventId, sourceCursor, sourceType, content, contentHash := x.sha256 content
    proposedNamespace, authority, confidence, sensitivity, scanResult := .unchecked
    status := .pending, actor := Text.strip actor, createdAt := now }

def withScanResult (o : MemoryObservation) (scanResult : MemoryScanResult) :
    Except MemoryError MemoryObservation :=
  if o.status ≠ .pending then
    .error (.invalidTransition "only pending Memory observations can be scanned")
  else .ok { o with scanResult := scanResult }

end MemoryObservation

/-- `MemoryClaimRevision.create`; `recordedAt` is the clock unless the caller gives a time. -/
def MemoryClaimRevision.create (claimId : Uuid) (revision : Nat) (value : Json)
    (normalizedText : String) (sourceObservationIds sourceEventIds : List Uuid)
    (authority : MemoryAuthority) (confidence : Confidence) (actor : String)
    (validFrom validTo : Option Time) (recordedAt : Time) (supersedesRevision : Option Nat)
    (resolvedClaimIds : List Uuid) : Except MemoryError MemoryClaimRevision :=
  if revision < 1 then .error (.valueError "revision must be positive")
  else if Text.strip normalizedText = "" then .error (.valueError "normalized_text is required")
  else if sourceEventIds = [] then
    .error (.valueError "claim revision requires event provenance")
  else if sourceObservationIds = [] ∧
      authority ∉ [MemoryAuthority.deterministicCore, .explicitUser] then
    .error (.valueError "model and artifact claim revisions require Observation provenance")
  else if Text.strip actor = "" then .error (.valueError "memory actor is required")
  else if ∃ from' ∈ validFrom, ∃ to' ∈ validTo, to' ≤ from' then
    .error (.valueError "valid_to must be after valid_from")
  else if ∃ superseded ∈ supersedesRevision, ¬ (1 ≤ superseded ∧ superseded < revision) then
    .error (.valueError "supersedes_revision must identify an earlier revision")
  else .ok {
    claimId, revision, value, normalizedText := Text.strip normalizedText, sourceObservationIds
    sourceEventIds, authority, confidence, validFrom, validTo, recordedAt
    actor := Text.strip actor, supersedesRevision, resolvedClaimIds }

/-- An observation as it is when it is appended. -/
def CreatedObservation (x : Hashing) (o : MemoryObservation) : Prop :=
  ∃ id now scope scopeDigest sourceEventId sourceCursor sourceType content proposedNamespace
    authority confidence sensitivity actor created,
    MemoryObservation.create x id now scope scopeDigest sourceEventId sourceCursor sourceType content
      proposedNamespace authority confidence sensitivity actor = .ok created ∧
    (o = created ∨ ∃ scanResult, created.withScanResult scanResult = .ok o)

def CreatedClaim (c : MemoryClaim) : Prop :=
  ∃ id now namespaceOf subject predicate projectId conversationId taskId versionId deviceId,
    MemoryClaim.create id now namespaceOf subject predicate projectId conversationId taskId
      versionId deviceId = .ok c

def CreatedRevision (r : MemoryClaimRevision) : Prop :=
  ∃ claimId revision value normalizedText sourceObservationIds sourceEventIds authority confidence
    actor validFrom validTo recordedAt supersedesRevision resolvedClaimIds,
    MemoryClaimRevision.create claimId revision value normalizedText sourceObservationIds
      sourceEventIds authority confidence actor validFrom validTo recordedAt supersedesRevision
      resolvedClaimIds = .ok r

/-- A write to the store or a purge of the content of a conversation or of a project. -/
inductive StoreAct
  | write (act : MemoryAct)
  | purge (content : ContentPurge)

namespace MemoryStore

variable {x : Hashing} {s t : MemoryStore} {key : String}

/-- The records of a write come from their constructors. -/
def Created (x : Hashing) (_ : MemoryStore) : StoreAct → Prop
  | .write (.appendObservation o _) => CreatedObservation x o
  | .write (.createClaim c _) => CreatedClaim c
  | .write (.appendRevision _ _ _ r _) | .write (.resolveConflict _ _ _ _ _ r _ _) =>
    CreatedRevision r
  | _ => True

def afterStore (x : Hashing) (s : MemoryStore) : StoreAct → MemoryStore
  | .write act => s.after x act
  | .purge content => s.purgeContent content

def StoreStep (x : Hashing) (s : MemoryStore) (act : StoreAct) (t : MemoryStore) : Prop :=
  t = s.afterStore x act

/-- An observation that a document can be made of. -/
def ObservationRow.Written (o : ObservationRow) : Prop :=
  1 ≤ o.sourceCursor ∧ Text.strip o.content ≠ ""

/-- A claim with a subject and the scope that its namespace requires. -/
def ClaimRow.Bound (c : ClaimRow) : Prop :=
  Text.strip c.subject ≠ "" ∧ c.validateClaimScope = .ok ()

/-- What the constructors leave in the store. -/
structure WellFormed (s : MemoryStore) : Prop where
  observation : ∀ o ∈ s.observations, ObservationRow.Written o
  claim : ∀ c ∈ s.claims, ClaimRow.Bound c

/-- A claim keeps its scope, and its subject unless that is purged. -/
structure ClaimRow.Kept (c c' : ClaimRow) : Prop where
  scope : c'.validateClaimScope = c.validateClaimScope
  subject : c'.subject = c.subject ∨ c'.subject = purgedText

/-- An observation keeps its cursor, and its content unless that is purged. -/
structure ObservationRow.Kept (o o' : ObservationRow) : Prop where
  cursor : o'.sourceCursor = o.sourceCursor
  content : o'.content = o.content ∨ o'.content = purgedText

section Kept

variable {act : MemoryAct} {c c' : ClaimRow} {o o' : ObservationRow}

theorem strip_purgedText : Text.strip purgedText ≠ "" := by decide

theorem ClaimRow.Kept.refl (c : ClaimRow) : ClaimRow.Kept c c := ⟨rfl, .inl rfl⟩

theorem ObservationRow.Kept.refl (o : ObservationRow) : ObservationRow.Kept o o := ⟨rfl, .inl rfl⟩

theorem ClaimRow.Bound.kept (h : ClaimRow.Bound c) (hkept : ClaimRow.Kept c c') :
    ClaimRow.Bound c' := by
  refine ⟨?_, hkept.scope.trans h.2⟩
  obtain hsame | hpurged := hkept.subject
  · rw [hsame]
    exact h.1
  · rw [hpurged]
    exact strip_purgedText

theorem ObservationRow.Written.kept (h : ObservationRow.Written o)
    (hkept : ObservationRow.Kept o o') : ObservationRow.Written o' := by
  refine ⟨hkept.cursor ▸ h.1, ?_⟩
  obtain hsame | hpurged := hkept.content
  · rw [hsame]
    exact h.2
  · rw [hpurged]
    exact strip_purgedText

/-- Where the claims and the observations after a write come from. -/
structure Origin (act : MemoryAct) (s t : MemoryStore) : Prop where
  claim : Table.Descends ClaimRow.Kept (fun c => ∃ key, act = .createClaim c.toMemoryClaim key)
    s.claims t.claims
  observation : Table.Descends ObservationRow.Kept
    (fun o => ∃ key, act = .appendObservation o.toMemoryObservation key)
    s.observations t.observations

theorem createClaim_origin {claim : MemoryClaim} (h : s.createClaim x claim key = .ok t) :
    Origin (.createClaim claim key) s t := by
  simp only [createClaim] at h
  obtain ⟨_, _, h⟩ := bind_ok h
  split at h
  · split at h <;> cases h
  · obtain ⟨_, _, h⟩ := bind_ok h
    obtain rfl := pure_ok h
    refine ⟨?_, .of_eq .refl rfl⟩
    obtain hsame | ⟨_, hrows⟩ := s.insertClaim_cases _
    · exact .of_eq .refl (by rw [hsame])
    · exact .of_append .refl ⟨key, rfl⟩ hrows

theorem appendObservation_origin {o : MemoryObservation}
    (h : s.appendObservation x o key = .ok t) : Origin (.appendObservation o key) s t := by
  refine ⟨.of_eq .refl (appendObservation_ok h).1, ?_⟩
  simp only [appendObservation] at h
  obtain ⟨_, _, h⟩ := bind_ok h
  obtain ⟨_, _, h⟩ := bind_ok h
  split at h
  · split at h <;> cases h
  · obtain ⟨_, _, h⟩ := bind_ok h
    obtain rfl := pure_ok h
    obtain hsame | ⟨_, hrows⟩ := s.insertObservation_cases _
    · exact .of_eq .refl (by rw [hsame])
    · exact .of_append .refl ⟨key, rfl⟩ hrows

theorem transitionObservation_origin {id : Uuid} {expected status : ObservationStatus}
    (h : s.transitionObservation id expected status = .ok t) : Origin act s t := by
  refine ⟨.of_eq .refl (transitionObservation_ok h).1, ?_⟩
  simp only [transitionObservation] at h
  split at h
  · cases h
  split at h
  · cases h
    exact .of_eq .refl rfl
  obtain ⟨changed, _, h⟩ := bind_ok h
  split at h
  · cases h
    refine .of_map (fun o => ?_) rfl
    split
    · exact ⟨rfl, .inl rfl⟩
    · exact .refl o
  · cases h

theorem kept_advancedClaim (now : Time) (revision : MemoryClaimRevision) (status : ClaimStatus)
    (c : ClaimRow) : ClaimRow.Kept c (advancedClaim now revision status c) := ⟨rfl, .inl rfl⟩

theorem kept_settledClaim (updatedAt : Time) (status : ClaimStatus)
    (h : ClaimRow.Kept c c') : ClaimRow.Kept c (settledClaim updatedAt status c') :=
  ⟨h.scope, h.subject⟩

theorem forget_origin {tombstone : MemoryTombstone} (h : s.forget x tombstone key = .ok t) :
    Origin act s t := by
  simp only [forget] at h
  obtain ⟨_, _, h⟩ := bind_ok h
  obtain ⟨_, _, h⟩ := bind_ok h
  obtain ⟨_, _, h⟩ := bind_ok h
  obtain ⟨_, _, h⟩ := bind_ok h
  split at h
  · cases h
  obtain ⟨_, _, h⟩ := bind_ok h
  obtain ⟨_, _, h⟩ := bind_ok h
  obtain rfl := pure_ok h
  by_cases hkind : tombstone.targetKind = .claim
  · rw [if_pos hkind, forgetTarget, if_pos hkind]
    refine ⟨.of_map (f := fun c => if c.id = tombstone.targetId then forgottenClaim c else c)
      (fun c => ?_) rfl, .of_eq .refl rfl⟩
    split
    · exact ⟨rfl, .inl rfl⟩
    · exact .refl c
  · rw [if_neg hkind]
    obtain ⟨hclaims, _, hrows⟩ := forgetTarget_observation (s.insertTombstone ⟨tombstone, key,
      x.fingerprint (tombstoneFingerprint tombstone)⟩) tombstone.targetId hkind
    refine ⟨.of_eq .refl hclaims, .of_map (fun o => ?_) hrows⟩
    split
    · exact ⟨rfl, .inl rfl⟩
    · exact .refl o

theorem purgeForgottenPayloads_origin {before : Time} {limit : Nat}
    {result : MemoryPayloadPurgeResult}
    (h : s.purgeForgottenPayloads x before limit = .ok (t, result)) : Origin act s t := by
  simp only [purgeForgottenPayloads] at h
  split at h
  · cases h
  cases h
  refine ⟨.of_map (fun c => ?_) rfl, .of_map (fun o => ?_) rfl⟩
  · split
    · exact ⟨rfl, .inr rfl⟩
    · exact .refl c
  · split
    · exact ⟨rfl, .inr rfl⟩
    · exact .refl o

theorem perform_origin (h : s.perform x act = .ok t) : Origin act s t := by
  cases act with
  | recordEvent event =>
    simp only [perform, recordEvent] at h
    split at h <;> cases h
    exact ⟨.of_eq .refl rfl, .of_eq .refl rfl⟩
  | appendObservation observation key => exact appendObservation_origin h
  | transitionObservation observationId expected status => exact transitionObservation_origin h
  | createClaim claim key => exact createClaim_origin h
  | appendRevision now claimId expected revision key =>
    obtain ⟨⟨_, updated⟩, happend, rfl⟩ := map_ok h
    obtain ⟨rfl, _⟩ | ⟨c, c', row, _, _, rfl, hrevises⟩ := appendRevisionWith_ok happend
    · exact ⟨.of_eq .refl rfl, .of_eq .refl rfl⟩
    · exact ⟨.of_replaces .refl (kept_advancedClaim _ _ _ c) hrevises.claims,
        .of_eq .refl hrevises.observations⟩
  | resolveConflict now decidedAt updatedAt claimId expected revision resolved key =>
    obtain ⟨rfl, _⟩ | ⟨c, c', row, _, _, _, rfl, hrevises⟩ := resolveConflict_cases h
    · exact ⟨.of_eq .refl rfl, .of_eq .refl rfl⟩
    · exact ⟨.of_replaces .refl (kept_settledClaim _ _ (kept_advancedClaim _ _ _ c))
        hrevises.claims, .of_eq .refl hrevises.observations⟩
  | forget tombstone key => exact forget_origin h
  | purgeForgottenPayloads before limit =>
    obtain ⟨⟨_, result⟩, hpurge, rfl⟩ := map_ok h
    exact purgeForgottenPayloads_origin hpurge
  | bindItem item =>
    cases h
    exact ⟨.of_eq .refl rfl, .of_eq .refl rfl⟩

end Kept

section Created

theorem MemoryObservation.written_of_created {o : ObservationRow}
    (h : CreatedObservation x o.toMemoryObservation) : ObservationRow.Written o := by
  obtain ⟨id, now, scope, scopeDigest, sourceEventId, sourceCursor, sourceType, content, n,
    authority, confidence, sensitivity, actor, created, hcreate, horigin⟩ := h
  simp only [MemoryObservation.create] at hcreate
  split at hcreate
  · cases hcreate
  rename_i hcursor
  split at hcreate
  · cases hcreate
  rename_i hcontent
  split at hcreate
  · cases hcreate
  cases hcreate
  obtain hsame | ⟨scanResult, hscan⟩ := horigin
  · rw [ObservationRow.Written, hsame]
    exact ⟨Nat.le_of_not_lt hcursor, hcontent⟩
  · simp only [MemoryObservation.withScanResult] at hscan
    split at hscan
    · cases hscan
    rw [ObservationRow.Written, ← Except.ok.inj hscan]
    exact ⟨Nat.le_of_not_lt hcursor, hcontent⟩

theorem MemoryClaim.bound_of_created {c : ClaimRow} (h : CreatedClaim c.toMemoryClaim) :
    ClaimRow.Bound c := by
  obtain ⟨id, now, n, subject, predicate, projectId, conversationId, taskId, versionId, deviceId,
    hcreate⟩ := h
  simp only [MemoryClaim.create, MemoryClaim.restore] at hcreate
  obtain ⟨hsubject, hcreate⟩ := check_bind_ok_iff.mp hcreate
  obtain ⟨_, hscope, hcreate⟩ := bind_ok hcreate
  have hrow := pure_ok hcreate
  have hstripped : (deviceId.map Text.strip).getD "" = Text.strip (deviceId.getD "") := by
    cases deviceId <;> rfl
  constructor
  · rw [← hrow]
    change Text.strip (Text.strip subject) ≠ ""
    rw [Text.strip_strip]
    exact fun he => hsubject (.inl he)
  · rw [← hrow]
    simpa only [MemoryClaim.validateClaimScope, hstripped, Text.strip_strip, Option.map_eq_none_iff,
      ne_eq] using hscope

end Created

theorem wellFormed_empty : empty.WellFormed where
  observation _ ho := absurd ho (Table.not_mem_empty _)
  claim _ hc := absurd hc (Table.not_mem_empty _)

theorem WellFormed.perform {act : MemoryAct} (h : s.WellFormed)
    (ha : Created x s (.write act)) (hok : s.perform x act = .ok t) : t.WellFormed := by
  obtain ⟨hclaim, hobservation⟩ := perform_origin hok
  refine ⟨hobservation.forall_mem h.observation (fun _ _ hkept ho => ho.kept hkept) ?_,
    hclaim.forall_mem h.claim (fun _ _ hkept hc => hc.kept hkept) ?_⟩
  · rintro o ⟨key, rfl⟩
    exact MemoryObservation.written_of_created ha
  · rintro c ⟨key, rfl⟩
    exact MemoryClaim.bound_of_created ha

theorem WellFormed.purgeContent (h : s.WellFormed) (content : ContentPurge) :
    (s.purgeContent content).WellFormed := by
  cases content with
  | conversation conversationId taskIds snapshotIds =>
    exact ⟨fun o ho => h.observation o (Table.mem_delete.mp ho).1,
      fun c hc => h.claim c (Table.mem_delete.mp hc).1⟩
  | project projectId =>
    exact ⟨h.observation, fun c hc => h.claim c (Table.mem_delete.mp hc).1⟩

/-- The store holds what the constructors leave, along every run. -/
theorem WellFormed.run (hrun : Run (StoreStep x) (Created x) s t) (h : s.WellFormed) :
    t.WellFormed := by
  refine hrun.invariant (I := WellFormed) (fun s act t hs ha hstep => ?_) h
  obtain rfl := hstep
  cases act with
  | write act =>
    simp only [afterStore, after]
    split
    · rename_i hok
      exact hs.perform ha hok
    · exact hs
  | purge content => exact hs.purgeContent content

end MemoryStore

end Fairy.Memory
