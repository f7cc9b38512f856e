import Fairy.Memory.Creation
import Fairy.Snapshot.Canonical

namespace Fairy.Snapshot

open Fairy.Lib
open Fairy.Memory
open Fairy.Commanding (Uuid Time)

variable {x : Hashing} {f : SnapshotRules} {p : ContentScan} {s : MemoryStore} {generation : Nat}
  {at' now : Time} {req : SnapshotRequest} {hits : List MemorySearchHit}

/-- The revision that a reader shows a claim with, if there is one, names a source. -/
def RestsOnSources (p : ContentScan) (s : MemoryStore) (at' : Time) (c : MemoryClaim) : Prop :=
  ∀ r, currentRevision s c = some r → isRevisionCurrent r.toMemoryClaimRevision at' = true →
    (p.scanContent r.normalizedText .privateText).allowed = true → r.sourceObservationIds ≠ []

/-- What the projection can make documents of. -/
structure Projectable (p : ContentScan) (s : MemoryStore) (at' : Time) : Prop where
  observation : ∀ o ∈ s.observations, p.isObservationRetrievable o.toMemoryObservation = true →
    o.proposedNamespace = .projectCanonical → o.projectId ≠ none
  claim : ∀ c ∈ s.claims, c.status ∈ [ClaimStatus.active, .conflicted] →
    RestsOnSources p s at' c.toMemoryClaim

/-- What a snapshot for a scope can collect candidates from. -/
def Collectable (p : ContentScan) (s : MemoryStore) (scope : ScopeContract) (now at' : Time) :
    Prop :=
  ∀ c ∈ s.claims, c.namespaceOf ∈ readableNamespaces scope →
    s.hasValidRevision now c.toMemoryClaim = true →
    (repositoryScope c.namespaceOf scope).admitsClaim c.toMemoryClaim = true →
    claimIsInScope c.toMemoryClaim scope = true → RestsOnSources p s at' c.toMemoryClaim

section Projection

theorem validateClaimScope_ok {c : MemoryClaim} (h : c.validateClaimScope = .ok ()) :
    (c.namespaceOf = .projectCanonical → c.projectId ≠ none) ∧
      (c.namespaceOf = .conversationDraft → c.conversationId ≠ none) := by
  simp only [MemoryClaim.validateClaimScope] at h
  split at h
  · cases h
  rename_i hproject
  split at h
  · cases h
  rename_i hconversation
  exact ⟨fun hn hnone => hproject ⟨hn, hnone⟩, fun hn hnone => hconversation ⟨hn, hnone⟩⟩

theorem createDocument_total_iff {kind : MemorySourceKind} {id : Uuid} {revision : Option Nat}
    {n : MemoryNamespace} {scope : ProjectionScope} {text : String} {cursor : Nat}
    (hrevision : ∀ r ∈ revision, 1 ≤ r) (hkind : kind = .claimRevision → revision ≠ none)
    (htext : Text.strip text ≠ "") (hcursor : 1 ≤ cursor) (hg : 1 ≤ generation) :
    (∃ d, createDocument x generation kind id revision n scope text cursor = .ok d) ↔
      (n = .projectCanonical → scope.projectId ≠ none) ∧
        (n = .conversationDraft → scope.conversationId ≠ none) := by
  have hnumber : ¬ ∃ r ∈ revision, r < 1 := fun ⟨r, hr, hlt⟩ => by
    have := hrevision r hr
    omega
  have hsource : ¬ (kind = .claimRevision ∧ revision = none) := fun h => hkind h.1 h.2
  have hstripped : Text.strip (Text.strip text) ≠ "" := by rwa [Text.strip_strip]
  simp only [createDocument, MemorySearchDocument.validate, if_neg hnumber, if_neg hsource,
    if_neg hstripped, if_neg (show ¬ cursor < 1 by omega), if_neg (show ¬ generation < 1 by omega),
    Option.some.injEq]
  by_cases hproject : n = .projectCanonical ∧ scope.projectId = none
  · rw [if_pos hproject]
    exact ⟨fun ⟨_, h⟩ => (nomatch h), fun h => absurd hproject.2 (h.1 hproject.1)⟩
  rw [if_neg hproject]
  by_cases hconversation : n = .conversationDraft ∧ scope.conversationId = none
  · rw [if_pos hconversation]
    exact ⟨fun ⟨_, h⟩ => (nomatch h), fun h => absurd hconversation.2 (h.2 hconversation.1)⟩
  rw [if_neg hconversation]
  exact ⟨fun _ => ⟨fun h hnone => hproject ⟨h, hnone⟩, fun h hnone => hconversation ⟨h, hnone⟩⟩,
    fun _ => ⟨_, rfl⟩⟩

theorem observationDocument_total_iff {o : ObservationRow} (ho : MemoryStore.ObservationRow.Written o)
    (hg : 1 ≤ generation) :
    (∃ d, observationDocument x p generation o.toMemoryObservation = .ok d) ↔
      (p.isObservationRetrievable o.toMemoryObservation = true →
        o.proposedNamespace = .projectCanonical → o.projectId ≠ none) := by
  simp only [observationDocument]
  by_cases hretrievable : p.isObservationRetrievable o.toMemoryObservation = false
  · rw [if_pos hretrievable]
    refine ⟨fun _ h => ?_, fun _ => ⟨none, rfl⟩⟩
    rw [hretrievable] at h
    cases h
  rw [if_neg hretrievable, bind_pure_total_iff, createDocument_total_iff (by simp) (by simp) ho.2 ho.1 hg]
  rw [Bool.not_eq_false] at hretrievable
  refine ⟨fun h _ hn => ?_, fun h => ⟨fun hn => ?_, fun hn => ?_⟩⟩
  · have hproject := h.1 hn
    rw [hn] at hproject
    exact hproject
  · rw [hn]
    exact h hretrievable hn
  · rw [hn]
    exact Option.some_ne_none _

theorem sourceCursors_pos {r : RevisionRow} {cursor : Nat} (hs : s.WellFormed)
    (h : (sourceCursors s r).max? = some cursor) : 1 ≤ cursor := by
  have hmem := List.max?_mem h
  obtain ⟨id, _, hcursor⟩ := List.mem_filterMap.mp hmem
  obtain ⟨o, ho, rfl⟩ := Option.map_eq_some_iff.mp hcursor
  exact (hs.observation o (Table.find?_eq_some.mp ho).1).1

/-- The sources of a supported revision have their cursors. -/
theorem sourceCursors_eq_nil {c : MemoryClaim} {r : RevisionRow}
    (h : sourcesSupport p s c r = true) : sourceCursors s r = [] ↔ r.sourceObservationIds = [] := by
  constructor
  · intro hnil
    rw [List.eq_nil_iff_forall_not_mem]
    intro id hid
    have hsupport := List.all_eq_true.mp h id hid
    cases hrow : s.observationRow id with
    | none =>
      rw [hrow] at hsupport
      cases hsupport
    | some o =>
      have hmem : o.sourceCursor ∈ sourceCursors s r :=
        List.mem_filterMap.mpr ⟨id, hid, by rw [hrow]; rfl⟩
      rw [hnil] at hmem
      cases hmem
  · intro hnil
    rw [sourceCursors, hnil]
    rfl

theorem strip_claim_text (c : MemoryClaim) (r : RevisionRow) (h : Text.strip c.subject ≠ "") :
    Text.strip s!"{c.subject} {c.predicate} {r.normalizedText}" ≠ "" := by
  have happend : s!"{c.subject} {c.predicate} {r.normalizedText}" =
      c.subject ++ (" " ++ c.predicate ++ " " ++ r.normalizedText) := by
    simp [String.append_assoc, toString]
  rw [happend]
  exact Text.strip_append_ne_empty h _

theorem claimDocument_total_iff {c : ClaimRow} (hs : s.WellFormed) (hc : c ∈ s.claims)
    (hg : 1 ≤ generation) :
    (∃ d, claimDocument x p s generation at' c.toMemoryClaim = .ok d) ↔
      (c.status ∈ [ClaimStatus.active, .conflicted] → RestsOnSources p s at' c.toMemoryClaim) := by
  obtain ⟨hsubject, hscope⟩ := hs.claim c hc
  simp only [claimDocument]
  by_cases hstatus : c.status ∉ [ClaimStatus.active, .conflicted]
  · rw [if_pos hstatus]
    exact ⟨fun _ h => absurd h hstatus, fun _ => ⟨none, rfl⟩⟩
  rw [if_neg hstatus]
  rw [not_not] at hstatus
  cases hrevision : currentRevision s c.toMemoryClaim with
  | none =>
    refine ⟨fun _ _ r hr => ?_, fun _ => ⟨none, rfl⟩⟩
    rw [hrevision] at hr
    cases hr
  | some r =>
    have hrests : (c.status ∈ [ClaimStatus.active, .conflicted] →
        RestsOnSources p s at' c.toMemoryClaim) ↔
          (isRevisionCurrent r.toMemoryClaimRevision at' = true →
            (p.scanContent r.normalizedText .privateText).allowed = true →
              r.sourceObservationIds ≠ []) := by
      refine ⟨fun h => h hstatus r hrevision, fun h _ r' hr' => ?_⟩
      rw [hrevision] at hr'
      obtain rfl := Option.some.inj hr'
      exact h
    rw [hrests]
    dsimp only
    by_cases hcurrent : isRevisionCurrent r.toMemoryClaimRevision at' = false
    · rw [if_pos hcurrent, hcurrent]
      exact ⟨fun _ h => (nomatch h), fun _ => ⟨none, rfl⟩⟩
    rw [if_neg hcurrent]
    by_cases hallowed : (p.scanContent r.normalizedText .privateText).allowed = false
    · rw [if_pos hallowed, hallowed]
      exact ⟨fun _ _ h => (nomatch h), fun _ => ⟨none, rfl⟩⟩
    rw [if_neg hallowed]
    rw [Bool.not_eq_false] at hcurrent hallowed
    by_cases hsupport : sourcesSupport p s c.toMemoryClaim r = false
    · rw [if_pos hsupport]
      refine ⟨fun _ _ _ hnil => ?_, fun _ => ⟨none, rfl⟩⟩
      rw [sourcesSupport, hnil] at hsupport
      cases hsupport
    rw [if_neg hsupport]
    rw [Bool.not_eq_false] at hsupport
    cases hmax : (sourceCursors s r).max? with
    | none =>
      have hnil := (sourceCursors_eq_nil hsupport).mp (List.max?_eq_none_iff.mp hmax)
      exact ⟨fun ⟨_, h⟩ => (nomatch h), fun h => absurd hnil (h hcurrent hallowed)⟩
    | some cursor =>
      have hne : r.sourceObservationIds ≠ [] := fun hnil => by
        rw [(sourceCursors_eq_nil hsupport).mpr hnil] at hmax
        cases hmax
      have hnumber : 1 ≤ r.revision :=
        s.revisions.checked r (currentRevision_eq_some.mp hrevision).1
      dsimp only
      rw [bind_pure_total_iff, createDocument_total_iff (by simpa using hnumber) (by simp)
        (strip_claim_text c.toMemoryClaim r hsubject) (sourceCursors_pos hs hmax) hg]
      obtain ⟨hproject, hconversation⟩ := validateClaimScope_ok hscope
      refine ⟨fun _ _ _ => hne, fun _ => ⟨fun hn => ?_, fun hn => ?_⟩⟩
      · rw [hn]
        exact hproject hn
      · rw [hn]
        exact hconversation hn

theorem deriveDocuments_total_iff (hs : s.WellFormed) (hg : 1 ≤ generation) :
    (∃ documents, deriveDocuments x p s generation at' = .ok documents) ↔ Projectable p s at' := by
  have hobservations : (∃ found, (s.observationsForProjection.mergeSort fun a b => a.id ≤ b.id).mapM
      (observationDocument x p generation) = .ok found) ↔
        ∀ o ∈ s.observations, p.isObservationRetrievable o.toMemoryObservation = true →
          o.proposedNamespace = .projectCanonical → o.projectId ≠ none := by
    rw [mapM_total_iff]
    simp only [MemoryStore.observationsForProjection, List.mem_mergeSort, List.mem_map,
      forall_exists_index, and_imp, forall_apply_eq_imp_iff₂]
    exact forall₂_congr fun o ho => observationDocument_total_iff (hs.observation o ho) hg
  have hclaims : (∃ found, s.claimsForProjection.mapM (claimDocument x p s generation at') =
      .ok found) ↔ ∀ c ∈ s.claims, c.status ∈ [ClaimStatus.active, .conflicted] →
        RestsOnSources p s at' c.toMemoryClaim := by
    rw [mapM_total_iff]
    simp only [MemoryStore.claimsForProjection, List.mem_mergeSort, List.mem_map,
      forall_exists_index, and_imp, forall_apply_eq_imp_iff₂]
    exact forall₂_congr fun c hc => claimDocument_total_iff hs hc hg
  constructor
  · rintro ⟨documents, h⟩
    obtain ⟨observed, hobserved, h⟩ := bind_ok h
    obtain ⟨claimed, hclaimed, _⟩ := bind_ok h
    exact ⟨hobservations.mp ⟨observed, hobserved⟩, hclaims.mp ⟨claimed, hclaimed⟩⟩
  · intro h
    obtain ⟨observed, hobserved⟩ := hobservations.mpr h.observation
    obtain ⟨claimed, hclaimed⟩ := hclaims.mpr h.claim
    rw [deriveDocuments, hobserved, ok_bind, hclaimed]
    exact ⟨_, rfl⟩

end Projection

section Snapshot

variable {scope : ScopeContract} {n : MemoryNamespace}

theorem claimCandidate_total_iff {c : MemoryClaim} :
    (∃ found, claimCandidate f p s req hits at' n c = .ok found) ↔
      (claimIsInScope c req.scope = true → RestsOnSources p s at' c) := by
  simp only [claimCandidate]
  constructor
  · rintro ⟨found, h⟩ hscope r hr hcurrent hallowed hnil
    have hadmitted : admittedClaim p s req at' n c = some (r, []) := by
      refine admittedClaim_eq_some.mpr ⟨hscope, currentRevision_eq_some.mp hr, hcurrent, hallowed,
        ?_, fun o ho => absurd ho List.not_mem_nil⟩
      rw [hnil]
      exact .nil
    rw [hadmitted] at h
    cases h
  · intro h
    cases hadmitted : admittedClaim p s req at' n c with
    | none => exact ⟨none, rfl⟩
    | some found =>
      obtain ⟨r, sources⟩ := found
      obtain ⟨hscope, hrevision, hcurrent, hallowed, hsources, _⟩ :=
        admittedClaim_eq_some.mp hadmitted
      have hne := h hscope r (currentRevision_eq_some.mpr hrevision) hcurrent hallowed
      cases hmax : (sources.map (·.sourceCursor)).max? with
      | none =>
        have hnil := List.map_eq_nil_iff.mp (List.max?_eq_none_iff.mp hmax)
        rw [hnil, List.forall₂_nil_right_iff] at hsources
        exact absurd hsources hne
      | some cursor =>
        dsimp only
        rw [hmax]
        exact ⟨_, rfl⟩

theorem validate_repositoryScope (h : n ∈ readableNamespaces scope) :
    (repositoryScope n scope).validate n = .ok () := by
  have hreadable := mem_readableNamespaces h
  cases n with
  | projectCanonical =>
    have hproject : scope.projectId ≠ none := by
      simp only [canReadNamespace] at hreadable
      split at hreadable
      · cases hreadable
      · simpa using (decide_eq_true_eq.mp hreadable).2
    simp [repositoryScope, ReadScope.validate, ReadScope.required, hproject]
  | conversationDraft => rfl
  | userProfile => rfl
  | deviceLocal => simp [readableNamespaces] at h
  | taskEpisode => rfl

theorem claimCandidates_total_iff :
    (∃ found, claimCandidates f p s req hits now at' = .ok found) ↔
      Collectable p s req.scope now at' := by
  simp only [claimCandidates, bind_pure_total_iff, mapM_total_iff]
  have hnamespace : ∀ n ∈ readableNamespaces req.scope,
      ((∃ found, namespaceCandidates f p s req hits now at' n = .ok found) ↔
        ∀ c ∈ s.claims, c.namespaceOf = n → s.hasValidRevision now c.toMemoryClaim = true →
          (repositoryScope n req.scope).admitsClaim c.toMemoryClaim = true →
          claimIsInScope c.toMemoryClaim req.scope = true →
          RestsOnSources p s at' c.toMemoryClaim) := by
    intro n hn
    obtain ⟨claims, hclaims⟩ : ∃ claims, s.claimsForScope now n (repositoryScope n req.scope) =
        .ok claims := by
      simp only [MemoryStore.claimsForScope, validate_repositoryScope hn]
      exact ⟨_, rfl⟩
    have hmem := @MemoryStore.mem_claimsForScope s now n (repositoryScope n req.scope) claims hclaims
    simp only [namespaceCandidates, hclaims, ok_bind, mapM_total_iff, List.mem_mergeSort,
      claimCandidate_total_iff]
    constructor
    · intro h c hc hn hvalid hadmits hscope
      have hstatus : c.status ∈ MemoryStore.activeClaimStatuses := by
        simp only [claimIsInScope] at hscope
        split at hscope
        · cases hscope
        · rename_i hlive
          exact not_not.mp hlive
      exact h _ (hmem.mpr ⟨⟨c, hc, rfl⟩, hn, hstatus, hvalid, hadmits⟩) hscope
    · intro h c hc hscope
      obtain ⟨⟨row, hrow, rfl⟩, hn, _, hvalid, hadmits⟩ := hmem.mp hc
      exact h row hrow hn hvalid hadmits hscope
  constructor
  · intro h c hc hn hvalid hadmits hscope
    exact (hnamespace _ hn).mp (h _ hn) c hc rfl hvalid hadmits hscope
  · intro h n hn
    refine (hnamespace n hn).mpr fun c hc hcn hvalid hadmits hscope => ?_
    subst hcn
    exact h c hc hn hvalid hadmits hscope

theorem fallbackHistoryCandidates_total (excluded : List Uuid) :
    ∃ history, fallbackHistoryCandidates f p s req excluded = .ok history := by
  simp only [fallbackHistoryCandidates, scopedObservations, bind_pure_total_iff, mapM_total_iff]
  intro n hn
  simp only [MemoryStore.observationsForScope, validate_repositoryScope hn]
  exact ⟨_, rfl⟩

theorem collect_total_iff {sources : SnapshotSources} {degraded : Bool} :
    (∃ candidates, collect f p s req sources degraded hits = .ok candidates) ↔
      Collectable p s req.scope sources.now sources.at' := by
  rw [← @claimCandidates_total_iff f p s sources.at' sources.now req
    (normalizeHits hits req.scope sources.projectionGeneration req.sourceWatermarkCursor)]
  simp only [collect]
  constructor
  · rintro ⟨candidates, h⟩
    obtain ⟨found, hfound, _⟩ := bind_ok h
    exact ⟨found, hfound⟩
  · rintro ⟨⟨claims, provenance⟩, hfound⟩
    rw [hfound, ok_bind]
    cases degraded with
    | true =>
      obtain ⟨history, hhistory⟩ := fallbackHistoryCandidates_total provenance
      refine ⟨claims ++ history, ?_⟩
      simp only [if_true]
      rw [hhistory]
      rfl
    | false => exact ⟨_, rfl⟩

end Snapshot

/-- On a store that its operations have made, the projection and a snapshot complete just when
each claim that they show rests on a source, and each canonical observation on a project. -/
theorem readers_complete_iff {sources : SnapshotSources} {degraded : Bool}
    (hrun : Run (MemoryStore.StoreStep x) (MemoryStore.Created x) .empty s) (hg : 1 ≤ generation) :
    ((∃ documents, deriveDocuments x p s generation at' = .ok documents) ↔ Projectable p s at') ∧
      ((∃ candidates, collect f p s req sources degraded hits = .ok candidates) ↔
        Collectable p s req.scope sources.now sources.at') :=
  ⟨deriveDocuments_total_iff (MemoryStore.WellFormed.run hrun MemoryStore.wellFormed_empty) hg,
    collect_total_iff⟩

/-! A profile claim that its user has stated, without an observation and with one. -/

/-- Rules that agree with the source on lower-case words. -/
def wordRules : SnapshotRules where
  casefold := id
  words text := (Text.words text.toList).map String.ofList
  divide a b := a / b
  round := id

def profileScope : ScopeContract where
  workspaceType := .chatScratch
  projectId := none
  conversationId := 2
  taskId := 3
  baseVersionId := none
  targetVersionId := none
  memoryReadScope := ["user_profile"]

def profileRequest : SnapshotRequest := ⟨profileScope, "vim", 1⟩

def profileSources : SnapshotSources := ⟨"v1", 1, 4, 4, none, none⟩

def profileObservation : MemoryObservation where
  id := 7
  projectId := none
  conversationId := 2
  taskId := 3
  versionId := none
  scopeDigest := "scope"
  sourceEventId := 1
  sourceCursor := 1
  sourceType := .userMessage
  content := "vim"
  contentHash := "vim"
  proposedNamespace := .userProfile
  authority := .explicitUser
  confidence := MemoryStore.certain
  sensitivity := .privateText
  scanResult := .clean
  status := .pending
  actor := "user:1"
  createdAt := 0

section Runs

open MemoryStore

theorem created_profileClaim : CreatedClaim profileClaim :=
  ⟨5, 0, .userProfile, "editor", "is", none, none, none, none, none, by decide⟩

theorem created_profileRevision (ids : List Uuid) :
    CreatedRevision { profileRevision 1 with sourceObservationIds := ids } := by
  refine ⟨5, 1, .str "vim", "vim", ids, [1], .explicitUser, certain, "user:1", none, none, 0, none,
    [], ?_⟩
  have hvalue : Text.strip "vim" = "vim" := by decide
  have hactor : Text.strip "user:1" = "user:1" := by decide
  simp [MemoryClaimRevision.create, hvalue, hactor, profileRevision, expectedSuperseded]

theorem created_profileObservation : CreatedObservation plainHashing profileObservation := by
  refine ⟨7, 0, profileScope, "scope", 1, 1, .userMessage, "vim", .userProfile, .explicitUser,
    certain, .privateText, "user:1", { profileObservation with scanResult := .unchecked }, ?_,
    .inr ⟨.clean, rfl⟩⟩
  decide

/-- A claim that is stated without an observation. -/
def stated : List StoreAct :=
  [.write (.recordEvent userEvent), .write (.createClaim profileClaim (digest 'a')),
    .write (.appendRevision 1 5 0 (profileRevision 1) (digest 'b'))]

def observed : List StoreAct :=
  [.write (.recordEvent userEvent), .write (.appendObservation profileObservation (digest 'a')),
    .write (.transitionObservation 7 .pending .accepted),
    .write (.createClaim profileClaim (digest 'b')),
    .write (.appendRevision 1 5 0 { profileRevision 1 with sourceObservationIds := [7] }
      (digest 'c'))]

theorem run_stated : Run (StoreStep plainHashing) (Created plainHashing) .empty
    (stated.foldl (afterStore plainHashing) .empty) :=
  Run.foldl ⟨trivial, created_profileClaim, created_profileRevision [], trivial⟩

theorem run_observed : Run (StoreStep plainHashing) (Created plainHashing) .empty
    (observed.foldl (afterStore plainHashing) .empty) :=
  Run.foldl ⟨trivial, created_profileObservation, trivial, created_profileClaim,
    created_profileRevision [7], trivial⟩

theorem readers_complete_observed :
    (∃ documents, deriveDocuments plainHashing plainScan
        (observed.foldl (afterStore plainHashing) .empty) 1 4 = .ok documents) ∧
      ∃ candidates, collect wordRules plainScan (observed.foldl (afterStore plainHashing) .empty)
        profileRequest profileSources true [] = .ok candidates := by
  have hiff := @readers_complete_iff plainHashing wordRules plainScan
    (observed.foldl (afterStore plainHashing) .empty) 1 4 profileRequest [] profileSources true
    run_observed (by decide)
  have hsources : ∀ r ∈ (observed.foldl (afterStore plainHashing) .empty).revisions,
      r.sourceObservationIds ≠ [] := by
    have hrows : ∀ r ∈ (observed.foldl (afterStore plainHashing) .empty).revisions.rows,
      r.sourceObservationIds ≠ [] := by decide +kernel
    exact hrows
  have hrests : ∀ c, RestsOnSources plainScan (observed.foldl (afterStore plainHashing) .empty) 4 c :=
    fun c r hr _ _ => hsources r (currentRevision_eq_some.mp hr).1
  have hprojects : ∀ o ∈ (observed.foldl (afterStore plainHashing) .empty).observations.rows,
      o.proposedNamespace ≠ .projectCanonical := by decide +kernel
  exact ⟨hiff.1.mpr ⟨fun o ho _ hn => absurd hn (hprojects o ho), fun c _ _ => hrests c.toMemoryClaim⟩,
    hiff.2.mpr fun c _ _ _ _ _ => hrests c.toMemoryClaim⟩

/-- A claim stated by its user without an observation stops the projection and each snapshot. -/
theorem readers_stop_at_stated_claim :
    ∃ s, Run (StoreStep plainHashing) (Created plainHashing) .empty s ∧
      deriveDocuments plainHashing plainScan s 1 4 =
        .error (.valueError "max() arg is an empty sequence") ∧
      collect wordRules plainScan s profileRequest profileSources true [] =
        .error (.valueError "max() iterable argument is empty") :=
  ⟨_, run_stated, by decide +kernel, by decide +kernel⟩

end Runs

end Fairy.Snapshot
