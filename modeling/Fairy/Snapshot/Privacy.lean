import Fairy.Snapshot.Canonical

namespace Fairy.Snapshot

open Fairy.Lib
open Fairy.Memory
open Fairy.Memory.MemoryStore (certain plainScan)
open Fairy.Commanding (Uuid Time)

section Visible

variable (scope : ScopeContract) (s t : MemoryStore)

def VisibleClaim (c : ClaimRow) : Prop :=
  c ∈ s.claims ∧ canReadNamespace c.namespaceOf scope = true ∧
    claimIsInScope c.toMemoryClaim scope = true

/-- The current revision of a claim that is visible. -/
def VisibleRevision (c : ClaimRow) (r : RevisionRow) : Prop :=
  VisibleClaim scope s c ∧ r ∈ s.revisions ∧ r.claimId = c.id ∧ r.revision = c.currentRevision

/-- An observation is visible in a namespace that the scope reads, or as a source of the current
revision of a visible claim. -/
def VisibleObservation (o : ObservationRow) : Prop :=
  o ∈ s.observations ∧ o.status ∈ [ObservationStatus.accepted, .promoted] ∧
    o.scanResult = .clean ∧ o.sensitivity ≠ .secretText ∧
    ((canReadNamespace o.proposedNamespace scope = true ∧
        observationIsInScope o.toMemoryObservation o.proposedNamespace scope = true) ∨
      ∃ c r, VisibleRevision scope s c r ∧ o.id ∈ r.sourceObservationIds ∧
        observationIsInScope o.toMemoryObservation c.namespaceOf scope = true)

/-- Two stores that a scope cannot tell apart. -/
structure AgreeOn : Prop where
  claims : ∀ c, VisibleClaim scope s c ↔ VisibleClaim scope t c
  revisions : ∀ c r, VisibleRevision scope s c r ↔ VisibleRevision scope t c r
  observations : ∀ o, VisibleObservation scope s o ↔ VisibleObservation scope t o

end Visible

variable {f : SnapshotRules} {p : ContentScan} {s t : MemoryStore} {req : SnapshotRequest}
  {scope : ScopeContract} {at' now : Time} {hits : List MemorySearchHit} {n : MemoryNamespace}

theorem AgreeOn.symm (h : AgreeOn scope s t) : AgreeOn scope t s :=
  ⟨fun c => (h.claims c).symm, fun c r => (h.revisions c r).symm,
    fun o => (h.observations o).symm⟩

/-- An observation that the policy lets through is visible where the scope has it. -/
theorem visible_of_retrievable {o : ObservationRow} (ho : o ∈ s.observations)
    (hretrievable : p.isObservationRetrievable o.toMemoryObservation = true)
    (hscope : (canReadNamespace o.proposedNamespace scope = true ∧
        observationIsInScope o.toMemoryObservation o.proposedNamespace scope = true) ∨
      ∃ c r, VisibleRevision scope s c r ∧ o.id ∈ r.sourceObservationIds ∧
        observationIsInScope o.toMemoryObservation c.namespaceOf scope = true) :
    VisibleObservation scope s o := by
  obtain ⟨hstatus, hsensitivity, hscan, _⟩ := (p.isObservationRetrievable_iff).mp hretrievable
  exact ⟨ho, hstatus, hscan, hsensitivity, hscope⟩

theorem safeObservation_of_visible {o : ObservationRow} (h : VisibleObservation scope s o) :
    safeObservation s o.id = some o.toMemoryObservation := by
  refine safeObservation_eq_some.mpr ⟨o, h.1, rfl, rfl, fun hforgotten => ?_⟩
  have hstatus := h.2.1
  rw [hforgotten] at hstatus
  exact absurd hstatus (by decide)

section Claims

/-- What admits a visible claim in a store admits it in each that the scope cannot tell apart. -/
theorem admittedClaim_of_agree (h : AgreeOn req.scope s t) {c : ClaimRow}
    (hc : VisibleClaim req.scope s c) {r : RevisionRow} {sources : List MemoryObservation}
    (hadmitted : admittedClaim p s req at' c.namespaceOf c.toMemoryClaim = some (r, sources)) :
    admittedClaim p t req at' c.namespaceOf c.toMemoryClaim = some (r, sources) := by
  rw [admittedClaim_eq_some] at hadmitted ⊢
  obtain ⟨hscope, hrevision, hcurrent, hallowed, hsources, hall⟩ := hadmitted
  have hvisible : VisibleRevision req.scope s c r := ⟨hc, hrevision⟩
  refine ⟨hscope, ((h.revisions c r).mp hvisible).2, hcurrent, hallowed, ?_, hall⟩
  refine List.forall₂_iff_get.mpr ⟨hsources.length_eq, fun i hi hi' => ?_⟩
  obtain ⟨o, ho, hobservation, hid, _⟩ := safeObservation_eq_some.mp (hsources.get hi hi')
  obtain ⟨_, hinScope, hretrievable⟩ := sourceAdmitted_iff.mp (hall _ (List.getElem_mem hi'))
  have hsource : VisibleObservation req.scope s o := by
    refine visible_of_retrievable (p := p) ho ?_ (.inr ⟨c, r, hvisible, ?_, ?_⟩)
    · rw [hobservation]
      exact hretrievable
    · rw [hid]
      exact List.getElem_mem hi
    · rw [hobservation]
      exact hinScope
  have := safeObservation_of_visible ((h.observations o).mp hsource)
  rwa [hid, hobservation] at this

theorem admittedClaim_eq (h : AgreeOn req.scope s t) {c : ClaimRow}
    (hc : VisibleClaim req.scope s c) :
    admittedClaim p s req at' c.namespaceOf c.toMemoryClaim =
      admittedClaim p t req at' c.namespaceOf c.toMemoryClaim := by
  ext ⟨r, sources⟩
  constructor
  · exact admittedClaim_of_agree h hc
  · exact admittedClaim_of_agree h.symm ((h.claims c).mp hc)

theorem claimCandidate_of_not_inScope {c : MemoryClaim} (h : claimIsInScope c req.scope = false) :
    claimCandidate f p s req hits at' n c = .ok none := by
  simp only [claimCandidate, admittedClaim, h, if_true]
  rfl

/-- The comparison of `claimInputOrder`. -/
theorem sorts_claimInputOrder {l : List MemoryClaim} (h : (l.map (·.id)).Nodup) :
    Sorts (claimInputOrder f) l := by
  let cmp := compareLex (compareOn fun c : MemoryClaim => c.namespaceOf.value)
    (compareLex (compareOn fun c => f.casefold c.subject)
      (compareLex (compareOn fun c => f.casefold c.predicate) (compareOn (·.id))))
  have hid : ∀ a b, cmp a b = .eq → a.id = b.id := by
    intro a b hab
    simp only [cmp, compareLex_eq_eq] at hab
    exact Std.LawfulEqCmp.eq_of_compare hab.2.2.2
  exact @sorts_compare _ _ cmp _ _ _ hid h

theorem hasValidRevision_iff {c : MemoryClaim} : s.hasValidRevision now c = true ↔
    ∃ r ∈ s.revisions, r.claimId = c.id ∧ r.revision = c.currentRevision ∧ r.isCurrent = true ∧
      (∀ t ∈ r.validFrom, t ≤ now) ∧ ∀ t ∈ r.validTo, t > now := by
  simp only [MemoryStore.hasValidRevision, List.any_eq_true, decide_eq_true_eq, Table.mem_iff]

theorem hasValidRevision_of_agree (h : AgreeOn scope s t) {c : ClaimRow}
    (hc : VisibleClaim scope s c) (hvalid : s.hasValidRevision now c.toMemoryClaim = true) :
    t.hasValidRevision now c.toMemoryClaim = true := by
  obtain ⟨r, hr, hid, hnumber, hcurrent⟩ := hasValidRevision_iff.mp hvalid
  obtain ⟨_, hr', _⟩ := (h.revisions c r).mp ⟨hc, hr, hid, hnumber⟩
  exact hasValidRevision_iff.mpr ⟨r, hr', hid, hnumber, hcurrent⟩

variable {scope' : ReadScope} {claims claims' : List MemoryClaim}

theorem mem_visible_of_agree (h : AgreeOn scope s t) (hn : canReadNamespace n scope = true)
    (hs : s.claimsForScope now n scope' = .ok claims)
    (ht : t.claimsForScope now n scope' = .ok claims') {c : MemoryClaim} (hc : c ∈ claims)
    (hscope : claimIsInScope c scope = true) : c ∈ claims' := by
  obtain ⟨⟨row, hrow, rfl⟩, rfl, hstatus, hvalid, hadmits⟩ :=
    (MemoryStore.mem_claimsForScope hs).mp hc
  have hvisible : VisibleClaim scope s row := ⟨hrow, hn, hscope⟩
  exact (MemoryStore.mem_claimsForScope ht).mpr ⟨⟨row, ((h.claims row).mp hvisible).1, rfl⟩, rfl,
    hstatus, hasValidRevision_of_agree h hvisible hvalid, hadmits⟩

theorem nodup_claimsForScope (h : s.claimsForScope now n scope' = .ok claims) :
    (claims.map (·.id)).Nodup := by
  simp only [MemoryStore.claimsForScope] at h
  obtain ⟨_, _, h⟩ := bind_ok h
  rw [← pure_ok h]
  refine ((List.mergeSort_perm _ _).map _).nodup_iff.mpr ?_
  refine (List.Sublist.map _ List.filter_sublist).nodup ?_
  rw [List.map_map]
  exact s.claims.nodup

/-- The visible claims come in one order. -/
theorem visibleClaims_eq (h : AgreeOn scope s t) (hn : canReadNamespace n scope = true)
    (hs : s.claimsForScope now n scope' = .ok claims)
    (ht : t.claimsForScope now n scope' = .ok claims') :
    (claims.mergeSort (claimInputOrder f)).filter (claimIsInScope · scope) =
      (claims'.mergeSort (claimInputOrder f)).filter (claimIsInScope · scope) := by
  have hnodup := nodup_claimsForScope hs
  have hnodup' := nodup_claimsForScope ht
  have hsorts : Sorts (claimInputOrder f) (claims.filter (claimIsInScope · scope)) :=
    sorts_claimInputOrder ((List.filter_sublist.map _).nodup hnodup)
  rw [mergeSort_filter hsorts.trans hsorts.total, mergeSort_filter hsorts.trans hsorts.total]
  refine hsorts.mergeSort_eq ((List.perm_ext_iff_of_nodup hsorts.nodup ?_).mpr fun c => ?_)
  · exact .of_map (·.id) ((List.filter_sublist.map _).nodup hnodup')
  · rw [List.mem_filter, List.mem_filter]
    constructor
    · exact fun hc => ⟨mem_visible_of_agree h hn hs ht hc.1 hc.2, hc.2⟩
    · exact fun hc => ⟨mem_visible_of_agree h.symm hn ht hs hc.1 hc.2, hc.2⟩

theorem namespaceCandidates_eq (h : AgreeOn req.scope s t)
    (hn : canReadNamespace n req.scope = true) :
    (namespaceCandidates f p s req hits now at' n).map List.reduceOption =
      (namespaceCandidates f p t req hits now at' n).map List.reduceOption := by
  simp only [namespaceCandidates]
  cases hvalidate : (repositoryScope n req.scope).validate n with
  | error e => rw [MemoryStore.claimsForScope, MemoryStore.claimsForScope, hvalidate]; rfl
  | ok _ =>
    obtain ⟨claims, hs⟩ : ∃ claims, s.claimsForScope now n (repositoryScope n req.scope) =
        .ok claims := by
      rw [MemoryStore.claimsForScope, hvalidate]
      exact ⟨_, rfl⟩
    obtain ⟨claims', ht⟩ : ∃ claims, t.claimsForScope now n (repositoryScope n req.scope) =
        .ok claims := by
      rw [MemoryStore.claimsForScope, hvalidate]
      exact ⟨_, rfl⟩
    have hskip : ∀ (s : MemoryStore) (l : List MemoryClaim),
        (l.mapM (claimCandidate f p s req hits at' n)).map List.reduceOption =
          ((l.filter (claimIsInScope · req.scope)).mapM
            (claimCandidate f p s req hits at' n)).map List.reduceOption :=
      fun s l => mapM_reduceOption fun c _ => claimCandidate_of_not_inScope
    rw [hs, ht, ok_bind, ok_bind, hskip s, hskip t, ← visibleClaims_eq h hn hs ht]
    refine congrArg _ (mapM_congr fun c hc => ?_)
    obtain ⟨hc, hscope⟩ := List.mem_filter.mp hc
    obtain ⟨⟨row, hrow, rfl⟩, rfl, _⟩ :=
      (MemoryStore.mem_claimsForScope hs).mp (List.mem_mergeSort.mp hc)
    simp only [claimCandidate, admittedClaim_eq h ⟨hrow, hn, hscope⟩]

theorem claimCandidates_eq (h : AgreeOn req.scope s t) :
    claimCandidates f p s req hits now at' = claimCandidates f p t req hits now at' := by
  let result (found : List (List (SnapshotCandidate × List Uuid))) :=
    (found.flatten.map Prod.fst, found.flatten.flatMap Prod.snd)
  have hresult : ∀ s, claimCandidates f p s req hits now at' =
      ((readableNamespaces req.scope).mapM fun n =>
        (namespaceCandidates f p s req hits now at' n).map List.reduceOption).map result := by
    intro s
    rw [← mapM_map]
    simp only [claimCandidates]
    cases (readableNamespaces req.scope).mapM (namespaceCandidates f p s req hits now at') with
    | error e => rfl
    | ok found =>
      have hflat : found.flatten.reduceOption = (found.map List.reduceOption).flatten := by
        simp only [List.reduceOption, List.filterMap_flatten]
      rw [ok_bind, hflat]
      rfl
  rw [hresult, hresult, mapM_congr fun n hn => namespaceCandidates_eq h (mem_readableNamespaces hn)]

end Claims

section History

variable {excluded : List Uuid}

theorem observationCandidate_some {o : MemoryObservation} {lexicalScore : Rat} {exactMatch : Bool}
    {reason : MemorySelectionReason} {c : SnapshotCandidate}
    (h : observationCandidate f p req o lexicalScore exactMatch reason = some c) :
    canReadNamespace o.proposedNamespace req.scope = true ∧
      observationIsInScope o o.proposedNamespace req.scope = true ∧
      p.isObservationRetrievable o = true := by
  simp only [observationCandidate] at h
  split at h
  · cases h
  rename_i hguard
  simp only [not_or, Bool.not_eq_false] at hguard
  exact hguard.2

theorem historyCandidate_of_agree (h : AgreeOn req.scope s t) {id : Uuid} {lexicalScore : Rat}
    {exactMatch : Bool} {reason : MemorySelectionReason} {c : SnapshotCandidate}
    (hs : ((safeObservation s id).bind fun o =>
      observationCandidate f p req o lexicalScore exactMatch reason) = some c) :
    ((safeObservation t id).bind fun o =>
      observationCandidate f p req o lexicalScore exactMatch reason) = some c := by
  obtain ⟨o, ho, hcandidate⟩ := Option.bind_eq_some_iff.mp hs
  obtain ⟨row, hrow, rfl, rfl, _⟩ := safeObservation_eq_some.mp ho
  obtain ⟨hreadable, hscope, hretrievable⟩ := observationCandidate_some hcandidate
  have hvisible := visible_of_retrievable hrow hretrievable (.inl ⟨hreadable, hscope⟩)
  rw [safeObservation_of_visible ((h.observations row).mp hvisible)]
  exact hcandidate

theorem searchHistoryCandidates_eq (h : AgreeOn req.scope s t) :
    searchHistoryCandidates f p s req hits excluded =
      searchHistoryCandidates f p t req hits excluded := by
  simp only [searchHistoryCandidates]
  refine List.filterMap_congr fun hit _ => ?_
  split
  · rfl
  · ext c
    exact ⟨historyCandidate_of_agree h, historyCandidate_of_agree h.symm⟩

/-- The rows that a scoped read selects are those in the scope. -/
theorem admitsObservation_iff {o : MemoryObservation} (h : canReadNamespace n scope = true) :
    (repositoryScope n scope).admitsObservation o = true ↔
      observationIsInScope o n scope = true := by
  cases n with
  | projectCanonical =>
    have hproject : scope.projectId ≠ none := ((observationIsInScope_iff
      (o := { o with projectId := scope.projectId }) h).mp (by simp [observationIsInScope])).1
    obtain ⟨project, hproject⟩ := Option.ne_none_iff_exists'.mp hproject
    simp [repositoryScope, ReadScope.admitsObservation, ReadScope.admits, observationIsInScope,
      hproject]
  | conversationDraft =>
    simp [repositoryScope, ReadScope.admitsObservation, ReadScope.admits, observationIsInScope]
  | userProfile =>
    simp [repositoryScope, ReadScope.admitsObservation, ReadScope.admits, observationIsInScope]
  | deviceLocal =>
    simp only [canReadNamespace, reduceCtorEq, if_false, ne_eq, not_true_eq_false,
      decide_false, ite_self] at h
  | taskEpisode =>
    simp [repositoryScope, ReadScope.admitsObservation, ReadScope.admits, observationIsInScope]

theorem mem_scopedObservations_iff (hn : canReadNamespace n scope = true) {o : MemoryObservation} :
    o ∈ s.scopedObservations n (repositoryScope n scope) true ↔
      ∃ row, VisibleObservation scope s row ∧ row.toMemoryObservation = o ∧
        o.proposedNamespace = n ∧ observationIsInScope o n scope = true := by
  simp only [MemoryStore.scopedObservations, List.mem_filter, List.mem_map, decide_eq_true_eq,
    admitsObservation_iff hn, forall_const]
  constructor
  · rintro ⟨⟨row, hrow, rfl⟩, rfl, _, ⟨hstatus, hscan, hsensitivity⟩, hscope⟩
    exact ⟨row, ⟨hrow, hstatus, hscan, hsensitivity, .inl ⟨hn, hscope⟩⟩, rfl, rfl, hscope⟩
  · rintro ⟨row, ⟨hrow, hstatus, hscan, hsensitivity, _⟩, rfl, rfl, hscope⟩
    refine ⟨⟨row, hrow, rfl⟩, rfl, ?_, ⟨hstatus, hscan, hsensitivity⟩, hscope⟩
    simp only [MemoryStore.visibleObservationStatuses, List.mem_cons, List.not_mem_nil,
      or_false] at hstatus ⊢
    exact .inr hstatus

theorem nodup_scopedObservations {scope' : ReadScope} {retrievableOnly : Bool} :
    ((s.scopedObservations n scope' retrievableOnly).map (·.id)).Nodup := by
  refine (List.Sublist.map _ List.filter_sublist).nodup ?_
  rw [List.map_map]
  exact s.observations.nodup

theorem observationsForScope_eq (h : AgreeOn scope s t) (hn : canReadNamespace n scope = true) :
    s.observationsForScope n (repositoryScope n scope) (some fallbackObservationLimit) true true =
      t.observationsForScope n (repositoryScope n scope) (some fallbackObservationLimit) true
        true := by
  have hsorts : Sorts (fun a b => observationOrder b a)
      (s.scopedObservations n (repositoryScope n scope) true) :=
    sorts_byKeys_flip nodup_scopedObservations
  have hperm : (s.scopedObservations n (repositoryScope n scope) true).Perm
      (t.scopedObservations n (repositoryScope n scope) true) := by
    refine (List.perm_ext_iff_of_nodup hsorts.nodup
      (.of_map _ nodup_scopedObservations)).mpr fun o => ?_
    simp only [mem_scopedObservations_iff hn, h.observations]
  simp only [MemoryStore.observationsForScope, if_true, hsorts.mergeSort_eq hperm]

theorem fallbackHistoryCandidates_eq (h : AgreeOn req.scope s t) :
    fallbackHistoryCandidates f p s req excluded = fallbackHistoryCandidates f p t req excluded := by
  simp only [fallbackHistoryCandidates, scopedObservations]
  rw [mapM_congr fun n hn => observationsForScope_eq h (mem_readableNamespaces hn)]

end History

section Hits

variable {hits' : List MemorySearchHit} {generation watermark : Nat}

theorem hitInputOrder_eq : hitInputOrder = fun a b =>
    (compareLex (compareOn fun hit : MemorySearchHit => hit.document.sourceKind.value)
      (compareLex (compareOn fun hit => hit.document.sourceId)
        (compareLex (compareOn fun hit => hit.document.sourceRevision.getD 0)
          (compareLex (compareOn fun hit => hit.document.sourceCursor)
            (compareOn fun hit => hit.document.contentHash)))) a b).isLE := rfl

/-- A hit that is out of the scope leaves no trace. -/
theorem normalizeHits_eq (h : hits.filter (hitIsInScope scope generation watermark) =
    hits'.filter (hitIsInScope scope generation watermark)) :
    normalizeHits hits scope generation watermark =
      normalizeHits hits' scope generation watermark := by
  have htrans : ∀ a b c, hitInputOrder a b = true → hitInputOrder b c = true →
      hitInputOrder a c = true := by
    rw [hitInputOrder_eq]
    exact fun a b c => Std.TransCmp.isLE_trans
  have htotal : ∀ a b, (hitInputOrder a b || hitInputOrder b a) = true := by
    rw [hitInputOrder_eq]
    exact isLE_total
  simp only [normalizeHits]
  rw [mergeSort_filter htrans htotal, mergeSort_filter htrans htotal, h]

end Hits

section Build

variable {sources sources' : SnapshotSources} {watermark : Nat} {query : String}

/-- Two builders whose indexes answer alike, up to the hits that are out of the scope. -/
structure SameAnswers (scope : ScopeContract) (watermark : Nat)
    (sources sources' : SnapshotSources) : Prop where
  others : { sources' with search := sources.search } = sources
  hits : sources.search.map
      (List.filter (hitIsInScope scope sources.projectionGeneration watermark)) =
    sources'.search.map (List.filter (hitIsInScope scope sources.projectionGeneration watermark))

theorem selectItems_eq (h : AgreeOn req.scope s t)
    (hsources : SameAnswers req.scope req.sourceWatermarkCursor sources sources') {degraded : Bool}
    {hits' : List MemorySearchHit}
    (hhits : hits.filter (hitIsInScope req.scope sources.projectionGeneration
        req.sourceWatermarkCursor) =
      hits'.filter (hitIsInScope req.scope sources.projectionGeneration
        req.sourceWatermarkCursor)) :
    selectItems f p s req sources degraded hits =
      selectItems f p t req sources' degraded hits' := by
  obtain ⟨hothers, _⟩ := hsources
  rw [← hothers] at hhits ⊢
  have hcollect : collect f p s req { sources' with search := sources.search } degraded hits =
      collect f p t req sources' degraded hits' := by
    simp only [collect, normalizeHits_eq hhits, claimCandidates_eq h,
      fallbackHistoryCandidates_eq h, searchHistoryCandidates_eq h]
  simp only [selectItems, hcollect]

/-- What the index answers shows in a snapshot through the hits of the scope only. -/
theorem searched_eq (hsources : SameAnswers scope watermark sources sources') :
    (searched sources watermark).1 = (searched sources' watermark).1 ∧
      (searched sources watermark).2.1 = (searched sources' watermark).2.1 ∧
      (searched sources watermark).2.2.filter
          (hitIsInScope scope sources.projectionGeneration watermark) =
        (searched sources' watermark).2.2.filter
          (hitIsInScope scope sources.projectionGeneration watermark) := by
  obtain ⟨hothers, hhits⟩ := hsources
  have hgeneration : sources'.projectionGeneration = sources.projectionGeneration := by
    rw [← hothers]
  have hhealth : sources'.health = sources.health := by rw [← hothers]
  simp only [searched, hgeneration, hhealth]
  obtain ⟨health, _ | reason⟩ :=
    projectionHealth sources.projectionGeneration watermark sources.health
  · cases hs : sources.search with
    | none =>
      cases ht : sources'.search with
      | none => exact ⟨rfl, rfl, rfl⟩
      | some hits' =>
        rw [hs, ht] at hhits
        cases hhits
    | some hits =>
      cases ht : sources'.search with
      | none =>
        rw [hs, ht] at hhits
        cases hhits
      | some hits' =>
        rw [hs, ht] at hhits
        exact ⟨rfl, rfl, Option.some.inj hhits⟩
  · exact ⟨rfl, rfl, rfl⟩

/-- The snapshot of a scope is a function of what the scope may see. -/
theorem build_eq_of_agree (h : AgreeOn scope s t)
    (hsources : SameAnswers scope watermark sources sources') :
    build f p s sources scope query watermark = build f p t sources' scope query watermark := by
  obtain ⟨hhealth, hreason, hhits⟩ := searched_eq hsources
  have hothers := hsources.others
  have hgeneration : sources.projectionGeneration = sources'.projectionGeneration := by
    rw [← hothers]
  have hpolicy : sources.policyVersion = sources'.policyVersion := by rw [← hothers]
  have hitems : selectItems f p s ⟨scope, Text.strip query, watermark⟩ sources
        (searched sources' watermark).2.1.isSome (searched sources watermark).2.2 =
      selectItems f p t ⟨scope, Text.strip query, watermark⟩ sources'
        (searched sources' watermark).2.1.isSome (searched sources' watermark).2.2 :=
    selectItems_eq h hsources hhits
  simp only [build, hitems, hhealth, hreason, hgeneration, hpolicy]

end Build

/-- The snapshots of a scope show records of the scope only, and depend on no others. -/
theorem snapshots_do_not_leak (f : SnapshotRules) (p : ContentScan) (s : MemoryStore)
    (sources : SnapshotSources) (scope : ScopeContract) (query : String) (watermark : Nat) :
    (∀ snapshot, build f p s sources scope query watermark = .ok snapshot →
      ∀ item ∈ snapshot.items, item.IsCanonical p s sources.at' scope watermark) ∧
    ∀ t sources', AgreeOn scope s t → SameAnswers scope watermark sources sources' →
      build f p s sources scope query watermark = build f p t sources' scope query watermark :=
  ⟨fun _ h => build_canonical h, fun _ _ h hsources => build_eq_of_agree h hsources⟩

section Drafts

/-- The rules as they are for words of lower case and for short decimals. -/
def plainRules : SnapshotRules :=
  ⟨fun text => text, fun text => [text], fun a b => (a : Rat) / b, fun q => q⟩

def draftScope : ScopeContract where
  workspaceType := .chatScratch
  projectId := none
  conversationId := 1
  taskId := 2
  baseVersionId := none
  targetVersionId := none
  memoryReadScope := ["current_conversation"]

/-- A draft of a conversation. -/
def draft (id conversationId : Uuid) : ObservationRow where
  id := id
  projectId := none
  conversationId := conversationId
  taskId := 2
  versionId := none
  scopeDigest := ""
  sourceEventId := 9
  sourceCursor := 3
  sourceType := .userMessage
  content := "tea"
  contentHash := ""
  proposedNamespace := .conversationDraft
  authority := .explicitUser
  confidence := certain
  sensitivity := .privateText
  scanResult := .clean
  status := .accepted
  actor := "user:1"
  createdAt := 0
  requestFingerprint := ""
  contentFingerprint := ""

def draftHit (id conversationId : Uuid) : MemorySearchHit where
  document :=
    { sourceKind := .observation, sourceId := id, sourceRevision := none
      namespaceOf := some .conversationDraft, projectId := none
      conversationId := some conversationId, taskId := none, versionId := none, language := "und"
      normalizedText := "tea", contentHash := "", sourceCursor := 3, projectionGeneration := 1 }
  lexicalScore := certain
  exactMatch := true

def draftStore (rows : List ObservationRow) (h : (rows.map (·.id)).Nodup) : MemoryStore :=
  { MemoryStore.empty with observations := ⟨rows, h, fun _ _ => trivial⟩ }

def ownDrafts : MemoryStore := draftStore [draft 4 1] (by simp)

def allDrafts : MemoryStore := draftStore [draft 4 1, draft 5 8] (by simp [draft])

def draftSources (hits : List MemorySearchHit) : SnapshotSources :=
  ⟨"hermes-lexical-v1", 1, 0, 0, some ⟨1, .ready, 5, none⟩, some hits⟩

theorem drafts_agree : AgreeOn draftScope ownDrafts allDrafts := by
  have hclaim : ∀ rows h c, ¬ VisibleClaim draftScope (draftStore rows h) c :=
    fun rows h c hc => Table.not_mem_empty c hc.1
  have hrevision : ∀ rows h c r, ¬ VisibleRevision draftScope (draftStore rows h) c r :=
    fun rows h c r hr => hclaim rows h c hr.1
  refine ⟨fun c => ?_, fun c r => ?_, fun o => ?_⟩
  · exact iff_of_false (hclaim _ _ c) (hclaim _ _ c)
  · exact iff_of_false (hrevision _ _ c r) (hrevision _ _ c r)
  · constructor
    · rintro ⟨ho, hstatus, hscan, hsensitivity, hown | ⟨c, r, hr, _⟩⟩
      · exact ⟨List.mem_of_mem_head? (List.mem_singleton.mp ho ▸ rfl), hstatus, hscan,
          hsensitivity, .inl hown⟩
      · exact absurd hr (hrevision _ _ c r)
    · rintro ⟨ho, hstatus, hscan, hsensitivity, hown | ⟨c, r, hr, _⟩⟩
      · obtain rfl | ho := List.mem_cons.mp ho
        · exact ⟨List.mem_singleton.mpr rfl, hstatus, hscan, hsensitivity, .inl hown⟩
        · rw [List.mem_singleton.mp ho] at hown
          exact absurd hown.2 (by decide)
      · exact absurd hr (hrevision _ _ c r)

theorem draft_snapshot_does_not_leak :
    (∃ snapshot, build plainRules plainScan ownDrafts (draftSources [draftHit 4 1]) draftScope
        "tea" 5 = .ok snapshot ∧ snapshot.items.map (·.sourceId) = [4] ∧
      ∀ item ∈ snapshot.items, item.IsCanonical plainScan ownDrafts 0 draftScope 5) ∧
    build plainRules plainScan ownDrafts (draftSources [draftHit 4 1]) draftScope "tea" 5 =
      build plainRules plainScan allDrafts (draftSources [draftHit 5 8, draftHit 4 1]) draftScope
        "tea" 5 := by
  have h := snapshots_do_not_leak plainRules plainScan ownDrafts (draftSources [draftHit 4 1])
    draftScope "tea" 5
  refine ⟨?_, h.2 allDrafts _ drafts_agree ⟨rfl, by decide +kernel⟩⟩
  have hitems : (build plainRules plainScan ownDrafts (draftSources [draftHit 4 1]) draftScope
      "tea" 5).toOption.map (fun snapshot => snapshot.items.map (·.sourceId)) = some [4] := by
    decide +kernel
  cases hbuild : build plainRules plainScan ownDrafts (draftSources [draftHit 4 1]) draftScope
      "tea" 5 with
  | error e =>
    rw [hbuild] at hitems
    cases hitems
  | ok snapshot =>
    rw [hbuild] at hitems
    exact ⟨snapshot, rfl, Option.some.inj hitems, h.1 snapshot hbuild⟩

end Drafts

end Fairy.Snapshot
