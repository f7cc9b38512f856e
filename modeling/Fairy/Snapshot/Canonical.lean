import Fairy.Snapshot.Builder
import Fairy.Memory.Forgetting

namespace Fairy.Snapshot

open Fairy.Lib
open Fairy.Memory
open Fairy.Commanding (Uuid Time)

/-- What a namespace of a scope is bound to; the profile of the user is bound to nothing. -/
def MatchesScope (scope : ScopeContract) (n : MemoryNamespace)
    (projectId conversationId taskId : Option Uuid) : Prop :=
  match n with
  | .projectCanonical => scope.projectId ≠ none ∧ projectId = scope.projectId
  | .conversationDraft => conversationId = some scope.conversationId
  | .taskEpisode => taskId = some scope.taskId
  | .userProfile => True
  | .deviceLocal => False

section Records

variable (p : ContentScan) (s : MemoryStore) (at' : Time) (scope : ScopeContract) (watermark : Nat)

/-- An observation that the snapshots of a scope may show under a namespace. -/
structure Showable (n : MemoryNamespace) (o : ObservationRow) : Prop where
  stored : o ∈ s.observations
  matching : MatchesScope scope n o.projectId (some o.conversationId) (some o.taskId)
  kept : o.status ≠ .forgotten
  retrievable : p.isObservationRetrievable o.toMemoryObservation = true
  cursor : o.sourceCursor ≤ watermark

/-- A claim whose current revision the snapshots of a scope may show. -/
structure ShowableClaim (c : ClaimRow) (r : RevisionRow) : Prop where
  stored : c ∈ s.claims
  readable : canReadNamespace c.namespaceOf scope = true
  matching : MatchesScope scope c.namespaceOf c.projectId c.conversationId c.taskId
  live : c.status ∈ [ClaimStatus.active, .conflicted]
  revision : r ∈ s.revisions ∧ r.claimId = c.id ∧ r.revision = c.currentRevision
  current : isRevisionCurrent r.toMemoryClaimRevision at' = true
  allowed : (p.scanContent r.normalizedText .privateText).allowed = true
  sources : ∀ id ∈ r.sourceObservationIds,
    ∃ o, o.id = id ∧ Showable p s scope watermark c.namespaceOf o

/-- The record that a line of a snapshot shows, under the namespace it names. -/
inductive Canonical (kind : MemorySourceKind) (id : Uuid) (revision : Option Nat)
    (n : Option MemoryNamespace) (text : String) (sourceCursor : Nat) : Prop
  | observation (o : ObservationRow) (hkey : (kind, id, revision) = (.observation, o.id, none))
      (hnamespace : n = some o.proposedNamespace)
      (hreadable : canReadNamespace o.proposedNamespace scope = true)
      (hshown : Showable p s scope watermark o.proposedNamespace o)
      (htext : text = renderObservation o.toMemoryObservation)
      (hcursor : sourceCursor = o.sourceCursor)
  | claim (c : ClaimRow) (r : RevisionRow)
      (hkey : (kind, id, revision) = (.claimRevision, c.id, some r.revision))
      (hnamespace : n = some c.namespaceOf) (hshown : ShowableClaim p s at' scope watermark c r)
      (htext : ∃ conflict, text = renderClaim c.toMemoryClaim r.toMemoryClaimRevision conflict)
      (hcursor : sourceCursor ≤ watermark)

def SnapshotCandidate.IsCanonical (c : SnapshotCandidate) : Prop :=
  Canonical p s at' scope watermark c.sourceKind c.sourceId c.sourceRevision c.namespaceOf
    c.renderedText c.sourceCursor

end Records

variable {f : SnapshotRules} {p : ContentScan} {s : MemoryStore} {req : SnapshotRequest}
  {at' now : Time} {hits : List MemorySearchHit} {n : MemoryNamespace}

section Scope

variable {scope : ScopeContract}

theorem observationIsInScope_iff {o : MemoryObservation} (h : canReadNamespace n scope = true) :
    observationIsInScope o n scope = true ↔
      MatchesScope scope n o.projectId (some o.conversationId) (some o.taskId) := by
  cases n with
  | projectCanonical =>
    have hproject : scope.projectId ≠ none := by
      simp only [canReadNamespace] at h
      split at h
      · cases h
      · simp only [if_true, decide_eq_true_eq] at h
        exact h.2
    simp [observationIsInScope, MatchesScope, hproject]
  | conversationDraft => simp [observationIsInScope, MatchesScope]
  | userProfile => simp [observationIsInScope, MatchesScope]
  | deviceLocal => simp [observationIsInScope, MatchesScope]
  | taskEpisode => simp [observationIsInScope, MatchesScope]

theorem matchesScope_of_claimIsInScope {c : MemoryClaim} (h : claimIsInScope c scope = true) :
    c.status ∈ [ClaimStatus.active, .conflicted] ∧
      MatchesScope scope c.namespaceOf c.projectId c.conversationId c.taskId := by
  simp only [claimIsInScope] at h
  split at h
  · cases h
  rename_i hlive
  split at h
  · cases h
  refine ⟨not_not.mp hlive, ?_⟩
  cases hn : c.namespaceOf <;> simp_all [MatchesScope]

end Scope

theorem safeObservation_eq_some {id : Uuid} {o : MemoryObservation} :
    safeObservation s id = some o ↔
      ∃ row ∈ s.observations, row.toMemoryObservation = o ∧ row.id = id ∧
        row.status ≠ .forgotten := by
  simp only [safeObservation, MemoryStore.getObservation, MemoryStore.observationRow]
  cases hfind : s.observations.find? id with
  | none =>
    have hnone := Table.find?_eq_none.mp hfind
    simp only [reduceCtorEq, false_iff, not_exists, not_and]
    intro row hrow _ hid
    exact absurd hid (hnone row hrow)
  | some row =>
    obtain ⟨hrow, hid⟩ := Table.find?_eq_some.mp hfind
    have hunique : ∀ row' ∈ s.observations, row'.id = id → row' = row := fun row' hrow' hid' =>
      Table.eq_of_key hrow' hrow (hid'.trans hid.symm)
    by_cases hforgotten : row.status = .forgotten
    · simp only [hforgotten, and_self, if_true, reduceCtorEq, false_iff, not_exists, not_and,
        not_not]
      intro row' hrow' _ hid'
      rw [hunique row' hrow' hid']
      exact hforgotten
    · simp only [hforgotten, false_and, if_false, Option.some.injEq]
      constructor
      · intro ho
        exact ⟨row, hrow, ho, hid, hforgotten⟩
      · rintro ⟨row', hrow', ho, hid', _⟩
        rw [← hunique row' hrow' hid']
        exact ho

/-- A candidate of the history is an observation that the snapshot may show. -/
theorem observationCandidate_canonical {row : ObservationRow} {lexicalScore : Rat}
    {exactMatch : Bool} {reason : MemorySelectionReason} {c : SnapshotCandidate}
    (hrow : row ∈ s.observations) (hkept : row.status ≠ .forgotten)
    (h : observationCandidate f p req row.toMemoryObservation lexicalScore exactMatch reason =
      some c) : c.IsCanonical p s at' req.scope req.sourceWatermarkCursor := by
  simp only [observationCandidate] at h
  split at h
  · cases h
  rename_i hguard
  simp only [not_or, Nat.not_lt, Bool.not_eq_false] at hguard
  obtain ⟨hcursor, hreadable, hscope, hretrievable⟩ := hguard
  cases h
  exact .observation row rfl rfl hreadable
    ⟨hrow, (observationIsInScope_iff hreadable).mp hscope, hkept, hretrievable, hcursor⟩ rfl rfl

theorem currentRevision_eq_some {c : MemoryClaim} {r : RevisionRow} :
    currentRevision s c = some r ↔
      r ∈ s.revisions ∧ r.claimId = c.id ∧ r.revision = c.currentRevision := by
  have hmem : ∀ r', r' ∈ s.revisionsForClaim c.id ↔ r' ∈ s.revisions ∧ r'.claimId = c.id := by
    intro r'
    simp [MemoryStore.revisionsForClaim]
  simp only [currentRevision]
  constructor
  · intro h
    have hr := (hmem r).mp (List.mem_of_find?_eq_some h)
    exact ⟨hr.1, hr.2, by simpa using List.find?_some h⟩
  · rintro ⟨hr, hid, hnumber⟩
    cases hfind : (s.revisionsForClaim c.id).find? fun r => r.revision = c.currentRevision with
    | none =>
      have := List.find?_eq_none.mp hfind r ((hmem r).mpr ⟨hr, hid⟩)
      simp [hnumber] at this
    | some r' =>
      have hr' := (hmem r').mp (List.mem_of_find?_eq_some hfind)
      have hnumber' : r'.revision = c.currentRevision := by simpa using List.find?_some hfind
      have hkey : r'.key = r.key :=
        Prod.ext (hr'.2.trans hid.symm) (hnumber'.trans hnumber.symm)
      rw [Table.eq_of_key hr'.1 hr hkey]

/-- The sources of a claim that is shown, one for each identifier. -/
theorem sourceObservations_eq_some {r : MemoryClaimRevision} {sources : List MemoryObservation} :
    sourceObservations s r = some sources ↔
      List.Forall₂ (fun id o => safeObservation s id = some o) r.sourceObservationIds sources := by
  simp only [sourceObservations]
  induction r.sourceObservationIds generalizing sources with
  | nil =>
    rw [List.mapM_nil, List.forall₂_nil_left_iff]
    exact ⟨fun h => (Option.some.inj h).symm, fun h => by rw [h]; rfl⟩
  | cons id ids ih =>
    rw [List.mapM_cons]
    cases sources with
    | nil => simp [Option.bind_eq_some_iff]
    | cons o sources =>
      rw [List.forall₂_cons, ← ih]
      simp [Option.bind_eq_some_iff]

theorem admittedClaim_eq_some {c : MemoryClaim} {r : RevisionRow}
    {sources : List MemoryObservation} :
    admittedClaim p s req at' n c = some (r, sources) ↔
      claimIsInScope c req.scope = true ∧
        (r ∈ s.revisions ∧ r.claimId = c.id ∧ r.revision = c.currentRevision) ∧
        isRevisionCurrent r.toMemoryClaimRevision at' = true ∧
        (p.scanContent r.normalizedText .privateText).allowed = true ∧
        List.Forall₂ (fun id o => safeObservation s id = some o) r.sourceObservationIds sources ∧
        ∀ o ∈ sources, sourceAdmitted p req n o = true := by
  simp only [admittedClaim]
  by_cases hscope : claimIsInScope c req.scope = true
  · simp only [hscope, Bool.true_eq_false, if_false, true_and, Option.bind_eq_bind,
      Option.bind_eq_some_iff, ← currentRevision_eq_some]
    constructor
    · rintro ⟨r', hr', h⟩
      split at h
      · cases h
      rename_i hguard
      simp only [not_or, Bool.not_eq_false] at hguard
      obtain ⟨sources', hsources, h⟩ := Option.bind_eq_some_iff.mp h
      split at h
      · rename_i hall
        cases h
        exact ⟨hr', hguard.1, hguard.2, sourceObservations_eq_some.mp hsources,
          fun o ho => List.all_eq_true.mp hall o ho⟩
      · cases h
    · rintro ⟨hr, hcurrent, hallowed, hsources, hadmitted⟩
      refine ⟨r, hr, ?_⟩
      rw [if_neg (by simp [hcurrent, hallowed]), sourceObservations_eq_some.mpr hsources,
        Option.bind_some, if_pos (List.all_eq_true.mpr hadmitted)]
  · simp [hscope]

theorem sourceAdmitted_iff {o : MemoryObservation} : sourceAdmitted p req n o = true ↔
    o.sourceCursor ≤ req.sourceWatermarkCursor ∧ observationIsInScope o n req.scope = true ∧
      p.isObservationRetrievable o = true := by
  simp only [sourceAdmitted, decide_eq_true_eq]

/-- A claim that is admitted may be shown, up to a cursor that is not after the watermark. -/
theorem showableClaim_of_admitted {row : ClaimRow} {r : RevisionRow}
    {sources : List MemoryObservation} (hrow : row ∈ s.claims)
    (hreadable : canReadNamespace row.namespaceOf req.scope = true)
    (h : admittedClaim p s req at' row.namespaceOf row.toMemoryClaim = some (r, sources)) :
    ShowableClaim p s at' req.scope req.sourceWatermarkCursor row r := by
  obtain ⟨hscope, hrevision, hcurrent, hallowed, hsources, hadmitted⟩ :=
    admittedClaim_eq_some.mp h
  obtain ⟨hlive, hmatching⟩ := matchesScope_of_claimIsInScope hscope
  refine ⟨hrow, hreadable, hmatching, hlive, hrevision, hcurrent, hallowed, fun id hid => ?_⟩
  obtain ⟨i, hi, rfl⟩ := List.mem_iff_getElem.mp hid
  have hi' : i < sources.length := hsources.length_eq ▸ hi
  obtain ⟨o, ho, hobservation, hoid, hkept⟩ := safeObservation_eq_some.mp (hsources.get hi hi')
  obtain ⟨hcursor, hinScope, hretrievable⟩ :=
    sourceAdmitted_iff.mp (hadmitted _ (List.getElem_mem hi'))
  refine ⟨o, hoid, ho, ?_, hkept, ?_, ?_⟩
  · apply (observationIsInScope_iff hreadable).mp
    rw [hobservation]
    exact hinScope
  · rw [hobservation]
    exact hretrievable
  · have : o.sourceCursor = (sources.get ⟨i, hi'⟩).sourceCursor := by rw [← hobservation]
    rw [this]
    exact hcursor

theorem claimCandidate_canonical {row : ClaimRow} {c : SnapshotCandidate} {ids : List Uuid}
    (hrow : row ∈ s.claims) (hreadable : canReadNamespace row.namespaceOf req.scope = true)
    (h : claimCandidate f p s req hits at' row.namespaceOf row.toMemoryClaim =
      .ok (some (c, ids))) : c.IsCanonical p s at' req.scope req.sourceWatermarkCursor := by
  simp only [claimCandidate] at h
  split at h
  · cases h
  rename_i r sources hadmitted
  split at h
  · cases h
  rename_i sourceCursor hmax
  have hcandidate := pure_ok h
  simp only [Option.some.injEq, Prod.mk.injEq] at hcandidate
  rw [← hcandidate.1]
  refine .claim row r rfl rfl (showableClaim_of_admitted hrow hreadable hadmitted) ⟨_, rfl⟩ ?_
  obtain ⟨o, ho, hcursor⟩ := List.mem_map.mp (List.max?_mem hmax)
  have hle := (sourceAdmitted_iff.mp ((admittedClaim_eq_some.mp hadmitted).2.2.2.2.2 o ho)).1
  show sourceCursor ≤ _
  omega

theorem claimCandidates_canonical {claims : List SnapshotCandidate} {provenance : List Uuid}
    (h : claimCandidates f p s req hits now at' = .ok (claims, provenance)) :
    ∀ c ∈ claims, c.IsCanonical p s at' req.scope req.sourceWatermarkCursor := by
  simp only [claimCandidates] at h
  obtain ⟨found, hfound, h⟩ := bind_ok h
  have hclaims : found.flatten.reduceOption.map Prod.fst = claims :=
    congrArg Prod.fst (pure_ok h)
  intro c hc
  rw [← hclaims] at hc
  obtain ⟨⟨c', ids⟩, hmem, rfl⟩ := List.mem_map.mp hc
  obtain ⟨perNamespace, hnamespace, hmem⟩ := List.mem_flatten.mp (List.reduceOption_mem_iff.mp hmem)
  obtain ⟨n, hn, hcandidates⟩ := mapM_mem hfound hnamespace
  simp only [namespaceCandidates] at hcandidates
  obtain ⟨read, hread, hcandidates⟩ := bind_ok hcandidates
  obtain ⟨claim, hclaim, hcandidate⟩ := mapM_mem hcandidates hmem
  obtain ⟨⟨row, hrow, rfl⟩, rfl, _⟩ :=
    (MemoryStore.mem_claimsForScope hread).mp (List.mem_mergeSort.mp hclaim)
  exact claimCandidate_canonical hrow (mem_readableNamespaces hn) hcandidate

theorem searchHistoryCandidates_canonical {excluded : List Uuid} :
    ∀ c ∈ searchHistoryCandidates f p s req hits excluded,
      c.IsCanonical p s at' req.scope req.sourceWatermarkCursor := by
  intro c hc
  obtain ⟨hit, _, hhit⟩ := List.mem_filterMap.mp hc
  split at hhit
  · cases hhit
  obtain ⟨o, ho, hcandidate⟩ := Option.bind_eq_some_iff.mp hhit
  obtain ⟨row, hrow, rfl, _, hkept⟩ := safeObservation_eq_some.mp ho
  exact observationCandidate_canonical hrow hkept hcandidate

/-- The dictionary of the scoped observations holds what the reads have returned. -/
theorem mem_of_mem_foldl_latest {l found : List MemoryObservation} {o : MemoryObservation}
    (h : o ∈ l.foldl (fun found o =>
      if found.any (·.id = o.id) then found.map fun other => if other.id = o.id then o else other
      else found ++ [o]) found) : o ∈ found ∨ o ∈ l := by
  induction l generalizing found with
  | nil => exact .inl h
  | cons a l ih =>
    rw [List.foldl_cons] at h
    obtain hfound | hl := ih h
    · by_cases ha : found.any (·.id = a.id)
      · rw [if_pos ha] at hfound
        obtain ⟨other, hother, ho⟩ := List.mem_map.mp hfound
        split at ho
        · exact .inr (ho ▸ List.mem_cons_self)
        · exact .inl (ho ▸ hother)
      · rw [if_neg ha, List.mem_append, List.mem_singleton] at hfound
        obtain hfound | rfl := hfound
        · exact .inl hfound
        · exact .inr List.mem_cons_self
    · exact .inr (List.mem_cons_of_mem a hl)

theorem fallbackHistoryCandidates_canonical {excluded : List Uuid}
    {history : List SnapshotCandidate}
    (h : fallbackHistoryCandidates f p s req excluded = .ok history) :
    ∀ c ∈ history, c.IsCanonical p s at' req.scope req.sourceWatermarkCursor := by
  simp only [fallbackHistoryCandidates] at h
  obtain ⟨observations, hread, h⟩ := bind_ok h
  intro c hc
  rw [← pure_ok h] at hc
  obtain ⟨o, ho, hcandidate⟩ := List.mem_filterMap.mp (List.mem_of_mem_take hc)
  split at hcandidate
  · cases hcandidate
  simp only [scopedObservations] at hread
  obtain ⟨perNamespace, hnamespaces, hread⟩ := bind_ok hread
  rw [List.mem_mergeSort, ← pure_ok hread] at ho
  have hflat := (mem_of_mem_foldl_latest ho).resolve_left List.not_mem_nil
  obtain ⟨found, hfound, ho⟩ := List.mem_flatten.mp hflat
  obtain ⟨n, hn, hread⟩ := mapM_mem hnamespaces hfound
  obtain ⟨⟨row, hrow, rfl⟩, _, hstatus⟩ := MemoryStore.mem_observationsForScope hread ho
  refine observationCandidate_canonical hrow (fun hforgotten => ?_) hcandidate
  rw [hforgotten] at hstatus
  exact absurd hstatus (by decide)

theorem collect_canonical {sources : SnapshotSources} {degraded : Bool}
    {candidates : List SnapshotCandidate}
    (h : collect f p s req sources degraded hits = .ok candidates) :
    ∀ c ∈ candidates, c.IsCanonical p s sources.at' req.scope req.sourceWatermarkCursor := by
  simp only [collect] at h
  obtain ⟨⟨claims, provenance⟩, hclaims, h⟩ := bind_ok h
  have hcanonical := claimCandidates_canonical hclaims
  split at h
  · obtain ⟨history, hhistory, h⟩ := bind_ok h
    rw [← pure_ok h, List.forall_mem_append]
    exact ⟨hcanonical, fallbackHistoryCandidates_canonical hhistory⟩
  · rw [← pure_ok h, List.forall_mem_append]
    exact ⟨hcanonical, searchHistoryCandidates_canonical⟩

/-- An item of a snapshot shows a record of the store. -/
def MemorySnapshotItem.IsCanonical (p : ContentScan) (s : MemoryStore) (at' : Time)
    (scope : ScopeContract) (watermark : Nat) (item : MemorySnapshotItem) : Prop :=
  ∃ text sourceCursor, Canonical p s at' scope watermark item.sourceKind item.sourceId
    item.sourceRevision item.namespaceOf text sourceCursor ∧ item.renderedText = Text.strip text ∧
    sourceCursor ≤ watermark

theorem SnapshotCandidate.IsCanonical.cursor_le {scope : ScopeContract} {watermark : Nat}
    {c : SnapshotCandidate} (h : c.IsCanonical p s at' scope watermark) :
    c.sourceCursor ≤ watermark := by
  cases h with
  | observation o hkey hnamespace hreadable hshown htext hcursor =>
    rw [hcursor]
    exact hshown.cursor
  | claim c r hkey hnamespace hshown htext hcursor => exact hcursor

theorem MemorySnapshotItem.create_canonical {scope : ScopeContract} {watermark ordinal : Nat}
    {c : SnapshotCandidate} {item : MemorySnapshotItem}
    (hc : c.IsCanonical p s at' scope watermark)
    (h : MemorySnapshotItem.create ordinal c = .ok item) :
    item.IsCanonical p s at' scope watermark := by
  simp only [MemorySnapshotItem.create] at h
  split at h
  · cases h
  split at h
  · cases h
  split at h
  · cases h
  obtain ⟨_, _, h⟩ := bind_ok h
  rw [← pure_ok h]
  exact ⟨c.renderedText, c.sourceCursor, hc, rfl, hc.cursor_le⟩

theorem liftMemory_ok {α : Type} {x : Except MemoryError α} {a : α}
    (h : liftMemory x = .ok a) : x = .ok a := by
  cases x with
  | error e => cases h
  | ok b => exact congrArg _ (Except.ok.inj h)

theorem selectItems_canonical {sources : SnapshotSources} {degraded : Bool}
    {items : List MemorySnapshotItem}
    (h : selectItems f p s req sources degraded hits = .ok items) :
    ∀ item ∈ items, item.IsCanonical p s sources.at' req.scope req.sourceWatermarkCursor := by
  simp only [selectItems] at h
  obtain ⟨candidates, hcandidates, h⟩ := bind_ok h
  obtain ⟨ordered, hselected, h⟩ := bind_ok h
  intro item hitem
  obtain ⟨⟨c, ordinal⟩, hc, hcreated⟩ := mapM_mem h hitem
  have hmem : c ∈ ordered := (List.mem_zipIdx hc).2.2 ▸ List.getElem_mem _
  exact MemorySnapshotItem.create_canonical
    (collect_canonical (liftMemory_ok hcandidates) c (mem_of_mem_select hselected hmem)) hcreated

theorem build_canonical {sources : SnapshotSources} {scope : ScopeContract} {query : String}
    {watermark : Nat} {snapshot : MemorySnapshot}
    (h : build f p s sources scope query watermark = .ok snapshot) :
    ∀ item ∈ snapshot.items, item.IsCanonical p s sources.at' scope watermark := by
  simp only [build] at h
  split at h
  · cases h
  split at h
  · cases h
  obtain ⟨items, hitems, h⟩ := bind_ok h
  obtain ⟨_, _, h⟩ := bind_ok h
  rw [← pure_ok h]
  exact selectItems_canonical hitems

end Fairy.Snapshot
