import Fairy.Memory.Chain
import Fairy.Memory.Models

namespace Fairy.Memory.MemoryStore

open Fairy.Lib
open Fairy.Commanding (Uuid Time LedgerEvent)

variable {x : Hashing} {s t : MemoryStore} {id : Uuid}

theorem ForgottenClaim.unique (h : s.ForgottenClaim id) {c : ClaimRow} (hc : c ∈ s.claims)
    (hid : c.id = id) : c.status = .forgotten := by
  obtain ⟨d, hd, hdid, hforgotten⟩ := h
  rw [Table.eq_of_key hc hd (hid.trans hdid.symm)]
  exact hforgotten

theorem ForgottenObservation.unique (h : s.ForgottenObservation id) {o : ObservationRow}
    (ho : o ∈ s.observations) (hid : o.id = id) : o.status = .forgotten := by
  obtain ⟨d, hd, hdid, hforgotten⟩ := h
  rw [Table.eq_of_key ho hd (hid.trans hdid.symm)]
  exact hforgotten

theorem ForgottenClaim.claimRow (h : s.ForgottenClaim id) :
    ∃ c, s.claimRow id = some c ∧ c.status = .forgotten := by
  obtain ⟨c, hc, rfl, hforgotten⟩ := h
  exact ⟨c, Table.find?_key hc, hforgotten⟩

theorem ForgottenObservation.observationRow (h : s.ForgottenObservation id) :
    ∃ o, s.observationRow id = some o ∧ o.status = .forgotten := by
  obtain ⟨o, ho, rfl, hforgotten⟩ := h
  exact ⟨o, Table.find?_key ho, hforgotten⟩

/-- What the reads answer for a claim that cannot be retrieved. -/
structure HiddenClaim (s : MemoryStore) (id : Uuid) : Prop where
  get : s.getClaim id false =
    .error (.memoryForgotten s!"memory Claim has been forgotten: {id}")
  inScope : ∀ now n scope claims, s.claimsForScope now n scope = .ok claims →
    ∀ c ∈ claims, c.id ≠ id
  current : ∀ r ∈ s.revisionsForClaim id, r.isCurrent = false

/-- What the reads answer for an observation that cannot be retrieved. -/
structure HiddenObservation (p : ContentScan) (s : MemoryStore) (id : Uuid) : Prop where
  get : s.getObservation id false =
    .error (.memoryForgotten s!"memory Observation has been forgotten: {id}")
  inScope : ∀ n scope limit newestFirst retrievableOnly observations,
    s.observationsForScope n scope limit newestFirst retrievableOnly = .ok observations →
      ∀ o ∈ observations, o.id ≠ id
  policy : ∀ o ∈ s.observations, o.id = id →
    p.isObservationRetrievable o.toMemoryObservation = false

theorem mem_claimsForScope {now : Time} {n : MemoryNamespace} {scope : ReadScope}
    {claims : List MemoryClaim} (h : s.claimsForScope now n scope = .ok claims) {c : MemoryClaim} :
    c ∈ claims ↔ (∃ row ∈ s.claims, row.toMemoryClaim = c) ∧ c.namespaceOf = n ∧
      c.status ∈ activeClaimStatuses ∧ s.hasValidRevision now c = true ∧
      scope.admitsClaim c = true := by
  simp only [claimsForScope] at h
  obtain ⟨_, _, h⟩ := bind_ok h
  rw [← pure_ok h, List.mem_mergeSort]
  simp [Table.mem_iff]

theorem mem_observationsForScope {n : MemoryNamespace} {scope : ReadScope} {limit : Option Nat}
    {newestFirst retrievableOnly : Bool} {observations : List MemoryObservation}
    (h : s.observationsForScope n scope limit newestFirst retrievableOnly = .ok observations)
    {o : MemoryObservation} (ho : o ∈ observations) :
    (∃ row ∈ s.observations, row.toMemoryObservation = o) ∧ o.proposedNamespace = n ∧
      o.status ∈ visibleObservationStatuses := by
  simp only [observationsForScope] at h
  obtain ⟨_, _, h⟩ := bind_ok h
  obtain ⟨_, _, h⟩ := bind_ok h
  have hsorted := pure_ok h
  have hmem : o ∈ s.scopedObservations n scope retrievableOnly := by
    rw [← hsorted] at ho
    cases limit with
    | none => exact List.mem_mergeSort.mp ho
    | some l => exact List.mem_mergeSort.mp (List.mem_of_mem_take ho)
  simp only [scopedObservations, List.mem_filter, List.mem_map, decide_eq_true_eq] at hmem
  obtain ⟨hrow, hn, hstatus, _⟩ := hmem
  exact ⟨hrow, hn, hstatus⟩

theorem ForgottenClaim.hidden (hs : s.Sound) (h : s.ForgottenClaim id) : s.HiddenClaim id := by
  refine ⟨?_, fun now n scope claims hread c hc hid => ?_, fun r hr => ?_⟩
  · obtain ⟨c, hc, hforgotten⟩ := h.claimRow
    simp [getClaim, hc, hforgotten]
  · obtain ⟨⟨row, hrow, rfl⟩, _, hstatus, _⟩ := (mem_claimsForScope hread).mp hc
    rw [h.unique hrow hid] at hstatus
    simp [activeClaimStatuses] at hstatus
  · obtain ⟨c, hc, rfl, hforgotten⟩ := h
    obtain ⟨hmem, hid⟩ := (hs.mem_revisionsForClaim hc).mp hr
    have hcurrent := hs.current c hc r hmem hid
    simpa [hforgotten] using hcurrent

theorem ForgottenObservation.hidden {p : ContentScan} (h : s.ForgottenObservation id) :
    s.HiddenObservation p id := by
  refine ⟨?_, fun n scope limit newest only observations hread o ho hid => ?_, fun o ho hid => ?_⟩
  · obtain ⟨o, ho, hforgotten⟩ := h.observationRow
    simp [getObservation, ho, hforgotten]
  · obtain ⟨⟨row, hrow, rfl⟩, _, hstatus⟩ := mem_observationsForScope hread ho
    rw [h.unique hrow hid] at hstatus
    simp [visibleObservationStatuses] at hstatus
  · exact p.not_retrievable_of_forgotten (h.unique ho hid)

/-- The revision chain of every claim along every run, and what stays forgotten. -/
theorem revision_chain (x : Hashing) (p : ContentScan) {s t : MemoryStore}
    (hs : Run (Step x) Admitted .empty s) (ht : Run (Step x) Admitted s t) :
    (∀ claim ∈ s.claims, s.RevisionChain claim) ∧
      (∀ id, s.ForgottenClaim id → t.ForgottenClaim id ∧ t.HiddenClaim id) ∧
      ∀ id, s.ForgottenObservation id →
        t.ForgottenObservation id ∧ t.HiddenObservation p id := by
  have hsound : s.Sound := sound_empty.run hs
  refine ⟨fun claim hclaim => hsound.revisionChain hclaim, fun id h => ?_, fun id h => ?_⟩
  · have hforgotten := h.run ht
    exact ⟨hforgotten, hforgotten.hidden (hsound.run ht)⟩
  · have hforgotten := h.run ht
    exact ⟨hforgotten, hforgotten.hidden⟩

/-! A profile claim that is revised twice, forgotten and purged. -/

def plainHashing : Hashing := ⟨fun text => text, fun _ => ""⟩

def plainScan : ContentScan := ⟨fun _ => false, fun _ => false, fun _ => false⟩

def digest (c : Char) : String := String.ofList (List.replicate 64 c)

def userEvent : LedgerEvent where
  cursor := 1
  eventId := 1
  runId := none
  userId := "user"
  projectId := none
  conversationId := some 2
  taskId := some 3
  versionId := none
  taskSequence := none
  eventType := "message"
  visibility := .user
  message := ""
  payload := []
  createdAt := 0

def profileClaim : MemoryClaim where
  id := 5
  namespaceOf := .userProfile
  projectId := none
  conversationId := none
  taskId := none
  versionId := none
  deviceId := none
  subject := "editor"
  predicate := "is"
  currentRevision := 0
  conflictSetId := none
  status := .candidate
  createdAt := 0
  updatedAt := 0

def certain : Confidence := ⟨1, by decide +kernel⟩

def profileRevision (revision : Nat) : MemoryClaimRevision where
  claimId := 5
  revision := revision
  value := .str "vim"
  normalizedText := "vim"
  sourceObservationIds := []
  sourceEventIds := [1]
  authority := .explicitUser
  confidence := certain
  validFrom := none
  validTo := none
  recordedAt := 0
  actor := "user:1"
  supersedesRevision := expectedSuperseded (revision - 1)
  resolvedClaimIds := []

def profileTombstone : MemoryTombstone where
  id := 9
  targetKind := .claim
  targetId := 5
  reason := "asked"
  actor := "user:1"
  sourceEventId := 1
  createdAt := 4

def remembered : List MemoryAct :=
  [.recordEvent userEvent, .createClaim profileClaim (digest 'a'),
    .appendRevision 1 5 0 (profileRevision 1) (digest 'b'),
    .appendRevision 2 5 1 (profileRevision 2) (digest 'c')]

def forgottenAndPurged : List MemoryAct :=
  [.forget profileTombstone (digest 'd'), .purgeForgottenPayloads 4 1,
    .appendRevision 5 5 2 (profileRevision 3) (digest 'e')]

theorem revision_chain_profile :
    let s := (remembered ++ forgottenAndPurged.take 1).foldl (after plainHashing) empty
    let t := (forgottenAndPurged.drop 1).foldl (after plainHashing) s
    (s.claims.rows.map (·.currentRevision)) = [2] ∧ s.ForgottenClaim 5 ∧
      (∀ claim ∈ s.claims, s.RevisionChain claim) ∧ t.ForgottenClaim 5 ∧ t.HiddenClaim 5 := by
  have hs : Run (Step plainHashing) Admitted empty
      ((remembered ++ forgottenAndPurged.take 1).foldl (after plainHashing) empty) :=
    Run.foldl (by decide +kernel)
  have ht : Run (Step plainHashing) Admitted
      ((remembered ++ forgottenAndPurged.take 1).foldl (after plainHashing) empty)
      ((forgottenAndPurged.drop 1).foldl (after plainHashing)
        ((remembered ++ forgottenAndPurged.take 1).foldl (after plainHashing) empty)) :=
    Run.foldl (by decide +kernel)
  obtain ⟨hchain, hclaims, _⟩ := revision_chain plainHashing plainScan hs ht
  have hforgotten : ((remembered ++ forgottenAndPurged.take 1).foldl
      (after plainHashing) empty).ForgottenClaim 5 := by decide +kernel
  exact ⟨by decide +kernel, hforgotten, hchain, hclaims 5 hforgotten⟩

end Fairy.Memory.MemoryStore
