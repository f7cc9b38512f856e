import Mathlib.Data.List.ReduceOption
import Fairy.Memory.Chain
import Fairy.Memory.Projection

namespace Fairy.Memory

open Fairy.Lib
open Fairy.Commanding (Uuid Time LedgerEvent)

variable {x : Hashing} {p : ContentScan} {s t : MemoryStore} {generation : Nat} {at' : Time}

section Sources

theorem createDocument_spec {kind : MemorySourceKind} {id : Uuid} {revision : Option Nat}
    {n : MemoryNamespace} {scope : ProjectionScope} {text : String} {cursor : Nat}
    {d : MemorySearchDocument}
    (h : createDocument x generation kind id revision n scope text cursor = .ok d) :
    d.sourceKind = kind ∧ d.sourceId = id ∧ d.projectionGeneration = generation := by
  simp only [createDocument] at h
  obtain ⟨_, _, h⟩ := bind_ok h
  obtain rfl := pure_ok h
  exact ⟨rfl, rfl, rfl⟩

theorem observationDocument_spec {o : MemoryObservation} {d : MemorySearchDocument}
    (h : observationDocument x p generation o = .ok (some d)) :
    d.sourceKind = .observation ∧ d.sourceId = o.id ∧ d.projectionGeneration = generation ∧
      p.isObservationRetrievable o = true := by
  simp only [observationDocument] at h
  split at h
  · cases h
  · rename_i hretrievable
    obtain ⟨document, hdocument, h⟩ := bind_ok h
    obtain rfl := Option.some.inj (pure_ok h)
    obtain ⟨hkind, hid, hgeneration⟩ := createDocument_spec hdocument
    exact ⟨hkind, hid, hgeneration, by simpa using hretrievable⟩

theorem claimDocument_spec {c : MemoryClaim} {d : MemorySearchDocument}
    (h : claimDocument x p s generation at' c = .ok (some d)) :
    d.sourceKind = .claimRevision ∧ d.sourceId = c.id ∧ d.projectionGeneration = generation ∧
      c.status ∈ [ClaimStatus.active, .conflicted] := by
  simp only [claimDocument] at h
  split at h
  · cases h
  rename_i hstatus
  split at h
  · cases h
  split at h
  · cases h
  split at h
  · cases h
  split at h
  · cases h
  split at h
  · cases h
  obtain ⟨document, hdocument, h⟩ := bind_ok h
  obtain rfl := Option.some.inj (pure_ok h)
  obtain ⟨hkind, hid, hgeneration⟩ := createDocument_spec hdocument
  exact ⟨hkind, hid, hgeneration, not_not.mp hstatus⟩

variable {documents : List MemorySearchDocument} {d e : MemorySearchDocument}

theorem mem_deriveDocuments (h : deriveDocuments x p s generation at' = .ok documents) :
    d ∈ documents ↔
      (∃ o ∈ s.observations, observationDocument x p generation o.toMemoryObservation =
        .ok (some d)) ∨
      ∃ c ∈ s.claims, claimDocument x p s generation at' c.toMemoryClaim = .ok (some d) := by
  simp only [deriveDocuments] at h
  obtain ⟨observed, hobserved, h⟩ := bind_ok h
  obtain ⟨claimed, hclaimed, h⟩ := bind_ok h
  rw [← pure_ok h, List.mem_mergeSort, List.reduceOption_mem_iff, List.mem_append]
  apply or_congr
  · constructor
    · intro hd
      obtain ⟨o, ho, hdocument⟩ := mapM_mem hobserved hd
      simp only [MemoryStore.observationsForProjection, List.mem_mergeSort, List.mem_map] at ho
      obtain ⟨row, hrow, rfl⟩ := ho
      exact ⟨row, hrow, hdocument⟩
    · rintro ⟨row, hrow, hdocument⟩
      have ho : row.toMemoryObservation ∈
          s.observationsForProjection.mergeSort fun a b => a.id ≤ b.id := by
        simp only [MemoryStore.observationsForProjection, List.mem_mergeSort, List.mem_map]
        exact ⟨row, hrow, rfl⟩
      obtain ⟨b, hb, hsame⟩ := mapM_image hobserved ho
      rw [hdocument] at hsame
      exact Except.ok.inj hsame ▸ hb
  · constructor
    · intro hd
      obtain ⟨c, hc, hdocument⟩ := mapM_mem hclaimed hd
      simp only [MemoryStore.claimsForProjection, List.mem_mergeSort, List.mem_map] at hc
      obtain ⟨row, hrow, rfl⟩ := hc
      exact ⟨row, hrow, hdocument⟩
    · rintro ⟨row, hrow, hdocument⟩
      have hc : row.toMemoryClaim ∈ s.claimsForProjection := by
        simp only [MemoryStore.claimsForProjection, List.mem_mergeSort, List.mem_map]
        exact ⟨row, hrow, rfl⟩
      obtain ⟨b, hb, hsame⟩ := mapM_image hclaimed hc
      rw [hdocument] at hsame
      exact Except.ok.inj hsame ▸ hb

/-- The source of a document is in the store. -/
def Sourced (s : MemoryStore) (d : MemorySearchDocument) : Prop :=
  d.sourceKind = .observation ∧ (∃ o ∈ s.observations, o.id = d.sourceId) ∨
    d.sourceKind = .claimRevision ∧ ∃ c ∈ s.claims, c.id = d.sourceId

instance : Decidable (Sourced s d) :=
  inferInstanceAs (Decidable (d.sourceKind = .observation ∧
      (∃ o ∈ s.observations.rows, o.id = d.sourceId) ∨
    d.sourceKind = .claimRevision ∧ ∃ c ∈ s.claims.rows, c.id = d.sourceId))

theorem sourced_derived (h : deriveDocuments x p s generation at' = .ok documents)
    (hd : d ∈ documents) : Sourced s d := by
  obtain ⟨o, ho, hdocument⟩ | ⟨c, hc, hdocument⟩ := (mem_deriveDocuments h).mp hd
  · obtain ⟨hkind, hid, _⟩ := observationDocument_spec hdocument
    exact .inl ⟨hkind, o, ho, hid.symm⟩
  · obtain ⟨hkind, hid, _⟩ := claimDocument_spec hdocument
    exact .inr ⟨hkind, c, hc, hid.symm⟩

/-- A source has one document. -/
theorem eq_of_key_derived (h : deriveDocuments x p s generation at' = .ok documents)
    (hd : d ∈ documents) (he : e ∈ documents) (hkey : d.key = e.key) : d = e := by
  simp only [MemorySearchDocument.key, Prod.mk.injEq] at hkey
  obtain ⟨_, hkind, hid, _⟩ := hkey
  obtain ⟨o, ho, hdo⟩ | ⟨c, hc, hdc⟩ := (mem_deriveDocuments h).mp hd <;>
    obtain ⟨o', ho', heo⟩ | ⟨c', hc', hec⟩ := (mem_deriveDocuments h).mp he
  · obtain ⟨_, hdid, _⟩ := observationDocument_spec hdo
    obtain ⟨_, heid, _⟩ := observationDocument_spec heo
    obtain rfl := Table.eq_of_key ho ho' (hdid.symm.trans (hid.trans heid))
    rw [hdo] at heo
    exact Option.some.inj (Except.ok.inj heo)
  · obtain ⟨hdkind, _⟩ := observationDocument_spec hdo
    obtain ⟨hekind, _⟩ := claimDocument_spec hec
    rw [hdkind, hekind] at hkind
    cases hkind
  · obtain ⟨hdkind, _⟩ := claimDocument_spec hdc
    obtain ⟨hekind, _⟩ := observationDocument_spec heo
    rw [hdkind, hekind] at hkind
    cases hkind
  · obtain ⟨_, hdid, _⟩ := claimDocument_spec hdc
    obtain ⟨_, heid, _⟩ := claimDocument_spec hec
    obtain rfl := Table.eq_of_key hc hc' (hdid.symm.trans (hid.trans heid))
    rw [hdc] at hec
    exact Option.some.inj (Except.ok.inj hec)

end Sources

/-- What is rewritten belongs to something forgotten. -/
structure Redacts (s t : MemoryStore) (f : ObservationRow → ObservationRow)
    (g : ClaimRow → ClaimRow) (h : RevisionRow → RevisionRow) : Prop where
  observations : t.observations.rows = s.observations.rows.map f
  observation : ∀ o, (f o).id = o.id ∧ (f o).sourceCursor = o.sourceCursor ∧
    (f o = o ∨ o.status = .forgotten ∧ (f o).status = .forgotten)
  claims : t.claims.rows = s.claims.rows.map g
  claim : ∀ c, (g c).id = c.id ∧ (g c = c ∨ c.status = .forgotten ∧ (g c).status = .forgotten)
  revisions : t.revisions.rows = s.revisions.rows.map h
  revision : ∀ r, (h r).claimId = r.claimId ∧ (h r).revision = r.revision ∧
    (h r = r ∨ s.ForgottenClaim r.claimId)

namespace Redacts

variable {f : ObservationRow → ObservationRow} {g : ClaimRow → ClaimRow}
variable {h : RevisionRow → RevisionRow}

theorem observationsForProjection_map (s : MemoryStore) :
    s.observationsForProjection.mergeSort (fun a b => a.id ≤ b.id) =
      ((s.observations.rows.mergeSort fun a b => observationOrder a.toMemoryObservation
        b.toMemoryObservation).mergeSort fun a b => a.id ≤ b.id).map
          (·.toMemoryObservation) := by
  rw [List.map_mergeSort (s := fun a b : MemoryObservation => a.id ≤ b.id)
    fun _ _ _ _ => rfl, List.map_mergeSort (s := observationOrder) fun _ _ _ _ => rfl]
  rfl

theorem observationsForProjection_eq (hr : Redacts s t f g h) :
    ∃ rows : List ObservationRow,
      s.observationsForProjection.mergeSort (fun a b => a.id ≤ b.id) =
        rows.map (·.toMemoryObservation) ∧
      t.observationsForProjection.mergeSort (fun a b => a.id ≤ b.id) =
        (rows.map f).map (·.toMemoryObservation) := by
  have hid : ∀ a b : ObservationRow, decide (a.id ≤ b.id) = decide ((f a).id ≤ (f b).id) := by
    intro a b
    rw [(hr.observation a).1, (hr.observation b).1]
  have horder : ∀ a b : ObservationRow,
      observationOrder a.toMemoryObservation b.toMemoryObservation =
        observationOrder (f a).toMemoryObservation (f b).toMemoryObservation := by
    intro a b
    obtain ⟨ha, hacursor, _⟩ := hr.observation a
    obtain ⟨hb, hbcursor, _⟩ := hr.observation b
    simp only [observationOrder, byKeys, ha, hb, hacursor, hbcursor]
  refine ⟨_, observationsForProjection_map s, ?_⟩
  rw [observationsForProjection_map t, hr.observations,
    List.map_mergeSort (s := fun a b : ObservationRow => a.id ≤ b.id) fun a _ b _ => hid a b,
    List.map_mergeSort (s := fun a b : ObservationRow => observationOrder a.toMemoryObservation
      b.toMemoryObservation) fun a _ b _ => horder a b]

theorem claimsForProjection_map (s : MemoryStore) : s.claimsForProjection =
    (s.claims.rows.mergeSort fun a b => a.id ≤ b.id).map (·.toMemoryClaim) := by
  rw [List.map_mergeSort (s := fun a b : MemoryClaim => a.id ≤ b.id) fun _ _ _ _ => rfl]
  rfl

theorem claimsForProjection_eq (hr : Redacts s t f g h) :
    ∃ rows : List ClaimRow, (∀ c ∈ rows, c ∈ s.claims.rows) ∧
      s.claimsForProjection = rows.map (·.toMemoryClaim) ∧
      t.claimsForProjection = (rows.map g).map (·.toMemoryClaim) := by
  have hid : ∀ a b : ClaimRow, decide (a.id ≤ b.id) = decide ((g a).id ≤ (g b).id) := by
    intro a b
    rw [(hr.claim a).1, (hr.claim b).1]
  refine ⟨_, fun c hc => ?_, claimsForProjection_map s, ?_⟩
  · simpa only [List.mem_mergeSort] using hc
  · rw [claimsForProjection_map t, hr.claims,
      List.map_mergeSort (s := fun a b : ClaimRow => a.id ≤ b.id) fun a _ b _ => hid a b]

theorem observationRow_eq (hr : Redacts s t f g h) (id : Uuid) :
    t.observationRow id = (s.observationRow id).map f := by
  simp only [MemoryStore.observationRow]
  cases hfind : s.observations.find? id with
  | none =>
    rw [Option.map_none, Table.find?_eq_none]
    intro o ho
    obtain ⟨o', ho', rfl⟩ := (Table.mem_of_rows_map hr.observations).mp ho
    rw [(hr.observation o').1]
    exact Table.find?_eq_none.mp hfind o' ho'
  | some o =>
    obtain ⟨ho, hid⟩ := Table.find?_eq_some.mp hfind
    rw [Option.map_some, Table.find?_eq_some]
    exact ⟨(Table.mem_of_rows_map hr.observations).mpr ⟨o, ho, rfl⟩,
      (hr.observation o).1.trans hid⟩

theorem observationDocument_eq (hr : Redacts s t f g h) (o : ObservationRow) :
    observationDocument x p generation (f o).toMemoryObservation =
      observationDocument x p generation o.toMemoryObservation := by
  obtain ⟨_, _, hsame | ⟨hold, hnew⟩⟩ := hr.observation o
  · rw [hsame]
  · simp only [observationDocument, p.not_retrievable_of_forgotten hold,
      p.not_retrievable_of_forgotten hnew, if_true]

theorem sourcesSupport_eq (hr : Redacts s t f g h) (c : MemoryClaim) (r : RevisionRow) :
    sourcesSupport p t c r = sourcesSupport p s c r := by
  simp only [sourcesSupport]
  congr 1
  funext id
  rw [hr.observationRow_eq]
  cases s.observationRow id with
  | none => rfl
  | some o =>
    obtain ⟨_, _, hsame | ⟨hold, hnew⟩⟩ := hr.observation o
    · simp only [Option.map_some, hsame]
    · simp only [Option.map_some, p.not_retrievable_of_forgotten hold,
        p.not_retrievable_of_forgotten hnew, Bool.false_and]

theorem sourceCursors_eq (hr : Redacts s t f g h) (r : RevisionRow) :
    sourceCursors t r = sourceCursors s r := by
  simp only [sourceCursors]
  congr 1
  funext id
  rw [hr.observationRow_eq]
  cases s.observationRow id with
  | none => rfl
  | some o => exact congrArg some (hr.observation o).2.1

theorem currentRevision_eq (hr : Redacts s t f g h) {c : ClaimRow} (hc : c ∈ s.claims)
    (hlive : c.status ≠ .forgotten) :
    currentRevision t c.toMemoryClaim = currentRevision s c.toMemoryClaim := by
  have hown : t.revisions.select (fun r => r.claimId = c.id) =
      s.revisions.select fun r => r.claimId = c.id := by
    simp only [Table.select]
    rw [hr.revisions, List.filter_map]
    have hfilter : s.revisions.rows.filter
        ((fun r => decide (r.claimId = c.id)) ∘ h) =
        s.revisions.rows.filter fun r => decide (r.claimId = c.id) := by
      congr 1
      funext r
      simp only [Function.comp_apply, (hr.revision r).1]
    rw [hfilter]
    conv_rhs => rw [← List.map_id (s.revisions.rows.filter _)]
    apply List.map_congr_left
    intro r hmem
    obtain ⟨_, hid⟩ := List.mem_filter.mp hmem
    obtain ⟨_, _, hsame | ⟨d, hd, hdid, hforgotten⟩⟩ := hr.revision r
    · exact hsame
    · obtain rfl := Table.eq_of_key hc hd ((of_decide_eq_true hid).symm.trans hdid.symm)
      exact absurd hforgotten hlive
  simp only [currentRevision, MemoryStore.revisionsForClaim, hown]

theorem claimDocument_eq (hr : Redacts s t f g h) {c : ClaimRow} (hc : c ∈ s.claims) :
    claimDocument x p t generation at' (g c).toMemoryClaim =
      claimDocument x p s generation at' c.toMemoryClaim := by
  by_cases hlive : c.status = .forgotten
  · have hnew : (g c).status = .forgotten := by
      obtain ⟨_, hsame | ⟨_, hnew⟩⟩ := hr.claim c
      · rw [hsame, hlive]
      · exact hnew
    simp [claimDocument, hlive, hnew]
  · obtain ⟨_, hsame | ⟨hold, _⟩⟩ := hr.claim c
    · rw [hsame]
      simp only [claimDocument, hr.currentRevision_eq hc hlive, hr.sourcesSupport_eq,
        hr.sourceCursors_eq]
    · exact absurd hold hlive

theorem deriveDocuments_eq (hr : Redacts s t f g h) :
    deriveDocuments x p t generation at' = deriveDocuments x p s generation at' := by
  obtain ⟨rows, hs, ht⟩ := hr.observationsForProjection_eq
  obtain ⟨claims, hmem, hsclaims, htclaims⟩ := hr.claimsForProjection_eq
  have hobserved : (rows.map (·.toMemoryObservation)).mapM (observationDocument x p generation) =
      ((rows.map f).map (·.toMemoryObservation)).mapM (observationDocument x p generation) := by
    simp only [List.mapM_map]
    apply mapM_congr
    intro o _
    exact (hr.observationDocument_eq o).symm
  have hclaimed : (claims.map (·.toMemoryClaim)).mapM (claimDocument x p s generation at') =
      ((claims.map g).map (·.toMemoryClaim)).mapM (claimDocument x p t generation at') := by
    simp only [List.mapM_map]
    apply mapM_congr
    intro c hc
    exact (hr.claimDocument_eq (hmem c hc)).symm
  simp only [deriveDocuments, hs, ht, hsclaims, htclaims, hobserved, hclaimed]

end Redacts

end Fairy.Memory
