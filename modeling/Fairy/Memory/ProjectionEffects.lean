import Fairy.Memory.Derivation
import Fairy.Memory.PurgeProgress

namespace Fairy.Memory

open Fairy.Lib
open Fairy.Commanding (Uuid Time LedgerEvent)

/-- The tables beside those of the observations and the claims. -/
structure Beside (s t : MemoryStore) : Prop where
  events : t.events = s.events
  documents : t.documents = s.documents
  checkpoints : t.checkpoints = s.checkpoints
  tombstones : t.tombstones = s.tombstones

namespace Beside

variable {s t u : MemoryStore}

theorem refl (s : MemoryStore) : Beside s s := ⟨rfl, rfl, rfl, rfl⟩

theorem trans (h : Beside s t) (h' : Beside t u) : Beside s u :=
  ⟨h'.events.trans h.events, h'.documents.trans h.documents,
    h'.checkpoints.trans h.checkpoints, h'.tombstones.trans h.tombstones⟩

end Beside

namespace MemoryStore

variable {x : Hashing} {s t : MemoryStore} {act : MemoryAct} {key : String}

theorem appendObservation_beside {o : MemoryObservation}
    (h : s.appendObservation x o key = .ok t) : Beside s t := by
  simp only [appendObservation] at h
  obtain ⟨_, _, h⟩ := bind_ok h
  obtain ⟨_, _, h⟩ := bind_ok h
  split at h
  · split at h <;> cases h
  · obtain ⟨_, _, h⟩ := bind_ok h
    obtain rfl := pure_ok h
    exact ⟨rfl, rfl, rfl, rfl⟩

theorem transitionObservation_beside {id : Uuid} {expected status : ObservationStatus}
    (h : s.transitionObservation id expected status = .ok t) : Beside s t := by
  simp only [transitionObservation] at h
  split at h
  · cases h
  · split at h
    · cases h
      exact .refl s
    · obtain ⟨_, _, h⟩ := bind_ok h
      split at h
      · cases h
        exact ⟨rfl, rfl, rfl, rfl⟩
      · cases h

theorem createClaim_beside {claim : MemoryClaim} (h : s.createClaim x claim key = .ok t) :
    Beside s t := by
  simp only [createClaim] at h
  obtain ⟨_, _, h⟩ := bind_ok h
  split at h
  · split at h <;> cases h
  · obtain ⟨_, _, h⟩ := bind_ok h
    obtain rfl := pure_ok h
    exact ⟨rfl, rfl, rfl, rfl⟩

theorem insertRevision_beside {row : RevisionRow} (h : s.insertRevision row = .ok t) :
    Beside s t := by
  simp only [insertRevision] at h
  split at h
  · cases h
  · split at h
    · cases h
    · cases h
      exact ⟨rfl, rfl, rfl, rfl⟩

theorem writeRevision_beside {now : Time} {c : ClaimRow} {expected : Nat}
    {revision : MemoryClaimRevision} {resolved : List Uuid} {updated : MemoryClaim}
    (h : s.writeRevision x now c expected revision resolved key = .ok (t, updated)) :
    Beside s t := by
  simp only [writeRevision] at h
  obtain ⟨advanced, hadvanced, h⟩ := bind_ok h
  obtain ⟨inserted, hinserted, h⟩ := bind_ok h
  have ha : Beside s advanced := by
    simp only [advanceClaim] at hadvanced
    split at hadvanced
    · cases hadvanced
      exact ⟨rfl, rfl, rfl, rfl⟩
    · cases hadvanced
  have hr : Beside advanced (if expected = 0 then advanced else advanced.retireRevisions c.id) := by
    split <;> exact ⟨rfl, rfl, rfl, rfl⟩
  split at h
  · cases h
  · cases h
    exact (ha.trans hr).trans (insertRevision_beside hinserted)

theorem appendRevisionWith_beside {now : Time} {claimId : Uuid} {expected : Nat}
    {revision : MemoryClaimRevision} {resolved : List Uuid} {updated : MemoryClaim}
    (h : s.appendRevisionWith x now claimId expected revision resolved key = .ok (t, updated)) :
    Beside s t := by
  simp only [appendRevisionWith] at h
  obtain ⟨_, _, h⟩ := bind_ok h
  obtain ⟨_, _, h⟩ := bind_ok h
  obtain ⟨_, _, h⟩ := bind_ok h
  obtain ⟨_, _, h⟩ := bind_ok h
  split at h
  · obtain ⟨_, _, h⟩ := bind_ok h
    cases pure_ok h
    exact .refl s
  · obtain ⟨_, _, h⟩ := bind_ok h
    obtain ⟨_, _, h⟩ := bind_ok h
    exact writeRevision_beside h

theorem resolveConflict_beside {now decidedAt updatedAt : Time} {claimId : Uuid} {expected : Nat}
    {revision : MemoryClaimRevision} {resolved : List Uuid}
    (h : s.resolveConflict x now decidedAt updatedAt claimId expected revision resolved key =
      .ok t) : Beside s t := by
  simp only [resolveConflict] at h
  split at h
  · cases h
  obtain ⟨_, _, h⟩ := bind_ok h
  obtain ⟨_, _, h⟩ := bind_ok h
  split at h
  · obtain ⟨_, _, h⟩ := bind_ok h
    cases pure_ok h
    exact .refl s
  obtain ⟨_, _, h⟩ := bind_ok h
  obtain ⟨_, _, h⟩ := bind_ok h
  obtain ⟨⟨u, updated⟩, happend, h⟩ := bind_ok h
  obtain rfl := pure_ok h
  exact (appendRevisionWith_beside happend).trans ⟨rfl, rfl, rfl, rfl⟩

/-- The target of a new tombstone is forgotten with it. -/
theorem forget_beside {tombstone : MemoryTombstone} (h : s.forget x tombstone key = .ok t) :
    t.events = s.events ∧ t.documents = s.documents ∧ t.checkpoints = s.checkpoints ∧
      ∀ row ∈ t.tombstones, row ∈ s.tombstones ∨
        (row.targetKind = .claim → t.ForgottenClaim row.targetId) ∧
        (row.targetKind = .observation → ∀ o ∈ t.observations, o.id = row.targetId →
          o.status = .forgotten) := by
  simp only [forget] at h
  obtain ⟨_, _, h⟩ := bind_ok h
  obtain ⟨_, _, h⟩ := bind_ok h
  obtain ⟨_, _, h⟩ := bind_ok h
  obtain ⟨_, htarget, h⟩ := bind_ok h
  split at h
  · cases h
  obtain ⟨_, _, h⟩ := bind_ok h
  obtain ⟨_, _, h⟩ := bind_ok h
  have hrow : ∀ row ∈ (s.insertTombstone ⟨tombstone, key, x.fingerprint
      (tombstoneFingerprint tombstone)⟩).tombstones, row ∈ s.tombstones ∨
        row.toMemoryTombstone = tombstone := by
    intro row hrow
    obtain ⟨_, hsame⟩ | ⟨_, hrows⟩ := s.tombstones.insertUnless_cases
      (fun other => other.id = tombstone.id ∨
        (other.targetKind = tombstone.targetKind ∧ other.targetId = tombstone.targetId) ∨
        other.requestFingerprint = key) ⟨tombstone, key, x.fingerprint
          (tombstoneFingerprint tombstone)⟩ (fun _ h => .inl h) trivial
    · left
      rwa [insertTombstone, hsame] at hrow
    · obtain hrow | hrow := (Table.mem_of_rows_append hrows).mp hrow
      · exact .inl hrow
      · rw [List.mem_singleton.mp hrow]
        exact .inr rfl
  obtain rfl := pure_ok h
  by_cases hkind : tombstone.targetKind = .claim
  · rw [if_pos hkind]
    simp only [forgetTarget, if_pos hkind]
    refine ⟨rfl, rfl, rfl, fun row hmem => ?_⟩
    refine (hrow row hmem).imp_right fun he => ⟨fun _ => ?_, fun hobservation => ?_⟩
    rotate_left
    · rw [congrArg MemoryTombstone.targetKind he, hkind] at hobservation
      cases hobservation
    have hsome : s.claimRow tombstone.targetId ≠ none := by
      simpa [requireTarget, hasTarget, hkind] using htarget
    obtain ⟨c, hc⟩ := Option.ne_none_iff_exists'.mp hsome
    obtain ⟨hc, hid⟩ := Table.find?_eq_some.mp hc
    rw [congrArg MemoryTombstone.targetId he]
    exact ⟨forgottenClaim c, Table.mem_update_of rfl hc hid, hid, rfl⟩
  · rw [if_neg hkind]
    simp only [forgetTarget, if_neg hkind]
    refine ⟨rfl, rfl, rfl, fun row hmem => (hrow row hmem).imp_right fun he =>
      ⟨fun hclaim => ?_, fun _ o ho hid => ?_⟩⟩
    · exact absurd ((congrArg MemoryTombstone.targetKind he).symm.trans hclaim) hkind
    · obtain ⟨_, _, _, rfl⟩ | ⟨_, hnot⟩ := Table.update_cases rfl ho
      · rfl
      · exact absurd (hid.trans (congrArg MemoryTombstone.targetId he)) hnot

/-- An observation was there, or is the one that has been appended. -/
theorem observation_origin {o : ObservationRow} (h : s.perform x act = .ok t)
    (ho : o ∈ t.observations) :
    (∃ o' ∈ s.observations, o'.id = o.id ∧ (o'.status = .forgotten → o.status = .forgotten)) ∨
      ∃ m key, act = .appendObservation m key ∧ o.id = m.id := by
  have hchange := (perform_ok h).2
  have hkept : t.observations.rows.length = s.observations.rows.length →
      ∃ o' ∈ s.observations, o'.id = o.id ∧ (o'.status = .forgotten → o.status = .forgotten) := by
    intro hlength
    cases hchange with
    | kept hsame => exact ⟨o, hsame ▸ ho, rfl, id⟩
    | added row _ hrows =>
      rw [hrows, List.length_append, List.length_singleton] at hlength
      omega
    | changed f hid habsorbs hrows =>
      obtain ⟨o', ho', rfl⟩ := (Table.mem_of_rows_map hrows).mp ho
      exact ⟨o', ho', (hid o').symm, habsorbs o' ho'⟩
  cases act with
  | appendObservation m key =>
    simp only [perform, appendObservation] at h
    obtain ⟨_, _, h⟩ := bind_ok h
    obtain ⟨_, _, h⟩ := bind_ok h
    split at h
    · split at h <;> cases h
    obtain ⟨_, _, h⟩ := bind_ok h
    obtain rfl := pure_ok h
    obtain hsame | ⟨_, hrows⟩ := s.insertObservation_cases _
    · rw [hsame] at ho
      exact .inl ⟨o, ho, rfl, id⟩
    · obtain ho | ho := (Table.mem_of_rows_append hrows).mp ho
      · exact .inl ⟨o, ho, rfl, id⟩
      · rw [List.mem_singleton.mp ho]
        exact .inr ⟨m, key, rfl, rfl⟩
  | recordEvent event =>
    left
    apply hkept
    simp only [perform, recordEvent] at h
    split at h <;> cases h
    rfl
  | transitionObservation id expected status =>
    left
    apply hkept
    simp only [perform, transitionObservation] at h
    split at h
    · cases h
    · split at h
      · cases h
        rfl
      · obtain ⟨_, _, h⟩ := bind_ok h
        split at h
        · cases h
          exact List.length_map _
        · cases h
  | createClaim claim key => exact .inl (hkept (by rw [(createClaim_ok h).2]))
  | appendRevision now claimId expected revision key =>
    have hchange : ClaimChange (.appendRevision now claimId expected revision key) s t ∧
        t.observations = s.observations := appendRevision_ok h
    exact .inl (hkept (by rw [hchange.2]))
  | resolveConflict now decidedAt updatedAt claimId expected revision resolved key =>
    have hchange : ClaimChange (.resolveConflict now decidedAt updatedAt claimId expected revision
        resolved key) s t ∧ t.observations = s.observations := resolveConflict_ok h
    exact .inl (hkept (by rw [hchange.2]))
  | forget tombstone key =>
    left
    apply hkept
    simp only [perform, forget] at h
    obtain ⟨_, _, h⟩ := bind_ok h
    obtain ⟨_, _, h⟩ := bind_ok h
    obtain ⟨_, _, h⟩ := bind_ok h
    obtain ⟨_, _, h⟩ := bind_ok h
    split at h
    · cases h
    obtain ⟨_, _, h⟩ := bind_ok h
    obtain ⟨_, _, h⟩ := bind_ok h
    obtain rfl := pure_ok h
    by_cases hkind : tombstone.targetKind = .claim
    · rw [if_pos hkind, forgetTarget, if_pos hkind]
      rfl
    · rw [if_neg hkind, (forgetTarget_observation _ _ hkind).2.2, List.length_map]
      rfl
  | purgeForgottenPayloads before limit =>
    left
    apply hkept
    obtain ⟨⟨_, result⟩, hpurge, rfl⟩ := map_ok h
    simp only [purgeForgottenPayloads] at hpurge
    split at hpurge
    · cases hpurge
    cases hpurge
    exact List.length_map _
  | bindItem item =>
    cases h
    exact .inl ⟨o, ho, rfl, id⟩

/-- What is tombstoned is forgotten. -/
def Buried (s : MemoryStore) : Prop :=
  ∀ row ∈ s.tombstones, (row.targetKind = .claim → s.ForgottenClaim row.targetId) ∧
    (row.targetKind = .observation → ∀ o ∈ s.observations, o.id = row.targetId →
      o.status = .forgotten)

/-- A purge redacts what is forgotten, and removes only the documents of what is forgotten. -/
theorem purged_spec {before : Time} {limit : Nat} (hs : s.Buried) :
    (∃ f g k, Redacts s (s.purged x before limit) f g k) ∧
      (s.purged x before limit).events = s.events ∧
      (s.purged x before limit).checkpoints = s.checkpoints ∧
      (s.purged x before limit).tombstones = s.tombstones ∧
      (∀ d ∈ (s.purged x before limit).documents, d ∈ s.documents) ∧
      ∀ d ∈ s.documents, d ∈ (s.purged x before limit).documents ∨
        d.sourceKind = .observation ∧ (∀ o ∈ s.observations, o.id = d.sourceId →
          o.status = .forgotten) ∨
        d.sourceKind = .claimRevision ∧ s.ForgottenClaim d.sourceId := by
  have htarget : ∀ {kind : MemoryTargetKind} {source : MemorySourceKind} {id : Uuid},
      id ∈ s.purgeTargets (s.purgeBatch before limit) kind source →
        ∃ row ∈ s.tombstones, row.targetKind = kind ∧ row.targetId = id := by
    intro kind source id hid
    obtain ⟨⟨row, hdue, hkind, hrow, _⟩, _⟩ := mem_purgeTargets.mp hid
    exact ⟨row, (Table.mem_select.mp hdue).1, hkind, hrow⟩
  refine ⟨⟨_, _, _, rfl, fun o => ?_, rfl, fun c => ?_, rfl, fun r => ?_⟩, rfl, rfl, rfl,
    fun d hd => ?_, fun d hd => ?_⟩
  · split
    · rename_i hpurged
      exact ⟨rfl, rfl, .inr ⟨hpurged.2.1, hpurged.2.1⟩⟩
    · exact ⟨rfl, rfl, .inl rfl⟩
  · split
    · rename_i hpurged
      exact ⟨rfl, .inr ⟨hpurged.2.1, hpurged.2.1⟩⟩
    · exact ⟨rfl, .inl rfl⟩
  · split
    · rename_i hpurged
      obtain ⟨row, hrow, hkind, hid⟩ := htarget hpurged
      exact ⟨rfl, rfl, .inr (hid ▸ (hs row hrow).1 hkind)⟩
    · exact ⟨rfl, rfl, .inl rfl⟩
  · exact (Table.mem_delete.mp (Table.mem_delete.mp hd).1).1
  · by_cases hobservation : d.sourceKind = .observation ∧
        d.sourceId ∈ s.purgeTargets (s.purgeBatch before limit) .observation .observation
    · obtain ⟨row, hrow, hkind, hid⟩ := htarget hobservation.2
      exact .inr (.inl ⟨hobservation.1, hid ▸ (hs row hrow).2 hkind⟩)
    · by_cases hclaim : d.sourceKind = .claimRevision ∧
          d.sourceId ∈ s.purgeTargets (s.purgeBatch before limit) .claim .claimRevision
      · obtain ⟨row, hrow, hkind, hid⟩ := htarget hclaim.2
        exact .inr (.inr ⟨hclaim.1, hid ▸ (hs row hrow).1 hkind⟩)
      · exact .inl (Table.mem_delete.mpr ⟨Table.mem_delete.mpr ⟨hd, hobservation⟩, hclaim⟩)

/-- What one write does to the tables beside those of the observations and the claims. -/
structure Performed (act : MemoryAct) (s t : MemoryStore) : Prop where
  events : t.events = s.events ∨
    ∃ event, act = .recordEvent event ∧ t.events.rows = s.events.rows ++ [event]
  checkpoints : t.checkpoints = s.checkpoints
  documents : ∀ d ∈ t.documents, d ∈ s.documents
  tombstones : ∀ row ∈ t.tombstones, row ∈ s.tombstones ∨
    (row.targetKind = .claim → t.ForgottenClaim row.targetId) ∧
    (row.targetKind = .observation → ∀ o ∈ t.observations, o.id = row.targetId →
      o.status = .forgotten)

theorem Performed.of_beside (h : Beside s t) : Performed act s t :=
  ⟨.inl h.events, h.checkpoints, fun _ hd => h.documents ▸ hd,
    fun _ hrow => .inl (h.tombstones ▸ hrow)⟩

theorem performed (hs : s.Buried) (h : s.perform x act = .ok t) : Performed act s t := by
  cases act with
  | recordEvent event =>
    simp only [perform, recordEvent] at h
    split at h
    · cases h
    · rename_i events hevents
      cases h
      exact ⟨.inr ⟨event, rfl, (Table.insertAll_eq_some hevents).1⟩, rfl, fun _ hd => hd,
        fun _ hrow => .inl hrow⟩
  | appendObservation observation key => exact .of_beside (appendObservation_beside h)
  | transitionObservation id expected status => exact .of_beside (transitionObservation_beside h)
  | createClaim claim key => exact .of_beside (createClaim_beside h)
  | appendRevision now claimId expected revision key =>
    obtain ⟨⟨_, updated⟩, happend, rfl⟩ := map_ok h
    exact .of_beside (appendRevisionWith_beside happend)
  | resolveConflict now decidedAt updatedAt claimId expected revision resolved key =>
    exact .of_beside (resolveConflict_beside h)
  | forget tombstone key =>
    obtain ⟨hevents, hdocuments, hcheckpoints, htombstones⟩ := forget_beside h
    exact ⟨.inl hevents, hcheckpoints, fun _ hd => hdocuments ▸ hd, htombstones⟩
  | purgeForgottenPayloads before limit =>
    obtain ⟨⟨_, result⟩, hpurge, rfl⟩ := map_ok h
    by_cases hlimit : 1 ≤ limit ∧ limit ≤ 10000
    · obtain ⟨_, hpurged⟩ := s.purgeForgottenPayloads_eq x before hlimit
      rw [hpurge] at hpurged
      obtain ⟨rfl, _⟩ := Prod.mk.inj (Except.ok.inj hpurged)
      obtain ⟨_, hevents, hcheckpoints, htombstones, hdocuments, _⟩ := purged_spec hs
      exact ⟨.inl hevents, hcheckpoints, hdocuments, fun _ hrow => .inl (htombstones ▸ hrow)⟩
    · rw [purgeForgottenPayloads, if_pos hlimit] at hpurge
      cases hpurge
  | bindItem item =>
    cases h
    exact ⟨.inl rfl, rfl, fun _ hd => hd, fun _ hrow => .inl hrow⟩

/-- The identifier that is drawn for an observation is not that of something forgotten. -/
def Fresh (s : MemoryStore) : MemoryAct → Prop
  | .appendObservation m _ => ∀ row ∈ s.tombstones.rows, row.targetId ≠ m.id
  | _ => True

instance : ∀ act, Decidable (s.Fresh act)
  | .appendObservation m _ =>
    inferInstanceAs (Decidable (∀ row ∈ s.tombstones.rows, row.targetId ≠ m.id))
  | .recordEvent .. | .transitionObservation .. | .createClaim .. | .appendRevision ..
  | .resolveConflict .. | .forget .. | .purgeForgottenPayloads .. | .bindItem .. => isTrue trivial

theorem Buried.perform (hs : s.Buried) (hfresh : s.Fresh act) (h : s.perform x act = .ok t) :
    t.Buried := by
  intro row hrow
  obtain hrow | hnew := (performed hs h).tombstones row hrow
  · refine ⟨fun hkind => ?_, fun hkind o ho hid => ?_⟩
    · exact forgottenClaim_of_change (perform_ok h).1 ((hs row hrow).1 hkind)
    · obtain ⟨o', ho', hsame, hforgotten⟩ | ⟨m, key, hact, hm⟩ := observation_origin h ho
      · exact hforgotten ((hs row hrow).2 hkind o' ho' (hsame.trans hid))
      · rw [hact] at hfresh
        exact absurd (hid.symm.trans hm) (hfresh row hrow)
  · exact hnew

theorem observation_kept (h : ObservationChange s t) {id : Uuid}
    (hid : ∃ o ∈ s.observations, o.id = id) : ∃ o ∈ t.observations, o.id = id := by
  obtain ⟨o, ho, rfl⟩ := hid
  cases h with
  | kept hsame => exact ⟨o, hsame ▸ ho, rfl⟩
  | added row _ hrows => exact ⟨o, (Table.mem_of_rows_append hrows).mpr (.inl ho), rfl⟩
  | changed f hid _ hrows =>
    exact ⟨f o, (Table.mem_of_rows_map hrows).mpr ⟨o, ho, rfl⟩, hid o⟩

theorem claim_kept (h : ClaimChange act s t) {id : Uuid} (hid : ∃ c ∈ s.claims, c.id = id) :
    ∃ c ∈ t.claims, c.id = id := by
  obtain ⟨c, hc, rfl⟩ := hid
  cases h with
  | kept hclaims _ => exact ⟨c, hclaims ▸ hc, rfl⟩
  | created row _ _ hclaims _ => exact ⟨c, (Table.mem_of_rows_append hclaims).mpr (.inl hc), rfl⟩
  | revised d d' row hr => exact hr.claims.key_mem hc
  | forgot d hclaims _ => exact hclaims.key_mem hc
  | purged f g hf hg hclaims _ =>
    exact ⟨f c, (Table.mem_of_rows_map hclaims).mpr ⟨c, hc, rfl⟩, (hf c).1⟩

theorem sourced_kept {d : MemorySearchDocument} (h : s.perform x act = .ok t)
    (hd : Sourced s d) : Sourced t d := by
  obtain ⟨hclaims, hobservations⟩ := perform_ok h
  obtain ⟨hkind, hid⟩ | ⟨hkind, hid⟩ := hd
  · exact .inl ⟨hkind, observation_kept hobservations hid⟩
  · exact .inr ⟨hkind, claim_kept hclaims hid⟩

end MemoryStore

/-- A write that the documents depend on. -/
def MemoryAct.canonical : MemoryAct → Bool
  | .recordEvent _ | .bindItem _ | .purgeForgottenPayloads _ _ => false
  | _ => true

/-- The same sources are there, and the same documents are derived from them. -/
structure Alike (s t : MemoryStore) : Prop where
  derive : ∀ x p generation at', deriveDocuments x p t generation at' =
    deriveDocuments x p s generation at'
  observations : ∀ id, (∃ o ∈ t.observations, o.id = id) ↔ ∃ o ∈ s.observations, o.id = id
  claims : ∀ id, (∃ c ∈ t.claims, c.id = id) ↔ ∃ c ∈ s.claims, c.id = id

namespace Alike

variable {s t u : MemoryStore} {d : MemorySearchDocument}

theorem refl (s : MemoryStore) : Alike s s := ⟨fun _ _ _ _ => rfl, fun _ => .rfl, fun _ => .rfl⟩

theorem trans (h : Alike s t) (h' : Alike t u) : Alike s u where
  derive x p generation at' := (h'.derive x p generation at').trans (h.derive x p generation at')
  observations id := (h'.observations id).trans (h.observations id)
  claims id := (h'.claims id).trans (h.claims id)

theorem of_eq (hobservations : t.observations = s.observations) (hclaims : t.claims = s.claims)
    (hrevisions : t.revisions = s.revisions) : Alike s t := by
  refine ⟨fun x p generation at' => ?_, fun id => by rw [hobservations],
    fun id => by rw [hclaims]⟩
  have hclaim : claimDocument x p t generation at' = claimDocument x p s generation at' := by
    have hrow : t.observationRow = s.observationRow := by
      funext id
      rw [MemoryStore.observationRow, hobservations, ← MemoryStore.observationRow]
    have hcurrent : currentRevision t = currentRevision s := by
      funext c
      simp only [currentRevision, MemoryStore.revisionsForClaim, hrevisions]
    have hsupport : sourcesSupport p t = sourcesSupport p s := by
      funext c r
      simp only [sourcesSupport, hrow]
    have hcursors : sourceCursors t = sourceCursors s := by
      funext r
      simp only [sourceCursors, hrow]
    funext c
    simp only [claimDocument, hcurrent, hsupport, hcursors]
  simp only [deriveDocuments, MemoryStore.observationsForProjection,
    MemoryStore.claimsForProjection, hobservations, hclaims, hclaim]

theorem sourced (h : Alike s t) : Sourced t d ↔ Sourced s d := by
  simp only [Sourced, h.observations, h.claims]

end Alike

/-- None of the derived documents is removed, either. -/
structure Neutral (s t : MemoryStore) : Prop extends Alike s t where
  documents : ∀ x p generation at' documents,
    deriveDocuments x p s generation at' = .ok documents →
    (∀ d, d ∈ s.documents ↔ d ∈ documents) → ∀ d, d ∈ t.documents ↔ d ∈ documents

namespace Neutral

variable {x : Hashing} {s t u : MemoryStore} {act : MemoryAct}

theorem refl (s : MemoryStore) : Neutral s s :=
  ⟨.refl s, fun _ _ _ _ _ _ h => h⟩

theorem trans (h : Neutral s t) (h' : Neutral t u) : Neutral s u where
  toAlike := h.toAlike.trans h'.toAlike
  documents x p generation at' documents hderive hdocuments :=
    h'.documents x p generation at' documents ((h.derive x p generation at').trans hderive)
      (h.documents x p generation at' documents hderive hdocuments)

theorem of_purge {before : Time} {limit : Nat} (hs : s.Buried) :
    Neutral s (s.purged x before limit) := by
  obtain ⟨⟨f, g, k, hr⟩, _, _, _, hfewer, hkept⟩ := MemoryStore.purged_spec hs
  refine ⟨⟨fun x p generation at' => hr.deriveDocuments_eq, fun id => ⟨?_, ?_⟩,
    fun id => ⟨?_, ?_⟩⟩, fun y p generation at' documents hderive hdocuments d => ⟨fun hd => ?_,
      fun hd => ?_⟩⟩
  · rintro ⟨o, ho, rfl⟩
    obtain ⟨o', ho', rfl⟩ := (Table.mem_of_rows_map hr.observations).mp ho
    exact ⟨o', ho', (hr.observation o').1.symm⟩
  · rintro ⟨o, ho, rfl⟩
    exact ⟨f o, (Table.mem_of_rows_map hr.observations).mpr ⟨o, ho, rfl⟩, (hr.observation o).1⟩
  · rintro ⟨c, hc, rfl⟩
    obtain ⟨c', hc', rfl⟩ := (Table.mem_of_rows_map hr.claims).mp hc
    exact ⟨c', hc', (hr.claim c').1.symm⟩
  · rintro ⟨c, hc, rfl⟩
    exact ⟨g c, (Table.mem_of_rows_map hr.claims).mpr ⟨c, hc, rfl⟩, (hr.claim c).1⟩
  · exact (hdocuments d).mp (hfewer d hd)
  · obtain hkept | ⟨hkind, hforgotten⟩ | ⟨hkind, c, hc, hid, hforgotten⟩ :=
      hkept d ((hdocuments d).mpr hd)
    · exact hkept
    · obtain ⟨o, ho, hdocument⟩ | ⟨c, hc, hdocument⟩ := (mem_deriveDocuments hderive).mp hd
      · obtain ⟨_, hid, _, hretrievable⟩ := observationDocument_spec hdocument
        rw [p.not_retrievable_of_forgotten (hforgotten o ho hid.symm)] at hretrievable
        cases hretrievable
      · rw [(claimDocument_spec hdocument).1] at hkind
        cases hkind
    · obtain ⟨o, ho, hdocument⟩ | ⟨c', hc', hdocument⟩ := (mem_deriveDocuments hderive).mp hd
      · rw [(observationDocument_spec hdocument).1] at hkind
        cases hkind
      · obtain ⟨_, hid', _, hstatus⟩ := claimDocument_spec hdocument
        obtain rfl := Table.eq_of_key hc hc' (hid.trans hid')
        rw [hforgotten] at hstatus
        exact absurd hstatus (by decide)

theorem of_perform (hs : s.Buried) (hact : act.canonical = false)
    (h : s.perform x act = .ok t) : Neutral s t := by
  cases act with
  | recordEvent event =>
    simp only [MemoryStore.perform, MemoryStore.recordEvent] at h
    split at h
    · cases h
    · cases h
      exact ⟨.of_eq rfl rfl rfl, fun _ _ _ _ _ _ h => h⟩
  | bindItem item =>
    cases h
    exact ⟨.of_eq rfl rfl rfl, fun _ _ _ _ _ _ h => h⟩
  | purgeForgottenPayloads before limit =>
    obtain ⟨⟨_, result⟩, hpurge, rfl⟩ := map_ok h
    by_cases hlimit : 1 ≤ limit ∧ limit ≤ 10000
    · obtain ⟨_, hpurged⟩ := s.purgeForgottenPayloads_eq x before hlimit
      rw [hpurge] at hpurged
      obtain ⟨rfl, _⟩ := Prod.mk.inj (Except.ok.inj hpurged)
      exact of_purge hs
    · rw [MemoryStore.purgeForgottenPayloads, if_pos hlimit] at hpurge
      cases hpurge
  | appendObservation | transitionObservation | createClaim | appendRevision | resolveConflict
  | forget => cases hact

end Neutral

end Fairy.Memory
