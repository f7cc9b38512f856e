import Fairy.Memory.Forgetting

namespace Fairy.Memory

open Fairy.Lib
open Fairy.Commanding (Uuid Time LedgerEvent)

namespace MemoryStore

variable {x : Hashing} {s t u v : MemoryStore} {before : Time} {limit : Nat}

theorem sorts_dueTombstones (s : MemoryStore) (before : Time) :
    Sorts TombstoneRow.earlier (s.dueTombstones before) :=
  sorts_byKeys (s.tombstones.nodup.sublist (List.filter_sublist.map _))

/-- A tombstone of the target is due. -/
def Tombstoned (s : MemoryStore) (before : Time) (kind : MemoryTargetKind) (id : Uuid) : Prop :=
  ∃ row ∈ s.dueTombstones before, row.targetKind = kind ∧ row.targetId = id

/-- A tombstone of the target is due, and fewer than `limit` due ones come before it. -/
def Batched (s : MemoryStore) (before : Time) (limit : Nat) (kind : MemoryTargetKind) (id : Uuid) :
    Prop :=
  ∃ row ∈ s.dueTombstones before, row.targetKind = kind ∧ row.targetId = id ∧
    rank TombstoneRow.earlier (s.dueTombstones before) row < limit

/-- Nothing of the claim's text is left. -/
def PurgedClaim (s : MemoryStore) (c : ClaimRow) : Prop :=
  c.subject = purgedText ∧ c.predicate = purgedText ∧ ∀ r ∈ s.revisions, r.claimId = c.id →
    r.value = purgedValue ∧ r.normalizedText = purgedText

instance {kind : MemoryTargetKind} {id : Uuid} : Decidable (s.Batched before limit kind id) :=
  inferInstanceAs (Decidable (∃ row ∈ s.dueTombstones before, row.targetKind = kind ∧
    row.targetId = id ∧ rank TombstoneRow.earlier (s.dueTombstones before) row < limit))

/-- A forgotten observation that a purge at `before` is to reach. -/
structure PendingObservation (s : MemoryStore) (before : Time) (o : ObservationRow) : Prop where
  mem : o ∈ s.observations
  forgotten : o.status = .forgotten
  tombstoned : s.Tombstoned before .observation o.id
  unbound : ¬ s.SnapshotBound .observation o.id
  unpurged : o.content ≠ purgedText

/-- A forgotten claim that a purge at `before` is to reach. -/
structure PendingClaim (s : MemoryStore) (before : Time) (c : ClaimRow) : Prop where
  mem : c ∈ s.claims
  forgotten : c.status = .forgotten
  tombstoned : s.Tombstoned before .claim c.id
  unbound : ¬ s.SnapshotBound .claimRevision c.id
  unpurged : ¬ s.PurgedClaim c

def AllPurged (s : MemoryStore) (before : Time) : Prop :=
  (∀ o, ¬ s.PendingObservation before o) ∧ ∀ c, ¬ s.PendingClaim before c

/-- The first batch has the tombstone of every target that is to be purged, and no claim among
them has the purged text as its subject beside another predicate. -/
def WithinBatch (s : MemoryStore) (before : Time) (limit : Nat) : Prop :=
  (∀ o, s.PendingObservation before o → s.Batched before limit .observation o.id) ∧
    ∀ c, s.PendingClaim before c → s.Batched before limit .claim c.id ∧
      (c.subject = purgedText → c.predicate = purgedText)

/-- `purge_forgotten_payloads` again and again, to the first call that reports no purge. -/
inductive Drained (x : Hashing) (before : Time) (limit : Nat) : MemoryStore → MemoryStore → Prop
  | done {s t : MemoryStore} (h : s.purgeForgottenPayloads x before limit = .ok (t, ⟨0, 0⟩)) :
      Drained x before limit s t
  | again {s t u : MemoryStore} {result : MemoryPayloadPurgeResult} (h : result ≠ ⟨0, 0⟩)
      (hs : s.purgeForgottenPayloads x before limit = .ok (t, result))
      (ht : Drained x before limit t u) : Drained x before limit s u

/-- The store after one accepted call. -/
def purged (x : Hashing) (s : MemoryStore) (before : Time) (limit : Nat) : MemoryStore :=
  let batch := s.purgeBatch before limit
  ((s.purgeObservations x (s.purgeTargets batch .observation .observation)).1.purgeClaims x
    (s.purgeTargets batch .claim .claimRevision)).1

theorem mem_purgeTargets {target : MemoryTargetKind} {source : MemorySourceKind} {id : Uuid} :
    id ∈ s.purgeTargets (s.purgeBatch before limit) target source ↔
      s.Batched before limit target id ∧ ¬ s.SnapshotBound source id := by
  simp only [purgeTargets, List.mem_map, List.mem_filter, decide_eq_true_eq, purgeBatch,
    mem_batch (s.sorts_dueTombstones before)]
  constructor
  · rintro ⟨row, ⟨⟨hdue, hrank⟩, hkind, hunbound⟩, rfl⟩
    exact ⟨⟨row, hdue, hkind, rfl, hrank⟩, hunbound⟩
  · rintro ⟨⟨row, hdue, hkind, rfl, hrank⟩, hunbound⟩
    exact ⟨row, ⟨⟨hdue, hrank⟩, hkind, hunbound⟩, rfl⟩

variable (x s before) in
theorem purgeForgottenPayloads_eq (hlimit : 1 ≤ limit ∧ limit ≤ 10000) :
    ∃ result, s.purgeForgottenPayloads x before limit = .ok (s.purged x before limit, result) := by
  simp only [purgeForgottenPayloads, if_neg (not_not.mpr hlimit)]
  exact ⟨_, rfl⟩

/-- What one call leaves of the observations. -/
theorem pendingObservation_purged {o : ObservationRow} :
    (s.purged x before limit).PendingObservation before o ↔
      s.PendingObservation before o ∧ ¬ s.Batched before limit .observation o.id := by
  have hids : ∀ row : ObservationRow, ¬ s.SnapshotBound .observation row.id →
      (row.id ∈ s.purgeTargets (s.purgeBatch before limit) .observation .observation ↔
        s.Batched before limit .observation row.id) := fun row hunbound => by
    rw [mem_purgeTargets, and_iff_left hunbound]
  constructor
  · rintro ⟨hmem, hforgotten, htombstoned, hunbound, hunpurged⟩
    obtain ⟨row, hrow, _, rfl⟩ | ⟨hmem, hkept⟩ := Table.update_cases rfl hmem
    · exact absurd rfl hunpurged
    · refine ⟨⟨hmem, hforgotten, htombstoned, hunbound, hunpurged⟩, fun hbatched => ?_⟩
      exact hkept ⟨(hids o hunbound).mpr hbatched, hforgotten, hunpurged⟩
  · rintro ⟨⟨hmem, hforgotten, htombstoned, hunbound, hunpurged⟩, hbatched⟩
    refine ⟨Table.mem_update_of_not rfl hmem fun hp => ?_, hforgotten, htombstoned, hunbound,
      hunpurged⟩
    exact hbatched ((hids o hunbound).mp hp.1)

/-- The targets among the claims of one call. -/
def purgedClaimIds (s : MemoryStore) (before : Time) (limit : Nat) : List Uuid :=
  s.purgeTargets (s.purgeBatch before limit) .claim .claimRevision

theorem mem_purged_revisions {r : RevisionRow} (hr : r ∈ (s.purged x before limit).revisions) :
    (r.claimId ∈ s.purgedClaimIds before limit ∧ r.value = purgedValue ∧
        r.normalizedText = purgedText) ∨
      r ∈ s.revisions ∧ r.claimId ∉ s.purgedClaimIds before limit := by
  obtain ⟨row, _, hrow, rfl⟩ | hkept := Table.update_cases rfl hr
  · exact .inl ⟨hrow, rfl, rfl⟩
  · exact .inr hkept

theorem purgedClaim_of_batched {c : ClaimRow} (hid : c.id ∈ s.purgedClaimIds before limit)
    (hsubject : c.subject = purgedText) (hpredicate : c.predicate = purgedText) :
    (s.purged x before limit).PurgedClaim c := by
  refine ⟨hsubject, hpredicate, fun r hr hrid => ?_⟩
  obtain ⟨_, htext⟩ | ⟨_, hnot⟩ := mem_purged_revisions hr
  · exact htext
  · exact absurd (hrid ▸ hid) hnot

theorem purgedClaim_of_not_batched {c : ClaimRow} (hid : c.id ∉ s.purgedClaimIds before limit) :
    (s.purged x before limit).PurgedClaim c ↔ s.PurgedClaim c := by
  refine and_congr_right fun _ => and_congr_right fun _ => ⟨fun h r hr hrid => ?_,
    fun h r hr hrid => ?_⟩
  · exact h r (Table.mem_update_of_not rfl hr fun hp => hid (hrid ▸ hp)) hrid
  · obtain ⟨hin, _⟩ | ⟨hold, _⟩ := mem_purged_revisions hr
    · exact absurd (hrid ▸ hin) hid
    · exact h r hold hrid

/-- What one call leaves of the claims: it does not look at a predicate beside a subject that
reads as purged. -/
theorem pendingClaim_purged {c : ClaimRow} :
    (s.purged x before limit).PendingClaim before c ↔
      c ∈ s.claims ∧ c.status = .forgotten ∧ s.Tombstoned before .claim c.id ∧
        ¬ s.SnapshotBound .claimRevision c.id ∧
        (s.Batched before limit .claim c.id → c.subject = purgedText ∧ c.predicate ≠ purgedText) ∧
        (¬ s.Batched before limit .claim c.id → ¬ s.PurgedClaim c) := by
  have hids : ∀ row : ClaimRow, ¬ s.SnapshotBound .claimRevision row.id →
      (row.id ∈ s.purgedClaimIds before limit ↔ s.Batched before limit .claim row.id) :=
    fun row hunbound => by rw [purgedClaimIds, mem_purgeTargets, and_iff_left hunbound]
  constructor
  · rintro ⟨hmem, hforgotten, htombstoned, hunbound, hunpurged⟩
    obtain ⟨row, hrow, hp, rfl⟩ | ⟨hmem, hkept⟩ := Table.update_cases rfl hmem
    · exact (hunpurged (purgedClaim_of_batched (by exact hp.1) rfl rfl)).elim
    · refine ⟨hmem, hforgotten, htombstoned, hunbound, fun hbatched => ?_, fun hbatched => ?_⟩
      · have hid := (hids c hunbound).mpr hbatched
        have hsubject : c.subject = purgedText := by
          by_contra hne
          exact hkept ⟨hid, hforgotten, hne⟩
        exact ⟨hsubject, fun hpredicate =>
          hunpurged (purgedClaim_of_batched hid hsubject hpredicate)⟩
      · have hid := fun h => hbatched ((hids c hunbound).mp h)
        exact fun hpurged => hunpurged ((purgedClaim_of_not_batched hid).mpr hpurged)
  · rintro ⟨hmem, hforgotten, htombstoned, hunbound, hbatched, hother⟩
    refine ⟨Table.mem_update_of_not rfl hmem fun hp => ?_, hforgotten, htombstoned, hunbound,
      fun hpurged => ?_⟩
    · exact hp.2.2 (hbatched ((hids c hunbound).mp hp.1)).1
    · by_cases hb : s.Batched before limit .claim c.id
      · exact (hbatched hb).2 hpurged.2.1
      · have hid := fun h => hb ((hids c hunbound).mp h)
        exact hother hb ((purgedClaim_of_not_batched hid).mp hpurged)

/-- One call purges all there is to purge just when the first batch has it all. -/
theorem allPurged_purged :
    (s.purged x before limit).AllPurged before ↔ s.WithinBatch before limit := by
  refine and_congr (forall_congr' fun o => ?_) (forall_congr' fun c => ?_)
  · rw [pendingObservation_purged, not_and, not_not]
  · rw [pendingClaim_purged]
    constructor
    · rintro h ⟨hmem, hforgotten, htombstoned, hunbound, hunpurged⟩
      by_contra hnot
      refine h ⟨hmem, hforgotten, htombstoned, hunbound, fun hbatched => ?_, fun _ => hunpurged⟩
      by_contra hneither
      exact hnot ⟨hbatched, fun hsubject => by_contra fun hne => hneither ⟨hsubject, hne⟩⟩
    · rintro h ⟨hmem, hforgotten, htombstoned, hunbound, hbatched, hother⟩
      have hunpurged : ¬ s.PurgedClaim c := by
        by_cases hb : s.Batched before limit .claim c.id
        · exact fun hpurged => (hbatched hb).2 hpurged.2.1
        · exact hother hb
      obtain ⟨hb, hpredicate⟩ := h ⟨hmem, hforgotten, htombstoned, hunbound, hunpurged⟩
      exact (hbatched hb).2 (hpredicate (hbatched hb).1)

theorem removeDocuments_eq_self {kind : MemorySourceKind} {ids : List Uuid}
    (h : ∀ d ∈ t.documents, ¬ (d.sourceKind = kind ∧ d.sourceId ∈ ids)) :
    t.removeDocuments kind ids = t := by
  simp only [removeDocuments, Table.delete_eq_self h]

theorem purgeObservations_eq_self {ids : List Uuid}
    (hdocuments : ∀ d ∈ t.documents, ¬ (d.sourceKind = .observation ∧ d.sourceId ∈ ids))
    (hrows : ∀ row ∈ t.observations,
      ¬ (row.id ∈ ids ∧ row.status = .forgotten ∧ row.content ≠ purgedText)) :
    t.purgeObservations x ids = (t, 0) := by
  simp only [purgeObservations, removeDocuments_eq_self hdocuments, Table.update_eq_self hrows,
    Table.select_eq_nil hrows, List.length_nil]

theorem purgeClaims_eq_self {ids : List Uuid}
    (hdocuments : ∀ d ∈ t.documents, ¬ (d.sourceKind = .claimRevision ∧ d.sourceId ∈ ids))
    (hclaims : ∀ row ∈ t.claims,
      ¬ (row.id ∈ ids ∧ row.status = .forgotten ∧ row.subject ≠ purgedText))
    (hrevisions : ∀ row ∈ t.revisions, row.claimId ∈ ids →
      RevisionRow.purged x row = row) :
    t.purgeClaims x ids = (t, 0) := by
  have hfixed : t.revisions.update (fun row => row.claimId ∈ ids) (RevisionRow.purged x) =
      t.revisions := Table.update_eq_of_fixed hrevisions
  simp only [purgeClaims, removeDocuments_eq_self hdocuments, Table.update_eq_self hclaims,
    Table.select_eq_nil hclaims, hfixed, List.length_nil]

variable (x s before) in
/-- A second call finds the same batch and nothing to purge in it. -/
theorem purged_purged (hlimit : 1 ≤ limit ∧ limit ≤ 10000) :
    (s.purged x before limit).purgeForgottenPayloads x before limit =
      .ok (s.purged x before limit, ⟨0, 0⟩) := by
  have hobservations : (s.purged x before limit).purgeObservations x
      (s.purgeTargets (s.purgeBatch before limit) .observation .observation) =
        (s.purged x before limit, 0) := by
    refine purgeObservations_eq_self (fun d hd hp => ?_) fun row hrow hp => ?_
    · exact (Table.mem_delete.mp (Table.mem_delete.mp hd).1).2 hp
    · obtain ⟨_, _, _, rfl⟩ | ⟨_, hnot⟩ := Table.update_cases rfl hrow
      · exact hp.2.2 rfl
      · exact hnot hp
  have hclaims : (s.purged x before limit).purgeClaims x (s.purgedClaimIds before limit) =
      (s.purged x before limit, 0) := by
    refine purgeClaims_eq_self (fun d hd hp => ?_) (fun row hrow hp => ?_) fun row hrow hid => ?_
    · exact (Table.mem_delete.mp hd).2 hp
    · obtain ⟨_, _, _, rfl⟩ | ⟨_, hnot⟩ := Table.update_cases rfl hrow
      · exact hp.2.2 rfl
      · exact hnot hp
    · obtain ⟨_, _, _, rfl⟩ | ⟨_, hnot⟩ := Table.update_cases rfl hrow
      · rfl
      · exact absurd hid hnot
  have hbatch : (s.purged x before limit).purgeBatch before limit = s.purgeBatch before limit :=
    rfl
  have htargets : ∀ batch target source, (s.purged x before limit).purgeTargets batch target source =
      s.purgeTargets batch target source := fun _ _ _ => rfl
  simp only [purgeForgottenPayloads, if_neg (not_not.mpr hlimit), hbatch, htargets, hobservations]
  rw [purgedClaimIds] at hclaims
  rw [hclaims]

theorem drained_iff (hlimit : 1 ≤ limit ∧ limit ≤ 10000) :
    s.Drained x before limit u ↔ u = s.purged x before limit := by
  obtain ⟨result, hfirst⟩ := purgeForgottenPayloads_eq x s before hlimit
  have hsecond := purged_purged x s before hlimit
  have hstop : ∀ {t}, Drained x before limit (s.purged x before limit) t →
      t = s.purged x before limit := by
    intro t ht
    cases ht with
    | done h =>
      rw [hsecond] at h
      cases h
      rfl
    | again hne h _ =>
      rw [hsecond] at h
      cases h
      exact absurd rfl hne
  constructor
  · intro h
    cases h with
    | done h =>
      rw [hfirst] at h
      cases h
      rfl
    | again hne h ht =>
      rw [hfirst] at h
      cases h
      exact hstop ht
  · rintro rfl
    by_cases hzero : result = ⟨0, 0⟩
    · exact .done (hzero ▸ hfirst)
    · exact .again hzero hfirst (.done hsecond)

/-- Repeated calls come to an end, and purge all there is to purge just when the first batch
has it all. -/
theorem purge_progress (x : Hashing) (s : MemoryStore) (before : Time) (limit : Nat)
    (hpositive : 1 ≤ limit) (haccepted : limit ≤ 10000) :
    ∃ u, (∀ v, s.Drained x before limit v ↔ v = u) ∧
      (u.AllPurged before ↔ s.WithinBatch before limit) :=
  ⟨s.purged x before limit, fun _ => drained_iff ⟨hpositive, haccepted⟩, allPurged_purged⟩

/-! Two forgotten observations, the first of them in a snapshot. -/

def heard (n : Nat) : MemoryObservation where
  id := n
  projectId := none
  conversationId := 2
  taskId := 3
  versionId := none
  scopeDigest := digest 'a'
  sourceEventId := 1
  sourceCursor := 1
  sourceType := .userMessage
  content := "text"
  contentHash := "text"
  proposedNamespace := .userProfile
  authority := .explicitUser
  confidence := certain
  sensitivity := .privateText
  scanResult := .clean
  status := .accepted
  actor := "user:1"
  createdAt := 0

def heardTombstone (n : Nat) : MemoryTombstone where
  id := n
  targetKind := .observation
  targetId := n
  reason := "asked"
  actor := "user:1"
  sourceEventId := 1
  createdAt := n

def starvedActs : List MemoryAct :=
  [.recordEvent userEvent, .appendObservation (heard 6) (digest 'a'),
    .appendObservation (heard 7) (digest 'b'), .bindItem ⟨8, 0, .observation, 6⟩,
    .forget (heardTombstone 6) (digest 'c'), .forget (heardTombstone 7) (digest 'd')]

def starved : MemoryStore := starvedActs.foldl (after plainHashing) empty

def starvedRow : ObservationRow where
  toMemoryObservation := { heard 7 with status := .forgotten }
  requestFingerprint := digest 'b'
  contentFingerprint := ""

theorem starved_pending : starved.PendingObservation 10 starvedRow where
  mem := by
    rw [Table.mem_iff]
    decide +kernel
  forgotten := rfl
  tombstoned := by
    have h : starved.Batched 10 2 .observation starvedRow.id := by decide +kernel
    obtain ⟨row, hdue, hkind, hid, _⟩ := h
    exact ⟨row, hdue, hkind, hid⟩
  unbound := by decide +kernel
  unpurged := by decide

theorem starved_not_withinBatch : ¬ starved.WithinBatch 10 1 := by
  intro h
  have hbatched := h.1 starvedRow starved_pending
  revert hbatched
  decide +kernel

/-- With a limit of one, the second of two forgotten observations is never purged. -/
theorem purge_starves : ∃ u, starved.Drained plainHashing 10 1 u ∧ ¬ u.AllPurged 10 :=
  ⟨_, (drained_iff (by decide)).mpr rfl, fun h =>
    starved_not_withinBatch (allPurged_purged.mp h)⟩

theorem purge_progress_starved :
    ∃ u, (∀ v, starved.Drained plainHashing 10 1 v ↔ v = u) ∧ ¬ u.AllPurged 10 := by
  obtain ⟨u, hu, hiff⟩ := purge_progress plainHashing starved 10 1 (by decide) (by decide)
  exact ⟨u, hu, fun h => starved_not_withinBatch (hiff.mp h)⟩

end MemoryStore

end Fairy.Memory
