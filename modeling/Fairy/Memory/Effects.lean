import Fairy.Memory.Retention

namespace Fairy.Memory

open Fairy.Lib
open Fairy.Commanding (Uuid Time LedgerEvent)

/-- A write to the memory of one tenant. -/
inductive MemoryAct
  | recordEvent (event : LedgerEvent)
  | appendObservation (observation : MemoryObservation) (requestFingerprint : String)
  | transitionObservation (observationId : Uuid) (expectedStatus status : ObservationStatus)
  | createClaim (claim : MemoryClaim) (requestFingerprint : String)
  | appendRevision (now : Time) (claimId : Uuid) (expectedRevision : Nat)
      (revision : MemoryClaimRevision) (requestFingerprint : String)
  | resolveConflict (now decidedAt updatedAt : Time) (claimId : Uuid) (expectedRevision : Nat)
      (revision : MemoryClaimRevision) (resolvedClaimIds : List Uuid)
      (requestFingerprint : String)
  | forget (tombstone : MemoryTombstone) (requestFingerprint : String)
  | purgeForgottenPayloads (before : Time) (limit : Nat)
  | bindItem (item : SnapshotItemRow)

namespace MemoryStore

/-- `INSERT` into `domain_events`. -/
def recordEvent (s : MemoryStore) (event : LedgerEvent) : Except MemoryError MemoryStore :=
  match s.events.insertAll [event] with
  | none => .error (.integrityError "domain_events")
  | some events => .ok { s with events }

def perform (x : Hashing) (s : MemoryStore) : MemoryAct → Except MemoryError MemoryStore
  | .recordEvent event => s.recordEvent event
  | .appendObservation observation key => s.appendObservation x observation key
  | .transitionObservation observationId expected status =>
    s.transitionObservation observationId expected status
  | .createClaim claim key => s.createClaim x claim key
  | .appendRevision now claimId expected revision key =>
    s.appendRevision x now claimId expected revision key
  | .resolveConflict now decidedAt updatedAt claimId expected revision resolved key =>
    s.resolveConflict x now decidedAt updatedAt claimId expected revision resolved key
  | .forget tombstone key => s.forget x tombstone key
  | .purgeForgottenPayloads before limit =>
    (s.purgeForgottenPayloads x before limit).map Prod.fst
  | .bindItem item => .ok { s with snapshotItems := s.snapshotItems ++ [item] }

/-- A write that raises leaves nothing behind. -/
def after (x : Hashing) (s : MemoryStore) (act : MemoryAct) : MemoryStore :=
  match s.perform x act with
  | .ok t => t
  | .error _ => s

end MemoryStore

def RevisionRow.retired (claimId : Uuid) (r : RevisionRow) : RevisionRow :=
  if r.claimId = claimId ∧ r.isCurrent then { r with isCurrent := false } else r

/-- What is left of a revision under a new text. -/
def RevisionRow.Rewritten (r r' : RevisionRow) : Prop :=
  r'.claimId = r.claimId ∧ r'.revision = r.revision ∧
    r'.supersedesRevision = r.supersedesRevision ∧ r'.isCurrent = r.isCurrent

def ClaimRow.Rewritten (c c' : ClaimRow) : Prop :=
  c'.id = c.id ∧ c'.currentRevision = c.currentRevision ∧ c'.status = c.status

/-- A new revision `row` turns the claim `c` into `c'`. -/
structure Revises (s t : MemoryStore) (c c' : ClaimRow) (row : RevisionRow) : Prop where
  live : c.status ≠ .forgotten
  still : c'.status ≠ .forgotten
  next : c'.currentRevision = c.currentRevision + 1
  claims : Table.Replaces s.claims t.claims c c'
  revisions : t.revisions.rows = (if c.currentRevision = 0 then s.revisions.rows
    else s.revisions.rows.map (RevisionRow.retired c.id)) ++ [row]
  owner : row.claimId = c.id
  number : row.revision = c.currentRevision + 1
  supersedes : row.supersedesRevision = MemoryStore.expectedSuperseded c.currentRevision
  current : row.isCurrent = true
  observations : t.observations = s.observations

/-- What a write can do to the claims and their revisions. -/
inductive ClaimChange (act : MemoryAct) (s t : MemoryStore) : Prop
  | kept (claims : t.claims = s.claims) (revisions : t.revisions = s.revisions)
  | created (row : ClaimRow) (input : ∃ key, act = .createClaim row.toMemoryClaim key)
      (fresh : ∀ c ∈ s.claims, c.id ≠ row.id) (claims : t.claims.rows = s.claims.rows ++ [row])
      (revisions : t.revisions = s.revisions)
  | revised (c c' : ClaimRow) (row : RevisionRow) (h : Revises s t c c' row)
  | forgot (c : ClaimRow)
      (claims : Table.Replaces s.claims t.claims c (MemoryStore.forgottenClaim c))
      (revisions : t.revisions.rows = s.revisions.rows.map (RevisionRow.retired c.id))
  | purged (f : ClaimRow → ClaimRow) (g : RevisionRow → RevisionRow)
      (claimKept : ∀ c, ClaimRow.Rewritten c (f c))
      (revisionKept : ∀ r, RevisionRow.Rewritten r (g r))
      (claims : t.claims.rows = s.claims.rows.map f)
      (revisions : t.revisions.rows = s.revisions.rows.map g)

namespace MemoryStore

variable {x : Hashing} {s t : MemoryStore} {act : MemoryAct} {key : String}

theorem insertObservation_cases (s : MemoryStore) (row : ObservationRow) :
    s.insertObservation row = s ∨ (∀ other ∈ s.observations, other.id ≠ row.id) ∧
      (s.insertObservation row).observations.rows = s.observations.rows ++ [row] := by
  obtain ⟨_, hsame⟩ | ⟨hfresh, hrows⟩ := s.observations.insertUnless_cases
    (fun other => other.id = row.id ∨ other.requestFingerprint = row.requestFingerprint) row
    (fun _ h => .inl h) trivial
  · exact .inl (by simp only [insertObservation, hsame])
  · exact .inr ⟨fun other ho he => hfresh other ho (.inl he), hrows⟩

theorem insertClaim_cases (s : MemoryStore) (row : ClaimRow) :
    s.insertClaim row = s ∨ (∀ other ∈ s.claims, other.id ≠ row.id) ∧
      (s.insertClaim row).claims.rows = s.claims.rows ++ [row] := by
  obtain ⟨_, hsame⟩ | ⟨hfresh, hrows⟩ := s.claims.insertUnless_cases
    (fun other => other.id = row.id ∨ other.requestFingerprint = row.requestFingerprint) row
    (fun _ h => .inl h) trivial
  · exact .inl (by simp only [insertClaim, hsame])
  · exact .inr ⟨fun other ho he => hfresh other ho (.inl he), hrows⟩

/-- What a write can do to the observations. -/
inductive ObservationChange (s t : MemoryStore) : Prop
  | kept (h : t.observations = s.observations)
  | added (row : ObservationRow) (fresh : ∀ other ∈ s.observations, other.id ≠ row.id)
      (h : t.observations.rows = s.observations.rows ++ [row])
  | changed (f : ObservationRow → ObservationRow) (keepsId : ∀ o, (f o).id = o.id)
      (absorbs : ∀ o ∈ s.observations, o.status = .forgotten → (f o).status = .forgotten)
      (h : t.observations.rows = s.observations.rows.map f)

theorem appendObservation_ok {o : MemoryObservation} (h : s.appendObservation x o key = .ok t) :
    t.claims = s.claims ∧ t.revisions = s.revisions ∧ ObservationChange s t := by
  simp only [appendObservation] at h
  obtain ⟨_, _, h⟩ := bind_ok h
  obtain ⟨_, _, h⟩ := bind_ok h
  split at h
  · split at h <;> cases h
  · obtain ⟨_, _, h⟩ := bind_ok h
    obtain rfl := pure_ok h
    refine ⟨rfl, rfl, ?_⟩
    obtain hsame | ⟨hfresh, hrows⟩ := s.insertObservation_cases _
    · exact .kept (by rw [hsame])
    · exact .added _ hfresh hrows

/-- A forgotten observation has no status to go to. -/
theorem transitionObservation_ok {id : Uuid} {expected status : ObservationStatus}
    (h : s.transitionObservation id expected status = .ok t) :
    t.claims = s.claims ∧ t.revisions = s.revisions ∧ ObservationChange s t := by
  simp only [transitionObservation] at h
  split at h
  · cases h
  · rename_i current hcurrent
    obtain ⟨hmem, hid⟩ := Table.find?_eq_some.mp hcurrent
    split at h
    · cases h
      exact ⟨rfl, rfl, .kept rfl⟩
    · obtain ⟨changed, hchanged, h⟩ := bind_ok h
      split at h
      · cases h
        refine ⟨rfl, rfl, .changed _ (fun o => ?_) (fun o ho hforgotten => ?_) rfl⟩
        · split <;> rfl
        · have hne : ¬ (o.id = id ∧ o.status = expected) := by
            rintro ⟨hoid, _⟩
            obtain rfl := Table.eq_of_key ho hmem (hoid.trans hid.symm)
            simp [MemoryObservation.transitionTo, hforgotten, ObservationStatus.transitions]
              at hchanged
          rw [if_neg hne, hforgotten]
      · cases h

theorem createClaim_ok {claim : MemoryClaim} (h : s.createClaim x claim key = .ok t) :
    ClaimChange (.createClaim claim key) s t ∧ t.observations = s.observations := by
  simp only [createClaim] at h
  obtain ⟨_, _, h⟩ := bind_ok h
  split at h
  · split at h <;> cases h
  · obtain ⟨_, _, h⟩ := bind_ok h
    obtain rfl := pure_ok h
    refine ⟨?_, rfl⟩
    obtain hsame | ⟨hfresh, hrows⟩ := s.insertClaim_cases _
    · exact .kept (by rw [hsame]) rfl
    · exact .created _ ⟨key, rfl⟩ hfresh hrows rfl

theorem revisedStatus_ne_forgotten {now : Time} {status : ClaimStatus}
    {revision : MemoryClaimRevision} (h : status ≠ .forgotten) :
    revisedStatus now status revision ≠ .forgotten := by
  simp only [revisedStatus]
  split
  · exact nofun
  · split
    · exact nofun
    · exact h

theorem resolvedStatus_ne_forgotten {now : Time} {revision : MemoryClaimRevision} :
    resolvedStatus now revision ≠ .forgotten := by
  simp only [resolvedStatus]
  split <;> exact nofun

theorem insertRevision_ok {row : RevisionRow} (h : s.insertRevision row = .ok t) :
    t.claims = s.claims ∧ t.observations = s.observations ∧
      t.revisions.rows = s.revisions.rows ++ [row] := by
  simp only [insertRevision] at h
  split at h
  · cases h
  · split at h
    · cases h
    · rename_i hrows
      cases h
      exact ⟨rfl, rfl, (Table.insertAll_eq_some hrows).1⟩

theorem advanceClaim_ok {now : Time} {revision : MemoryClaimRevision} {status : ClaimStatus}
    {c : ClaimRow} (hc : c ∈ s.claims) (hid : c.id = revision.claimId)
    (hlive : c.status ≠ .forgotten)
    (h : s.advanceClaim now c.currentRevision revision status = .ok t) :
    t.revisions = s.revisions ∧ t.observations = s.observations ∧
      Table.Replaces s.claims t.claims c (advancedClaim now revision status c) := by
  simp only [advanceClaim] at h
  split at h
  · cases h
    refine ⟨rfl, rfl, Table.replaces_update rfl hc ?_ (fun b _ hb => ?_) rfl⟩
    · exact ⟨hid, rfl, hlive⟩
    · exact hb.1.trans hid.symm
  · cases h

theorem requireClaim_ok {claimId : Uuid} {c : ClaimRow} (h : s.requireClaim claimId = .ok c) :
    c ∈ s.claims ∧ c.id = claimId ∧ c.status ≠ .forgotten := by
  simp only [requireClaim] at h
  split at h
  · cases h
  · rename_i hclaim
    split at h
    · cases h
    · rename_i hlive
      cases h
      obtain ⟨hc, hid⟩ := Table.find?_eq_some.mp hclaim
      exact ⟨hc, hid, hlive⟩

theorem requireExpected_ok {claimId : Uuid} {expected : Nat} {revision : MemoryClaimRevision}
    (h : requireExpected claimId expected revision = .ok ()) :
    revision.claimId = claimId ∧ revision.revision = expected + 1 ∧
      revision.supersedesRevision = expectedSuperseded expected := by
  simp only [requireExpected] at h
  split at h
  · cases h
  · rename_i hnumber
    split at h
    · cases h
    · rename_i hsupersedes
      push Not at hnumber hsupersedes
      exact ⟨hnumber.1, hnumber.2, hsupersedes⟩

theorem writeRevision_ok {now : Time} {c : ClaimRow} {revision : MemoryClaimRevision}
    {resolved : List Uuid} {updated : MemoryClaim} (hc : c ∈ s.claims)
    (hlive : c.status ≠ .forgotten)
    (hexpected : requireExpected c.id c.currentRevision revision = .ok ())
    (h : s.writeRevision x now c c.currentRevision revision resolved key = .ok (t, updated)) :
    ∃ c' row, updated = c'.toMemoryClaim ∧
      c' = advancedClaim now revision (revisedStatus now c.status revision) c ∧
      Revises s t c c' row := by
  obtain ⟨howner, hnumber, hsupersedes⟩ := requireExpected_ok hexpected
  simp only [writeRevision] at h
  obtain ⟨advanced, hadvanced, h⟩ := bind_ok h
  obtain ⟨inserted, hinserted, h⟩ := bind_ok h
  split at h
  · cases h
  rename_i c' hread
  cases h
  obtain ⟨hrevisions, hobservations, hreplaces⟩ :=
    advanceClaim_ok hc howner.symm hlive hadvanced
  obtain ⟨hclaims, hkept, hrows⟩ := insertRevision_ok hinserted
  have hretired : ∀ u : MemoryStore, (if c.currentRevision = 0 then u
      else u.retireRevisions c.id).claims = u.claims := by
    intro u
    split <;> rfl
  have hobs : ∀ u : MemoryStore, (if c.currentRevision = 0 then u
      else u.retireRevisions c.id).observations = u.observations := by
    intro u
    split <;> rfl
  rw [hretired] at hclaims
  rw [hobs] at hkept
  obtain ⟨hc', hid'⟩ := Table.find?_eq_some.mp hread
  rw [hclaims] at hc'
  have hc'eq : c' = advancedClaim now revision (revisedStatus now c.status revision) c :=
    Table.eq_of_key hc' hreplaces.mem hid'
  refine ⟨c', newRevisionRow x revision resolved key, rfl, hc'eq, ⟨hlive, ?_, ?_, ?_, ?_, howner,
    hnumber, hsupersedes, rfl, hkept.trans hobservations⟩⟩
  · rw [hc'eq]
    exact revisedStatus_ne_forgotten hlive
  · rw [hc'eq]
    exact hnumber
  · rw [hclaims, hc'eq]
    exact hreplaces
  · rw [hrows, ← hrevisions]
    split <;> rfl

/-- A revision that is not a replay is the next one of a claim that is not forgotten. -/
theorem appendRevisionWith_ok {now : Time} {claimId : Uuid} {expected : Nat}
    {revision : MemoryClaimRevision} {resolved : List Uuid} {updated : MemoryClaim}
    (h : s.appendRevisionWith x now claimId expected revision resolved key = .ok (t, updated)) :
    (t = s ∧ s.revisionByRequest claimId key ≠ none) ∨
      ∃ c c' row, c.id = claimId ∧ updated = c'.toMemoryClaim ∧
        c' = advancedClaim now revision (revisedStatus now c.status revision) c ∧
        Revises s t c c' row := by
  simp only [appendRevisionWith] at h
  obtain ⟨_, _, h⟩ := bind_ok h
  obtain ⟨_, hexpected, h⟩ := bind_ok h
  obtain ⟨c, hclaim, h⟩ := bind_ok h
  obtain ⟨_, _, h⟩ := bind_ok h
  obtain ⟨hc, rfl, hlive⟩ := requireClaim_ok hclaim
  split at h
  · rename_i replay hreplay
    obtain ⟨_, _, h⟩ := bind_ok h
    cases pure_ok h
    exact .inl ⟨rfl, by rw [hreplay]; exact nofun⟩
  · obtain ⟨_, hcurrent, h⟩ := bind_ok h
    obtain ⟨_, _, h⟩ := bind_ok h
    obtain rfl : c.currentRevision = expected := by
      simp only [requireCurrent] at hcurrent
      split at hcurrent
      · cases hcurrent
      · rename_i he
        exact not_not.mp he
    obtain ⟨c', row, hupdated, hadvanced, hrevises⟩ := writeRevision_ok hc hlive hexpected h
    exact .inr ⟨c, c', row, rfl, hupdated, hadvanced, hrevises⟩

/-- To settle the claim that was just revised leaves it revised. -/
theorem revises_settle {u : MemoryStore} {c c' : ClaimRow} {row : RevisionRow}
    {updatedAt : Time} {status : ClaimStatus} (h : Revises s t c c' row)
    (hstatus : status ≠ .forgotten)
    (hu : t.settleClaim updatedAt c.id c'.toMemoryClaim status = u) :
    Revises s u c (settledClaim updatedAt status c') row := by
  have hsettled : Table.Replaces t.claims u.claims c' (settledClaim updatedAt status c') := by
    rw [← hu]
    refine Table.replaces_update rfl h.claims.mem ⟨h.claims.2.1, rfl⟩ (fun b _ hb => ?_) rfl
    exact hb.1.trans h.claims.2.1.symm
  refine ⟨h.live, hstatus, h.next, h.claims.trans hsettled, ?_, h.owner, h.number, h.supersedes,
    h.current, ?_⟩
  · rw [← hu]
    exact h.revisions
  · rw [← hu]
    exact h.observations

theorem appendRevision_ok {now : Time} {claimId : Uuid} {expected : Nat}
    {revision : MemoryClaimRevision}
    (h : s.appendRevision x now claimId expected revision key = .ok t) :
    ClaimChange act s t ∧ t.observations = s.observations := by
  simp only [appendRevision] at h
  obtain ⟨⟨_, updated⟩, happend, rfl⟩ := map_ok h
  obtain ⟨rfl, _⟩ | ⟨c, c', row, _, _, _, hrevises⟩ := appendRevisionWith_ok happend
  · exact ⟨.kept rfl rfl, rfl⟩
  · exact ⟨.revised c c' row hrevises, hrevises.observations⟩

/-- A resolution that is not a replay revises a conflicted claim and settles it. -/
theorem resolveConflict_cases {now decidedAt updatedAt : Time} {claimId : Uuid} {expected : Nat}
    {revision : MemoryClaimRevision} {resolved : List Uuid}
    (h : s.resolveConflict x now decidedAt updatedAt claimId expected revision resolved key =
      .ok t) :
    (t = s ∧ s.revisionByRequest claimId key ≠ none) ∨
      ∃ c c' row, c.id = claimId ∧ c.status = .conflicted ∧
        (∀ id ∈ resolved, s.verifyConflictSet c.conflictSetId id = .ok ()) ∧
        c' = settledClaim updatedAt (resolvedStatus decidedAt revision)
          (advancedClaim now revision (revisedStatus now c.status revision) c) ∧
        Revises s t c c' row := by
  simp only [resolveConflict] at h
  split at h
  · cases h
  obtain ⟨_, _, h⟩ := bind_ok h
  obtain ⟨current, hcurrent, h⟩ := bind_ok h
  split at h
  · rename_i replay hreplay
    obtain ⟨_, _, h⟩ := bind_ok h
    cases pure_ok h
    exact .inl ⟨rfl, by rw [hreplay]; exact nofun⟩
  rename_i hnew
  obtain ⟨_, hconflicted, h⟩ := bind_ok h
  obtain ⟨_, hsets, h⟩ := bind_ok h
  obtain ⟨⟨u, updated⟩, happend, h⟩ := bind_ok h
  obtain ⟨_, hreplay⟩ | ⟨c, c', row, rfl, rfl, rfl, hrevises⟩ := appendRevisionWith_ok happend
  · exact absurd hnew hreplay
  · obtain ⟨hmem, hid, _⟩ := requireClaim_ok hcurrent
    obtain rfl := Table.eq_of_key hmem hrevises.claims.1 hid
    refine .inr ⟨current, _, row, rfl, ?_, forM_ok hsets, rfl,
      revises_settle hrevises resolvedStatus_ne_forgotten (pure_ok h)⟩
    simp only [requireConflicted] at hconflicted
    split at hconflicted
    · cases hconflicted
    · rename_i hstatus
      exact not_not.mp hstatus

theorem resolveConflict_ok {now decidedAt updatedAt : Time} {claimId : Uuid} {expected : Nat}
    {revision : MemoryClaimRevision} {resolved : List Uuid}
    (h : s.resolveConflict x now decidedAt updatedAt claimId expected revision resolved key =
      .ok t) : ClaimChange act s t ∧ t.observations = s.observations := by
  obtain ⟨rfl, _⟩ | ⟨c, c', row, _, _, _, _, hrevises⟩ := resolveConflict_cases h
  · exact ⟨.kept rfl rfl, rfl⟩
  · exact ⟨.revised c c' row hrevises, hrevises.observations⟩

theorem retireRevisions_rows (s : MemoryStore) (claimId : Uuid) :
    (s.retireRevisions claimId).revisions.rows =
      s.revisions.rows.map (RevisionRow.retired claimId) := rfl

theorem forgetTarget_observation (s : MemoryStore) {kind : MemoryTargetKind} (targetId : Uuid)
    (h : kind ≠ .claim) : (s.forgetTarget kind targetId).claims = s.claims ∧
      (s.forgetTarget kind targetId).revisions = s.revisions ∧
      (s.forgetTarget kind targetId).observations.rows = s.observations.rows.map fun row =>
        if row.id = targetId then forgottenObservation row else row := by
  rw [forgetTarget, if_neg h]
  exact ⟨rfl, rfl, rfl⟩

theorem forget_ok {tombstone : MemoryTombstone} (h : s.forget x tombstone key = .ok t) :
    ClaimChange act s t ∧ ObservationChange s t := by
  simp only [forget] at h
  obtain ⟨_, _, h⟩ := bind_ok h
  obtain ⟨_, _, h⟩ := bind_ok h
  obtain ⟨_, _, h⟩ := bind_ok h
  obtain ⟨_, htarget, h⟩ := bind_ok h
  split at h
  · cases h
  obtain ⟨_, _, h⟩ := bind_ok h
  obtain ⟨_, _, h⟩ := bind_ok h
  obtain rfl := pure_ok h
  by_cases hkind : tombstone.targetKind = .claim
  · rw [if_pos hkind]
    have hsome : s.claimRow tombstone.targetId ≠ none := by
      simpa [requireTarget, hasTarget, hkind] using htarget
    obtain ⟨c, hc⟩ := Option.ne_none_iff_exists'.mp hsome
    obtain ⟨hmem, hid⟩ := Table.find?_eq_some.mp hc
    refine ⟨.forgot c ?_ ?_, .kept ?_⟩
    · rw [forgetTarget, if_pos hkind]
      refine Table.replaces_update rfl hmem hid (fun b _ hb => ?_) rfl
      exact hb.trans hid.symm
    · rw [retireRevisions_rows, forgetTarget, if_pos hkind, hid]
      rfl
    · rw [forgetTarget, if_pos hkind]
      rfl
  · rw [if_neg hkind]
    obtain ⟨hclaims, hrevisions, hrows⟩ :=
      forgetTarget_observation (s.insertTombstone ⟨tombstone, key, x.fingerprint
        (tombstoneFingerprint tombstone)⟩) tombstone.targetId hkind
    refine ⟨.kept hclaims hrevisions, .changed _ (fun o => ?_) (fun o _ ho => ?_) hrows⟩
    · split <;> rfl
    · split
      · rfl
      · exact ho

theorem purgeForgottenPayloads_ok {before : Time} {limit : Nat}
    {result : MemoryPayloadPurgeResult}
    (h : s.purgeForgottenPayloads x before limit = .ok (t, result)) :
    ClaimChange act s t ∧ ObservationChange s t := by
  simp only [purgeForgottenPayloads] at h
  split at h
  · cases h
  cases h
  refine ⟨.purged _ _ (fun c => ?_) (fun r => ?_) rfl rfl, .changed _ (fun o => ?_)
    (fun o _ ho => ?_) rfl⟩
  · split <;> exact ⟨rfl, rfl, rfl⟩
  · split <;> exact ⟨rfl, rfl, rfl, rfl⟩
  · split <;> rfl
  · split <;> exact ho

theorem perform_ok (h : s.perform x act = .ok t) : ClaimChange act s t ∧ ObservationChange s t := by
  cases act with
  | recordEvent event =>
    simp only [perform, recordEvent] at h
    split at h <;> cases h
    exact ⟨.kept rfl rfl, .kept rfl⟩
  | appendObservation observation key =>
    obtain ⟨hclaims, hrevisions, hchange⟩ := appendObservation_ok h
    exact ⟨.kept hclaims hrevisions, hchange⟩
  | transitionObservation observationId expected status =>
    obtain ⟨hclaims, hrevisions, hchange⟩ := transitionObservation_ok h
    exact ⟨.kept hclaims hrevisions, hchange⟩
  | createClaim claim key =>
    obtain ⟨hchange, hsame⟩ := createClaim_ok h
    exact ⟨hchange, .kept hsame⟩
  | appendRevision now claimId expected revision key =>
    obtain ⟨hchange, hsame⟩ := appendRevision_ok h
    exact ⟨hchange, .kept hsame⟩
  | resolveConflict now decidedAt updatedAt claimId expected revision resolved key =>
    obtain ⟨hchange, hsame⟩ := resolveConflict_ok h
    exact ⟨hchange, .kept hsame⟩
  | forget tombstone key => exact forget_ok h
  | purgeForgottenPayloads before limit =>
    obtain ⟨⟨_, result⟩, hpurge, rfl⟩ := map_ok h
    exact purgeForgottenPayloads_ok hpurge
  | bindItem item =>
    cases h
    exact ⟨.kept rfl rfl, .kept rfl⟩

end MemoryStore

end Fairy.Memory
