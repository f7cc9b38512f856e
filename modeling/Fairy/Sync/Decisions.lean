import Fairy.Sync.Postgres
import Fairy.Sync.Promote

namespace Fairy.Sync

open Fairy.Lib

/-- A project row as the in-memory store would have it. -/
def ProjectRow.state (p : ProjectRow) : ProjectRevisionState :=
  ⟨p.id, p.revision, p.activeVersionId, []⟩

namespace SyncDatabase

/-- The row of a project. -/
def project (db : SyncDatabase) (projectId : String) : ProjectRow :=
  (db.projects.find? projectId).getD ⟨projectId, 0, none⟩

theorem project_of_mem {db : SyncDatabase} {projectId : String} {row : ProjectRow}
    (hm : row ∈ db.projects) (hid : row.id = projectId) : db.project projectId = row := by
  unfold project
  rw [Table.find?_eq_some.mpr ⟨hm, hid⟩]
  rfl

/-- What a promotion decides on the row of its project, and does to the tables. -/
inductive Decided (db : SyncDatabase) (r : PromoteRequest) (row : ProjectRow) :
    Decision → SyncDatabase → Prop
  | promoted (he : r.expectedRevision = row.revision) :
    Decided db r row ⟨false, row.revision + 1⟩ (db.acceptVersion r)
  | replayed (he : r.expectedRevision ≠ row.revision)
    (hr : row.state.Replays r.versionId r.expectedRevision) :
    Decided db r row ⟨false, row.revision⟩ db
  | retained (h : row.state.Refuses r.versionId r.expectedRevision) :
    Decided db r row ⟨true, row.revision⟩ (db.retainVersion r)

section

variable {F : Type} [DecidableEq F] {fingerprint : Json → F} {db db' : SyncDatabase}
  {r : PromoteRequest} {row : ProjectRow} {decision : Decision} {userId : String} {d : Draw}

theorem decidePromotion_ok (h : db.decidePromotion r = .ok (decision, db')) :
    0 ≤ r.expectedRevision ∧
      ∃ row ∈ db.projects, row.id = r.projectId ∧ db.Decided r row decision db' := by
  unfold decidePromotion at h
  split at h
  · cases h
  rename_i hneg
  refine ⟨Int.not_lt.mp hneg, ?_⟩
  split at h
  · rename_i promoted hfound
    obtain ⟨hm, hid, hrev⟩ := Table.oneOrNone_eq_some hfound
    cases h
    exact ⟨promoted, hm, hid, .promoted hrev.symm⟩
  · rename_i hmissed
    split at h
    · cases h
    rename_i current hfound
    obtain ⟨hm, hid⟩ := Table.find?_eq_some.mp hfound
    have hne : r.expectedRevision ≠ current.revision :=
      fun he => Table.oneOrNone_eq_none.mp hmissed current hm ⟨hid, he.symm⟩
    split at h
    · rename_i hreplay
      cases h
      exact ⟨current, hm, hid, .replayed hne hreplay⟩
    · rename_i hreplay
      cases h
      exact ⟨current, hm, hid, .retained ⟨hne, hreplay⟩⟩

/-- A promotion with a revision to expect is decided if its project is known. -/
theorem decidePromotion_total (he : 0 ≤ r.expectedRevision) (hm : row ∈ db.projects)
    (hid : row.id = r.projectId) :
    ∃ decision db', db.decidePromotion r = .ok (decision, db') ∧ db.Decided r row decision db' := by
  cases h : db.decidePromotion r with
  | ok x =>
    obtain ⟨_, row', hm', hid', hd⟩ := decidePromotion_ok h
    obtain rfl := Table.eq_of_key hm hm' (hid.trans hid'.symm)
    exact ⟨x.1, x.2, rfl, hd⟩
  | error error =>
    unfold decidePromotion at h
    rw [if_neg (Int.not_lt.mpr he)] at h
    split at h
    · cases h
    split at h
    · rename_i hnone
      exact absurd hid (Table.find?_eq_none.mp hnone row hm)
    · split at h
      · cases h
      · cases h

theorem Decided.eq (h : db.Decided r row decision db') :
    decision = ⟨decide (row.state.Refuses r.versionId r.expectedRevision),
      row.state.revisionAfter r.expectedRevision⟩ := by
  unfold ProjectRevisionState.revisionAfter
  cases h with
  | promoted he =>
    have hr : ¬ row.state.Refuses r.versionId r.expectedRevision := fun hr => hr.1 he
    rw [decide_eq_false hr, if_pos (show r.expectedRevision = row.state.revision from he)]
    rfl
  | replayed he hr =>
    have hn : ¬ row.state.Refuses r.versionId r.expectedRevision := fun hn => hn.2 hr
    rw [decide_eq_false hn, if_neg (show ¬ r.expectedRevision = row.state.revision from he)]
    rfl
  | retained hr =>
    rw [decide_eq_true hr, if_neg (show ¬ r.expectedRevision = row.state.revision from hr.1)]
    rfl

/-- A decision leaves events and outbox alone. -/
theorem Decided.ledger (h : db.Decided r row decision db') :
    db'.tenantId = db.tenantId ∧ db'.events = db.events ∧ db'.outbox = db.outbox := by
  cases h with
  | promoted he => exact ⟨rfl, rfl, rfl⟩
  | replayed he hr => exact ⟨rfl, rfl, rfl⟩
  | retained hr => exact ⟨rfl, rfl, rfl⟩

/-- Recording an event touches neither projects nor candidates. -/
theorem appendEventInTransaction_frame {e : EventFields} {cursor : Nat}
    (h : db.appendEventInTransaction fingerprint userId e d = .ok (cursor, db')) :
    db'.projects = db.projects ∧ db'.candidates = db.candidates ∧ db'.tenantId = db.tenantId := by
  have hpublish : ∀ (u u' : SyncDatabase) (x : SyncedEvent),
      u.publish fingerprint x = .ok (cursor, u') →
        u'.projects = u.projects ∧ u'.candidates = u.candidates ∧ u'.tenantId = u.tenantId := by
    intro u u' x hx
    unfold publish at hx
    dsimp only at hx
    split at hx
    · cases hx
      exact ⟨rfl, rfl, rfl⟩
    · split at hx
      · cases hx
        exact ⟨rfl, rfl, rfl⟩
      · cases hx
  unfold appendEventInTransaction at h
  split at h
  · cases h
  dsimp only at h
  split at h
  · rename_i u hu
    unfold insertEvent at hu
    split at hu
    · cases hu
    · obtain ⟨events, _, rfl⟩ := Option.map_eq_some_iff.mp hu
      have hframe := hpublish _ _ _ h
      exact hframe
  · split at h
    · split at h
      · cases h
      · cases h
    · split at h
      · exact hpublish _ _ _ h
      · cases h

theorem appendEventInTransaction_error {e : EventFields} {error : SyncError}
    (h : db.appendEventInTransaction fingerprint userId e d = .error error) :
    error.conflict = false := by
  have hpublish : ∀ (u : SyncDatabase) (x : SyncedEvent),
      u.publish fingerprint x = .error error → error.conflict = false := by
    intro u x hx
    unfold publish at hx
    dsimp only at hx
    split at hx
    · cases hx
    · split at hx
      · cases hx
      · cases hx
        rfl
  unfold appendEventInTransaction at h
  split at h
  · cases h
    rfl
  dsimp only at h
  split at h
  · exact hpublish _ _ h
  · split at h
    · split at h
      · cases h
        rfl
      · cases h
        rfl
    · split at h
      · exact hpublish _ _ h
      · cases h
        rfl

theorem recordDecision_frame (h : db.recordDecision fingerprint userId r decision d = .ok db') :
    db'.projects = db.projects ∧ db'.candidates = db.candidates ∧ db'.tenantId = db.tenantId := by
  unfold recordDecision at h
  split at h
  · cases h
    exact ⟨rfl, rfl, rfl⟩
  · split at h
    · cases h
    · cases happend : db.appendEventInTransaction fingerprint userId
        (r.decisionEvent _ _ decision.conflict decision.revision) d with
      | error error =>
        rw [happend] at h
        cases h
      | ok x =>
        rw [happend] at h
        cases h
        exact appendEventInTransaction_frame happend

theorem recordDecision_error {error : SyncError}
    (h : db.recordDecision fingerprint userId r decision d = .error error) :
    error.conflict = false := by
  unfold recordDecision at h
  split at h
  · cases h
  · split at h
    · cases h
      rfl
    · cases happend : db.appendEventInTransaction fingerprint userId
        (r.decisionEvent _ _ decision.conflict decision.revision) d with
      | error error' =>
        rw [happend] at h
        cases h
        exact appendEventInTransaction_error happend
      | ok x =>
        rw [happend] at h
        cases h

/-- A promotion raises and is rolled back, or it is decided and the decision recorded. -/
inductive Outcome (fingerprint : Json → F) (db : SyncDatabase) (userId : String)
    (r : PromoteRequest) (d : Draw) : Except SyncError ProjectRevisionState → SyncDatabase → Prop
  | refused {error : SyncError} (hc : error.conflict = false) :
    Outcome fingerprint db userId r d (.error error) db
  | decided {row : ProjectRow} {decision : Decision} {decided db' : SyncDatabase}
    (he : 0 ≤ r.expectedRevision) (hm : row ∈ db.projects) (hid : row.id = r.projectId)
    (hd : db.Decided r row decision decided)
    (hr : decided.recordDecision fingerprint userId r decision d = .ok db') :
    Outcome fingerprint db userId r d (answer r decision) db'

theorem promoteVersion_outcome (fingerprint : Json → F) (db : SyncDatabase) (userId : String)
    (r : PromoteRequest) (d : Draw) : Outcome fingerprint db userId r d
      (db.promoteVersion fingerprint userId r d).1
      (db.promoteVersion fingerprint userId r d).2 := by
  unfold promoteVersion
  cases hd : db.decidePromotion r with
  | error error =>
    refine .refused ?_
    unfold decidePromotion at hd
    split at hd
    · cases hd
      rfl
    split at hd
    · cases hd
    split at hd
    · cases hd
      rfl
    · split at hd
      · cases hd
      · cases hd
  | ok x =>
    obtain ⟨decision, decided⟩ := x
    obtain ⟨he, row, hm, hid, hdec⟩ := decidePromotion_ok hd
    dsimp only
    cases hr : decided.recordDecision fingerprint userId r decision d with
    | error error => exact .refused (recordDecision_error hr)
    | ok db' => exact .decided he hm hid hdec hr

end

end SyncDatabase

end Fairy.Sync
