import Fairy.Lib.Run
import Fairy.Sync.Agreement

namespace Fairy.Sync

open Fairy.Lib

inductive Kind
  | success
  | versionConflict
  | failure
  deriving DecidableEq

/-- The kind of an outcome. -/
def kind {α : Type} : Except SyncError α → Kind
  | .ok _ => .success
  | .error error => if error.conflict then .versionConflict else .failure

theorem kind_failure {α : Type} {error : SyncError} (h : error.conflict = false) :
    kind (.error error : Except SyncError α) = .failure := by
  simp [kind, h]

namespace SyncDatabase

/-- A call that writes to the tables. -/
inductive Op
  | registerProject (projectId : String) (activeVersionId : Option String)
  | appendEvent (userId : String) (event : EventFields) (message : Option String) (draw : Draw)
  | promoteVersion (call : PromoteCall)

section

variable {F : Type} [DecidableEq F] (fingerprint : Json → F)

def after (db : SyncDatabase) : Op → SyncDatabase
  | .registerProject projectId activeVersionId => db.registerProject projectId activeVersionId
  | .appendEvent userId event message draw =>
    (db.appendEvent fingerprint userId event message draw).2
  | .promoteVersion c => (db.promoteVersion fingerprint c.userId c.request c.draw).2

/-- Any calls, one after the other. -/
abbrev Runs : SyncDatabase → SyncDatabase → Prop :=
  Run (fun db op db' => db' = db.after fingerprint op) fun _ _ => True

end

/-- What no call takes back: projects only move on, events and outbox only grow. -/
structure Grown (db db' : SyncDatabase) : Prop where
  tenant : db'.tenantId = db.tenantId
  projects : ∀ p ∈ db.projects, ∃ q ∈ db'.projects, q.id = p.id ∧ p.state.Later q.state
  events : ∀ e ∈ db.events, e ∈ db'.events
  outbox : ∀ x ∈ db.outbox, x ∈ db'.outbox

section

variable {F : Type} [DecidableEq F] {fingerprint : Json → F} {db db' db'' : SyncDatabase}
  {r : PromoteRequest} {row : ProjectRow} {decision : Decision} {userId : String} {d : Draw}
  {e : EventFields}

theorem Grown.refl (db : SyncDatabase) : db.Grown db :=
  ⟨rfl, fun p hp => ⟨p, hp, rfl, .refl _⟩, fun _ h => h, fun _ h => h⟩

theorem Grown.trans (h : db.Grown db') (h' : db'.Grown db'') : db.Grown db'' := by
  refine ⟨h'.tenant.trans h.tenant, fun p hp => ?_, fun e he => h'.events e (h.events e he),
    fun x hx => h'.outbox x (h.outbox x hx)⟩
  obtain ⟨q, hq, hid, hl⟩ := h.projects p hp
  obtain ⟨t, ht, hid', hl'⟩ := h'.projects q hq
  exact ⟨t, ht, hid'.trans hid, hl.trans hl'⟩

theorem publish_grown {x : SyncedEvent} {cursor : Nat}
    (h : db.publish fingerprint x = .ok (cursor, db')) : db.Grown db' ∧ db'.events = db.events ∧
      ∃ o ∈ db'.outbox, o.eventId = x.eventId ∧ o.topic = "domain.events" ∧
        fingerprint o.payload = fingerprint (x.envelope db.tenantId) := by
  unfold publish at h
  dsimp only at h
  split at h
  · rename_i outbox ho
    cases h
    have hrows := (Table.insertAll_eq_some ho).1
    refine ⟨⟨rfl, fun p hp => ⟨p, hp, rfl, .refl _⟩, fun _ h => h, fun x hx => ?_⟩, rfl, ?_⟩
    · exact (Table.mem_of_rows_append hrows).mpr (.inl hx)
    · exact ⟨_, (Table.mem_of_rows_append hrows).mpr (.inr List.mem_cons_self), rfl, rfl, rfl⟩
  · rename_i ho
    split at h
    · rename_i hall
      cases h
      refine ⟨.refl _, rfl, ?_⟩
      by_contra hnone
      push Not at hnone
      obtain ⟨u, hu⟩ := Table.insertAll_isSome (t := db.outbox)
        (l := [⟨x.eventId, "domain.events", x.envelope db.tenantId⟩]) (by simp) (by simp)
        fun a ha b hb hk => by
          obtain rfl := List.mem_singleton.mp ha
          obtain ⟨htopic, hpayload⟩ := hall b hb hk
          exact hnone b hb hk htopic hpayload
      rw [hu] at ho
      cases ho
    · cases h

/-- The ledger has the event, and the outbox its envelope. -/
structure Recorded (fingerprint : Json → F) (db : SyncDatabase) (userId : String)
    (e : EventFields) (stored : SyncedEvent) : Prop where
  listed : stored ∈ db.events
  sameId : stored.eventId = e.eventId
  sameUser : stored.userId = userId
  agrees : Agrees fingerprint stored e
  published : ∃ o ∈ db.outbox, o.eventId = e.eventId ∧ o.topic = "domain.events" ∧
    fingerprint o.payload = fingerprint (SyncedEvent.envelope
      { e with cursor := stored.cursor, userId, createdAt := stored.createdAt } db.tenantId)

omit [DecidableEq F] in
theorem Recorded.grown {stored : SyncedEvent} (h : db.Recorded fingerprint userId e stored)
    (hg : db.Grown db') : db'.Recorded fingerprint userId e stored := by
  obtain ⟨o, ho, hid, htopic, hpayload⟩ := h.published
  refine ⟨hg.events _ h.listed, h.sameId, h.sameUser, h.agrees, o, hg.outbox o ho, hid, htopic, ?_⟩
  rw [hg.tenant]
  exact hpayload

/-- An event that has been appended is recorded. -/
theorem appendEventInTransaction_ok {cursor : Nat}
    (h : db.appendEventInTransaction fingerprint userId e d = .ok (cursor, db')) :
    db.Grown db' ∧ ∃ stored, db'.Recorded fingerprint userId e stored := by
  unfold appendEventInTransaction at h
  split at h
  · cases h
  dsimp only at h
  split at h
  · rename_i u hu
    obtain ⟨hg, hevents, o, ho, hid, htopic, hpayload⟩ := publish_grown h
    unfold insertEvent at hu
    split at hu
    · cases hu
    obtain ⟨events, hi, rfl⟩ := Option.map_eq_some_iff.mp hu
    have hrows := (Table.insertAll_eq_some hi).1
    have hu : db.Grown { db with events } :=
      ⟨rfl, fun p hp => ⟨p, hp, rfl, .refl _⟩,
        fun x hx => (Table.mem_of_rows_append hrows).mpr (.inl hx), fun _ h => h⟩
    refine ⟨hu.trans hg, { e with cursor := d.cursor, userId, createdAt := d.now }, ?_, rfl, rfl,
      ⟨rfl, rfl, rfl, rfl, rfl, rfl, rfl, rfl, rfl, rfl, rfl, rfl⟩, o, ho, hid, htopic, ?_⟩
    · rw [hevents]
      exact (Table.mem_of_rows_append hrows).mpr (.inr List.mem_cons_self)
    · rw [hg.tenant]
      exact hpayload
  · split at h
    · split at h
      · cases h
      · cases h
    rename_i existing hfound
    obtain ⟨hm, hid⟩ := Table.find?_eq_some.mp hfound
    split at h
    · rename_i hagree
      obtain ⟨hu, ha⟩ := mismatched_eq_nil.mp hagree
      obtain ⟨hg, hevents, o, ho, hoid, htopic, hpayload⟩ := publish_grown h
      refine ⟨hg, existing, hg.events _ hm, hid, hu, ha, o, ho, hoid, htopic, ?_⟩
      rw [hg.tenant]
      exact hpayload
    · cases h

theorem insertEvent_known {stored row : SyncedEvent} (hm : stored ∈ db.events)
    (hid : stored.eventId = row.eventId) : db.insertEvent row = none := by
  unfold insertEvent
  split
  · rfl
  · cases h : db.events.insertAll [row] with
    | none => rfl
    | some events =>
      exact absurd hid ((Table.insertAll_eq_some h).2.2.2 row List.mem_cons_self stored hm)

/-- The outbox that has the envelope of an event stays as it is. -/
theorem publish_again {x : SyncedEvent} {o : OutboxRow} (ho : o ∈ db.outbox)
    (hid : o.eventId = x.eventId) (htopic : o.topic = "domain.events")
    (hpayload : fingerprint o.payload = fingerprint (x.envelope db.tenantId)) :
    db.publish fingerprint x = .ok (x.cursor, db) := by
  unfold publish
  dsimp only
  split
  · rename_i outbox hi
    exact absurd hid ((Table.insertAll_eq_some hi).2.2.2 _ List.mem_cons_self o ho)
  · rw [if_pos]
    intro y hy hyid
    obtain rfl := Table.eq_of_key hy ho (hyid.trans hid.symm)
    exact ⟨htopic, hpayload⟩

/-- An event that is recorded can be appended again. -/
theorem Recorded.replayed {stored : SyncedEvent} (h : db.Recorded fingerprint userId e stored)
    (hs : 1 ≤ e.schemaVersion) (d : Draw) :
    db.appendEventInTransaction fingerprint userId e d = .ok (stored.cursor, db) := by
  obtain ⟨o, ho, hid, htopic, hpayload⟩ := h.published
  unfold appendEventInTransaction
  rw [if_neg (Int.not_lt.mpr hs)]
  dsimp only
  rw [insertEvent_known h.listed h.sameId, Table.find?_eq_some.mpr ⟨h.listed, h.sameId⟩]
  dsimp only
  rw [mismatched_eq_nil.mpr ⟨h.sameUser, h.agrees⟩]
  exact publish_again ho hid htopic hpayload

/-- Another event under its id cannot. -/
theorem Recorded.refused {stored : SyncedEvent} {e' : EventFields}
    (h : db.Recorded fingerprint userId e stored) (hn : ¬ Agrees fingerprint stored e')
    (hid : e'.eventId = e.eventId) (hs : 1 ≤ e'.schemaVersion) (d : Draw) :
    ∃ message, db.appendEventInTransaction fingerprint userId e' d =
      .error (.idempotencyConflict message) := by
  unfold appendEventInTransaction
  rw [if_neg (Int.not_lt.mpr hs)]
  dsimp only
  have hsame : stored.eventId = e'.eventId := h.sameId.trans hid.symm
  rw [insertEvent_known h.listed hsame, Table.find?_eq_some.mpr ⟨h.listed, hsame⟩]
  dsimp only
  split
  · rename_i hnil
    exact absurd (mismatched_eq_nil.mp hnil).2 hn
  · exact ⟨_, rfl⟩

/-- A decision that is recorded has its scope, and its event. -/
theorem recordDecision_ok {eventId : String} (hd : r.decisionEventId = some eventId)
    (h : db.recordDecision fingerprint userId r decision d = .ok db') :
    db.Grown db' ∧ ∃ scope stored, r.scope = some scope ∧ db'.Recorded fingerprint userId
      (r.decisionEvent eventId scope decision.conflict decision.revision) stored := by
  unfold recordDecision at h
  rw [hd] at h
  dsimp only at h
  split at h
  · cases h
  rename_i scope hs
  cases happend : db.appendEventInTransaction fingerprint userId
    (r.decisionEvent eventId scope decision.conflict decision.revision) d with
  | error error =>
    rw [happend] at h
    cases h
  | ok x =>
    rw [happend] at h
    cases h
    obtain ⟨hg, stored, hstored⟩ := appendEventInTransaction_ok happend
    exact ⟨hg, scope, stored, hs, hstored⟩

theorem recordDecision_grown (h : db.recordDecision fingerprint userId r decision d = .ok db') :
    db.Grown db' := by
  cases hd : r.decisionEventId with
  | some eventId => exact (recordDecision_ok hd h).1
  | none =>
    unfold recordDecision at h
    rw [hd] at h
    cases h
    exact .refl _

/-- A decision moves its project on, and the project has then answered the request. -/
theorem Decided.answers (h : db.Decided r row decision db') (hm : row ∈ db.projects)
    (hid : row.id = r.projectId) : db.Grown db' ∧ ∃ row' ∈ db'.projects, row'.id = r.projectId ∧
      row'.state.Answers r.versionId r.expectedRevision decision.conflict decision.revision := by
  cases h with
  | promoted he =>
    have hrows : (db.acceptVersion r).projects.rows = db.projects.rows.map fun p =>
        if p.id = r.projectId ∧ (p.revision : Int) = r.expectedRevision then
          { p with activeVersionId := some r.versionId, revision := p.revision + 1 } else p := rfl
    refine ⟨⟨rfl, fun p hp => ?_, fun _ h => h, fun _ h => h⟩, _,
      Table.mem_update_of hrows hm ⟨hid, he.symm⟩, hid, ?_, rfl, ?_⟩
    · by_cases hpid : p.id = r.projectId ∧ (p.revision : Int) = r.expectedRevision
      · refine ⟨_, Table.mem_update_of hrows hp hpid, rfl, Nat.le_succ _, fun hne => ?_⟩
        exact absurd hne (Nat.succ_ne_self _)
      · exact ⟨p, Table.mem_update_of_not hrows hp hpid, rfl, .refl _⟩
    · apply decide_eq_false
      intro hr
      exact hr.2 ⟨rfl, by rw [he]; rfl⟩
    · change r.expectedRevision ≠ ((row.revision + 1 : Nat) : Int)
      omega
  | replayed he hr =>
    exact ⟨.refl _, row, hm, hid, decide_eq_false fun hn => hn.2 hr, rfl, he⟩
  | retained hr =>
    exact ⟨⟨rfl, fun p hp => ⟨p, hp, rfl, .refl _⟩, fun _ h => h, fun _ h => h⟩, row, hm, hid,
      decide_eq_true hr, rfl, hr.1⟩

theorem after_grown (op : Op) : db.Grown (db.after fingerprint op) := by
  cases op with
  | registerProject projectId activeVersionId =>
    exact ⟨rfl, fun p hp => ⟨p, Table.subset_insertOrIgnore hp, rfl, .refl _⟩, fun _ h => h,
      fun _ h => h⟩
  | appendEvent userId event message draw =>
    unfold after appendEvent
    dsimp only
    split
    · exact (appendEventInTransaction_ok ‹_›).1
    · exact .refl _
  | promoteVersion c =>
    have hout := promoteVersion_outcome fingerprint db c.userId c.request c.draw
    change db.Grown (db.promoteVersion fingerprint c.userId c.request c.draw).2
    generalize db.promoteVersion fingerprint c.userId c.request c.draw = x at hout
    obtain ⟨outcome, db'⟩ := x
    dsimp only at hout ⊢
    cases hout with
    | refused hc => exact .refl _
    | decided he hm hid hd hr => exact (hd.answers hm hid).1.trans (recordDecision_grown hr)

theorem Runs.grown (h : Runs fingerprint db db') : db.Grown db' := by
  refine h.history (I := fun _ => True) Grown.refl (fun _ _ _ => Grown.trans)
    (fun _ _ _ _ _ _ => trivial) (fun u op u' _ _ hstep => ?_) trivial
  subst hstep
  exact after_grown op

theorem kind_answer : kind (answer r decision) =
    if decision.conflict then .versionConflict else .success := by
  unfold answer
  cases decision.conflict with
  | true => rfl
  | false => rfl

/-- A call that is processed leaves its project answered and its decision recorded. -/
theorem processed {c : PromoteCall} {eventId : String}
    (hd : c.request.decisionEventId = some eventId)
    (hk : kind (db.promoteVersion fingerprint c.userId c.request c.draw).1 ≠ .failure) :
    0 ≤ c.request.expectedRevision ∧ ∃ decision scope stored,
      (db.promoteVersion fingerprint c.userId c.request c.draw).1 = answer c.request decision ∧
      c.request.scope = some scope ∧
      (db.promoteVersion fingerprint c.userId c.request c.draw).2.Recorded fingerprint c.userId
        (c.request.decisionEvent eventId scope decision.conflict decision.revision) stored ∧
      ∃ row ∈ (db.promoteVersion fingerprint c.userId c.request c.draw).2.projects,
        row.id = c.request.projectId ∧ row.state.Answers c.request.versionId
          c.request.expectedRevision decision.conflict decision.revision := by
  have hout := promoteVersion_outcome fingerprint db c.userId c.request c.draw
  generalize db.promoteVersion fingerprint c.userId c.request c.draw = x at hout hk
  obtain ⟨outcome, db'⟩ := x
  dsimp only at hout hk ⊢
  cases hout with
  | refused hc =>
    exact absurd (kind_failure hc) hk
  | @decided row decision decided _ he hm hid hdec hrecord =>
    obtain ⟨_, row', hm', hid', hans⟩ := hdec.answers hm hid
    obtain ⟨_, scope, stored, hs, hstored⟩ := recordDecision_ok hd hrecord
    refine ⟨he, decision, scope, stored, rfl, hs, hstored, row', ?_, hid', hans⟩
    rw [(recordDecision_frame hrecord).1]
    exact hm'

/-- The call, sent again, comes to the same kind of outcome, appends no event, and puts
no version on record as a candidate that it has seen accepted. -/
def Repeats (fingerprint : Json → F) (first : Except SyncError ProjectRevisionState)
    (db : SyncDatabase) (c : PromoteCall) : Prop :=
  kind (db.promoteVersion fingerprint c.userId c.request c.draw).1 = kind first ∧
    (db.promoteVersion fingerprint c.userId c.request c.draw).2.events = db.events ∧
    (kind first = .success →
      ∀ k ∈ (db.promoteVersion fingerprint c.userId c.request c.draw).2.candidates,
        k.projectId = c.request.projectId → k.versionId = c.request.versionId →
          k.state = .candidate → k ∈ db.candidates)

/-- What the second call comes to, by the decision it makes. -/
theorem repeats_iff_same {c : PromoteCall} {eventId : String} {scope : DecisionScope}
    {stored : SyncedEvent} {row : ProjectRow} (hf : Separates fingerprint)
    (hd : c.request.decisionEventId = some eventId) (hs : c.request.scope = some scope)
    (he : 0 ≤ c.request.expectedRevision)
    (hrec : db.Recorded fingerprint c.userId
      (c.request.decisionEvent eventId scope decision.conflict decision.revision) stored)
    (hm : row ∈ db.projects) (hid : row.id = c.request.projectId)
    (hle : decision.revision ≤ row.revision) :
    Repeats fingerprint (answer c.request decision) db c ↔
      decide (row.state.Refuses c.request.versionId c.request.expectedRevision) =
        decision.conflict ∧
      row.state.revisionAfter c.request.expectedRevision = decision.revision := by
  obtain ⟨again, decided, hdecide, hdec⟩ := decidePromotion_total he hm hid
  obtain ⟨htenant, hevents, houtbox⟩ := hdec.ledger
  have hagain := hdec.eq
  obtain ⟨conflict, revision⟩ := again
  obtain ⟨rfl, rfl⟩ := Decision.mk.inj hagain
  have hrec' : decided.Recorded fingerprint c.userId
      (c.request.decisionEvent eventId scope decision.conflict decision.revision) stored := by
    obtain ⟨o, ho, hoid, htopic, hpayload⟩ := hrec.published
    refine ⟨hevents ▸ hrec.listed, hrec.sameId, hrec.sameUser, hrec.agrees, o, houtbox ▸ ho, hoid,
      htopic, ?_⟩
    rw [htenant]
    exact hpayload
  by_cases hsame : decide (row.state.Refuses c.request.versionId c.request.expectedRevision) =
      decision.conflict ∧ row.state.revisionAfter c.request.expectedRevision = decision.revision
  · obtain ⟨hc, hr⟩ := hsame
    have hcall : db.promoteVersion fingerprint c.userId c.request c.draw =
        (answer c.request decision, decided) := by
      unfold promoteVersion
      rw [hdecide]
      dsimp only
      unfold recordDecision
      rw [hd]
      dsimp only
      rw [hs]
      dsimp only
      rw [hc, hr, hrec'.replayed decisionEvent_schema]
      rfl
    refine iff_of_true ?_ ⟨hc, hr⟩
    unfold Repeats
    rw [hcall]
    refine ⟨rfl, hevents, fun hsuccess k hk _ _ hcand => ?_⟩
    have hfirst : decision.conflict = false := by
      rw [kind_answer] at hsuccess
      cases hcf : decision.conflict with
      | false => rfl
      | true =>
        rw [hcf] at hsuccess
        cases hsuccess
    rw [hfirst] at hc
    rw [hc, hr] at hdec
    generalize hdecision : Decision.mk false decision.revision = again at hdec
    cases hdec with
    | promoted _ =>
      have hmoved := congrArg Decision.revision hdecision
      simp only at hmoved
      omega
    | replayed _ _ => exact hk
    | retained _ => cases hdecision
  · have hne : ¬ Agrees fingerprint stored (c.request.decisionEvent eventId scope
        (decide (row.state.Refuses c.request.versionId c.request.expectedRevision))
        (row.state.revisionAfter c.request.expectedRevision)) := by
      rw [hrec.agrees.decision_iff hf]
      exact hsame
    obtain ⟨message, herror⟩ : ∃ message, decided.appendEventInTransaction fingerprint c.userId
        (c.request.decisionEvent eventId scope
          (decide (row.state.Refuses c.request.versionId c.request.expectedRevision))
          (row.state.revisionAfter c.request.expectedRevision)) c.draw =
        .error (.idempotencyConflict message) :=
      hrec'.refused hne rfl decisionEvent_schema c.draw
    have hcall : db.promoteVersion fingerprint c.userId c.request c.draw =
        (.error (.idempotencyConflict message), db) := by
      unfold promoteVersion
      rw [hdecide]
      dsimp only
      unfold recordDecision
      rw [hd]
      dsimp only
      rw [hs]
      dsimp only
      rw [herror]
      rfl
    refine iff_of_false (fun hrep => ?_) hsame
    have hkind := hrep.1
    rw [hcall, kind_answer, kind_failure rfl] at hkind
    cases hcf : decision.conflict with
    | true =>
      rw [hcf] at hkind
      cases hkind
    | false =>
      rw [hcf] at hkind
      cases hkind

/-- Sent again at any later time, a processed call repeats just when the revision of
its project has not moved since. -/
theorem promotion_repeats_iff {c : PromoteCall} {eventId : String} (hf : Separates fingerprint)
    (hd : c.request.decisionEventId = some eventId)
    (hk : kind (db.promoteVersion fingerprint c.userId c.request c.draw).1 ≠ .failure)
    (hr : Runs fingerprint (db.promoteVersion fingerprint c.userId c.request c.draw).2 db')
    (draw : Draw) :
    Repeats fingerprint (db.promoteVersion fingerprint c.userId c.request c.draw).1 db'
        { c with draw } ↔
      (db'.project c.request.projectId).revision =
        ((db.promoteVersion fingerprint c.userId c.request c.draw).2.project
          c.request.projectId).revision := by
  obtain ⟨he, decision, scope, stored, hanswer, hs, hrec, row, hm, hid, hans⟩ := processed hd hk
  have hgrown := hr.grown
  obtain ⟨row', hm', hid', hlater⟩ := hgrown.projects row hm
  have hle : decision.revision ≤ row'.revision := by
    rw [← hans.revision]
    exact hlater.revision
  rw [hanswer, repeats_iff_same (c := { c with draw }) hf hd hs he (hrec.grown hgrown) hm'
    (hid'.trans hid) hle, hans.again_iff hlater, project_of_mem hm hid,
    project_of_mem hm' (hid'.trans hid)]
  rfl

end

end SyncDatabase

end Fairy.Sync
