import Fairy.Sync.Atomicity
import Fairy.Sync.Promotions
import Fairy.Sync.Replays

namespace Fairy.Sync

open Fairy.Lib

namespace InMemorySyncStore

/-- A call that writes to the store. -/
inductive Op
  | registerProject (userId projectId : String) (activeVersionId : Option String)
  | perform (call : Call)

section

variable {F : Type} [DecidableEq F] (fingerprint : Json → F)

def after (s : InMemorySyncStore) : Op → InMemorySyncStore
  | .registerProject userId projectId activeVersionId =>
    (s.registerProject userId projectId activeVersionId).2
  | .perform call => (s.perform fingerprint call).2

/-- Any calls, one after the other. -/
abbrev Runs : InMemorySyncStore → InMemorySyncStore → Prop :=
  Run (fun s op s' => s' = s.after fingerprint op) fun _ _ => True

end

/-- What no call takes back. -/
structure Grown (s s' : InMemorySyncStore) : Prop where
  projects : ∀ key state, s.projects key = some state →
    ∃ state', s'.projects key = some state' ∧ state.Later state'
  events : ∀ (i : Nat) stored, s.events[i]? = some stored → s'.events[i]? = some stored
  cursors : ∀ key cursor, s.eventCursors key = some cursor → s'.eventCursors key = some cursor

section

variable {F : Type} [DecidableEq F] {fingerprint : Json → F} {s s' s'' : InMemorySyncStore}
  {userId : String} {e : EventFields} {now : Time} {r : PromoteRequest}
  {state : ProjectRevisionState} {eventId : String} {scope : DecisionScope}

theorem Grown.refl (s : InMemorySyncStore) : s.Grown s :=
  ⟨fun _ state h => ⟨state, h, .refl _⟩, fun _ _ h => h, fun _ _ h => h⟩

theorem Grown.trans (h : s.Grown s') (h' : s'.Grown s'') : s.Grown s'' := by
  refine ⟨fun key state hs => ?_, fun i stored he => h'.events i stored (h.events i stored he),
    fun key cursor hc => h'.cursors key cursor (h.cursors key cursor hc)⟩
  obtain ⟨t, ht, hl⟩ := h.projects key state hs
  obtain ⟨u, hu, hl'⟩ := h'.projects key t ht
  exact ⟨u, hu, hl.trans hl'⟩

theorem record_grown (h : s.eventCursors (userId, e.eventId) = none) :
    s.Grown (s.record userId e now) := by
  refine ⟨fun _ state hs => ⟨state, hs, .refl _⟩, fun i stored he => ?_, fun key cursor hc => ?_⟩
  · exact List.getElem?_append_left (List.getElem?_eq_some_iff.mp he).1 ▸ he
  · have hne : key ≠ (userId, e.eventId) := by
      rintro rfl
      rw [h] at hc
      cases hc
    exact (Function.update_of_ne hne _ _).trans hc

theorem promoteProject_grown (hp : s.projects (userId, r.projectId) = some state) :
    s.Grown (s.promoteProject userId r state) := by
  refine ⟨fun key t ht => ?_, fun _ _ h => h, fun _ _ h => h⟩
  by_cases hk : key = (userId, r.projectId)
  · subst hk
    rw [hp] at ht
    cases ht
    exact ⟨_, Function.update_self _ _ _, ProjectRevisionState.promote_later⟩
  · exact ⟨t, (Function.update_of_ne hk _ _).trans ht, .refl _⟩

/-- The ledger has the event under its id. -/
def Recorded (fingerprint : Json → F) (s : InMemorySyncStore) (userId : String) (e : EventFields)
    (stored : SyncedEvent) : Prop :=
  ∃ cursor, s.eventCursors (userId, e.eventId) = some cursor ∧
    s.events[cursor - 1]? = some stored ∧ Agrees fingerprint stored e

omit [DecidableEq F] in
theorem Recorded.grown {stored : SyncedEvent} (h : s.Recorded fingerprint userId e stored)
    (hg : s.Grown s') : s'.Recorded fingerprint userId e stored := by
  obtain ⟨cursor, hc, he, ha⟩ := h
  exact ⟨cursor, hg.cursors _ _ hc, hg.events _ _ he, ha⟩

/-- The ledger answers an event whose id it knows by the event it has. -/
theorem Recorded.answered {stored : SyncedEvent} (now : Time) (e' : EventFields)
    (h : s.Recorded fingerprint userId e stored) (hid : e'.eventId = e.eventId) :
    (Agrees fingerprint stored e' →
      ∃ cursor, s.appendEventUnlocked fingerprint userId e' now = .ok (cursor, s)) ∧
    (¬ Agrees fingerprint stored e' → ∃ message,
      s.appendEventUnlocked fingerprint userId e' now = .error (.idempotencyConflict message)) := by
  obtain ⟨cursor, hc, he, _⟩ := h
  rw [← hid] at hc
  unfold appendEventUnlocked
  split
  · rename_i cursor' hc'
    rw [hc] at hc'
    cases hc'
    have hlisted := s.listed _ cursor hc
    have hget : s.events.get ⟨cursor - 1, by omega⟩ = stored := by
      rw [List.getElem?_eq_getElem (by omega)] at he
      exact Option.some.inj he
    dsimp only
    rw [hget]
    constructor
    · intro ha
      rw [mismatched_eq_nil.mpr ha]
      exact ⟨cursor, rfl⟩
    · intro hn
      split
      · rename_i hnil
        exact absurd (mismatched_eq_nil.mp hnil) hn
      · exact ⟨_, rfl⟩
  · rename_i hnone
    rw [hc] at hnone
    cases hnone

/-- An event that has been appended is recorded. -/
theorem appendEventUnlocked_ok {cursor : Nat}
    (h : s.appendEventUnlocked fingerprint userId e now = .ok (cursor, s')) :
    s.Grown s' ∧ s'.projects = s.projects ∧ ∃ stored, s'.Recorded fingerprint userId e stored := by
  unfold appendEventUnlocked at h
  split at h
  · rename_i known hc
    have hlisted := s.listed _ known hc
    dsimp only at h
    split at h
    · rename_i hnil
      cases h
      exact ⟨.refl _, rfl, _, _, hc, List.getElem?_eq_getElem (by omega),
        mismatched_eq_nil.mp hnil⟩
    · cases h
  · rename_i hc
    split at h
    · cases h
    · cases h
      refine ⟨record_grown hc, rfl,
        { e with cursor := s.events.length + 1, userId, createdAt := now }, s.events.length + 1,
        Function.update_self _ _ _, ?_,
        ⟨rfl, rfl, rfl, rfl, rfl, rfl, rfl, rfl, rfl, rfl, rfl, rfl⟩⟩
      exact List.getElem?_concat_length

/-- A promotion leaves what no call takes back, whether or not it raises. -/
theorem promoteVersion_grown (fingerprint : Json → F) (s : InMemorySyncStore) (userId : String)
    (r : PromoteRequest) (now : Time) :
    s.Grown (s.promoteVersion fingerprint userId r now).2 := by
  cases hp : s.projects (userId, r.projectId) with
  | none =>
    unfold promoteVersion
    rw [hp]
    exact .refl _
  | some state =>
    have hg := promoteProject_grown hp
    cases hd : r.decisionEventId with
    | none =>
      rw [promoteVersion_silent hp hd]
      exact hg
    | some eventId =>
      cases hs : r.scope with
      | none =>
        rw [promoteVersion_unscoped hp hd hs]
        exact hg
      | some scope =>
        rw [promoteVersion_scoped hp hd hs]
        split
        · exact hg
        · exact hg.trans (appendEventUnlocked_ok ‹_›).1

theorem after_grown (op : Op) : s.Grown (s.after fingerprint op) := by
  cases op with
  | registerProject userId projectId activeVersionId =>
    change s.Grown (s.registerProject userId projectId activeVersionId).2
    unfold registerProject
    split
    · exact .refl _
    · rename_i hnone
      refine ⟨fun key state h => ⟨state, ?_, .refl _⟩, fun _ _ h => h, fun _ _ h => h⟩
      have hne : key ≠ (userId, projectId) := by
        rintro rfl
        rw [hnone] at h
        cases h
      exact (Function.update_of_ne hne _ _).trans h
  | perform call =>
    change s.Grown (s.perform fingerprint call).2
    cases call with
    | promoteVersion userId request now =>
      have hg := promoteVersion_grown fingerprint s userId request now
      unfold perform
      dsimp only
      generalize s.promoteVersion fingerprint userId request now = x at hg
      obtain ⟨outcome, s'⟩ := x
      cases outcome with
      | ok _ => exact hg
      | error _ => exact hg
    | appendEvent userId event message now =>
      unfold perform appendEvent
      dsimp only
      cases h : s.appendEventUnlocked fingerprint userId
        { event with message := (message.filter (· ≠ "")).getD event.eventType } now with
      | error _ => exact .refl _
      | ok x =>
        obtain ⟨cursor, s'⟩ := x
        exact (appendEventUnlocked_ok h).1

theorem Runs.grown (h : Runs fingerprint s s') : s.Grown s' := by
  refine h.history (I := fun _ => True) Grown.refl (fun _ _ _ => Grown.trans)
    (fun _ _ _ _ _ _ => trivial) (fun u op u' _ _ hstep => ?_) trivial
  subst hstep
  exact after_grown op

/-- The kind of what `promote` comes to. -/
theorem kind_promote {versionId : String} {expectedRevision : Int} {α : Type} {f : Unit → α} :
    kind ((state.promote versionId expectedRevision).1.map f) =
      if state.Refuses versionId expectedRevision then .versionConflict else .success := by
  by_cases h : state.Refuses versionId expectedRevision
  · rw [ProjectRevisionState.promote_refuses h, if_pos h]
    rfl
  · rw [ProjectRevisionState.promote_accepts h, if_neg h]
    rfl

/-- A call that is processed leaves its project answered and its decision recorded. -/
theorem processed (hd : r.decisionEventId = some eventId)
    (hk : kind (s.promoteVersion fingerprint userId r now).1 ≠ .failure) :
    ∃ conflict revision scope stored state, r.scope = some scope ∧
      kind (s.promoteVersion fingerprint userId r now).1 =
        (if conflict then Kind.versionConflict else .success) ∧
      (s.promoteVersion fingerprint userId r now).2.Recorded fingerprint userId
        (r.decisionEvent eventId scope conflict revision) stored ∧
      (s.promoteVersion fingerprint userId r now).2.projects (userId, r.projectId) = some state ∧
      state.Answers r.versionId r.expectedRevision conflict revision := by
  cases hp : s.projects (userId, r.projectId) with
  | none =>
    unfold promoteVersion at hk
    rw [hp] at hk
    exact absurd rfl hk
  | some state =>
    cases hs : r.scope with
    | none =>
      rw [promoteVersion_unscoped hp hd hs] at hk
      exact absurd rfl hk
    | some scope =>
      rw [promoteVersion_scoped hp hd hs] at hk ⊢
      cases happend : (s.promoteProject userId r state).appendEventUnlocked fingerprint userId
        (decision r state eventId scope) now with
      | error error =>
        rw [happend] at hk
        by_cases ht : s.Takes fingerprint userId (decision r state eventId scope)
        · obtain ⟨_, _, hok, _⟩ :=
            appendEventUnlocked_takes (s := s.promoteProject userId r state) now ht
          rw [hok] at happend
          cases happend
        · obtain ⟨_, herror⟩ := appendEventUnlocked_refuses
            (s := s.promoteProject userId r state) now ht
          rw [herror] at happend
          cases happend
          exact absurd rfl hk
      | ok x =>
        obtain ⟨cursor, s'⟩ := x
        obtain ⟨_, hprojects, stored, hstored⟩ := appendEventUnlocked_ok happend
        refine ⟨_, _, scope, stored, _, rfl, ?_, hstored, ?_,
          ProjectRevisionState.promote_answers⟩
        · rw [kind_promote]
          by_cases h : state.Refuses r.versionId r.expectedRevision
          · rw [if_pos h, if_pos (decide_eq_true h)]
          · rw [if_neg h, if_neg (by simpa using h)]
        · change s'.projects _ = _
          rw [hprojects]
          exact Function.update_self _ _ _

/-- The call, sent again, comes to the same kind of outcome, appends no event, and puts
no version on record as a candidate that it has seen accepted. -/
def Repeats (fingerprint : Json → F) (first : Kind) (s : InMemorySyncStore) (userId : String)
    (r : PromoteRequest) (now : Time) : Prop :=
  kind (s.promoteVersion fingerprint userId r now).1 = first ∧
    (s.promoteVersion fingerprint userId r now).2.events = s.events ∧
    (first = .success → ∀ state state', s.projects (userId, r.projectId) = some state →
      (s.promoteVersion fingerprint userId r now).2.projects (userId, r.projectId) = some state' →
        r.versionId ∈ state'.candidateVersionIds → r.versionId ∈ state.candidateVersionIds)

/-- What the second call comes to, by the decision it makes. -/
theorem repeats_iff_same {conflict : Bool} {revision : Nat} {stored : SyncedEvent}
    (hf : Separates fingerprint) (hd : r.decisionEventId = some eventId)
    (hs : r.scope = some scope) (hrec : s.Recorded fingerprint userId
      (r.decisionEvent eventId scope conflict revision) stored)
    (hp : s.projects (userId, r.projectId) = some state) (hle : revision ≤ state.revision) :
    Repeats fingerprint (if conflict then Kind.versionConflict else .success) s userId r now ↔
      decide (state.Refuses r.versionId r.expectedRevision) = conflict ∧
        state.revisionAfter r.expectedRevision = revision := by
  have hrec' : (s.promoteProject userId r state).Recorded fingerprint userId
    (r.decisionEvent eventId scope conflict revision) stored := hrec
  obtain ⟨_, _, _, hagrees⟩ := hrec
  have hagree : Agrees fingerprint stored (decision r state eventId scope) ↔ _ :=
    hagrees.decision_iff hf
  by_cases hsame : decide (state.Refuses r.versionId r.expectedRevision) = conflict ∧
      state.revisionAfter r.expectedRevision = revision
  · refine iff_of_true ?_ hsame
    obtain ⟨hc, hr⟩ := hsame
    obtain ⟨cursor, hok⟩ :=
      (hrec'.answered now (decision r state eventId scope) rfl).1 (hagree.mpr ⟨hc, hr⟩)
    have hkind : (if state.Refuses r.versionId r.expectedRevision then Kind.versionConflict
        else .success) = if conflict then Kind.versionConflict else .success := by
      rw [← hc]
      by_cases h : state.Refuses r.versionId r.expectedRevision
      · rw [if_pos h, if_pos (decide_eq_true h)]
      · rw [if_neg h, if_neg (by simpa using h)]
    unfold Repeats
    rw [promoteVersion_scoped hp hd hs, hok]
    refine ⟨by rw [kind_promote, hkind], rfl, fun hsuccess t t' ht ht' hcand => ?_⟩
    rw [hp] at ht
    cases ht
    have ht'' := (Function.update_self _ _ _).symm.trans ht'
    cases ht''
    have hnot : ¬ state.Refuses r.versionId r.expectedRevision := by
      intro h
      rw [← hkind, if_pos h] at hsuccess
      cases hsuccess
    have hne : r.expectedRevision ≠ state.revision := by
      intro he
      rw [ProjectRevisionState.revisionAfter, if_pos he] at hr
      omega
    have hreplay : state.Replays r.versionId r.expectedRevision := not_not.mp fun h => hnot ⟨hne, h⟩
    rwa [ProjectRevisionState.promote_eq_self.mpr ⟨hne, .inl hreplay⟩] at hcand
  · refine iff_of_false (fun hrep => ?_) hsame
    obtain ⟨message, herror⟩ := (hrec'.answered now (decision r state eventId scope) rfl).2
      fun h => hsame (hagree.mp h)
    have hkind := hrep.1
    rw [promoteVersion_scoped hp hd hs, herror] at hkind
    cases conflict with
    | true => cases hkind
    | false => cases hkind

/-- Sent again at any later time, a processed call repeats just when the revision of
its project has not moved since. -/
theorem promotion_repeats_iff (hf : Separates fingerprint)
    (hd : r.decisionEventId = some eventId)
    (hk : kind (s.promoteVersion fingerprint userId r now).1 ≠ .failure)
    (hr : Runs fingerprint (s.promoteVersion fingerprint userId r now).2 s') (later : Time) :
    Repeats fingerprint (kind (s.promoteVersion fingerprint userId r now).1) s' userId r later ↔
      (s'.projects (userId, r.projectId)).map (·.revision) =
        ((s.promoteVersion fingerprint userId r now).2.projects (userId, r.projectId)).map
          (·.revision) := by
  obtain ⟨conflict, revision, scope, stored, state, hs, hkind, hrec, hp, hans⟩ := processed hd hk
  have hgrown := hr.grown
  obtain ⟨state', hp', hlater⟩ := hgrown.projects _ state hp
  have hle : revision ≤ state'.revision := by
    rw [← hans.revision]
    exact hlater.revision
  rw [hkind, repeats_iff_same hf hd hs (hrec.grown hgrown) hp' hle, hans.again_iff hlater, hp, hp']
  simp

end

end InMemorySyncStore

/-- Sent again at any later time, to either adapter, a processed promotion with a
decision event comes to the same just when the revision of its project has not moved. -/
theorem promotions_idempotent_iff {F : Type} [DecidableEq F] (fingerprint : Json → F)
    (hf : Separates fingerprint) :
    (∀ (db db' : SyncDatabase) (c : PromoteCall) (draw : Draw), c.request.decisionEventId ≠ none →
      kind (db.promoteVersion fingerprint c.userId c.request c.draw).1 ≠ .failure →
      SyncDatabase.Runs fingerprint
        (db.promoteVersion fingerprint c.userId c.request c.draw).2 db' →
      (SyncDatabase.Repeats fingerprint
          (db.promoteVersion fingerprint c.userId c.request c.draw).1 db' { c with draw } ↔
        (db'.project c.request.projectId).revision =
          ((db.promoteVersion fingerprint c.userId c.request c.draw).2.project
            c.request.projectId).revision)) ∧
    ∀ (s s' : InMemorySyncStore) (userId : String) (r : PromoteRequest) (now later : Time),
      r.decisionEventId ≠ none →
      kind (s.promoteVersion fingerprint userId r now).1 ≠ .failure →
      InMemorySyncStore.Runs fingerprint (s.promoteVersion fingerprint userId r now).2 s' →
      (InMemorySyncStore.Repeats fingerprint
          (kind (s.promoteVersion fingerprint userId r now).1) s' userId r later ↔
        (s'.projects (userId, r.projectId)).map (·.revision) =
          ((s.promoteVersion fingerprint userId r now).2.projects (userId, r.projectId)).map
            (·.revision)) := by
  refine ⟨fun db db' c draw hd hk hr => ?_, fun s s' userId r now later hd hk hr => ?_⟩
  · obtain ⟨eventId, hd⟩ := Option.ne_none_iff_exists'.mp hd
    exact SyncDatabase.promotion_repeats_iff hf hd hk hr draw
  · obtain ⟨eventId, hd⟩ := Option.ne_none_iff_exists'.mp hd
    exact InMemorySyncStore.promotion_repeats_iff hf hd hk hr later

theorem separates_id : Separates id := by
  rintro p q rfl path
  rfl

def registered : SyncDatabase := (SyncDatabase.empty "tenant").registerProject "project" none

theorem promotions_idempotent_retried :
    SyncDatabase.Repeats id (.ok ⟨"project", 1, some "a", []⟩)
      (registered.promoteVersion id "user" (deviceCall "a" "1" 1 0).request ⟨1, 0⟩).2
      { deviceCall "a" "1" 1 0 with draw := ⟨2, 5⟩ } :=
  ((promotions_idempotent_iff id separates_id).1 registered _ (deviceCall "a" "1" 1 0) ⟨2, 5⟩
    (by decide) (by decide) .refl).mpr rfl

/-- A promotion that was accepted, sent again after another device's, is answered with
an idempotency conflict; in memory its version becomes a candidate besides. -/
theorem promotion_not_idempotent :
    let db := (registered.promoteVersion id "user" (deviceCall "a" "1" 1 0).request ⟨1, 0⟩).2
    let db' := (db.promoteVersion id "user" (deviceCall "b" "2" 2 1).request ⟨2, 0⟩).2
    let s := ((InMemorySyncStore.empty.registerProject "user" "project" none).2.promoteVersion id
      "user" (deviceCall "a" "1" 1 0).request 0).2
    let s' := (s.promoteVersion id "user" (deviceCall "b" "2" 2 1).request 0).2
    (registered.promoteVersion id "user" (deviceCall "a" "1" 1 0).request ⟨1, 0⟩).1 =
        .ok ⟨"project", 1, some "a", []⟩ ∧
      SyncDatabase.Runs id db db' ∧
      ¬ SyncDatabase.Repeats id (.ok ⟨"project", 1, some "a", []⟩) db' (deviceCall "a" "1" 1 0) ∧
      InMemorySyncStore.Runs id s s' ∧
      ((s'.promoteVersion id "user" (deviceCall "a" "1" 1 0).request 0).2.projects
        ("user", "project")).map (·.candidateVersionIds) = some ["a"] := by
  refine ⟨rfl, ?_, fun h => ?_, ?_, rfl⟩
  · exact Run.single (i := SyncDatabase.Op.promoteVersion
      { deviceCall "b" "2" 2 1 with draw := ⟨2, 0⟩ }) trivial rfl
  · exact absurd h.1 (by decide)
  · exact Run.single (i := InMemorySyncStore.Op.perform
      (.promoteVersion "user" (deviceCall "b" "2" 2 1).request 0)) trivial rfl

end Fairy.Sync
