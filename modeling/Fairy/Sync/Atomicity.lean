import Fairy.Sync.InMemory
import Fairy.Sync.Promote

namespace Fairy.Sync

open Fairy.Lib

namespace InMemorySyncStore

/-- A call that changes the store. -/
inductive Call
  | promoteVersion (userId : String) (request : PromoteRequest) (now : Time)
  | appendEvent (userId : String) (event : EventFields) (message : Option String) (now : Time)

section

variable {F : Type} [DecidableEq F] (fingerprint : Json → F)

/-- What a call raises, if it does, and the store it leaves. -/
def perform (s : InMemorySyncStore) : Call → Option SyncError × InMemorySyncStore
  | .promoteVersion userId request now =>
    match s.promoteVersion fingerprint userId request now with
    | (.ok _, s') => (none, s')
    | (.error error, s') => (some error, s')
  | .appendEvent userId event message now =>
    match s.appendEvent fingerprint userId event message now with
    | (.ok _, s') => (none, s')
    | (.error error, s') => (some error, s')

/-- The store with the version retained as a candidate, and its manifest. -/
def retained (s : InMemorySyncStore) (userId : String) (r : PromoteRequest)
    (state : ProjectRevisionState) : InMemorySyncStore :=
  { s with
    manifests := Function.update s.manifests (userId, r.projectId, r.versionId)
      (some ((s.manifests (userId, r.projectId, r.versionId)).getD r.manifest))
    projects := Function.update s.projects (userId, r.projectId)
      (some (state.retain r.versionId)) }

/-- Nothing has changed but the retained candidate, its manifest and its decision
event. -/
def Retained (s : InMemorySyncStore) (call : Call) (s' : InMemorySyncStore) : Prop :=
  match call with
  | .promoteVersion userId r now =>
    ∃ state, s.projects (userId, r.projectId) = some state ∧
      (s' = s.retained userId r state ∨ ∃ eventId scope,
        r.decisionEventId = some eventId ∧ r.scope = some scope ∧
          s' = (s.retained userId r state).record userId
            (r.decisionEvent eventId scope true state.revision) now)
  | .appendEvent _ _ _ _ => False

/-- A call that raises has changed nothing, or what a version conflict may change. -/
def Atomic (s : InMemorySyncStore) (call : Call) : Prop :=
  match s.perform fingerprint call with
  | (none, _) => True
  | (some (.versionConflict _), s') => s.Retained call s'
  | (some _, s') => s' = s

/-- The ledger takes the event: as a replay that agrees with the one it has under
that id, or as a new one whose place in its task is free. -/
def Takes (s : InMemorySyncStore) (userId : String) (e : EventFields) : Prop :=
  match s.eventCursors (userId, e.eventId) with
  | some cursor => ∀ stored ∈ s.events[cursor - 1]?, mismatched fingerprint stored e = []
  | none => ∀ slot ∈ e.slot, s.taskSequences (userId, slot.1, slot.2) = none

/-- The decision event of a promotion, if it is asked for, has its scope and is taken
by the ledger; or the manifest is on record and the project would not change. -/
def Whole (s : InMemorySyncStore) : Call → Prop
  | .promoteVersion userId r _ =>
    ∀ state eventId, s.projects (userId, r.projectId) = some state →
      r.decisionEventId = some eventId →
      (∃ scope, r.scope = some scope ∧ s.Takes fingerprint userId
        (r.decisionEvent eventId scope (decide (state.Refuses r.versionId r.expectedRevision))
          (state.revisionAfter r.expectedRevision))) ∨
      ((s.manifests (userId, r.projectId, r.versionId)).isSome ∧
        state.Settled r.versionId r.expectedRevision)
  | .appendEvent _ _ _ _ => True

end

variable {F : Type} [DecidableEq F] {fingerprint : Json → F} {s : InMemorySyncStore}
  {userId : String}

/-- The ledger answers an event it takes, and stays as it is or records it. -/
theorem appendEventUnlocked_takes {e : EventFields} (now : Time)
    (h : s.Takes fingerprint userId e) :
    ∃ cursor s', s.appendEventUnlocked fingerprint userId e now = .ok (cursor, s') ∧
      (s' = s ∨ s' = s.record userId e now) := by
  unfold Takes at h
  unfold appendEventUnlocked
  split
  · rename_i cursor hc
    have hlisted := s.listed _ cursor hc
    rw [hc] at h
    have hnil := h (s.events.get ⟨cursor - 1, by omega⟩) (by simp)
    dsimp only
    rw [hnil]
    exact ⟨cursor, s, rfl, .inl rfl⟩
  · rename_i hc
    rw [hc] at h
    have hfree : (e.slot.bind fun slot => s.taskSequences (userId, slot.1, slot.2)) = none := by
      rw [Option.bind_eq_none_iff]
      exact h
    rw [hfree]
    exact ⟨_, _, rfl, .inr rfl⟩

/-- The ledger refuses any other event. -/
theorem appendEventUnlocked_refuses {e : EventFields} (now : Time)
    (h : ¬ s.Takes fingerprint userId e) :
    ∃ message, s.appendEventUnlocked fingerprint userId e now =
      .error (.idempotencyConflict message) := by
  unfold Takes at h
  unfold appendEventUnlocked
  split
  · rename_i cursor hc
    have hlisted := s.listed _ cursor hc
    rw [hc] at h
    dsimp only
    split
    · rename_i hnil
      refine absurd (fun stored hs => ?_) h
      rw [List.getElem?_eq_getElem (by omega)] at hs
      cases hs
      exact hnil
    · exact ⟨_, rfl⟩
  · rename_i hc
    rw [hc] at h
    split
    · exact ⟨_, rfl⟩
    · rename_i hfree
      exact absurd (Option.bind_eq_none_iff.mp hfree) h

/-- The writes before the decision event come to nothing. -/
theorem promoteProject_eq_self {r : PromoteRequest} {state : ProjectRevisionState}
    (hp : s.projects (userId, r.projectId) = some state) :
    s.promoteProject userId r state = s ↔
      (s.manifests (userId, r.projectId, r.versionId)).isSome ∧
        state.Settled r.versionId r.expectedRevision := by
  constructor
  · intro h
    have hm := congrArg manifests h
    have hs := congrArg projects h
    rw [promoteProject, Function.update_eq_self_iff] at hm hs
    rw [hp] at hs
    exact ⟨by rw [← hm]; rfl, ProjectRevisionState.promote_eq_self.mp (Option.some.inj hs)⟩
  · rintro ⟨hm, hs⟩
    obtain ⟨manifest, hm⟩ := Option.isSome_iff_exists.mp hm
    have hstate := ProjectRevisionState.promote_eq_self.mpr hs
    unfold promoteProject
    rw [hstate, hm, ← hp, Option.getD_some, ← hm, Function.update_eq_self,
      Function.update_eq_self]

theorem promoteProject_refused {r : PromoteRequest} {state : ProjectRevisionState}
    (h : state.Refuses r.versionId r.expectedRevision) :
    s.promoteProject userId r state = s.retained userId r state := by
  unfold promoteProject retained
  rw [ProjectRevisionState.promote_refuses h]

theorem atomic_append (e : EventFields) (message : Option String) (now : Time) :
    s.Atomic fingerprint (.appendEvent userId e message now) := by
  unfold Atomic perform appendEvent
  dsimp only
  by_cases h : s.Takes fingerprint userId
      { e with message := (message.filter (· ≠ "")).getD e.eventType }
  · obtain ⟨_, _, hok, _⟩ := appendEventUnlocked_takes now h
    rw [hok]
    trivial
  · obtain ⟨_, herror⟩ := appendEventUnlocked_refuses now h
    rw [herror]

section

variable {r : PromoteRequest} {state : ProjectRevisionState} {now : Time} {eventId : String}
  {scope : DecisionScope}

theorem promoteVersion_silent (hp : s.projects (userId, r.projectId) = some state)
    (hd : r.decisionEventId = none) :
    s.promoteVersion fingerprint userId r now =
      ((state.promote r.versionId r.expectedRevision).1.map
        fun _ => (state.promote r.versionId r.expectedRevision).2,
        s.promoteProject userId r state) := by
  unfold promoteVersion
  rw [hp]
  dsimp only
  rw [hd]

theorem promoteVersion_unscoped (hp : s.projects (userId, r.projectId) = some state)
    (hd : r.decisionEventId = some eventId) (hs : r.scope = none) :
    s.promoteVersion fingerprint userId r now =
      (.error (.valueError "version decision event requires complete scope"),
        s.promoteProject userId r state) := by
  unfold promoteVersion
  rw [hp]
  dsimp only
  rw [hd]
  dsimp only
  rw [hs]

/-- The event that goes with the decision on a request. -/
def decision (r : PromoteRequest) (state : ProjectRevisionState) (eventId : String)
    (scope : DecisionScope) : EventFields :=
  r.decisionEvent eventId scope (decide (state.Refuses r.versionId r.expectedRevision))
    (state.revisionAfter r.expectedRevision)

theorem promoteVersion_scoped (hp : s.projects (userId, r.projectId) = some state)
    (hd : r.decisionEventId = some eventId) (hs : r.scope = some scope) :
    s.promoteVersion fingerprint userId r now =
      match (s.promoteProject userId r state).appendEventUnlocked fingerprint userId
        (decision r state eventId scope) now with
      | .error error => (.error error, s.promoteProject userId r state)
      | .ok (_, s') => ((state.promote r.versionId r.expectedRevision).1.map
        fun _ => (state.promote r.versionId r.expectedRevision).2, s') := by
  have hconflict : caught (state.promote r.versionId r.expectedRevision).1 =
      decide (state.Refuses r.versionId r.expectedRevision) := by
    by_cases h : state.Refuses r.versionId r.expectedRevision
    · rw [ProjectRevisionState.promote_refuses h, decide_eq_true h]
      rfl
    · rw [ProjectRevisionState.promote_accepts h, decide_eq_false h]
      rfl
  have hrevision : (state.promote r.versionId r.expectedRevision).2.revision =
      state.revisionAfter r.expectedRevision := ProjectRevisionState.promote_revision
  unfold promoteVersion decision
  rw [hp]
  dsimp only
  rw [hd]
  dsimp only
  rw [hs]
  dsimp only
  rw [hconflict]
  exact hrevision ▸ rfl

/-- Without a decision event a promotion raises nothing but a version conflict. -/
theorem atomic_silent (hp : s.projects (userId, r.projectId) = some state)
    (hd : r.decisionEventId = none) : s.Atomic fingerprint (.promoteVersion userId r now) := by
  unfold Atomic perform
  dsimp only
  rw [promoteVersion_silent hp hd]
  by_cases h : state.Refuses r.versionId r.expectedRevision
  · rw [ProjectRevisionState.promote_refuses h]
    exact ⟨state, hp, .inl (promoteProject_refused h)⟩
  · rw [ProjectRevisionState.promote_accepts h]
    trivial

/-- A promotion whose decision event is taken raises nothing but a version conflict. -/
theorem atomic_taken (hp : s.projects (userId, r.projectId) = some state)
    (hd : r.decisionEventId = some eventId) (hs : r.scope = some scope)
    (ht : s.Takes fingerprint userId (decision r state eventId scope)) :
    s.Atomic fingerprint (.promoteVersion userId r now) := by
  have ht' : (s.promoteProject userId r state).Takes fingerprint userId
    (decision r state eventId scope) := ht
  obtain ⟨cursor, s', hok, hs'⟩ := appendEventUnlocked_takes now ht'
  unfold Atomic perform
  dsimp only
  rw [promoteVersion_scoped hp hd hs, hok]
  dsimp only
  by_cases h : state.Refuses r.versionId r.expectedRevision
  · rw [ProjectRevisionState.promote_refuses h]
    rw [promoteProject_refused h] at hs'
    obtain hs' | hs' := hs'
    · exact ⟨state, hp, .inl hs'⟩
    · refine ⟨state, hp, .inr ⟨eventId, scope, hd, hs, ?_⟩⟩
      rw [hs', decision, decide_eq_true h, ProjectRevisionState.revisionAfter, if_neg h.1]
  · rw [ProjectRevisionState.promote_accepts h]
    trivial

/-- A promotion without the scope of its decision event is as atomic as its writes
are void. -/
theorem atomic_unscoped (hp : s.projects (userId, r.projectId) = some state)
    (hd : r.decisionEventId = some eventId) (hs : r.scope = none) :
    s.Atomic fingerprint (.promoteVersion userId r now) ↔ s.promoteProject userId r state = s := by
  unfold Atomic perform
  dsimp only
  rw [promoteVersion_unscoped hp hd hs]

/-- A promotion whose decision event is refused is as atomic as its writes are void. -/
theorem atomic_refused (hp : s.projects (userId, r.projectId) = some state)
    (hd : r.decisionEventId = some eventId) (hs : r.scope = some scope)
    (ht : ¬ s.Takes fingerprint userId (decision r state eventId scope)) :
    s.Atomic fingerprint (.promoteVersion userId r now) ↔ s.promoteProject userId r state = s := by
  have ht' : ¬ (s.promoteProject userId r state).Takes fingerprint userId
    (decision r state eventId scope) := ht
  obtain ⟨message, herror⟩ := appendEventUnlocked_refuses now ht'
  unfold Atomic perform
  dsimp only
  rw [promoteVersion_scoped hp hd hs, herror]

end

end InMemorySyncStore

open InMemorySyncStore

/-- A call that raises leaves the store as it found it, a retained candidate apart,
just when the decision event it asks for is taken or its other writes are void. -/
theorem atomic_iff {F : Type} [DecidableEq F] (fingerprint : Json → F) (s : InMemorySyncStore)
    (call : InMemorySyncStore.Call) : s.Atomic fingerprint call ↔ s.Whole fingerprint call := by
  cases call with
  | appendEvent userId e message now =>
    exact ⟨fun _ => trivial, fun _ => atomic_append e message now⟩
  | promoteVersion userId r now =>
    unfold Whole
    dsimp only
    cases hp : s.projects (userId, r.projectId) with
    | none =>
      refine ⟨fun _ => nofun, fun _ => ?_⟩
      unfold Atomic perform promoteVersion
      dsimp only
      rw [hp]
    | some state =>
      cases hd : r.decisionEventId with
      | none => exact ⟨fun _ => nofun, fun _ => atomic_silent hp hd⟩
      | some eventId =>
        constructor
        · rintro h _ _ ⟨⟩ ⟨⟩
          cases hs : r.scope with
          | none =>
            rw [atomic_unscoped hp hd hs, promoteProject_eq_self hp] at h
            exact .inr h
          | some scope =>
            by_cases ht : s.Takes fingerprint userId (decision r state eventId scope)
            · exact .inl ⟨scope, rfl, ht⟩
            · rw [atomic_refused hp hd hs ht, promoteProject_eq_self hp] at h
              exact .inr h
        · intro h
          obtain ⟨scope, hs, ht⟩ | hvoid := h state eventId rfl rfl
          · exact atomic_taken hp hd hs ht
          · cases hs : r.scope with
            | none =>
              rw [atomic_unscoped hp hd hs, promoteProject_eq_self hp]
              exact hvoid
            | some scope =>
              by_cases ht : s.Takes fingerprint userId (decision r state eventId scope)
              · exact atomic_taken hp hd hs ht
              · rw [atomic_refused hp hd hs ht, promoteProject_eq_self hp]
                exact hvoid

/-- A promotion that is asked for a decision event without its task. -/
def unscopedRequest : PromoteRequest where
  projectId := "project"
  versionId := "version"
  expectedRevision := 0
  manifest := []
  decisionEventId := some "event"
  deviceId := some "device"
  conversationId := some "conversation"
  taskId := none
  taskSequence := some 1

/-- The call raises, and the version is the active one all the same. -/
theorem promotion_not_atomic :
    let s := (InMemorySyncStore.empty.registerProject "user" "project" none).2
    let call := InMemorySyncStore.Call.promoteVersion "user" unscopedRequest 0
    ¬ s.Atomic id call ∧
      (s.perform id call).1 = some (.valueError "version decision event requires complete scope") ∧
      ((s.perform id call).2.projects ("user", "project")).map (·.activeVersionId) =
        some (some "version") := by
  refine ⟨fun h => ?_, rfl, rfl⟩
  have hsame := congrArg (fun t => (t.projects ("user", "project")).map (·.revision)) h
  exact absurd hsame (by decide)

end Fairy.Sync
