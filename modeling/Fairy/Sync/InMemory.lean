import Mathlib.Logic.Function.Basic
import Fairy.Sync.Models

namespace Fairy.Sync

open Fairy.Lib

/-- `InMemorySyncStore`; a dict is the function it stands for. The ids of the event
streams are left out. -/
structure InMemorySyncStore where
  projects : String × String → Option ProjectRevisionState
  events : List SyncedEvent
  eventCursors : String × String → Option Nat
  taskSequences : String × String × Int → Option String
  manifests : String × String × String → Option (List (String × Json))
  listed : ∀ key cursor, eventCursors key = some cursor → 0 < cursor ∧ cursor ≤ events.length

namespace InMemorySyncStore

def empty : InMemorySyncStore :=
  ⟨fun _ => none, [], fun _ => none, fun _ => none, fun _ => none, nofun⟩

def registerProject (s : InMemorySyncStore) (userId projectId : String)
    (activeVersionId : Option String) : ProjectRevisionState × InMemorySyncStore :=
  match s.projects (userId, projectId) with
  | some existing => (existing, s)
  | none =>
    let state := { projectId, revision := 0, activeVersionId, candidateVersionIds := [] }
    (state, { s with projects := Function.update s.projects (userId, projectId) (some state) })

section

variable {F : Type} [DecidableEq F] (fingerprint : Json → F)

/-- The fields in which a replay differs from the event it repeats. -/
def mismatched (stored : SyncedEvent) (e : EventFields) : List String :=
  changed [("run_id", stored.runId ≠ e.runId), ("device_id", stored.deviceId ≠ e.deviceId),
    ("project_id", stored.projectId ≠ e.projectId),
    ("conversation_id", stored.conversationId ≠ e.conversationId),
    ("task_id", stored.taskId ≠ e.taskId), ("version_id", stored.versionId ≠ e.versionId),
    ("task_sequence", stored.taskSequence ≠ e.taskSequence),
    ("schema_version", stored.schemaVersion ≠ e.schemaVersion),
    ("event_type", stored.eventType ≠ e.eventType),
    ("visibility", stored.visibility ≠ e.visibility), ("message", stored.message ≠ e.message),
    ("payload", fingerprint stored.payload ≠ fingerprint e.payload)]

/-- The end of `_append_event_unlocked`. -/
def record (s : InMemorySyncStore) (userId : String) (e : EventFields) (now : Time) :
    InMemorySyncStore where
  projects := s.projects
  events := s.events ++ [{ e with cursor := s.events.length + 1, userId, createdAt := now }]
  eventCursors := Function.update s.eventCursors (userId, e.eventId) (some (s.events.length + 1))
  taskSequences :=
    match e.slot with
    | some (task, sequence) =>
      Function.update s.taskSequences (userId, task, sequence) (some e.eventId)
    | none => s.taskSequences
  manifests := s.manifests
  listed key cursor h := by
    rw [List.length_append, List.length_singleton]
    by_cases hk : key = (userId, e.eventId)
    · rw [hk, Function.update_self] at h
      cases h
      omega
    · rw [Function.update_of_ne hk] at h
      have := s.listed key cursor h
      omega

/-- `_append_event_unlocked`. -/
def appendEventUnlocked (s : InMemorySyncStore) (userId : String) (e : EventFields) (now : Time) :
    Except SyncError (Nat × InMemorySyncStore) :=
  match h : s.eventCursors (userId, e.eventId) with
  | some cursor =>
    have hc := s.listed _ cursor h
    match mismatched fingerprint (s.events.get ⟨cursor - 1, by omega⟩) e with
    | [] => .ok (cursor, s)
    | fields => .error (.idempotencyConflict
        ("event replay changed immutable fields: " ++ String.intercalate ", " fields))
  | none =>
    match e.slot.bind fun slot => s.taskSequences (userId, slot.1, slot.2) with
    | some owner => .error (.idempotencyConflict
        ("task sequence " ++ toString (e.taskSequence.getD 0) ++ " is already owned by event " ++
          owner))
    | none => .ok (s.events.length + 1, s.record userId e now)

/-- `append_event`. -/
def appendEvent (s : InMemorySyncStore) (userId : String) (e : EventFields)
    (message : Option String) (now : Time) : Except SyncError Nat × InMemorySyncStore :=
  let e := { e with message := (message.filter (· ≠ "")).getD e.eventType }
  match s.appendEventUnlocked fingerprint userId e now with
  | .ok (cursor, s') => (.ok cursor, s')
  | .error error => (.error error, s)

/-- What `promote_version` writes before it turns to the decision event. -/
def promoteProject (s : InMemorySyncStore) (userId : String) (r : PromoteRequest)
    (state : ProjectRevisionState) : InMemorySyncStore :=
  { s with
    manifests := Function.update s.manifests (userId, r.projectId, r.versionId)
      (some ((s.manifests (userId, r.projectId, r.versionId)).getD r.manifest))
    projects := Function.update s.projects (userId, r.projectId)
      (some (state.promote r.versionId r.expectedRevision).2) }

def promoteVersion (s : InMemorySyncStore) (userId : String) (r : PromoteRequest) (now : Time) :
    Except SyncError ProjectRevisionState × InMemorySyncStore :=
  match s.projects (userId, r.projectId) with
  | none => (.error (.keyError r.projectId), s)
  | some state =>
    let (outcome, state') := state.promote r.versionId r.expectedRevision
    let s := s.promoteProject userId r state
    match r.decisionEventId with
    | none => (outcome.map fun _ => state', s)
    | some eventId =>
      match r.scope with
      | none => (.error (.valueError "version decision event requires complete scope"), s)
      | some scope =>
        let event := r.decisionEvent eventId scope (caught outcome) state'.revision
        match s.appendEventUnlocked fingerprint userId event now with
        | .error error => (.error error, s)
        | .ok (_, s) => (outcome.map fun _ => state', s)

end

end InMemorySyncStore

end Fairy.Sync
