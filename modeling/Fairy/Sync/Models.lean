import Fairy.Lib.Json

namespace Fairy.Sync

open Fairy.Lib

/-- An aware UTC `datetime`, in microseconds; it also stands for its canonical text. -/
abbrev Time := Nat

inductive SyncError
  | versionConflict (message : String)
  | idempotencyConflict (message : String)
  | valueError (message : String)
  | keyError (key : String)
  | runtimeError (message : String)
  deriving DecidableEq

/-- The error is a `VersionConflictError`. -/
def SyncError.conflict : SyncError → Bool
  | .versionConflict _ => true
  | _ => false

/-- The call has raised, and the error is kept for later. -/
def caught : Except SyncError Unit → Bool
  | .ok _ => false
  | .error _ => true

structure ProjectRevisionState where
  projectId : String
  revision : Nat
  activeVersionId : Option String
  candidateVersionIds : List String
  deriving DecidableEq

namespace ProjectRevisionState

/-- The last accepted request is asked again. -/
def Replays (s : ProjectRevisionState) (versionId : String) (expectedRevision : Int) : Prop :=
  s.activeVersionId = some versionId ∧ (s.revision : Int) = expectedRevision + 1

instance (s : ProjectRevisionState) (versionId : String) (expectedRevision : Int) :
    Decidable (s.Replays versionId expectedRevision) := inferInstanceAs (Decidable (_ ∧ _))

def conflictMessage (expectedRevision : Int) (revision : Nat) : String :=
  "expected project revision " ++ toString expectedRevision ++ ", current revision is " ++
    toString revision

/-- `promote`, which raises after it has put the version among the candidates. -/
def promote (s : ProjectRevisionState) (versionId : String) (expectedRevision : Int) :
    Except SyncError Unit × ProjectRevisionState :=
  if expectedRevision ≠ s.revision then
    if s.Replays versionId expectedRevision then (.ok (), s)
    else
      (.error (.versionConflict (conflictMessage expectedRevision s.revision)),
        { s with
          candidateVersionIds :=
            if versionId ∈ s.candidateVersionIds then s.candidateVersionIds
            else s.candidateVersionIds ++ [versionId] })
  else
    (.ok (), { s with activeVersionId := some versionId, revision := s.revision + 1,
                      candidateVersionIds := s.candidateVersionIds.erase versionId })

end ProjectRevisionState

/-- What a caller says of an event. -/
structure EventFields where
  eventId : String
  runId : Option String
  deviceId : String
  projectId : Option String
  conversationId : Option String
  taskId : Option String
  versionId : Option String
  taskSequence : Option Int
  schemaVersion : Int
  eventType : String
  visibility : String
  message : String
  payload : Json

structure SyncedEvent extends EventFields where
  cursor : Nat
  userId : String
  createdAt : Time

/-- The event owns a place in the sequence of its task. -/
def EventFields.slot (e : EventFields) : Option (String × Int) :=
  match e.taskId, e.taskSequence with
  | some task, some sequence => some (task, sequence)
  | _, _ => none

/-- The names of the fields that differ. -/
def changed (fields : List (String × Bool)) : List String :=
  (fields.filter Prod.snd).map Prod.fst

/-- The arguments of `promote_version`, the user apart. -/
structure PromoteRequest where
  projectId : String
  versionId : String
  expectedRevision : Int
  manifest : List (String × Json)
  decisionEventId : Option String
  deviceId : Option String
  conversationId : Option String
  taskId : Option String
  taskSequence : Option Int

structure DecisionScope where
  deviceId : String
  conversationId : String
  taskId : String
  taskSequence : Int

namespace PromoteRequest

/-- The scope of the decision event, if `all((device_id, conversation_id, task_id,
task_sequence))`. -/
def scope (r : PromoteRequest) : Option DecisionScope := do
  let deviceId ← r.deviceId.filter (· ≠ "")
  let conversationId ← r.conversationId.filter (· ≠ "")
  let taskId ← r.taskId.filter (· ≠ "")
  let taskSequence ← r.taskSequence.filter (· ≠ 0)
  return { deviceId, conversationId, taskId, taskSequence }

/-- The event that records the decision on a request, with the revision the project
has by then. -/
def decisionEvent (r : PromoteRequest) (eventId : String) (scope : DecisionScope)
    (conflict : Bool) (revision : Nat) : EventFields :=
  let eventType := "version." ++ if conflict then "candidate_retained" else "promoted"
  let message :=
    if conflict then "Version retained as a conflict candidate" else "Version promoted"
  { eventId, runId := none, deviceId := scope.deviceId, projectId := some r.projectId,
    conversationId := some scope.conversationId, taskId := some scope.taskId,
    versionId := some r.versionId, taskSequence := some scope.taskSequence, schemaVersion := 1,
    eventType, visibility := "user", message,
    payload := .obj [("id", .str eventId), ("run_id", .null), ("project_id", .str r.projectId),
      ("conversation_id", .str scope.conversationId), ("task_id", .str scope.taskId),
      ("version_id", .str r.versionId), ("task_sequence", .int scope.taskSequence),
      ("event_type", .str eventType), ("visibility", .str "user"), ("message", .str message),
      ("payload", .obj [("expected_revision", .int r.expectedRevision),
        ("project_revision", .int revision), ("manifest", .obj r.manifest)]),
      ("schema_version", .int 1)] }

end PromoteRequest

end Fairy.Sync
