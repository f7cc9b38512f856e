import Fairy.Lib.Fallible
import Fairy.Lib.Table
import Fairy.Sync.Models

namespace Fairy.Sync

open Fairy.Lib

/-- A row of `core_projects`, as far as a promotion reads and writes it. -/
structure ProjectRow where
  id : String
  revision : Nat
  activeVersionId : Option String
  deriving DecidableEq

inductive CandidateState
  | candidate | accepted
  deriving DecidableEq

/-- A row of `version_candidates`. -/
structure CandidateRow where
  projectId : String
  versionId : String
  baseRevision : Int
  state : CandidateState
  manifest : List (String × Json)

abbrev CandidateRow.key (c : CandidateRow) : String × String := (c.projectId, c.versionId)

structure OutboxRow where
  eventId : String
  topic : String
  payload : Json

abbrev SyncedEvent.key (e : SyncedEvent) : String := e.eventId

/-- The tables of `PostgresSyncStore` as one tenant sees them. -/
structure SyncDatabase where
  tenantId : String
  projects : Table ProjectRow ProjectRow.id (fun _ => True)
  candidates : Table CandidateRow CandidateRow.key (fun _ => True)
  events : Table SyncedEvent SyncedEvent.key (fun _ => True)
  outbox : Table OutboxRow OutboxRow.eventId (fun _ => True)

/-- What the database supplies for a row of `domain_events`: the value of its
identity column and its clock. -/
structure Draw where
  cursor : Nat
  now : Time

/-- A call of `promote_version`. -/
structure PromoteCall where
  userId : String
  request : PromoteRequest
  draw : Draw

/-- What a promotion comes to: the version is retained as a candidate, or not, at
this revision of the project. -/
structure Decision where
  conflict : Bool
  revision : Nat
  deriving DecidableEq

/-- The `envelope` of `_append_event_in_transaction`. -/
def SyncedEvent.envelope (e : SyncedEvent) (tenantId : String) : Json :=
  .obj [("tenant_id", .str tenantId), ("cursor", .int e.cursor), ("event_id", .str e.eventId),
    ("run_id", .optional e.runId), ("user_id", .str e.userId), ("device_id", .str e.deviceId),
    ("project_id", .optional e.projectId), ("conversation_id", .optional e.conversationId),
    ("task_id", .optional e.taskId), ("version_id", .optional e.versionId),
    ("task_sequence", (e.taskSequence.map Json.int).getD .null),
    ("schema_version", .int e.schemaVersion), ("event_type", .str e.eventType),
    ("visibility", .str e.visibility), ("message", .str e.message), ("payload", e.payload),
    ("created_at", .int e.createdAt)]

namespace SyncDatabase

def empty (tenantId : String) : SyncDatabase := ⟨tenantId, .empty, .empty, .empty, .empty⟩

def registerProject (db : SyncDatabase) (projectId : String) (activeVersionId : Option String) :
    SyncDatabase :=
  { db with
    projects := db.projects.insertOrIgnore { id := projectId, revision := 0, activeVersionId } }

section

variable {F : Type} [DecidableEq F] (fingerprint : Json → F)

/-- The fields in which a replay differs from the event it repeats. -/
def mismatched (stored : SyncedEvent) (userId : String) (e : EventFields) : List String :=
  changed [("run_id", stored.runId ≠ e.runId), ("user_id", stored.userId ≠ userId),
    ("device_id", stored.deviceId ≠ e.deviceId), ("project_id", stored.projectId ≠ e.projectId),
    ("conversation_id", stored.conversationId ≠ e.conversationId),
    ("task_id", stored.taskId ≠ e.taskId), ("version_id", stored.versionId ≠ e.versionId),
    ("task_sequence", stored.taskSequence ≠ e.taskSequence),
    ("schema_version", stored.schemaVersion ≠ e.schemaVersion),
    ("event_type", stored.eventType ≠ e.eventType),
    ("visibility", stored.visibility ≠ e.visibility), ("message", stored.message ≠ e.message),
    ("payload", fingerprint stored.payload ≠ fingerprint e.payload)]

/-- The row that owns the place of the event in its task. -/
def slotOwner (db : SyncDatabase) (e : EventFields) : Option SyncedEvent :=
  match e.slot with
  | some slot => db.events.oneOrNone fun x => x.slot = some slot
  | none => none

/-- `build_append_event_statement`, executed; the unique constraints of
`domain_events` decide whether it inserts. -/
def insertEvent (db : SyncDatabase) (row : SyncedEvent) : Option SyncDatabase :=
  match db.slotOwner row.toEventFields with
  | some _ => none
  | none => (db.events.insertAll [row]).map fun events => { db with events }

/-- The outbox statements of `_append_event_in_transaction`. -/
def publish (db : SyncDatabase) (e : SyncedEvent) : Except SyncError (Nat × SyncDatabase) :=
  let row := { eventId := e.eventId, topic := "domain.events", payload := e.envelope db.tenantId }
  match db.outbox.insertAll [row] with
  | some outbox => .ok (e.cursor, { db with outbox })
  | none =>
    if ∀ x ∈ db.outbox.rows, x.eventId = e.eventId →
        x.topic = "domain.events" ∧ fingerprint x.payload = fingerprint row.payload then
      .ok (e.cursor, db)
    else .error (.idempotencyConflict "outbox replay changed immutable payload")

/-- `_append_event_in_transaction`. -/
def appendEventInTransaction (db : SyncDatabase) (userId : String) (e : EventFields) (d : Draw) :
    Except SyncError (Nat × SyncDatabase) :=
  if e.schemaVersion < 1 then .error (.valueError "schema_version must be positive")
  else
    let row : SyncedEvent := { e with cursor := d.cursor, userId, createdAt := d.now }
    match db.insertEvent row with
    | some db => db.publish fingerprint row
    | none =>
      match db.events.find? e.eventId with
      | none =>
        match db.slotOwner e with
        | some owner => .error (.idempotencyConflict
            ("task sequence " ++ toString (e.taskSequence.getD 0) ++
              " is already owned by event " ++ owner.eventId))
        | none =>
          .error (.runtimeError "event insert conflicted without an identifiable ledger row")
      | some existing =>
        match mismatched fingerprint existing userId e with
        | [] => db.publish fingerprint { row with cursor := existing.cursor,
                                                  createdAt := existing.createdAt }
        | fields => .error (.idempotencyConflict
            ("event replay changed immutable fields: " ++ String.intercalate ", " fields))

/-- `append_event`; a transaction that raises is rolled back. -/
def appendEvent (db : SyncDatabase) (userId : String) (e : EventFields) (message : Option String)
    (d : Draw) : Except SyncError Nat × SyncDatabase :=
  let e := { e with message := (message.filter (· ≠ "")).getD e.eventType }
  match db.appendEventInTransaction fingerprint userId e d with
  | .ok (cursor, db') => (.ok cursor, db')
  | .error error => (.error error, db)

/-- The two updates of a promotion that meets the revision it expects. -/
def acceptVersion (db : SyncDatabase) (r : PromoteRequest) : SyncDatabase :=
  { db with
    projects := db.projects.update
      (fun p => p.id = r.projectId ∧ (p.revision : Int) = r.expectedRevision)
      fun p => { p with activeVersionId := some r.versionId, revision := p.revision + 1 }
    candidates := db.candidates.update
      (fun c => c.projectId = r.projectId ∧ c.versionId = r.versionId)
      fun c => { c with state := .accepted } }

/-- The insert of a promotion that does not. -/
def retainVersion (db : SyncDatabase) (r : PromoteRequest) : SyncDatabase :=
  { db with
    candidates := db.candidates.insertOrIgnore
      { projectId := r.projectId, versionId := r.versionId, baseRevision := r.expectedRevision,
        state := .candidate, manifest := r.manifest } }

/-- The statements of `promote_version` on the project and its candidates. -/
def decidePromotion (db : SyncDatabase) (r : PromoteRequest) :
    Except SyncError (Decision × SyncDatabase) :=
  if r.expectedRevision < 0 then .error (.valueError "expected_revision cannot be negative")
  else match db.projects.oneOrNone fun p =>
      p.id = r.projectId ∧ (p.revision : Int) = r.expectedRevision with
  | some promoted => .ok (⟨false, promoted.revision + 1⟩, db.acceptVersion r)
  | none =>
    match db.projects.find? r.projectId with
    | none => .error (.keyError ("project not found: " ++ r.projectId))
    | some current =>
      if current.activeVersionId = some r.versionId ∧
          (current.revision : Int) = r.expectedRevision + 1 then
        .ok (⟨false, current.revision⟩, db)
      else .ok (⟨true, current.revision⟩, db.retainVersion r)

/-- The decision event of `promote_version`, if one is asked for. -/
def recordDecision (db : SyncDatabase) (userId : String) (r : PromoteRequest) (decision : Decision)
    (d : Draw) : Except SyncError SyncDatabase :=
  match r.decisionEventId with
  | none => .ok db
  | some eventId =>
    match r.scope with
    | none => .error (.valueError "version decision event requires complete scope")
    | some scope =>
      (db.appendEventInTransaction fingerprint userId
        (r.decisionEvent eventId scope decision.conflict decision.revision) d).map Prod.snd

/-- What `promote_version` answers once its transaction is committed. -/
def answer (r : PromoteRequest) (decision : Decision) : Except SyncError ProjectRevisionState :=
  if decision.conflict then
    .error (.versionConflict (ProjectRevisionState.conflictMessage r.expectedRevision
      decision.revision ++ "; version retained as candidate"))
  else
    .ok { projectId := r.projectId, revision := decision.revision,
          activeVersionId := some r.versionId, candidateVersionIds := [] }

/-- `promote_version`: an error inside the transaction rolls it back. -/
def promoteVersion (db : SyncDatabase) (userId : String) (r : PromoteRequest) (d : Draw) :
    Except SyncError ProjectRevisionState × SyncDatabase :=
  match db.decidePromotion r with
  | .error error => (.error error, db)
  | .ok (decision, decided) =>
    match decided.recordDecision fingerprint userId r decision d with
    | .error error => (.error error, db)
    | .ok db' => (answer r decision, db')

end

end SyncDatabase

end Fairy.Sync
