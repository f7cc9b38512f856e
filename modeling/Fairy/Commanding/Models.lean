import Fairy.Lib.Json
import Fairy.Lib.Table
import Fairy.Lib.Text

namespace Fairy.Commanding

open Fairy.Lib

/-- A 128-bit identifier; only equality and the order of its text are used. -/
abbrev Uuid := Nat

/-- An aware UTC `datetime`, in microseconds. -/
abbrev Time := Nat

inductive CommandStatus
  | created | queued | waitingApproval | running
  | succeeded | failed | rejected | cancelled | interrupted
  deriving DecidableEq

namespace CommandStatus

def value : CommandStatus → String
  | created => "created"
  | queued => "queued"
  | waitingApproval => "waiting_approval"
  | running => "running"
  | succeeded => "succeeded"
  | failed => "failed"
  | rejected => "rejected"
  | cancelled => "cancelled"
  | interrupted => "interrupted"

/-- `COMMAND_TRANSITIONS`. -/
def transitions : CommandStatus → List CommandStatus
  | created => [queued, waitingApproval, cancelled]
  | queued => [waitingApproval, running, cancelled, interrupted]
  | waitingApproval => [queued, running, rejected, cancelled]
  | running => [succeeded, failed, interrupted, cancelled]
  | interrupted => [queued, failed]
  | succeeded | failed | rejected | cancelled => []

end CommandStatus

inductive EventVisibility
  | user | developer | internal
  deriving DecidableEq

inductive LedgerError
  | invalidTransition (message : String)
  | workerFence (message : String)
  | idempotencyConflict (message : String)
  | keyError (message : String)
  | valueError (message : String)
  | assertionError
  | integrityError (constraint : String)
  deriving DecidableEq

/-- The part of a run that is fixed when it is created. -/
structure CommandRequest where
  commandName : String
  actor : String
  scope : Json
  scopeDigest : String
  projectId : Option Uuid
  conversationId : Uuid
  taskId : Uuid
  targetVersionId : Option Uuid
  input : Json
  riskLevel : String
  idempotencyKey : String

/-- A row of `command_runs`. -/
structure CommandRun extends CommandRequest where
  id : Uuid
  requestFingerprint : String
  status : CommandStatus
  leaseOwner : Option String
  leaseUntil : Option Time
  leaseFence : Nat
  createdAt : Time
  updatedAt : Time

/-- A row of `task_event_sequences`. -/
structure TaskSequence where
  taskId : Uuid
  lastSequence : Nat
  deriving DecidableEq

/-- A row of `domain_events`. -/
structure LedgerEvent where
  cursor : Nat
  eventId : Uuid
  runId : Option Uuid
  userId : String
  projectId : Option Uuid
  conversationId : Option Uuid
  taskId : Option Uuid
  versionId : Option Uuid
  taskSequence : Option Nat
  eventType : String
  visibility : EventVisibility
  message : String
  payload : List (String × Json)
  createdAt : Time

/-- The tables as one tenant's ledger sees them. -/
structure Ledger where
  runs : Table CommandRun CommandRun.id (fun _ => True)
  sequences : Table TaskSequence TaskSequence.taskId (fun _ => True)
  events : Table LedgerEvent LedgerEvent.eventId (fun _ => True)

def Ledger.empty : Ledger := ⟨.empty, .empty, .empty⟩

/-- What `_append_event` draws: a new id, the identity column, the clock. -/
structure Draw where
  eventId : Uuid
  cursor : Nat
  createdAt : Time

/-- What a caller says of an event. -/
structure EventInput where
  eventType : String
  visibility : EventVisibility
  message : String
  payload : List (String × Json)

end Fairy.Commanding
