import Fairy.Lib.Fallible
import Fairy.Lib.Table
import Fairy.Lib.Text

namespace Fairy.History

open Fairy.Lib

abbrev Uuid := Nat

/-- An aware UTC `datetime`, in microseconds. -/
abbrev Instant := Nat

inductive HistoryError
  | valueError (message : String)
  | keyError (message : String)
  | invalidTransition (message : String)
  | versionConflict (message : String)
  | projectBusy (message : String)
  | idempotencyConflict (message : String)
  | integrityError (constraint : String)
  /-- What the parts of a transaction that are not modelled raise. -/
  | other (message : String)
  deriving DecidableEq

inductive WorkspaceType
  | projectChat | chatScratch
  deriving DecidableEq

inductive OperationMode
  | continueCurrentDraft | createNewVersion | answer
  deriving DecidableEq

inductive ExecutionTarget
  | local | cloud
  deriving DecidableEq

inductive TaskStatus
  | created | resolvingScope | buildingWorkspace | planning | awaitingApproval | executing
  | installing | previewing | reviewing | repairing | ready | accepted | rejected | archived
  | failed
  deriving DecidableEq

namespace TaskStatus

/-- `_TASK_TRANSITIONS`. -/
def transitions : TaskStatus → List TaskStatus
  | created => [resolvingScope]
  | resolvingScope => [buildingWorkspace, rejected, failed]
  | buildingWorkspace => [planning, rejected, failed]
  | planning => [awaitingApproval, executing, rejected, failed]
  | awaitingApproval => [executing, rejected, failed]
  | executing => [awaitingApproval, installing, previewing, reviewing, rejected, failed]
  | installing => [executing, previewing, reviewing, repairing, rejected, failed]
  | previewing => [reviewing, repairing, rejected, failed]
  | reviewing => [ready, repairing, rejected, failed]
  | repairing => [executing, installing, previewing, reviewing, rejected, failed]
  | ready => [accepted, rejected, archived]
  | accepted => [archived]
  | rejected => [archived]
  | archived => []
  | failed => [repairing, rejected, archived]

/-- `_TERMINAL_TASK_STATUSES`. -/
def terminal : List TaskStatus := [ready, accepted, rejected, archived, failed]

end TaskStatus

structure Project where
  id : Uuid
  name : String
  pinnedAt : Option Instant
  deletedAt : Option Instant
  purgedAt : Option Instant
  metadataRevision : Nat
  deriving DecidableEq

structure Conversation where
  id : Uuid
  projectId : Option Uuid
  workspaceType : WorkspaceType
  title : String
  pinnedAt : Option Instant
  deletedAt : Option Instant
  deletedByProjectAt : Option Instant
  purgedAt : Option Instant
  revision : Nat
  deriving DecidableEq

structure Task where
  id : Uuid
  projectId : Option Uuid
  conversationId : Uuid
  userRequest : String
  operationMode : OperationMode
  executionTarget : ExecutionTarget
  status : TaskStatus
  idempotencyKey : String

structure ConversationMove where
  idempotencyKey : String
  sourceConversationId : Uuid
  destinationConversationId : Uuid
  targetProjectId : Uuid

inductive DomainEvent
  | conversationDeleted (projectId : Option Uuid) (conversationId : Uuid) (revision : Nat)
  /-- Restored from the trash, as in `projectRestored`. -/
  | conversationRestored (projectId : Option Uuid) (conversationId : Uuid) (revision : Nat)
  | conversationPurged (projectId : Option Uuid) (conversationId : Uuid) (revision : Nat)
  | projectDeleted (projectId : Uuid) (metadataRevision threadCount : Nat)
  | projectRestored (projectId : Uuid) (metadataRevision threadCount : Nat)
  | projectPurged (projectId : Uuid) (metadataRevision : Nat)

namespace Project

def requireMetadataRevision (p : Project) (expected : Nat) : Except HistoryError Unit :=
  if expected ≠ p.metadataRevision then
    .error (.versionConflict "Project metadata changed concurrently")
  else .ok ()

def requireRecoverable (p : Project) : Except HistoryError Unit :=
  if p.purgedAt ≠ none then .error (.invalidTransition "Purged Project cannot be updated")
  else if p.deletedAt ≠ none then
    .error (.invalidTransition "Deleted Project cannot be updated")
  else .ok ()

def delete (p : Project) (now : Instant) (expected : Nat) : Except HistoryError Project := do
  p.requireMetadataRevision expected
  p.requireRecoverable
  return { p with
    deletedAt := some now, pinnedAt := none, metadataRevision := p.metadataRevision + 1 }

def restoreDeleted (p : Project) (expected : Nat) : Except HistoryError Project := do
  p.requireMetadataRevision expected
  if p.purgedAt ≠ none then throw (.invalidTransition "Purged Project cannot be restored")
  else if p.deletedAt = none then throw (.invalidTransition "Project is not deleted")
  else return { p with deletedAt := none, metadataRevision := p.metadataRevision + 1 }

def markPurged (p : Project) (now : Instant) (expected : Nat) :
    Except HistoryError Project := do
  p.requireMetadataRevision expected
  if p.deletedAt = none then
    throw (.invalidTransition "Project must be deleted before it is purged")
  else if p.purgedAt ≠ none then throw (.invalidTransition "Project is already purged")
  else return { p with
    purgedAt := some now, name := "Deleted project", metadataRevision := p.metadataRevision + 1 }

end Project

namespace Conversation

/-- `Conversation.create`, but for the identifier. -/
def create (id : Uuid) (projectId : Option Uuid) (workspaceType : WorkspaceType)
    (title : String) : Except HistoryError Conversation :=
  if workspaceType = .projectChat ∧ projectId = none then
    .error (.valueError "project_chat requires project_id")
  else if workspaceType = .chatScratch ∧ projectId ≠ none then
    .error (.valueError "chat_scratch cannot bind project_id")
  else if Text.strip title = "" ∨ (Text.strip title).length > 200 then
    .error (.valueError "Conversation title must contain 1 to 200 characters")
  else
    .ok
      { id, projectId, workspaceType
        title := Text.strip title
        pinnedAt := none
        deletedAt := none
        deletedByProjectAt := none
        purgedAt := none
        revision := 0 }

def delete (c : Conversation) (now : Instant) (expected : Nat) (byProject : Bool) :
    Except HistoryError Conversation :=
  if expected ≠ c.revision then
    .error (.versionConflict "Conversation metadata changed concurrently")
  else if c.deletedAt ≠ none then
    .error (.invalidTransition "Conversation is already deleted")
  else if c.purgedAt ≠ none then
    .error (.invalidTransition "Purged Conversation cannot be deleted")
  else
    .ok { c with
      deletedAt := some now
      deletedByProjectAt := if byProject then some now else none
      pinnedAt := none
      revision := c.revision + 1 }

def restoreDeleted (c : Conversation) (expected : Nat) : Except HistoryError Conversation :=
  if expected ≠ c.revision then
    .error (.versionConflict "Conversation metadata changed concurrently")
  else if c.purgedAt ≠ none then
    .error (.invalidTransition "Purged Conversation cannot be restored")
  else if c.deletedAt = none then .error (.invalidTransition "Conversation is not deleted")
  else
    .ok { c with deletedAt := none, deletedByProjectAt := none, revision := c.revision + 1 }

def markPurged (c : Conversation) (now : Instant) (expected : Nat) :
    Except HistoryError Conversation :=
  if expected ≠ c.revision then
    .error (.versionConflict "Conversation metadata changed concurrently")
  else if c.deletedAt = none then
    .error (.invalidTransition "Conversation must be deleted before it is purged")
  else if c.purgedAt ≠ none then .error (.invalidTransition "Conversation is already purged")
  else
    .ok { c with purgedAt := some now, title := "Deleted chat", revision := c.revision + 1 }

end Conversation

end Fairy.History
