import Fairy.Preview.Sessions

namespace Fairy.Preview

open Fairy.Lib

inductive TaskStatus
  | created | resolvingScope | buildingWorkspace | planning | awaitingApproval | executing
  | installing | previewing | reviewing | repairing | ready | accepted | rejected | archived
  | failed
  deriving DecidableEq

namespace TaskStatus

/-- `_TASK_TRANSITIONS`. -/
def transitions : TaskStatus → List TaskStatus
  | created => [resolvingScope]
  | resolvingScope => [buildingWorkspace, rejected, failed]
  | buildingWorkspace => [planning, rejected, failed]
  | planning => [awaitingApproval, executing, rejected, failed]
  | awaitingApproval => [executing, rejected, failed]
  | executing => [awaitingApproval, installing, previewing, reviewing, rejected, failed]
  | installing => [executing, previewing, reviewing, repairing, rejected, failed]
  | previewing => [reviewing, repairing, rejected, failed]
  | reviewing => [ready, repairing, rejected, failed]
  | repairing => [executing, installing, previewing, reviewing, rejected, failed]
  | ready => [accepted, rejected, archived]
  | accepted => [archived]
  | rejected => [archived]
  | archived => []
  | failed => [repairing, rejected, archived]

/-- `ACTIVATABLE_TASK_STATUSES`. -/
def activatable (s : TaskStatus) : Bool := s ∈ [executing, previewing, reviewing, ready, accepted]

/-- The statuses that a failed start or recovery moves to FAILED. -/
def working (s : TaskStatus) : Bool :=
  s ∈ [executing, installing, previewing, reviewing, repairing]

end TaskStatus

structure Task where
  status : TaskStatus
  workspaceId : Option Uuid
  targetVersionId : Option Uuid
  deriving DecidableEq

def Task.transitionTo (t : Task) (status : TaskStatus) : Except RuntimeError Task :=
  if status ∈ t.status.transitions then return { t with status }
  else throw (.invalidTransition "cannot transition Task")

abbrev RuntimeTable := Table RuntimeSession (fun r => r.id) fun _ => True

abbrev PreviewTable := Table PreviewSession (fun p => p.id) fun _ => True

def writeRuntime (runtime : RuntimeSession) (expectedRevision : Nat) (t : RuntimeTable) :
    RuntimeTable :=
  t.update (fun r => r.id = runtime.id ∧ r.revision = expectedRevision)
    (fun r => if r.id = runtime.id then runtime else r)
    fun r => by by_cases h : r.id = runtime.id <;> simp [h]

def writePreview (preview : PreviewSession) (expectedRevision : Nat) (t : PreviewTable) :
    PreviewTable :=
  t.update (fun p => p.id = preview.id ∧ p.revision = expectedRevision)
    (fun p => if p.id = preview.id then preview else p)
    fun p => by by_cases h : p.id = preview.id <;> simp [h]

/-- The rows that the runtime application reads. Workspaces are their revisions. -/
structure StateStore where
  runtimes : RuntimeTable
  previews : PreviewTable
  tasks : Uuid → Option Task
  workspaces : Uuid → Option Nat

namespace StateStore

variable (s : StateStore)

def requireRuntime (id : Uuid) : Except RuntimeError RuntimeSession :=
  match s.runtimes.find? id with
  | some runtime => return runtime
  | none => throw (.keyError s!"Runtime not found: {id}")

def requirePreview (id : Uuid) : Except RuntimeError PreviewSession :=
  match s.previews.find? id with
  | some preview => return preview
  | none => throw (.keyError s!"Preview not found: {id}")

def requireTask (id : Uuid) : Except RuntimeError Task :=
  match s.tasks id with
  | some task => return task
  | none => throw (.keyError s!"task not found: {id}")

def saveTask (id : Uuid) (task : Task) : StateStore :=
  { s with tasks := Function.update s.tasks id (some task) }

/-- `preview_for_task`, for a Preview that is not terminal. -/
def previewForTask (taskId : Uuid) : Option PreviewSession :=
  s.previews.oneOrNone fun p => p.scope.taskId = taskId ∧ p.status.terminal = false

def appendRuntime (runtime : RuntimeSession) : Except RuntimeError StateStore :=
  match s.runtimes.oneOrNone fun r => r.idempotencyKey = runtime.idempotencyKey with
  | some existing =>
    if (existing.scope, existing.kind, existing.graph, existing.executor) ≠
        (runtime.scope, runtime.kind, runtime.graph, runtime.executor) then
      throw (.idempotencyConflict "Runtime idempotency key is bound to a different request")
    else return s
  | none =>
    match s.runtimes.insertAll [runtime] with
    | some runtimes => return { s with runtimes }
    | none =>
      throw (.idempotencyConflict "Runtime identity or idempotency key already exists")

/-- The insert checks the foreign key to the Runtime, too. -/
def appendPreview (preview : PreviewSession) : Except RuntimeError StateStore :=
  match s.previews.oneOrNone fun p => p.idempotencyKey = preview.idempotencyKey with
  | some existing =>
    if (existing.scope, existing.runtimeId) ≠ (preview.scope, preview.runtimeId) then
      throw (.idempotencyConflict "Preview idempotency key is bound to a different request")
    else return s
  | none =>
    if (s.previewForTask preview.scope.taskId).isSome then
      throw (.invalidTransition "Task already has a non-terminal Preview")
    else if (s.runtimes.find? preview.runtimeId).isNone then
      throw (.idempotencyConflict "Preview identity or idempotency key already exists")
    else
      match s.previews.insertAll [preview] with
      | some previews => return { s with previews }
      | none =>
        throw (.idempotencyConflict "Preview identity or idempotency key already exists")

def saveRuntime (runtime : RuntimeSession) (expectedRevision : Nat) :
    Except RuntimeError StateStore :=
  if runtime.revision ≠ expectedRevision + 1 then
    throw (.valueError "Runtime revision must advance exactly once from expected_revision")
  else if ∃ r ∈ s.runtimes.rows, r.id = runtime.id ∧ r.revision = expectedRevision then
    return { s with runtimes := writeRuntime runtime expectedRevision s.runtimes }
  else throw (.versionConflict
    s!"expected Runtime revision {expectedRevision}, current revision has changed")

def savePreview (preview : PreviewSession) (expectedRevision : Nat) :
    Except RuntimeError StateStore :=
  if preview.revision ≠ expectedRevision + 1 then
    throw (.valueError "Preview revision must advance exactly once from expected_revision")
  else if preview.status.terminal = false ∧ ∃ p ∈ s.previews.rows,
      p.scope.taskId = preview.scope.taskId ∧ p.status.terminal = false ∧ p.id ≠ preview.id then
    throw (.invalidTransition "Task already has a non-terminal Preview")
  else if ∃ p ∈ s.previews.rows, p.id = preview.id ∧ p.revision = expectedRevision then
    return { s with previews := writePreview preview expectedRevision s.previews }
  else throw (.versionConflict
    s!"expected Preview revision {expectedRevision}, current revision has changed")

/-- Both sessions of a transaction that moves both. -/
def saveSessions (runtime : RuntimeSession) (runtimeRevision : Nat) (preview : PreviewSession)
    (previewRevision : Nat) : Except RuntimeError StateStore := do
  let s ← s.saveRuntime runtime runtimeRevision
  s.savePreview preview previewRevision

end StateStore

structure PreviewStartRequest where
  taskId : Uuid
  idempotencyKey : String
  workspaceId : Option Uuid := none
  versionId : Option Uuid := none
  expectedWorkspaceRevision : Option Nat := none
  deriving DecidableEq

structure PreviewStopRequest where
  previewId : Uuid
  idempotencyKey : String
  taskId : Option Uuid := none
  workspaceId : Option Uuid := none
  versionId : Option Uuid := none
  expectedWorkspaceRevision : Option Nat := none
  deriving DecidableEq

/-- What the scope resolver, the templates, the dependency layer and the health of the executor
decide about a start. -/
structure RuntimeTemplate where
  scope : Scope
  kind : RuntimeKind
  graph : RuntimeGraph
  executor : String
  deriving DecidableEq

structure RuntimeStartResult where
  executorHandle : String
  port : Nat
  url : String
  executionTarget : ExecutionTarget
  deriving DecidableEq

inductive ExecutorRuntimeState
  | running | stopped | interrupted
  deriving DecidableEq

/-- A probe of a running Runtime has its endpoint. -/
structure RuntimeProbeResult where
  executorHandle : String
  state : ExecutorRuntimeState
  endpoint : Option (Nat × String)
  executionTarget : ExecutionTarget
  deriving DecidableEq

/-- An external start or stop that has been committed, and not yet carried out. -/
structure Intent where
  previewId : Uuid
  runtimeId : Uuid
  executorHandle : Option String
  deriving DecidableEq

/-- What the command ledger, and the rows beside the sessions, answer in a transaction. -/
abbrev Answer := Except RuntimeError Unit

namespace StateStore

variable (s : StateStore)

def requireBoundTask (taskId : Uuid) (workspaceId versionId : Option Uuid)
    (expectedWorkspaceRevision : Option Nat) : Except RuntimeError Task := do
  let task ← s.requireTask taskId
  if workspaceId = none ∧ versionId = none then
    return task
  if workspaceId = none ∨ versionId = none then
    throw (.runtimeExecutor "Preview Scope binding is incomplete" "SCOPE_MISMATCH")
  if task.workspaceId ≠ workspaceId ∨ task.targetVersionId ≠ versionId then
    throw (.runtimeExecutor "Preview does not match the Task Workspace Version" "SCOPE_MISMATCH")
  match workspaceId.bind s.workspaces with
  | none => throw (.runtimeExecutor "Preview Workspace is unavailable" "SCOPE_MISMATCH")
  | some revision =>
    if expectedWorkspaceRevision ≠ none ∧ expectedWorkspaceRevision ≠ some revision then
      throw (.runtimeExecutor "Preview Workspace revision has changed" "VERSION_CONFLICT")
    return task

def validatePreviewBinding (preview : PreviewSession) (taskId workspaceId versionId : Option Uuid) :
    Except RuntimeError Unit :=
  if workspaceId = none ∧ versionId = none ∧ (taskId = none ∨ taskId = some preview.scope.taskId)
  then return
  else if (taskId, workspaceId, versionId) ≠ (some preview.scope.taskId,
      some preview.scope.workspaceId, some preview.scope.versionId) then
    throw (.runtimeExecutor "Preview identity does not match the Task Workspace Version"
      "SCOPE_MISMATCH")
  else return

end StateStore

/-- How a start with the same key takes the task back to EXECUTING. -/
def reopenTask (task : Task) : Except RuntimeError Task :=
  match task.status with
  | .failed => do
    let task ← task.transitionTo .repairing
    task.transitionTo .executing
  | .repairing => task.transitionTo .executing
  | .accepted | .ready | .executing => return task
  | _ => throw (.invalidTransition "Task must be executing before Preview start")

def previewTask (task : Task) : Except RuntimeError Task :=
  if task.status = .executing then task.transitionTo .previewing else return task

/-- What `_prepare_start` returns: the sessions as they are, or a new intent. -/
inductive StartOutcome
  | replay (runtime : RuntimeSession) (preview : PreviewSession)
  | intent (intent : Intent)
  deriving DecidableEq

inductive StopOutcome
  | replay (preview : PreviewSession)
  | intent (intent : Intent)
  deriving DecidableEq

namespace StateStore

section Transactions

variable (x : UrlRule) (s : StateStore)

/-- `_prepare_start` for a Preview that exists. -/
def restart (existing : PreviewSession) (request : PreviewStartRequest)
    (template : Except RuntimeError RuntimeTemplate) (answer : Answer) :
    Except RuntimeError (StateStore × StartOutcome) := do
  if existing.scope.taskId ≠ request.taskId then
    throw (.idempotencyConflict "Preview idempotency key is already bound to another Task")
  validatePreviewBinding existing (some request.taskId) request.workspaceId request.versionId
  let task ← s.requireBoundTask request.taskId request.workspaceId request.versionId
    request.expectedWorkspaceRevision
  let runtime ← s.requireRuntime existing.runtimeId
  if existing.status ∉ [PreviewStatus.failed, .interrupted] then
    return (s, .replay runtime existing)
  if runtime.status ∉ [RuntimeStatus.failed, .interrupted] then
    throw (.invalidTransition "Preview Runtime cannot be restarted")
  let task ← reopenTask task
  let s := s.saveTask request.taskId task
  let template ← template
  if runtime.kind ≠ template.kind then
    throw (.runtimeExecutor "Preview retry cannot rebind the Runtime kind" "SCOPE_MISMATCH")
  if runtime.graph ≠ template.graph then
    throw (.runtimeExecutor "Preview retry cannot rebind the Runtime graph" "SCOPE_MISMATCH")
  let runtime' ← runtime.beginStart
  let preview' ← existing.beginStart
  let s ← s.saveSessions runtime' runtime.revision preview' existing.revision
  answer
  return (s, .intent ⟨preview'.id, runtime'.id, none⟩)

/-- `_prepare_start` for a new Preview. -/
def startNew (key : String) (request : PreviewStartRequest)
    (template : Except RuntimeError RuntimeTemplate) (answer : Answer)
    (runtimeId previewId : Uuid) : Except RuntimeError (StateStore × StartOutcome) := do
  let task ← s.requireBoundTask request.taskId request.workspaceId request.versionId
    request.expectedWorkspaceRevision
  if task.status.activatable = false then
    throw (.invalidTransition "Task must be executing before Preview start")
  let template ← template
  let runtime ← (RuntimeSession.create runtimeId template.scope template.kind template.executor
    (key ++ ":runtime") template.graph).beginStart
  let preview ← (PreviewSession.create previewId template.scope runtimeId key).beginStart
  let s ← s.appendRuntime runtime
  let s ← s.appendPreview preview
  answer
  return (s, .intent ⟨previewId, runtimeId, none⟩)

def prepareStart (request : PreviewStartRequest) (template : Except RuntimeError RuntimeTemplate)
    (answer : Answer) (runtimeId previewId : Uuid) :
    Except RuntimeError (StateStore × StartOutcome) :=
  let key := Text.strip request.idempotencyKey
  match s.previews.oneOrNone fun p => p.idempotencyKey = key with
  | some existing => s.restart existing request template answer
  | none => s.startNew key request template answer runtimeId previewId

def finishStart (intent : Intent) (result : RuntimeStartResult) (answer : Answer) :
    Except RuntimeError StateStore := do
  let preview ← s.requirePreview intent.previewId
  let runtime ← s.requireRuntime intent.runtimeId
  let task ← s.requireTask preview.scope.taskId
  if preview.status = .ready ∧ runtime.status = .running then
    return s
  let runtime' ← runtime.markRunning result.executorHandle result.port
  let preview' ← preview.markReady x result.url
  let task ← previewTask task
  let s ← s.saveSessions runtime' runtime.revision preview' preview.revision
  answer
  return s.saveTask preview.scope.taskId task

/-- `runtime.mark_…` and `save_runtime`, when the Runtime is in one of the phases. -/
def moveRuntime (runtime : RuntimeSession) (phases : List RuntimeStatus)
    (mark : RuntimeSession → Except RuntimeError RuntimeSession) :
    Except RuntimeError StateStore :=
  if runtime.status ∈ phases then do
    let runtime' ← mark runtime
    s.saveRuntime runtime' runtime.revision
  else return s

/-- `preview.mark_…` and `save_preview`, when the Preview is in one of the phases. -/
def movePreview (preview : PreviewSession) (phases : List PreviewStatus)
    (mark : PreviewSession → Except RuntimeError PreviewSession) :
    Except RuntimeError StateStore :=
  if preview.status ∈ phases then do
    let preview' ← mark preview
    s.savePreview preview' preview.revision
  else return s

def failTask (id : Uuid) (task : Task) : Except RuntimeError StateStore :=
  if task.status.working then do
    let task ← task.transitionTo .failed
    return s.saveTask id task
  else return s

def failStart (intent : Intent) (error : RuntimeError) (answer : Answer) :
    Except RuntimeError StateStore := do
  let runtime ← s.requireRuntime intent.runtimeId
  let preview ← s.requirePreview intent.previewId
  let task ← s.requireTask preview.scope.taskId
  let s ← s.moveRuntime runtime [.starting] (·.markFailed error.errorCode)
  let s ← s.movePreview preview [.starting] (·.markFailed error.errorCode)
  let s ← s.failTask preview.scope.taskId task
  answer
  return s

def prepareStop (request : PreviewStopRequest) (answer : Answer) :
    Except RuntimeError (StateStore × StopOutcome) := do
  let preview ← s.requirePreview request.previewId
  validatePreviewBinding preview request.taskId request.workspaceId request.versionId
  let _ ← s.requireBoundTask preview.scope.taskId request.workspaceId request.versionId
    request.expectedWorkspaceRevision
  if preview.status = .stopped then
    return (s, .replay preview)
  if preview.status ∉ [PreviewStatus.ready, .interrupted] then
    throw (.invalidTransition "Preview must be ready before stop")
  let runtime ← s.requireRuntime preview.runtimeId
  if runtime.status ∉ [RuntimeStatus.running, .interrupted] then
    throw (.invalidTransition "Preview Runtime is not stoppable")
  if runtime.executorHandle = none then
    throw (.invalidTransition "Preview Runtime has no executor handle")
  let _ ← s.requireTask preview.scope.taskId
  let runtime' ← runtime.beginStop
  let preview' ← preview.beginStop
  let s ← s.saveSessions runtime' runtime.revision preview' preview.revision
  answer
  return (s, .intent ⟨preview.id, runtime.id, runtime.executorHandle⟩)

def finishStop (previewId : Uuid) (answer : Answer) : Except RuntimeError StateStore := do
  let preview ← s.requirePreview previewId
  let runtime ← s.requireRuntime preview.runtimeId
  if preview.status = .stopped then
    return s
  let runtime' ← runtime.markStopped
  let preview' ← preview.markStopped
  let s ← s.saveSessions runtime' runtime.revision preview' preview.revision
  answer
  return s

def interruptStop (intent : Intent) (error : RuntimeError) (answer : Answer) :
    Except RuntimeError StateStore := do
  let runtime ← s.requireRuntime intent.runtimeId
  let preview ← s.requirePreview intent.previewId
  let s ← s.moveRuntime runtime [.stopping] (·.markInterrupted error.errorCode)
  let s ← s.movePreview preview [.stopping] (·.markInterrupted error.errorCode)
  answer
  return s

def finishRecoveredStart (runtimeId previewId : Uuid) (probe : RuntimeProbeResult)
    (template : Except RuntimeError RuntimeTemplate) (answer : Answer) :
    Except RuntimeError StateStore := do
  let runtime ← s.requireRuntime runtimeId
  let preview ← s.requirePreview previewId
  let task ← s.requireTask preview.scope.taskId
  let template ← template
  if runtime.kind ≠ template.kind then
    throw (.runtimeExecutor "Recovered Runtime kind no longer matches the Project"
      "SCOPE_MISMATCH")
  match probe.endpoint with
  | none => throw (.valueError "probe has no endpoint")
  | some (port, url) =>
    let s ← s.moveRuntime runtime [.starting] (·.markRunning probe.executorHandle port)
    let s ← s.movePreview preview [.starting] (·.markReady x url)
    let task ← previewTask task
    answer
    return s.saveTask preview.scope.taskId task

def markRecoveryInterrupted (runtimeId previewId : Uuid) (error : RuntimeError)
    (answer : Answer) : Except RuntimeError StateStore := do
  let runtime ← s.requireRuntime runtimeId
  let preview ← s.requirePreview previewId
  let task ← s.requireTask preview.scope.taskId
  let s ← s.moveRuntime runtime [.created, .starting, .running, .stopping]
    (·.markInterrupted error.errorCode)
  let s ← s.movePreview preview [.created, .starting, .ready, .stopping]
    (·.markInterrupted error.errorCode)
  let s ← s.failTask preview.scope.taskId task
  answer
  return s

end Transactions

end StateStore

end Fairy.Preview
