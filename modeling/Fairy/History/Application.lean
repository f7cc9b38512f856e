import Fairy.History.Models

namespace Fairy.History

open Fairy.Lib

/-- The rows that the history of projects and conversations reads and writes. The
last three are the tasks with a nonterminal Assistant turn, with an active preview, and with
an active runtime. -/
structure StateStore where
  nextId : Uuid
  projects : Table Project Project.id fun _ => True
  conversations : Table Conversation Conversation.id fun _ => True
  tasks : Table Task Task.id fun _ => True
  moves : List ConversationMove
  events : List DomainEvent
  turns : List Uuid
  previews : List Uuid
  runtimes : List Uuid

structure TaskCreate where
  conversationId : Uuid
  userRequest : String
  operationMode : OperationMode
  executionTarget : ExecutionTarget
  idempotencyKey : String

def normalizeIdempotencyKey (value : String) : Except HistoryError String :=
  if Text.strip value = "" then .error (.valueError "idempotency_key is required")
  else .ok (Text.strip value)

def validateTaskReplay (existing : Task) (request : TaskCreate) : Except HistoryError Unit :=
  if existing.conversationId ≠ request.conversationId ∨
      existing.userRequest ≠ Text.strip request.userRequest ∨
      existing.operationMode ≠ request.operationMode ∨
      existing.executionTarget ≠ request.executionTarget then
    .error (.idempotencyConflict "task idempotency key was already used for a different request")
  else .ok ()

namespace StateStore

def initial : StateStore where
  nextId := 0
  projects := .empty
  conversations := .empty
  tasks := .empty
  moves := []
  events := []
  turns := []
  previews := []
  runtimes := []

variable (s : StateStore)

def record (e : DomainEvent) : StateStore := { s with events := s.events ++ [e] }

def requireProject (id : Uuid) : Except HistoryError Project :=
  match s.projects.find? id with
  | none => .error (.keyError s!"project not found: {id}")
  | some project => .ok project

def requireConversation (id : Uuid) : Except HistoryError Conversation :=
  match s.conversations.find? id with
  | none => .error (.keyError s!"conversation not found: {id}")
  | some conversation => .ok conversation

/-- `_project_conversations`, page after page. -/
def projectConversations (projectId : Uuid) : List Conversation :=
  s.conversations.select fun c => c.projectId = some projectId ∧ c.purgedAt = none

def projectTasks (projectId : Uuid) : List Task :=
  s.tasks.select fun t => t.projectId = some projectId

/-- Without a project, `list_tasks` does not filter by it. -/
def conversationTasks (c : Conversation) : List Task :=
  s.tasks.select fun t =>
    (c.projectId = none ∨ t.projectId = c.projectId) ∧ t.conversationId = c.id

def requireInactive (c : Conversation) : Except HistoryError Unit :=
  if (s.conversationTasks c).any fun t => t.status ∉ TaskStatus.terminal ∨ t.id ∈ s.turns ∨
      t.id ∈ s.previews ∨ t.id ∈ s.runtimes then
    .error (.invalidTransition "active Conversation must be cancelled first")
  else .ok ()

def requireProjectInactive (projectId : Uuid) : Except HistoryError Unit :=
  let tasks := s.projectTasks projectId
  if tasks.any fun t => t.status ∉ TaskStatus.terminal then
    .error (.projectBusy "Project has active work")
  else if tasks.any fun t => t.id ∈ s.turns then
    .error (.projectBusy "Project has an active Assistant turn")
  else
    match tasks.find? fun t => t.id ∈ s.previews ∨ t.id ∈ s.runtimes with
    | none => .ok ()
    | some t =>
      if t.id ∈ s.previews then .error (.projectBusy "Project has an active Preview")
      else .error (.projectBusy "Project has an active Runtime")

/-- `UPDATE core_projects ... WHERE metadata_revision = expected`. -/
def updateProjectMetadata (p : Project) (expected : Nat) : Except HistoryError StateStore :=
  if (s.projects.select fun row => row.id = p.id ∧ row.metadataRevision = expected).length = 1 then
    .ok { s with
      projects := s.projects.update (fun row => row.id = p.id ∧ row.metadataRevision = expected)
        fun row => { row with
          name := p.name
          pinnedAt := p.pinnedAt
          deletedAt := p.deletedAt
          purgedAt := p.purgedAt
          metadataRevision := p.metadataRevision } }
  else .error (.versionConflict "Project metadata changed concurrently")

/-- `UPDATE core_conversations ... WHERE revision = expected`. -/
def updateConversationMetadata (c : Conversation) (expected : Nat) :
    Except HistoryError StateStore :=
  if (s.conversations.select fun row => row.id = c.id ∧ row.revision = expected).length = 1 then
    .ok { s with
      conversations := s.conversations.update (fun row => row.id = c.id ∧ row.revision = expected)
        fun row => { row with
          title := c.title
          pinnedAt := c.pinnedAt
          deletedAt := c.deletedAt
          deletedByProjectAt := c.deletedByProjectAt
          purgedAt := c.purgedAt
          revision := c.revision } }
  else .error (.versionConflict "Conversation metadata changed concurrently")

/-- The key is not in use here; a source is moved at most once. -/
def saveConversationMove (move : ConversationMove) : Except HistoryError StateStore :=
  if s.moves.any fun row => row.sourceConversationId = move.sourceConversationId then
    .error (.integrityError "uq_core_conversation_moves_source")
  else .ok { s with moves := s.moves ++ [move] }

/-- A conversation with a new identifier. -/
def saveNewConversation (projectId : Option Uuid) (workspaceType : WorkspaceType)
    (title : String) : Except HistoryError StateStore := do
  let conversation ← Conversation.create s.nextId projectId workspaceType title
  return { s with
    nextId := s.nextId + 1
    conversations := s.conversations.upsert conversation trivial }

/-- A task of a conversation with a new identifier, as its first transaction leaves it. -/
def saveNewTask (c : Conversation) (request : TaskCreate) (key : String) :
    Except HistoryError StateStore :=
  if Text.strip request.userRequest = "" then .error (.valueError "user_request is required")
  else
    .ok { s with
      nextId := s.nextId + 1
      tasks := s.tasks.upsert
        { id := s.nextId
          projectId := c.projectId
          conversationId := c.id
          userRequest := Text.strip request.userRequest
          operationMode := request.operationMode
          executionTarget := request.executionTarget
          status := .resolvingScope
          idempotencyKey := key } trivial }

/-- The first transaction of `create_project`, with the conversation and the task that set
the project up. -/
def createProject (name : String) : Except HistoryError StateStore := do
  if Text.strip name = "" then throw (.valueError "project name is required")
  else if (Text.strip name).length > 255 then
    throw (.valueError "project name must contain at most 255 characters")
  else
    let project : Project :=
      { id := s.nextId
        name := Text.strip name
        pinnedAt := none
        deletedAt := none
        purgedAt := none
        metadataRevision := 0 }
    let s : StateStore := { s with
      nextId := s.nextId + 1
      projects := s.projects.upsert project trivial }
    let setup ← Conversation.create s.nextId (some project.id) .projectChat "New conversation"
    let s : StateStore := { s with
      nextId := s.nextId + 1
      conversations := s.conversations.upsert setup trivial }
    s.saveNewTask setup
      { conversationId := setup.id
        userRequest := "Create project"
        operationMode := .createNewVersion
        executionTarget := .local
        idempotencyKey := "" } s!"project:{project.id}:initialize"

def createConversation (projectId : Option Uuid) :
    WorkspaceType → Except HistoryError StateStore
  | .chatScratch => s.saveNewConversation none .chatScratch "New conversation"
  | .projectChat =>
    match projectId with
    | none => .error (.valueError "project_chat requires project_id")
    | some id => do
      let project ← s.requireProject id
      s.saveNewConversation (some project.id) .projectChat "New conversation"

/-- The first transaction of `create_task`. -/
def prepareTaskIntent (request : TaskCreate) : Except HistoryError StateStore := do
  let key ← normalizeIdempotencyKey request.idempotencyKey
  match s.tasks.oneOrNone fun t => t.idempotencyKey = key with
  | some existing =>
    validateTaskReplay existing request
    return s
  | none =>
    let conversation ← s.requireConversation request.conversationId
    s.saveNewTask conversation request key

/-- `transition_to`, as the later transactions of a task call it. -/
def transitionTask (id : Uuid) (status : TaskStatus) : Except HistoryError StateStore :=
  match s.tasks.find? id with
  | none => .error (.keyError s!"task not found: {id}")
  | some task =>
    if status ∈ task.status.transitions then
      .ok { s with tasks := s.tasks.update (fun row => row.id = id) fun row => { row with status } }
    else .error (.invalidTransition "cannot transition Task")

def moveToProject (now : Instant) (conversationId targetProjectId : Uuid) (expected : Nat)
    (userConfirmed : Bool) (idempotencyKey : String) : Except HistoryError StateStore := do
  if !userConfirmed then throw (.valueError "Conversation move requires explicit confirmation")
  else
    let key ← normalizeIdempotencyKey idempotencyKey
    match s.moves.find? fun move => move.idempotencyKey = key with
    | some existing =>
      if existing.sourceConversationId ≠ conversationId ∨
          existing.targetProjectId ≠ targetProjectId then
        throw (.idempotencyConflict
          "Conversation move idempotency key does not match the request")
      else return s
    | none =>
      let source ← s.requireConversation conversationId
      if source.workspaceType ≠ .chatScratch then
        throw (.invalidTransition "Only scratch Conversations can move to a Project")
      else if source.deletedAt ≠ none then
        throw (.invalidTransition "Deleted Conversation cannot be moved")
      else
        s.requireInactive source
        let project ← s.requireProject targetProjectId
        let destinationId := s.nextId
        let s ← s.saveNewConversation (some project.id) .projectChat source.title
        let s ← s.saveConversationMove ⟨key, source.id, destinationId, project.id⟩
        let deleted ← source.delete now expected false
        s.updateConversationMetadata deleted expected

def deleteConversation (now : Instant) (conversationId : Uuid) (expected : Nat)
    (userConfirmed : Bool) : Except HistoryError StateStore := do
  if !userConfirmed then
    throw (.valueError "Conversation deletion requires explicit confirmation")
  else
    let c ← s.requireConversation conversationId
    if c.revision = expected + 1 ∧ c.deletedAt ≠ none ∧ c.purgedAt = none then return s
    else
      s.requireInactive c
      let deleted ← c.delete now expected false
      let s ← s.updateConversationMetadata deleted expected
      return s.record (.conversationDeleted deleted.projectId deleted.id deleted.revision)

def conversationRestored (c : Conversation) : Bool := s.events.any fun
  | .conversationRestored projectId conversationId revision =>
    projectId = c.projectId ∧ conversationId = c.id ∧ revision = c.revision
  | _ => false

/-- A conversation of a project is restored only while the project is there. -/
def requireProjectLive : Option Uuid → Except HistoryError Unit
  | none => .ok ()
  | some id => do
    let project ← s.requireProject id
    if project.deletedAt ≠ none ∨ project.purgedAt ≠ none then
      throw (.invalidTransition "Project Conversation must be restored with its Project")
    else return ()

def restoreDeletedConversation (conversationId : Uuid) (expected : Nat) :
    Except HistoryError StateStore := do
  let c ← s.requireConversation conversationId
  if c.revision = expected + 1 ∧ c.deletedAt = none ∧ c.purgedAt = none ∧
      s.conversationRestored c then return s
  else
    s.requireProjectLive c.projectId
    let restored ← c.restoreDeleted expected
    let s ← s.updateConversationMetadata restored c.revision
    return s.record (.conversationRestored restored.projectId restored.id restored.revision)

def purgeDeletedConversation (now : Instant) (conversationId : Uuid) (expected : Nat)
    (userConfirmed : Bool) : Except HistoryError StateStore := do
  if !userConfirmed then throw (.valueError "Permanent deletion requires explicit confirmation")
  else
    let c ← s.requireConversation conversationId
    if c.revision = expected + 1 ∧ c.purgedAt ≠ none then return s
    else
      s.requireInactive c
      if c.deletedAt = none then
        throw (.invalidTransition "Conversation must be deleted before it is purged")
      else if c.purgedAt ≠ none then
        throw (.invalidTransition "Conversation is already purged")
      else
        let purged ← c.markPurged now expected
        let s ← s.updateConversationMetadata purged c.revision
        return s.record (.conversationPurged purged.projectId purged.id purged.revision)

/-- The loop over the conversations of a project: those for which `f` gives nothing are
skipped. -/
def forConversations (f : Conversation → Option (Except HistoryError Conversation)) :
    List Conversation → StateStore → Except HistoryError StateStore
  | [], s => .ok s
  | c :: cs, s =>
    match f c with
    | none => forConversations f cs s
    | some changed => do
      let changed ← changed
      let s ← s.updateConversationMetadata changed c.revision
      forConversations f cs s

def deleteProject (now : Instant) (projectId : Uuid) (expected : Nat) (userConfirmed : Bool) :
    Except HistoryError StateStore := do
  if !userConfirmed then throw (.valueError "Project deletion requires explicit confirmation")
  else
    let p ← s.requireProject projectId
    if p.metadataRevision = expected + 1 ∧ p.deletedAt ≠ none ∧ p.purgedAt = none then return s
    else
      s.requireProjectInactive p.id
      let conversations := s.projectConversations p.id
      let deleted ← p.delete now expected
      let s ← s.updateProjectMetadata deleted p.metadataRevision
      let s ← forConversations (fun c =>
        if c.deletedAt ≠ none then none else some (c.delete now c.revision true)) conversations s
      return s.record
        (.projectDeleted deleted.id deleted.metadataRevision conversations.length)

def projectRestored (p : Project) : Bool := s.events.any fun
  | .projectRestored projectId metadataRevision _ =>
    projectId = p.id ∧ metadataRevision = p.metadataRevision
  | _ => false

def restoreDeletedProject (projectId : Uuid) (expected : Nat) : Except HistoryError StateStore := do
  let p ← s.requireProject projectId
  if p.metadataRevision = expected + 1 ∧ p.deletedAt = none ∧ p.purgedAt = none ∧
      s.projectRestored p then return s
  else
    let conversations := s.projectConversations p.id
    let restored ← p.restoreDeleted expected
    let s ← s.updateProjectMetadata restored p.metadataRevision
    let s ← forConversations (fun c =>
      if c.deletedAt = none ∨ c.deletedByProjectAt = none ∨ c.purgedAt ≠ none then none
      else some (c.restoreDeleted c.revision)) conversations s
    return s.record
      (.projectRestored restored.id restored.metadataRevision conversations.length)

def purgeDeletedProject (now : Instant) (projectId : Uuid) (expected : Nat)
    (userConfirmed : Bool) : Except HistoryError StateStore := do
  if !userConfirmed then throw (.valueError "Permanent deletion requires explicit confirmation")
  else
    let p ← s.requireProject projectId
    if p.metadataRevision = expected + 1 ∧ p.purgedAt ≠ none then return s
    else
      s.requireProjectInactive p.id
      if p.deletedAt = none then
        throw (.invalidTransition "Project must be deleted before it is purged")
      else
        let purged ← p.markPurged now expected
        let s ← s.updateProjectMetadata purged p.metadataRevision
        let s ← forConversations (fun c =>
          if c.deletedAt = none ∨ c.purgedAt ≠ none then none
          else some (c.markPurged now c.revision)) (s.projectConversations p.id) s
        return s.record (.projectPurged purged.id purged.metadataRevision)

end StateStore

inductive HistoryAct
  | createProject (name : String)
  | createConversation (projectId : Option Uuid) (workspaceType : WorkspaceType)
  | createTask (request : TaskCreate)
  | transitionTask (id : Uuid) (status : TaskStatus)
  /-- Turns, previews and runtimes start and end. -/
  | activity (turns previews runtimes : List Uuid)
  | moveConversation (now : Instant) (conversationId targetProjectId : Uuid) (expected : Nat)
      (userConfirmed : Bool) (idempotencyKey : String)
  | deleteConversation (now : Instant) (id : Uuid) (expected : Nat) (userConfirmed : Bool)
  | restoreConversation (id : Uuid) (expected : Nat)
  | purgeConversation (now : Instant) (id : Uuid) (expected : Nat) (userConfirmed : Bool)
  | deleteProject (now : Instant) (id : Uuid) (expected : Nat) (userConfirmed : Bool)
  | restoreProject (id : Uuid) (expected : Nat)
  | purgeProject (now : Instant) (id : Uuid) (expected : Nat) (userConfirmed : Bool)

namespace StateStore

def perform (s : StateStore) : HistoryAct → Except HistoryError StateStore
  | .createProject name => s.createProject name
  | .createConversation projectId workspaceType => s.createConversation projectId workspaceType
  | .createTask request => s.prepareTaskIntent request
  | .transitionTask id status => s.transitionTask id status
  | .activity turns previews runtimes => .ok { s with turns, previews, runtimes }
  | .moveConversation now conversationId targetProjectId expected userConfirmed key =>
    s.moveToProject now conversationId targetProjectId expected userConfirmed key
  | .deleteConversation now id expected userConfirmed =>
    s.deleteConversation now id expected userConfirmed
  | .restoreConversation id expected => s.restoreDeletedConversation id expected
  | .purgeConversation now id expected userConfirmed =>
    s.purgeDeletedConversation now id expected userConfirmed
  | .deleteProject now id expected userConfirmed => s.deleteProject now id expected userConfirmed
  | .restoreProject id expected => s.restoreDeletedProject id expected
  | .purgeProject now id expected userConfirmed =>
    s.purgeDeletedProject now id expected userConfirmed

/-- A call is a transaction: where it raises, also in a part that is not modelled, it changes
nothing. -/
def after (s : StateStore) (act : HistoryAct) (rest : Option HistoryError) : StateStore :=
  match s.perform act, rest with
  | .ok t, none => t
  | _, _ => s

end StateStore

end Fairy.History
