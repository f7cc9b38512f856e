import Fairy.Knowledge.SyncRuns
import Fairy.Lib.Json

namespace Fairy.Knowledge

open Fairy.Lib

inductive KnowledgeSourceStatus
  | configured | syncing | ready | partiallyReady | failed | disabled
  deriving DecidableEq

inductive SynchronizeError
  | knowledge (error : KnowledgeError)
  | integrityError (constraint : String)
  deriving DecidableEq

/-- `hashlib.sha256` of a text in hexadecimal, and `_revision_hash` of a revision's values. -/
structure ContentHashing where
  sha256 : String → String
  revisionHash (itemId : Uuid) (revision : Nat) (relativePath title kind contentHash : String)
    (links : List String) (frontmatter provenance : Json) (sourceCursor : Nat) : String

/-- An item that a connector has read, with the hash of its content. -/
structure KnowledgeIngestItem (x : ContentHashing) where
  relativePath : String
  title : String
  kind : String
  content : String
  contentHash : String
  links : List String
  frontmatter : Json
  provenance : Json
  hashed : contentHash = x.sha256 content

/-- A row of `core_knowledge_sources`. -/
structure KnowledgeSource where
  id : Uuid
  displayName : String
  displayPath : String
  status : KnowledgeSourceStatus
  revision : Nat
  syncCursor : Nat
  updatedAt : Time
  deriving DecidableEq

/-- A row of `core_knowledge_revisions`. -/
structure KnowledgeRevision where
  id : Uuid
  itemId : Uuid
  revision : Nat
  relativePath : String
  title : String
  kind : String
  content : String
  contentHash : String
  revisionHash : String
  links : List String
  frontmatter : Json
  provenance : Json
  sourceCursor : Nat
  createdAt : Time
  deriving DecidableEq

/-- A row of `core_knowledge_items`. -/
structure KnowledgeItem where
  id : Uuid
  relativePath : String
  currentRevisionId : Option Uuid
  currentRevision : Nat
  tombstonedAt : Option Time
  createdAt : Time
  updatedAt : Time
  deriving DecidableEq

namespace KnowledgeItem

variable (item : KnowledgeItem)

def moved (path : String) (now : Time) : KnowledgeItem :=
  { item with relativePath := path, updatedAt := now }

def revived (now : Time) : KnowledgeItem := { item with tombstonedAt := none, updatedAt := now }

def buried (now : Time) : KnowledgeItem := { item with tombstonedAt := some now, updatedAt := now }

def revised (revision : KnowledgeRevision) (now : Time) : KnowledgeItem :=
  { item with
    relativePath := revision.relativePath, currentRevisionId := some revision.id
    currentRevision := revision.revision, tombstonedAt := none, updatedAt := now }

end KnowledgeItem

/-- `KnowledgeRevision.create` from an item whose values have been checked. -/
def KnowledgeRevision.create (x : ContentHashing) (id itemId : Uuid) (revision : Nat)
    (entry : KnowledgeIngestItem x) (sourceCursor : Nat) (createdAt : Time) : KnowledgeRevision :=
  let contentHash := x.sha256 entry.content
  { id, itemId, revision, relativePath := entry.relativePath, title := entry.title
    kind := entry.kind, content := entry.content, contentHash
    revisionHash := x.revisionHash itemId revision entry.relativePath entry.title entry.kind
      contentHash entry.links entry.frontmatter entry.provenance sourceCursor
    links := entry.links, frontmatter := entry.frontmatter, provenance := entry.provenance
    sourceCursor, createdAt }

structure KnowledgeSyncDelta where
  createdRevisions : List KnowledgeRevision
  deletedItemIds : List Uuid
  deriving DecidableEq

/-- The tables as one source of one tenant sees them. -/
structure KnowledgeStore where
  source : Option KnowledgeSource
  items : Table KnowledgeItem (·.id) fun _ => True
  revisions : Table KnowledgeRevision (·.id) fun _ => True

namespace KnowledgeStore

def empty : KnowledgeStore := ⟨none, .empty, .empty⟩

section Write

variable (s : KnowledgeStore)

/-- `INSERT` into `core_knowledge_items`. -/
def insertItem (item : KnowledgeItem) : Except SynchronizeError KnowledgeStore :=
  if ∃ other ∈ s.items.rows, other.relativePath = item.relativePath then
    .error (.integrityError "uq_knowledge_items_source_path")
  else
    match s.items.insertAll [item] with
    | none => .error (.integrityError "pk_core_knowledge_items")
    | some items => .ok { s with items }

/-- `UPDATE core_knowledge_items` of one item. -/
def updateItem (id : Uuid) (f : KnowledgeItem → KnowledgeItem) (hf : ∀ item, (f item).id = item.id) :
    Except SynchronizeError KnowledgeStore :=
  let items := s.items.update (fun item => item.id = id) f hf
  if (items.rows.map (·.relativePath)).Nodup then .ok { s with items }
  else .error (.integrityError "uq_knowledge_items_source_path")

/-- `INSERT` into `core_knowledge_revisions`. -/
def insertRevision (revision : KnowledgeRevision) : Except SynchronizeError KnowledgeStore :=
  if ∃ other ∈ s.revisions.rows, other.itemId = revision.itemId ∧
      other.revision = revision.revision then
    .error (.integrityError "uq_knowledge_revisions_item_revision")
  else
    match s.revisions.insertAll [revision] with
    | none => .error (.integrityError "pk_core_knowledge_revisions")
    | some revisions => .ok { s with revisions }

end Write

section Read

variable (s : KnowledgeStore)

/-- `by_path.get`. -/
def byPath (path : String) : Option KnowledgeItem :=
  s.items.rows.find? fun item => item.relativePath = path

/-- `_current_revision_rows`. -/
def currentRevisionRows : List KnowledgeRevision :=
  s.revisions.rows.filter fun revision =>
    s.items.rows.any fun item => item.currentRevisionId = some revision.id

/-- `revision_by_item.get`: the last row of an item stands. -/
def revisionByItem (id : Uuid) : Option KnowledgeRevision :=
  (s.currentRevisionRows.filter fun revision => revision.itemId = id).getLast?

/-- The items whose path is not among those that have come in. -/
def removed (paths : List String) : List KnowledgeItem :=
  s.items.rows.filter fun item => item.relativePath ∉ paths

/-- `rename_candidates.get`. -/
def renameCandidates (paths : List String) (contentHash : String) : List KnowledgeItem :=
  (s.removed paths).filter fun item =>
    (s.revisionByItem item.id).any (·.contentHash = contentHash)

end Read

end KnowledgeStore

/-- The state of the loop over the entries; `next` counts the calls of `new_id`. -/
structure SyncState where
  store : KnowledgeStore
  consumed : List Uuid
  created : List KnowledgeRevision
  next : Nat

/-- What a call of `synchronize` has at hand: the store it has read, the paths that have come in,
the cursor of the source, the ids and the clocks. -/
structure SyncContext where
  read : KnowledgeStore
  paths : List String
  sourceCursor : Nat
  now : Time
  newId : Nat → Uuid
  clock : Nat → Time

namespace SyncContext

variable {x : ContentHashing} (c : SyncContext)

/-- The item of an entry: that of its path, the one renamed to it or a new one. -/
def place (entry : KnowledgeIngestItem x) (σ : SyncState) :
    Except SynchronizeError (KnowledgeItem × SyncState) :=
  match c.read.byPath entry.relativePath with
  | some item => .ok (item, σ)
  | none =>
    match (c.read.renameCandidates c.paths entry.contentHash).filter (·.id ∉ σ.consumed) with
    | [item] => do
      let store ← σ.store.updateItem item.id (·.moved entry.relativePath c.now) fun _ => rfl
      return (item, { σ with store, consumed := σ.consumed ++ [item.id] })
    | _ => do
      let item : KnowledgeItem :=
        { id := c.newId σ.next, relativePath := entry.relativePath, currentRevisionId := none
          currentRevision := 0, tombstonedAt := none, createdAt := c.now, updatedAt := c.now }
      let store ← σ.store.insertItem item
      return (item, { σ with store, next := σ.next + 1 })

/-- The revision is the one that the item already has. -/
def Unchanged (entry : KnowledgeIngestItem x) (item : KnowledgeItem) : Prop :=
  ∃ previous ∈ c.read.revisionByItem item.id,
    previous.contentHash = entry.contentHash ∧ previous.relativePath = entry.relativePath

instance (entry : KnowledgeIngestItem x) (item : KnowledgeItem) :
    Decidable (c.Unchanged entry item) :=
  inferInstanceAs (Decidable (∃ previous ∈ c.read.revisionByItem item.id, _))

/-- The rest of the loop's body: the item is left, revived or revised. -/
def record (entry : KnowledgeIngestItem x) (item : KnowledgeItem) (σ : SyncState) :
    Except SynchronizeError SyncState :=
  if c.Unchanged entry item then
    if item.tombstonedAt ≠ none then do
      let store ← σ.store.updateItem item.id (·.revived c.now) fun _ => rfl
      return { σ with store }
    else .ok σ
  else do
    let revision := KnowledgeRevision.create x (c.newId σ.next) item.id (item.currentRevision + 1)
      entry c.sourceCursor (c.clock σ.next)
    let inserted ← σ.store.insertRevision revision
    let store ← inserted.updateItem item.id (·.revised revision c.now) fun _ => rfl
    return { σ with store, created := σ.created ++ [revision], next := σ.next + 1 }

def step (σ : SyncState) (entry : KnowledgeIngestItem x) : Except SynchronizeError SyncState := do
  let (item, σ) ← c.place entry σ
  c.record entry item σ

/-- The removed items that are neither renamed nor already buried. -/
def buriable (σ : SyncState) : List KnowledgeItem :=
  (c.read.removed c.paths).filter fun item => item.id ∉ σ.consumed ∧ item.tombstonedAt = none

def bury (store : KnowledgeStore) (item : KnowledgeItem) : Except SynchronizeError KnowledgeStore :=
  store.updateItem item.id (·.buried c.now) fun _ => rfl

end SyncContext

namespace KnowledgeStore

variable {x : ContentHashing}

def checkCursor (s : KnowledgeStore) (source : KnowledgeSource) : Except SynchronizeError Unit :=
  match s.source with
  | none => .error (.knowledge (.keyError s!"Knowledge Source not found: {source.id}"))
  | some persisted =>
    if persisted.syncCursor > source.syncCursor then
      .error (.knowledge (.versionConflict "Knowledge Source cursor moved backwards"))
    else .ok ()

/-- `UPDATE core_knowledge_sources`. -/
def updateSource (s : KnowledgeStore) (source : KnowledgeSource) : KnowledgeStore :=
  { s with source := s.source.map fun persisted =>
      { persisted with
        status := source.status, revision := source.revision, syncCursor := source.syncCursor
        displayName := source.displayName, displayPath := source.displayPath
        updatedAt := source.updatedAt } }

def synchronize (s : KnowledgeStore) (source : KnowledgeSource)
    (entries : List (KnowledgeIngestItem x)) (now : Time) (newId : Nat → Uuid)
    (clock : Nat → Time) : Except SynchronizeError (KnowledgeStore × KnowledgeSyncDelta) := do
  if source.syncCursor < 1 then
    throw (.knowledge (.valueError "Synchronized Knowledge Source requires a positive cursor"))
  if ¬ (entries.map (·.relativePath)).Nodup then
    throw (.knowledge (.valueError "Knowledge synchronization contains duplicate paths"))
  s.checkCursor source
  let c : SyncContext := ⟨s, entries.map (·.relativePath), source.syncCursor, now, newId, clock⟩
  let σ ← (entries.mergeSort fun a b => a.relativePath ≤ b.relativePath).foldlM c.step
    ⟨s, [], [], 0⟩
  let store ← (c.buriable σ).foldlM c.bury σ.store
  return (store.updateSource source, ⟨σ.created, (c.buriable σ).map (·.id)⟩)

end KnowledgeStore

end Fairy.Knowledge
