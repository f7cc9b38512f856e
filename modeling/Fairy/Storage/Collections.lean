import Fairy.Lib.Keyset
import Fairy.Lib.Table
import Fairy.Storage.Pagination
import Mathlib.Data.Prod.Lex

namespace Fairy.Storage

open Fairy.Lib

/-! The columns that the listings read. -/

structure ProjectRow where
  id : Uuid
  createdAt : Instant
  archivedAt : Option Instant
  deletedAt : Option Instant
  purgedAt : Option Instant

structure ConversationRow where
  id : Uuid
  createdAt : Instant
  projectId : Option Uuid
  deletedAt : Option Instant
  deletedByProjectAt : Option Instant
  purgedAt : Option Instant

structure VersionRow where
  id : Uuid
  createdAt : Instant
  workspaceId : Uuid
  projectId : Option Uuid
  sourceConversationId : Option Uuid
  sourceTaskId : Option Uuid

structure TaskRow where
  id : Uuid
  createdAt : Instant
  projectId : Option Uuid
  conversationId : Uuid

structure ApprovalRow where
  id : Uuid
  createdAt : Instant
  taskId : Uuid

structure CollectionStore where
  projects : Table ProjectRow (·.id) fun _ => True
  conversations : Table ConversationRow (·.id) fun _ => True
  versions : Table VersionRow (·.id) fun _ => True
  tasks : Table TaskRow (·.id) fun _ => True
  approvals : Table ApprovalRow (·.id) fun _ => True

section PageRows

variable {ρ : Type} (codec : CursorCodec) (createdAt : ρ → Instant) (id : ρ → Uuid)

/-- `ORDER BY created_at, id`; identifiers are stored as texts. -/
def rowKey (r : ρ) : Int ×ₗ PyString := toLex ((createdAt r).value, codec.uuidText (id r))

/-- The predicate of a position. -/
def After (position : Option CursorPosition) (r : ρ) : Prop :=
  ∀ p ∈ position, p.createdAt.value < (createdAt r).value ∨
    (createdAt r).value = p.createdAt.value ∧ codec.uuidText p.entityId < codec.uuidText (id r)

instance {position : Option CursorPosition} {r : ρ} :
    Decidable (After codec createdAt id position r) :=
  inferInstanceAs (Decidable (∀ p ∈ position, _))

/-- `_page_rows`. -/
def pageRows (rows : List ρ) (collection : PyString) (scope : Scope) (filters : ρ → Prop)
    [DecidablePred filters] (limit : Int) (cursor : Option PyString) :
    Except PageError (List ρ × Option PyString) := do
  validateLimit limit
  let position ← decodeCursor codec cursor collection scope
  let rows := (Keyset.ordered (rowKey codec createdAt id)
    (rows.filter fun r => filters r ∧ After codec createdAt id position r)).take (limit.toNat + 1)
  let page := rows.take limit.toNat
  return (page, if limit.toNat < rows.length then
      page.getLast?.map fun last => encodeCursor codec ⟨createdAt last, id last⟩ collection scope
    else none)

end PageRows

/-- `_scope_id`. -/
def scopeId (codec : CursorCodec) (id : Option Uuid) : Option PyString := id.map codec.uuidText

/-- A filter on a column that an argument asks for. -/
def Asked {α : Type} (argument : Option α) (column : Option α) : Prop :=
  ∀ value ∈ argument, column = some value

instance {α : Type} [DecidableEq α] {argument column : Option α} :
    Decidable (Asked argument column) :=
  inferInstanceAs (Decidable (∀ value ∈ argument, column = some value))

section Listings

variable (codec : CursorCodec) (store : CollectionStore)

inductive ProjectLifecycle
  | active | archived | deleted

def ProjectLifecycle.name : ProjectLifecycle → String
  | active => "active"
  | archived => "archived"
  | deleted => "deleted"

def ProjectLifecycle.Filters : ProjectLifecycle → ProjectRow → Prop
  | active, r => r.archivedAt = none ∧ r.deletedAt = none
  | archived, r => r.archivedAt ≠ none ∧ r.deletedAt = none
  | deleted, r => r.deletedAt ≠ none ∧ r.purgedAt = none

instance : ∀ lifecycle : ProjectLifecycle, DecidablePred lifecycle.Filters
  | .active, _ | .archived, _ | .deleted, _ => inferInstanceAs (Decidable (_ ∧ _))

/-- `list_projects`, for a lifecycle that it has filters for. -/
def listProjects (lifecycle : ProjectLifecycle) :
    Int → Option PyString → Except PageError (List ProjectRow × Option PyString) :=
  pageRows codec (·.createdAt) (·.id) store.projects.rows (.ofString "projects")
    [(.ofString "lifecycle", some (.ofString lifecycle.name))] lifecycle.Filters

inductive ConversationLifecycle
  | active | deleted | all

def ConversationLifecycle.name : ConversationLifecycle → String
  | active => "active"
  | deleted => "deleted"
  | all => "all"

def ConversationLifecycle.Filters : ConversationLifecycle → ConversationRow → Prop
  | active, r => r.deletedAt = none
  | deleted, r => r.deletedAt ≠ none ∧ r.purgedAt = none
  | all, r => r.purgedAt = none

instance : ∀ lifecycle : ConversationLifecycle, DecidablePred lifecycle.Filters
  | .active, _ | .all, _ => inferInstanceAs (Decidable (_ = _))
  | .deleted, _ => inferInstanceAs (Decidable (_ ∧ _))

def listConversations (projectId : Option Uuid) (lifecycle : ConversationLifecycle) :
    Int → Option PyString → Except PageError (List ConversationRow × Option PyString) :=
  pageRows codec (·.createdAt) (·.id) store.conversations.rows (.ofString "conversations")
    [(.ofString "project_id", scopeId codec projectId),
      (.ofString "lifecycle", some (.ofString lifecycle.name))]
    fun r => Asked projectId r.projectId ∧ lifecycle.Filters r

def listVersions (workspaceId projectId conversationId taskId : Option Uuid) :
    Int → Option PyString → Except PageError (List VersionRow × Option PyString) :=
  pageRows codec (·.createdAt) (·.id) store.versions.rows (.ofString "versions")
    [(.ofString "workspace_id", scopeId codec workspaceId),
      (.ofString "project_id", scopeId codec projectId),
      (.ofString "conversation_id", scopeId codec conversationId),
      (.ofString "task_id", scopeId codec taskId)]
    fun r => Asked workspaceId (some r.workspaceId) ∧ Asked projectId r.projectId ∧
      Asked conversationId r.sourceConversationId ∧ Asked taskId r.sourceTaskId

def listTasks (projectId conversationId : Option Uuid) :
    Int → Option PyString → Except PageError (List TaskRow × Option PyString) :=
  pageRows codec (·.createdAt) (·.id) store.tasks.rows (.ofString "tasks")
    [(.ofString "project_id", scopeId codec projectId),
      (.ofString "conversation_id", scopeId codec conversationId)]
    fun r => Asked projectId r.projectId ∧ Asked conversationId (some r.conversationId)

/-- An approval is joined with the one task of its identifier, if there is one. -/
def Joined (projectId conversationId : Option Uuid) (r : ApprovalRow) : Prop :=
  ∃ t ∈ store.tasks.rows, t.id = r.taskId ∧ Asked projectId t.projectId ∧
    Asked conversationId (some t.conversationId)

instance {projectId conversationId : Option Uuid} :
    DecidablePred (Joined store projectId conversationId) :=
  fun _ => inferInstanceAs (Decidable (∃ t ∈ store.tasks.rows, _))

def listApprovals (projectId conversationId taskId : Option Uuid) :
    Int → Option PyString → Except PageError (List ApprovalRow × Option PyString) :=
  pageRows codec (·.createdAt) (·.id) store.approvals.rows (.ofString "approvals")
    [(.ofString "project_id", scopeId codec projectId),
      (.ofString "conversation_id", scopeId codec conversationId),
      (.ofString "task_id", scopeId codec taskId)]
    fun r => Joined store projectId conversationId r ∧ Asked taskId (some r.taskId)

/-- `_all_projects`, with the number of its rounds. -/
def allProjects (lifecycle : ProjectLifecycle) (rounds : Nat) :
    Except PageError (Option (List ProjectRow)) :=
  Keyset.gather (listProjects codec store lifecycle) 100 rounds none

/-- `_all_conversations`. -/
def allConversations (lifecycle : ConversationLifecycle) (rounds : Nat) :
    Except PageError (Option (List ConversationRow)) :=
  Keyset.gather (listConversations codec store none lifecycle) 100 rounds none

end Listings

section Pages

variable {ρ : Type} {codec : CursorCodec} {createdAt : ρ → Instant} {id : ρ → Uuid} {rows : List ρ}
  {collection : PyString} {scope : Scope} {filters : ρ → Prop} [DecidablePred filters]

def positionKey (codec : CursorCodec) (p : CursorPosition) : Int ×ₗ PyString :=
  toLex (p.createdAt.value, codec.uuidText p.entityId)

/-- A cursor that a listing has written stands for the key of the row it was written for. -/
def Stands (codec : CursorCodec) (collection : PyString) (scope : Scope) (cursor : PyString)
    (k : Int ×ₗ PyString) : Prop :=
  ∃ p, cursor = encodeCursor codec p collection scope ∧ k = positionKey codec p

theorem after_iff {position : Option CursorPosition} {r : ρ} :
    After codec createdAt id position r ↔
      Keyset.Behind (rowKey codec createdAt id) (position.map (positionKey codec)) r := by
  cases position with
  | none => simp [After, Keyset.Behind]
  | some p =>
    simp only [After, Keyset.Behind, Option.map_some, Option.mem_def, Option.some.injEq,
      forall_eq', positionKey, rowKey, Prod.Lex.toLex_lt_toLex]
    exact or_congr_right (and_congr_left' eq_comm)

theorem nodup_rowKey (h : (rows.map id).Nodup) :
    ((rows.filter fun r => filters r).map (rowKey codec createdAt id)).Nodup := by
  have hids : ((rows.filter fun r => filters r).map id).Nodup :=
    h.sublist (List.filter_sublist.map id)
  rw [List.Nodup, List.pairwise_map] at hids ⊢
  refine hids.imp fun {a b} hne heq => hne ?_
  have htext : codec.uuidText (id a) = codec.uuidText (id b) :=
    congrArg (fun k => (ofLex k).2) heq
  have hread := codec.uuidText_read (id a)
  rw [htext, codec.uuidText_read] at hread
  exact (Option.some.inj hread).symm

/-- The cursor of a page stands for the key of its last row. -/
theorem rel_next {page : List ρ} {more : Prop} [Decidable more] :
    Option.Rel (Stands codec collection scope)
      (if more then
        page.getLast?.map fun last => encodeCursor codec ⟨createdAt last, id last⟩ collection scope
      else none)
      (if more then page.getLast?.map (rowKey codec createdAt id) else none) := by
  by_cases hmore : more
  · rw [if_pos hmore, if_pos hmore]
    cases page.getLast? with
    | none => exact .none
    | some last => exact .some ⟨⟨createdAt last, id last⟩, rfl, rfl⟩
  · rw [if_neg hmore, if_neg hmore]
    exact .none

theorem pageRows_eq {limit : Int} {cursor : Option PyString} {position : Option CursorPosition}
    (hlimit : 1 ≤ limit ∧ limit ≤ 100)
    (hcursor : decodeCursor codec cursor collection scope = .ok position) :
    ∃ answer, pageRows codec createdAt id rows collection scope filters limit cursor = .ok answer ∧
      Keyset.Answers (rowKey codec createdAt id) (rows.filter fun r => filters r)
        (Stands codec collection scope) (position.map (positionKey codec)) answer := by
  have hselected : (rows.filter fun r => filters r ∧ After codec createdAt id position r) =
      (rows.filter fun r => filters r).filter fun r =>
        Keyset.Behind (rowKey codec createdAt id) (position.map (positionKey codec)) r := by
    rw [List.filter_filter]
    refine List.filter_congr fun r _ => ?_
    rw [Bool.eq_iff_iff, Bool.and_eq_true, decide_eq_true_eq, decide_eq_true_eq,
      decide_eq_true_eq, after_iff, and_comm]
  simp only [pageRows, validateLimit, if_neg (not_not.2 hlimit), hcursor, ok_bind, hselected]
  exact ⟨_, rfl, limit.toNat, by omega, rfl, rel_next⟩

variable (codec createdAt id rows) in
/-- Each row that matches stands once in a list, in the order of the listing. -/
structure Complete (Matches : ρ → Prop) (l : List ρ) : Prop where
  sorted : l.Pairwise fun a b => rowKey codec createdAt id a < rowKey codec createdAt id b
  mem_iff : ∀ r, r ∈ l ↔ r ∈ rows ∧ Matches r

/-- The name of a collection is short and ASCII. -/
structure Named (collection : PyString) : Prop where
  ascii : Ascii collection
  short : collection.length ≤ 16

/-- A cursor that a listing has written is read as the position that it stands for. -/
theorem decode_of_rel (hname : Named collection) {cursor : Option PyString}
    {k : Option (Int ×ₗ PyString)} (h : Option.Rel (Stands codec collection scope) cursor k) :
    ∃ position : Option CursorPosition, k = position.map (positionKey codec) ∧
      decodeCursor codec cursor collection scope = .ok position := by
  cases h with
  | none => exact ⟨none, rfl, rfl⟩
  | some h =>
    obtain ⟨p, rfl, rfl⟩ := h
    exact ⟨some p, rfl, by
      rw [decodeCursor_encodeCursor hname.ascii hname.short, if_pos ⟨rfl, rfl⟩]⟩

theorem limit_of_ok {limit : Int} {cursor : Option PyString} {answer : List ρ × Option PyString}
    (h : pageRows codec createdAt id rows collection scope filters limit cursor = .ok answer) :
    1 ≤ limit ∧ limit ≤ 100 := by
  by_contra hlimit
  simp only [pageRows, validateLimit, if_pos hlimit] at h
  cases h

variable (hid : (rows.map id).Nodup) (hname : Named collection)

include hname in
theorem answers_of_ok {limit : Int} {cursor : Option PyString} {k : Option (Int ×ₗ PyString)}
    {answer : List ρ × Option PyString}
    (hcursor : Option.Rel (Stands codec collection scope) cursor k)
    (h : pageRows codec createdAt id rows collection scope filters limit cursor = .ok answer) :
    Keyset.Answers (rowKey codec createdAt id) (rows.filter fun r => filters r)
      (Stands codec collection scope) k answer := by
  obtain ⟨position, rfl, hdecoded⟩ := decode_of_rel hname hcursor
  obtain ⟨answer', hanswer, hanswers⟩ := @pageRows_eq _ codec createdAt id rows
    collection scope filters _ limit cursor position (limit_of_ok h) hdecoded
  rw [hanswer] at h
  cases h
  exact hanswers

include hid

/-- The rows that match, in order. -/
theorem complete_left : Complete codec createdAt id rows filters
    (Keyset.left (rowKey codec createdAt id) (rows.filter fun r => filters r) none) where
  sorted := Keyset.left_strict (nodup_rowKey hid)
  mem_iff := by
    intro r
    rw [Keyset.left_none, Keyset.ordered_perm.mem_iff, List.mem_filter, decide_eq_true_eq]

include hname

/-- The pages of a listing, whatever the limits are that they were asked with. -/
theorem pages_complete {pages : List (List ρ)}
    (h : Keyset.Pages (Keyset.Answered (pageRows codec createdAt id rows collection scope filters))
      none pages) :
    Complete codec createdAt id rows filters pages.flatten := by
  have hflat := h.flatten (nodup_rowKey hid)
    (fun limit cursor k answer hcursor hok => answers_of_ok hname hcursor hok) .none
  rw [hflat]
  exact complete_left hid

/-- The loop over a listing ends with every row that matches. -/
theorem gather_complete {rounds : Nat} (hrounds : rows.length < rounds) : ∃ l,
    Keyset.gather (pageRows codec createdAt id rows collection scope filters) 100 rounds none =
      .ok (some l) ∧ Complete codec createdAt id rows filters l := by
  refine ⟨_, Keyset.gather_eq (nodup_rowKey hid)
    (fun limit cursor k answer hcursor hok => answers_of_ok hname hcursor hok)
    (fun cursor k hcursor => ?_) .none ?_, complete_left hid⟩
  · obtain ⟨position, -, hdecoded⟩ := decode_of_rel hname hcursor
    obtain ⟨answer, hanswer, -⟩ := @pageRows_eq _ codec createdAt id rows
      collection scope filters _ 100 cursor position (by decide) hdecoded
    exact ⟨answer, hanswer⟩
  · rw [Keyset.left_none, Keyset.ordered_perm.length_eq]
    exact (List.length_filter_le _ _).trans_lt hrounds

end Pages

section Store

variable {codec : CursorCodec} {store : CollectionStore}

theorem named_collections : Named (.ofString "projects") ∧ Named (.ofString "conversations") ∧
    Named (.ofString "versions") ∧ Named (.ofString "tasks") ∧ Named (.ofString "approvals") := by
  refine ⟨⟨?_, ?_⟩, ⟨?_, ?_⟩, ⟨?_, ?_⟩, ⟨?_, ?_⟩, ⟨?_, ?_⟩⟩ <;> decide

/-- Whatever pages of whatever size a listing is read in, they hold each row that matches once, in
the order of creation. -/
theorem listings_complete (codec : CursorCodec) (store : CollectionStore) :
    (∀ lifecycle pages, Keyset.Pages (Keyset.Answered (listProjects codec store lifecycle))
      none pages →
      Complete codec (·.createdAt) (·.id) store.projects.rows lifecycle.Filters pages.flatten) ∧
    (∀ projectId lifecycle pages,
      Keyset.Pages (Keyset.Answered (listConversations codec store projectId lifecycle)) none
        pages →
        Complete codec (·.createdAt) (·.id) store.conversations.rows
          (fun r => Asked projectId r.projectId ∧ lifecycle.Filters r) pages.flatten) ∧
    (∀ workspaceId projectId conversationId taskId pages,
      Keyset.Pages (Keyset.Answered
          (listVersions codec store workspaceId projectId conversationId taskId)) none pages →
        Complete codec (·.createdAt) (·.id) store.versions.rows
          (fun r => Asked workspaceId (some r.workspaceId) ∧ Asked projectId r.projectId ∧
            Asked conversationId r.sourceConversationId ∧ Asked taskId r.sourceTaskId)
          pages.flatten) ∧
    (∀ projectId conversationId pages,
      Keyset.Pages (Keyset.Answered (listTasks codec store projectId conversationId)) none pages →
        Complete codec (·.createdAt) (·.id) store.tasks.rows
          (fun r => Asked projectId r.projectId ∧ Asked conversationId (some r.conversationId))
          pages.flatten) ∧
    ∀ projectId conversationId taskId pages,
      Keyset.Pages (Keyset.Answered (listApprovals codec store projectId conversationId taskId))
        none pages →
        Complete codec (·.createdAt) (·.id) store.approvals.rows
          (fun r => Joined store projectId conversationId r ∧ Asked taskId (some r.taskId))
          pages.flatten := by
  obtain ⟨hprojects, hconversations, hversions, htasks, happrovals⟩ := named_collections
  refine ⟨fun _ _ h => ?_, fun _ _ _ h => ?_, fun _ _ _ _ _ h => ?_, fun _ _ _ h => ?_,
    fun _ _ _ _ h => ?_⟩
  · exact pages_complete store.projects.nodup hprojects h
  · exact pages_complete store.conversations.nodup hconversations h
  · exact pages_complete store.versions.nodup hversions h
  · exact pages_complete store.tasks.nodup htasks h
  · exact pages_complete store.approvals.nodup happrovals h

theorem allProjects_complete (lifecycle : ProjectLifecycle) {rounds : Nat}
    (hrounds : store.projects.rows.length < rounds) : ∃ l,
    allProjects codec store lifecycle rounds = .ok (some l) ∧
      Complete codec (·.createdAt) (·.id) store.projects.rows lifecycle.Filters l :=
  gather_complete store.projects.nodup named_collections.1 hrounds

theorem allConversations_complete (lifecycle : ConversationLifecycle) {rounds : Nat}
    (hrounds : store.conversations.rows.length < rounds) : ∃ l,
    allConversations codec store lifecycle rounds = .ok (some l) ∧
      Complete codec (·.createdAt) (·.id) store.conversations.rows
        (fun r => Asked none r.projectId ∧ lifecycle.Filters r) l :=
  gather_complete store.conversations.nodup named_collections.2.1 hrounds

end Store

inductive TrashType
  | project | projectConversation | conversation
  deriving DecidableEq

/-- What a `TrashItemRecord` says of the item itself. -/
structure TrashItem where
  itemType : TrashType
  itemId : Uuid
  deletedAt : Instant
  sourceProjectId : Option Uuid
  canRestore : Bool
  deriving DecidableEq

section Listing

variable (codec : CursorCodec) (store : CollectionStore)

/-- `ORDER BY`, descending. -/
def trashKey (item : TrashItem) : (Int ×ₗ Nat)ᵒᵈ :=
  OrderDual.toDual (toLex (item.deletedAt.value, item.itemId.val))

def trashPositionKey (p : CursorPosition) : (Int ×ₗ Nat)ᵒᵈ :=
  OrderDual.toDual (toLex (p.createdAt.value, p.entityId.val))

/-- The listing leaves no project without the time of its deletion. -/
def projectItem (r : ProjectRow) : Option TrashItem :=
  r.deletedAt.map fun deletedAt => ⟨.project, r.id, deletedAt, none, true⟩

/-- A conversation that was deleted with its project is listed with it. -/
def conversationItem (projects : List ProjectRow) (r : ConversationRow) : Option TrashItem :=
  if r.deletedByProjectAt ≠ none then none
  else
    let project := r.projectId.bind fun id => projects.find? fun p => p.id = id
    r.deletedAt.map fun deletedAt =>
      ⟨if r.projectId ≠ none then .projectConversation else .conversation, r.id, deletedAt,
        r.projectId, project.all fun p => p.deletedAt = none⟩

/-- The items of the trash, in the order that they are collected in. -/
def trashItems (deleted active archived : List ProjectRow) (conversations : List ConversationRow) :
    List TrashItem :=
  deleted.filterMap projectItem ++
    conversations.filterMap (conversationItem (deleted ++ active ++ archived))

/-- `list_trash`, with the number of the rounds of its loops; `none` is a loop that goes on. -/
def listTrash (rounds : Nat) (limit : Int) (cursor : Option PyString) :
    Except PageError (Option (List TrashItem × Option PyString)) := do
  validateLimit limit
  let collection := PyString.ofString "trash"
  let scope : Scope := [(.ofString "lifecycle", some (.ofString "deleted"))]
  let position ← decodeCursor codec cursor collection scope
  let deletedProjects ← allProjects codec store .deleted rounds
  let deletedConversations ← allConversations codec store .deleted rounds
  let activeProjects ← allProjects codec store .active rounds
  let archivedProjects ← allProjects codec store .archived rounds
  match deletedProjects, deletedConversations, activeProjects, archivedProjects with
  | some deleted, some conversations, some active, some archived =>
    let items := (Keyset.ordered trashKey (trashItems deleted active archived conversations)).filter
      fun item => Keyset.Behind trashKey (position.map trashPositionKey) item
    let selected := items.take limit.toNat
    return some (selected, if limit.toNat < items.length then
        selected.getLast?.map fun last =>
          encodeCursor codec ⟨last.deletedAt, last.itemId⟩ collection scope
      else none)
  | _, _, _, _ => return none

end Listing

section Items

variable {codec : CursorCodec} {store : CollectionStore} {ρ : Type} {createdAt : ρ → Instant}
  {id : ρ → Uuid} {rows l : List ρ} {Matches : ρ → Prop}

/-- Rows that a listing has told apart are different rows of the table. -/
theorem Complete.nodup_ids (hid : (rows.map id).Nodup)
    (h : Complete codec createdAt id rows Matches l) : (l.map id).Nodup := by
  rw [List.Nodup, List.pairwise_map]
  refine h.sorted.imp_of_mem fun {a b} ha hb hlt heq => ?_
  have hsame : a = b :=
    List.inj_on_of_nodup_map hid ((h.mem_iff a).1 ha).1 ((h.mem_iff b).1 hb).1 heq
  subst hsame
  exact lt_irrefl _ hlt

theorem filterMap_ids {f : ρ → Option TrashItem}
    (hf : ∀ r item, f r = some item → item.itemId = id r) (l : List ρ) :
    ((l.filterMap f).map (·.itemId)).Sublist (l.map id) := by
  induction l with
  | nil => exact List.Sublist.refl _
  | cons r l ih =>
    rw [List.filterMap_cons, List.map_cons]
    cases hr : f r with
    | none => exact ih.cons _
    | some item =>
      rw [List.map_cons, hf r item hr]
      exact ih.cons_cons _

theorem projectItem_id (r : ProjectRow) (item : TrashItem) (h : projectItem r = some item) :
    item.itemId = r.id := by
  obtain ⟨_, -, rfl⟩ := Option.map_eq_some_iff.1 h
  rfl

theorem conversationItem_id {projects : List ProjectRow} (r : ConversationRow) (item : TrashItem)
    (h : conversationItem projects r = some item) : item.itemId = r.id := by
  rw [conversationItem] at h
  split at h
  · cases h
  · obtain ⟨_, -, rfl⟩ := Option.map_eq_some_iff.1 h
    rfl

/-- No project has the identifier of a conversation. -/
def CollectionStore.Disjoint (store : CollectionStore) : Prop :=
  ∀ p ∈ store.projects.rows, ∀ c ∈ store.conversations.rows, p.id ≠ c.id

/-- The projects that a conversation in the trash can be found to belong to. -/
def CollectionStore.visible (store : CollectionStore) : List ProjectRow :=
  store.projects.rows.filter fun p => p.deletedAt = none ∨ p.purgedAt = none

/-- What is in the trash. -/
def CollectionStore.InTrash (store : CollectionStore) (item : TrashItem) : Prop :=
  (∃ r ∈ store.projects.rows, ProjectLifecycle.deleted.Filters r ∧ projectItem r = some item) ∨
    ∃ r ∈ store.conversations.rows, ConversationLifecycle.deleted.Filters r ∧
      conversationItem store.visible r = some item

theorem find_id_iff {projects : List ProjectRow} (h : (projects.map (·.id)).Nodup) {id : Uuid}
    {p : ProjectRow} : projects.find? (fun q => q.id = id) = some p ↔ p ∈ projects ∧ p.id = id := by
  refine ⟨fun hfind => ?_, fun ⟨hp, hid⟩ => ?_⟩
  · exact ⟨List.mem_of_find?_eq_some hfind, by simpa using List.find?_some hfind⟩
  · cases hfind : projects.find? fun q => q.id = id with
    | none =>
      have hnone := List.find?_eq_none.1 hfind p hp
      simp only [hid, decide_true, not_true_eq_false] at hnone
    | some q =>
      have hq : q.id = id := by simpa using List.find?_some hfind
      rw [List.inj_on_of_nodup_map h (List.mem_of_find?_eq_some hfind) hp (hq.trans hid.symm)]

/-- Lists of the same projects answer for the same items. -/
theorem conversationItem_congr {projects projects' : List ProjectRow}
    (h : (projects.map (·.id)).Nodup) (h' : (projects'.map (·.id)).Nodup)
    (hmem : ∀ p, p ∈ projects ↔ p ∈ projects') (r : ConversationRow) :
    conversationItem projects r = conversationItem projects' r := by
  have hfind : ∀ id : Uuid, (projects.find? fun p => p.id = id) =
      projects'.find? fun p => p.id = id := by
    intro id
    apply Option.ext
    intro p
    rw [find_id_iff h, find_id_iff h', hmem]
  simp only [conversationItem, hfind]

section Collected

variable {deleted active archived : List ProjectRow} {conversations : List ConversationRow}
  (hdeleted : Complete codec (·.createdAt) (·.id) store.projects.rows
    ProjectLifecycle.deleted.Filters deleted)
  (hactive : Complete codec (·.createdAt) (·.id) store.projects.rows
    ProjectLifecycle.active.Filters active)
  (harchived : Complete codec (·.createdAt) (·.id) store.projects.rows
    ProjectLifecycle.archived.Filters archived)
  (hconversations : Complete codec (·.createdAt) (·.id) store.conversations.rows
    (fun r => Asked none r.projectId ∧ ConversationLifecycle.deleted.Filters r) conversations)

include hdeleted hactive harchived

theorem mem_collected (p : ProjectRow) :
    p ∈ deleted ++ active ++ archived ↔ p ∈ store.visible := by
  rw [List.mem_append, List.mem_append, hdeleted.mem_iff, hactive.mem_iff, harchived.mem_iff,
    CollectionStore.visible, List.mem_filter, ← and_or_left, ← and_or_left, decide_eq_true_eq]
  refine and_congr_right fun _ => ?_
  simp only [ProjectLifecycle.Filters]
  tauto

theorem nodup_collected : ((deleted ++ active ++ archived).map (·.id)).Nodup := by
  have hrows : ∀ p ∈ deleted ++ active ++ archived, p ∈ store.projects.rows := fun p hp =>
    (List.mem_filter.1 ((mem_collected hdeleted hactive harchived p).1 hp)).1
  refine List.Nodup.map_on (fun p hp q hq heq =>
    List.inj_on_of_nodup_map store.projects.nodup (hrows p hp) (hrows q hq) heq) ?_
  have hnodup := fun {lifecycle : ProjectLifecycle} {l : List ProjectRow}
      (h : Complete codec (·.createdAt) (·.id) store.projects.rows lifecycle.Filters l) =>
    (h.nodup_ids store.projects.nodup).of_map
  simp only [List.nodup_append, List.mem_append]
  refine ⟨⟨hnodup hdeleted, hnodup hactive, ?_⟩, hnodup harchived, ?_⟩
  · rintro p hp _ hq rfl
    exact ((hdeleted.mem_iff p).1 hp).2.1 ((hactive.mem_iff p).1 hq).2.2
  · rintro p (hp | hp) _ hq rfl
    · exact ((hdeleted.mem_iff p).1 hp).2.1 ((harchived.mem_iff p).1 hq).2.2
    · exact ((harchived.mem_iff p).1 hq).2.1 ((hactive.mem_iff p).1 hp).2.1

include hconversations

theorem mem_trashItems (item : TrashItem) :
    item ∈ trashItems deleted active archived conversations ↔ store.InTrash item := by
  have hvisible : (store.visible.map (·.id)).Nodup :=
    store.projects.nodup.sublist (List.filter_sublist.map _)
  have hitem := conversationItem_congr (nodup_collected hdeleted hactive harchived) hvisible
    (mem_collected hdeleted hactive harchived)
  simp only [trashItems, List.mem_append, List.mem_filterMap, hitem, hdeleted.mem_iff,
    hconversations.mem_iff, CollectionStore.InTrash, and_assoc]
  simp only [Asked, Option.mem_def, reduceCtorEq, false_imp_iff, implies_true, true_and]

omit hactive harchived in
theorem nodup_trashItems (hdisjoint : store.Disjoint) :
    ((trashItems deleted active archived conversations).map trashKey).Nodup := by
  have hids : ((trashItems deleted active archived conversations).map (·.itemId)).Nodup := by
    have hprojects := @filterMap_ids ProjectRow (·.id) _ projectItem_id deleted
    have hconversation := @filterMap_ids ConversationRow (·.id) _
      (@conversationItem_id (deleted ++ active ++ archived)) conversations
    rw [trashItems, List.map_append, List.nodup_append]
    refine ⟨(hdeleted.nodup_ids store.projects.nodup).sublist hprojects,
      (hconversations.nodup_ids store.conversations.nodup).sublist hconversation, ?_⟩
    intro a ha b hb heq
    obtain ⟨p, hp, rfl⟩ := List.mem_map.1 (hprojects.subset ha)
    obtain ⟨c, hc, rfl⟩ := List.mem_map.1 (hconversation.subset hb)
    exact hdisjoint p ((hdeleted.mem_iff p).1 hp).1 c ((hconversations.mem_iff c).1 hc).1 heq
  rw [List.Nodup, List.pairwise_map] at hids ⊢
  refine hids.imp fun {a b} hne heq => hne ?_
  have hval : a.itemId.val = b.itemId.val := congrArg (fun k => (ofLex (OrderDual.ofDual k)).2) heq
  exact Fin.ext hval

end Collected

end Items

section Listed

variable {codec : CursorCodec} {store : CollectionStore} {rounds : Nat}

theorem trash_named : Named (.ofString "trash") := by
  constructor <;> decide

/-- The scope of the trash. -/
def trashScope : Scope := [(.ofString "lifecycle", some (.ofString "deleted"))]

/-- A cursor of the trash stands for the key of the item it was written for. -/
def TrashStands (codec : CursorCodec) (cursor : PyString) (k : (Int ×ₗ Nat)ᵒᵈ) : Prop :=
  ∃ p, cursor = encodeCursor codec p (.ofString "trash") trashScope ∧ k = trashPositionKey p

/-- The end of a page stands for the key of its last item. -/
theorem trash_next {items : List TrashItem} {more : Prop} [Decidable more] :
    Option.Rel (TrashStands codec)
      (if more then items.getLast?.map fun last =>
          encodeCursor codec ⟨last.deletedAt, last.itemId⟩ (.ofString "trash") trashScope
        else none)
      (if more then items.getLast?.map trashKey else none) := by
  by_cases hmore : more
  · rw [if_pos hmore, if_pos hmore]
    cases items.getLast? with
    | none => exact .none
    | some last => exact .some ⟨⟨last.deletedAt, last.itemId⟩, rfl, rfl⟩
  · rw [if_neg hmore, if_neg hmore]
    exact .none

theorem trash_position {cursor : Option PyString} {k : Option (Int ×ₗ Nat)ᵒᵈ}
    (h : Option.Rel (TrashStands codec) cursor k) : ∃ position : Option CursorPosition,
      k = position.map trashPositionKey ∧
        decodeCursor codec cursor (.ofString "trash") trashScope = .ok position := by
  cases h with
  | none => exact ⟨none, rfl, rfl⟩
  | some h =>
    obtain ⟨p, rfl, rfl⟩ := h
    exact ⟨some p, rfl, by
      rw [decodeCursor_encodeCursor trash_named.ascii trash_named.short, if_pos ⟨rfl, rfl⟩]⟩

/-- What the listing answers, once its loops have read their rows. -/
theorem listTrash_answers {limit : Int} {cursor : Option PyString}
    {k : Option (Int ×ₗ Nat)ᵒᵈ} {deleted active archived : List ProjectRow}
    {conversations : List ConversationRow} {answer : List TrashItem × Option PyString}
    (hdeleted : allProjects codec store .deleted rounds = .ok (some deleted))
    (hactive : allProjects codec store .active rounds = .ok (some active))
    (harchived : allProjects codec store .archived rounds = .ok (some archived))
    (hconversations : allConversations codec store .deleted rounds = .ok (some conversations))
    (hkey : ((trashItems deleted active archived conversations).map trashKey).Nodup)
    (hcursor : Option.Rel (TrashStands codec) cursor k)
    (h : listTrash codec store rounds limit cursor = .ok (some answer)) :
    Keyset.Answers trashKey (trashItems deleted active archived conversations)
      (TrashStands codec) k answer := by
  obtain ⟨position, rfl, hdecoded⟩ := trash_position hcursor
  by_cases hlimit : 1 ≤ limit ∧ limit ≤ 100
  · simp only [trashScope] at hdecoded
    simp only [listTrash, validateLimit, if_neg (not_not.2 hlimit), ok_bind, hdecoded, hdeleted,
      hactive, harchived, hconversations] at h
    cases h
    refine ⟨limit.toNat, by omega, ?_, ?_⟩
    · rw [Keyset.page_eq hkey]
      rfl
    · rw [Keyset.page_eq hkey]
      exact trash_next
  · simp only [listTrash, validateLimit, if_pos hlimit] at h
    cases h

/-- Whatever pages the trash is read in, they hold each item of the trash once, the last deleted
one first, as long as no project has the identifier of a conversation. -/
theorem trash_complete (hdisjoint : store.Disjoint)
    (hprojects : store.projects.rows.length < rounds)
    (hconversations : store.conversations.rows.length < rounds) {pages : List (List TrashItem)}
    (h : Keyset.Pages (fun limit cursor answer =>
      listTrash codec store rounds limit cursor = .ok (some answer)) none pages) :
    (pages.flatten.Pairwise fun a b => trashKey a < trashKey b) ∧
      ∀ item, item ∈ pages.flatten ↔ store.InTrash item := by
  obtain ⟨deleted, hgetDeleted, hdeleted⟩ := @allProjects_complete codec store .deleted _ hprojects
  obtain ⟨active, hgetActive, hactive⟩ := @allProjects_complete codec store .active _ hprojects
  obtain ⟨archived, hgetArchived, harchived⟩ :=
    @allProjects_complete codec store .archived _ hprojects
  obtain ⟨conversations, hgetConversations, hlisted⟩ :=
    @allConversations_complete codec store .deleted _ hconversations
  have hkey := @nodup_trashItems codec store deleted active archived _ hdeleted hlisted hdisjoint
  have hflat := h.flatten hkey (fun limit cursor k answer hcursor hok =>
    listTrash_answers hgetDeleted hgetActive hgetArchived hgetConversations
      hkey hcursor hok) .none
  rw [hflat]
  refine ⟨Keyset.left_strict hkey, fun item => ?_⟩
  rw [Keyset.left_none, Keyset.ordered_perm.mem_iff]
  exact mem_trashItems hdeleted hactive harchived hlisted item

/-- A project that is not deleted and one of its conversations, which is. -/
def sampleTrash : CollectionStore where
  projects :=
    ⟨[⟨sampleId, sampleTime, none, none, none⟩], List.nodup_singleton _, fun _ _ => trivial⟩
  conversations := ⟨[⟨otherId, sampleTime, some sampleId, some sampleTime, none, none⟩],
    List.nodup_singleton _, fun _ _ => trivial⟩
  versions := ⟨[], List.nodup_nil, fun _ _ => trivial⟩
  tasks := ⟨[], List.nodup_nil, fun _ _ => trivial⟩
  approvals := ⟨[], List.nodup_nil, fun _ _ => trivial⟩

theorem trash_of_conversation :
    sampleTrash.InTrash ⟨.projectConversation, otherId, sampleTime, some sampleId, true⟩ := by
  have hpage : listTrash sampleCodec sampleTrash 2 100 none =
      .ok (some ([⟨.projectConversation, otherId, sampleTime, some sampleId, true⟩], none)) := by
    decide +kernel
  have hdisjoint : sampleTrash.Disjoint := by
    unfold CollectionStore.Disjoint
    decide
  apply ((trash_complete hdisjoint (by decide) (by decide) (.last hpage)).2 _).1
  rw [List.flatten_singleton]
  exact List.mem_singleton_self _

end Listed

end Fairy.Storage
