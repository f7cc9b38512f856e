import Fairy.Lib.Json
import Fairy.Assistant.ScheduleModels
import Fairy.Assistant.EvidenceFields

namespace Fairy.Assistant

open Fairy.Lib

inductive EvidenceRequirementKind
  | workspaceStructure | workspaceContent | webCurrent | runtimeCurrent | privateCurrent
  deriving DecidableEq

namespace EvidenceRequirementKind

def value : EvidenceRequirementKind → String
  | workspaceStructure => "workspace_structure"
  | workspaceContent => "workspace_content"
  | webCurrent => "web_current"
  | runtimeCurrent => "runtime_current"
  | privateCurrent => "private_current"

def all : List EvidenceRequirementKind :=
  [workspaceStructure, workspaceContent, webCurrent, runtimeCurrent, privateCurrent]

end EvidenceRequirementKind

inductive EvidenceSourceKind
  | projectIndex | projectFile | terminalInspection | webDocument | structuredInformation
  | runtimeSnapshot | privateSnapshot
  deriving DecidableEq

namespace EvidenceSourceKind

def value : EvidenceSourceKind → String
  | projectIndex => "project_index"
  | projectFile => "project_file"
  | terminalInspection => "terminal_inspection"
  | webDocument => "web_document"
  | structuredInformation => "structured_information"
  | runtimeSnapshot => "runtime_snapshot"
  | privateSnapshot => "private_snapshot"

def all : List EvidenceSourceKind :=
  [projectIndex, projectFile, terminalInspection, webDocument, structuredInformation,
    runtimeSnapshot, privateSnapshot]

/-- `_WORKSPACE_SOURCES`. -/
def workspace (kind : EvidenceSourceKind) : Bool :=
  kind = projectIndex ∨ kind = projectFile ∨ kind = terminalInspection

/-- `_WEB_SOURCES`. -/
def web (kind : EvidenceSourceKind) : Bool := kind = webDocument ∨ kind = structuredInformation

end EvidenceSourceKind

structure EvidenceDraft where
  requirementKind : EvidenceRequirementKind
  sourceKind : EvidenceSourceKind
  publicLabel : String
  relativePath : Option String
  lineStart : Option Int
  lineEnd : Option Int
  safeUrl : Option String
  contentHash : Option String
  sourceRevision : Option String
  documentSnapshotId : Option Uuid
  documentSnapshotHash : Option String
  workspaceGeneration : Option Int
  observedAt : Datetime
  expiresAt : Option Datetime
  truncated : Bool
  deriving DecidableEq

/-- What a draft and a receipt ask of the times of an observation. -/
def checkExpiry (observed : Datetime) (expires : Option Datetime) : Except String Unit := do
  if ∃ e ∈ expires, e.wall ≤ observed.wall then
    throw "evidence expires_at must be after observed_at"

def paired (name : String) (identifier : Option Uuid) (hash : Option String) :
    Except String Unit := do
  if identifier.isNone ≠ hash.isNone then throw s!"{name} identity and hash must be paired"

/-- `EvidenceDraft.__post_init__`. -/
def EvidenceDraft.postInit (k : UrlCodec) (d : EvidenceDraft) : Except String EvidenceDraft := do
  let publicLabel ← label d.publicLabel
  let path ← optional Assistant.relativePath d.relativePath
  let url ← optional (Assistant.safeUrl k) d.safeUrl
  let contentHash ← optional digest d.contentHash
  let sourceRevision ← optional revision d.sourceRevision
  let documentSnapshotHash ← optional digest d.documentSnapshotHash
  let observed ← aware "observed_at" d.observedAt
  let expires ← optional (aware "expires_at") d.expiresAt
  checkExpiry observed expires
  lineRange d.lineStart d.lineEnd
  paired "Document Snapshot" d.documentSnapshotId documentSnapshotHash
  if d.documentSnapshotId.isSome ∧ d.sourceKind ≠ .privateSnapshot then
    throw "only private evidence can carry a Document Snapshot"
  if ∃ generation ∈ d.workspaceGeneration, generation < 1 then
    throw "workspace_generation must be positive"
  if path.isSome ∧ ¬ d.sourceKind.workspace then
    throw "only Workspace evidence can carry a relative path"
  if url.isSome ∧ ¬ d.sourceKind.web then throw "only public web evidence can carry a URL"
  if (d.requirementKind = .workspaceStructure ∨ d.requirementKind = .workspaceContent) ∧
      ¬ d.sourceKind.workspace then
    throw "Workspace requirements require a Workspace source"
  if d.requirementKind = .webCurrent ∧ ¬ d.sourceKind.web then
    throw "web_current requires a public web source"
  if d.requirementKind = .runtimeCurrent ∧ d.sourceKind ≠ .runtimeSnapshot then
    throw "runtime_current requires a Runtime source"
  if d.requirementKind = .privateCurrent ∧ d.sourceKind ≠ .privateSnapshot then
    throw "private_current requires a private Snapshot source"
  return { d with
    publicLabel, contentHash, sourceRevision, documentSnapshotHash
    relativePath := path, safeUrl := url, observedAt := observed, expiresAt := expires }

/-- A receipt has the fields of a draft and those of the call it was sealed in. -/
structure EvidenceReceipt extends EvidenceDraft where
  id : Uuid
  toolInvocationId : Uuid
  turnId : Uuid
  taskId : Uuid
  conversationId : Uuid
  toolName : String
  scopeDigest : String
  workspaceId : Uuid
  projectId : Option Uuid
  versionId : Option Uuid
  memorySnapshotId : Option Uuid
  memorySnapshotHash : Option String
  knowledgeSnapshotId : Option Uuid
  knowledgeSnapshotHash : Option String
  deriving DecidableEq

/-- `EvidenceReceipt.__post_init__`. -/
def EvidenceReceipt.postInit (k : UrlCodec) (r : EvidenceReceipt) :
    Except String EvidenceReceipt := do
  let toolName ← required "tool_name" 255 r.toolName
  let publicLabel ← label r.publicLabel
  let path ← optional Assistant.relativePath r.relativePath
  let url ← optional (Assistant.safeUrl k) r.safeUrl
  let contentHash ← optional digest r.contentHash
  let memorySnapshotHash ← optional digest r.memorySnapshotHash
  let knowledgeSnapshotHash ← optional digest r.knowledgeSnapshotHash
  let documentSnapshotHash ← optional digest r.documentSnapshotHash
  let sourceRevision ← optional revision r.sourceRevision
  if ¬ isSha256 r.scopeDigest then throw "scope_digest must be a lowercase SHA-256 digest"
  lineRange r.lineStart r.lineEnd
  let observed ← aware "observed_at" r.observedAt
  let expires ← optional (aware "expires_at") r.expiresAt
  checkExpiry observed expires
  paired "Memory Snapshot" r.memorySnapshotId memorySnapshotHash
  paired "Knowledge Snapshot" r.knowledgeSnapshotId knowledgeSnapshotHash
  paired "Document Snapshot" r.documentSnapshotId documentSnapshotHash
  if r.sourceKind.workspace ∧ r.versionId.isNone then throw "Workspace evidence requires a Version"
  if r.sourceKind = .privateSnapshot ∧ ¬ (r.memorySnapshotId.isSome ∨
      r.knowledgeSnapshotId.isSome ∨ r.documentSnapshotId.isSome) then
    throw "private evidence requires a bound Snapshot"
  return { r with
    toolName, publicLabel, contentHash, sourceRevision, documentSnapshotHash, memorySnapshotHash
    knowledgeSnapshotHash, relativePath := path, safeUrl := url, observedAt := observed
    expiresAt := expires }

/-- What sealing reads of a `ScopeContract` and of the call. -/
structure SealContext where
  invocationId : Uuid
  turnId : Uuid
  toolName : String
  taskId : Uuid
  conversationId : Uuid
  scopeDigest : String
  workspaceId : Uuid
  projectId : Option Uuid
  targetVersionId : Option Uuid
  memorySnapshotId : Option Uuid
  memorySnapshotHash : Option String
  knowledgeSnapshotId : Option Uuid
  knowledgeSnapshotHash : Option String

/-- The receipt of a draft, as it goes to the constructor. -/
def SealContext.receipt (c : SealContext) (id : Uuid) (draft : EvidenceDraft) : EvidenceReceipt where
  toEvidenceDraft := draft
  id := id
  toolInvocationId := c.invocationId
  turnId := c.turnId
  taskId := c.taskId
  conversationId := c.conversationId
  toolName := c.toolName
  scopeDigest := c.scopeDigest
  workspaceId := c.workspaceId
  projectId := c.projectId
  versionId := c.targetVersionId
  memorySnapshotId := c.memorySnapshotId
  memorySnapshotHash := c.memorySnapshotHash
  knowledgeSnapshotId := c.knowledgeSnapshotId
  knowledgeSnapshotHash := c.knowledgeSnapshotHash

/-- `seal_evidence_drafts`; `newId` gives the ids in turn. -/
def sealEvidenceDrafts (k : UrlCodec) (newId : Nat → Uuid) (drafts : List EvidenceDraft)
    (c : SealContext) : Except String (List EvidenceReceipt) := do
  let receipts ← drafts.zipIdx.mapM fun p => (c.receipt (newId p.2) p.1).postInit k
  if (receipts.map EvidenceReceipt.id).dedup.length ≠ receipts.length then
    throw "evidence receipt ids must be unique"
  return receipts

/-- How ids, instants and values that are no texts are written down and read. -/
structure RecordCodec where
  /-- `str` of a `UUID`. -/
  uuidText : Uuid → String
  /-- `UUID` of a text; `none` where it raises. -/
  uuid : String → Option Uuid
  isoformat : Datetime → String
  fromisoformat : String → Option Datetime
  /-- `str` of a value that is no text. -/
  str : Json → String
  /-- `int` of a value that is no integer. -/
  int : Json → Option Int

/-- What is documented of it. -/
structure RecordCodec.Lawful (x : RecordCodec) : Prop where
  uuid_text : ∀ id, x.uuid (x.uuidText id) = some id
  uuid_nonempty : ∀ id, x.uuidText id ≠ ""
  iso : ∀ d : Datetime, d.offset = some 0 → 0 ≤ d.wall → d.wall < Datetime.range →
    x.fromisoformat (x.isoformat d) = some d

namespace RecordCodec

variable (x : RecordCodec)

def text : Json → String
  | .str s => s
  | j => x.str j

def integer : Json → Option Int
  | .int n => some n
  | j => x.int j

def idJson (id : Option Uuid) : Json := Json.optional (id.map x.uuidText)

def intJson : Option Int → Json
  | none => .null
  | some n => .int n

end RecordCodec

def evidenceReceiptFields (x : RecordCodec) (r : EvidenceReceipt) : List (String × Json) :=
  [("id", .str (x.uuidText r.id)),
    ("tool_invocation_id", .str (x.uuidText r.toolInvocationId)),
    ("turn_id", .str (x.uuidText r.turnId)),
    ("task_id", .str (x.uuidText r.taskId)),
    ("conversation_id", .str (x.uuidText r.conversationId)),
    ("requirement_kind", .str r.requirementKind.value),
    ("source_kind", .str r.sourceKind.value),
    ("tool_name", .str r.toolName),
    ("public_label", .str r.publicLabel),
    ("scope_digest", .str r.scopeDigest),
    ("workspace_id", .str (x.uuidText r.workspaceId)),
    ("project_id", x.idJson r.projectId),
    ("version_id", x.idJson r.versionId),
    ("workspace_generation", RecordCodec.intJson r.workspaceGeneration),
    ("memory_snapshot_id", x.idJson r.memorySnapshotId),
    ("memory_snapshot_hash", Json.optional r.memorySnapshotHash),
    ("knowledge_snapshot_id", x.idJson r.knowledgeSnapshotId),
    ("knowledge_snapshot_hash", Json.optional r.knowledgeSnapshotHash),
    ("document_snapshot_id", x.idJson r.documentSnapshotId),
    ("document_snapshot_hash", Json.optional r.documentSnapshotHash),
    ("relative_path", Json.optional r.relativePath),
    ("line_start", RecordCodec.intJson r.lineStart),
    ("line_end", RecordCodec.intJson r.lineEnd),
    ("safe_url", Json.optional r.safeUrl),
    ("content_hash", Json.optional r.contentHash),
    ("source_revision", Json.optional r.sourceRevision),
    ("observed_at", .str (x.isoformat r.observedAt)),
    ("expires_at", Json.optional (r.expiresAt.map x.isoformat)),
    ("truncated", .bool r.truncated)]

/-- `evidence_receipt_record`. -/
def evidenceReceiptRecord (x : RecordCodec) (r : EvidenceReceipt) : Json :=
  .obj (evidenceReceiptFields x r)

section Reading

/-- `bool` of a value. -/
def truthy : Json → Bool
  | .null => false
  | .bool b => b
  | .int n => n ≠ 0
  | .str s => s ≠ ""
  | .arr items => !items.isEmpty
  | .obj fields => !fields.isEmpty

/-- `isinstance(record, dict)`. -/
def isDict : Json → Bool
  | .obj _ => true
  | _ => false

/-- `record[key]`. -/
def item (record : Json) (key : String) : Except String Json :=
  (record.field? key).elim (.error s!"KeyError: {key}") .ok

/-- `record.get(key)`. -/
def getItem (record : Json) (key : String) : Json := (record.field? key).getD .null

variable (x : RecordCodec) (record : Json)

def readText (key : String) : Except String String := do
  let j ← item record key
  return x.text j

def readId (key : String) : Except String Uuid := do
  let s ← readText x record key
  (x.uuid s).elim (.error "badly formed hexadecimal UUID string") .ok

def readOptionalId (key : String) : Except String (Option Uuid) :=
  if truthy (getItem record key) then (readId x record key).map some else .ok none

def readOptionalText (key : String) : Option String :=
  if getItem record key = .null then none else some (x.text (getItem record key))

def readOptionalInt (key : String) : Except String (Option Int) :=
  if getItem record key = .null then .ok none
  else (x.integer (getItem record key)).elim (.error "invalid literal for int()") fun n => .ok (some n)

def readKind {α : Type} (all : List α) (value : α → String) (key : String) : Except String α := do
  let s ← readText x record key
  (all.find? fun a => value a = s).elim (.error s!"{s} is not a valid kind") .ok

/-- `_parse_datetime`. -/
def parseDatetime : Json → Except String Datetime
  | .str s => (x.fromisoformat s).elim (.error "Invalid isoformat string")
    (aware "stored evidence timestamp")
  | _ => .error "stored evidence timestamp is invalid"

def readOptionalDatetime (key : String) : Except String (Option Datetime) :=
  if getItem record key = .null then .ok none
  else (parseDatetime x (getItem record key)).map some

/-- `evidence_receipt_from_record`. -/
def evidenceReceiptFromRecord (k : UrlCodec) : Except String EvidenceReceipt := do
  if ¬ isDict record then throw "stored Evidence Receipt is invalid"
  let id ← readId x record "id"
  let toolInvocationId ← readId x record "tool_invocation_id"
  let turnId ← readId x record "turn_id"
  let taskId ← readId x record "task_id"
  let conversationId ← readId x record "conversation_id"
  let requirementKind ← readKind x record EvidenceRequirementKind.all EvidenceRequirementKind.value
    "requirement_kind"
  let sourceKind ← readKind x record EvidenceSourceKind.all EvidenceSourceKind.value "source_kind"
  let toolName ← readText x record "tool_name"
  let publicLabel ← readText x record "public_label"
  let scopeDigest ← readText x record "scope_digest"
  let workspaceId ← readId x record "workspace_id"
  let projectId ← readOptionalId x record "project_id"
  let versionId ← readOptionalId x record "version_id"
  let workspaceGeneration ← readOptionalInt x record "workspace_generation"
  let memorySnapshotId ← readOptionalId x record "memory_snapshot_id"
  let knowledgeSnapshotId ← readOptionalId x record "knowledge_snapshot_id"
  let documentSnapshotId ← readOptionalId x record "document_snapshot_id"
  let lineStart ← readOptionalInt x record "line_start"
  let lineEnd ← readOptionalInt x record "line_end"
  let observedJson ← item record "observed_at"
  let observedAt ← parseDatetime x observedJson
  let expiresAt ← readOptionalDatetime x record "expires_at"
  EvidenceReceipt.postInit k
    { id, toolInvocationId, turnId, taskId, conversationId, requirementKind, sourceKind, toolName
      publicLabel, scopeDigest, workspaceId, projectId, versionId, workspaceGeneration
      memorySnapshotId, knowledgeSnapshotId, documentSnapshotId, lineStart, lineEnd, observedAt
      expiresAt
      memorySnapshotHash := readOptionalText x record "memory_snapshot_hash"
      knowledgeSnapshotHash := readOptionalText x record "knowledge_snapshot_hash"
      documentSnapshotHash := readOptionalText x record "document_snapshot_hash"
      relativePath := readOptionalText x record "relative_path"
      safeUrl := readOptionalText x record "safe_url"
      contentHash := readOptionalText x record "content_hash"
      sourceRevision := readOptionalText x record "source_revision"
      truncated := truthy (getItem record "truncated") }

end Reading

end Fairy.Assistant
