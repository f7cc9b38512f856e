import Fairy.Lib.Base64
import Fairy.Lib.JsonReading
import Fairy.Lib.JsonRoundTrip
import Fairy.Workspace.Models

namespace Fairy.Workspace

open Fairy.Lib Fairy.Lib.Base64 Fairy.Lib.JsonText

/-- `s.encode("utf-8")`. -/
def utf8 (s : String) : Bytes := s.toList.flatMap String.utf8EncodeChar

/-- `base64.b64decode(s, validate=True)`. -/
def decodeBase64 (s : String) : Option Bytes := b64decode (PyString.ofString s)

def FileMutationOperation.value : FileMutationOperation → String
  | .upsert => "upsert"
  | .create => "create"
  | .update => "update"
  | .delete => "delete"
  | .rename => "rename"

/-- The fields of a file mutation, its paths being normalized. -/
structure MutationFields where
  operation : FileMutationOperation
  path : WorkspacePath
  destinationPath : Option WorkspacePath
  content : Option String
  contentBase64 : Option String
  expectedHash : Option String
  deriving DecidableEq

namespace MutationFields

/-- The check of one Base64 content. -/
def requireBase64 (encoded : String) : Except String Unit :=
  match decodeBase64 encoded with
  | none => .error "content_base64 must be valid Base64"
  | some decoded =>
    if decoded.length > 2097152 then .error "decoded file content exceeds 2 MiB" else .ok ()

def refuse (p : Prop) [Decidable p] (message : String) : Except String Unit :=
  if p then .error message else .ok ()

def requireDestination (m : MutationFields) : Except String Unit :=
  if m.operation = .rename then do
    refuse (m.destinationPath = none) "rename requires destination_path"
    refuse (m.destinationPath = some m.path) "rename destination must differ from source"
  else refuse (m.destinationPath ≠ none) "destination_path is only valid for rename"

def requireOperationFields (m : MutationFields) : Except String Unit := do
  refuse (m.content ≠ none ∧ m.contentBase64 ≠ none) "file mutation accepts one content encoding"
  (m.contentBase64.map requireBase64).getD (.ok ())
  refuse (m.operation ∈ [.upsert, .create, .update] ∧ m.content = none ∧ m.contentBase64 = none)
    (m.operation.value ++ " requires file content")
  refuse (m.operation ∈ [.delete, .rename] ∧ (m.content ≠ none ∨ m.contentBase64 ≠ none))
    (m.operation.value ++ " does not accept file content")
  refuse (m.operation ∈ [.update, .delete, .rename] ∧ m.expectedHash = none)
    (m.operation.value ++ " requires expected_hash")
  refuse (m.operation = .create ∧ m.expectedHash ≠ none) "create does not accept expected_hash"
  m.requireDestination

end MutationFields

/-- A mutation that the validators accept. -/
structure FileMutation extends MutationFields where
  accepted : toMutationFields.requireOperationFields = .ok ()

/-- The fields of a mutation as a request carries them. -/
structure MutationRequest where
  operation : FileMutationOperation
  path : String
  destinationPath : Option String
  content : Option String
  contentBase64 : Option String
  expectedHash : Option String

/-- `^[0-9a-f]{64}$`. -/
def isHash (s : String) : Bool :=
  s.length = 64 && s.toList.all fun c => ('0' ≤ c && c ≤ '9') || ('a' ≤ c && c ≤ 'f')

/-- The bounds on the length of a field. -/
def requireLength (least most : Nat) (s : String) : Except WorkspaceError Unit :=
  if s.length < least then
    .error (.valueError s!"String should have at least {least} characters")
  else if most < s.length then
    .error (.valueError s!"String should have at most {most} characters")
  else .ok ()

def optionally {α β : Type} (check : α → Except WorkspaceError β) :
    Option α → Except WorkspaceError (Option β)
  | none => .ok none
  | some a => (check a).map some

/-- `FileMutation.model_validate`, which reports the first of its errors here. -/
def MutationRequest.validate (r : MutationRequest) : Except WorkspaceError FileMutation := do
  requireLength 1 1024 r.path
  let path ← requireProjectRelativePath r.path
  discard (optionally (requireLength 1 1024) r.destinationPath)
  let destination ← optionally requireProjectRelativePath r.destinationPath
  discard (optionally (requireLength 0 2097152) r.content)
  discard (optionally (requireLength 0 2796204) r.contentBase64)
  if r.expectedHash.any fun h => !isHash h then
    throw (.valueError "String should match pattern '^[0-9a-f]\x7b64\x7d$'")
  let m : MutationFields := ⟨r.operation, path, destination, r.content, r.contentBase64,
    r.expectedHash⟩
  match h : m.requireOperationFields with
  | .error message => throw (.valueError message)
  | .ok () => return ⟨m, h⟩

namespace FileMutation

/-- The Base64 of an accepted mutation decodes, so that this raises nothing. -/
def contentBytes (m : FileMutation) : Option Bytes :=
  match m.content with
  | some content => some (utf8 content)
  | none => m.contentBase64.bind decodeBase64

/-- The mutation that a request at a revision of the workspace asks for. -/
def mutation (m : FileMutation) (revision : Option Nat) : WorkspaceFileMutation :=
  ⟨m.operation, m.path, m.destinationPath, m.contentBytes, m.expectedHash, revision⟩

end FileMutation

def mutationPrefix : List Char := "fairy-file-mutation-v1:".toList

def optionalText : Option PyString → Value
  | none => .null
  | some s => .str s

def optionalInt : Option Nat → Value
  | none => .null
  | some n => .int n

namespace FileMutation

/-- The dict that `encode_mutation` writes. -/
def payload (m : FileMutation) (revision : Option Nat) : List (PyString × Value) :=
  [(PyString.ofString "operation", .str (PyString.ofString m.operation.value)),
    (PyString.ofString "destination_path",
      optionalText (m.destinationPath.map fun path => PyString.ofString path.text)),
    (PyString.ofString "content_base64",
      optionalText (m.contentBytes.map fun content => (b64encode content).map Char.toNat)),
    (PyString.ofString "expected_hash", optionalText (m.expectedHash.map PyString.ofString)),
    (PyString.ofString "expected_workspace_revision", optionalInt revision)]

/-- A mutation that is stored as the text of its content. -/
def Plain (m : FileMutation) (revision : Option Nat) : Prop :=
  m.operation = .upsert ∧ m.content ≠ none ∧ m.contentBase64 = none ∧ m.expectedHash = none ∧
    revision = none

instance (m : FileMutation) (revision : Option Nat) : Decidable (m.Plain revision) :=
  inferInstanceAs (Decidable (_ ∧ _))

/-- `encode_mutation`. -/
def encodeMutation (m : FileMutation) (revision : Option Nat) : List Char :=
  if m.Plain revision then (m.content.getD "").toList
  else mutationPrefix ++ dumps (.obj (sortKeys (m.payload revision)))

end FileMutation

/-- What `decode_mutation` answers with, none of its texts being checked. -/
structure StoredMutation where
  operation : FileMutationOperation
  path : String
  destinationPath : Option PyString
  content : Option Bytes
  expectedHash : Option PyString
  expectedWorkspaceRevision : Option Int
  deriving DecidableEq

inductive PythonError
  | valueError | keyError | typeError | overflowError
  deriving DecidableEq

/-- `str` and `int` of what `json.loads` returns. -/
structure Conversions where
  str : Value → PyString
  int : Value → Except PythonError Int
  str_str : ∀ s, str (.str s) = s
  int_int : ∀ n, int (.int n) = .ok n

/-- `payload.get(key)`, a null being none. -/
def present (fields : List (PyString × Value)) (key : String) : Option Value :=
  match get? fields (PyString.ofString key) with
  | none | some .null => none
  | some v => some v

/-- `FileMutationOperation(str(value))`. -/
def operationOf (c : Conversions) (v : Value) : Except PythonError FileMutationOperation :=
  match [FileMutationOperation.upsert, .create, .update, .delete, .rename].find? fun o =>
    PyString.ofString o.value = c.str v with
  | none => .error .valueError
  | some operation => .ok operation

section Payload

variable (c : Conversions) (fields : List (PyString × Value))

def decodedContent : Except PythonError (Option Bytes) :=
  match get? fields (PyString.ofString "content_base64") with
  | some (.str encoded) =>
    match b64decode encoded with
    | none => .error .valueError
    | some content => .ok (some content)
  | _ => .ok none

def decodedOperation : Except PythonError FileMutationOperation :=
  match get? fields (PyString.ofString "operation") with
  | none => .error .keyError
  | some v => operationOf c v

def decodedRevision : Except PythonError (Option Int) :=
  match present fields "expected_workspace_revision" with
  | none => .ok none
  | some v => (c.int v).map some

end Payload

/-- `decode_mutation` of an envelope. -/
def decodeEnvelope (c : Conversions) (path : String) (text : List Char) :
    Except PythonError StoredMutation :=
  match loads text with
  | some (.obj fields) => do
    let content ← decodedContent fields
    let operation ← decodedOperation c fields
    let revision ← decodedRevision c fields
    return ⟨operation, path, (present fields "destination_path").map c.str, content,
      (present fields "expected_hash").map c.str, revision⟩
  | _ => .error .valueError

def decodeMutation (c : Conversions) (path : String) (patch : List Char) :
    Except PythonError StoredMutation :=
  if mutationPrefix <+: patch then decodeEnvelope c path (patch.drop mutationPrefix.length)
  else .ok ⟨.upsert, path, none, some (utf8 (String.ofList patch)), none, none⟩

/-- The stored form that means a mutation. -/
def WorkspaceFileMutation.stored (m : WorkspaceFileMutation) : StoredMutation :=
  ⟨m.operation, m.path.text, m.destinationPath.map fun path => PyString.ofString path.text, m.content,
    m.expectedHash.map PyString.ofString, m.expectedWorkspaceRevision.map Int.ofNat⟩

end Fairy.Workspace
