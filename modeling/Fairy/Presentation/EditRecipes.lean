import Fairy.Commanding.Models
import Fairy.Lib.Json
import Fairy.Lib.Fallible
import Fairy.Lib.Text
import Mathlib.Data.List.Sort

namespace Fairy.Presentation

open Fairy.Lib
open Fairy.Commanding (Uuid Time)

inductive PresentationError
  | keyError (message : String)
  | valueError (message : String)
  | versionConflict (message : String)
  | idempotencyConflict (message : String)
  | previewScopeViolation (message : String)
  | commandRejected (message code : String)
  | integrityError (constraint : String)
  /-- What the functions raise that the application calls. -/
  | called (message : String)
  deriving DecidableEq

inductive EditRecipeStatus
  | draft | applying | applied | discarded
  deriving DecidableEq

/-- An operation of a recipe, a `dict`. -/
abbrev Operation := List (String × Json)

structure EditRecipe where
  id : Uuid
  workspaceId : Uuid
  versionId : Uuid
  fileSetId : Uuid
  sourceHash : String
  kind : String
  operations : List Operation
  status : EditRecipeStatus := .draft
  revision : Nat := 1
  applyIdempotencyKey : Option String := none
  appliedVersionId : Option Uuid := none
  outputHash : Option String := none
  createdAt : Time
  updatedAt : Time
  deriving DecidableEq

/-- `len(s) == 64` and all of it in `0123456789abcdef`. -/
def isLowerHex (s : String) : Bool :=
  s.toList.length = 64 ∧ s.toList.all (· ∈ "0123456789abcdef".toList)

namespace EditRecipe

variable (r : EditRecipe)

def update (expectedRevision : Int) (operations : List Operation) (now : Time) :
    Except PresentationError EditRecipe := do
  if r.status ≠ .draft then throw (.valueError "only draft Edit Recipes can be updated")
  if expectedRevision ≠ r.revision then
    throw (.versionConflict "Edit Recipe revision changed concurrently")
  return { r with operations, revision := r.revision + 1, updatedAt := now }

def discard (now : Time) : EditRecipe :=
  if r.status ≠ .draft then r
  else { r with status := .discarded, revision := r.revision + 1, updatedAt := now }

def beginApply (expectedRevision : Int) (idempotencyKey : String) (now : Time) :
    Except PresentationError EditRecipe :=
  match r.status with
  | .applied =>
    if r.applyIdempotencyKey ≠ some idempotencyKey then
      .error (.idempotencyConflict "Edit Recipe was applied with a different key")
    else .ok r
  | .applying =>
    if r.applyIdempotencyKey ≠ some idempotencyKey then
      .error (.idempotencyConflict "Edit Recipe apply is already in progress")
    else .ok r
  | .discarded => .error (.valueError "only draft Edit Recipes can be applied")
  | .draft =>
    if expectedRevision ≠ r.revision then
      .error (.versionConflict "Edit Recipe revision changed concurrently")
    else if Text.strip idempotencyKey = "" ∨ 255 < idempotencyKey.length then
      .error (.valueError "Edit Recipe apply idempotency key is invalid")
    else
      .ok { r with
        status := .applying
        revision := r.revision + 1
        applyIdempotencyKey := some idempotencyKey
        updatedAt := now }

def finishApply (appliedVersionId : Uuid) (outputHash : String) (now : Time) :
    Except PresentationError EditRecipe :=
  if r.status = .applied then .ok r
  else if r.status ≠ .applying then .error (.valueError "Edit Recipe is not being applied")
  else if isLowerHex outputHash = false then
    .error (.valueError "Edit Recipe output hash must be lowercase SHA-256")
  else
    .ok { r with
      status := .applied
      revision := r.revision + 1
      appliedVersionId := some appliedVersionId
      outputHash := some outputHash
      updatedAt := now }

end EditRecipe

section Export

def maxEditableTextBytes : Nat := 2 * 1024 * 1024

/-- `hashlib.sha256` in hexadecimal. -/
structure ContentHash where
  digest : List UInt8 → String
  hex : ∀ bytes, isLowerHex (digest bytes) = true

structure ExportedEdit where
  content : List UInt8
  contentHash : String
  deriving DecidableEq

def Operation.get (operation : Operation) (key : String) : Option Json :=
  (operation.find? fun field => field.1 = key).map (·.2)

/-- `_integer`. -/
def integer (operation : Operation) (key : String) : Except PresentationError Int :=
  match operation.get key with
  | some (.int n) => .ok n
  | _ => .error (.commandRejected "Text Edit Recipe offset is invalid" "EDIT_NOT_EXPORTABLE")

/-- `_text`. -/
def text (operation : Operation) (key : String) : Except PresentationError (List Char) :=
  match operation.get key with
  | some (.str s) => .ok s.toList
  | _ => .error (.commandRejected "Text Edit Recipe replacement is invalid" "EDIT_NOT_EXPORTABLE")

/-- A replacement of `text[start:end]`. -/
structure Edit where
  start : Nat
  stop : Nat
  replacement : List Char
  deriving DecidableEq

/-- The range and the replacement of an operation. -/
def range (operation : Operation) : Except PresentationError (Int × Int × List Char) :=
  match operation.get "operation" with
  | some (.str "insert") => do
    let start ← integer operation "offset"
    let replacement ← text operation "text"
    return (start, start, replacement)
  | some (.str "replace") => do
    let start ← integer operation "start"
    let stop ← integer operation "end"
    let replacement ← text operation "text"
    return (start, stop, replacement)
  | some (.str "delete") => do
    let start ← integer operation "start"
    let stop ← integer operation "end"
    return (start, stop, [])
  | _ => .error (.commandRejected "Text Edit Recipe contains an unsupported operation"
      "EDIT_NOT_EXPORTABLE")

/-- `expected_text` is absent, or it is what stands there. -/
def asExpected (operation : Operation) (slice : List Char) : Bool :=
  match operation.get "expected_text" with
  | none | some .null => true
  | some (.str expected) => slice = expected.toList
  | _ => false

def edit (source : List Char) (operation : Operation) : Except PresentationError Edit := do
  let (start, stop, replacement) ← range operation
  if start < 0 ∨ stop < start ∨ (source.length : Int) < stop then
    throw (.commandRejected "Text Edit Recipe range is invalid" "SCOPE_MISMATCH")
  if asExpected operation ((source.drop start.toNat).take (stop.toNat - start.toNat)) = false then
    throw (.commandRejected "Text Edit Recipe source no longer matches" "SCOPE_MISMATCH")
  return ⟨start.toNat, stop.toNat, replacement⟩

/-- `edits.sort(key=lambda item: (item[0], item[1]))`. -/
def sortEdits (edits : List Edit) : List Edit :=
  edits.mergeSort fun a b => a.start < b.start ∨ a.start = b.start ∧ a.stop ≤ b.stop

/-- Two neighbours of the sorted edits that may not stand together. -/
def overlaps (previous current : Edit) : Bool :=
  current.start < previous.stop ∨ current.start = previous.start ∧ current.stop = previous.stop

def applyEdit (output : List Char) (e : Edit) : List Char :=
  output.take e.start ++ e.replacement ++ output.drop e.stop

/-- `_export_text_patch`. -/
def exportTextPatch (x : ContentHash) (operations : List Operation) (source : List UInt8) :
    Except PresentationError ExportedEdit := do
  if maxEditableTextBytes < source.length then
    throw (.commandRejected "Editable text exceeds 2 MiB" "FILE_TOO_LARGE")
  match String.fromUTF8? ⟨source.toArray⟩ with
  | none =>
    throw (.commandRejected "Text Edit Recipes require valid UTF-8 source content"
      "EDIT_NOT_EXPORTABLE")
  | some text =>
    let edits ← operations.mapM (edit text.toList)
    let sorted := sortEdits edits
    if (sorted.zip sorted.tail).any fun pair => overlaps pair.1 pair.2 then
      throw (.commandRejected "Text Edit Recipe ranges overlap" "EDIT_NOT_EXPORTABLE")
    let encoded := (String.ofList (sorted.reverse.foldl applyEdit text.toList)).toUTF8.data.toList
    if maxEditableTextBytes < encoded.length then
      throw (.commandRejected "Edited text exceeds 2 MiB" "FILE_TOO_LARGE")
    return ⟨encoded, x.digest encoded⟩

/-- `TrustedEditExporter.export`. -/
def exportRecipe (x : ContentHash) (r : EditRecipe) (source : List UInt8) :
    Except PresentationError ExportedEdit :=
  if r.kind ≠ "text_patch" then
    .error (.commandRejected s!"No trusted exporter is available for Edit Recipe kind {r.kind}"
      "EDIT_NOT_EXPORTABLE")
  else exportTextPatch x r.operations source

end Export

end Fairy.Presentation
