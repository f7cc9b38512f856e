import Fairy.Presentation.EditRecipes
import Fairy.Lib.Base64
import Fairy.Lib.Table
import Fairy.Lib.Run

namespace Fairy.Presentation

open Fairy.Lib
open Fairy.Commanding (Uuid Time)

/-- The table `core_edit_recipes` of a tenant. -/
abbrev Recipes := Table EditRecipe EditRecipe.id fun _ => True

/-- What the application asks of the versions of the workspaces, which do not change, and of
`json`. -/
structure PresentationFiles extends ContentHash where
  /-- The path and the content hash of the primary member of a file set. -/
  primary : (workspaceId versionId fileSetId : Uuid) → Except PresentationError (String × String)
  readFile : (workspaceId versionId : Uuid) → String → Except PresentationError (List UInt8)
  /-- The length of a compact `json.dumps` in bytes. -/
  encodedLength : List Operation → Nat

section Repository

/-- The unique constraint on `apply_idempotency_key`. -/
def KeyTaken (recipe : EditRecipe) (s : Recipes) : Prop :=
  ∃ row ∈ s.rows, row.id ≠ recipe.id ∧ row.applyIdempotencyKey ≠ none ∧
    row.applyIdempotencyKey = recipe.applyIdempotencyKey

instance {recipe : EditRecipe} {s : Recipes} : Decidable (KeyTaken recipe s) :=
  inferInstanceAs (Decidable (∃ row ∈ s.rows, _))

/-- What the `UPDATE` of `save_edit_recipe` selects. -/
def EditRecipe.Precedes (recipe row : EditRecipe) : Prop :=
  row.id = recipe.id ∧ row.revision + 1 = recipe.revision

instance {recipe : EditRecipe} : DecidablePred recipe.Precedes :=
  fun _ => inferInstanceAs (Decidable (_ ∧ _))

/-- What the `UPDATE` of `save_edit_recipe` assigns. -/
def savedValues (recipe row : EditRecipe) : EditRecipe :=
  { row with
    operations := recipe.operations
    status := recipe.status
    revision := recipe.revision
    applyIdempotencyKey := recipe.applyIdempotencyKey
    appliedVersionId := recipe.appliedVersionId
    outputHash := recipe.outputHash
    updatedAt := recipe.updatedAt }

/-- `save_edit_recipe`, with the row that it leaves. -/
def saveEditRecipe (recipe : EditRecipe) (s : Recipes) :
    Except PresentationError (EditRecipe × Recipes) :=
  match s.oneOrNone recipe.Precedes with
  | some row =>
    if KeyTaken recipe s then .error (.integrityError "uq_core_edit_recipes_apply_idempotency")
    else .ok (savedValues recipe row, s.update recipe.Precedes (savedValues recipe))
  | none =>
    if ∃ row ∈ s.rows, row.id = recipe.id then
      .error (.versionConflict "Edit Recipe revision changed concurrently")
    else if KeyTaken recipe s then
      .error (.integrityError "uq_core_edit_recipes_apply_idempotency")
    else
      match s.insertAll [recipe] with
      | some t => .ok (recipe, t)
      | none => .error (.integrityError "pk_core_edit_recipes")

end Repository

section Units

variable (x : PresentationFiles)

/-- `_require_file_set`. -/
def requireFileSet (workspaceId versionId fileSetId : Uuid) (sourceHash : String) :
    Except PresentationError String := do
  let (path, contentHash) ← x.primary workspaceId versionId fileSetId
  if contentHash ≠ sourceHash then
    throw (.previewScopeViolation "Presentation source changed")
  return path

/-- `_require_bounded_json` of the operations. -/
def requireBoundedJson (operations : List Operation) : Except PresentationError Unit :=
  if 256 * 1024 < x.encodedLength operations then
    .error (.valueError "Presentation metadata exceeds its size limit")
  else .ok ()

def notFound (recipeId : Uuid) : PresentationError := .keyError s!"Edit Recipe not found: {recipeId}"

/-- What the caller of `create_recipe` gives, with the id and the time of the new recipe. -/
structure RecipeDraft where
  id : Uuid
  workspaceId : Uuid
  versionId : Uuid
  fileSetId : Uuid
  sourceHash : String
  kind : String
  operations : List Operation
  now : Time
  deriving DecidableEq

def RecipeDraft.recipe (d : RecipeDraft) : EditRecipe where
  id := d.id
  workspaceId := d.workspaceId
  versionId := d.versionId
  fileSetId := d.fileSetId
  sourceHash := d.sourceHash
  kind := d.kind
  operations := d.operations
  createdAt := d.now
  updatedAt := d.now

/-- A unit of work raises, or it returns the row that it has written, if any, and the table. -/
abbrev UnitOfWork := Except PresentationError (Option EditRecipe × Recipes)

def createRecipe (d : RecipeDraft) (s : Recipes) : UnitOfWork := do
  let _ ← requireFileSet x d.workspaceId d.versionId d.fileSetId d.sourceHash
  requireBoundedJson x d.operations
  let (row, t) ← saveEditRecipe d.recipe s
  return (some row, t)

def updateRecipe (recipeId : Uuid) (expectedRevision : Int) (operations : List Operation)
    (now : Time) (s : Recipes) : UnitOfWork := do
  requireBoundedJson x operations
  match s.find? recipeId with
  | none => throw (notFound recipeId)
  | some recipe =>
    let updated ← recipe.update expectedRevision operations now
    let (row, t) ← saveEditRecipe updated s
    return (some row, t)

def discardRecipe (recipeId : Uuid) (now : Time) (s : Recipes) : UnitOfWork :=
  match s.find? recipeId with
  | none => .error (notFound recipeId)
  | some recipe =>
    if recipe.discard now ≠ recipe then
      (saveEditRecipe (recipe.discard now) s).map fun (row, t) => (some row, t)
    else .ok (none, s)

/-- The arguments of `apply_recipe`. -/
structure ApplyArguments where
  recipeId : Uuid
  conversationId : Uuid
  expectedRecipeRevision : Int
  expectedWorkspaceRevision : Int
  idempotencyKey : String
  userConfirmed : Bool
  deriving DecidableEq

/-- What a call of `apply_recipe` holds after its first unit of work. -/
structure Applying where
  arguments : ApplyArguments
  recipe : EditRecipe
  applying : EditRecipe
  sourcePath : String
  exported : ExportedEdit
  deriving DecidableEq

/-- Where a call of `apply_recipe` stands between its units of work. -/
inductive ApplyCall
  | marking (a : Applying)
  | mutating (a : Applying)
  | finishing (a : Applying) (applied : EditRecipe)
  deriving DecidableEq

/-- The path of the source of a recipe, and the export over it. -/
def exportSource (recipe : EditRecipe) : Except PresentationError (String × ExportedEdit) := do
  let path ← requireFileSet x recipe.workspaceId recipe.versionId recipe.fileSetId
    recipe.sourceHash
  let source ← x.readFile recipe.workspaceId recipe.versionId path
  let exported ← exportRecipe x.toContentHash recipe source
  return (path, exported)

/-- The first unit of work of `apply_recipe` and what follows it: nothing is left to do when the
recipe has been applied. -/
def startApply (arguments : ApplyArguments) (now : Time) (s : Recipes) :
    Except PresentationError (Option ApplyCall) :=
  match s.find? arguments.recipeId with
  | none => .error (notFound arguments.recipeId)
  | some recipe =>
    if recipe.status = .applied then do
      let _ ← recipe.beginApply arguments.expectedRecipeRevision arguments.idempotencyKey now
      return none
    else do
      let (sourcePath, exported) ← exportSource x recipe
      let applying ←
        recipe.beginApply arguments.expectedRecipeRevision arguments.idempotencyKey now
      let a : Applying := ⟨arguments, recipe, applying, sourcePath, exported⟩
      return some (if applying ≠ recipe then .marking a else .mutating a)

/-- The second unit of work: `DRAFT` becomes `APPLYING`. -/
def markApplying (a : Applying) (s : Recipes) : UnitOfWork :=
  if s.find? a.arguments.recipeId ≠ some a.recipe then
    .error (.versionConflict "Edit Recipe revision changed concurrently")
  else (saveEditRecipe a.applying s).map fun (row, t) => (some row, t)

/-- The last unit of work: `APPLYING` becomes `APPLIED`. -/
def storeApplied (a : Applying) (applied : EditRecipe) (now : Time) (s : Recipes) : UnitOfWork :=
  match s.find? a.arguments.recipeId with
  | none => .error (notFound a.arguments.recipeId)
  | some current =>
    if current.status = .applied then
      (current.beginApply a.arguments.expectedRecipeRevision a.arguments.idempotencyKey now).map
        fun _ => (none, s)
    else (saveEditRecipe applied s).map fun (row, t) => (some row, t)

/-- A `WorkspaceFileMutateInput` that updates one file. -/
structure WorkspaceFileMutateInput where
  workspaceId : Uuid
  conversationId : Uuid
  expectedWorkspaceRevision : Int
  path : String
  contentBase64 : List Char
  expectedHash : String
  reason : String
  idempotencyKey : String
  userConfirmed : Bool
  deriving DecidableEq

def Applying.mutation (a : Applying) : WorkspaceFileMutateInput where
  workspaceId := a.applying.workspaceId
  conversationId := a.arguments.conversationId
  expectedWorkspaceRevision := a.arguments.expectedWorkspaceRevision
  path := a.sourcePath
  contentBase64 := Base64.b64encode a.exported.content
  expectedHash := a.applying.sourceHash
  reason := s!"Apply {a.applying.kind} Edit Recipe"
  idempotencyKey := a.arguments.idempotencyKey
  userConfirmed := a.arguments.userConfirmed

/-- A workspace version that was committed on behalf of a recipe. -/
structure CommittedVersion where
  versionId : Uuid
  recipeId : Uuid
  input : WorkspaceFileMutateInput
  deriving DecidableEq

/-- `mutate_workspace_files`: it raises and commits nothing, or it commits a version, but only the
first time for an idempotency key. -/
def mutateWorkspaceFiles (recipeId : Uuid) (input : WorkspaceFileMutateInput)
    (outcome : Option Uuid) (versions : List CommittedVersion) :
    Except PresentationError (CommittedVersion × List CommittedVersion) :=
  match outcome with
  | none => .error (.called "mutate_workspace_files")
  | some versionId =>
    match versions.find? fun v => v.input.idempotencyKey = input.idempotencyKey with
    | some v => .ok (v, versions)
    | none => .ok (⟨versionId, recipeId, input⟩, versions ++ [⟨versionId, recipeId, input⟩])

end Units

/-- An update that was accepted. -/
structure AcceptedUpdate where
  recipeId : Uuid
  expectedRevision : Int
  operations : List Operation
  deriving DecidableEq

/-- The recipes, the versions committed for them, the calls of `apply_recipe` that are on their
way, and what has been stored and accepted so far. -/
structure World where
  recipes : Recipes
  versions : List CommittedVersion
  calls : List ApplyCall
  stored : List EditRecipe
  updates : List AcceptedUpdate

def World.empty : World := ⟨.empty, [], [], [], []⟩

/-- The units of work. A call that raises, or whose process ends, takes no further one. -/
inductive Work
  | create (d : RecipeDraft)
  | update (recipeId : Uuid) (expectedRevision : Int) (operations : List Operation) (now : Time)
  | discard (recipeId : Uuid) (now : Time)
  | apply (arguments : ApplyArguments) (now : Time)
  | mark (a : Applying)
  | mutate (a : Applying) (outcome : Option Uuid) (now : Time)
  | finish (a : Applying) (applied : EditRecipe) (now : Time)

/-- A call of `apply_recipe` goes on from where it stands. -/
def Admitted (w : World) : Work → Prop
  | .mark a => .marking a ∈ w.calls
  | .mutate a _ _ => .mutating a ∈ w.calls
  | .finish a applied _ => .finishing a applied ∈ w.calls
  | _ => True

instance {w : World} {work : Work} : Decidable (Admitted w work) := by
  unfold Admitted
  cases work <;> infer_instance

namespace World

variable (x : PresentationFiles) (w : World)

/-- What a unit of work commits. -/
def commit (saved : Option EditRecipe) (t : Recipes) : World :=
  { w with recipes := t, stored := w.stored ++ saved.toList }

/-- A call takes its next unit of work, or ends. -/
def resume (call : ApplyCall) (next : Option ApplyCall) : World :=
  { w with calls := w.calls.erase call ++ next.toList }

def perform : Work → World
  | .create d =>
    match createRecipe x d w.recipes with
    | .ok (saved, t) => w.commit saved t
    | .error _ => w
  | .update recipeId expectedRevision operations now =>
    match updateRecipe x recipeId expectedRevision operations now w.recipes with
    | .ok (saved, t) =>
      { w.commit saved t with
        updates := w.updates ++ [⟨recipeId, expectedRevision, operations⟩] }
    | .error _ => w
  | .discard recipeId now =>
    match discardRecipe recipeId now w.recipes with
    | .ok (saved, t) => w.commit saved t
    | .error _ => w
  | .apply arguments now =>
    match startApply x arguments now w.recipes with
    | .ok next => { w with calls := w.calls ++ next.toList }
    | .error _ => w
  | .mark a =>
    match markApplying a w.recipes with
    | .ok (saved, t) => (w.commit saved t).resume (.marking a) (some (.mutating a))
    | .error _ => w.resume (.marking a) none
  | .mutate a outcome now =>
    match mutateWorkspaceFiles a.applying.id a.mutation outcome w.versions with
    | .ok (v, versions) =>
      { w with versions }.resume (.mutating a)
        ((a.applying.finishApply v.versionId a.exported.contentHash now).toOption.map
          (.finishing a))
    | .error _ => w.resume (.mutating a) none
  | .finish a applied now =>
    match storeApplied a applied now w.recipes with
    | .ok (saved, t) => (w.commit saved t).resume (.finishing a applied) none
    | .error _ => w.resume (.finishing a applied) none

section

-- the equations of the step are derived here once, and not by each proof that needs them
attribute [local simp] perform

end

end World

/-- One unit of work. -/
def Step (x : PresentationFiles) (w : World) (work : Work) (w' : World) : Prop :=
  w' = w.perform x work

end Fairy.Presentation
