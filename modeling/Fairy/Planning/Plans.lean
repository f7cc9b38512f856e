import Fairy.Lib.Fallible
import Fairy.Lib.Table
import Fairy.Lib.Text
import Mathlib.Data.List.Nodup

namespace Fairy.Planning

open Fairy.Lib

abbrev Uuid := Nat

abbrev Time := Nat

inductive PlanningError
  | keyError (message : String)
  | valueError (message : String)
  | indexError
  | stopIteration
  | invalidTransition (message : String)
  | idempotencyConflict (message : String)
  | versionConflict (message : String)
  | integrityError
  deriving DecidableEq

inductive TaskStepKind
  | analyze | filePlan | implement | install | test | preview | repair | summary | checkpoint
  deriving DecidableEq

def TaskStepKind.value : TaskStepKind → String
  | .analyze => "analyze"
  | .filePlan => "file_plan"
  | .implement => "implement"
  | .install => "install"
  | .test => "test"
  | .preview => "preview"
  | .repair => "repair"
  | .summary => "summary"
  | .checkpoint => "checkpoint"

inductive TaskStepStatus
  | pending | running | completed | failed | skipped
  deriving DecidableEq

namespace TaskStepStatus

def value : TaskStepStatus → String
  | pending => "pending"
  | running => "running"
  | completed => "completed"
  | failed => "failed"
  | skipped => "skipped"

/-- `_STEP_TRANSITIONS`. -/
def transitions : TaskStepStatus → List TaskStepStatus
  | pending => [running, skipped]
  | running => [completed, failed]
  | failed => [running]
  | completed | skipped => []

def final (s : TaskStepStatus) : Bool := s.transitions.isEmpty

/-- The step has been started, at least once. -/
def begun (s : TaskStepStatus) : Bool := s ∈ [running, completed, failed]

variable {s t : TaskStepStatus}

theorem final_iff : s.final = true ↔ s = completed ∨ s = skipped := by
  cases s <;> decide

theorem not_final (h : t ∈ s.transitions) : s.final = false := by
  cases s <;> simp_all [transitions, final]

/-- A step that a transition leaves begun is started by it, or was begun before it. -/
theorem begun_of_transition (h : t ∈ s.transitions) (ht : t.begun) : t = running ∨ s.begun := by
  cases s <;> cases t <;> simp_all [transitions, begun]

end TaskStepStatus

structure PlannedFile where
  path : String
  purpose : String
  batch : Nat
  expectedHash : Option String
  deriving DecidableEq

structure Manifest where
  files : List PlannedFile
  entrypoints : List String
  dependencies : List String
  validationCommands : List String
  deriving DecidableEq

structure TaskStep where
  id : Uuid
  planId : Uuid
  taskId : Uuid
  sequence : Nat
  kind : TaskStepKind
  title : String
  status : TaskStepStatus
  attempts : Nat
  errorCode : Option String
  startedAt : Option Time
  completedAt : Option Time
  deriving DecidableEq

structure ExecutionPlan where
  id : Uuid
  taskId : Uuid
  workspaceId : Uuid
  versionId : Uuid
  manifest : Manifest
  maxModelCalls : Nat := 12
  maxToolCalls : Nat := 32
  modelCallsUsed : Nat
  toolCallsUsed : Nat
  deriving DecidableEq

/-- What the planner reads of the task. -/
structure Task where
  id : Uuid
  workspaceId : Option Uuid
  targetVersionId : Option Uuid
  deriving DecidableEq

namespace TaskStep

def create (now : Time) (id planId taskId : Uuid) (sequence : Nat) (kind : TaskStepKind)
    (title : String) (completed : Bool) : Except PlanningError TaskStep := do
  if sequence < 1 then
    throw (.valueError "Task Step sequence must be positive")
  let normalizedTitle := Text.strip title
  if normalizedTitle = "" ∨ 200 < normalizedTitle.length then
    throw (.valueError "Task Step title must contain 1 to 200 characters")
  return {
    id, planId, taskId, sequence, kind
    title := normalizedTitle
    status := if completed then .completed else .pending
    attempts := if completed then 1 else 0
    errorCode := none
    startedAt := if completed then some now else none
    completedAt := if completed then some now else none }

def transitionTo (now : Time) (step : TaskStep) (target : TaskStepStatus)
    (errorCode : Option String := none) : Except PlanningError TaskStep :=
  if target ∉ step.status.transitions then
    throw (.invalidTransition
      s!"cannot transition Task Step from {step.status.value} to {target.value}")
  else
    return match target with
      | .running =>
        { step with
          attempts := step.attempts + 1, startedAt := some now, completedAt := none
          errorCode := none, status := target }
      | .failed =>
        let code := match errorCode with
          | some code => if code = "" then "WORKER_INTERRUPTED" else code
          | none => "WORKER_INTERRUPTED"
        { step with
          errorCode := some (Text.truncate 128 (Text.strip code)), completedAt := some now
          status := target }
      | .completed | .skipped =>
        { step with completedAt := some now, errorCode := none, status := target }
      | .pending => { step with status := target }

/-- The columns that no transition assigns. -/
structure Same (a b : TaskStep) : Prop where
  id : b.id = a.id
  planId : b.planId = a.planId
  sequence : b.sequence = a.sequence
  kind : b.kind = a.kind

theorem Same.refl (a : TaskStep) : a.Same a := ⟨rfl, rfl, rfl, rfl⟩

theorem Same.trans {a b c : TaskStep} (h : a.Same b) (h' : b.Same c) : a.Same c :=
  ⟨h'.id.trans h.id, h'.planId.trans h.planId, h'.sequence.trans h.sequence, h'.kind.trans h.kind⟩

theorem Same.symm {a b : TaskStep} (h : a.Same b) : b.Same a :=
  ⟨h.id.symm, h.planId.symm, h.sequence.symm, h.kind.symm⟩

variable {now : Time} {step step' : TaskStep} {target : TaskStepStatus} {errorCode : Option String}

theorem transitionTo_spec (h : step.transitionTo now target errorCode = .ok step') :
    target ∈ step.status.transitions ∧ step'.status = target ∧ step.Same step' := by
  simp only [transitionTo] at h
  split at h
  · cases h
  · rename_i hmem
    have hstep := pure_ok h
    subst hstep
    refine ⟨not_not.mp hmem, ?_, ?_⟩
    · cases target <;> rfl
    · cases target <;> exact ⟨rfl, rfl, rfl, rfl⟩

end TaskStep

section Manifests

/-- What `_normalize_manifest` checks of one path. -/
def validPath (path : String) : Bool :=
  let path := Text.strip path
  path ≠ "" ∧ path.toList.head? ≠ some '/' ∧ ['.', '.'] ∉ path.toList.splitOn '/' ∧
    ':' ∉ path.toList

def requireFiles (files : List PlannedFile) : Except PlanningError Unit :=
  if files = [] ∨ 200 < files.length then
    throw (.valueError "Execution Plan requires 1 to 200 planned files")
  else return

/-- The loop of `_normalize_manifest` over the planned files. -/
def requirePaths (seenPaths : List String) : List PlannedFile → Except PlanningError Unit
  | [] => return
  | item :: files => do
    let path := Text.strip item.path
    if validPath item.path = false then
      throw (.valueError s!"invalid planned file path: {path}")
    if path ∈ seenPaths then
      throw (.valueError s!"duplicate planned file path: {path}")
    if item.batch < 1 then
      throw (.valueError "planned file batch must be a positive integer")
    requirePaths (path :: seenPaths) files

def batches (files : List PlannedFile) : Nat := (files.map (·.batch)).foldr max 0

def requireBatches (files : List PlannedFile) : Except PlanningError Unit := do
  if ¬ ∀ batch < batches files, batch + 1 ∈ files.map (·.batch) then
    throw (.valueError "planned file batches must be contiguous from 1")
  if ∃ item ∈ files, 25 < files.countP (·.batch = item.batch) then
    throw (.valueError "an implementation batch cannot exceed 25 files")

def normalizeManifest (manifest : Manifest) : Except PlanningError Manifest := do
  requireFiles manifest.files
  requirePaths [] manifest.files
  requireBatches manifest.files
  return manifest

/-- The definitions of `_build_steps`: kind, title and whether the step is done already. -/
def stepDefinitions (manifest : Manifest) : List (TaskStepKind × String × Bool) :=
  [(.analyze, "Analyze request and Workspace", true),
    (.filePlan, "Plan files and validation", true)] ++
  (List.range' 1 (batches manifest.files)).map
    (fun batch => (.implement, s!"Implement file batch {batch}", false)) ++
  [(.install, "Install dependencies", false), (.test, "Run validation suite", false),
    (.preview, "Start and verify Preview", false), (.repair, "Repair validation failures", false),
    (.summary, "Summarize completed work", false),
    (.checkpoint, "Create durable checkpoint", false)]

variable (now : Time) (newId : Nat → Uuid)

def buildSteps (plan : ExecutionPlan) (manifest : Manifest) :
    Except PlanningError (List TaskStep) :=
  ((stepDefinitions manifest).zipIdx 1).mapM fun ((kind, title, completed), sequence) =>
    TaskStep.create now (newId sequence) plan.id plan.taskId sequence kind title completed

namespace ExecutionPlan

def create (id : Uuid) (task : Task) (manifest : Manifest)
    (initialModelCalls initialToolCalls : Nat) :
    Except PlanningError (ExecutionPlan × List TaskStep) := do
  match task.workspaceId, task.targetVersionId with
  | some workspaceId, some versionId =>
    let normalized ← normalizeManifest manifest
    let plan : ExecutionPlan := {
      id, taskId := task.id, workspaceId, versionId, manifest := normalized
      modelCallsUsed := initialModelCalls, toolCallsUsed := initialToolCalls }
    if plan.maxModelCalls < initialModelCalls then
      throw (.valueError "initial model usage exceeds the Execution Plan budget")
    if plan.maxToolCalls < initialToolCalls then
      throw (.valueError "initial tool usage exceeds the Execution Plan budget")
    let steps ← buildSteps now newId plan normalized
    return (plan, steps)
  | _, _ => throw (.valueError "Execution Plan requires a Task Workspace Version")

/-- The batch that the manifest plans for a path. -/
def plannedBatch (plan : ExecutionPlan) (path : String) : Option Nat :=
  (plan.manifest.files.reverse.find? (·.path = path)).map (·.batch)

def requirePlanned (plan : ExecutionPlan) (path : String) : Except PlanningError Nat :=
  match plan.plannedBatch path with
  | some batch => return batch
  | none => throw (.valueError s!"file is not present in the Execution Plan: {path}")

def batchForPaths (plan : ExecutionPlan) (paths : List String) : Except PlanningError Nat := do
  if paths = [] then
    throw (.valueError "file batch cannot be empty")
  match (← paths.mapM plan.requirePlanned).dedup with
  | [batch] =>
    let expected := (plan.manifest.files.map (·.path)).filter (plan.plannedBatch · = some batch)
    if (∀ path ∈ paths, path ∈ expected) ∧ ∀ path ∈ expected, path ∈ paths then
      return batch
    else
      throw (.valueError "Changeset must contain the complete planned file batch")
  | _ => throw (.valueError "one Changeset cannot span multiple planned batches")

end ExecutionPlan

end Manifests

section Building

variable {now : Time} {newId : Nat → Uuid} {plan : ExecutionPlan} {manifest : Manifest}
variable {steps : List TaskStep}

theorem create_spec {id planId taskId : Uuid} {sequence : Nat} {kind : TaskStepKind}
    {title : String} {completed : Bool} {step : TaskStep}
    (h : TaskStep.create now id planId taskId sequence kind title completed = .ok step) :
    step.planId = planId ∧ step.sequence = sequence ∧ step.kind = kind ∧
      step.status = if completed then .completed else .pending := by
  simp only [TaskStep.create] at h
  split at h
  · cases h
  · split at h
    · cases h
    · cases h
      exact ⟨rfl, rfl, rfl, rfl⟩

theorem buildSteps_kinds (h : buildSteps now newId plan manifest = .ok steps) :
    steps.map (·.kind) = (stepDefinitions manifest).map (·.1) := by
  have hkinds : ((stepDefinitions manifest).zipIdx 1).map (·.1.1) = steps.map (·.kind) := by
    refine List.forall₂_eq_eq_eq ▸ ?_
    rw [List.forall₂_map_left_iff, List.forall₂_map_right_iff]
    exact (mapM_ok h).imp fun a b hab => (create_spec hab).2.2.1.symm
  have hfst : ((stepDefinitions manifest).zipIdx 1).map (·.1.1) =
      (((stepDefinitions manifest).zipIdx 1).map Prod.fst).map Prod.fst := by
    rw [List.map_map]
    rfl
  rw [← hkinds, hfst, List.zipIdx_map_fst]

/-- The planner leaves every step to be started, but those that planning itself has done. -/
theorem buildSteps_spec (h : buildSteps now newId plan manifest = .ok steps) {step : TaskStep}
    (hstep : step ∈ steps) : step.planId = plan.id ∧
      (step.status = .pending ∨ step.kind = .analyze ∨ step.kind = .filePlan) := by
  obtain ⟨⟨⟨kind, title, completed⟩, sequence⟩, hmem, hcreate⟩ := mapM_mem h hstep
  obtain ⟨hplan, _, hkind, hstatus⟩ := create_spec hcreate
  refine ⟨hplan, ?_⟩
  rw [hkind, hstatus]
  have hdefinition := List.fst_mem_of_mem_zipIdx hmem
  simp only [stepDefinitions, List.mem_append, List.mem_map, List.mem_cons, Prod.mk.injEq,
    List.not_mem_nil, or_false] at hdefinition
  obtain ((⟨rfl, -, -⟩ | ⟨rfl, -, -⟩) | ⟨_, -, rfl, -, rfl⟩) | hlast := hdefinition
  · simp
  · simp
  · simp
  · obtain ⟨-, -, rfl⟩ | ⟨-, -, rfl⟩ | ⟨-, -, rfl⟩ | ⟨-, -, rfl⟩ | ⟨-, -, rfl⟩ | ⟨-, -, rfl⟩ :=
      hlast <;> simp

/-- A plan has one install step. -/
theorem buildSteps_install (h : buildSteps now newId plan manifest = .ok steps) {s t : TaskStep}
    (hs : s ∈ steps) (ht : t ∈ steps) (hskind : s.kind = .install) (htkind : t.kind = .install) :
    s = t := by
  have hcount : steps.countP (·.kind = .install) = 1 := by
    have hmap := congrArg (List.countP (· = TaskStepKind.install)) (buildSteps_kinds h)
    rw [List.countP_map] at hmap
    refine Eq.trans ?_ (hmap.trans ?_)
    · rfl
    · simp [stepDefinitions, List.countP_append, Function.comp_def]
  rw [List.countP_eq_length_filter, List.length_eq_one_iff] at hcount
  obtain ⟨x, hx⟩ := hcount
  have hsx : s ∈ steps.filter (·.kind = .install) := by simp [hs, hskind]
  have htx : t ∈ steps.filter (·.kind = .install) := by simp [ht, htkind]
  rw [hx, List.mem_singleton] at hsx htx
  exact hsx.trans htx.symm

end Building

end Fairy.Planning
