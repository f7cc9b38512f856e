import Fairy.Planning.Plans
import Mathlib.Data.List.Sort

namespace Fairy.Planning

open Fairy.Lib

abbrev PlanTable := Table ExecutionPlan (fun p => p.id) fun _ => True

abbrev StepTable := Table TaskStep (fun s => s.id) fun s => 0 < s.sequence

structure PlanningStore where
  plans : PlanTable
  steps : StepTable

/-- A step that a unit of work has moved on, and the columns its update compares. -/
structure StepWrite where
  step : TaskStep
  expectedStatus : TaskStepStatus
  expectedAttempts : Nat
  deriving DecidableEq

namespace StepWrite

def Matches (w : StepWrite) (row : TaskStep) : Prop :=
  row.id = w.step.id ∧ row.status = w.expectedStatus ∧ row.attempts = w.expectedAttempts

instance (w : StepWrite) : DecidablePred w.Matches := fun _ =>
  inferInstanceAs (Decidable (_ ∧ _ ∧ _))

/-- The assignments of the update leave `id`, `plan_id`, `task_id` and `sequence` alone. -/
def assign (w : StepWrite) (row : TaskStep) : TaskStep :=
  { w.step with id := row.id, planId := row.planId, taskId := row.taskId, sequence := row.sequence }

end StepWrite

/-- `ORDER BY sequence`. -/
def InSequence (a b : TaskStep) : Prop := a.sequence ≤ b.sequence

instance : DecidableRel InSequence := fun _ _ => inferInstanceAs (Decidable (_ ≤ _))

instance : Std.Total InSequence := ⟨fun a b => Nat.le_total a.sequence b.sequence⟩

instance : IsTrans TaskStep InSequence := ⟨fun _ _ _ => Nat.le_trans⟩

namespace PlanningStore

def empty : PlanningStore := ⟨.empty, .empty⟩

def executionPlanForTask (s : PlanningStore) (taskId : Uuid) : Option ExecutionPlan :=
  s.plans.oneOrNone (·.taskId = taskId)

def taskStepsForPlan (s : PlanningStore) (planId : Uuid) : List TaskStep :=
  (s.steps.select (·.planId = planId)).insertionSort InSequence

def saveExecutionPlan (s : PlanningStore) (plan : ExecutionPlan) (steps : List TaskStep) :
    Except PlanningError PlanningStore :=
  if (∃ p ∈ s.plans.rows, p.taskId = plan.taskId) ∨
      ¬ ((s.steps.rows ++ steps).map fun t => (t.planId, t.sequence)).Nodup then
    throw .integrityError
  else
    match s.plans.insertAll [plan], s.steps.insertAll steps with
    | some plans, some steps => return ⟨plans, steps⟩
    | _, _ => throw .integrityError

def saveTaskStep (s : PlanningStore) (w : StepWrite) : Except PlanningError PlanningStore :=
  if ∃ row ∈ s.steps.rows, w.Matches row then
    return { s with steps := s.steps.update w.Matches w.assign }
  else throw (.versionConflict "Task Step state changed concurrently")

end PlanningStore

/-- `transition_to` and the `save_task_step` after it. -/
def TaskStep.move (now : Time) (step : TaskStep) (target : TaskStepStatus)
    (errorCode : Option String := none) : Except PlanningError StepWrite := do
  return ⟨← step.transitionTo now target errorCode, step.status, step.attempts⟩

/-- What a unit of work returns, and the writes that it commits. -/
abbrev Prepared := Except PlanningError (TaskStep × List StepWrite)

def firstOfKind (steps : List TaskStep) (kind : TaskStepKind) : Except PlanningError TaskStep :=
  match steps.find? (·.kind = kind) with
  | some step => return step
  | none => throw .stopIteration

def implementationSteps (steps : List TaskStep) : List TaskStep :=
  steps.filter (·.kind = .implement)

def implementationStep (steps : List TaskStep) (batch : Nat) : Except PlanningError TaskStep :=
  match (implementationSteps steps)[batch - 1]? with
  | some step => return step
  | none => throw .indexError

section Operations

variable (now : Time) (plan : ExecutionPlan) (steps : List TaskStep)

/-- The end of `start_file_batch` and of `start_step`. -/
def TaskStep.start (step : TaskStep) : Prepared :=
  if step.status = .completed ∨ step.status = .running then return (step, [])
  else do
    let write ← step.move now .running
    return (write.step, [write])

/-- The end of `_finish_file_batch` and of `_finish_step`. -/
def TaskStep.finish (step : TaskStep) (notRunning : String) (errorCode : Option String) :
    Prepared := do
  if step.status = .completed ∧ errorCode = none then
    return (step, [])
  if step.status ≠ .running then
    throw (.valueError notRunning)
  let target := if errorCode.isSome then TaskStepStatus.failed else TaskStepStatus.completed
  let write ← step.move now target errorCode
  return (write.step, [write])

def requireInOrder (earlier : List TaskStep) : Except PlanningError Unit :=
  if ∃ previous ∈ earlier, previous.status ≠ .completed then
    throw (.valueError "Execution Plan file batches must run in order")
  else return

def startFileBatch (paths : List String) : Prepared := do
  let batch ← plan.batchForPaths paths
  let step ← implementationStep steps batch
  requireInOrder ((implementationSteps steps).take (batch - 1))
  step.start now

def finishFileBatch (paths : List String) (errorCode : Option String) : Prepared := do
  let batch ← plan.batchForPaths paths
  let step ← implementationStep steps batch
  step.finish now "Execution Plan file batch is not running" errorCode

/-- The install step that `start_step` skips or finds finished before it starts the tests. -/
def skipInstall : Except PlanningError (List StepWrite) := do
  let install ← firstOfKind steps .install
  if install.status = .pending ∧ plan.manifest.dependencies = [] then
    return [← install.move now .skipped]
  if install.status ∉ [TaskStepStatus.completed, .skipped] then
    throw (.valueError "dependency installation must finish before tests")
  return []

def requireBatchesFinished : Except PlanningError Unit :=
  if ∃ item ∈ steps, item.kind = .implement ∧ item.status ≠ .completed then
    throw (.valueError "all file batches must finish before validation")
  else return

/-- What `start_step` checks of the other steps, and the write that it makes first. -/
def requireSteps : TaskStepKind → Except PlanningError (List StepWrite)
  | .install => do
    requireBatchesFinished steps
    return []
  | .test => do
    let skips ← skipInstall now plan steps
    requireBatchesFinished steps
    return skips
  | _ => return []

def startStep (kind : TaskStepKind) : Prepared :=
  match steps.filter (·.kind = kind) with
  | [step] => do
    let skips ← requireSteps now plan steps kind
    -- a completed step is returned before the commit, which drops the skip
    if step.status = .completed then
      return (step, [])
    let (started, writes) ← step.start now
    return (started, skips ++ writes)
  | _ => throw (.valueError s!"Execution Plan has no singular {kind.value} step")

def finishStep (kind : TaskStepKind) (errorCode : Option String) : Prepared := do
  let step ← firstOfKind steps kind
  step.finish now s!"Execution Plan {kind.value} step is not running" errorCode

def skipStep (kind : TaskStepKind) : Prepared := do
  let step ← firstOfKind steps kind
  if step.status ∈ [TaskStepStatus.completed, .skipped] then
    return (step, [])
  if step.status ≠ .pending then
    throw (.valueError s!"Execution Plan {kind.value} step cannot be skipped")
  let write ← step.move now .skipped
  return (write.step, [write])

end Operations

inductive PlanningCall
  | startFileBatch (paths : List String)
  | completeFileBatch (paths : List String)
  | failFileBatch (paths : List String) (errorCode : String)
  | startStep (kind : TaskStepKind)
  | completeStep (kind : TaskStepKind)
  | failStep (kind : TaskStepKind) (errorCode : String)
  | skipStep (kind : TaskStepKind)
  deriving DecidableEq

namespace PlanningCall

def prepare (now : Time) (plan : ExecutionPlan) (steps : List TaskStep) :
    PlanningCall → Prepared
  | .startFileBatch paths => Planning.startFileBatch now plan steps paths
  | .completeFileBatch paths => finishFileBatch now plan steps paths none
  | .failFileBatch paths errorCode => finishFileBatch now plan steps paths (some errorCode)
  | .startStep kind => Planning.startStep now plan steps kind
  | .completeStep kind => finishStep now steps kind none
  | .failStep kind errorCode => finishStep now steps kind (some errorCode)
  | .skipStep kind => Planning.skipStep now steps kind

/-- The calls on a file batch raise where the others return None. -/
def unplanned : PlanningCall → Except PlanningError (Option TaskStep × List StepWrite)
  | .startFileBatch _ | .completeFileBatch _ | .failFileBatch _ _ =>
    throw (.valueError "Execution Plan is required before file changes")
  | .startStep _ | .completeStep _ | .failStep _ _ | .skipStep _ => return (none, [])

end PlanningCall

namespace PlanningStore

variable (s : PlanningStore)

/-- What a unit of work reads and decides, up to its commit. -/
def prepare (now : Time) (taskId : Uuid) (call : PlanningCall) :
    Except PlanningError (Option TaskStep × List StepWrite) :=
  match s.executionPlanForTask taskId with
  | none => call.unplanned
  | some plan => do
    let (step, writes) ← call.prepare now plan (s.taskStepsForPlan plan.id)
    return (some step, writes)

/-- The updates of one unit of work, in one transaction. -/
def commit (writes : List StepWrite) : Except PlanningError PlanningStore :=
  writes.foldlM saveTaskStep s

structure CreateInput where
  taskId : Uuid
  manifest : Manifest
  initialModelCalls : Nat := 0
  initialToolCalls : Nat := 0
  deriving DecidableEq

/-- `ExecutionPlanningApplication.create`. -/
def create (now : Time) (newPlanId : Uuid) (newId : Nat → Uuid) (task : Option Task)
    (request : CreateInput) :
    Except PlanningError (PlanningStore × ExecutionPlan × List TaskStep) :=
  match task with
  | none => throw (.keyError s!"Task not found: {request.taskId}")
  | some task =>
    match s.executionPlanForTask task.id with
    | some existing =>
      if existing.manifest ≠ request.manifest then
        throw (.idempotencyConflict "Task already has a different Execution Plan")
      else return (s, existing, s.taskStepsForPlan existing.id)
    | none => do
      let (plan, steps) ← ExecutionPlan.create now newId newPlanId task request.manifest
        request.initialModelCalls request.initialToolCalls
      return (← s.saveExecutionPlan plan steps, plan, steps)

end PlanningStore

end Fairy.Planning
