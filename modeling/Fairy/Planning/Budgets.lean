import Fairy.Lib.Guarded
import Fairy.Planning.Interleaving
import Fairy.Workflow.Models

namespace Fairy.Planning

open Fairy.Lib

inductive ExecutionPlanStatus
  | active | paused | completed | failed | cancelled
  deriving DecidableEq

namespace ExecutionPlanStatus

/-- What `_finish` accepts as an end. -/
def terminal (s : ExecutionPlanStatus) : Bool := s ∈ [completed, failed, cancelled]

/-- What `_finish` accepts as a beginning. -/
def unfinished (s : ExecutionPlanStatus) : Bool := s ∈ [active, paused]

/-- How `_finish_execution_plan` ends a plan that it is asked to end with a status. -/
def ending : ExecutionPlanStatus → ExecutionPlanStatus
  | completed => completed
  | cancelled => cancelled
  | active | paused | failed => failed

end ExecutionPlanStatus

/-- The columns of a plan that change after it is saved. Its times are in microseconds. -/
structure PlanUsage where
  planId : Uuid
  status : ExecutionPlanStatus := .active
  maxModelCalls : Nat := 12
  maxToolCalls : Nat := 32
  maxDurationSeconds : Nat := 1800
  modelCallsUsed : Nat := 0
  toolCallsUsed : Nat := 0
  revision : Nat := 0
  createdAt : Time
  updatedAt : Time
  deriving DecidableEq

/-- A method of a plan. One that raises leaves behind what it has assigned. -/
abbrev PlanMethod := EStateM PlanningError PlanUsage

namespace PlanUsage

def create (now : Time) (plan : ExecutionPlan) : PlanUsage := {
  planId := plan.id
  maxModelCalls := plan.maxModelCalls, maxToolCalls := plan.maxToolCalls
  modelCallsUsed := plan.modelCallsUsed, toolCallsUsed := plan.toolCallsUsed
  createdAt := now, updatedAt := now }

def deadline (p : PlanUsage) : Time := p.createdAt + p.maxDurationSeconds * 1000000

def touched (p : PlanUsage) (now : Time) : PlanUsage :=
  { p with revision := p.revision + 1, updatedAt := now }

/-- `_touch`. -/
def touch (now : Time) : PlanMethod Unit := modify (·.touched now)

def requireActive : PlanMethod Unit := do
  if (← get).status ≠ .active then
    throw (.invalidTransition "Execution Plan is not active")

def pause (now : Time) : PlanMethod Unit := do
  if (← get).status ≠ .active then
    throw (.invalidTransition "only an active Execution Plan can pause")
  modify ({ · with status := .paused })
  touch now

/-- What the methods that consume a budget share. -/
def consume (budget : String) (exhausted : PlanUsage → Bool) (count : PlanUsage → PlanUsage)
    (now : Time) : PlanMethod Unit := do
  requireActive
  if exhausted (← get) then
    pause now
    throw (.invalidTransition s!"Execution Plan {budget} budget exhausted")
  modify count
  touch now

/-- The clock is read for the deadline, and again for the row. -/
def consumeModelCall (checked now : Time) : PlanMethod Unit :=
  consume "model" (fun p => p.maxModelCalls ≤ p.modelCallsUsed ∨ p.deadline ≤ checked)
    (fun p => { p with modelCallsUsed := p.modelCallsUsed + 1 }) now

def consumeToolCall (checked now : Time) : PlanMethod Unit :=
  consume "tool" (fun p => p.maxToolCalls ≤ p.toolCallsUsed ∨ p.deadline ≤ checked)
    (fun p => { p with toolCallsUsed := p.toolCallsUsed + 1 }) now

def upgradeBudget (maxModelCalls maxToolCalls maxDurationSeconds : Nat) (now : Time) :
    PlanMethod Bool := do
  requireActive
  let p ← get
  if maxModelCalls < p.maxModelCalls ∨ maxToolCalls < p.maxToolCalls ∨
      maxDurationSeconds < p.maxDurationSeconds then
    throw (.valueError "Execution Plan budget cannot be reduced")
  if maxModelCalls = p.maxModelCalls ∧ maxToolCalls = p.maxToolCalls ∧
      maxDurationSeconds = p.maxDurationSeconds then
    return false
  modify ({ · with maxModelCalls, maxToolCalls, maxDurationSeconds })
  touch now
  return true

/-- `complete`, `fail` and `cancel` are `_finish` with their status. -/
def finish (status : ExecutionPlanStatus) (now : Time) : PlanMethod Unit := do
  if !status.terminal then
    throw (.valueError "Execution Plan finish status must be terminal")
  if !(← get).status.unfinished then
    throw (.invalidTransition "Execution Plan is already terminal")
  modify ({ · with status })
  touch now

section Methods

variable {budget : String} {exhausted : PlanUsage → Bool} {count : PlanUsage → PlanUsage}
  {status : ExecutionPlanStatus} {models tools seconds : Nat} {now : Time} {p p' : PlanUsage}

/-- A plan whose budget is exhausted is paused, and then the method raises. -/
theorem consume_run : (consume budget exhausted count now).run p =
    if p.status ≠ .active then
      .error (.invalidTransition "Execution Plan is not active") p
    else if exhausted p then
      .error (.invalidTransition s!"Execution Plan {budget} budget exhausted")
        ({ p with status := .paused }.touched now)
    else .ok () ((count p).touched now) := by
  by_cases hactive : p.status = .active
  · cases hexhausted : exhausted p <;>
      simp [consume, requireActive, pause, touch, hactive, hexhausted]
  · simp [consume, requireActive, hactive]

theorem consume_ok (h : (consume budget exhausted count now).run p = .ok () p') :
    p.status = .active ∧ exhausted p = false ∧ p' = (count p).touched now := by
  rw [consume_run] at h
  split_ifs at h with hactive hexhausted
  cases h
  exact ⟨not_not.mp hactive, by simpa using hexhausted, rfl⟩

theorem upgradeBudget_run : (upgradeBudget models tools seconds now).run p =
    if p.status ≠ .active then
      .error (.invalidTransition "Execution Plan is not active") p
    else if models < p.maxModelCalls ∨ tools < p.maxToolCalls ∨ seconds < p.maxDurationSeconds then
      .error (.valueError "Execution Plan budget cannot be reduced") p
    else if models = p.maxModelCalls ∧ tools = p.maxToolCalls ∧ seconds = p.maxDurationSeconds then
      .ok false p
    else .ok true ({ p with
      maxModelCalls := models, maxToolCalls := tools, maxDurationSeconds := seconds }.touched
        now) := by
  split_ifs with hactive hreduced hsame
  · simp [upgradeBudget, requireActive, hactive]
  · simp [upgradeBudget, requireActive, not_not.mp hactive, if_pos hreduced]
  · simp [upgradeBudget, requireActive, not_not.mp hactive, if_neg hreduced, if_pos hsame]
  · simp [upgradeBudget, requireActive, touch, not_not.mp hactive, if_neg hreduced, if_neg hsame,
      -bind_pure_comp]

theorem finish_run : (finish status now).run p =
    if !status.terminal then
      .error (.valueError "Execution Plan finish status must be terminal") p
    else if !p.status.unfinished then
      .error (.invalidTransition "Execution Plan is already terminal") p
    else .ok () ({ p with status }.touched now) := by
  split_ifs with hterminal hunfinished <;> simp_all [finish, touch]

end Methods

end PlanUsage

/-- What a unit of work does to a plan that it has read. -/
inductive PlanOp
  | modelCall (checked now : Time)
  | toolCall (checked now : Time)
  | upgrade (now : Time)
  | finish (status : ExecutionPlanStatus) (now : Time)
  deriving DecidableEq

namespace PlanOp

/-- The method, and whether its caller goes on to `update_execution_plan`. -/
def method : PlanOp → PlanMethod Bool
  | modelCall checked now => do PlanUsage.consumeModelCall checked now; return true
  | toolCall checked now => do PlanUsage.consumeToolCall checked now; return true
  | upgrade now =>
    let budget := Workflow.WorkflowBudget.deep
    PlanUsage.upgradeBudget budget.maxModelRounds budget.maxToolInvocations
      budget.maxDurationSeconds now
  | finish status now => do PlanUsage.finish status now; return true

/-- The row to store, if there is one. -/
def apply (op : PlanOp) (p : PlanUsage) : Option PlanUsage :=
  match op.method.run p with
  | .ok true p' => some p'
  | .ok false _ | .error _ _ => none

def isModelCall : PlanOp → Bool
  | modelCall _ _ => true
  | _ => false

def isToolCall : PlanOp → Bool
  | toolCall _ _ => true
  | _ => false

/-- When an operation stores a row, and which. -/
def Stores (p p' : PlanUsage) : PlanOp → Prop
  | modelCall checked now => p.status = .active ∧ p.modelCallsUsed < p.maxModelCalls ∧
      checked < p.deadline ∧ p' = { p with modelCallsUsed := p.modelCallsUsed + 1 }.touched now
  | toolCall checked now => p.status = .active ∧ p.toolCallsUsed < p.maxToolCalls ∧
      checked < p.deadline ∧ p' = { p with toolCallsUsed := p.toolCallsUsed + 1 }.touched now
  | upgrade now => p.status = .active ∧ p.maxModelCalls ≤ 24 ∧ p.maxToolCalls ≤ 96 ∧
      p.maxDurationSeconds ≤ 7200 ∧ p' = { p with
        maxModelCalls := 24, maxToolCalls := 96, maxDurationSeconds := 7200 }.touched now
  | finish status now => status.terminal ∧ p.status.unfinished ∧ p' = { p with status }.touched now

variable {op : PlanOp} {p p' : PlanUsage}

theorem run_of_apply (h : op.apply p = some p') : op.method.run p = .ok true p' := by
  simp only [apply] at h
  split at h
  · rename_i hrun
    rw [hrun, Option.some.inj h]
  · cases h
  · cases h

theorem run_of_then {m : PlanMethod Unit}
    (h : (do m; return true : PlanMethod Bool).run p = .ok true p') : m.run p = .ok () p' := by
  simp only [EStateM.run_bind, EStateM.run_pure] at h
  split at h
  · rename_i hrun
    rw [hrun, (EStateM.Result.ok.inj h).2]
  · cases h

theorem apply_spec (h : op.apply p = some p') : op.Stores p p' := by
  have hrun := run_of_apply h
  cases op with
  | modelCall checked now | toolCall checked now =>
    obtain ⟨hactive, hexhausted, rfl⟩ := PlanUsage.consume_ok (run_of_then hrun)
    simp only [decide_eq_false_iff_not, not_or, Nat.not_le] at hexhausted
    exact ⟨hactive, hexhausted.1, hexhausted.2, rfl⟩
  | upgrade now =>
    rw [method, PlanUsage.upgradeBudget_run] at hrun
    split_ifs at hrun with hactive hreduced hsame
    · cases hrun
    · cases hrun
      simp only [not_or, Nat.not_lt] at hreduced
      exact ⟨not_not.mp hactive, hreduced.1, hreduced.2.1, hreduced.2.2, rfl⟩
  | finish status now =>
    have hfinish := run_of_then hrun
    rw [PlanUsage.finish_run] at hfinish
    split_ifs at hfinish with hterminal hunfinished
    cases hfinish
    exact ⟨by simpa using hterminal, by simpa using hunfinished, rfl⟩

/-- What every operation does to the columns that count: only a call counts as a call. -/
structure Counts (op : PlanOp) (p p' : PlanUsage) : Prop where
  planId : p'.planId = p.planId
  revision : p'.revision = p.revision + 1
  modelCalls : p'.modelCallsUsed = p.modelCallsUsed + if op.isModelCall then 1 else 0
  toolCalls : p'.toolCallsUsed = p.toolCallsUsed + if op.isToolCall then 1 else 0

theorem Stores.counts (h : op.Stores p p') : op.Counts p p' := by
  cases op with
  | modelCall | toolCall =>
    obtain ⟨-, -, -, rfl⟩ := h
    exact ⟨rfl, rfl, rfl, rfl⟩
  | upgrade =>
    obtain ⟨-, -, -, -, rfl⟩ := h
    exact ⟨rfl, rfl, rfl, rfl⟩
  | finish =>
    obtain ⟨-, -, rfl⟩ := h
    exact ⟨rfl, rfl, rfl, rfl⟩

theorem Stores.unfinished (h : op.Stores p p') : p.status.unfinished := by
  cases op with
  | modelCall | toolCall | upgrade =>
    rw [h.1]
    rfl
  | finish => exact h.2.1

end PlanOp

/-- The rows of the plans, as their units of work see them. -/
def planRows : Revised PlanUsage PlanOp where
  revision p := p.revision
  apply := PlanOp.apply
  raises h := by
    rw [(PlanOp.apply_spec h).counts.revision]
    exact Nat.lt_succ_self _

/-- A plan keeps to its budget, which is one of the two there are, and no plan is paused. -/
structure PlanUsage.Within (p : PlanUsage) : Prop where
  modelCalls : p.modelCallsUsed ≤ p.maxModelCalls
  toolCalls : p.toolCallsUsed ≤ p.maxToolCalls
  budget : ∃ b ∈ [Workflow.WorkflowBudget.normal, .deep], p.maxModelCalls = b.maxModelRounds ∧
    p.maxToolCalls = b.maxToolInvocations ∧ p.maxDurationSeconds = b.maxDurationSeconds
  running : p.status ≠ .paused

namespace PlanUsage

variable {op : PlanOp} {ops : List PlanOp} {p p' : PlanUsage}

theorem Within.stores (h : p.Within) (hs : op.Stores p p') : p'.Within := by
  cases op with
  | modelCall =>
    obtain ⟨-, hlt, -, rfl⟩ := hs
    exact ⟨hlt, h.toolCalls, h.budget, h.running⟩
  | toolCall =>
    obtain ⟨-, hlt, -, rfl⟩ := hs
    exact ⟨h.modelCalls, hlt, h.budget, h.running⟩
  | upgrade =>
    obtain ⟨-, hmodels, htools, -, rfl⟩ := hs
    exact ⟨h.modelCalls.trans hmodels, h.toolCalls.trans htools,
      ⟨.deep, by simp, rfl, rfl, rfl⟩, h.running⟩
  | finish status =>
    obtain ⟨hterminal, -, rfl⟩ := hs
    refine ⟨h.modelCalls, h.toolCalls, h.budget, ?_⟩
    rintro rfl
    cases hterminal

theorem Within.replay (h : p.Within) (hr : planRows.replay ops p = some p') : p'.Within :=
  Revised.replay_invariant (fun _ _ _ hi ha => hi.stores (PlanOp.apply_spec ha)) hr h

/-- What an account of a plan says. -/
theorem replay_used (hr : planRows.replay ops p = some p') :
    p'.modelCallsUsed = p.modelCallsUsed + ops.countP PlanOp.isModelCall ∧
      p'.toolCallsUsed = p.toolCallsUsed + ops.countP PlanOp.isToolCall :=
  ⟨Revised.replay_counter (fun _ _ _ ha => (PlanOp.apply_spec ha).counts.modelCalls) hr,
    Revised.replay_counter (fun _ _ _ ha => (PlanOp.apply_spec ha).counts.toolCalls) hr⟩

/-- Nothing happens to a plan that has ended. -/
theorem replay_terminal (hp : p.status.terminal) (hr : planRows.replay ops p = some p') :
    p' = p := by
  cases ops with
  | nil => exact (Option.some.inj hr).symm
  | cons op ops =>
    rw [Revised.replay_cons] at hr
    obtain ⟨q, hq, -⟩ := Option.bind_eq_some_iff.mp hr
    have hunfinished := (PlanOp.apply_spec hq).unfinished
    cases hstatus : p.status <;> rw [hstatus] at hp hunfinished <;> simp_all [
      ExecutionPlanStatus.terminal, ExecutionPlanStatus.unfinished]

end PlanUsage

abbrev UsageTable := Table PlanUsage (fun p => p.planId) fun _ => True

abbrev UsageWrite := Guarded PlanUsage PlanOp

/-- The assignments of the update leave `id` alone. -/
def PlanUsage.assign (row : PlanUsage) (w : UsageWrite) : PlanUsage :=
  { w.row with planId := row.planId }

/-- The plans and steps, with the columns of the plans that change. -/
structure PlanStore where
  planning : PlanningStore
  usage : UsageTable

/-- What a unit of work writes: the steps first, then the plan. -/
structure UnitOfWork where
  steps : List StepWrite
  usage : List UsageWrite
  deriving DecidableEq

/-- What a unit of work is asked to do. -/
inductive PlanCall
  | planning (call : PlanningCall)
  | consumeModelBudget (checked : Time)
  | reserveParallelToolBudget (checked : List Time)
  | configureWorkflowBudget
  | finishExecutionPlan (status : ExecutionPlanStatus)
  | reviewTask
  deriving DecidableEq

namespace PlanStore

def empty : PlanStore := ⟨.empty, .empty⟩

variable (s : PlanStore)

/-- `ExecutionPlanningApplication.create`: a plan that is new gets its columns. -/
def create (now : Time) (newPlanId : Uuid) (newId : Nat → Uuid) (task : Option Task)
    (request : PlanningStore.CreateInput) : Except PlanningError PlanStore := do
  let (planning, plan, _) ← s.planning.create now newPlanId newId task request
  if ∃ row ∈ s.usage.rows, row.planId = plan.id then
    return { s with planning }
  else
    match s.usage.insertAll [PlanUsage.create now plan] with
    | some usage => return ⟨planning, usage⟩
    | none => throw .integrityError

def usageForTask (taskId : Uuid) : Option PlanUsage := do
  let plan ← s.planning.executionPlanForTask taskId
  s.usage.find? plan.id

def updateExecutionPlan (w : UsageWrite) : Except PlanningError PlanStore :=
  if ∃ row ∈ s.usage.rows, row.planId = w.row.planId ∧ row.revision = w.expected then
    return { s with
      usage := s.usage.update (fun row => row.planId = w.row.planId ∧ row.revision = w.expected)
        (·.assign w) }
  else throw (.versionConflict
    s!"expected Execution Plan revision {w.expected}, current revision changed")

def commit (u : UnitOfWork) : Except PlanningError PlanStore := do
  let planning ← s.planning.commit u.steps
  u.usage.foldlM updateExecutionPlan { s with planning }

end PlanStore

/-- A unit of work reads the row that it has updated last. -/
def usageWrites : List PlanOp → PlanUsage → Except PlanningError (List UsageWrite)
  | [], _ => return []
  | op :: ops, row =>
    match op.method.run row with
    | .ok true row' => do return ⟨op, row.revision, row'⟩ :: (← usageWrites ops row')
    | .ok false _ => usageWrites ops row
    | .error e _ => throw e

/-- Whether the steps of a plan let it be completed. -/
def settled (steps : List TaskStep) : Bool :=
  steps ≠ [] ∧ ∀ step ∈ steps, step.status ∈ [TaskStepStatus.completed, .skipped]

/-- `review_task` runs the checkpoint step to its end. -/
def checkpointWrites (now : Time) (steps : List TaskStep) : Except PlanningError (List StepWrite) :=
  match steps.find? (·.kind = .checkpoint) with
  | none => return []
  | some step =>
    match step.status with
    | .pending => do
      let started ← step.move now .running
      return [started, ← started.step.move now .completed]
    | .running => do return [← step.move now .completed]
    | .completed | .failed | .skipped => return []

namespace PlanStore

variable (s : PlanStore)

/-- A task without a plan has no budget. -/
def chargeUsage (taskId : Uuid) (ops : List PlanOp) : Except PlanningError UnitOfWork :=
  match s.usageForTask taskId with
  | none => return ⟨[], []⟩
  | some row => do return ⟨[], ← usageWrites ops row⟩

/-- `_finish_execution_plan`. -/
def finishExecutionPlan (now : Time) (taskId : Uuid) (status : ExecutionPlanStatus) :
    Except PlanningError UnitOfWork :=
  match s.usageForTask taskId with
  | none => return ⟨[], []⟩
  | some row =>
    if !row.status.unfinished ||
        (status = .completed && !settled (s.planning.taskStepsForPlan row.planId)) then
      return ⟨[], []⟩
    else do return ⟨[], ← usageWrites [.finish status.ending now] row⟩

/-- What `review_task` does to the plan of the task. -/
def reviewTask (now : Time) (taskId : Uuid) : Except PlanningError UnitOfWork :=
  match s.usageForTask taskId with
  | none => return ⟨[], []⟩
  | some row =>
    if !row.status.unfinished then
      return ⟨[], []⟩
    else do
      let steps ← checkpointWrites now (s.planning.taskStepsForPlan row.planId)
      let planning ← s.planning.commit steps
      if settled (planning.taskStepsForPlan row.planId) then
        return ⟨steps, ← usageWrites [.finish .completed now] row⟩
      else return ⟨steps, []⟩

/-- What a unit of work reads and decides, up to its commit. -/
def prepare (now : Time) (taskId : Uuid) : PlanCall → Except PlanningError UnitOfWork
  | .planning call => do
    let (_, writes) ← s.planning.prepare now taskId call
    return ⟨writes, []⟩
  | .consumeModelBudget checked => s.chargeUsage taskId [.modelCall checked now]
  | .reserveParallelToolBudget checked =>
    if checked = [] then
      throw (.valueError "parallel tool budget reservation must be positive")
    else s.chargeUsage taskId (checked.map (.toolCall · now))
  | .configureWorkflowBudget => s.chargeUsage taskId [.upgrade now]
  | .finishExecutionPlan status => s.finishExecutionPlan now taskId status
  | .reviewTask => s.reviewTask now taskId

end PlanStore

/-- Any number of units of work on the plans, as for the steps alone. -/
inductive PlanAct
  | create (now : Time) (newPlanId : Uuid) (newId : Nat → Uuid) (task : Option Task)
    (request : PlanningStore.CreateInput)
  | prepare (now : Time) (taskId : Uuid) (call : PlanCall)
  | commit (u : UnitOfWork)

/-- The store, what waits to be committed, and the operations on plans that have been. -/
structure PlanWorld where
  store : PlanStore
  pending : List UnitOfWork
  log : List (Uuid × PlanOp)

/-- The operations of a unit of work, each with its plan. -/
def UnitOfWork.entries (u : UnitOfWork) : List (Uuid × PlanOp) :=
  u.usage.map fun w => (w.row.planId, w.op)

/-- The operations on one plan. -/
def opsOf (planId : Uuid) (log : List (Uuid × PlanOp)) : List PlanOp :=
  (log.filter (·.1 = planId)).map (·.2)

namespace PlanWorld

def initial : PlanWorld := ⟨.empty, [], []⟩

def after (w : PlanWorld) : PlanAct → PlanWorld
  | .create now newPlanId newId task request =>
    match w.store.create now newPlanId newId task request with
    | .ok store => { w with store }
    | .error _ => w
  | .prepare now taskId call =>
    match w.store.prepare now taskId call with
    | .ok u => { w with pending := w.pending ++ [u] }
    | .error _ => w
  | .commit u =>
    if u ∈ w.pending then
      match w.store.commit u with
      | .ok store => ⟨store, w.pending.erase u, w.log ++ u.entries⟩
      | .error _ => { w with pending := w.pending.erase u }
    else w

def Step (w : PlanWorld) (act : PlanAct) (w' : PlanWorld) : Prop := w' = w.after act

end PlanWorld

section Reading

variable {s : PlanStore} {ops : List PlanOp} {row : PlanUsage} {l : List UsageWrite}
  {x : UsageWrite} {taskId : Uuid}

theorem usageForTask_spec (h : s.usageForTask taskId = some row) :
    row ∈ s.usage ∧ ∃ plan ∈ s.planning.plans, plan.id = row.planId := by
  obtain ⟨plan, hplan, hrow⟩ := Option.bind_eq_some_iff.mp h
  obtain ⟨hmem, hid⟩ := Table.find?_eq_some.mp hrow
  exact ⟨hmem, plan, (Table.oneOrNone_eq_some hplan).1, hid.symm⟩

theorem usageWrites_spec (h : usageWrites ops row = .ok l) :
    planRows.Follows l row ∧ ∀ x ∈ l, x.op ∈ ops := by
  induction ops generalizing row l with
  | nil =>
    obtain rfl := pure_ok h
    exact ⟨trivial, fun _ hx => absurd hx List.not_mem_nil⟩
  | cons op ops ih =>
    simp only [usageWrites] at h
    split at h
    · rename_i row' hrun
      obtain ⟨rest, hrest, h⟩ := bind_ok h
      obtain rfl := pure_ok h
      obtain ⟨hfollows, hops⟩ := ih hrest
      have happly : op.apply row = some row' := by
        rw [PlanOp.apply, hrun]
      refine ⟨⟨happly, rfl, hfollows⟩, fun x hx => ?_⟩
      obtain rfl | hx := List.mem_cons.mp hx
      · exact List.mem_cons_self
      · exact List.mem_cons_of_mem _ (hops x hx)
    · obtain ⟨hfollows, hops⟩ := ih h
      exact ⟨hfollows, fun x hx => List.mem_cons_of_mem _ (hops x hx)⟩
    · cases h

/-- The row of each write is a row of the plan that was read. -/
theorem follows_row (h : planRows.Follows l row) (hx : x ∈ l) :
    x.row.planId = row.planId ∧ ∃ p, x.op.Stores p x.row := by
  induction l generalizing row with
  | nil => exact absurd hx List.not_mem_nil
  | cons w l ih =>
    obtain ⟨happly, -, hl⟩ := h
    have hstores := PlanOp.apply_spec happly
    obtain rfl | hx := List.mem_cons.mp hx
    · exact ⟨hstores.counts.planId, row, hstores⟩
    · obtain ⟨hid, hp⟩ := ih hl hx
      exact ⟨hid.trans hstores.counts.planId, hp⟩

end Reading

section Updating

variable {s s' : PlanStore} {planId : Uuid} {w : UsageWrite} {l : List UsageWrite}
  {a b c : PlanUsage} {f g : PlanUsage → Option PlanUsage}

/-- What becomes of a row when one plan is written. -/
structure Becomes (planId : Uuid) (f : PlanUsage → Option PlanUsage) (a b : PlanUsage) : Prop where
  row : b.planId = a.planId
  written : a.planId = planId → f a = some b
  other : a.planId ≠ planId → b = a

theorem Becomes.bind (h : Becomes planId f a b) (h' : Becomes planId g b c) :
    Becomes planId (fun r => f r >>= g) a c := by
  refine ⟨h'.row.trans h.row, fun hid => ?_, fun hne => ?_⟩
  · exact Option.bind_eq_some_iff.mpr ⟨b, h.written hid, h'.written (h.row.trans hid)⟩
  · rw [h'.other (by rwa [h.row]), h.other hne]

theorem updateExecutionPlan_rows (hid : w.row.planId = planId)
    (h : s.updateExecutionPlan w = .ok s') :
    s'.planning = s.planning ∧
      (∀ a ∈ s.usage, ∃ b ∈ s'.usage, Becomes planId (planRows.write w) a b) ∧
      ∀ b ∈ s'.usage, ∃ a ∈ s.usage, Becomes planId (planRows.write w) a b := by
  simp only [PlanStore.updateExecutionPlan] at h
  split at h
  · rename_i hrow
    obtain ⟨row, hmem, hkey, hrevision⟩ := hrow
    have hs := pure_ok h
    have hrows : s'.usage.rows = s.usage.rows.map fun a =>
        if a.planId = w.row.planId ∧ a.revision = w.expected then a.assign w else a := by
      rw [← hs]
      rfl
    have hassigned : ∀ a ∈ s.usage, (a.planId = w.row.planId ∧ a.revision = w.expected) →
        Becomes planId (planRows.write w) a (a.assign w) := by
      rintro a ha ⟨hsame, hexpected⟩
      refine ⟨rfl, fun _ => ?_, fun hne => absurd (hsame.trans hid) hne⟩
      rw [Revised.write, if_pos (show planRows.revision a = w.expected from hexpected),
        PlanUsage.assign, hsame]
    have hleft : ∀ a ∈ s.usage, ¬ (a.planId = w.row.planId ∧ a.revision = w.expected) →
        Becomes planId (planRows.write w) a a := by
      intro a ha hne
      refine ⟨rfl, fun hsame => ?_, fun _ => rfl⟩
      obtain rfl := Table.eq_of_key ha hmem (hsame.trans (hid.symm.trans hkey.symm))
      exact absurd ⟨hkey, hrevision⟩ hne
    refine ⟨by rw [← hs], fun a ha => ?_, fun b hb => ?_⟩
    · by_cases hm : a.planId = w.row.planId ∧ a.revision = w.expected
      · exact ⟨_, Table.mem_update_of hrows ha hm, hassigned a ha hm⟩
      · exact ⟨a, Table.mem_update_of_not hrows ha hm, hleft a ha hm⟩
    · obtain ⟨a, ha, hm, rfl⟩ | ⟨hb, hm⟩ := Table.update_cases hrows hb
      · exact ⟨a, ha, hassigned a ha hm⟩
      · exact ⟨b, hb, hleft b hb hm⟩
  · cases h

theorem updates_rows (hid : ∀ x ∈ l, x.row.planId = planId)
    (h : l.foldlM PlanStore.updateExecutionPlan s = .ok s') :
    s'.planning = s.planning ∧
      (∀ a ∈ s.usage, ∃ b ∈ s'.usage, Becomes planId (planRows.writes l) a b) ∧
      ∀ b ∈ s'.usage, ∃ a ∈ s.usage, Becomes planId (planRows.writes l) a b := by
  induction l generalizing s with
  | nil =>
    obtain rfl := pure_ok h
    exact ⟨rfl, fun a ha => ⟨a, ha, rfl, fun _ => rfl, fun _ => rfl⟩,
      fun b hb => ⟨b, hb, rfl, fun _ => rfl, fun _ => rfl⟩⟩
  | cons w l ih =>
    obtain ⟨t, hupdate, h⟩ := bind_ok h
    obtain ⟨hplanning, hkept, horigin⟩ :=
      updateExecutionPlan_rows (hid w List.mem_cons_self) hupdate
    obtain ⟨hplanning', hkept', horigin'⟩ := ih (fun x hx => hid x (List.mem_cons_of_mem _ hx)) h
    have hwrites : planRows.writes (w :: l) = fun r => planRows.write w r >>= planRows.writes l :=
      funext fun r => Revised.writes_cons
    rw [hwrites]
    refine ⟨hplanning'.trans hplanning, fun a ha => ?_, fun c hc => ?_⟩
    · obtain ⟨b, hb, hab⟩ := hkept a ha
      obtain ⟨c, hc, hbc⟩ := hkept' b hb
      exact ⟨c, hc, hab.bind hbc⟩
    · obtain ⟨b, hb, hbc⟩ := horigin' c hc
      obtain ⟨a, ha, hab⟩ := horigin b hb
      exact ⟨a, ha, hab.bind hbc⟩

end Updating

end Fairy.Planning
