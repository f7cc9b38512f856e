import Fairy.Lib.Table
import Fairy.Workflow.Models
import Mathlib.Data.List.Dedup
import Mathlib.Data.List.Sort
import Fairy.Lib.Kahn

namespace Fairy.Workflow

open Fairy.Lib

/-- `ck_core_workflow_runs_budget_usage` and `ck_core_workflow_runs_revisions`. -/
def WorkflowRun.check (r : WorkflowRun) : Prop :=
  r.modelRoundsUsed ≤ r.budget.maxModelRounds ∧
    r.toolInvocationsUsed ≤ r.budget.maxToolInvocations ∧
    0 < r.activePlanRevision ∧ 0 < r.engineVersion

def WorkflowPlanRevision.check (r : WorkflowPlanRevision) : Prop := 0 < r.revision

/-- `ck_core_workflow_nodes_counters`. -/
def WorkflowNode.check (n : WorkflowNode) : Prop :=
  0 < n.planRevision ∧ 0 < n.payloadVersion ∧ 0 < n.maxAttempts ∧ n.attemptCount ≤ n.maxAttempts

/-- `ck_core_workflow_attempts_counters` and `ck_core_workflow_attempts_lease`. -/
def WorkflowAttempt.check (a : WorkflowAttempt) : Prop :=
  (0 < a.attemptNumber ∧ 0 < a.leaseFence ∧ 0 < a.planRevision) ∧
    ((a.status = .running ∧ a.leaseOwner.isSome ∧ a.leaseUntil.isSome) ∨
      (a.status ≠ .running ∧ a.leaseOwner = none ∧ a.leaseUntil = none))

/-- `ck_core_workflow_instructions_revision`. -/
def WorkflowInstruction.check (i : WorkflowInstruction) : Prop :=
  0 < i.expectedRevision ∧ ∀ r ∈ i.appliedRevision, 0 < r

instance : DecidablePred WorkflowRun.check := fun _ => inferInstanceAs (Decidable (_ ∧ _))
instance : DecidablePred WorkflowPlanRevision.check := fun _ => inferInstanceAs (Decidable (_ < _))
instance : DecidablePred WorkflowNode.check := fun _ => inferInstanceAs (Decidable (_ ∧ _))
instance : DecidablePred WorkflowAttempt.check := fun _ => inferInstanceAs (Decidable (_ ∧ _))
instance : DecidablePred WorkflowInstruction.check := fun _ => inferInstanceAs (Decidable (_ ∧ _))

abbrev WorkflowPlanRevision.key (r : WorkflowPlanRevision) : Uuid × Nat := (r.runId, r.revision)

abbrev WorkflowEdge.key (e : WorkflowEdge) : Uuid × Nat × Uuid × Uuid :=
  (e.runId, e.planRevision, e.fromNodeId, e.toNodeId)

abbrev WorkflowAttempt.key (a : WorkflowAttempt) : Uuid × Nat := (a.nodeId, a.attemptNumber)

/-- The workflow tables as one tenant's repository sees them: every statement
carries the tenant's id, so other tenants' rows never meet. Foreign keys are
not enforced (SQLite leaves them off); `Coherent` proves the ones that matter. -/
structure Store where
  runs : Table WorkflowRun WorkflowRun.id WorkflowRun.check
  revisions : Table WorkflowPlanRevision WorkflowPlanRevision.key WorkflowPlanRevision.check
  nodes : Table WorkflowNode WorkflowNode.id WorkflowNode.check
  edges : Table WorkflowEdge WorkflowEdge.key (fun _ => True)
  attempts : Table WorkflowAttempt WorkflowAttempt.key WorkflowAttempt.check
  instructions : Table WorkflowInstruction WorkflowInstruction.id WorkflowInstruction.check

namespace Store

def empty : Store := ⟨.empty, .empty, .empty, .empty, .empty, .empty⟩

/-- `INSERT INTO core_workflow_runs`, with its three uniqueness constraints. -/
def insertRun (s : Store) (run : WorkflowRun) : Except WorkflowError Store :=
  if ∃ r ∈ s.runs.rows, r.idempotencyKey = run.idempotencyKey then
    .error (.integrityError "uq_core_workflow_runs_tenant_idempotency")
  else if ∃ r ∈ s.runs.rows, r.ownerKind = run.ownerKind ∧ r.ownerId = run.ownerId ∧
      r.engineVersion = run.engineVersion then
    .error (.integrityError "uq_core_workflow_runs_owner_engine")
  else match s.runs.insertAll [run] with
    | some runs => .ok { s with runs }
    | none => .error (.integrityError "pk_core_workflow_runs")

def insertRevision (s : Store) (revision : WorkflowPlanRevision) : Except WorkflowError Store :=
  match s.revisions.insertAll [revision] with
  | some revisions => .ok { s with revisions }
  | none => .error (.integrityError "pk_core_workflow_plan_revisions")

/-- `insert_plan`. -/
def insertPlan (s : Store) (nodes : List WorkflowNode) (edges : List WorkflowEdge) :
    Except WorkflowError Store :=
  if ¬ ((s.nodes.rows ++ nodes).map fun n => (n.runId, n.planRevision, n.nodeKey)).Nodup then
    .error (.integrityError "uq_core_workflow_nodes_plan_key")
  else match s.nodes.insertAll nodes with
    | none => .error (.integrityError "pk_core_workflow_nodes")
    | some rows =>
      match s.edges.insertAll edges with
      | none => .error (.integrityError "pk_core_workflow_edges")
      | some links => .ok { s with nodes := rows, edges := links }

end Store

/-- What every statement that ends an attempt writes: the lease is dropped and
the attempt is stamped with its new status. -/
def WorkflowAttempt.release (a : WorkflowAttempt) (status : WorkflowAttemptStatus) (now : Time) :
    WorkflowAttempt :=
  { a with status, leaseOwner := none, leaseUntil := none, finishedAt := some now }

theorem WorkflowAttempt.check_release {a : WorkflowAttempt} {status : WorkflowAttemptStatus}
    (now : Time) (hs : status ≠ .running) (h : a.check) : (a.release status now).check :=
  ⟨h.1, .inr ⟨hs, rfl, rfl⟩⟩

theorem WorkflowAttempt.leaseUntil_of_running {a : WorkflowAttempt} (h : a.check)
    (hr : a.status = .running) : ∃ u, a.leaseUntil = some u := by
  rcases h.2 with ⟨_, _, hu⟩ | ⟨hn, _⟩
  · exact Option.isSome_iff_exists.mp hu
  · exact absurd hr hn

def conflicts (policy : WorkflowConcurrencyPolicy) (keys : List String)
    (active : List (WorkflowConcurrencyPolicy × List String)) : Bool :=
  if active.isEmpty then false
  else if policy = .serial then true
  else active.any fun a => decide (a.1 = .serial) || keys.any fun k => decide (k ∈ a.2)

/-- The set `incoming[target]` of `validate_plan`. -/
def incoming (edges : List WorkflowEdge) (target : Uuid) : List Uuid :=
  ((edges.filter fun e => e.toNodeId = target).map WorkflowEdge.fromNodeId).dedup

/-- The set `outgoing[source]` of `validate_plan`. -/
def outgoing (edges : List WorkflowEdge) (source : Uuid) : List Uuid :=
  ((edges.filter fun e => e.fromNodeId = source).map WorkflowEdge.toNodeId).dedup

/-- The loop body of `validate_plan` over the edges. -/
def validateEdge (runId : Uuid) (revision : Nat) (byId : List Uuid) (edge : WorkflowEdge) :
    Except WorkflowError Unit := do
  if edge.runId ≠ runId ∨ edge.planRevision ≠ revision then
    throw (.valueError "Workflow edge must match the Run and revision")
  if edge.fromNodeId ∉ byId ∨ edge.toNodeId ∉ byId then
    throw (.valueError "Workflow edge references an unknown node")

/-- The ids with no incoming edge, the `ready` of `validate_plan`. -/
def readyIds (edges : List WorkflowEdge) (byId : List Uuid) : List Uuid :=
  byId.filter fun id => (incoming edges id).isEmpty

/-- The `replace` of `validate_plan`. -/
def normalizeNode (ready : List Uuid) (n : WorkflowNode) : WorkflowNode :=
  { n with status := if n.id ∈ ready then .ready else .pending }

/-- The set `visited` when the loop of `validate_plan` ends. The walk pops at
most one queue entry for each node and one for each edge, so its fuel never
runs out. -/
def visitedIds (edges : List WorkflowEdge) (byId : List Uuid) : List Uuid :=
  Kahn.visit (incoming edges) (outgoing edges) (byId.length + edges.length) []
    (readyIds edges byId)

def validatePlan (runId : Uuid) (revision : Nat) (nodes : List WorkflowNode)
    (edges : List WorkflowEdge) : Except WorkflowError (List WorkflowNode) := do
  if nodes.isEmpty then
    throw (.valueError "Workflow plan requires at least one node")
  let byId := (nodes.map WorkflowNode.id).dedup
  if byId.length ≠ nodes.length then
    throw (.valueError "Workflow plan node IDs must be unique")
  if ∃ n ∈ nodes, n.runId ≠ runId ∨ n.planRevision ≠ revision then
    throw (.valueError "Workflow plan nodes must match the Run and revision")
  edges.forM (validateEdge runId revision byId)
  if (visitedIds edges byId).length ≠ nodes.length then
    throw (.valueError "Workflow plan must be acyclic")
  return nodes.map (normalizeNode (readyIds edges byId))

def runFromRow (row : WorkflowRun) : Except WorkflowError WorkflowRun :=
  WorkflowRun.postInit { row with errorCode := row.errorCode.filter (· ≠ "") }

def nodeFromRow (row : WorkflowNode) : Except WorkflowError WorkflowNode :=
  WorkflowNode.postInit { row with errorCode := row.errorCode.filter (· ≠ "") }

namespace Store

def loadSnapshot (s : Store) (run : WorkflowRun) : Except WorkflowError WorkflowSnapshot := do
  let revisions := (s.revisions.select fun r => r.runId = run.id).insertionSort
    fun a b => a.revision ≤ b.revision
  let nodeRows := (s.nodes.select fun n => n.runId = run.id).insertionSort fun a b =>
    a.planRevision < b.planRevision ∨ a.planRevision = b.planRevision ∧ a.createdAt ≤ b.createdAt
  let edges := (s.edges.select fun e => e.runId = run.id).insertionSort fun a b =>
    a.planRevision < b.planRevision ∨ a.planRevision = b.planRevision ∧
      (a.fromNodeId < b.fromNodeId ∨ a.fromNodeId = b.fromNodeId ∧ a.toNodeId ≤ b.toNodeId)
  let instructionRows := (s.instructions.select fun i => i.runId = run.id).insertionSort
    fun a b => a.createdAt ≤ b.createdAt
  let nodes ← nodeRows.mapM nodeFromRow
  let instructions ← instructionRows.mapM WorkflowInstruction.postInit
  return { run, revisions, nodes, edges, instructions }

def get (s : Store) (runId : Uuid) : Except WorkflowError (Option WorkflowSnapshot) := do
  match s.runs.find? runId with
  | none => return none
  | some row => return some (← s.loadSnapshot (← runFromRow row))

/-- `snapshot = self.get(run_id); assert snapshot is not None`. -/
def snapshot (s : Store) (runId : Uuid) : Except WorkflowError WorkflowSnapshot := do
  match ← s.get runId with
  | some snapshot => return snapshot
  | none => throw .assertionError

/-- `_locked_run`. -/
def lockedRun (s : Store) (runId : Uuid) : Except WorkflowError WorkflowRun :=
  match s.runs.find? runId with
  | some row => .ok row
  | none => .error (.keyError ("Workflow Run not found: " ++ toString runId))

/-- `run_from_row(self._locked_run(run_id))`. -/
def readRun (s : Store) (runId : Uuid) : Except WorkflowError WorkflowRun := do
  runFromRow (← s.lockedRun runId)

/-- `persist_instruction`, with the id `new_id()` draws and its clock reading. -/
def addInstruction (s : Store) (runId : Uuid) (instruction : String) (expectedRevision : Nat)
    (idempotencyKey : String) (id : Uuid) (now : Time) :
    Except WorkflowError (WorkflowInstruction × Store) := do
  let normalizedInstruction := Text.strip instruction
  let normalizedKey := Text.strip idempotencyKey
  if normalizedInstruction = "" ∨ 8000 < normalizedInstruction.length then
    throw (.valueError "Workflow instruction must contain 1 to 8000 characters")
  if normalizedKey = "" ∨ 512 < normalizedKey.length then
    throw (.valueError "Workflow instruction idempotency key is invalid")
  match s.instructions.oneOrNone fun i => i.runId = runId ∧ i.idempotencyKey = normalizedKey with
  | some existing =>
    let model ← existing.postInit
    if model.instruction ≠ normalizedInstruction ∨ model.expectedRevision ≠ expectedRevision then
      throw (.valueError "Workflow instruction idempotency key was reused")
    return (model, s)
  | none =>
    let run ← s.readRun runId
    if run.status.terminal then
      throw (.valueError "Terminal Workflow cannot accept instructions")
    if run.activePlanRevision ≠ expectedRevision then
      throw (.revisionError "Workflow plan revision changed")
    let model ← WorkflowInstruction.postInit
      { id, runId, idempotencyKey := normalizedKey, instruction := normalizedInstruction,
        expectedRevision, status := .pending, appliedRevision := none, createdAt := now,
        appliedAt := none }
    match s.instructions.insertAll [model] with
    | some instructions => return (model, { s with instructions })
    | none => throw (.integrityError "pk_core_workflow_instructions")

end Store

end Fairy.Workflow
