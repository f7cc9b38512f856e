import Fairy.Workflow.Fence

namespace Fairy.Workflow

open Fairy.Lib

/-- A row of the join of nodes and runs that `claim_ready` selects. -/
structure ReadyRow where
  node : WorkflowNode
  run : WorkflowRun
  deriving DecidableEq

/-- The `ORDER BY` of `claim_ready`: children first, then the run touched
longest ago, then the older node. -/
def ReadyRow.before (x y : ReadyRow) : Prop :=
  (x.run.parentRunId.isSome ∧ ¬ y.run.parentRunId.isSome) ∨
  (x.run.parentRunId.isSome = y.run.parentRunId.isSome ∧
    (x.run.updatedAt < y.run.updatedAt ∨ (x.run.updatedAt = y.run.updatedAt ∧
      (x.node.createdAt < y.node.createdAt ∨ (x.node.createdAt = y.node.createdAt ∧
        x.node.id ≤ y.node.id)))))

instance : DecidableRel ReadyRow.before := fun _ _ => inferInstanceAs (Decidable (_ ∨ _))

/-- The `WHERE` of `claim_ready`, with the join on the active plan revision. -/
def ReadyRow.claimable (x : ReadyRow) (now : Time) : Prop :=
  x.run.activePlanRevision = x.node.planRevision ∧ x.node.status = .ready ∧
    x.node.availableAt ≤ now ∧ (x.run.status = .queued ∨ x.run.status = .running) ∧
    x.run.pauseRequested = false

instance (x : ReadyRow) (now : Time) : Decidable (x.claimable now) :=
  inferInstanceAs (Decidable (_ ∧ _))

/-- The node row the claim of a selected row updates. -/
def ReadyRow.Target (row : ReadyRow) (n : WorkflowNode) : Prop :=
  n.id = row.node.id ∧ n.status = .ready ∧ n.attemptCount = row.node.attemptCount

instance (row : ReadyRow) : DecidablePred row.Target :=
  fun _ => inferInstanceAs (Decidable (_ ∧ _))

def ReadyRow.claimedNode (row : ReadyRow) (now : Time) (n : WorkflowNode) : WorkflowNode :=
  { n with status := .running, attemptCount := row.node.attemptCount + 1,
           startedAt := some (row.node.startedAt.getD now), updatedAt := now }

/-- The run rows the claim of a selected row updates. -/
def ReadyRow.RunTarget (row : ReadyRow) (r : WorkflowRun) : Prop :=
  r.id = row.node.runId ∧ (r.status = .queued ∨ r.status = .running)

instance (row : ReadyRow) : DecidablePred row.RunTarget :=
  fun _ => inferInstanceAs (Decidable (_ ∧ _))

def ReadyRow.claimedRun (row : ReadyRow) (now : Time) (r : WorkflowRun) : WorkflowRun :=
  { r with status := .running, startedAt := some (row.run.startedAt.getD now), updatedAt := now }

def ReadyRow.attempt (row : ReadyRow) (workerId : String) (leaseUntil now : Time) :
    WorkflowAttempt where
  nodeId := row.node.id
  attemptNumber := row.node.attemptCount + 1
  runId := row.node.runId
  status := .running
  leaseOwner := some workerId
  leaseFence := row.node.attemptCount + 1
  leaseUntil := some leaseUntil
  cancellationRevision := row.run.cancellationRevision
  planRevision := row.node.planRevision
  result := none
  evidenceRefs := []
  errorCode := none
  startedAt := now
  finishedAt := none

def ReadyRow.claim (row : ReadyRow) (workerId : String) (leaseUntil : Time) :
    WorkflowAttemptClaim where
  runId := row.node.runId
  nodeId := row.node.id
  attemptNumber := row.node.attemptCount + 1
  leaseOwner := workerId
  leaseFence := row.node.attemptCount + 1
  leaseUntil := leaseUntil
  cancellationRevision := row.run.cancellationRevision
  planRevision := row.node.planRevision

abbrev ActiveList := List (WorkflowConcurrencyPolicy × List String)

/-- The locals of the selection loop of `claim_ready`, with those of its
current pass. -/
structure Selection where
  selected : List ReadyRow
  selectedChild : Bool
  selectedBlockingParent : Bool
  activeByRun : Uuid → ActiveList
  selectedRunIds : List Uuid
  nextRemaining : List ReadyRow
  progress : Bool

/-- What `_claim_available` tells `claim_ready` about its free workers. -/
structure Slots where
  limit : Nat
  blockingParentKinds : List String
  reserveChildSlot : Bool

def ReadyRow.isChild (x : ReadyRow) : Bool := x.run.parentRunId.isSome

def ReadyRow.isBlockingParent (x : ReadyRow) (slots : Slots) : Bool :=
  !x.isChild && decide (x.node.kind ∈ slots.blockingParentKinds)

/-- The row has to leave a slot free for a child run. -/
def Selection.withheld (σ : Selection) (slots : Slots) (row : ReadyRow) : Prop :=
  row.isChild = false ∧ σ.selectedChild = false ∧
    (slots.reserveChildSlot || σ.selectedBlockingParent || row.isBlockingParent slots) = true ∧
    slots.limit - 1 ≤ σ.selected.length

/-- The run is at its parallelism, or the row conflicts with what runs in it. -/
def Selection.blocked (σ : Selection) (row : ReadyRow) : Prop :=
  row.run.budget.maxParallelNodes ≤ (σ.activeByRun row.node.runId).length ∨
    conflicts row.node.concurrencyPolicy row.node.resourceKeys (σ.activeByRun row.node.runId) = true

instance (σ : Selection) (slots : Slots) (row : ReadyRow) : Decidable (σ.withheld slots row) :=
  inferInstanceAs (Decidable (_ ∧ _))

instance (σ : Selection) (row : ReadyRow) : Decidable (σ.blocked row) :=
  inferInstanceAs (Decidable (_ ∨ _))

/-- The body of the `for row in remaining` loop. -/
def Selection.consider (slots : Slots) (σ : Selection) (row : ReadyRow) : Selection :=
  let runId := row.node.runId
  if runId ∈ σ.selectedRunIds ∨ slots.limit ≤ σ.selected.length then
    { σ with nextRemaining := σ.nextRemaining ++ [row] }
  else if σ.withheld slots row then
    { σ with nextRemaining := σ.nextRemaining ++ [row] }
  else if σ.blocked row then
    { σ with nextRemaining := σ.nextRemaining ++ [row] }
  else
    { selected := σ.selected ++ [row]
      selectedChild := σ.selectedChild || row.isChild
      selectedBlockingParent := σ.selectedBlockingParent || row.isBlockingParent slots
      activeByRun := fun id => if id = runId then
        σ.activeByRun id ++ [(row.node.concurrencyPolicy, row.node.resourceKeys)]
        else σ.activeByRun id
      selectedRunIds := σ.selectedRunIds ++ [runId]
      nextRemaining := σ.nextRemaining
      progress := true }

/-- One pass of the `while` loop over the remaining rows. -/
def Selection.pass (slots : Slots) (σ : Selection) (remaining : List ReadyRow) : Selection :=
  remaining.foldl (Selection.consider slots)
    { σ with selectedRunIds := [], nextRemaining := [], progress := false }

/-- The `while` loop. A pass that goes on has selected a row and left it out of
the next one, so as many passes as there are rows are enough. -/
def Selection.passes (slots : Slots) : Nat → Selection → List ReadyRow → Selection
  | 0, σ, _ => σ
  | fuel + 1, σ, remaining =>
    if remaining = [] ∨ slots.limit ≤ σ.selected.length then σ
    else
      let σ' := σ.pass slots remaining
      if σ'.progress then passes slots fuel σ' σ'.nextRemaining else σ'

namespace Store

/-- The row the join of `claim_ready` makes of a node, if its `WHERE` keeps it. -/
def readyRow (s : Store) (now : Time) (node : WorkflowNode) : Option ReadyRow :=
  match s.runs.find? node.runId with
  | none => none
  | some run => if (ReadyRow.mk node run).claimable now then some ⟨node, run⟩ else none

/-- The ready rows of `claim_ready`. -/
def readyRows (s : Store) (now : Time) : List ReadyRow :=
  (s.nodes.rows.filterMap (s.readyRow now)).insertionSort ReadyRow.before

/-- The dictionary `active_by_run`. -/
def activeByRun (s : Store) (runId : Uuid) : ActiveList :=
  (s.nodes.select fun n => n.runId = runId ∧ n.status = .running).map
    fun n => (n.concurrencyPolicy, n.resourceKeys)

/-- The rows the selection loop of `claim_ready` picks. -/
def selectRows (s : Store) (slots : Slots) (now : Time) : List ReadyRow :=
  let rows := s.readyRows now
  (Selection.passes slots rows.length
    ⟨[], false, false, s.activeByRun, [], [], false⟩ rows).selected

/-- The loop body of `claim_ready` over the selected rows. -/
def claimRow (workerId : String) (leaseUntil now : Time)
    (acc : Store × List WorkflowAttemptClaim) (row : ReadyRow) :
    Except WorkflowError (Store × List WorkflowAttemptClaim) :=
  let s := acc.1
  if (s.nodes.select row.Target).length ≠ 1 then .ok acc
  else match s.nodes.tryUpdate row.Target (row.claimedNode now) with
    | none => .error (.integrityError "ck_core_workflow_nodes_counters")
    | some nodes =>
      match s.attempts.insertAll [row.attempt workerId leaseUntil now] with
      | none => .error (.integrityError "pk_core_workflow_attempts")
      | some attempts =>
        let runs := s.runs.update row.RunTarget (row.claimedRun now)
        .ok ({ s with nodes, attempts, runs }, acc.2 ++ [row.claim workerId leaseUntil])

/-- `claim_ready`. -/
def claimReady (s : Store) (workerId : String) (leaseUntil : Time) (slots : Slots) (t : Readings) :
    Except WorkflowError (List WorkflowAttemptClaim × Store) := do
  let now := t.first
  if Text.blank workerId ∨ slots.limit < 1 ∨ leaseUntil ≤ now then
    throw (.valueError "Workflow claim parameters are invalid")
  let s := s.expireOverdue now
  let s ← s.reclaimExpired now
  let (s, claims) ← (s.selectRows slots now).foldlM (claimRow workerId leaseUntil now) (s, [])
  return (claims, s)

end Store

end Fairy.Workflow
