import Fairy.Lib.Text

namespace Fairy.Workflow

open Fairy.Lib

/-- A 128-bit identifier; only equality and the order of its text are used. -/
abbrev Uuid := Nat

/-- An aware UTC `datetime`, in microseconds. -/
abbrev Time := Nat

def seconds (n : Nat) : Time := n * 1000000

/-- The JSON object a node adapter hands over; the repository never looks inside. -/
abbrev Payload := List (String × String)

inductive ExecutionTarget
  | local | cloud
  deriving DecidableEq

inductive WorkflowRunStatus
  | queued | running | waitingForApproval | waitingForInput | paused
  | completed | cancelled | failed
  deriving DecidableEq

inductive WorkflowNodeStatus
  | pending | ready | running | waitingForApproval | waitingForInput
  | succeeded | failed | cancelled | skipped | superseded
  deriving DecidableEq

inductive WorkflowAttemptStatus
  | running | succeeded | failed | abandoned | cancelled | waiting
  deriving DecidableEq

inductive WorkflowBudgetTier
  | normal | deep
  deriving DecidableEq

inductive WorkflowConcurrencyPolicy
  | serial | parallelRead
  deriving DecidableEq

inductive WorkflowPlanReason
  | initial | steering | recovery | repair
  deriving DecidableEq

inductive WorkflowInstructionStatus
  | pending | applied | rejected
  deriving DecidableEq

/-- `_RUN_TERMINAL`. -/
def WorkflowRunStatus.terminal : WorkflowRunStatus → Bool
  | completed | cancelled | failed => true
  | _ => false

/-- `_NODE_TERMINAL`. -/
def WorkflowNodeStatus.terminal : WorkflowNodeStatus → Bool
  | succeeded | failed | cancelled | skipped | superseded => true
  | _ => false

/-- The two statuses in which a node waits for a person. -/
def WorkflowNodeStatus.waiting : WorkflowNodeStatus → Bool
  | waitingForApproval | waitingForInput => true
  | _ => false

inductive WorkflowError
  | valueError (message : String)
  | keyError (message : String)
  | fenceError (message : String)
  | revisionError (message : String)
  | budgetExceeded (message : String)
  | assertionError
  | noResultFound
  | integrityError (constraint : String)
  deriving DecidableEq

structure WorkflowBudget where
  tier : WorkflowBudgetTier
  maxModelRounds : Nat
  maxToolInvocations : Nat
  maxDurationSeconds : Nat
  maxParallelNodes : Nat
  positive : 1 ≤ maxModelRounds ∧ 1 ≤ maxToolInvocations ∧ 1 ≤ maxDurationSeconds ∧
    1 ≤ maxParallelNodes
  deriving DecidableEq

namespace WorkflowBudget

def normal : WorkflowBudget := ⟨.normal, 12, 32, 30 * 60, 2, by decide⟩

def deep : WorkflowBudget := ⟨.deep, 24, 96, 2 * 60 * 60, 4, by decide⟩

end WorkflowBudget

structure WorkflowRun where
  id : Uuid
  ownerKind : String
  ownerId : String
  executionTarget : ExecutionTarget
  parentRunId : Option Uuid
  status : WorkflowRunStatus
  budget : WorkflowBudget
  modelRoundsUsed : Nat
  toolInvocationsUsed : Nat
  activePlanRevision : Nat
  cancellationRevision : Nat
  engineVersion : Nat
  pauseRequested : Bool
  idempotencyKey : String
  errorCode : Option String
  createdAt : Time
  updatedAt : Time
  startedAt : Option Time
  completedAt : Option Time
  deriving DecidableEq

structure WorkflowPlanRevision where
  runId : Uuid
  revision : Nat
  reason : WorkflowPlanReason
  instructionId : Option Uuid
  createdAt : Time
  deriving DecidableEq

structure WorkflowNode where
  id : Uuid
  runId : Uuid
  planRevision : Nat
  nodeKey : String
  kind : String
  payloadVersion : Nat
  status : WorkflowNodeStatus
  concurrencyPolicy : WorkflowConcurrencyPolicy
  resourceKeys : List String
  maxAttempts : Nat
  attemptCount : Nat
  availableAt : Time
  publicSummary : String
  result : Option Payload
  evidenceRefs : List String
  errorCode : Option String
  createdAt : Time
  updatedAt : Time
  startedAt : Option Time
  completedAt : Option Time
  deriving DecidableEq

structure WorkflowEdge where
  runId : Uuid
  planRevision : Nat
  fromNodeId : Uuid
  toNodeId : Uuid
  positive : 1 ≤ planRevision
  distinct : fromNodeId ≠ toNodeId
  deriving DecidableEq

/-- A row of `core_workflow_attempts`. -/
structure WorkflowAttempt where
  nodeId : Uuid
  attemptNumber : Nat
  runId : Uuid
  status : WorkflowAttemptStatus
  leaseOwner : Option String
  leaseFence : Nat
  leaseUntil : Option Time
  cancellationRevision : Nat
  planRevision : Nat
  result : Option Payload
  evidenceRefs : List String
  errorCode : Option String
  startedAt : Time
  finishedAt : Option Time
  deriving DecidableEq

structure WorkflowAttemptClaim where
  runId : Uuid
  nodeId : Uuid
  attemptNumber : Nat
  leaseOwner : String
  leaseFence : Nat
  leaseUntil : Time
  cancellationRevision : Nat
  planRevision : Nat
  deriving DecidableEq

structure WorkflowInstruction where
  id : Uuid
  runId : Uuid
  idempotencyKey : String
  instruction : String
  expectedRevision : Nat
  status : WorkflowInstructionStatus
  appliedRevision : Option Nat
  createdAt : Time
  appliedAt : Option Time
  deriving DecidableEq

structure WorkflowSnapshot where
  run : WorkflowRun
  revisions : List WorkflowPlanRevision
  nodes : List WorkflowNode
  edges : List WorkflowEdge
  instructions : List WorkflowInstruction
  deriving DecidableEq

/-- `WorkflowRun.__post_init__`, which every row read back goes through again. -/
def WorkflowRun.postInit (r : WorkflowRun) : Except WorkflowError WorkflowRun := do
  if Text.blank r.ownerKind || Text.blank r.ownerId then
    throw (.valueError "Workflow owner is required")
  if Text.blank r.idempotencyKey then
    throw (.valueError "Workflow idempotency key is required")
  if r.activePlanRevision < 1 then
    throw (.valueError "Workflow revisions are invalid")
  if ¬ r.modelRoundsUsed ≤ r.budget.maxModelRounds then
    throw (.valueError "Workflow model-round budget usage is invalid")
  if ¬ r.toolInvocationsUsed ≤ r.budget.maxToolInvocations then
    throw (.valueError "Workflow tool-call budget usage is invalid")
  if r.engineVersion < 1 then
    throw (.valueError "Workflow engine version must be positive")
  return r

/-- `WorkflowNode.__post_init__`. -/
def WorkflowNode.postInit (n : WorkflowNode) : Except WorkflowError WorkflowNode := do
  if Text.blank n.nodeKey || Text.blank n.kind || Text.blank n.publicSummary then
    throw (.valueError "Workflow node identity and summary are required")
  if n.planRevision < 1 || n.payloadVersion < 1 then
    throw (.valueError "Workflow node versions must be positive")
  if n.maxAttempts < 1 || ¬ n.attemptCount ≤ n.maxAttempts then
    throw (.valueError "Workflow node attempt counts are invalid")
  if ¬ n.resourceKeys.Nodup then
    throw (.valueError "Workflow node resource keys must be unique")
  return n

/-- `WorkflowInstruction.__post_init__`. -/
def WorkflowInstruction.postInit (i : WorkflowInstruction) :
    Except WorkflowError WorkflowInstruction := do
  if Text.blank i.idempotencyKey || Text.blank i.instruction then
    throw (.valueError "Workflow instruction identity and content are required")
  if i.expectedRevision < 1 || i.appliedRevision.any (· < 1) then
    throw (.valueError "Workflow instruction revision is invalid")
  return i

end Fairy.Workflow
