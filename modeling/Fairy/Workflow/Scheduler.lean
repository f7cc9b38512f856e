import Fairy.Workflow.Outcomes
import Fairy.Workflow.Selection

namespace Fairy.Workflow

open Fairy.Lib

/-- An entry of the table `_active`, under the id of its node. -/
structure ActiveNode where
  claim : WorkflowAttemptClaim
  kind : String
  parentRunId : Option Uuid
  deriving DecidableEq

abbrev ActiveNode.nodeId (x : ActiveNode) : Uuid := x.claim.nodeId

/-- The node belongs to a root run. -/
def ActiveNode.root (x : ActiveNode) : Bool := x.parentRunId.isNone

/-- The node may wait for a child run. -/
def ActiveNode.blocking (kinds : List String) (x : ActiveNode) : Bool :=
  x.root && decide (x.kind ∈ kinds)

inductive SchedulerError
  | workflow (error : WorkflowError)
  | stopIteration

/-- What `_claim_available` knows of a claim: kind and parent of its node, if
the run is still there. -/
structure PendingClaim where
  claim : WorkflowAttemptClaim
  node : Option (String × Option Uuid)

def PendingClaim.entry (x : PendingClaim) : Option ActiveNode :=
  x.node.map fun n => ⟨x.claim, n.1, n.2⟩

/-- Where the coordinator stands in `_claim_available`. -/
inductive Phase
  | idle
  | claiming (slots : Slots)
  | registering (pending : List PendingClaim)

structure Scheduler where
  maxWorkers : Nat
  childWaitingKinds : List String
  active : Table ActiveNode ActiveNode.nodeId (fun _ => True)
  phase : Phase

namespace Store

/-- The loop body of `_claim_available` over the claims it was handed. -/
def describeClaim (s : Store) (c : WorkflowAttemptClaim) : Except SchedulerError PendingClaim :=
  match s.get c.runId with
  | .error e => .error (.workflow e)
  | .ok none => .ok ⟨c, none⟩
  | .ok (some snapshot) =>
    match snapshot.nodes.find? fun n => n.id = c.nodeId with
    | none => .error .stopIteration
    | some n => .ok ⟨c, some (n.kind, snapshot.run.parentRunId)⟩

/-- The unit of work of `_claim_available`: the claims, and the rows it leaves
committed. -/
def claimAvailable (s : Store) (workerId : String) (leaseUntil : Time) (slots : Slots)
    (t : Readings) : Except SchedulerError (List PendingClaim × Store) :=
  match s.claimReady workerId leaseUntil slots t with
  | .error e => .error (.workflow e)
  | .ok (claims, s') =>
    match claims.mapM s'.describeClaim with
    | .error e => .error e
    | .ok pending => .ok (pending, if claims = [] then s else s')

end Store

/-- How the loop over the claims goes on: the scheduler is closing, the executor
refuses the node, or the node is submitted. -/
inductive Submission
  | closing
  | refused
  | accepted

namespace Scheduler

def capacity (w : Scheduler) : Nat := w.maxWorkers - w.active.rows.length

def blockingParentKinds (w : Scheduler) : List String :=
  if 1 < w.maxWorkers then w.childWaitingKinds else []

/-- What `_claim_available` passes to `claim_ready`. -/
def slots (w : Scheduler) : Slots where
  limit := w.capacity
  blockingParentKinds := w.blockingParentKinds
  reserveChildSlot := w.active.rows.any (ActiveNode.blocking w.blockingParentKinds)

/-- The start of `_claim_available`. -/
def look (w : Scheduler) : Scheduler :=
  if w.capacity = 0 then w else { w with phase := .claiming w.slots }

/-- The turn of one claim in the loop that submits them. -/
def register (w : Scheduler) (submission : Submission) (x : PendingClaim)
    (pending : List PendingClaim) : Scheduler :=
  match x.entry, submission with
  | none, _ => { w with phase := .registering pending }
  | some _, .closing => { w with phase := .idle }
  | some entry, .refused =>
    match w.active.insertAll [entry] with
    | none => { w with phase := .registering pending }
    | some _ => { w with phase := .idle }
  | some entry, .accepted =>
    match w.active.insertAll [entry] with
    | none => { w with phase := .registering pending }
    | some active => { w with active, phase := .registering pending }

/-- What can happen to the table: the steps of the coordinator, which meet
whatever rows the store has by then, and the end of a node. -/
inductive Event
  | look
  | claim (s : Store) (workerId : String) (leaseUntil : Time) (t : Readings)
  | register (submission : Submission)
  | finish (nodeId : Uuid)

def after (w : Scheduler) : Event → Scheduler
  | .look =>
    match w.phase with
    | .idle => w.look
    | _ => w
  | .claim s workerId leaseUntil t =>
    match w.phase with
    | .claiming slots =>
      match s.claimAvailable workerId leaseUntil slots t with
      | .ok (pending, _) => { w with phase := .registering pending }
      | .error _ => { w with phase := .idle }
    | _ => w
  | .register submission =>
    match w.phase with
    | .registering [] => { w with phase := .idle }
    | .registering (x :: pending) => w.register submission x pending
    | _ => w
  | .finish nodeId => { w with active := w.active.delete fun x => x.nodeId = nodeId }

def start (maxWorkers : Nat) (childWaitingKinds : List String) : Scheduler :=
  ⟨maxWorkers, childWaitingKinds, .empty, .idle⟩

/-- The states of a scheduler, whatever happens in whatever order. -/
abbrev Runs : Scheduler → Scheduler → Prop :=
  Run (fun w e w' => w' = w.after e) fun _ _ => True

end Scheduler

end Fairy.Workflow
