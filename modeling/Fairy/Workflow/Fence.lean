import Fairy.Workflow.Records

namespace Fairy.Workflow

open Fairy.Lib

/-- The successive readings one operation takes of `datetime.now(UTC)`; no
operation takes more than three. -/
structure Readings where
  first : Time
  second : Time
  third : Time
  le_second : first ≤ second
  le_third : second ≤ third

/-- The readings left after the first. -/
def Readings.tail (t : Readings) : Readings :=
  ⟨t.second, t.third, t.third, t.le_third, le_rfl⟩

/-- `lease_until > now`, false on NULL. -/
def WorkflowAttempt.live (a : WorkflowAttempt) (now : Time) : Bool := a.leaseUntil.any (now < ·)

/-- `lease_until <= now`, false on NULL. -/
def WorkflowAttempt.expired (a : WorkflowAttempt) (now : Time) : Bool := a.leaseUntil.any (· ≤ now)

/-- `_claim_predicates(claim, require_live=False)`. -/
def ClaimPredicates (c : WorkflowAttemptClaim) (a : WorkflowAttempt) : Prop :=
  a.nodeId = c.nodeId ∧ a.attemptNumber = c.attemptNumber ∧ a.runId = c.runId ∧
    a.status = .running ∧ a.leaseOwner = some c.leaseOwner ∧ a.leaseFence = c.leaseFence ∧
    a.cancellationRevision = c.cancellationRevision ∧ a.planRevision = c.planRevision

/-- `_claim_predicates(claim, require_live=True)` at the clock reading it takes. -/
def LiveClaimPredicates (c : WorkflowAttemptClaim) (now : Time) (a : WorkflowAttempt) : Prop :=
  ClaimPredicates c a ∧ a.live now = true

instance (c : WorkflowAttemptClaim) : DecidablePred (ClaimPredicates c) :=
  fun _ => inferInstanceAs (Decidable (_ ∧ _))

instance (c : WorkflowAttemptClaim) (now : Time) : DecidablePred (LiveClaimPredicates c now) :=
  fun _ => inferInstanceAs (Decidable (_ ∧ _))

theorem ClaimPredicates.running {c : WorkflowAttemptClaim} {a : WorkflowAttempt}
    (h : ClaimPredicates c a) : a.status = .running := h.2.2.2.1

/-- The statement behind every node update that follows an attempt: it reaches
the node only while it is RUNNING. -/
def RunningNode (id : Uuid) (n : WorkflowNode) : Prop := n.id = id ∧ n.status = .running

instance (id : Uuid) : DecidablePred (RunningNode id) :=
  fun _ => inferInstanceAs (Decidable (_ ∧ _))

/-- What `abandon` and `_reclaim_expired` write into the node of a lost attempt;
only a terminal status stamps it as completed. -/
def WorkflowNode.released (n : WorkflowNode) (next : WorkflowNodeStatus) (errorCode : String)
    (now : Time) : WorkflowNode :=
  { n with status := next, errorCode := some errorCode, updatedAt := now,
           completedAt := if next.terminal then some now else none }

namespace Store

/-- The joined row `_require_claim` selects. -/
def claimedRow (s : Store) (c : WorkflowAttemptClaim) :
    Option (WorkflowAttempt × WorkflowNode × WorkflowRun) := do
  let a ← s.attempts.oneOrNone (ClaimPredicates c)
  let n ← s.nodes.find? a.nodeId
  let r ← s.runs.find? n.runId
  return (a, n, r)

/-- `_require_claim`. -/
def requireClaim (s : Store) (c : WorkflowAttemptClaim) (now : Time) :
    Except WorkflowError WorkflowNode :=
  match s.claimedRow c with
  | none => .error (.fenceError "Workflow attempt lease or cancellation fence was lost")
  | some (a, n, r) =>
    if n.status ≠ .running ∨ a.leaseUntil = none ∨ a.expired now ∨
        r.cancellationRevision ≠ c.cancellationRevision then
      .error (.fenceError "Workflow attempt lease or cancellation fence was lost")
    else .ok n

/-- `_settle_attempt`, whose callers all pass FAILED. -/
def settleAttempt (s : Store) (c : WorkflowAttemptClaim) (errorCode : String) (now live : Time) :
    Store :=
  { s with
    attempts := s.attempts.update (LiveClaimPredicates c live)
      (fun a => { a.release .failed now with errorCode := some (Text.truncate 128 errorCode) })
      (fun _ => rfl) (fun _ _ => @WorkflowAttempt.check_release _ .failed now (by decide)) }

/-- `_has_running_attempt`. -/
def hasRunningAttempt (s : Store) (runId : Uuid) : Bool :=
  s.attempts.rows.any fun a => a.runId = runId ∧ a.status = .running

/-- `_settle_pause`. -/
def settlePause (s : Store) (runId : Uuid) (now : Time) : Store :=
  if s.hasRunningAttempt runId then s
  else { s with
    runs := s.runs.update
      (fun r => r.id = runId ∧ r.pauseRequested = true ∧ r.status.terminal = false)
      fun r => { r with status := .paused, updatedAt := now } }

/-- `_cancel_running_attempts`. -/
def cancelRunningAttempts (s : Store) (runId : Uuid) (exceptNodeId : Option Uuid) (now : Time) :
    Store :=
  { s with
    attempts := s.attempts.update
      (fun a => a.runId = runId ∧ a.status = .running ∧ some a.nodeId ≠ exceptNodeId)
      (fun a => { a.release .cancelled now with errorCode := some "WORKFLOW_CANCELLED" })
      (fun _ => rfl) (fun _ _ => @WorkflowAttempt.check_release _ .cancelled now (by decide)) }

/-- The statuses of the nodes an edge of the plan leads from to the target. -/
def sourceStatuses (s : Store) (runId : Uuid) (revision : Nat) (target : Uuid) :
    List WorkflowNodeStatus :=
  (s.edges.select fun e =>
    e.runId = runId ∧ e.planRevision = revision ∧ e.toNodeId = target).filterMap
      fun e => (s.nodes.find? e.fromNodeId).map WorkflowNode.status

/-- The loop body of `_promote_dependents`. -/
def promoteTarget (runId : Uuid) (revision : Nat) (now : Time) (s : Store) (target : Uuid) :
    Store :=
  let statuses := s.sourceStatuses runId revision target
  if statuses ≠ [] ∧ ∀ st ∈ statuses, st = .succeeded then
    { s with
      nodes := s.nodes.update (fun n => n.id = target ∧ n.status = .pending)
        fun n => { n with status := .ready, updatedAt := now } }
  else s

/-- `_promote_dependents`; the order of the target set does not matter, since
no promotion makes a node SUCCEEDED. -/
def promoteDependents (s : Store) (runId : Uuid) (revision : Nat) (now : Time) : Store :=
  (((s.edges.select fun e => e.runId = runId ∧ e.planRevision = revision).map
    WorkflowEdge.toNodeId).dedup).foldl (promoteTarget runId revision now) s

/-- The status `_settle_run` computes from the run and its active nodes. -/
def settledStatus (s : Store) (run : WorkflowRun) : WorkflowRunStatus :=
  let active := (s.nodes.select fun n => n.runId = run.id ∧
    n.planRevision = run.activePlanRevision).map WorkflowNode.status
  if run.pauseRequested = true ∧ s.hasRunningAttempt run.id = false then .paused
  else if active ≠ [] ∧ ∀ st ∈ active, st.terminal = true then
    if .failed ∈ active then .failed
    else if .cancelled ∈ active then .cancelled
    else .completed
  else if .running ∈ active then .running
  else if .waitingForApproval ∈ active then .waitingForApproval
  else if .waitingForInput ∈ active then .waitingForInput
  else .queued

/-- The run update of `_settle_run`. -/
def stampRun (s : Store) (runId : Uuid) (status : WorkflowRunStatus) (now : Time) : Store :=
  { s with
    runs := s.runs.update (fun r => r.id = runId) fun r =>
      { r with status, updatedAt := now,
               completedAt := if status.terminal then some now else none } }

/-- `_settle_run`. -/
def settleRun (s : Store) (runId : Uuid) (now : Time) : Except WorkflowError Store := do
  let run ← s.readRun runId
  return s.stampRun runId (s.settledStatus run) now

/-- The node status `abandon` and `_reclaim_expired` choose for a lost attempt. -/
def releasedStatus (run : WorkflowRun) (node : WorkflowNode) : WorkflowNodeStatus :=
  if run.status.terminal then .cancelled
  else if node.attemptCount < node.maxAttempts then .ready
  else .failed

/-- The node update of `abandon` and `_reclaim_expired`. -/
def releaseNode (s : Store) (nodeId : Uuid) (next : WorkflowNodeStatus) (errorCode : String)
    (now : Time) : Store :=
  { s with nodes := s.nodes.update (RunningNode nodeId) (·.released next errorCode now) }

/-- The run update of `abandon` and `_reclaim_expired`: a FAILED node fails the
run, any other leaves it paused or queued. -/
def releaseRun (s : Store) (run : WorkflowRun) (next : WorkflowNodeStatus) (errorCode : String)
    (now : Time) : Store :=
  if next = .failed then
    { s with
      runs := s.runs.update (fun r => r.id = run.id) fun r =>
        { r with status := .failed, errorCode := some errorCode, updatedAt := now,
                 completedAt := some now } }
  else if run.pauseRequested then s.settlePause run.id now
  else
    { s with
      runs := s.runs.update (fun r => r.id = run.id ∧ r.status.terminal = false) fun r =>
        { r with status := .queued, updatedAt := now } }

/-- What `abandon` and `_reclaim_expired` do once the attempt is closed. -/
def release (s : Store) (run : WorkflowRun) (node : WorkflowNode) (errorCode : String)
    (now : Time) : Store :=
  (s.releaseNode node.id (releasedStatus run node) errorCode now).releaseRun run
    (releasedStatus run node) errorCode now

end Store

/-- `created_at + max_duration_seconds <= now`. -/
def WorkflowRun.overdue (r : WorkflowRun) (now : Time) : Prop :=
  r.createdAt + seconds r.budget.maxDurationSeconds ≤ now

instance (r : WorkflowRun) (now : Time) : Decidable (r.overdue now) :=
  inferInstanceAs (Decidable (_ ≤ _))

namespace Store

/-- The three updates `_expire_overdue` makes for an overdue run. -/
def closeOverdue (s : Store) (run : WorkflowRun) (now : Time) : Store :=
  { s with
    attempts := s.attempts.update (fun a => a.runId = run.id ∧ a.status = .running)
      (fun a => { a.release .cancelled now with errorCode := some "WORKFLOW_DEADLINE_EXCEEDED" })
      (fun _ => rfl) (fun _ _ => @WorkflowAttempt.check_release _ .cancelled now (by decide))
    nodes := s.nodes.update (fun n => n.runId = run.id ∧ n.status.terminal = false) fun n =>
      { n with status := .cancelled, errorCode := some "WORKFLOW_DEADLINE_EXCEEDED",
               updatedAt := now, completedAt := some now }
    runs := s.runs.update (fun r => r.id = run.id ∧ r.status.terminal = false) fun r =>
      { r with status := .failed, pauseRequested := false,
               cancellationRevision := r.cancellationRevision + 1,
               errorCode := some "WORKFLOW_DEADLINE_EXCEEDED", updatedAt := now,
               completedAt := some now } }

/-- The loop body of `_expire_overdue`. -/
def expireRun (now : Time) (s : Store) (run : WorkflowRun) : Store :=
  if run.overdue now then s.closeOverdue run now else s

/-- `_expire_overdue`. -/
def expireOverdue (s : Store) (now : Time) : Store :=
  (s.runs.select fun r => r.status.terminal = false).foldl (expireRun now) s

/-- The attempt update of `_reclaim_expired`. -/
def closeExpired (s : Store) (attempt : WorkflowAttempt) (now : Time) : Store :=
  { s with
    attempts := s.attempts.update
      (fun a => a.nodeId = attempt.nodeId ∧ a.attemptNumber = attempt.attemptNumber ∧
        a.status = .running ∧ a.leaseFence = attempt.leaseFence)
      (fun a => { a.release .abandoned now with errorCode := some "WORKER_LEASE_EXPIRED" })
      (fun _ => rfl) (fun _ _ => @WorkflowAttempt.check_release _ .abandoned now (by decide)) }

/-- The loop body of `_reclaim_expired`. -/
def reclaimAttempt (now : Time) (s : Store) (attempt : WorkflowAttempt) :
    Except WorkflowError Store :=
  match s.nodes.find? attempt.nodeId, s.runs.find? attempt.runId with
  | some node, some run =>
    .ok ((s.closeExpired attempt now).release run node "WORKER_LEASE_EXPIRED" now)
  | _, _ => .error .noResultFound

/-- `_reclaim_expired`. -/
def reclaimExpired (s : Store) (now : Time) : Except WorkflowError Store :=
  (s.attempts.select fun a => a.status = .running ∧ a.expired now = true).foldlM
    (reclaimAttempt now) s

end Store

end Fairy.Workflow
