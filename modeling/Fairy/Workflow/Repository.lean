import Fairy.Workflow.Claim

namespace Fairy.Workflow

/-- What `append_plan` writes into its run. -/
def WorkflowRun.activated (r : WorkflowRun) (expectedRevision : Nat) (now : Time) : WorkflowRun :=
  { r with activePlanRevision := expectedRevision + 1, status := .queued, pauseRequested := false,
           errorCode := none, updatedAt := now }

namespace Store

open Fairy.Lib

def create (s : Store) (run : WorkflowRun) (nodes : List WorkflowNode) (edges : List WorkflowEdge) :
    Except WorkflowError (WorkflowSnapshot × Store) := do
  match s.runs.oneOrNone fun r => r.idempotencyKey = run.idempotencyKey with
  | some existing =>
    let snapshot ← s.snapshot existing.id
    if snapshot.run.ownerKind ≠ run.ownerKind ∨ snapshot.run.ownerId ≠ run.ownerId ∨
        snapshot.run.executionTarget ≠ run.executionTarget then
      throw (.valueError "Workflow idempotency key is bound to different work")
    return (snapshot, s)
  | none =>
    if run.activePlanRevision ≠ 1 ∨ run.status ≠ .queued then
      throw (.valueError "New Workflow Run must start queued at plan revision 1")
    let normalized ← validatePlan run.id 1 nodes edges
    let s ← s.insertRun run
    let s ← s.insertRevision
      { runId := run.id, revision := 1, reason := .initial, instructionId := none,
        createdAt := run.createdAt }
    let s ← s.insertPlan normalized edges
    return (← s.snapshot run.id, s)

/-- The instruction row `append_plan` marks as applied. -/
def applyInstruction (s : Store) (instructionId : Option Uuid) (runId : Uuid) (revision : Nat)
    (hr : 0 < revision) (now : Time) : Store :=
  match instructionId with
  | none => s
  | some id => { s with
    instructions := s.instructions.update
      (fun i => i.id = id ∧ i.runId = runId ∧ i.status = .pending)
      (fun i => { i with status := .applied, appliedRevision := some revision,
                         appliedAt := some now })
      (fun _ => rfl) (fun _ _ h => ⟨h.1, fun _ he => Option.some.inj he ▸ hr⟩) }

/-- The nodes of the replaced plan that `append_plan` supersedes. -/
def supersedePlan (s : Store) (runId : Uuid) (revision : Nat) (now : Time) : Store :=
  { s with
    nodes := s.nodes.update
      (fun n => n.runId = runId ∧ n.planRevision = revision ∧
        (n.status = .pending ∨ n.status = .ready ∨ n.status.waiting = true))
      fun n => { n with status := .superseded, updatedAt := now, completedAt := some now } }

/-- The run update of `append_plan`. -/
def activatePlan (s : Store) (runId : Uuid) (expectedRevision : Nat) (now : Time) : Store :=
  { s with
    runs := s.runs.update (fun r => r.id = runId ∧ r.activePlanRevision = expectedRevision)
      (·.activated expectedRevision now)
      (fun _ => rfl) (fun _ _ h => ⟨h.1, h.2.1, Nat.succ_pos _, h.2.2.2⟩) }

def appendPlan (s : Store) (runId : Uuid) (expectedRevision : Nat) (reason : WorkflowPlanReason)
    (instructionId : Option Uuid) (nodes : List WorkflowNode) (edges : List WorkflowEdge)
    (t : Readings) : Except WorkflowError (WorkflowSnapshot × Store) := do
  let run ← s.readRun runId
  if run.status.terminal then
    throw (.valueError "Terminal Workflow cannot accept another plan")
  if run.activePlanRevision ≠ expectedRevision then
    throw (.revisionError "Workflow plan revision changed")
  if s.hasRunningAttempt runId then
    throw (.revisionError "Workflow still has an active node attempt")
  let normalized ← validatePlan runId (expectedRevision + 1) nodes edges
  let s := s.supersedePlan runId expectedRevision t.first
  let s ← s.insertRevision
    { runId, revision := expectedRevision + 1, reason, instructionId, createdAt := t.first }
  let s ← s.insertPlan normalized edges
  let s := s.activatePlan runId expectedRevision t.first
  let s := s.applyInstruction instructionId runId (expectedRevision + 1) (Nat.succ_pos _) t.first
  return (← s.snapshot runId, s)

def renewLease (s : Store) (c : WorkflowAttemptClaim) (leaseUntil live : Time) : Store :=
  { s with
    attempts := s.attempts.update (LiveClaimPredicates c live)
      (fun a => { a with leaseUntil := some leaseUntil }) (fun _ => rfl)
      (fun _ hp h => ⟨h.1, .inl ⟨hp.1.running, h.2.elim (·.2.1) (absurd hp.1.running ·.1), rfl⟩⟩) }

/-- `renew`, which expires overdue runs first and answers with the row count
of its update. -/
def renew (s : Store) (c : WorkflowAttemptClaim) (leaseUntil : Time) (t : Readings) :
    Except WorkflowError (Bool × Store) := do
  if leaseUntil ≤ t.first then
    throw (.valueError "Workflow lease renewal must extend into the future")
  let s := s.expireOverdue t.first
  let changed := (s.attempts.select (LiveClaimPredicates c t.second)).length
  return (changed == 1, s.renewLease c leaseUntil t.second)

/-- The attempt and node updates of `complete`. -/
def completeClaim (s : Store) (c : WorkflowAttemptClaim) (result : Payload)
    (evidenceRefs : List String) (publicSummary : Option String) (now live : Time) : Store :=
  { s with
    attempts := s.attempts.update (LiveClaimPredicates c live)
      (fun a => { a.release .succeeded now with result := some result, evidenceRefs })
      (fun _ => rfl) (fun _ _ => @WorkflowAttempt.check_release _ .succeeded now (by decide))
    nodes := s.nodes.update (RunningNode c.nodeId) fun n =>
      { n with status := .succeeded, result := some result, evidenceRefs, errorCode := none,
               updatedAt := now, completedAt := some now,
               publicSummary := match publicSummary with
                 | some summary => Text.truncate 500 (Text.strip summary)
                 | none => n.publicSummary } }

def complete (s : Store) (c : WorkflowAttemptClaim) (result : Payload) (evidenceRefs : List String)
    (publicSummary : Option String) (t : Readings) :
    Except WorkflowError (WorkflowSnapshot × Store) := do
  let _ ← s.requireClaim c t.first
  let s := s.completeClaim c result evidenceRefs publicSummary t.first t.second
  let s := s.promoteDependents c.runId c.planRevision t.first
  let s ← s.settleRun c.runId t.first
  return (← s.snapshot c.runId, s)

/-- The updates of `fail`: the claimed attempt, every unfinished node of the
run, the claimed node once more, the run's other attempts, and the run. -/
def failClaim (s : Store) (c : WorkflowAttemptClaim) (errorCode : String) (now live : Time) :
    Store :=
  let s := s.settleAttempt c errorCode now live
  let s : Store := { s with
    nodes := (s.nodes.update
      (fun n => n.runId = c.runId ∧
        (n.status = .pending ∨ n.status = .ready ∨ n.status = .running ∨ n.status.waiting = true))
      fun n => { n with status := .cancelled, errorCode := some (Text.truncate 128 errorCode),
                        updatedAt := now, completedAt := some now }).update
      (fun n => n.id = c.nodeId) fun n => { n with status := .failed } }
  let s := s.cancelRunningAttempts c.runId (some c.nodeId) now
  { s with
    runs := s.runs.update (fun r => r.id = c.runId) fun r =>
      { r with status := .failed, cancellationRevision := r.cancellationRevision + 1,
               errorCode := some (Text.truncate 128 errorCode), updatedAt := now,
               completedAt := some now } }

/-- `fail`, which takes its own clock readings also when `retry` or `defer`
ends in it. -/
def fail (s : Store) (c : WorkflowAttemptClaim) (errorCode : String) (t : Readings) :
    Except WorkflowError (WorkflowSnapshot × Store) := do
  let _ ← s.requireClaim c t.first
  let s := s.failClaim c errorCode t.first t.second
  return (← s.snapshot c.runId, s)

/-- The run update `retry`, `defer` and the two waits end with. -/
def setRunStatus (s : Store) (runId : Uuid) (status : WorkflowRunStatus) (now : Time) : Store :=
  { s with
    runs := s.runs.update (fun r => r.id = runId) fun r => { r with status, updatedAt := now } }

def retryClaim (s : Store) (c : WorkflowAttemptClaim) (availableAt : Time) (errorCode : String)
    (now live : Time) : Store :=
  let s := s.settleAttempt c errorCode now live
  let s : Store := { s with
    nodes := s.nodes.update (RunningNode c.nodeId) fun n =>
      { n with status := .ready, availableAt, errorCode := some (Text.truncate 128 errorCode),
               updatedAt := now } }
  s.setRunStatus c.runId .queued now

def retry (s : Store) (c : WorkflowAttemptClaim) (availableAt : Time) (errorCode : String)
    (t : Readings) : Except WorkflowError (WorkflowSnapshot × Store) := do
  let availableAt := if availableAt < t.first then t.first else availableAt
  let node ← s.requireClaim c t.first
  if node.maxAttempts ≤ node.attemptCount then
    s.fail c errorCode t.tail
  else
    let s := s.retryClaim c availableAt errorCode t.first t.second
    return (← s.snapshot c.runId, s)

/-- The attempt update of `defer` and of the two waits. -/
def suspendAttempt (s : Store) (c : WorkflowAttemptClaim) (result : Payload) (now live : Time) :
    Store :=
  { s with
    attempts := s.attempts.update (LiveClaimPredicates c live)
      (fun a => { a.release .waiting now with result := some result })
      (fun _ => rfl) (fun _ _ => @WorkflowAttempt.check_release _ .waiting now (by decide)) }

def deferClaim (s : Store) (c : WorkflowAttemptClaim) (availableAt : Time) (result : Payload)
    (now live : Time) : Store :=
  let s := s.suspendAttempt c result now live
  let s : Store := { s with
    nodes := s.nodes.update (RunningNode c.nodeId) fun n =>
      { n with status := .ready, result := some result, availableAt, errorCode := none,
               updatedAt := now } }
  s.setRunStatus c.runId .queued now

def defer (s : Store) (c : WorkflowAttemptClaim) (availableAt : Time) (result : Payload)
    (t : Readings) : Except WorkflowError (WorkflowSnapshot × Store) := do
  if availableAt ≤ t.first then
    throw (.valueError "Deferred Workflow node must become available in the future")
  let node ← s.requireClaim c t.first
  if node.maxAttempts ≤ node.attemptCount then
    s.fail c "WORKFLOW_WAIT_BUDGET_EXHAUSTED" t.tail
  else
    let s := s.deferClaim c availableAt result t.first t.second
    return (← s.snapshot c.runId, s)

def waitClaim (nodeStatus : WorkflowNodeStatus) (runStatus : WorkflowRunStatus) (s : Store)
    (c : WorkflowAttemptClaim) (result : Payload) (now live : Time) : Store :=
  let s := s.suspendAttempt c result now live
  let s : Store := { s with
    nodes := s.nodes.update (RunningNode c.nodeId) fun n =>
      { n with status := nodeStatus, result := some result, errorCode := none, updatedAt := now } }
  s.setRunStatus c.runId runStatus now

/-- `wait_for_approval` and `wait_for_input`, which differ in the two statuses
they write. -/
def waitFor (nodeStatus : WorkflowNodeStatus) (runStatus : WorkflowRunStatus) (s : Store)
    (c : WorkflowAttemptClaim) (result : Payload) (t : Readings) :
    Except WorkflowError (WorkflowSnapshot × Store) := do
  let _ ← s.requireClaim c t.first
  let s := waitClaim nodeStatus runStatus s c result t.first t.second
  return (← s.snapshot c.runId, s)

def waitForApproval : Store → WorkflowAttemptClaim → Payload → Readings →
    Except WorkflowError (WorkflowSnapshot × Store) :=
  waitFor .waitingForApproval .waitingForApproval

def waitForInput : Store → WorkflowAttemptClaim → Payload → Readings →
    Except WorkflowError (WorkflowSnapshot × Store) :=
  waitFor .waitingForInput .waitingForInput

def abandonAttempt (s : Store) (c : WorkflowAttemptClaim) (now : Time) : Store :=
  { s with
    attempts := s.attempts.update (ClaimPredicates c)
      (fun a => { a.release .abandoned now with errorCode := some "WORKER_INTERRUPTED" })
      (fun _ => rfl) (fun _ _ => @WorkflowAttempt.check_release _ .abandoned now (by decide)) }

def abandon (s : Store) (c : WorkflowAttemptClaim) (t : Readings) :
    Except WorkflowError (Bool × Store) :=
  match s.attempts.oneOrNone (ClaimPredicates c) with
  | none => .ok (false, s)
  | some _ =>
    match s.nodes.find? c.nodeId, s.runs.find? c.runId with
    | some node, some run =>
      .ok (true, (s.abandonAttempt c t.first).release run node "WORKER_INTERRUPTED" t.first)
    | _, _ => .error .noResultFound

def pauseRun (s : Store) (runId : Uuid) (now : Time) : Store :=
  let active := s.hasRunningAttempt runId
  { s with
    runs := s.runs.update (fun r => r.id = runId) fun r =>
      { r with pauseRequested := true, status := if active then .running else .paused,
               updatedAt := now } }

def requestPause (s : Store) (runId : Uuid) (t : Readings) :
    Except WorkflowError (WorkflowSnapshot × Store) := do
  let run ← s.readRun runId
  if run.status.terminal then
    return (← s.loadSnapshot run, s)
  else
    let s := s.pauseRun runId t.first
    return (← s.snapshot runId, s)

theorem readied_id (now : Time) (n : WorkflowNode) :
    ({ n with status := .ready, updatedAt := now } : WorkflowNode).id = n.id := rfl

/-- The waiting nodes `resume` makes READY, when the run itself is waiting. -/
def wakeNodes (s : Store) (run : WorkflowRun) (now : Time) : Store :=
  if run.status = .waitingForApproval ∨ run.status = .waitingForInput then { s with
    nodes := s.nodes.update
      (fun n => n.runId = run.id ∧ n.planRevision = run.activePlanRevision ∧
        n.status.waiting = true)
      (fun n => { n with status := .ready, updatedAt := now }) (readied_id now) }
  else s

def resumeRun (s : Store) (runId : Uuid) (now : Time) : Store :=
  let active := s.hasRunningAttempt runId
  { s with
    runs := s.runs.update (fun r => r.id = runId) fun r =>
      { r with pauseRequested := false, status := if active then .running else .queued,
               updatedAt := now } }

def resume (s : Store) (runId : Uuid) (t : Readings) :
    Except WorkflowError (WorkflowSnapshot × Store) := do
  let run ← s.readRun runId
  if run.status.terminal then
    return (← s.loadSnapshot run, s)
  else
    let s := (s.wakeNodes run t.first).resumeRun runId t.first
    return (← s.snapshot runId, s)

def cancelRun (s : Store) (runId : Uuid) (now : Time) : Store :=
  let s := s.cancelRunningAttempts runId none now
  { s with
    nodes := s.nodes.update (fun n => n.runId = runId ∧ n.status.terminal = false) fun n =>
      { n with status := .cancelled, updatedAt := now, completedAt := some now }
    runs := s.runs.update (fun r => r.id = runId) fun r =>
      { r with status := .cancelled, pauseRequested := false,
               cancellationRevision := r.cancellationRevision + 1, updatedAt := now,
               completedAt := some now } }

def cancel (s : Store) (runId : Uuid) (t : Readings) :
    Except WorkflowError (WorkflowSnapshot × Store) := do
  let run ← s.readRun runId
  if run.status.terminal then
    return (← s.loadSnapshot run, s)
  else
    let s := s.cancelRun runId t.first
    return (← s.snapshot runId, s)

/-- `reserve_budget`; the amounts are integers and the guard refuses negative ones. -/
def reserveBudget (s : Store) (runId : Uuid) (modelRounds toolInvocations : Int) (t : Readings) :
    Except WorkflowError (WorkflowSnapshot × Store) := do
  if modelRounds < 0 ∨ toolInvocations < 0 ∨ (modelRounds = 0 ∧ toolInvocations = 0) then
    throw (.valueError "Workflow budget reservation must be positive")
  let run ← s.readRun runId
  if run.status.terminal then
    throw (.budgetExceeded "Terminal Workflow cannot reserve budget")
  let nextModelRounds := run.modelRoundsUsed + modelRounds.toNat
  let nextToolInvocations := run.toolInvocationsUsed + toolInvocations.toNat
  if run.budget.maxModelRounds < nextModelRounds ∨
      run.budget.maxToolInvocations < nextToolInvocations then
    throw (.budgetExceeded "Workflow execution budget is exhausted")
  match s.runs.tryUpdate
      (fun r => r.id = runId ∧ r.modelRoundsUsed = run.modelRoundsUsed ∧
        r.toolInvocationsUsed = run.toolInvocationsUsed)
      fun r => { r with modelRoundsUsed := nextModelRounds,
                        toolInvocationsUsed := nextToolInvocations, updatedAt := t.first } with
  | none => throw (.integrityError "ck_core_workflow_runs_budget_usage")
  | some runs =>
    let s : Store := { s with runs }
    return (← s.snapshot runId, s)

def upgradeBudget (s : Store) (runId : Uuid) (budget : WorkflowBudget) (t : Readings) :
    Except WorkflowError (WorkflowSnapshot × Store) := do
  let run ← s.readRun runId
  if run.budget = budget then
    return (← s.loadSnapshot run, s)
  if run.budget.tier ≠ .normal ∨ budget.tier ≠ .deep ∨
      budget.maxModelRounds < run.budget.maxModelRounds ∨
      budget.maxToolInvocations < run.budget.maxToolInvocations ∨
      budget.maxDurationSeconds < run.budget.maxDurationSeconds ∨
      budget.maxParallelNodes < run.budget.maxParallelNodes then
    throw (.valueError "Workflow budget can only upgrade from normal to deep")
  if run.status.terminal then
    throw (.valueError "Terminal Workflow budget cannot change")
  match s.runs.tryUpdate (fun r => r.id = runId)
      fun r => { r with budget, updatedAt := t.first } with
  | none => throw (.integrityError "ck_core_workflow_runs_budget_usage")
  | some runs =>
    let s : Store := { s with runs }
    return (← s.snapshot runId, s)

end Store

end Fairy.Workflow
