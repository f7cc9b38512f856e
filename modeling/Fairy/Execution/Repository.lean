import Fairy.Lib.Fallible
import Fairy.Lib.Json
import Fairy.Lib.Table
import Fairy.Lib.Text
import Fairy.Lib.Batch

namespace Fairy.Execution

open Fairy.Lib

abbrev Uuid := Nat

/-- An aware UTC `datetime`, in seconds. -/
abbrev Time := Nat

inductive ExecutionError
  | idempotencyConflict (message : String)
  | workerFence (message : String)
  | cancelledBeforeSpawn (message : String)
  | keyError (message : String)
  | valueError (message : String)
  | integrityError (constraint : String)
  deriving DecidableEq

inductive ExecutionJobStatus
  | queued | claimed | running | resultRecorded
  | succeeded | failed | timedOut | cancelled | interrupted
  deriving DecidableEq

namespace ExecutionJobStatus

def terminal (s : ExecutionJobStatus) : Bool :=
  s ∈ [succeeded, failed, timedOut, cancelled, interrupted]

end ExecutionJobStatus

inductive SandboxResultStatus
  | completed | failed | timedOut | cancelled
  deriving DecidableEq

/-- `_terminal_status`. -/
def terminalStatus : SandboxResultStatus → ExecutionJobStatus
  | .completed => .succeeded
  | .failed => .failed
  | .timedOut => .timedOut
  | .cancelled => .cancelled

/-- What the repository reads of a request; `header` is `SandboxRequest.header()`. -/
structure SandboxRequest where
  jobId : Uuid
  scopeDigest : String
  workspaceGeneration : Nat
  leaseFence : Nat
  timeoutSeconds : Nat
  outputLimitBytes : Nat
  header : Json
  deriving DecidableEq

structure SandboxResult where
  jobId : Uuid
  executor : String
  executorVersion : String
  scopeDigest : String
  workspaceGeneration : Nat
  leaseFence : Nat
  status : SandboxResultStatus
  exitCode : Option Int
  stdout : List UInt8
  stderr : List UInt8
  stdoutSha256 : String
  stderrSha256 : String
  outputTruncated : Bool
  startedAt : Time
  finishedAt : Time
  deriving DecidableEq

/-- A row of `execution_jobs`; the columns of a result stand together. -/
structure ExecutionJob where
  tenantId : String
  request : SandboxRequest
  requestFingerprint : String
  status : ExecutionJobStatus
  cancelRequested : Bool
  attempts : Nat
  leaseOwner : Option String
  leaseExpiresAt : Option Time
  leaseFence : Nat
  spawnedAt : Option Time
  result : Option SandboxResult
  resultRecordedAt : Option Time
  finishedAt : Option Time
  createdAt : Time
  updatedAt : Time
  deriving DecidableEq

abbrev JobKey := String × Uuid

def ExecutionJob.key (j : ExecutionJob) : JobKey := (j.tenantId, j.request.jobId)

inductive ExecutionClaimAction
  | execute | finalize
  deriving DecidableEq

structure ExecutionClaim where
  job : ExecutionJob
  action : ExecutionClaimAction
  deriving DecidableEq

abbrev Jobs := Table ExecutionJob ExecutionJob.key fun _ => True

/-- `execution_request_fingerprint` digests the header of a request. -/
structure Digest where
  digest : Json → String

def ExecutionJob.create (x : Digest) (now : Time) (tenantId : String) (request : SandboxRequest) :
    ExecutionJob where
  tenantId := tenantId
  request := request
  requestFingerprint := x.digest request.header
  status := .queued
  cancelRequested := false
  attempts := 0
  leaseOwner := none
  leaseExpiresAt := none
  leaseFence := 0
  spawnedAt := none
  result := none
  resultRecordedAt := none
  finishedAt := none
  createdAt := now
  updatedAt := now

namespace ExecutionJob

/-- `build_claim_execution_statement`: what a worker may claim. -/
def Claimable (now : Time) (j : ExecutionJob) : Prop :=
  j.status = .queued ∨
    (j.status = .claimed ∧ j.spawnedAt = none ∧ ∃ t ∈ j.leaseExpiresAt, t ≤ now) ∨
    (j.status = .resultRecorded ∧ ∀ t ∈ j.leaseExpiresAt, t ≤ now)

instance (now : Time) : DecidablePred (Claimable now) := fun j =>
  inferInstanceAs (Decidable (j.status = .queued ∨ _ ∨ _))

/-- The values of `request_cancel`. -/
def cancelRequestedAt (now : Time) (j : ExecutionJob) : ExecutionJob :=
  if j.status = .queued then
    { j with
      cancelRequested := true, updatedAt := now, status := .cancelled, finishedAt := some now }
  else { j with cancelRequested := true, updatedAt := now }

def claimAction (j : ExecutionJob) : ExecutionClaimAction :=
  if j.status = .resultRecorded then .finalize else .execute

/-- The values of `claim_next`. -/
def claimedBy (now : Time) (ownerId : String) (leaseSeconds : Nat) (j : ExecutionJob) :
    ExecutionJob :=
  { j with
    status := if j.claimAction = .finalize then .resultRecorded else .claimed
    leaseOwner := some ownerId
    leaseExpiresAt := some (now + leaseSeconds)
    leaseFence := j.leaseFence + 1
    updatedAt := now
    attempts := if j.claimAction = .execute then j.attempts + 1 else j.attempts }

def spawnedWith (now : Time) (timeoutSeconds : Nat) (j : ExecutionJob) : ExecutionJob :=
  { j with
    status := .running
    spawnedAt := some now
    leaseExpiresAt := some (now + timeoutSeconds + 30)
    updatedAt := now }

/-- A job that a worker or the reconciler settles without a result. -/
def settledAs (status : ExecutionJobStatus) (now : Time) (j : ExecutionJob) : ExecutionJob :=
  { j with
    status := status
    finishedAt := some now
    leaseOwner := none
    leaseExpiresAt := none
    updatedAt := now }

def cancelledByWorker (now : Time) (j : ExecutionJob) : ExecutionJob :=
  { j.settledAs .cancelled now with cancelRequested := true }

def recordedWith (now : Time) (result : SandboxResult) (j : ExecutionJob) : ExecutionJob :=
  { j with
    status := .resultRecorded
    result := some result
    resultRecordedAt := some now
    finishedAt := some result.finishedAt
    updatedAt := now }

def finalizedAs (status : ExecutionJobStatus) (now : Time) (j : ExecutionJob) : ExecutionJob :=
  { j with status := status, leaseOwner := none, leaseExpiresAt := none, updatedAt := now }

end ExecutionJob

/-- The predicates of `_fenced_update`. -/
def ExecutionClaim.Holds (c : ExecutionClaim) (expected : ExecutionJobStatus) (j : ExecutionJob) :
    Prop :=
  j.key = c.job.key ∧ j.status = expected ∧ j.leaseOwner = c.job.leaseOwner ∧
    j.leaseFence = c.job.leaseFence

instance (c : ExecutionClaim) (expected : ExecutionJobStatus) :
    DecidablePred (c.Holds expected) := fun _ => inferInstanceAs (Decidable (_ ∧ _ ∧ _ ∧ _))

namespace Jobs

variable (x : Digest) (jobs : Jobs)

def enqueue (now : Time) (tenantId : String) (request : SandboxRequest) :
    Except ExecutionError Jobs :=
  let candidate := ExecutionJob.create x now tenantId request
  match jobs.find? candidate.key with
  | none => .ok (jobs.insertOrIgnore candidate)
  | some existing =>
    if existing.requestFingerprint ≠ candidate.requestFingerprint then
      .error (.idempotencyConflict "Execution job id is already bound to a different request")
    else .ok jobs

def requestCancel (now : Time) (key : JobKey) : Except ExecutionError Jobs :=
  match jobs.find? key with
  | none => .error (.keyError s!"Execution job not found: {key.2}")
  | some row =>
    if row.status.terminal then .ok jobs
    else .ok (jobs.update (fun j => j.key = key) (ExecutionJob.cancelRequestedAt now)
      fun j => by unfold ExecutionJob.cancelRequestedAt; split <;> rfl)

/-- The first claimable row that no other transaction has locked. -/
def nextClaimable (now : Time) (locked : List JobKey) : Option ExecutionJob :=
  ((jobs.select fun j => j.Claimable now ∧ j.key ∉ locked).mergeSort
    (byKeys (·.createdAt) (·.request.jobId))).head?

def claimNext (now : Time) (ownerId : String) (leaseSeconds : Nat) (locked : List JobKey) :
    Except ExecutionError (Jobs × Option ExecutionClaim) :=
  if Text.strip ownerId = "" ∨ leaseSeconds < 1 then
    .error (.valueError "claim owner and positive lease are required")
  else
    match jobs.nextClaimable now locked with
    | none => .ok (jobs, none)
    | some row =>
      .ok (jobs.update (fun j => j.key = row.key ∧ j.leaseFence = row.leaseFence)
          (ExecutionJob.claimedBy now ownerId leaseSeconds),
        some ⟨row.claimedBy now ownerId leaseSeconds, row.claimAction⟩)

/-- `_require_fence` of an update that no row meets. -/
def requireFence (p : ExecutionJob → Prop) [DecidablePred p] (message : String) :
    Except ExecutionError Unit :=
  if ∃ j ∈ jobs.rows, p j then .ok () else .error (.workerFence message)

def cancellationRequested (c : ExecutionClaim) : Except ExecutionError Bool :=
  match jobs.oneOrNone fun j => j.key = c.job.key ∧ j.leaseOwner = c.job.leaseOwner ∧
      j.leaseFence = c.job.leaseFence with
  | none => .error (.workerFence "Execution cancellation check lost its fence")
  | some row => .ok row.cancelRequested

def markSpawned (now : Time) (c : ExecutionClaim) : Except ExecutionError Jobs :=
  if ∃ j ∈ jobs.rows, c.Holds .claimed j ∧ j.cancelRequested = false then
    .ok (jobs.update (fun j => c.Holds .claimed j ∧ j.cancelRequested = false)
      (ExecutionJob.spawnedWith now c.job.request.timeoutSeconds))
  else do
    if ← jobs.cancellationRequested c then
      throw (.cancelledBeforeSpawn "Execution was cancelled before spawn")
    else throw (.workerFence "Execution claim lost its fence before spawn")

def markCancelled (now : Time) (c : ExecutionClaim) : Except ExecutionError Jobs := do
  jobs.requireFence (c.Holds .claimed) "Execution worker lost its fence during cancel"
  return jobs.update (c.Holds .claimed) (ExecutionJob.cancelledByWorker now)

/-- The result names the request of the claim. -/
def requireBinding (c : ExecutionClaim) (result : SandboxResult) : Except ExecutionError Unit :=
  if result.jobId ≠ c.job.request.jobId ∨ result.scopeDigest ≠ c.job.request.scopeDigest ∨
      result.workspaceGeneration ≠ c.job.request.workspaceGeneration ∨
      result.leaseFence ≠ c.job.request.leaseFence then
    .error (.workerFence "Execution result does not match its request binding")
  else .ok ()

/-- `ck_execution_jobs_result_evidence` of the row that gets the result. -/
def requireEvidence (c : ExecutionClaim) (result : SandboxResult) : Except ExecutionError Unit :=
  if ∃ j ∈ jobs.rows, c.Holds .running j ∧ ¬ (result.executor = "cloud_oci_worker" ∧
      result.executorVersion = "1.1.0" ∧
      result.stdout.length + result.stderr.length ≤ j.request.outputLimitBytes) then
    .error (.integrityError "ck_execution_jobs_result_evidence")
  else .ok ()

def recordResult (now : Time) (c : ExecutionClaim) (result : SandboxResult) :
    Except ExecutionError Jobs := do
  requireBinding c result
  jobs.requireEvidence c result
  jobs.requireFence (c.Holds .running) "Execution worker lost its fence during record result"
  return jobs.update (c.Holds .running) (ExecutionJob.recordedWith now result)

/-- The `SELECT` of `finalize_result`. -/
def finalizeRead (c : ExecutionClaim) : Except ExecutionError ExecutionJobStatus :=
  match jobs.oneOrNone (c.Holds .resultRecorded) with
  | none => .error (.workerFence "Execution finalizer lost its fence")
  | some row =>
    match row.result with
    | none => .error (.keyError "None")
    | some result => .ok (terminalStatus result.status)

/-- The `UPDATE` of `finalize_result`, with the status that was read before it. -/
def finalizeWrite (now : Time) (c : ExecutionClaim) (status : ExecutionJobStatus) :
    Except ExecutionError Jobs := do
  jobs.requireFence (c.Holds .resultRecorded) "Execution worker lost its fence during finalize"
  return jobs.update (c.Holds .resultRecorded) (ExecutionJob.finalizedAs status now)

def markInterrupted (now : Time) (c : ExecutionClaim) : Jobs :=
  jobs.update (fun j => c.Holds .claimed j ∨ c.Holds .running j)
    (ExecutionJob.settledAs .interrupted now)

def reconcileExpired (now : Time) : Jobs :=
  (jobs.update (fun j => j.status = .running ∧ j.spawnedAt ≠ none ∧
      ∃ t ∈ j.leaseExpiresAt, t ≤ now) (ExecutionJob.settledAs .interrupted now)).update
    (fun j => j.status = .claimed ∧ j.spawnedAt = none ∧ j.cancelRequested = true ∧
      ∃ t ∈ j.leaseExpiresAt, t ≤ now) (ExecutionJob.settledAs .cancelled now)

end Jobs

end Fairy.Execution
