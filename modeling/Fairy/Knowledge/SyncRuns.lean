import Fairy.Lib.Batch
import Fairy.Lib.Fallible
import Fairy.Lib.Table
import Fairy.Lib.Text

namespace Fairy.Knowledge

open Fairy.Lib

abbrev Uuid := Nat

/-- An aware UTC `datetime`, in seconds. -/
abbrev Time := Nat

inductive KnowledgeError
  | keyError (message : String)
  | valueError (message : String)
  | versionConflict (message : String)
  | idempotencyConflict (message : String)
  | providerCancelled (message : String)
  deriving DecidableEq

inductive KnowledgeSyncStatus
  | queued | running | completed | failed | cancelled | interrupted
  deriving DecidableEq

namespace KnowledgeSyncStatus

def terminal (s : KnowledgeSyncStatus) : Bool := s ∈ [completed, failed, cancelled]

end KnowledgeSyncStatus

structure KnowledgeSyncRun where
  id : Uuid
  sourceId : Uuid
  projectId : Uuid
  status : KnowledgeSyncStatus
  expectedSourceRevision : Nat
  requestFingerprint : String
  sourceCursor : Nat
  scannedCount : Nat
  changedCount : Nat
  deletedCount : Nat
  failedCount : Nat
  errorCode : Option String
  leaseOwner : Option String
  leaseUntil : Option Time
  leaseFence : Nat
  attempts : Nat
  cancellationRevision : Nat
  startedAt : Time
  completedAt : Option Time
  deriving DecidableEq

/-- `KnowledgeSyncRun.__post_init__`. -/
structure KnowledgeSyncRun.Valid (r : KnowledgeSyncRun) : Prop where
  revision : 1 ≤ r.expectedSourceRevision
  paired : r.leaseOwner.isSome = r.leaseUntil.isSome
  leased : r.status = .running ↔ r.leaseOwner.isSome
  completed : r.status.terminal = r.completedAt.isSome

instance (r : KnowledgeSyncRun) : Decidable r.Valid :=
  decidable_of_iff (1 ≤ r.expectedSourceRevision ∧ r.leaseOwner.isSome = r.leaseUntil.isSome ∧
      (r.status = .running ↔ r.leaseOwner.isSome) ∧ r.status.terminal = r.completedAt.isSome)
    ⟨fun ⟨h1, h2, h3, h4⟩ => ⟨h1, h2, h3, h4⟩, fun ⟨h1, h2, h3, h4⟩ => ⟨h1, h2, h3, h4⟩⟩

structure KnowledgeSyncClaim where
  runId : Uuid
  leaseOwner : String
  leaseFence : Nat
  attempts : Nat
  cancellationRevision : Nat
  deriving DecidableEq

/-- The rows of `core_knowledge_sync_runs` that a run can be read from. -/
abbrev SyncRuns := Table KnowledgeSyncRun KnowledgeSyncRun.id KnowledgeSyncRun.Valid

namespace KnowledgeSyncRun

def enqueue (now : Time) (id sourceId projectId : Uuid) (expectedSourceRevision : Nat)
    (requestFingerprint : String) (sourceCursor : Nat) : KnowledgeSyncRun where
  id := id
  sourceId := sourceId
  projectId := projectId
  status := .queued
  expectedSourceRevision := expectedSourceRevision
  requestFingerprint := requestFingerprint
  sourceCursor := sourceCursor
  scannedCount := 0
  changedCount := 0
  deletedCount := 0
  failedCount := 0
  errorCode := none
  leaseOwner := none
  leaseUntil := none
  leaseFence := 0
  attempts := 0
  cancellationRevision := 0
  startedAt := now
  completedAt := none

/-- The conditions of `_claim_sync_run`. -/
def Claimable (now : Time) (r : KnowledgeSyncRun) : Prop :=
  r.status = .queued ∨ r.status = .interrupted ∨
    (r.status = .running ∧ ∃ t ∈ r.leaseUntil, t ≤ now)

instance (now : Time) : DecidablePred (Claimable now) := fun r =>
  inferInstanceAs (Decidable (r.status = .queued ∨ r.status = .interrupted ∨ _))

/-- The values of `_claim_sync_run`. -/
def claimedBy (workerId : String) (leaseUntil : Time) (r : KnowledgeSyncRun) : KnowledgeSyncRun :=
  { r with
    status := .running
    leaseOwner := some workerId
    leaseUntil := some leaseUntil
    leaseFence := r.leaseFence + 1
    attempts := r.attempts + 1
    errorCode := none }

/-- The values of `abandon_sync_run`, which come after the fence of the claim. -/
def abandonedAt (leaseFence : Nat) (r : KnowledgeSyncRun) : KnowledgeSyncRun :=
  { r with
    status := .interrupted
    leaseOwner := none
    leaseUntil := none
    leaseFence := leaseFence + 1
    errorCode := some "WORKER_INTERRUPTED" }

/-- The values of `settle_sync_run`: those of `run`, save for what identifies the row. -/
def settledWith (run r : KnowledgeSyncRun) : KnowledgeSyncRun :=
  { run with
    id := r.id
    sourceId := r.sourceId
    projectId := r.projectId
    expectedSourceRevision := r.expectedSourceRevision
    requestFingerprint := r.requestFingerprint
    startedAt := r.startedAt }

/-- The values of the `UPDATE` of `cancel_sync_run`, computed from the row it read. -/
def cancelledFrom (now : Time) (read r : KnowledgeSyncRun) : KnowledgeSyncRun :=
  { r with
    status := .cancelled
    leaseOwner := none
    leaseUntil := none
    leaseFence := read.leaseFence + 1
    cancellationRevision := read.cancellationRevision + 1
    errorCode := some "KNOWLEDGE_SYNC_CANCELLED"
    completedAt := some now }

variable {r run : KnowledgeSyncRun}

theorem valid_enqueue {now : Time} {id sourceId projectId : Uuid} {revision : Nat}
    {fingerprint : String} {cursor : Nat} (h : 1 ≤ revision) :
    (enqueue now id sourceId projectId revision fingerprint cursor).Valid where
  revision := h
  paired := rfl
  leased := by simp [enqueue]
  completed := rfl

theorem Valid.open (h : r.Valid) (ht : r.status.terminal = false) : r.completedAt = none := by
  rw [h.completed] at ht
  simpa using ht

theorem Claimable.open {now : Time} (h : r.Claimable now) : r.status.terminal = false := by
  obtain h | h | ⟨h, _⟩ := h <;> rw [h] <;> rfl

theorem Valid.claimedBy {workerId : String} {leaseUntil now : Time} (h : r.Valid)
    (hc : r.Claimable now) : (r.claimedBy workerId leaseUntil).Valid where
  revision := h.revision
  paired := rfl
  leased := by simp [KnowledgeSyncRun.claimedBy]
  completed := by
    simp only [KnowledgeSyncRun.claimedBy, h.open hc.open]
    rfl

theorem Valid.abandonedAt {fence : Nat} (h : r.Valid) (hr : r.status = .running) :
    (r.abandonedAt fence).Valid where
  revision := h.revision
  paired := rfl
  leased := by simp [KnowledgeSyncRun.abandonedAt]
  completed := by
    have hopen : r.completedAt = none := h.open (by rw [hr]; rfl)
    simp only [KnowledgeSyncRun.abandonedAt, hopen]
    rfl

theorem Valid.settledWith (h : r.Valid) (hrun : run.Valid) : (run.settledWith r).Valid :=
  ⟨h.revision, hrun.paired, hrun.leased, hrun.completed⟩

theorem Valid.cancelledFrom {now : Time} {read : KnowledgeSyncRun} (h : r.Valid) :
    (read.cancelledFrom now r).Valid :=
  ⟨h.revision, rfl, by simp [KnowledgeSyncRun.cancelledFrom], rfl⟩

end KnowledgeSyncRun

/-- The predicates that a renewal, a settlement and an abandonment share. -/
def KnowledgeSyncClaim.Holds (c : KnowledgeSyncClaim) (r : KnowledgeSyncRun) : Prop :=
  r.id = c.runId ∧ r.status = .running ∧ r.leaseOwner = some c.leaseOwner ∧
    r.leaseFence = c.leaseFence ∧ r.cancellationRevision = c.cancellationRevision

instance (c : KnowledgeSyncClaim) : DecidablePred c.Holds := fun _ =>
  inferInstanceAs (Decidable (_ ∧ _ ∧ _ ∧ _ ∧ _))

namespace SyncRuns

variable (runs : SyncRuns)

/-- `enqueue_sync_run` of a new run, and the run of the request. -/
def enqueueSyncRun (run : KnowledgeSyncRun) (hrun : run.Valid) :
    Except KnowledgeError (SyncRuns × KnowledgeSyncRun) :=
  if run.status ≠ .queued then
    .error (.valueError "Only a queued Knowledge Sync can be enqueued")
  else
    match runs.oneOrNone fun r => r.requestFingerprint = run.requestFingerprint with
    | none => .ok (runs.insertUnless (fun r => r.id = run.id) run (fun _ h => h) hrun, run)
    | some recovered =>
      if recovered.sourceId ≠ run.sourceId ∨
          recovered.expectedSourceRevision ≠ run.expectedSourceRevision then
        .error (.idempotencyConflict "Knowledge Sync replay does not match its request")
      else .ok (runs, recovered)

/-- The `SELECT` of `_claim_sync_run`; `locked` are the rows of other transactions. -/
def nextSyncRun (now : Time) (runId : Option Uuid) (locked : List Uuid) :
    Option KnowledgeSyncRun :=
  (batch (byKeys (·.startedAt) (·.id)) 1 (runs.select fun r =>
    r.Claimable now ∧ (∀ id ∈ runId, r.id = id) ∧ r.id ∉ locked)).head?

def claimSyncRun (now : Time) (runId : Option Uuid) (workerId : String) (leaseUntil : Time)
    (locked : List Uuid) : Except KnowledgeError (SyncRuns × Option KnowledgeSyncClaim) :=
  let normalizedWorker := Text.strip workerId
  if normalizedWorker = "" then .error (.valueError "worker_id must not be empty")
  else if leaseUntil ≤ now then
    .error (.valueError "lease_until must be a future aware datetime")
  else
    match runs.nextSyncRun now runId locked with
    | none => .ok (runs, none)
    | some row =>
      .ok (runs.update (fun r => r.id = row.id ∧ r.leaseFence = row.leaseFence ∧
          r.cancellationRevision = row.cancellationRevision ∧ r.Claimable now)
          (KnowledgeSyncRun.claimedBy normalizedWorker leaseUntil) (fun _ => rfl)
          fun _ hp h => h.claimedBy hp.2.2.2,
        some ⟨row.id, normalizedWorker, row.leaseFence + 1, row.attempts + 1,
          row.cancellationRevision⟩)

/-- `rowcount == 1` of an update by primary key. -/
def meets (p : KnowledgeSyncRun → Prop) [DecidablePred p] : Bool := ∃ r ∈ runs.rows, p r

def renewSyncRun (now : Time) (claim : KnowledgeSyncClaim) (leaseUntil : Time) :
    Except KnowledgeError (SyncRuns × Bool) :=
  if leaseUntil ≤ now then .error (.valueError "lease_until must be a future aware datetime")
  else
    .ok (runs.update (fun r => claim.Holds r ∧ ∃ t ∈ r.leaseUntil, now < t)
        (fun r => { r with leaseUntil := some leaseUntil }) (fun _ => rfl) (fun r hp h => by
          refine ⟨h.revision, ?_, h.leased, h.completed⟩
          simp [hp.1.2.2.1]),
      runs.meets fun r => claim.Holds r ∧ ∃ t ∈ r.leaseUntil, now < t)

def settleSyncRun (claim : KnowledgeSyncClaim) (run : KnowledgeSyncRun) (hrun : run.Valid) :
    Except KnowledgeError (SyncRuns × Bool) :=
  if run.id ≠ claim.runId then
    .error (.valueError "Knowledge Sync result does not match its claim")
  else if run.status ≠ .completed ∧ run.status ≠ .failed then
    .error (.valueError "Knowledge Sync result must be completed or failed")
  else
    .ok (runs.update claim.Holds run.settledWith (fun _ => rfl) fun _ _ h => h.settledWith hrun,
      runs.meets claim.Holds)

def abandonSyncRun (claim : KnowledgeSyncClaim) : SyncRuns × Bool :=
  (runs.update claim.Holds (KnowledgeSyncRun.abandonedAt claim.leaseFence) (fun _ => rfl)
      fun _ hp h => h.abandonedAt hp.2.1,
    runs.meets claim.Holds)

/-- The read of `cancel_sync_run`, which goes on with a row that is not terminal. -/
def cancelRead (runId : Uuid) : Except KnowledgeError (Option KnowledgeSyncRun) :=
  match runs.find? runId with
  | none => .error (.keyError s!"Knowledge Sync Run not found: {runId}")
  | some row => .ok (if row.status.terminal then none else some row)

/-- The `UPDATE` of `cancel_sync_run`, after the row was read. -/
def cancelWrite (now : Time) (row : KnowledgeSyncRun) : SyncRuns × Bool :=
  (runs.update (fun r => r.id = row.id ∧ r.cancellationRevision = row.cancellationRevision)
      (KnowledgeSyncRun.cancelledFrom now row) (fun _ => rfl) fun _ _ h => h.cancelledFrom,
    runs.meets fun r => r.id = row.id ∧ r.cancellationRevision = row.cancellationRevision)

end SyncRuns

end Fairy.Knowledge
