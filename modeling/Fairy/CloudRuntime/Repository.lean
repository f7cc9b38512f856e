import Fairy.CloudRuntime.Leases
import Fairy.Lib.Batch

namespace Fairy.CloudRuntime

open Fairy.Lib
open Fairy.Commanding (Uuid Time)

/-- The table `runtime_leases`. -/
abbrev Leases := Table LeaseRow LeaseRow.key fun _ => True

/-- What a call raises or returns, and the table it leaves. -/
abbrev Outcome (α : Type) := Except CloudRuntimeError α × Leases

def seconds (n : Nat) : Nat := n * 1000000

/-- The repository of a tenant. -/
structure CloudRuntimeRepository where
  tenantId : String
  lifetimeSeconds : Nat
  tenant : normalizeTenantId tenantId = .ok tenantId
  lifetime : 60 ≤ lifetimeSeconds

/-- `_lease_values`. -/
def leaseValues (lease : CloudRuntimeLease) : LeaseRow :=
  { lease with archiveByteLength := lease.workspaceArchive.length }

/-- `_retry_values`. -/
def retryValues (candidate : CloudRuntimeLease) (row : LeaseRow) : LeaseRow :=
  { row with
    toRuntimeProgram := candidate.toRuntimeProgram
    requestFingerprint := candidate.requestFingerprint
    archiveByteLength := candidate.workspaceArchive.length
    status := .queued
    internalUrl := none
    workerId := none
    leaseOwner := none
    leaseExpiresAt := none
    expiresAt := candidate.expiresAt
    errorCode := none
    updatedAt := candidate.updatedAt }

/-- `_validate_retry`. -/
def validateRetry (existing candidate : CloudRuntimeLease) : Except CloudRuntimeError Unit :=
  if existing.status ∉ [CloudRuntimeStatus.failed, .interrupted] ∨
      candidate.requestLeaseFence ≤ existing.requestLeaseFence ∨
      existing.tenantId ≠ candidate.tenantId ∨
      existing.toRuntimeScope ≠ candidate.toRuntimeScope then
    .error (.idempotencyConflict "Cloud Runtime id is already bound to a different active request")
  else .ok ()

section Core

variable (x : RuntimeHashing) (repo : CloudRuntimeRepository)

def insertLease (candidate : CloudRuntimeLease) (s : Leases) :
    Except CloudRuntimeError (LeaseRow × Leases) :=
  if ∃ row ∈ s.rows, row.runtimeId = candidate.runtimeId then
    .error (.integrityError "uq_runtime_leases_runtime_id")
  else if ∃ row ∈ s.rows, row.tenantId = candidate.tenantId ∧ row.previewId = candidate.previewId then
    .error (.integrityError "uq_runtime_leases_tenant_preview")
  else
    match s.insertAll [leaseValues candidate] with
    | some t => .ok (leaseValues candidate, t)
    | none => .error (.integrityError "pk_runtime_leases")

/-- What the `UPDATE` of a retry selects. -/
def LeaseRow.Chosen (existing candidate : CloudRuntimeLease) (row : LeaseRow) : Prop :=
  row.key = (candidate.tenantId, candidate.runtimeId) ∧ row.status = existing.status ∧
    row.requestLeaseFence = existing.requestLeaseFence

instance {existing candidate : CloudRuntimeLease} :
    DecidablePred (LeaseRow.Chosen existing candidate) :=
  fun _ => inferInstanceAs (Decidable (_ ∧ _))

def retryLease (existing candidate : CloudRuntimeLease) (s : Leases) :
    Except CloudRuntimeError (LeaseRow × Leases) :=
  match s.oneOrNone (LeaseRow.Chosen existing candidate) with
  | none => .error (.runtimeError "Cloud Runtime enqueue lost its idempotent winner")
  | some row =>
    .ok (retryValues candidate row,
      s.update (LeaseRow.Chosen existing candidate) (retryValues candidate))

/-- The transaction of `enqueue`. -/
def enqueueRow (candidate : CloudRuntimeLease) (s : Leases) :
    Except CloudRuntimeError (LeaseRow × Leases) :=
  match s.find? (candidate.tenantId, candidate.runtimeId) with
  | none => insertLease candidate s
  | some row => do
    let existing ← leaseFromRow x.toSha256 row
    if existing.requestFingerprint = candidate.requestFingerprint then return (row, s)
    else
      validateRetry existing candidate
      retryLease existing candidate s

def enqueue (now : Time) (request : RuntimeStart) (s : Leases) : Outcome CloudRuntimeLease :=
  match CloudRuntimeLease.create x repo.tenantId request (now + seconds repo.lifetimeSeconds)
      now with
  | .error e => (.error e, s)
  | .ok candidate =>
    match enqueueRow x candidate s with
    | .error e => (.error e, s)
    | .ok (row, t) =>
      match leaseFromRow x.toSha256 row with
      | .error e => (.error e, t)
      | .ok persisted =>
        if persisted.requestFingerprint ≠ candidate.requestFingerprint then
          (.error (.idempotencyConflict
            "Cloud Runtime id is already bound to a different request"), t)
        else (.ok persisted, t)

/-- What `request_stop` assigns. -/
def stopValues (now : Time) (row : LeaseRow) : LeaseRow :=
  { row with
    status := .stopping
    internalUrl := none
    leaseOwner := none
    leaseExpiresAt := none
    errorCode := none
    updatedAt := now }

def requestStop (now : Time) (runtimeId : Uuid) (requestLeaseFence : Nat) (s : Leases) :
    Outcome CloudRuntimeLease :=
  match s.find? (repo.tenantId, runtimeId) with
  | none => (.error (.keyError s!"Cloud Runtime not found: {runtimeId}"), s)
  | some row =>
    match leaseFromRow x.toSha256 row with
    | .error e => (.error e, s)
    | .ok lease =>
      if lease.requestLeaseFence ≠ requestLeaseFence then
        (.error (.workerFence "Cloud Runtime stop request lost its Core fence"), s)
      else if lease.status = .stopped then (.ok lease, s)
      else
        let t := s.update (fun row => row.key = (repo.tenantId, runtimeId) ∧
          row.requestLeaseFence = requestLeaseFence) (stopValues now)
        (leaseFromRow x.toSha256 (stopValues now row), t)

end Core

section Workers

variable (x : Sha256)

/-- The predicate of `build_claim_runtime_statement`. -/
def LeaseRow.Claimable (now : Time) (row : LeaseRow) : Prop :=
  row.expiresAt > now ∧ (row.status = .queued ∨
    row.status ∈ [CloudRuntimeStatus.starting, .running, .stopping] ∧
      ∀ t ∈ row.leaseExpiresAt, t ≤ now)

instance {now : Time} {row : LeaseRow} : Decidable (row.Claimable now) :=
  inferInstanceAs (Decidable (_ ∧ _))

/-- The row that `build_claim_runtime_statement` selects, past those that others have locked. -/
def selectClaim (now : Time) (locked : List (String × Uuid)) (s : Leases) : Option LeaseRow :=
  (batch (byKeys (·.createdAt) (·.runtimeId)) 1
    (s.select fun row => row.Claimable now ∧ row.key ∉ locked)).head?

def claimAction : CloudRuntimeStatus → CloudRuntimeClaimAction
  | .queued => .start
  | .stopping => .stop
  | _ => .recover

def claimValues (now : Time) (ownerId : String) (leaseSeconds : Nat) (row : LeaseRow) : LeaseRow :=
  { row with
    status := if claimAction row.status = .start then .starting else row.status
    leaseOwner := some ownerId
    leaseExpiresAt := some (now + seconds leaseSeconds)
    leaseFence := row.leaseFence + 1
    attempts := row.attempts + 1
    updatedAt := now }

def claimNext (now : Time) (ownerId : String) (leaseSeconds : Nat)
    (locked : List (String × Uuid)) (s : Leases) : Outcome (Option CloudRuntimeClaim) :=
  if Text.strip ownerId = "" ∨ leaseSeconds < 1 then
    (.error (.valueError "Runtime claim owner and duration are required"), s)
  else
    match selectClaim now locked s with
    | none => (.ok none, s)
    | some row =>
      let t := s.update (fun r => r.key = row.key ∧ r.leaseFence = row.leaseFence)
        (claimValues now ownerId leaseSeconds)
      (do
        let lease ← leaseFromRow x (claimValues now ownerId leaseSeconds row)
        let claim ← CloudRuntimeClaim.validate ⟨lease, claimAction row.status⟩
        return some claim, t)

/-- The rows that a claim may still write. -/
def CloudRuntimeClaim.Holds (claim : CloudRuntimeClaim) (statuses : List CloudRuntimeStatus)
    (row : LeaseRow) : Prop :=
  row.key = (claim.lease.tenantId, claim.lease.runtimeId) ∧ row.status ∈ statuses ∧
    row.leaseOwner = claim.lease.leaseOwner ∧ row.leaseFence = claim.lease.leaseFence

instance {claim : CloudRuntimeClaim} {statuses : List CloudRuntimeStatus} :
    DecidablePred (claim.Holds statuses) := fun _ => inferInstanceAs (Decidable (_ ∧ _))

/-- `_fenced_update` and `_require_fence`. -/
def fencedUpdate (claim : CloudRuntimeClaim) (statuses : List CloudRuntimeStatus)
    (values : LeaseRow → LeaseRow) (hkey : ∀ row, (values row).key = row.key) (action : String)
    (s : Leases) : Outcome Unit :=
  let changed := (s.select (claim.Holds statuses)).length
  let t := s.update (claim.Holds statuses) values hkey
  if changed ≠ 1 then
    (.error (.workerFence s!"Cloud Runtime worker lost its fence during {action}"), t)
  else (.ok (), t)

def runningValues (now : Time) (runtimeId : Uuid) (workerId : String) (row : LeaseRow) : LeaseRow :=
  { row with
    status := .running
    internalUrl := some (internalUrl runtimeId)
    workerId := some workerId
    errorCode := none
    updatedAt := now }

def markRunning (now : Time) (claim : CloudRuntimeClaim) (workerId : String) : Leases → Outcome Unit :=
  fencedUpdate claim [.starting, .running] (runningValues now claim.lease.runtimeId workerId)
    (fun _ => rfl) "mark running"

/-- What ends a claim. -/
def endValues (now : Time) (status : CloudRuntimeStatus) (errorCode : Option String)
    (row : LeaseRow) : LeaseRow :=
  { row with
    status
    internalUrl := none
    leaseOwner := none
    leaseExpiresAt := none
    errorCode
    updatedAt := now }

def markStopped (now : Time) (claim : CloudRuntimeClaim) : Leases → Outcome Unit :=
  fencedUpdate claim [.stopping] (endValues now .stopped none) (fun _ => rfl) "mark stopped"

def markInterrupted (now : Time) (claim : CloudRuntimeClaim) (errorCode : String) :
    Leases → Outcome Unit :=
  fencedUpdate claim [.starting, .running, .stopping] (endValues now .interrupted (some errorCode))
    (fun _ => rfl) "mark interrupted"

/-- What `expire_due` selects. -/
def LeaseRow.Due (now : Time) (row : LeaseRow) : Prop :=
  row.expiresAt ≤ now ∧ row.status ∈ [CloudRuntimeStatus.queued, .starting, .running]

instance {now : Time} : DecidablePred (LeaseRow.Due now) :=
  fun _ => inferInstanceAs (Decidable (_ ∧ _))

def expireValues (now : Time) (row : LeaseRow) : LeaseRow :=
  { row with
    status := .stopping
    internalUrl := none
    leaseOwner := none
    leaseExpiresAt := none
    updatedAt := now }

def expireDue (now : Time) (s : Leases) : Nat × Leases :=
  ((s.select (LeaseRow.Due now)).length, s.update (LeaseRow.Due now) (expireValues now))

end Workers

end Fairy.CloudRuntime
