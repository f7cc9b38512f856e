import Fairy.CloudRuntime.Repository
import Fairy.Lib.Run

namespace Fairy.CloudRuntime

open Fairy.Lib
open Fairy.Commanding (Uuid Time)

/-- What takes a lease out of the hands of the worker that holds it, or hands it to one. -/
inductive LeaseEvent
  | enqueued (key : String × Uuid)
  | stopRequested (key : String × Uuid)
  | expired (key : String × Uuid)
  | claimed (claim : CloudRuntimeClaim)
  deriving DecidableEq

def CloudRuntimeLease.key (lease : CloudRuntimeLease) : String × Uuid :=
  (lease.tenantId, lease.runtimeId)

def LeaseEvent.key : LeaseEvent → String × Uuid
  | .enqueued key | .stopRequested key | .expired key => key
  | .claimed claim => claim.lease.key

/-- The table, and what has happened to its leases so far. -/
structure World where
  clock : Time
  leases : Leases
  log : List LeaseEvent

def World.empty : World := ⟨0, .empty, []⟩

/-- A call of Core or of a worker, at a time. -/
inductive Call (x : RuntimeHashing)
  | enqueue (repo : CloudRuntimeRepository) (now : Time) (request : DynamicRuntimeStart x.toSha256)
  | requestStop (repo : CloudRuntimeRepository) (now : Time) (runtimeId : Uuid)
      (requestLeaseFence : Nat)
  | claimNext (now : Time) (ownerId : String) (leaseSeconds : Nat)
      (locked : List (String × Uuid))
  | markRunning (now : Time) (claim : CloudRuntimeClaim) (workerId : String)
  | markStopped (now : Time) (claim : CloudRuntimeClaim)
  | markInterrupted (now : Time) (claim : CloudRuntimeClaim) (errorCode : String)
  | expireDue (now : Time)

variable {x : RuntimeHashing}

def Call.now : Call x → Time
  | .enqueue _ now _ | .requestStop _ now _ _ | .claimNext now _ _ _ | .markRunning now _ _
  | .markStopped now _ | .markInterrupted now _ _ | .expireDue now => now

/-- The clock does not go back, a worker has only the claims that it was given, and its identity
and its error codes are not empty. -/
def Admitted (w : World) (call : Call x) : Prop :=
  w.clock ≤ call.now ∧
    match call with
    | .markRunning _ claim workerId => .claimed claim ∈ w.log ∧ workerId ≠ ""
    | .markStopped _ claim => .claimed claim ∈ w.log
    | .markInterrupted _ claim errorCode => .claimed claim ∈ w.log ∧ errorCode ≠ ""
    | _ => True

namespace World

variable (w : World)

/-- The world after a call that left a table, with what the call did. -/
def after (now : Time) (t : Leases) (events : List LeaseEvent) : World :=
  ⟨now, t, w.log ++ events⟩

def enqueueEvents (key : String × Uuid) (s t : Leases) : List LeaseEvent :=
  if s.find? key = t.find? key then [] else [.enqueued key]

def claimEvents : Except CloudRuntimeError (Option CloudRuntimeClaim) → List LeaseEvent
  | .ok (some claim) => [.claimed claim]
  | _ => []

def stopEvents (key : String × Uuid) : Except CloudRuntimeError CloudRuntimeLease → List LeaseEvent
  | .ok _ => [.stopRequested key]
  | .error _ => []

def perform : Call x → World
  | .enqueue repo now request =>
    let result := enqueue x repo now request.toRuntimeStart w.leases
    w.after now result.2 (enqueueEvents (repo.tenantId, request.runtimeId) w.leases result.2)
  | .requestStop repo now runtimeId requestLeaseFence =>
    let result := requestStop x repo now runtimeId requestLeaseFence w.leases
    w.after now result.2 (stopEvents (repo.tenantId, runtimeId) result.1)
  | .claimNext now ownerId leaseSeconds locked =>
    let result := claimNext x.toSha256 now ownerId leaseSeconds locked w.leases
    w.after now result.2 (claimEvents result.1)
  | .markRunning now claim workerId => w.after now (markRunning now claim workerId w.leases).2 []
  | .markStopped now claim => w.after now (markStopped now claim w.leases).2 []
  | .markInterrupted now claim errorCode =>
    w.after now (markInterrupted now claim errorCode w.leases).2 []
  | .expireDue now =>
    w.after now (expireDue now w.leases).2
      ((w.leases.select (LeaseRow.Due now)).map fun row => .expired row.key)

end World

/-- One call, from one table to the next. -/
def Step (w : World) (call : Call x) (w' : World) : Prop := w' = w.perform call

section Moves

/-- What one call does to one row, with the events of the row. -/
inductive Move (x : Sha256) (now : Time) (row : LeaseRow) : LeaseRow → List LeaseEvent → Prop
  | kept : Move x now row row []
  | stopped (hstatus : row.status = .stopped) : Move x now row row [.stopRequested row.key]
  | requeued (candidate : CloudRuntimeLease) (hcandidate : (leaseValues candidate).Sound x)
      (hcreated : row.createdAt ≤ candidate.createdAt)
      (hstatus : row.status ∈ [CloudRuntimeStatus.failed, .interrupted])
      (hfence : row.requestLeaseFence < candidate.requestLeaseFence)
      (hscope : row.tenantId = candidate.tenantId ∧ row.toRuntimeScope = candidate.toRuntimeScope)
      (hqueued : candidate.status = .queued) :
      Move x now row (retryValues candidate row) [.enqueued row.key]
  | stopping (hstatus : row.status ≠ .stopped) :
      Move x now row (stopValues now row) [.stopRequested row.key]
  | claimed (ownerId : String) (leaseSeconds : Nat) (hclaimable : row.Claimable now)
      (howner : ownerId ≠ "") (hseconds : 1 ≤ leaseSeconds) :
      Move x now row (claimValues now ownerId leaseSeconds row)
        [.claimed ⟨(claimValues now ownerId leaseSeconds row).toCloudRuntimeLease,
          claimAction row.status⟩]
  | running (claim : CloudRuntimeClaim) (workerId : String)
      (hholds : claim.Holds [.starting, .running] row) (hworker : workerId ≠ "") :
      Move x now row (runningValues now claim.lease.runtimeId workerId row) []
  | ended (claim : CloudRuntimeClaim) (hholds : claim.Holds [.stopping] row) :
      Move x now row (endValues now .stopped none row) []
  | interrupted (claim : CloudRuntimeClaim) (errorCode : String)
      (hholds : claim.Holds [.starting, .running, .stopping] row) (herror : errorCode ≠ "") :
      Move x now row (endValues now .interrupted (some errorCode) row) []
  | expired (hdue : row.Due now) : Move x now row (expireValues now row) [.expired row.key]

end Moves

end Fairy.CloudRuntime
