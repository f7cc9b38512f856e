import Fairy.Lib.Run
import Fairy.Workflow.Repository

namespace Fairy.Workflow

open Fairy.Lib

/-- One call of the repository, with its arguments. -/
inductive Op
  | create (run : WorkflowRun) (nodes : List WorkflowNode) (edges : List WorkflowEdge)
  | appendPlan (runId : Uuid) (expectedRevision : Nat) (reason : WorkflowPlanReason)
      (instructionId : Option Uuid) (nodes : List WorkflowNode) (edges : List WorkflowEdge)
  | claimReady (workerId : String) (leaseUntil : Time) (slots : Slots)
  | renew (c : WorkflowAttemptClaim) (leaseUntil : Time)
  | complete (c : WorkflowAttemptClaim) (result : Payload) (evidenceRefs : List String)
      (publicSummary : Option String)
  | retry (c : WorkflowAttemptClaim) (availableAt : Time) (errorCode : String)
  | defer (c : WorkflowAttemptClaim) (availableAt : Time) (result : Payload)
  | waitForApproval (c : WorkflowAttemptClaim) (result : Payload)
  | waitForInput (c : WorkflowAttemptClaim) (result : Payload)
  | fail (c : WorkflowAttemptClaim) (errorCode : String)
  | abandon (c : WorkflowAttemptClaim)
  | requestPause (runId : Uuid)
  | resume (runId : Uuid)
  | cancel (runId : Uuid)
  | reserveBudget (runId : Uuid) (modelRounds toolInvocations : Int)
  | upgradeBudget (runId : Uuid) (budget : WorkflowBudget)
  | addInstruction (runId : Uuid) (instruction : String) (expectedRevision : Nat)
      (idempotencyKey : String) (newId : Uuid)

inductive Reply
  | snapshot (snapshot : WorkflowSnapshot)
  | claims (claims : List WorkflowAttemptClaim)
  | flag (flag : Bool)
  | instruction (instruction : WorkflowInstruction)

/-- What a call answers, with the rows as it leaves them. -/
def Op.exec (op : Op) (t : Readings) (s : Store) : Except WorkflowError (Reply × Store) :=
  match op with
  | create run nodes edges => (s.create run nodes edges).map (Prod.map .snapshot id)
  | appendPlan runId revision reason instructionId nodes edges =>
    (s.appendPlan runId revision reason instructionId nodes edges t).map (Prod.map .snapshot id)
  | claimReady workerId leaseUntil slots =>
    (s.claimReady workerId leaseUntil slots t).map (Prod.map .claims id)
  | renew c leaseUntil => (s.renew c leaseUntil t).map (Prod.map .flag id)
  | complete c result evidenceRefs publicSummary =>
    (s.complete c result evidenceRefs publicSummary t).map (Prod.map .snapshot id)
  | retry c availableAt errorCode => (s.retry c availableAt errorCode t).map (Prod.map .snapshot id)
  | defer c availableAt result => (s.defer c availableAt result t).map (Prod.map .snapshot id)
  | waitForApproval c result => (s.waitForApproval c result t).map (Prod.map .snapshot id)
  | waitForInput c result => (s.waitForInput c result t).map (Prod.map .snapshot id)
  | fail c errorCode => (s.fail c errorCode t).map (Prod.map .snapshot id)
  | abandon c => (s.abandon c t).map (Prod.map .flag id)
  | requestPause runId => (s.requestPause runId t).map (Prod.map .snapshot id)
  | resume runId => (s.resume runId t).map (Prod.map .snapshot id)
  | cancel runId => (s.cancel runId t).map (Prod.map .snapshot id)
  | reserveBudget runId modelRounds toolInvocations =>
    (s.reserveBudget runId modelRounds toolInvocations t).map (Prod.map .snapshot id)
  | upgradeBudget runId budget => (s.upgradeBudget runId budget t).map (Prod.map .snapshot id)
  | addInstruction runId instruction revision key newId =>
    (s.addInstruction runId instruction revision key newId t.first).map (Prod.map .instruction id)

/-- The committed rows after a call: the unit of work of a call that raises is
rolled back. -/
def Op.after (op : Op) (t : Readings) (s : Store) : Store :=
  match op.exec t s with
  | .ok (_, s') => s'
  | .error _ => s

/-- A call together with the clock readings it takes. -/
structure Call where
  op : Op
  readings : Readings

/-- The committed rows and the latest reading of the clock. -/
structure Config where
  store : Store
  clock : Time

def Config.after (σ : Config) (call : Call) : Config :=
  ⟨call.op.after call.readings σ.store, call.readings.third⟩

/-- One call, made at or after the latest clock reading so far. -/
def Step (σ : Config) (call : Call) (τ : Config) : Prop :=
  σ.clock ≤ call.readings.first ∧ τ = σ.after call

/-- Runs from a state, all of whose calls are made as `ok` admits them. -/
abbrev Runs (ok : Config → Call → Prop) : Config → Config → Prop := Run Step ok

/-- The states reached from the empty store by such runs. -/
def Reachable (ok : Config → Call → Prop) (τ : Config) : Prop :=
  ∃ clock, Runs ok ⟨.empty, clock⟩ τ

/-- Any call at all. -/
def AnyCall (_ : Config) (_ : Call) : Prop := True

theorem Step.clock_le {σ τ : Config} {call : Call} (h : Step σ call τ) : σ.clock ≤ τ.clock := by
  obtain ⟨hle, rfl⟩ := h
  exact hle.trans (call.readings.le_second.trans call.readings.le_third)

/-- What every admitted step keeps of a state reached from the empty store. -/
theorem Reachable.invariant {ok : Config → Call → Prop} {I : Config → Prop} {τ : Config}
    (h : Reachable ok τ) (hi : ∀ clock, I ⟨.empty, clock⟩)
    (hk : ∀ σ call τ, I σ → ok σ call → Step σ call τ → I τ) : I τ := by
  obtain ⟨clock, h⟩ := h
  exact h.invariant hk (hi clock)

theorem Reachable.mono {ok ok' : Config → Call → Prop} {τ : Config} (h : Reachable ok τ)
    (hw : ∀ σ call, ok σ call → ok' σ call) : Reachable ok' τ := by
  obtain ⟨clock, h⟩ := h
  exact ⟨clock, h.mono hw⟩

theorem Reachable.any {ok : Config → Call → Prop} {τ : Config} (h : Reachable ok τ) :
    Reachable AnyCall τ := h.mono fun _ _ _ => trivial

theorem Reachable.runs {ok : Config → Call → Prop} {σ τ : Config} (h : Reachable ok σ)
    (hr : Runs ok σ τ) : Reachable ok τ := by
  obtain ⟨clock, h⟩ := h
  exact ⟨clock, h.trans hr⟩

/-- The calls can be made one after the other, each as `ok` admits it. -/
def Admitted (ok : Config → Call → Prop) : Config → List Call → Prop
  | _, [] => True
  | σ, call :: calls =>
    σ.clock ≤ call.readings.first ∧ ok σ call ∧ Admitted ok (σ.after call) calls

instance (ok : Config → Call → Prop) [∀ σ call, Decidable (ok σ call)] :
    ∀ (σ : Config) (calls : List Call), Decidable (Admitted ok σ calls)
  | _, [] => inferInstanceAs (Decidable True)
  | σ, call :: calls =>
    have := instDecidableAdmitted ok (σ.after call) calls
    inferInstanceAs (Decidable (_ ∧ _ ∧ _))

instance (σ : Config) (call : Call) : Decidable (AnyCall σ call) :=
  inferInstanceAs (Decidable True)

theorem Admitted.runs {ok : Config → Call → Prop} {σ : Config} {calls : List Call}
    (h : Admitted ok σ calls) : Runs ok σ (calls.foldl Config.after σ) := by
  induction calls generalizing σ with
  | nil => exact .refl
  | cons call calls ih => exact (Run.single h.2.1 ⟨h.1, rfl⟩).trans (ih h.2.2)

def Readings.instant (now : Time) : Readings := ⟨now, now, now, le_rfl, le_rfl⟩

/-- A call all of whose clock readings agree. -/
def Op.at (op : Op) (now : Time) : Call := ⟨op, .instant now⟩

/-- The state the calls lead to from the empty store. -/
def played (calls : List Call) : Config := calls.foldl Config.after ⟨.empty, 0⟩

theorem reachable_played {ok : Config → Call → Prop} {calls : List Call}
    (h : Admitted ok ⟨.empty, 0⟩ calls) : Reachable ok (played calls) := ⟨0, h.runs⟩

/-- A run to try things on. -/
def sampleRun : WorkflowRun where
  id := 1
  ownerKind := "task"
  ownerId := "1"
  executionTarget := .local
  parentRunId := none
  status := .queued
  budget := .normal
  modelRoundsUsed := 0
  toolInvocationsUsed := 0
  activePlanRevision := 1
  cancellationRevision := 0
  engineVersion := 1
  pauseRequested := false
  idempotencyKey := "key"
  errorCode := none
  createdAt := 0
  updatedAt := 0
  startedAt := none
  completedAt := none

/-- A node of the first plan of that run. -/
def sampleNode (id : Uuid) (policy : WorkflowConcurrencyPolicy) (maxAttempts : Nat) :
    WorkflowNode where
  id := id
  runId := 1
  planRevision := 1
  nodeKey := toString id
  kind := "step"
  payloadVersion := 1
  status := .pending
  concurrencyPolicy := policy
  resourceKeys := []
  maxAttempts := maxAttempts
  attemptCount := 0
  availableAt := 0
  publicSummary := "step"
  result := none
  evidenceRefs := []
  errorCode := none
  createdAt := 0
  updatedAt := 0
  startedAt := none
  completedAt := none

/-- The claim a worker holds on the given attempt of such a node. -/
def sampleClaim (nodeId : Uuid) (attempt : Nat) (leaseUntil : Time) : WorkflowAttemptClaim where
  runId := 1
  nodeId := nodeId
  attemptNumber := attempt
  leaseOwner := "worker"
  leaseFence := attempt
  leaseUntil := leaseUntil
  cancellationRevision := 0
  planRevision := 1

def sampleSlots (limit : Nat) : Slots := ⟨limit, [], false⟩

end Fairy.Workflow
