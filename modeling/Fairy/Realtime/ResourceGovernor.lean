import Fairy.Realtime.Models
import Fairy.Lib.Chronicle
import Fairy.Lib.Run

namespace Fairy.Realtime

open Fairy.Lib

structure RealtimeResourcePolicy where
  level : RealtimeResourceLevel
  videoIntervalMs : Nat
  backgroundAnalysisAllowed : Bool
  userInitiatedOnly : Bool
  mediaPaused : Bool
  deriving DecidableEq

def RealtimeResourcePolicy.forLevel (level : RealtimeResourceLevel) : RealtimeResourcePolicy :=
  match level with
  | .normal => ⟨level, 1000, true, false, false⟩
  | .pressure => ⟨level, 2000, false, false, false⟩
  | .high => ⟨level, 4000, false, true, false⟩
  | .critical | .deviceRemoved => ⟨level, 0, false, true, true⟩

structure RealtimeResourceSample where
  budgetBytes : Option UInt64
  currentUsageBytes : Option UInt64
  allocationFailureCount : UInt8
  inferenceLatencyMs : UInt32
  captureFrameBacklog : UInt16
  deviceRemoved : Bool
  rendererHealthy : Bool
  targetChanged : Bool
  deriving DecidableEq

def minEscalationDwellMs : Nat := 2000

def minRecoveryDwellMs : Nat := 5000

def recoverySampleCount : Nat := 5

def maxInferenceLatencyMs : Nat := 60000

def maxCaptureBacklog : Nat := 120

def maxAllocationFailures : Nat := 32

/-- `saturating_add` of two `u8`. -/
def saturatingAdd8 (a b : Nat) : Nat := min (a + b) 255

/-- `saturating_add` of two `u64`. -/
def saturatingAdd64 (a b : Nat) : Nat := min (a + b) (18446744073709551615)

/-- `saturating_mul` of two `u64`. -/
def saturatingMul64 (a b : Nat) : Nat := min (a * b) (18446744073709551615)

namespace RealtimeResourceSample

def memoryValid (sample : RealtimeResourceSample) : Bool :=
  match sample.budgetBytes, sample.currentUsageBytes with
  | some budget, some usage => 0 < budget ∧ usage.toNat ≤ saturatingMul64 budget.toNat 4
  | none, none => true
  | _, _ => false

def isValid (sample : RealtimeResourceSample) : Bool :=
  sample.memoryValid ∧ sample.allocationFailureCount.toNat ≤ maxAllocationFailures ∧
    sample.inferenceLatencyMs.toNat ≤ maxInferenceLatencyMs ∧
    sample.captureFrameBacklog.toNat ≤ maxCaptureBacklog

/-- The budget and the usage, when both are there. -/
def memory (sample : RealtimeResourceSample) : Option (Nat × Nat) :=
  match sample.budgetBytes, sample.currentUsageBytes with
  | some budget, some usage => some (budget.toNat, usage.toNat)
  | _, _ => none

end RealtimeResourceSample

def rank : RealtimeResourceLevel → Nat
  | .normal => 0
  | .pressure => 1
  | .high => 2
  | .critical => 3
  | .deviceRemoved => 4

def maximum (left right : RealtimeResourceLevel) : RealtimeResourceLevel :=
  if rank left ≥ rank right then left else right

/-- The level of a signal with its three thresholds. -/
def thresholdLevel (pressure high critical value : Nat) : RealtimeResourceLevel :=
  if value < pressure then .normal
  else if value < high then .pressure
  else if value < critical then .high
  else .critical

def memoryLevel (sample : RealtimeResourceSample) : RealtimeResourceLevel :=
  match sample.memory with
  | none => .normal
  | some (budget, usage) =>
    -- `checked_div` has no quotient without a budget
    if budget = 0 then .critical else thresholdLevel 8000 9000 9600 (usage * 10000 / budget)

def classify (sample : RealtimeResourceSample) : RealtimeResourceLevel :=
  if sample.deviceRemoved then .deviceRemoved
  else
    let level := memoryLevel sample
    let level := maximum level (thresholdLevel 1 2 3 sample.allocationFailureCount.toNat)
    let level := maximum level (thresholdLevel 1000 2000 4000 sample.inferenceLatencyMs.toNat)
    let level := maximum level (thresholdLevel 2 4 8 sample.captureFrameBacklog.toNat)
    if sample.rendererHealthy then level else maximum level .high

/-- The part of the budget, in basis points, below which a level may be left. -/
def recoveryLimit : RealtimeResourceLevel → Nat
  | .pressure => 7500
  | .high => 8500
  | .critical => 9200
  | .normal | .deviceRemoved => 0

def signalSafe (level : RealtimeResourceLevel) (sample : RealtimeResourceSample) : Bool :=
  match level with
  | .pressure => sample.allocationFailureCount = 0 ∧ sample.inferenceLatencyMs < 800 ∧
      sample.captureFrameBacklog < 2
  | .high => sample.allocationFailureCount < 2 ∧ sample.inferenceLatencyMs < 1600 ∧
      sample.captureFrameBacklog < 4
  | .critical => sample.allocationFailureCount < 3 ∧ sample.inferenceLatencyMs < 3000 ∧
      sample.captureFrameBacklog < 8
  | .normal | .deviceRemoved => false

def safeToRecover (level : RealtimeResourceLevel) (sample : RealtimeResourceSample) : Bool :=
  if sample.deviceRemoved ∨ sample.rendererHealthy = false then false
  else
    let memorySafe : Bool := match sample.memory with
      | none => true
      | some (budget, usage) => usage * 10000 < budget * recoveryLimit level
    memorySafe && signalSafe level sample

inductive RealtimeResourceGovernorError
  | invalidSample | nonMonotonicClock
  deriving DecidableEq

structure RealtimeResourceGovernor where
  level : RealtimeResourceLevel
  enteredAtMs : Nat
  recoverySamples : Nat
  sampleCount : Nat
  lastSampleAtMs : Option Nat
  deriving DecidableEq

namespace RealtimeResourceGovernor

def new (nowMs : Nat) : RealtimeResourceGovernor := ⟨.normal, nowMs, 0, 0, none⟩

def transition (g : RealtimeResourceGovernor) (level : RealtimeResourceLevel) (nowMs : Nat) :
    RealtimeResourcePolicy × RealtimeResourceGovernor :=
  (.forLevel level, { g with level, enteredAtMs := nowMs, recoverySamples := 0 })

/-- What `observe` comes to: the new policy, if the level changes. -/
abbrev Outcome :=
  Except RealtimeResourceGovernorError (Option RealtimeResourcePolicy) × RealtimeResourceGovernor

def changed (g : RealtimeResourceGovernor) (level : RealtimeResourceLevel) (nowMs : Nat) :
    Outcome :=
  let (policy, g') := g.transition level nowMs
  (.ok (some policy), g')

/-- `observe`, once the sample has been counted; a difference of two clock readings is saturated. -/
def consider (g : RealtimeResourceGovernor) (sample : RealtimeResourceSample) (nowMs : Nat) :
    Outcome :=
  if g.level = .deviceRemoved then (.ok none, g)
  else
    let candidate := classify sample
    if candidate = .deviceRemoved then g.changed candidate nowMs
    else if rank candidate > rank g.level then
      let g := { g with recoverySamples := 0 }
      if candidate = .critical ∨ nowMs - g.enteredAtMs ≥ minEscalationDwellMs then
        g.changed candidate nowMs
      else (.ok none, g)
    else if candidate = g.level then (.ok none, { g with recoverySamples := 0 })
    else if sample.targetChanged ∨ safeToRecover g.level sample = false then
      (.ok none, { g with recoverySamples := 0 })
    else
      let g := { g with recoverySamples := saturatingAdd8 g.recoverySamples 1 }
      if g.recoverySamples < recoverySampleCount ∨
          nowMs - g.enteredAtMs < minRecoveryDwellMs then (.ok none, g)
      else g.changed candidate nowMs

def observe (g : RealtimeResourceGovernor) (sample : RealtimeResourceSample) (nowMs : Nat) :
    Outcome :=
  if sample.isValid = false then (.error .invalidSample, g)
  else if ∃ previous ∈ g.lastSampleAtMs, nowMs < previous then (.error .nonMonotonicClock, g)
  else
    consider { g with
      lastSampleAtMs := some nowMs
      sampleCount := saturatingAdd64 g.sampleCount 1 } sample nowMs

end RealtimeResourceGovernor

end Fairy.Realtime
