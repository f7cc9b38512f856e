import Mathlib.Data.List.Basic

namespace Fairy.Realtime

inductive RealtimeBackendKind
  | localMiniCpmO45 | cloudLive
  deriving DecidableEq

inductive RealtimeCloudProviderKind
  | geminiLive | glmRealtimeFlash | glmRealtimeAir
  deriving DecidableEq

inductive RealtimeActivityProfile
  | auto | game | focus
  deriving DecidableEq

inductive RealtimeInteractionIntensity
  | quiet | standard | active
  deriving DecidableEq

inductive RealtimeResourceLevel
  | normal | pressure | high | critical | deviceRemoved
  deriving DecidableEq

inductive RealtimePresenceState
  | idle | preparing | loadingModel | connecting | listening | observing | thinking | searching
  | speaking | standby | privacyPaused | resourceLimited | error
  deriving DecidableEq

inductive RealtimeStandbyReason
  | inactivity | durationLimit
  deriving DecidableEq

inductive BackendSegmentCreationReason
  | initialResolution | userApprovedContinuation | automaticRecovery | standbyWake
  deriving DecidableEq

inductive ContextRotationReason
  | privacyResume | profileChanged | windowChanged | standbyWake | manual
  deriving DecidableEq

structure RealtimeCoordinatorStart where
  sessionId : String
  segmentId : String
  personaDigest : String
  backend : RealtimeBackendKind
  cloudProvider : Option RealtimeCloudProviderKind
  activityProfile : RealtimeActivityProfile
  interactionIntensity : RealtimeInteractionIntensity
  presenceMaxMinutes : UInt16
  localKeepWarmMinutes : UInt8
  deriving DecidableEq

structure ContextEpochIdentity where
  sessionId : String
  segmentId : String
  epoch : UInt64
  deriving DecidableEq

structure BackendSegmentState where
  segmentId : String
  ordinal : UInt32
  backend : RealtimeBackendKind
  cloudProvider : Option RealtimeCloudProviderKind
  personaDigest : String
  creationReason : BackendSegmentCreationReason
  deriving DecidableEq

structure PendingContextRotation where
  current : ContextEpochIdentity
  nextEpoch : UInt64
  reason : ContextRotationReason
  deriving DecidableEq

structure PendingCloudWake where
  current : ContextEpochIdentity
  nextSegmentId : String
  deriving DecidableEq

structure PendingLocalWake where
  current : ContextEpochIdentity
  nextSegmentId : String
  deriving DecidableEq

inductive RealtimeCoordinatorAction
  | enterLocalStandby | enterCloudStandby | requestLocalUnload | requireDurationExtension
  deriving DecidableEq

inductive RealtimeWakeTransition
  | local' (pending : PendingContextRotation)
  | localSegment (pending : PendingLocalWake)
  | cloud (pending : PendingCloudWake)
  deriving DecidableEq

inductive RealtimeCoordinatorEvent
  | rotateContext (reason : ContextRotationReason)
  | userApprovedBackendChange (segmentId : String) (backend : RealtimeBackendKind)
    (cloudProvider : Option RealtimeCloudProviderKind) (personaDigest : String)
  | recoverLocalSegment (segmentId personaDigest : String)
  | localBackendUnloaded
  | setPolicy (profile : RealtimeActivityProfile)
    (interactionIntensity : RealtimeInteractionIntensity)
  | pausePrivacy
  | resumePrivacy
  | extendPresence (additionalMinutes : UInt16)
  | end'
  | backendFailed
  deriving DecidableEq

inductive RealtimeCoordinatorError
  | invalidStart | invalidTransition | personaMismatch | epochOverflow | durationOverflow
  | terminal
  deriving DecidableEq

inductive RealtimeCoordinatorStatus
  | active | standby | privacyPaused | ended
  deriving DecidableEq

structure RealtimePresenceProjection where
  sessionId : String
  segmentId : String
  contextEpoch : UInt64
  sequence : UInt64
  state : RealtimePresenceState
  level : Option UInt8
  personaDigest : String
  requestedActivityProfile : RealtimeActivityProfile
  effectiveActivity : RealtimeActivityProfile
  interactionIntensity : RealtimeInteractionIntensity
  backend : RealtimeBackendKind
  cloudProvider : Option RealtimeCloudProviderKind
  standbyReason : Option RealtimeStandbyReason
  wakeAvailable : Bool
  durationExtensionRequired : Bool
  deriving DecidableEq

/-- What the coordinator reads of a `RealtimeDialogueCandidate`; `confident` stands for the
comparison of its confidence with the classification threshold. -/
structure RealtimeDialogueCandidate where
  activity : RealtimeActivityProfile
  confident : Bool
  responseToUser : Bool
  grounding : List String
  deriving DecidableEq

structure ActivityObservation where
  effectiveActivity : RealtimeActivityProfile
  switched : Bool
  deriving DecidableEq

structure RealtimeActivityClassifier where
  requestedProfile : RealtimeActivityProfile
  effectiveActivity : RealtimeActivityProfile
  lastSequence : UInt64
  evidence : List RealtimeActivityProfile
  deriving DecidableEq

namespace RealtimeActivityClassifier

def classificationWindow : Nat := 5

def classificationStreak : Nat := 3

def new (requestedProfile : RealtimeActivityProfile) : RealtimeActivityClassifier where
  requestedProfile := requestedProfile
  effectiveActivity :=
    match requestedProfile with
    | .auto | .focus => .focus
    | .game => .game
  lastSequence := 0
  evidence := []

def qualifyingActivityEvidence (candidate : RealtimeDialogueCandidate) : Bool :=
  candidate.activity ≠ .auto && candidate.confident && !candidate.responseToUser &&
    candidate.grounding.any fun item => "current_window:".toList.isPrefixOf item.toList

def current (c : RealtimeActivityClassifier) (switched : Bool) : ActivityObservation :=
  ⟨c.effectiveActivity, switched⟩

/-- The evidence with one more item: a change of activity clears it, the window bounds it. -/
def extended (evidence : List RealtimeActivityProfile) (activity : RealtimeActivityProfile) :
    List RealtimeActivityProfile :=
  let kept := if ∀ value ∈ evidence.getLast?, value = activity then evidence else []
  let all := kept ++ [activity]
  all.drop (all.length - classificationWindow)

def observe (c : RealtimeActivityClassifier) (sequence : UInt64)
    (candidate : RealtimeDialogueCandidate) : ActivityObservation × RealtimeActivityClassifier :=
  if c.requestedProfile ≠ .auto ∨ sequence ≤ c.lastSequence then (c.current false, c)
  else
    let c := { c with lastSequence := sequence }
    if !qualifyingActivityEvidence candidate then
      let c := { c with evidence := [] }
      (c.current false, c)
    else
      let c := { c with evidence := extended c.evidence candidate.activity }
      let stable : Bool := classificationStreak ≤ c.evidence.length ∧
        ∀ value ∈ c.evidence.reverse.take classificationStreak, value = candidate.activity
      if !stable ∨ candidate.activity = c.effectiveActivity then (c.current false, c)
      else
        let c := { c with effectiveActivity := candidate.activity, evidence := [] }
        (c.current true, c)

def resetEpoch (c : RealtimeActivityClassifier) : RealtimeActivityClassifier :=
  { c with lastSequence := 0, evidence := [] }

end RealtimeActivityClassifier

/-- `char::is_whitespace`. -/
def isWhitespace (c : Char) : Bool :=
  (9 ≤ c.toNat ∧ c.toNat ≤ 13) ∨ (0x2000 ≤ c.toNat ∧ c.toNat ≤ 0x200a) ∨
    c.toNat ∈ [0x20, 0x85, 0xa0, 0x1680, 0x2028, 0x2029, 0x202f, 0x205f, 0x3000]

def validIdentifier (value : String) : Bool := value.toList.any fun c => !isWhitespace c

def validDigest (value : String) : Bool :=
  value.length = 64 ∧ value.toList.all fun c => c.isDigit || ('a' ≤ c && c ≤ 'f')

def backendProviderValid (backend : RealtimeBackendKind)
    (provider : Option RealtimeCloudProviderKind) : Bool :=
  match backend with
  | .localMiniCpmO45 => provider.isNone
  | .cloudLive => provider.isSome

/-- `checked_add(1)` on a `u64`. -/
def checkedSucc64 (x : UInt64) : Option UInt64 :=
  if x.toNat + 1 < UInt64.size then some (x + 1) else none

/-- `checked_add(1)` on a `u32`. -/
def checkedSucc32 (x : UInt32) : Option UInt32 :=
  if x.toNat + 1 < UInt32.size then some (x + 1) else none

/-- `checked_add` on a `u16`. -/
def checkedAdd16 (x y : UInt16) : Option UInt16 :=
  if x.toNat + y.toNat < UInt16.size then some (x + y) else none

theorem checkedSucc32_eq_some {x y : UInt32} (h : checkedSucc32 x = some y) : x < y := by
  simp only [checkedSucc32] at h
  split at h
  · obtain rfl := Option.some.inj h
    rw [UInt32.lt_iff_toNat_lt, UInt32.toNat_add, UInt32.toNat_one, Nat.mod_eq_of_lt ‹_›]
    exact Nat.lt_succ_self _
  · cases h

theorem checkedSucc32_lt {x y : UInt32} (h : checkedSucc32 x = some y) :
    x.toNat + 1 < UInt32.size := by
  simp only [checkedSucc32] at h
  split at h
  · assumption
  · cases h

theorem checkedSucc32_eq_none {x : UInt32} (h : checkedSucc32 x = none) :
    ¬ x.toNat + 1 < UInt32.size := by
  simp only [checkedSucc32] at h
  split at h
  · cases h
  · assumption

end Fairy.Realtime
