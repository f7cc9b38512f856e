import Fairy.Realtime.WorkerEvents

namespace Fairy.Realtime

def defaultPresenceMaxMinutes : UInt16 := 240

def minuteMs : Nat := 60000

def standbyAfterMs : Nat := 3 * minuteMs

/-- The fields of the coordinator that make up its presence. -/
structure Presence where
  sequence : UInt64
  state : RealtimePresenceState
  level : Option UInt8
  backgroundState : RealtimePresenceState
  backgroundLevel : Option UInt8
  fairySpeechActive : Bool
  deriving DecidableEq

structure RealtimeCoordinatorState where
  identity : ContextEpochIdentity
  personaDigest : String
  backend : RealtimeBackendKind
  segment : BackendSegmentState
  activityProfile : RealtimeActivityProfile
  activityClassifier : RealtimeActivityClassifier
  interactionIntensity : RealtimeInteractionIntensity
  presenceMaxMinutes : UInt16
  localKeepWarmMinutes : UInt8
  status : RealtimeCoordinatorStatus
  mediaGenerationEnabled : Bool
  actionRequired : Bool
  presence : Presence
  pendingContextRotation : Option PendingContextRotation
  pendingLocalWake : Option PendingLocalWake
  pendingCloudWake : Option PendingCloudWake
  startedAtMs : UInt64
  lastActivityAtMs : UInt64
  localUnloadRequested : Bool
  localBackendUnloaded : Bool
  privacyResumeToStandby : Bool
  durationExtensionRequired : Bool
  standbyReason : Option RealtimeStandbyReason
  deriving DecidableEq

/-- What a method on `&mut self` comes to: what it has assigned before it fails stays. -/
abbrev Outcome (α : Type) :=
  Except RealtimeCoordinatorError α × RealtimeCoordinatorState

namespace RealtimeCoordinatorState

def start (request : RealtimeCoordinatorStart) :
    Except RealtimeCoordinatorError RealtimeCoordinatorState :=
  if !validIdentifier request.sessionId || !validIdentifier request.segmentId ||
      !validDigest request.personaDigest ||
      !backendProviderValid request.backend request.cloudProvider ||
      request.localKeepWarmMinutes > 30 then
    .error .invalidStart
  else
    .ok
      { identity := ⟨request.sessionId, request.segmentId, 1⟩
        personaDigest := request.personaDigest
        backend := request.backend
        segment :=
          { segmentId := request.segmentId
            ordinal := 1
            backend := request.backend
            cloudProvider := request.cloudProvider
            personaDigest := request.personaDigest
            creationReason := .initialResolution }
        activityProfile := request.activityProfile
        activityClassifier := .new request.activityProfile
        interactionIntensity := request.interactionIntensity
        presenceMaxMinutes := if request.presenceMaxMinutes = 0 then defaultPresenceMaxMinutes
          else request.presenceMaxMinutes
        localKeepWarmMinutes := request.localKeepWarmMinutes
        status := .active
        mediaGenerationEnabled := true
        actionRequired := false
        presence := ⟨1, .preparing, none, .preparing, none, false⟩
        pendingContextRotation := none
        pendingLocalWake := none
        pendingCloudWake := none
        startedAtMs := 0
        lastActivityAtMs := 0
        localUnloadRequested := false
        localBackendUnloaded := false
        privacyResumeToStandby := false
        durationExtensionRequired := false
        standbyReason := none }

variable (s : RealtimeCoordinatorState)

def setPresence (state : RealtimePresenceState) (level : Option UInt8) : Outcome Bool :=
  if s.presence.state = state ∧ s.presence.level = level then (.ok false, s)
  else
    match checkedSucc64 s.presence.sequence with
    | none => (.error .invalidTransition, s)
    | some sequence =>
      (.ok true, { s with
        presence := { s.presence with sequence := sequence, state := state, level := level } })

def setAuthoritativePresence (state : RealtimePresenceState) (level : Option UInt8) :
    Outcome Bool :=
  ({ s with
    presence := { s.presence with
      backgroundState := state, backgroundLevel := level, fairySpeechActive := false } }
    : RealtimeCoordinatorState).setPresence state level

/-- `self.set_authoritative_presence(state, None)?; Ok(())`. -/
def showing (state : RealtimePresenceState) : Outcome Unit :=
  let r := s.setAuthoritativePresence state none
  (r.1.map fun _ => (), r.2)

def prepareContextRotation (reason : ContextRotationReason) : Outcome PendingContextRotation :=
  if s.status ≠ .active then (.error .invalidTransition, s)
  else if s.pendingContextRotation.isSome then (.error .invalidTransition, s)
  else
    match checkedSucc64 s.identity.epoch with
    | none => (.error .epochOverflow, s)
    | some nextEpoch =>
      let pending := ⟨s.identity, nextEpoch, reason⟩
      (.ok pending,
        { s with pendingContextRotation := some pending, mediaGenerationEnabled := false })

def rotateContext (reason : ContextRotationReason) : Outcome Unit :=
  let r := s.prepareContextRotation reason
  (r.1.map fun _ => (), r.2)

/-- A new segment takes over, with nothing pending. -/
def onSegment (segmentId : String) : RealtimeCoordinatorState :=
  { s with
    identity := { s.identity with segmentId := segmentId, epoch := 1 }
    pendingContextRotation := none
    pendingLocalWake := none
    pendingCloudWake := none }

def userApprovedBackendChange (segmentId : String) (backend : RealtimeBackendKind)
    (cloudProvider : Option RealtimeCloudProviderKind) (personaDigest : String) : Outcome Unit :=
  if s.status ≠ .active then (.error .invalidTransition, s)
  else if personaDigest ≠ s.personaDigest then (.error .personaMismatch, s)
  else if !validIdentifier segmentId ∨ segmentId = s.identity.segmentId then
    (.error .invalidTransition, s)
  else if !backendProviderValid backend cloudProvider then (.error .invalidTransition, s)
  else
    let changed := { s.onSegment segmentId with backend := backend }
    match checkedSucc32 s.segment.ordinal with
    | none => (.error .invalidTransition, changed)
    | some ordinal =>
      ({ changed with
        segment := ⟨segmentId, ordinal, backend, cloudProvider, personaDigest,
          .userApprovedContinuation⟩
        actionRequired := false
        mediaGenerationEnabled := true
        status := .active
        localUnloadRequested := false
        localBackendUnloaded := false
        privacyResumeToStandby := false
        standbyReason := none } : RealtimeCoordinatorState).showing .preparing

def recoverLocalSegment (segmentId personaDigest : String) : Outcome Unit :=
  if s.status ≠ .active then (.error .invalidTransition, s)
  else if s.backend ≠ .localMiniCpmO45 ∨ !s.actionRequired ∨ personaDigest ≠ s.personaDigest ∨
      !validIdentifier segmentId ∨ segmentId = s.identity.segmentId then
    (.error (if personaDigest ≠ s.personaDigest then .personaMismatch else .invalidTransition), s)
  else
    let changed := s.onSegment segmentId
    match checkedSucc32 s.segment.ordinal with
    | none => (.error .invalidTransition, changed)
    | some ordinal =>
      ({ changed with
        segment := ⟨segmentId, ordinal, .localMiniCpmO45, none, personaDigest,
          .automaticRecovery⟩
        actionRequired := false
        mediaGenerationEnabled := true
        localUnloadRequested := false
        localBackendUnloaded := false
        privacyResumeToStandby := false
        standbyReason := none } : RealtimeCoordinatorState).showing .preparing

def localBackendUnload : Outcome Unit :=
  if s.backend ≠ .localMiniCpmO45 ∨ s.status ≠ .standby ∨ !s.localUnloadRequested ∨
      s.localBackendUnloaded then
    (.error .invalidTransition, s)
  else (.ok (), { s with localBackendUnloaded := true, mediaGenerationEnabled := false })

def setPolicy (profile : RealtimeActivityProfile)
    (interactionIntensity : RealtimeInteractionIntensity) : Outcome Unit :=
  if s.status ≠ .active then (.error .invalidTransition, s)
  else if profile = s.activityProfile ∧ interactionIntensity = s.interactionIntensity then
    (.ok (), s)
  else
    match ({ s with
      activityProfile := profile
      activityClassifier := .new profile
      interactionIntensity := interactionIntensity } : RealtimeCoordinatorState)
        |>.prepareContextRotation .profileChanged with
    | (.error e, s) => (.error e, s)
    | (.ok _, s) => s.showing .preparing

def pausePrivacy : Outcome Unit :=
  if s.status ≠ .active ∧ s.status ≠ .standby then (.error .invalidTransition, s)
  else
    ({ s with
      privacyResumeToStandby := s.status = .standby
      status := .privacyPaused
      mediaGenerationEnabled := false
      pendingContextRotation := none
      pendingLocalWake := none
      pendingCloudWake := none
      standbyReason := none } : RealtimeCoordinatorState).showing .privacyPaused

def resumePrivacy : Outcome Unit :=
  if s.status ≠ .privacyPaused then (.error .invalidTransition, s)
  else if s.privacyResumeToStandby then
    ({ s with
      privacyResumeToStandby := false
      status := .standby
      mediaGenerationEnabled := false } : RealtimeCoordinatorState).showing .standby
  else ({ s with status := .active } : RealtimeCoordinatorState).rotateContext .privacyResume

def extendPresence (additionalMinutes : UInt16) : Outcome Unit :=
  if additionalMinutes = 0 then (.error .invalidTransition, s)
  else
    match checkedAdd16 s.presenceMaxMinutes additionalMinutes with
    | none => (.error .durationOverflow, s)
    | some minutes =>
      if s.durationExtensionRequired then
        (.ok (), { s with
          presenceMaxMinutes := minutes
          durationExtensionRequired := false
          actionRequired := false })
      else (.ok (), { s with presenceMaxMinutes := minutes })

def finish : Outcome Unit :=
  ({ s with
    status := .ended
    mediaGenerationEnabled := false
    pendingContextRotation := none
    pendingLocalWake := none
    pendingCloudWake := none
    standbyReason := none
    privacyResumeToStandby := false } : RealtimeCoordinatorState).showing .idle

def backendFailed : Outcome Unit :=
  if s.status ≠ .active then (.error .invalidTransition, s)
  else
    ({ s with actionRequired := true, mediaGenerationEnabled := false }
      : RealtimeCoordinatorState).showing .error

def apply (event : RealtimeCoordinatorEvent) : Outcome Unit :=
  if s.status = .ended then (.error .terminal, s)
  else
    match event with
    | .rotateContext reason =>
      if s.status ≠ .active then (.error .invalidTransition, s) else s.rotateContext reason
    | .userApprovedBackendChange segmentId backend cloudProvider personaDigest =>
      s.userApprovedBackendChange segmentId backend cloudProvider personaDigest
    | .recoverLocalSegment segmentId personaDigest =>
      s.recoverLocalSegment segmentId personaDigest
    | .localBackendUnloaded => s.localBackendUnload
    | .setPolicy profile interactionIntensity => s.setPolicy profile interactionIntensity
    | .pausePrivacy => s.pausePrivacy
    | .resumePrivacy => s.resumePrivacy
    | .extendPresence additionalMinutes => s.extendPresence additionalMinutes
    | .end' => s.finish
    | .backendFailed => s.backendFailed

def observeActivityCandidate (sequence : UInt64) (candidate : RealtimeDialogueCandidate) :
    Option ActivityObservation × RealtimeCoordinatorState :=
  if s.status = .active ∧ s.actionRequired = false then
    let r := s.activityClassifier.observe sequence candidate
    (some r.1, { s with activityClassifier := r.2 })
  else (none, s)

def transitionPending : Bool :=
  s.pendingContextRotation.isSome || s.pendingLocalWake.isSome || s.pendingCloudWake.isSome

def recordMeaningfulActivity (nowMs : UInt64) : Bool × RealtimeCoordinatorState :=
  if s.status ≠ .active ∨ s.actionRequired ∨ s.transitionPending ∨ nowMs < s.lastActivityAtMs then
    (false, s)
  else (true, { s with lastActivityAtMs := nowMs })

/-- `set_authoritative_presence` whose failure is dropped. -/
def shown (state : RealtimePresenceState) : RealtimeCoordinatorState :=
  (s.setAuthoritativePresence state none).2

def enterStandby : List RealtimeCoordinatorAction × RealtimeCoordinatorState :=
  let idle := ({ s with
    status := .standby
    mediaGenerationEnabled := false
    standbyReason := some .inactivity
    localUnloadRequested := false
    localBackendUnloaded := false
    privacyResumeToStandby := false } : RealtimeCoordinatorState).shown .standby
  match s.backend with
  | .localMiniCpmO45 =>
    if s.localKeepWarmMinutes = 0 then
      ([.enterLocalStandby, .requestLocalUnload], { idle with localUnloadRequested := true })
    else ([.enterLocalStandby], idle)
  | .cloudLive => ([.enterCloudStandby], idle)

def tick (nowMs : UInt64) : List RealtimeCoordinatorAction × RealtimeCoordinatorState :=
  let idleMs := nowMs.toNat - s.lastActivityAtMs.toNat
  if s.status = .ended ∨ s.status = .privacyPaused ∨ s.transitionPending then ([], s)
  else if s.durationExtensionRequired = false ∧
      s.presenceMaxMinutes.toNat * minuteMs ≤ nowMs.toNat - s.startedAtMs.toNat then
    ([.requireDurationExtension], ({ s with
      durationExtensionRequired := true
      actionRequired := true
      status := .standby
      mediaGenerationEnabled := false
      standbyReason := some .durationLimit } : RealtimeCoordinatorState).shown .standby)
  else if s.actionRequired then ([], s)
  else if s.status = .active ∧ standbyAfterMs ≤ idleMs then s.enterStandby
  else if s.status = .standby ∧ s.backend = .localMiniCpmO45 ∧ s.localUnloadRequested = false ∧
      standbyAfterMs + s.localKeepWarmMinutes.toNat * minuteMs ≤ idleMs then
    ([.requestLocalUnload], { s with localUnloadRequested := true })
  else ([], s)

/-- The identifier of the segment that a wake asks for. -/
def nextSegment (nextSegmentId : Option String) : Option String :=
  nextSegmentId.filter fun id => validIdentifier id ∧ id ≠ s.identity.segmentId

def prepareWake (nextSegmentId : Option String) : Outcome RealtimeWakeTransition :=
  if s.status ≠ .standby ∨ s.actionRequired ∨ s.transitionPending then
    (.error .invalidTransition, s)
  else
    match s.backend with
    | .localMiniCpmO45 =>
      if s.localBackendUnloaded then
        match s.nextSegment nextSegmentId with
        | none => (.error .invalidTransition, s)
        | some id =>
          (.ok (.localSegment ⟨s.identity, id⟩),
            { s with pendingLocalWake := some ⟨s.identity, id⟩ })
      else if nextSegmentId.isSome then (.error .invalidTransition, s)
      else
        match checkedSucc64 s.identity.epoch with
        | none => (.error .epochOverflow, s)
        | some nextEpoch =>
          let pending := ⟨s.identity, nextEpoch, .standbyWake⟩
          (.ok (.local' pending), { s with pendingContextRotation := some pending })
    | .cloudLive =>
      match s.nextSegment nextSegmentId with
      | none => (.error .invalidTransition, s)
      | some id =>
        (.ok (.cloud ⟨s.identity, id⟩), { s with pendingCloudWake := some ⟨s.identity, id⟩ })

def prepareStandbyContextRotation (reason : ContextRotationReason) :
    Outcome PendingContextRotation :=
  if s.status ≠ .standby ∨ s.localBackendUnloaded ∨ s.transitionPending then
    (.error .invalidTransition, s)
  else
    match checkedSucc64 s.identity.epoch with
    | none => (.error .epochOverflow, s)
    | some nextEpoch =>
      let pending := ⟨s.identity, nextEpoch, reason⟩
      (.ok pending,
        { s with pendingContextRotation := some pending, mediaGenerationEnabled := false })

/-- The pending rotation that a commit is for. -/
def rotating (nextEpoch : UInt64) : Option PendingContextRotation :=
  s.pendingContextRotation.filter fun p => p.nextEpoch = nextEpoch ∧ p.current = s.identity

/-- The status once a rotation is committed. -/
def rotatedStatus (reason : ContextRotationReason) : RealtimeCoordinatorStatus :=
  if reason = .standbyWake then .active else s.status

def rotated (p : PendingContextRotation) (nextEpoch nowMs : UInt64) : RealtimeCoordinatorState :=
  let turned := { s with
    pendingContextRotation := none
    identity := { s.identity with epoch := nextEpoch }
    activityClassifier := s.activityClassifier.resetEpoch
    status := s.rotatedStatus p.reason
    mediaGenerationEnabled := s.rotatedStatus p.reason = .active }
  if p.reason = .standbyWake ∨ p.reason = .privacyResume then
    { turned with
      lastActivityAtMs := max nowMs s.lastActivityAtMs
      localUnloadRequested := false
      localBackendUnloaded := false
      privacyResumeToStandby := false
      standbyReason := none }
  else turned

def commitContextRotationAt (nextEpoch nowMs : UInt64) : Outcome Unit :=
  match s.rotating nextEpoch with
  | none => (.error .invalidTransition, s)
  | some p => (s.rotated p nextEpoch nowMs).showing .standby

/-- The segment of a wake takes over and the session is active again. -/
def woken (segment : BackendSegmentState) (nowMs : UInt64) : RealtimeCoordinatorState :=
  { s with
    identity := { s.identity with segmentId := segment.segmentId, epoch := 1 }
    segment := segment
    activityClassifier := s.activityClassifier.resetEpoch
    status := .active
    lastActivityAtMs := max nowMs s.lastActivityAtMs
    mediaGenerationEnabled := true
    localUnloadRequested := false
    localBackendUnloaded := false
    privacyResumeToStandby := false
    standbyReason := none }

def commitCloudWake (nextSegmentId : String) (nowMs : UInt64) : Outcome Unit :=
  match s.pendingCloudWake with
  | none => (.error .invalidTransition, s)
  | some pending =>
    if pending.current ≠ s.identity ∨ pending.nextSegmentId ≠ nextSegmentId then
      (.error .invalidTransition, s)
    else
      let taken := { s with pendingCloudWake := none }
      match checkedSucc32 s.segment.ordinal with
      | none =>
        (.error .invalidTransition,
          { taken with identity := { s.identity with segmentId := nextSegmentId, epoch := 1 } })
      | some ordinal =>
        (taken.woken ⟨nextSegmentId, ordinal, s.backend, s.segment.cloudProvider,
          s.personaDigest, .standbyWake⟩ nowMs).showing .standby

def commitLocalWake (nextSegmentId : String) (nowMs : UInt64) : Outcome Unit :=
  match s.pendingLocalWake with
  | none => (.error .invalidTransition, s)
  | some pending =>
    if pending.current ≠ s.identity ∨ pending.nextSegmentId ≠ nextSegmentId then
      (.error .invalidTransition, s)
    else
      let taken := { s with pendingLocalWake := none }
      match checkedSucc32 s.segment.ordinal with
      | none =>
        (.error .invalidTransition,
          { taken with identity := { s.identity with segmentId := nextSegmentId, epoch := 1 } })
      | some ordinal =>
        (taken.woken ⟨nextSegmentId, ordinal, .localMiniCpmO45, none, s.personaDigest,
          .standbyWake⟩ nowMs).showing .standby

def failContextRotation : Outcome Unit :=
  ({ s with
    pendingContextRotation := none
    pendingLocalWake := none
    pendingCloudWake := none
    actionRequired := true
    mediaGenerationEnabled := false
    standbyReason := none } : RealtimeCoordinatorState).showing .error

def presenceProjection : RealtimePresenceProjection where
  sessionId := s.identity.sessionId
  segmentId := s.identity.segmentId
  contextEpoch := s.identity.epoch
  sequence := s.presence.sequence
  state := s.presence.state
  level := s.presence.level
  personaDigest := s.personaDigest
  requestedActivityProfile := s.activityProfile
  effectiveActivity := s.activityClassifier.effectiveActivity
  interactionIntensity := s.interactionIntensity
  backend := s.backend
  cloudProvider := s.segment.cloudProvider
  standbyReason := s.standbyReason
  wakeAvailable := (s.status = .standby ∨ s.status = .privacyPaused) ∧ s.actionRequired = false
  durationExtensionRequired := s.durationExtensionRequired

/-- The projection of an outcome that changed what is shown. -/
def projected (r : Outcome Bool) : Option RealtimePresenceProjection × RealtimeCoordinatorState :=
  match r.1 with
  | .ok true => (some r.2.presenceProjection, r.2)
  | .ok false | .error _ => (none, r.2)

/-- A worker that is idle, listening, paused, limited or in error does not speak. -/
def silences (state : RealtimePresenceState) : Bool :=
  state ∈ [.idle, .listening, .privacyPaused, .resourceLimited, .error]

def projectWorkerEvent (event : WorkerEvent) :
    Option RealtimePresenceProjection × RealtimeCoordinatorState :=
  match workerPresenceInput event with
  | none => (none, s)
  | some (source, state, level) =>
    if s.status = .ended ∨ s.transitionPending ∨ source.sessionId ≠ s.identity.sessionId ∨
        source.segmentId ≠ s.identity.segmentId ∨ source.contextEpoch ≠ s.identity.epoch then
      (none, s)
    else
      let heard := { s with
        presence := { s.presence with
          backgroundState := state
          backgroundLevel := level
          fairySpeechActive := s.presence.fairySpeechActive && !silences state } }
      if heard.presence.fairySpeechActive then (none, heard)
      else projected (heard.setPresence state level)

def projectHostState (state : RealtimePresenceState) :
    Option RealtimePresenceProjection × RealtimeCoordinatorState :=
  if s.status = .ended then (none, s) else projected (s.setAuthoritativePresence state none)

def projectFairySpeech (speaking : Bool) :
    Option RealtimePresenceProjection × RealtimeCoordinatorState :=
  if s.status = .ended then (none, s)
  else
    let spoken := { s with presence := { s.presence with fairySpeechActive := speaking } }
    projected (if speaking then spoken.setPresence .speaking none
      else spoken.setPresence s.presence.backgroundState s.presence.backgroundLevel)

def acceptsResult (sessionId segmentId : String) (epoch : UInt64) : Bool :=
  s.status = .active ∧ s.actionRequired = false ∧ s.transitionPending = false ∧
    s.identity.sessionId = sessionId ∧ s.identity.segmentId = segmentId ∧ s.identity.epoch = epoch

end RealtimeCoordinatorState

end Fairy.Realtime
