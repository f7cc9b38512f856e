import Fairy.Realtime.Models

namespace Fairy.Realtime

/-- Where a worker event belongs. -/
structure EventSource where
  sessionId : String
  segmentId : String
  contextEpoch : UInt64
  deriving DecidableEq

/-- A `WorkerEvent`, with the fields that the presence is computed from. -/
inductive WorkerEvent
  | ready
  | startupStage
  | backendState (source : EventSource) (status : String)
  | modelLoadProgress (source : EventSource)
  | sessionState (source : EventSource) (status : String)
  | publicCaption (source : EventSource)
  | presence (source : EventSource) (state : String) (level : Option UInt8)
  | bargeIn (source : EventSource)
  | mediaChannelState
  | captureSourceChanged
  | perceptionCandidate (source : EventSource)
  | assistanceRequest (source : EventSource)
  | assistanceState (source : EventSource) (status : String)
  | toolRequest (source : EventSource)
  | resourcePressure (source : EventSource)
  | resourceSample
  | resourcePolicyApplied (source : EventSource) (level : RealtimeResourceLevel)
  | localSidecarFailure
  | localBackendUnloaded
  | contextRotated (source : EventSource)
  | segmentWoken (source : EventSource)
  | privacyPaused (source : EventSource)
  | usage
  | diagnostic
  | pong
  deriving DecidableEq

def mapBackendState (status : String) : Option RealtimePresenceState :=
  if status ∈ ["preparing", "starting"] then some .preparing
  else if status ∈ ["loading", "loading_model"] then some .loadingModel
  else if status ∈ ["connecting", "ready"] then some .connecting
  else if status ∈ ["failed", "interrupted"] then some .error
  else none

def mapSessionState (status : String) : Option RealtimePresenceState :=
  if status = "starting" then some .preparing
  else if status ∈ ["active", "stopping"] then some .standby
  else if status ∈ ["completed", "cancelled"] then some .idle
  else if status ∈ ["failed", "interrupted"] then some .error
  else none

def mapWorkerPresence (state : String) : Option RealtimePresenceState :=
  if state ∈ ["active", "idle", "standby"] then some .standby
  else if state = "listening" then some .listening
  else if state = "observing" then some .observing
  else if state ∈ ["analyzing", "thinking"] then some .thinking
  else if state = "searching" then some .searching
  else if state = "speaking" then some .speaking
  else if state = "privacy_paused" then some .privacyPaused
  else if state = "resource_limited" then some .resourceLimited
  else if state = "error" then some .error
  else none

def resourcePolicyState (level : RealtimeResourceLevel) : RealtimePresenceState :=
  if level = .normal then .observing else .resourceLimited

def resourcePolicyLevel : RealtimeResourceLevel → Option UInt8
  | .normal => none
  | .pressure => some 1
  | .high => some 2
  | .critical => some 3
  | .deviceRemoved => some 4

def workerPresenceInput :
    WorkerEvent → Option (EventSource × RealtimePresenceState × Option UInt8)
  | .backendState source status => (mapBackendState status).map fun state => (source, state, none)
  | .modelLoadProgress source => some (source, .loadingModel, none)
  | .sessionState source status => (mapSessionState status).map fun state => (source, state, none)
  | .presence source state level =>
    (mapWorkerPresence state).map fun mapped => (source, mapped, level)
  | .bargeIn source | .publicCaption source => some (source, .listening, none)
  | .perceptionCandidate source => some (source, .thinking, none)
  | .assistanceRequest source | .toolRequest source => some (source, .searching, none)
  | .assistanceState source status =>
    some (source, if status = "pending" ∨ status = "running" then .searching else .thinking, none)
  | .resourcePressure source => some (source, .resourceLimited, none)
  | .resourcePolicyApplied source level =>
    some (source, resourcePolicyState level, resourcePolicyLevel level)
  | .contextRotated source | .segmentWoken source => some (source, .standby, none)
  | .privacyPaused source => some (source, .privacyPaused, none)
  | .ready | .startupStage | .mediaChannelState | .captureSourceChanged | .localSidecarFailure
  | .localBackendUnloaded | .resourceSample | .usage | .diagnostic | .pong => none

end Fairy.Realtime
