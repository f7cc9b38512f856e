import Fairy.Lib.Run
import Fairy.Realtime.Coordinator

namespace Fairy.Realtime

open Fairy.Lib

/-- The calls of the worker host. -/
inductive CoordinatorCall
  | apply (event : RealtimeCoordinatorEvent)
  | observeActivityCandidate (sequence : UInt64) (candidate : RealtimeDialogueCandidate)
  | recordMeaningfulActivity (nowMs : UInt64)
  | tick (nowMs : UInt64)
  | prepareWake (nextSegmentId : Option String)
  | prepareContextRotation (reason : ContextRotationReason)
  | prepareStandbyContextRotation (reason : ContextRotationReason)
  | commitContextRotationAt (nextEpoch nowMs : UInt64)
  | commitCloudWake (nextSegmentId : String) (nowMs : UInt64)
  | commitLocalWake (nextSegmentId : String) (nowMs : UInt64)
  | failContextRotation
  | projectWorkerEvent (event : WorkerEvent)
  | projectHostState (state : RealtimePresenceState)
  | projectFairySpeech (speaking : Bool)
  deriving DecidableEq

/-- What a call returns, as far as it can fail, and the state after it. -/
def RealtimeCoordinatorState.call (s : RealtimeCoordinatorState) : CoordinatorCall → Outcome Unit
  | .apply event => s.apply event
  | .observeActivityCandidate sequence candidate =>
    (.ok (), (s.observeActivityCandidate sequence candidate).2)
  | .recordMeaningfulActivity nowMs => (.ok (), (s.recordMeaningfulActivity nowMs).2)
  | .tick nowMs => (.ok (), (s.tick nowMs).2)
  | .prepareWake nextSegmentId =>
    ((s.prepareWake nextSegmentId).1.map fun _ => (), (s.prepareWake nextSegmentId).2)
  | .prepareContextRotation reason => s.rotateContext reason
  | .prepareStandbyContextRotation reason =>
    ((s.prepareStandbyContextRotation reason).1.map fun _ => (),
      (s.prepareStandbyContextRotation reason).2)
  | .commitContextRotationAt nextEpoch nowMs => s.commitContextRotationAt nextEpoch nowMs
  | .commitCloudWake nextSegmentId nowMs => s.commitCloudWake nextSegmentId nowMs
  | .commitLocalWake nextSegmentId nowMs => s.commitLocalWake nextSegmentId nowMs
  | .failContextRotation => s.failContextRotation
  | .projectWorkerEvent event => (.ok (), (s.projectWorkerEvent event).2)
  | .projectHostState state => (.ok (), (s.projectHostState state).2)
  | .projectFairySpeech speaking => (.ok (), (s.projectFairySpeech speaking).2)

/-- The coordinator, and whether its segment has failed without being replaced since. -/
structure World where
  state : RealtimeCoordinatorState
  failed : Bool
  deriving DecidableEq

namespace World

/-- A failure lasts until a segment of a higher ordinal is approved or recovered. -/
def failedAfter (w : World) (s : RealtimeCoordinatorState) : CoordinatorCall → Bool
  | .apply .backendFailed => w.failed || w.state.status = .active
  | .failContextRotation => true
  | .apply (.userApprovedBackendChange ..) | .apply (.recoverLocalSegment ..) =>
    w.failed && !decide (w.state.segment.ordinal < s.segment.ordinal)
  | _ => w.failed

def after (w : World) (c : CoordinatorCall) : World :=
  ⟨(w.state.call c).2, w.failedAfter (w.state.call c).2 c⟩

def Step (w : World) (c : CoordinatorCall) (w' : World) : Prop := w' = w.after c

end World

namespace RealtimeCoordinatorState

/-- The pending transitions agree with the status. -/
structure Coherent (s : RealtimeCoordinatorState) : Prop where
  wake : s.pendingLocalWake ≠ none ∨ s.pendingCloudWake ≠ none →
    s.status = .standby ∧ s.actionRequired = false ∧ s.pendingContextRotation = none
  single : s.pendingLocalWake = none ∨ s.pendingCloudWake = none
  settled : s.status = .privacyPaused ∨ s.status = .ended → s.pendingContextRotation = none

/-- The media are on in an active session with nothing pending and no failure only. -/
def Gated (s : RealtimeCoordinatorState) (failed : Bool) : Prop :=
  s.mediaGenerationEnabled = true → s.status = .active ∧ s.actionRequired = false ∧
    s.transitionPending = false ∧ failed = false

variable {s : RealtimeCoordinatorState} {failed : Bool}

theorem transitionPending_eq_false : s.transitionPending = false ↔
    s.pendingContextRotation = none ∧ s.pendingLocalWake = none ∧ s.pendingCloudWake = none := by
  simp [transitionPending, and_assoc]

section Presence

variable (s)

/-- To set the presence changes nothing else. -/
theorem setPresence_snd (state : RealtimePresenceState) (level : Option UInt8) :
    ∃ p, (s.setPresence state level).2 = { s with presence := p } := by
  simp only [setPresence]
  split
  · exact ⟨_, rfl⟩
  · split
    · exact ⟨_, rfl⟩
    · exact ⟨_, rfl⟩

theorem shown_eq (state : RealtimePresenceState) :
    ∃ p, s.shown state = { s with presence := p } :=
  ({ s with presence := { s.presence with
      backgroundState := state, backgroundLevel := none, fairySpeechActive := false } }
    : RealtimeCoordinatorState).setPresence_snd state none

theorem showing_snd (state : RealtimePresenceState) : (s.showing state).2 = s.shown state := rfl

theorem projected_snd (r : Outcome Bool) : (projected r).2 = r.2 := by
  simp only [projected]
  split <;> rfl

theorem projectWorkerEvent_snd (event : WorkerEvent) :
    ∃ p, (s.projectWorkerEvent event).2 = { s with presence := p } := by
  simp only [projectWorkerEvent]
  split
  · exact ⟨_, rfl⟩
  · split
    · exact ⟨_, rfl⟩
    · split
      · exact ⟨_, rfl⟩
      · rw [projected_snd]
        exact setPresence_snd _ _ _

theorem projectHostState_snd (state : RealtimePresenceState) :
    ∃ p, (s.projectHostState state).2 = { s with presence := p } := by
  simp only [projectHostState]
  split
  · exact ⟨_, rfl⟩
  · rw [projected_snd]
    exact s.shown_eq state

theorem projectFairySpeech_snd (speaking : Bool) :
    ∃ p, (s.projectFairySpeech speaking).2 = { s with presence := p } := by
  simp only [projectFairySpeech]
  split
  · exact ⟨_, rfl⟩
  · rw [projected_snd]
    split <;> exact setPresence_snd _ _ _

end Presence

theorem Coherent.present (h : s.Coherent) (p : Presence) :
    ({ s with presence := p } : RealtimeCoordinatorState).Coherent := ⟨h.wake, h.single, h.settled⟩

theorem Coherent.shown (h : s.Coherent) (state : RealtimePresenceState) :
    (s.shown state).Coherent := by
  obtain ⟨p, hp⟩ := s.shown_eq state
  rw [hp]
  exact h.present p

/-- A state with nothing pending is coherent. -/
theorem Coherent.of_none (h : s.transitionPending = false) : s.Coherent := by
  obtain ⟨hrotation, hlocal, hcloud⟩ := transitionPending_eq_false.mp h
  exact ⟨by simp [hlocal, hcloud], .inl hlocal, fun _ => hrotation⟩

/-- Outside standby no wake is pending. -/
theorem Coherent.no_wake (h : s.Coherent) (hs : s.status ≠ .standby) :
    s.pendingLocalWake = none ∧ s.pendingCloudWake = none := by
  constructor
  · by_contra hne
    exact hs (h.wake (.inl hne)).1
  · by_contra hne
    exact hs (h.wake (.inr hne)).1

theorem Coherent.no_wake_of_rotation (h : s.Coherent) (hr : s.pendingContextRotation ≠ none) :
    s.pendingLocalWake = none ∧ s.pendingCloudWake = none := by
  constructor
  · by_contra hne
    exact hr (h.wake (.inl hne)).2.2
  · by_contra hne
    exact hr (h.wake (.inr hne)).2.2

theorem start_coherent {request : RealtimeCoordinatorStart} (h : start request = .ok s) :
    s.Coherent ∧ s.Gated false := by
  simp only [start] at h
  split at h
  · cases h
  · obtain rfl := Except.ok.inj h
    exact ⟨.of_none rfl, fun _ => ⟨rfl, rfl, rfl, rfl⟩⟩

end RealtimeCoordinatorState

end Fairy.Realtime
