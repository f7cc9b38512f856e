import Fairy.Realtime.Transitions

namespace Fairy.Realtime

open Fairy.Lib

namespace RealtimeCoordinatorState

/-- A pending wake that a commit is for, with room for the ordinal of its segment. -/
def CloudWakes (s : RealtimeCoordinatorState) (nextSegmentId : String) : Prop :=
  s.pendingCloudWake = some ⟨s.identity, nextSegmentId⟩ ∧
    s.segment.ordinal.toNat + 1 < UInt32.size

def LocalWakes (s : RealtimeCoordinatorState) (nextSegmentId : String) : Prop :=
  s.pendingLocalWake = some ⟨s.identity, nextSegmentId⟩ ∧
    s.segment.ordinal.toNat + 1 < UInt32.size

/-- The commits after which the session is active: they turn the media on. -/
def Opens (s : RealtimeCoordinatorState) : CoordinatorCall → Prop
  | .commitContextRotationAt nextEpoch _ => ∃ p ∈ s.pendingContextRotation,
      p.nextEpoch = nextEpoch ∧ p.current = s.identity ∧
        (p.reason = .standbyWake ∨ s.status = .active)
  | .commitCloudWake nextSegmentId _ => s.CloudWakes nextSegmentId
  | .commitLocalWake nextSegmentId _ => s.LocalWakes nextSegmentId
  | _ => False

/-- Coherent, and gated as far as the calls before have met a condition. -/
structure Sound (s : RealtimeCoordinatorState) (kept : Prop) (failed : Bool) : Prop where
  coherent : s.Coherent
  gated : kept → s.Gated failed

variable {kept : Prop} {s : RealtimeCoordinatorState} {failed : Bool}

theorem Gated.of_off (h : s.mediaGenerationEnabled = false) : s.Gated failed :=
  fun hm => absurd (h.symm.trans hm) nofun

namespace Sound

theorem of_eq {p : Presence} {t : RealtimeCoordinatorState} (h : s.Sound kept failed)
    (ht : t = { s with presence := p }) : t.Sound kept failed := by
  rw [ht]
  exact ⟨h.coherent.present p, fun hk => h.gated hk⟩

theorem shown (h : s.Sound kept failed) (state : RealtimePresenceState) :
    (s.shown state).Sound kept failed := by
  obtain ⟨p, hp⟩ := s.shown_eq state
  exact h.of_eq hp

theorem of_none (h : s.transitionPending = false) (hg : kept → s.Gated failed) :
    s.Sound kept failed :=
  ⟨.of_none h, hg⟩

/-- With the media off and nothing pending there is nothing to agree. -/
theorem of_off (h : s.transitionPending = false)
    (hm : kept → s.mediaGenerationEnabled = false) : s.Sound kept failed :=
  ⟨.of_none h, fun hk => .of_off (hm hk)⟩

theorem on (h : s.transitionPending = false) (hs : s.status = .active)
    (ha : s.actionRequired = false) : s.Sound kept false :=
  ⟨.of_none h, fun _ _ => ⟨hs, ha, h, rfl⟩⟩

/-- A rotation is prepared with the media off. -/
theorem rotation {t : RealtimeCoordinatorState} (hl : t.pendingLocalWake = none)
    (hcl : t.pendingCloudWake = none) (hs : t.status = .active ∨ t.status = .standby)
    (hm : kept → t.mediaGenerationEnabled = false) : t.Sound kept failed := by
  refine ⟨⟨by simp [hl, hcl], .inl hl, fun ht => ?_⟩, fun hk => .of_off (hm hk)⟩
  obtain hs | hs := hs <;> rw [hs] at ht <;> simp at ht

theorem prepareContextRotation (h : s.Sound kept failed) (reason : ContextRotationReason) :
    (s.prepareContextRotation reason).2.Sound kept failed := by
  simp only [RealtimeCoordinatorState.prepareContextRotation]
  split
  · exact h
  · rename_i hactive
    have hactive : s.status = .active := not_not.mp hactive
    split
    · exact h
    · split
      · exact h
      · obtain ⟨hl, hc⟩ := h.coherent.no_wake (by simp [hactive])
        exact rotation hl hc (.inl hactive) fun _ => rfl

/-- A call that leaves the segment alone leaves a failure unresolved. -/
theorem same_segment {t : RealtimeCoordinatorState} (h : t.Sound kept failed)
    (hs : t.segment = s.segment) :
    t.Sound kept (failed && !decide (s.segment.ordinal < t.segment.ordinal)) := by
  have hlt : ¬ s.segment.ordinal < s.segment.ordinal := UInt32.lt_irrefl _
  rw [hs, decide_eq_false hlt]
  simpa using h

theorem onSegment (h : s.Sound kept failed) (hs : s.status = .active) (segmentId : String) :
    (s.onSegment segmentId).Sound kept failed :=
  of_none rfl fun hk hm => ⟨hs, (h.gated hk hm).2.1, rfl, (h.gated hk hm).2.2.2⟩

theorem replaced {t : RealtimeCoordinatorState} (h : t.transitionPending = false)
    (hs : t.status = .active) (ha : t.actionRequired = false) {ordinal : UInt32}
    (ho : checkedSucc32 s.segment.ordinal = some ordinal) (ht : t.segment.ordinal = ordinal)
    (state : RealtimePresenceState) : (t.showing state).2.Sound kept
      (failed && !decide (s.segment.ordinal < (t.showing state).2.segment.ordinal)) := by
  obtain ⟨p, hp⟩ := t.shown_eq state
  have hseg : (t.showing state).2.segment.ordinal = ordinal := by
    rw [showing_snd, hp]
    exact ht
  rw [hseg, decide_eq_true (checkedSucc32_eq_some ho), Bool.not_true, Bool.and_false]
  exact (on h hs ha).shown state

theorem userApprovedBackendChange (h : s.Sound kept failed) {segmentId personaDigest : String}
    {backend : RealtimeBackendKind} {cloudProvider : Option RealtimeCloudProviderKind} :
    (s.userApprovedBackendChange segmentId backend cloudProvider personaDigest).2.Sound kept
      (failed && !decide (s.segment.ordinal < (s.userApprovedBackendChange segmentId backend
        cloudProvider personaDigest).2.segment.ordinal)) := by
  simp only [RealtimeCoordinatorState.userApprovedBackendChange]
  split
  · exact h.same_segment rfl
  · rename_i hactive
    have hactive : s.status = .active := not_not.mp hactive
    split
    · exact h.same_segment rfl
    · split
      · exact h.same_segment rfl
      · split
        · exact h.same_segment rfl
        · have hchanged := h.onSegment hactive segmentId
          split
          · exact same_segment ⟨⟨hchanged.coherent.wake, hchanged.coherent.single,
              hchanged.coherent.settled⟩, hchanged.gated⟩ rfl
          · rename_i ordinal ho
            exact replaced rfl rfl rfl ho rfl .preparing

theorem recoverLocalSegment (h : s.Sound kept failed) {segmentId personaDigest : String} :
    (s.recoverLocalSegment segmentId personaDigest).2.Sound kept (failed && !decide
      (s.segment.ordinal < (s.recoverLocalSegment segmentId personaDigest).2.segment.ordinal)) := by
  simp only [RealtimeCoordinatorState.recoverLocalSegment]
  split
  · exact h.same_segment rfl
  · rename_i hactive
    have hactive : s.status = .active := not_not.mp hactive
    split
    · exact h.same_segment rfl
    · split
      · exact (h.onSegment hactive segmentId).same_segment rfl
      · rename_i ordinal ho
        refine replaced ?_ ?_ ?_ ho ?_ .preparing
        · rfl
        · exact hactive
        · rfl
        · rfl

theorem localBackendUnload (h : s.Sound kept failed) :
    s.localBackendUnload.2.Sound kept failed := by
  simp only [RealtimeCoordinatorState.localBackendUnload]
  split
  · exact h
  · exact ⟨⟨h.coherent.wake, h.coherent.single, h.coherent.settled⟩, fun _ => .of_off rfl⟩

theorem setPolicy (h : s.Sound kept failed) {profile : RealtimeActivityProfile}
    {intensity : RealtimeInteractionIntensity} :
    (s.setPolicy profile intensity).2.Sound kept failed := by
  simp only [RealtimeCoordinatorState.setPolicy]
  split
  · exact h
  · split
    · exact h
    · have hset : ({ s with
          activityProfile := profile
          activityClassifier := .new profile
          interactionIntensity := intensity } : RealtimeCoordinatorState).Sound kept failed :=
        ⟨⟨h.coherent.wake, h.coherent.single, h.coherent.settled⟩, h.gated⟩
      have hrotation := hset.prepareContextRotation .profileChanged
      split
      · rename_i hprepared
        rwa [hprepared] at hrotation
      · rename_i hprepared
        rw [hprepared] at hrotation
        exact hrotation.shown .preparing

theorem pausePrivacy (h : s.Sound kept failed) : s.pausePrivacy.2.Sound kept failed := by
  simp only [RealtimeCoordinatorState.pausePrivacy]
  split
  · exact h
  · exact (of_off rfl fun _ => rfl).shown .privacyPaused

theorem resumePrivacy (h : s.Sound kept failed) : s.resumePrivacy.2.Sound kept failed := by
  simp only [RealtimeCoordinatorState.resumePrivacy]
  split
  · exact h
  · rename_i hpaused
    have hpaused : s.status = .privacyPaused := not_not.mp hpaused
    obtain ⟨hl, hc⟩ := h.coherent.no_wake (by simp [hpaused])
    have hpending : s.transitionPending = false :=
      transitionPending_eq_false.mpr ⟨h.coherent.settled (.inl hpaused), hl, hc⟩
    have hoff : kept → s.mediaGenerationEnabled = false := by
      intro hk
      by_contra hm
      have hactive := (h.gated hk (by simpa using hm)).1
      simp [hpaused] at hactive
    split
    · rw [showing_snd]
      refine Sound.shown (of_off ?_ ?_) _
      · exact hpending
      · exact fun _ => rfl
    · have hactive :
          ({ s with status := .active } : RealtimeCoordinatorState).Sound kept failed := by
        refine of_off ?_ ?_
        · exact hpending
        · exact hoff
      exact hactive.prepareContextRotation .privacyResume

theorem extendPresence (h : s.Sound kept failed) {minutes : UInt16} :
    (s.extendPresence minutes).2.Sound kept failed := by
  have hc := h.coherent
  simp only [RealtimeCoordinatorState.extendPresence]
  split
  · exact h
  · split
    · exact h
    · split
      · exact ⟨⟨fun hw => ⟨(hc.wake hw).1, rfl, (hc.wake hw).2.2⟩, hc.single, hc.settled⟩,
          fun hk hm => ⟨(h.gated hk hm).1, rfl, (h.gated hk hm).2.2⟩⟩
      · exact ⟨⟨hc.wake, hc.single, hc.settled⟩, h.gated⟩

theorem finish : s.finish.2.Sound kept failed :=
  (of_off rfl fun _ => rfl).shown .idle

theorem backendFailed (h : s.Sound kept failed) :
    s.backendFailed.2.Sound kept (failed || s.status = .active) := by
  simp only [RealtimeCoordinatorState.backendFailed]
  split
  · rename_i hinactive
    simpa [hinactive] using h
  · rename_i hactive
    have hactive : s.status = .active := not_not.mp hactive
    obtain ⟨hl, hcl⟩ := h.coherent.no_wake (by simp [hactive])
    rw [showing_snd]
    refine Sound.shown (rotation ?_ ?_ ?_ ?_) _
    · exact hl
    · exact hcl
    · exact .inl hactive
    · exact fun _ => rfl

theorem failContextRotation {b : Bool} : s.failContextRotation.2.Sound kept b :=
  (of_off rfl fun _ => rfl).shown .error

theorem tick (h : s.Sound kept failed) {nowMs : UInt64} : (s.tick nowMs).2.Sound kept failed := by
  simp only [RealtimeCoordinatorState.tick]
  split
  · exact h
  · rename_i hquiet
    have hpending : s.transitionPending = false := by
      simp only [not_or, Bool.not_eq_true] at hquiet
      exact hquiet.2.2
    have hidle (t : RealtimeCoordinatorState) (ht : t.transitionPending = false)
        (hm : t.mediaGenerationEnabled = false) : (t.shown .standby).Sound kept failed :=
      (of_off ht fun _ => hm).shown .standby
    split
    · exact hidle _ hpending rfl
    · split
      · exact h
      · split
        · simp only [enterStandby]
          have hstandby := hidle { s with
            status := .standby
            mediaGenerationEnabled := false
            standbyReason := some .inactivity
            localUnloadRequested := false
            localBackendUnloaded := false
            privacyResumeToStandby := false } hpending rfl
          split
          · split
            · exact ⟨⟨hstandby.coherent.wake, hstandby.coherent.single,
                hstandby.coherent.settled⟩, hstandby.gated⟩
            · exact hstandby
          · exact hstandby
        · split
          · exact ⟨⟨h.coherent.wake, h.coherent.single, h.coherent.settled⟩, h.gated⟩
          · exact h

theorem recordMeaningfulActivity (h : s.Sound kept failed) {nowMs : UInt64} :
    (s.recordMeaningfulActivity nowMs).2.Sound kept failed := by
  simp only [RealtimeCoordinatorState.recordMeaningfulActivity]
  split
  · exact h
  · exact ⟨⟨h.coherent.wake, h.coherent.single, h.coherent.settled⟩, h.gated⟩

theorem observeActivityCandidate (h : s.Sound kept failed) {sequence : UInt64}
    {candidate : RealtimeDialogueCandidate} :
    (s.observeActivityCandidate sequence candidate).2.Sound kept failed := by
  simp only [RealtimeCoordinatorState.observeActivityCandidate]
  split
  · exact ⟨⟨h.coherent.wake, h.coherent.single, h.coherent.settled⟩, h.gated⟩
  · exact h

/-- What is prepared in standby comes with the media off. -/
theorem standby_off (h : s.Sound kept failed) (hs : s.status = .standby) :
    kept → s.mediaGenerationEnabled = false := by
  intro hk
  by_contra hm
  have hactive := (h.gated hk (by simpa using hm)).1
  simp [hs] at hactive

theorem prepareStandbyContextRotation (h : s.Sound kept failed) {reason : ContextRotationReason} :
    (s.prepareStandbyContextRotation reason).2.Sound kept failed := by
  simp only [RealtimeCoordinatorState.prepareStandbyContextRotation]
  split
  · exact h
  · rename_i hguard
    simp only [not_or, not_not, Bool.not_eq_true] at hguard
    obtain ⟨_, hl, hc⟩ := transitionPending_eq_false.mp hguard.2.2
    split
    · exact h
    · exact rotation hl hc (.inr hguard.1) fun _ => rfl

theorem prepareWake (h : s.Sound kept failed) {next : Option String} :
    (s.prepareWake next).2.Sound kept failed := by
  simp only [RealtimeCoordinatorState.prepareWake]
  split
  · exact h
  · rename_i hguard
    simp only [not_or, not_not, Bool.not_eq_true] at hguard
    obtain ⟨hs, ha, hpending⟩ := hguard
    obtain ⟨hr, hl, hc⟩ := transitionPending_eq_false.mp hpending
    have hoff := h.standby_off hs
    split
    · split
      · split
        · exact h
        · exact ⟨⟨fun _ => ⟨hs, ha, hr⟩, .inr hc, fun _ => hr⟩, fun hk => .of_off (hoff hk)⟩
      · split
        · exact h
        · split
          · exact h
          · exact rotation hl hc (.inr hs) hoff
    · split
      · exact h
      · exact ⟨⟨fun _ => ⟨hs, ha, hr⟩, .inl hl, fun _ => hr⟩, fun hk => .of_off (hoff hk)⟩

theorem apply (h : s.Sound kept failed) (event : RealtimeCoordinatorEvent) :
    (s.apply event).2.Sound kept ((⟨s, failed⟩ : World).failedAfter (s.apply event).2
      (.apply event)) := by
  simp only [RealtimeCoordinatorState.apply]
  split
  · rename_i hended
    cases event with
    | userApprovedBackendChange | recoverLocalSegment => exact h.same_segment rfl
    | backendFailed => simpa [World.failedAfter, hended] using h
    | rotateContext | localBackendUnloaded | setPolicy | pausePrivacy | resumePrivacy
    | extendPresence | end' => exact h
  · cases event with
    | rotateContext reason =>
      dsimp only
      split
      · exact h
      · exact h.prepareContextRotation reason
    | userApprovedBackendChange => exact h.userApprovedBackendChange
    | recoverLocalSegment => exact h.recoverLocalSegment
    | localBackendUnloaded => exact h.localBackendUnload
    | setPolicy => exact h.setPolicy
    | pausePrivacy => exact h.pausePrivacy
    | resumePrivacy => exact h.resumePrivacy
    | extendPresence => exact h.extendPresence
    | end' => exact finish
    | backendFailed => exact h.backendFailed

theorem rotating_iff {nextEpoch : UInt64} {p : PendingContextRotation} :
    s.rotating nextEpoch = some p ↔ s.pendingContextRotation = some p ∧
      p.nextEpoch = nextEpoch ∧ p.current = s.identity := by
  simp [rotating, Option.filter_eq_some_iff]

theorem commitContextRotationAt (h : s.Sound kept failed) {nextEpoch nowMs : UInt64}
    (hopens : kept → s.Opens (.commitContextRotationAt nextEpoch nowMs) →
      s.actionRequired = false ∧ failed = false) :
    (s.commitContextRotationAt nextEpoch nowMs).2.Sound kept failed := by
  simp only [RealtimeCoordinatorState.commitContextRotationAt]
  split
  · exact h
  · rename_i p hrotating
    obtain ⟨hp, hnext, hcurrent⟩ := rotating_iff.mp hrotating
    obtain ⟨hl, hc⟩ := h.coherent.no_wake_of_rotation (by simp [hp])
    have hpending : (s.rotated p nextEpoch nowMs).transitionPending = false := by
      rw [transitionPending_eq_false]
      simp only [rotated]
      split <;> exact ⟨rfl, hl, hc⟩
    refine Sound.shown (of_none hpending fun hk hm => ?_) _
    have hstatus : s.rotatedStatus p.reason = .active := by
      simp only [rotated] at hm
      split at hm <;> simpa using hm
    have hactive : p.reason = .standbyWake ∨ s.status = .active := by
      simp only [rotatedStatus] at hstatus
      split at hstatus
      · exact .inl ‹_›
      · exact .inr hstatus
    obtain ⟨ha, hf⟩ := hopens hk ⟨p, hp, hnext, hcurrent, hactive⟩
    refine ⟨?_, ?_, hpending, hf⟩ <;> simp only [rotated] <;> split
    · exact hstatus
    · exact hstatus
    · exact ha
    · exact ha

/-- A wake whose ordinal has no successor ends with nothing pending and the media off. -/
theorem untaken {t : RealtimeCoordinatorState} (hr : t.pendingContextRotation = none)
    (hl : t.pendingLocalWake = none) (hc : t.pendingCloudWake = none)
    (hm : kept → t.mediaGenerationEnabled = false) : t.Sound kept failed :=
  of_off (transitionPending_eq_false.mpr ⟨hr, hl, hc⟩) hm

theorem woken {t : RealtimeCoordinatorState} (hpending : t.transitionPending = false)
    (ha : t.actionRequired = false) (hf : kept → failed = false) (segment : BackendSegmentState)
    (nowMs : UInt64) : ((t.woken segment nowMs).showing .standby).2.Sound kept failed := by
  rw [showing_snd]
  refine Sound.shown (of_none ?_ fun hk _ => ⟨?_, ?_, ?_, hf hk⟩) _
  · exact hpending
  · rfl
  · exact ha
  · exact hpending

theorem commitCloudWake (h : s.Sound kept failed) {nextSegmentId : String} {nowMs : UInt64}
    (hopens : kept → s.CloudWakes nextSegmentId → failed = false) :
    (s.commitCloudWake nextSegmentId nowMs).2.Sound kept failed := by
  simp only [RealtimeCoordinatorState.commitCloudWake]
  split
  · exact h
  · rename_i pending hpending
    obtain ⟨hs, ha, hr⟩ := h.coherent.wake (.inr (by simp [hpending]))
    have hl : s.pendingLocalWake = none := h.coherent.single.resolve_right (by simp [hpending])
    split
    · exact h
    · rename_i hmatch
      simp only [not_or, not_not] at hmatch
      split
      · refine untaken ?_ ?_ ?_ ?_
        · exact hr
        · exact hl
        · rfl
        · exact h.standby_off hs
      · rename_i ordinal ho
        have hf := fun hk : kept =>
          hopens hk ⟨by rw [hpending, ← hmatch.1, ← hmatch.2], checkedSucc32_lt ho⟩
        refine woken ?_ ?_ hf _ nowMs
        · exact transitionPending_eq_false.mpr ⟨hr, hl, rfl⟩
        · exact ha

theorem commitLocalWake (h : s.Sound kept failed) {nextSegmentId : String} {nowMs : UInt64}
    (hopens : kept → s.LocalWakes nextSegmentId → failed = false) :
    (s.commitLocalWake nextSegmentId nowMs).2.Sound kept failed := by
  simp only [RealtimeCoordinatorState.commitLocalWake]
  split
  · exact h
  · rename_i pending hpending
    obtain ⟨hs, ha, hr⟩ := h.coherent.wake (.inl (by simp [hpending]))
    have hc : s.pendingCloudWake = none := h.coherent.single.resolve_left (by simp [hpending])
    split
    · exact h
    · rename_i hmatch
      simp only [not_or, not_not] at hmatch
      split
      · refine untaken ?_ ?_ ?_ ?_
        · exact hr
        · rfl
        · exact hc
        · exact h.standby_off hs
      · rename_i ordinal ho
        have hf := fun hk : kept =>
          hopens hk ⟨by rw [hpending, ← hmatch.1, ← hmatch.2], checkedSucc32_lt ho⟩
        refine woken ?_ ?_ hf _ nowMs
        · exact transitionPending_eq_false.mpr ⟨hr, rfl, hc⟩
        · exact ha

end Sound

end RealtimeCoordinatorState

namespace World

/-- The media are turned on while no action is required and no failure is unresolved. -/
def Opening (w : World) (c : CoordinatorCall) : Prop :=
  w.state.Opens c → w.state.actionRequired = false ∧ w.failed = false

variable {kept : Prop} {w w' : World} {c : CoordinatorCall}

theorem sound_after (h : w.state.Sound kept w.failed) (hopening : kept → w.Opening c) :
    (w.after c).state.Sound kept (w.after c).failed := by
  obtain ⟨s, failed⟩ := w
  cases c with
  | apply event => exact h.apply event
  | observeActivityCandidate => exact h.observeActivityCandidate
  | recordMeaningfulActivity => exact h.recordMeaningfulActivity
  | tick => exact h.tick
  | prepareWake => exact h.prepareWake
  | prepareContextRotation reason => exact h.prepareContextRotation reason
  | prepareStandbyContextRotation => exact h.prepareStandbyContextRotation
  | commitContextRotationAt => exact h.commitContextRotationAt hopening
  | commitCloudWake => exact h.commitCloudWake fun hk ho => (hopening hk ho).2
  | commitLocalWake => exact h.commitLocalWake fun hk ho => (hopening hk ho).2
  | failContextRotation => exact .failContextRotation
  | projectWorkerEvent event =>
    obtain ⟨p, hp⟩ := s.projectWorkerEvent_snd event
    exact h.of_eq hp
  | projectHostState state =>
    obtain ⟨p, hp⟩ := s.projectHostState_snd state
    exact h.of_eq hp
  | projectFairySpeech speaking =>
    obtain ⟨p, hp⟩ := s.projectFairySpeech_snd speaking
    exact h.of_eq hp

/-- Where the media are on, the session is active, no action is required, nothing is pending and
no failure is unresolved. -/
structure MediaGated (w : World) : Prop where
  status : w.state.mediaGenerationEnabled = true → w.state.status = .active
  action : w.state.mediaGenerationEnabled = true → w.state.actionRequired = false
  pending : w.state.mediaGenerationEnabled = true → w.state.pendingContextRotation = none ∧
    w.state.pendingLocalWake = none ∧ w.state.pendingCloudWake = none
  resolved : w.state.mediaGenerationEnabled = true → w.failed = false

theorem media_gated {request : RealtimeCoordinatorStart} {s : RealtimeCoordinatorState}
    (hstart : RealtimeCoordinatorState.start request = .ok s)
    (h : Run Step Opening ⟨s, false⟩ w) : w.MediaGated := by
  obtain ⟨hcoherent, hgated⟩ := RealtimeCoordinatorState.start_coherent hstart
  have hsound : w.state.Sound True w.failed :=
    h.invariant (I := fun w => w.state.Sound True w.failed)
      (fun a i b ha hopening hs => by
        rw [hs]
        exact sound_after ha fun _ => hopening) ⟨hcoherent, fun _ => hgated⟩
  have hall := hsound.gated trivial
  refine ⟨fun hm => (hall hm).1, fun hm => (hall hm).2.1, fun hm => ?_, fun hm => (hall hm).2.2.2⟩
  exact RealtimeCoordinatorState.transitionPending_eq_false.mp (hall hm).2.2.1

/-- In every run the pending transitions agree with the status. -/
theorem coherent_run {s : RealtimeCoordinatorState} (hs : s.Coherent)
    (h : Run Step (fun _ _ => True) ⟨s, false⟩ w) : w.state.Coherent := by
  have hsound : w.state.Sound False w.failed :=
    h.invariant (I := fun w => w.state.Sound False w.failed)
      (fun a i b ha _ hs => by
        rw [hs]
        exact sound_after ha False.elim) ⟨hs, False.elim⟩
  exact hsound.coherent

end World

def companionRequest : RealtimeCoordinatorStart where
  sessionId := "session-1"
  segmentId := "segment-1"
  personaDigest := "aaaaaaaaaaaaaaaaaaaaaaaaaaaaaaaaaaaaaaaaaaaaaaaaaaaaaaaaaaaaaaaa"
  backend := .cloudLive
  cloudProvider := some .geminiLive
  activityProfile := .auto
  interactionIntensity := .standard
  presenceMaxMinutes := 240
  localKeepWarmMinutes := 10

def companion : RealtimeCoordinatorState :=
  (RealtimeCoordinatorState.start companionRequest).toOption.get (by decide +kernel)

theorem start_companion : RealtimeCoordinatorState.start companionRequest = .ok companion := by
  have h : ∀ (r : Except RealtimeCoordinatorError RealtimeCoordinatorState) (hs), r =
      .ok (r.toOption.get hs) := by
    intro r hs
    cases r with
    | error => cases hs
    | ok => rfl
  exact h _ _

namespace World

/-- The backend fails while a rotation is on its way, and the commit turns the media on. -/
theorem failed_backend_generates : ¬ ∀ request s w,
    RealtimeCoordinatorState.start request = .ok s →
      Run Step (fun _ _ => True) ⟨s, false⟩ w → w.MediaGated := by
  intro h
  have hrun : Run Step (fun _ _ => True) ⟨companion, false⟩
      ([.prepareContextRotation .windowChanged, .apply .backendFailed,
        .commitContextRotationAt 2 1000].foldl after ⟨companion, false⟩) :=
    Run.foldl (by decide +kernel)
  have hon := (h _ _ _ start_companion hrun).action (by decide +kernel)
  revert hon
  decide +kernel

theorem media_gated_rotation : ([.prepareContextRotation .windowChanged,
    .commitContextRotationAt 2 1000, .apply .backendFailed].foldl after
      ⟨companion, false⟩).MediaGated := by
  refine media_gated start_companion ((((Run.refl).next ?_ rfl).next ?_ rfl).next ?_ rfl)
  · exact fun ho => ho.elim
  · exact fun _ => ⟨by decide +kernel, by decide +kernel⟩
  · exact fun ho => ho.elim

end World

end Fairy.Realtime
