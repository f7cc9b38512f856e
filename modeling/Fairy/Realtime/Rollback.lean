import Fairy.Realtime.Gate

namespace Fairy.Realtime

open Fairy.Lib

namespace RealtimeCoordinatorState

/-- The presence can be set: it is there already, or its sequence has a successor. -/
def Shows (s : RealtimeCoordinatorState) (state : RealtimePresenceState) : Prop :=
  s.presence.state = state ∧ s.presence.level = none ∨
    s.presence.sequence.toNat + 1 < UInt64.size

/-- The ordinal of the segment has a successor. -/
def AddsSegment (s : RealtimeCoordinatorState) : Prop :=
  s.segment.ordinal.toNat + 1 < UInt32.size

/-- The epoch has a successor. -/
def AddsEpoch (s : RealtimeCoordinatorState) : Prop := s.identity.epoch.toNat + 1 < UInt64.size

/-- An event that passes its guards runs to its end. -/
def CompletesEvent (s : RealtimeCoordinatorState) : RealtimeCoordinatorEvent → Prop
  | .userApprovedBackendChange segmentId backend cloudProvider personaDigest =>
    s.status = .active ∧ personaDigest = s.personaDigest ∧ validIdentifier segmentId = true ∧
      segmentId ≠ s.identity.segmentId ∧ backendProviderValid backend cloudProvider = true →
        s.AddsSegment ∧ s.Shows .preparing
  | .recoverLocalSegment segmentId personaDigest =>
    s.status = .active ∧ s.backend = .localMiniCpmO45 ∧ s.actionRequired = true ∧
      personaDigest = s.personaDigest ∧ validIdentifier segmentId = true ∧
      segmentId ≠ s.identity.segmentId → s.AddsSegment ∧ s.Shows .preparing
  | .setPolicy profile interactionIntensity =>
    s.status = .active ∧
      ¬ (profile = s.activityProfile ∧ interactionIntensity = s.interactionIntensity) →
        s.pendingContextRotation = none ∧ s.AddsEpoch ∧ s.Shows .preparing
  | .pausePrivacy => s.status = .active ∨ s.status = .standby → s.Shows .privacyPaused
  | .resumePrivacy => s.status = .privacyPaused →
      if s.privacyResumeToStandby then s.Shows .standby else s.AddsEpoch
  | .end' => s.status ≠ .ended → s.Shows .idle
  | .backendFailed => s.status = .active → s.Shows .error
  | .rotateContext _ | .localBackendUnloaded | .extendPresence _ => True

/-- A call that passes its guards runs to its end, and a rotation fails before the session has
ended only. -/
def Completes (s : RealtimeCoordinatorState) : CoordinatorCall → Prop
  | .apply event => s.CompletesEvent event
  | .commitContextRotationAt nextEpoch _ => (s.rotating nextEpoch).isSome → s.Shows .standby
  | .commitCloudWake nextSegmentId _ =>
    s.pendingCloudWake = some ⟨s.identity, nextSegmentId⟩ → s.AddsSegment ∧ s.Shows .standby
  | .commitLocalWake nextSegmentId _ =>
    s.pendingLocalWake = some ⟨s.identity, nextSegmentId⟩ → s.AddsSegment ∧ s.Shows .standby
  | .failContextRotation => s.status ≠ .ended ∧ s.Shows .error
  | _ => True

/-- An outcome that is an error comes with the state as it was. -/
def Restores {α : Type} (s : RealtimeCoordinatorState) (r : Outcome α) : Prop :=
  ∀ e, r.1 = .error e → r.2 = s

variable {s t : RealtimeCoordinatorState} {α : Type}

theorem restores_same {r : Except RealtimeCoordinatorError α} : s.Restores (r, s) := fun _ _ => rfl

theorem restores_ok {a : α} : s.Restores (.ok a, t) := nofun

theorem restores_map {r : Outcome α} {f : α → Unit} (h : s.Restores r) :
    s.Restores (r.1.map f, r.2) := by
  obtain ⟨r, t⟩ := r
  cases r with
  | error e => exact fun _ _ => h e rfl
  | ok => exact nofun

theorem setPresence_ok {state : RealtimePresenceState}
    (h : t.presence.state = state ∧ t.presence.level = none ∨
      t.presence.sequence.toNat + 1 < UInt64.size) :
    ∃ b, (t.setPresence state none).1 = .ok b := by
  simp only [setPresence]
  split
  · exact ⟨false, rfl⟩
  · rename_i hother
    simp only [checkedSucc64, if_pos (h.resolve_left hother)]
    exact ⟨true, rfl⟩

/-- What is shown can be shown whatever else has been assigned before. -/
theorem showing_restores {state : RealtimePresenceState} (h : s.Shows state)
    (ht : t.presence = s.presence) : s.Restores (t.showing state) := by
  have hshows : t.Shows state := by
    simp only [Shows, ht]
    exact h
  obtain ⟨b, hb⟩ := setPresence_ok (t := { t with presence := { t.presence with
    backgroundState := state, backgroundLevel := none, fairySpeechActive := false } }) hshows
  intro e he
  have hok : (t.showing state).1 = .ok () := by
    simp only [showing, setAuthoritativePresence, hb]
    rfl
  rw [hok] at he
  cases he

theorem checkedSucc32_isSome (h : s.AddsSegment) : checkedSucc32 s.segment.ordinal ≠ none :=
  fun hnone => checkedSucc32_eq_none hnone h

theorem checkedSucc64_isSome (h : s.AddsEpoch) : checkedSucc64 s.identity.epoch ≠ none := by
  have hsome : checkedSucc64 s.identity.epoch = some (s.identity.epoch + 1) := if_pos h
  rw [hsome]
  exact Option.some_ne_none _

theorem prepareContextRotation_restores (reason : ContextRotationReason) :
    s.Restores (s.prepareContextRotation reason) := by
  simp only [prepareContextRotation]
  split
  · exact restores_same
  · split
    · exact restores_same
    · split
      · exact restores_same
      · exact restores_ok

/-- An active session with nothing rotating and an epoch to come can rotate. -/
theorem prepareContextRotation_eq (reason : ContextRotationReason) (hs : t.status = .active)
    (hr : t.pendingContextRotation = none) (he : t.AddsEpoch) :
    ∃ pending, t.prepareContextRotation reason = (.ok pending,
      { t with pendingContextRotation := some pending, mediaGenerationEnabled := false }) := by
  cases hnext : checkedSucc64 t.identity.epoch with
  | none => exact absurd hnext (checkedSucc64_isSome he)
  | some next => exact ⟨⟨t.identity, next, reason⟩, by simp [prepareContextRotation, hs, hr, hnext]⟩

theorem userApprovedBackendChange_restores {segmentId personaDigest : String}
    {backend : RealtimeBackendKind} {provider : Option RealtimeCloudProviderKind}
    (h : s.CompletesEvent (.userApprovedBackendChange segmentId backend provider personaDigest)) :
    s.Restores (s.userApprovedBackendChange segmentId backend provider personaDigest) := by
  simp only [userApprovedBackendChange]
  split
  · exact restores_same
  · rename_i hactive
    split
    · exact restores_same
    · rename_i hpersona
      split
      · exact restores_same
      · rename_i hsegment
        split
        · exact restores_same
        · rename_i hprovider
          simp only [not_or, Bool.not_eq_true', Bool.not_eq_false] at hsegment hprovider
          obtain ⟨hadds, hshows⟩ := h ⟨not_not.mp hactive, not_not.mp hpersona, hsegment.1,
            hsegment.2, hprovider⟩
          split
          · exact absurd ‹_› (checkedSucc32_isSome hadds)
          · exact showing_restores hshows rfl

theorem recoverLocalSegment_restores {segmentId personaDigest : String}
    (h : s.CompletesEvent (.recoverLocalSegment segmentId personaDigest)) :
    s.Restores (s.recoverLocalSegment segmentId personaDigest) := by
  simp only [recoverLocalSegment]
  split
  · exact restores_same
  · rename_i hactive
    split
    · exact restores_same
    · rename_i hguard
      simp only [not_or, not_not, Bool.not_eq_true', Bool.not_eq_false] at hguard
      obtain ⟨hbackend, haction, hpersona, hsegment, hnew⟩ := hguard
      obtain ⟨hadds, hshows⟩ := h ⟨not_not.mp hactive, hbackend, haction, hpersona, hsegment, hnew⟩
      split
      · exact absurd ‹_› (checkedSucc32_isSome hadds)
      · exact showing_restores hshows rfl

theorem localBackendUnload_restores : s.Restores s.localBackendUnload := by
  simp only [localBackendUnload]
  split
  · exact restores_same
  · exact restores_ok

theorem setPolicy_restores {profile : RealtimeActivityProfile}
    {intensity : RealtimeInteractionIntensity}
    (h : s.CompletesEvent (.setPolicy profile intensity)) :
    s.Restores (s.setPolicy profile intensity) := by
  simp only [setPolicy]
  split
  · exact restores_same
  · rename_i hactive
    have hactive : s.status = .active := not_not.mp hactive
    split
    · exact restores_ok
    · rename_i hchanged
      obtain ⟨hr, he, hshows⟩ := h ⟨hactive, hchanged⟩
      obtain ⟨pending, hprepared⟩ := prepareContextRotation_eq (t := { s with
        activityProfile := profile
        activityClassifier := .new profile
        interactionIntensity := intensity }) .profileChanged hactive hr he
      rw [hprepared]
      exact showing_restores hshows rfl

theorem pausePrivacy_restores (h : s.CompletesEvent .pausePrivacy) : s.Restores s.pausePrivacy := by
  simp only [pausePrivacy]
  split
  · exact restores_same
  · rename_i hguard
    simp only [not_and_or, not_not] at hguard
    exact showing_restores (h hguard) rfl

theorem resumePrivacy_restores (hc : s.Coherent) (h : s.CompletesEvent .resumePrivacy) :
    s.Restores s.resumePrivacy := by
  simp only [resumePrivacy]
  split
  · exact restores_same
  · rename_i hpaused
    have hpaused : s.status = .privacyPaused := not_not.mp hpaused
    have hcompletes := h hpaused
    split
    · rename_i hstandby
      rw [if_pos hstandby] at hcompletes
      exact showing_restores hcompletes rfl
    · rename_i hactive
      rw [if_neg hactive] at hcompletes
      obtain ⟨pending, hprepared⟩ := prepareContextRotation_eq (t := { s with status := .active })
        .privacyResume rfl (hc.settled (.inl hpaused)) hcompletes
      simp only [rotateContext, hprepared]
      exact restores_ok

theorem extendPresence_restores {minutes : UInt16} : s.Restores (s.extendPresence minutes) := by
  simp only [extendPresence]
  split
  · exact restores_same
  · split
    · exact restores_same
    · split <;> exact restores_ok

theorem apply_restores (hc : s.Coherent) {event : RealtimeCoordinatorEvent}
    (h : s.CompletesEvent event) : s.Restores (s.apply event) := by
  simp only [RealtimeCoordinatorState.apply]
  split
  · exact restores_same
  · rename_i hopen
    cases event with
    | rotateContext reason =>
      dsimp only
      split
      · exact restores_same
      · exact restores_map (prepareContextRotation_restores reason)
    | userApprovedBackendChange => exact userApprovedBackendChange_restores h
    | recoverLocalSegment => exact recoverLocalSegment_restores h
    | localBackendUnloaded => exact localBackendUnload_restores
    | setPolicy => exact setPolicy_restores h
    | pausePrivacy => exact pausePrivacy_restores h
    | resumePrivacy => exact resumePrivacy_restores hc h
    | extendPresence => exact extendPresence_restores
    | end' => exact showing_restores (h hopen) rfl
    | backendFailed =>
      simp only [backendFailed]
      split
      · exact restores_same
      · exact showing_restores (h (not_not.mp ‹_›)) rfl

theorem prepareWake_restores {next : Option String} : s.Restores (s.prepareWake next) := by
  simp only [prepareWake]
  split
  · exact restores_same
  · split
    · split
      · split
        · exact restores_same
        · exact restores_ok
      · split
        · exact restores_same
        · split
          · exact restores_same
          · exact restores_ok
    · split
      · exact restores_same
      · exact restores_ok

theorem prepareStandbyContextRotation_restores {reason : ContextRotationReason} :
    s.Restores (s.prepareStandbyContextRotation reason) := by
  simp only [prepareStandbyContextRotation]
  split
  · exact restores_same
  · split
    · exact restores_same
    · exact restores_ok

theorem commitContextRotationAt_restores {nextEpoch nowMs : UInt64}
    (h : (s.rotating nextEpoch).isSome → s.Shows .standby) :
    s.Restores (s.commitContextRotationAt nextEpoch nowMs) := by
  simp only [commitContextRotationAt]
  split
  · exact restores_same
  · rename_i p hrotating
    refine showing_restores (h (by simp [hrotating])) ?_
    simp only [rotated]
    split <;> rfl

theorem commitCloudWake_restores {next : String} {nowMs : UInt64}
    (h : s.pendingCloudWake = some ⟨s.identity, next⟩ → s.AddsSegment ∧ s.Shows .standby) :
    s.Restores (s.commitCloudWake next nowMs) := by
  simp only [commitCloudWake]
  split
  · exact restores_same
  · rename_i pending hpending
    split
    · exact restores_same
    · rename_i hmatch
      simp only [not_or, not_not] at hmatch
      obtain ⟨hadds, hshows⟩ := h (by rw [hpending, ← hmatch.1, ← hmatch.2])
      split
      · exact absurd ‹_› (checkedSucc32_isSome hadds)
      · exact showing_restores hshows rfl

theorem commitLocalWake_restores {next : String} {nowMs : UInt64}
    (h : s.pendingLocalWake = some ⟨s.identity, next⟩ → s.AddsSegment ∧ s.Shows .standby) :
    s.Restores (s.commitLocalWake next nowMs) := by
  simp only [commitLocalWake]
  split
  · exact restores_same
  · rename_i pending hpending
    split
    · exact restores_same
    · rename_i hmatch
      simp only [not_or, not_not] at hmatch
      obtain ⟨hadds, hshows⟩ := h (by rw [hpending, ← hmatch.1, ← hmatch.2])
      split
      · exact absurd ‹_› (checkedSucc32_isSome hadds)
      · exact showing_restores hshows rfl

theorem call_restores (hc : s.Coherent) {c : CoordinatorCall} (h : s.Completes c) :
    s.Restores (s.call c) := by
  cases c with
  | apply => exact apply_restores hc h
  | prepareWake => exact restores_map prepareWake_restores
  | prepareContextRotation reason =>
    exact restores_map (prepareContextRotation_restores reason)
  | prepareStandbyContextRotation =>
    exact restores_map prepareStandbyContextRotation_restores
  | commitContextRotationAt => exact commitContextRotationAt_restores h
  | commitCloudWake => exact commitCloudWake_restores h
  | commitLocalWake => exact commitLocalWake_restores h
  | failContextRotation => exact showing_restores h.2 rfl
  | observeActivityCandidate | recordMeaningfulActivity | tick | projectWorkerEvent
  | projectHostState | projectFairySpeech => exact restores_ok

/-- An ended session is left as it is by every call but the failure of a rotation. -/
theorem call_ended (hc : s.Coherent) (hs : s.status = .ended) {c : CoordinatorCall}
    (h : s.Completes c) : (s.call c).2 = s := by
  obtain ⟨hl, hcl⟩ := hc.no_wake (by simp [hs])
  have hr := hc.settled (.inr hs)
  cases c with
  | apply => simp [call, RealtimeCoordinatorState.apply, hs]
  | observeActivityCandidate => simp [call, observeActivityCandidate, hs]
  | recordMeaningfulActivity => simp [call, recordMeaningfulActivity, hs]
  | tick => simp [call, tick, hs]
  | prepareWake => simp [call, prepareWake, hs]
  | prepareContextRotation => simp [call, rotateContext, prepareContextRotation, hs]
  | prepareStandbyContextRotation => simp [call, prepareStandbyContextRotation, hs]
  | commitContextRotationAt => simp [call, commitContextRotationAt, rotating, hr]
  | commitCloudWake => simp [call, commitCloudWake, hcl]
  | commitLocalWake => simp [call, commitLocalWake, hl]
  | failContextRotation => exact absurd hs h.1
  | projectWorkerEvent event =>
    simp only [call, projectWorkerEvent]
    split
    · rfl
    · rw [if_pos (.inl hs)]
  | projectHostState => simp [call, projectHostState, hs]
  | projectFairySpeech => simp [call, projectFairySpeech, hs]

end RealtimeCoordinatorState

namespace World

variable {w : World}

/-- An error leaves every field alone, and after the end nothing that is shown changes. -/
def Atomic (w : World) (c : CoordinatorCall) : Prop :=
  (∀ e, (w.state.call c).1 = .error e → (w.state.call c).2 = w.state) ∧
    (w.state.status = .ended →
      (w.state.call c).2.presenceProjection = w.state.presenceProjection ∧
        (w.state.call c).2.identity = w.state.identity ∧
        (w.state.call c).2.status = w.state.status)

theorem calls_atomic {request : RealtimeCoordinatorStart} {s : RealtimeCoordinatorState}
    (hstart : RealtimeCoordinatorState.start request = .ok s)
    (h : Run Step (fun _ _ => True) ⟨s, false⟩ w) (c : CoordinatorCall)
    (hcompletes : w.state.Completes c) : w.Atomic c := by
  have hc := coherent_run (RealtimeCoordinatorState.start_coherent hstart).1 h
  refine ⟨RealtimeCoordinatorState.call_restores hc hcompletes, fun hended => ?_⟩
  rw [RealtimeCoordinatorState.call_ended hc hended hcompletes]
  exact ⟨rfl, rfl, rfl⟩

/-- A policy set while a rotation is pending is refused, and stays. -/
theorem refused_policy_stays : ¬ ∀ request s w, RealtimeCoordinatorState.start request = .ok s →
    Run Step (fun _ _ => True) ⟨s, false⟩ w → ∀ c, w.Atomic c := by
  intro h
  have hrun : Run Step (fun _ _ => True) ⟨companion, false⟩
      ([.prepareContextRotation .windowChanged].foldl after ⟨companion, false⟩) :=
    Run.foldl (by decide +kernel)
  have hatomic := (h _ _ _ start_companion hrun (.apply (.setPolicy .game .active))).1
    .invalidTransition (by decide +kernel)
  revert hatomic
  decide +kernel

theorem calls_atomic_policy : (⟨companion, false⟩ : World).Atomic
    (.apply (.setPolicy .game .active)) :=
  have hepoch : companion.identity.epoch.toNat + 1 < UInt64.size := by decide +kernel
  have hsequence : companion.presence.sequence.toNat + 1 < UInt64.size := by decide +kernel
  calls_atomic start_companion .refl _ fun _ => ⟨by decide +kernel, hepoch, .inr hsequence⟩

end World

end Fairy.Realtime
