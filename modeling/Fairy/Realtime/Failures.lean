import Fairy.Realtime.Gate

namespace Fairy.Realtime

open Fairy.Lib

namespace RealtimeCoordinatorState

variable {s : RealtimeCoordinatorState}

@[simp] theorem shown_actionRequired (state : RealtimePresenceState) :
    (s.shown state).actionRequired = s.actionRequired := by
  obtain ⟨p, hp⟩ := s.shown_eq state
  rw [hp]

@[simp] theorem showing_actionRequired (state : RealtimePresenceState) :
    (s.showing state).2.actionRequired = s.actionRequired := s.shown_actionRequired state

@[simp] theorem shown_segment (state : RealtimePresenceState) :
    (s.shown state).segment = s.segment := by
  obtain ⟨p, hp⟩ := s.shown_eq state
  rw [hp]

@[simp] theorem showing_segment (state : RealtimePresenceState) :
    (s.showing state).2.segment = s.segment := s.shown_segment state

theorem prepareContextRotation_actionRequired (reason : ContextRotationReason) :
    (s.prepareContextRotation reason).2.actionRequired = s.actionRequired := by
  simp only [prepareContextRotation]
  split
  · rfl
  · split
    · rfl
    · split <;> rfl

theorem setPolicy_actionRequired (profile : RealtimeActivityProfile)
    (intensity : RealtimeInteractionIntensity) :
    (s.setPolicy profile intensity).2.actionRequired = s.actionRequired := by
  simp only [setPolicy]
  split
  · rfl
  · split
    · rfl
    · have hrotation := prepareContextRotation_actionRequired (s := { s with
        activityProfile := profile
        activityClassifier := .new profile
        interactionIntensity := intensity }) .profileChanged
      split
      · rename_i hprepared
        rwa [hprepared] at hrotation
      · rename_i hprepared
        rw [hprepared] at hrotation
        rwa [showing_actionRequired]

theorem resumePrivacy_actionRequired : s.resumePrivacy.2.actionRequired = s.actionRequired := by
  simp only [resumePrivacy]
  split
  · rfl
  · split
    · rw [showing_actionRequired]
    · exact prepareContextRotation_actionRequired (s := { s with status := .active })
        .privacyResume

theorem tick_actionRequired (nowMs : UInt64) (h : s.actionRequired = true) :
    (s.tick nowMs).2.actionRequired = true := by
  simp only [tick]
  split
  · exact h
  · split
    · rw [shown_actionRequired]
    · exact h

theorem prepareWake_actionRequired (next : Option String) :
    (s.prepareWake next).2.actionRequired = s.actionRequired := by
  simp only [prepareWake]
  split
  · rfl
  · split
    · split
      · split <;> rfl
      · split
        · rfl
        · split <;> rfl
    · split <;> rfl

theorem prepareStandbyContextRotation_actionRequired (reason : ContextRotationReason) :
    (s.prepareStandbyContextRotation reason).2.actionRequired = s.actionRequired := by
  simp only [prepareStandbyContextRotation]
  split
  · rfl
  · split <;> rfl

theorem commitContextRotationAt_actionRequired (nextEpoch nowMs : UInt64) :
    (s.commitContextRotationAt nextEpoch nowMs).2.actionRequired = s.actionRequired := by
  simp only [commitContextRotationAt]
  split
  · rfl
  · rw [showing_actionRequired, rotated]
    split <;> rfl

theorem commitCloudWake_actionRequired (next : String) (nowMs : UInt64) :
    (s.commitCloudWake next nowMs).2.actionRequired = s.actionRequired := by
  simp only [commitCloudWake]
  split
  · rfl
  · split
    · rfl
    · split
      · rfl
      · rw [showing_actionRequired]
        rfl

theorem commitLocalWake_actionRequired (next : String) (nowMs : UInt64) :
    (s.commitLocalWake next nowMs).2.actionRequired = s.actionRequired := by
  simp only [commitLocalWake]
  split
  · rfl
  · split
    · rfl
    · split
      · rfl
      · rw [showing_actionRequired]
        rfl

/-- Either the required action stays, or a segment of a higher ordinal is installed. -/
theorem userApprovedBackendChange_action {segmentId personaDigest : String}
    {backend : RealtimeBackendKind} {provider : Option RealtimeCloudProviderKind}
    {t : RealtimeCoordinatorState}
    (ht : t = (s.userApprovedBackendChange segmentId backend provider personaDigest).2) :
    t.actionRequired = s.actionRequired ∨ s.segment.ordinal < t.segment.ordinal := by
  simp only [userApprovedBackendChange] at ht
  split at ht
  · exact .inl (by rw [ht])
  · split at ht
    · exact .inl (by rw [ht])
    · split at ht
      · exact .inl (by rw [ht])
      · split at ht
        · exact .inl (by rw [ht])
        · split at ht
          · exact .inl (by rw [ht]; rfl)
          · rename_i ho
            rw [ht, showing_segment]
            exact .inr (checkedSucc32_eq_some ho)

theorem recoverLocalSegment_action {segmentId personaDigest : String}
    {t : RealtimeCoordinatorState}
    (ht : t = (s.recoverLocalSegment segmentId personaDigest).2) :
    t.actionRequired = s.actionRequired ∨ s.segment.ordinal < t.segment.ordinal := by
  simp only [recoverLocalSegment] at ht
  split at ht
  · exact .inl (by rw [ht])
  · split at ht
    · exact .inl (by rw [ht])
    · split at ht
      · exact .inl (by rw [ht]; rfl)
      · rename_i ho
        rw [ht, showing_segment]
        exact .inr (checkedSucc32_eq_some ho)

/-- The extensions that take effect once the duration limit has been reached. -/
def Extends (s : RealtimeCoordinatorState) : CoordinatorCall → Prop
  | .apply (.extendPresence minutes) => s.status ≠ .ended ∧ s.durationExtensionRequired = true ∧
      minutes ≠ 0 ∧ s.presenceMaxMinutes.toNat + minutes.toNat < UInt16.size
  | _ => False

theorem extendPresence_actionRequired {minutes : UInt16} (hended : s.status ≠ .ended)
    (h : ¬ s.Extends (.apply (.extendPresence minutes))) :
    (s.extendPresence minutes).2.actionRequired = s.actionRequired := by
  simp only [extendPresence]
  split
  · rfl
  · rename_i hminutes
    split
    · rfl
    · rename_i total hadd
      have hfits : s.presenceMaxMinutes.toNat + minutes.toNat < UInt16.size := by
        simp only [checkedAdd16] at hadd
        split at hadd
        · assumption
        · cases hadd
      split
      · exact absurd ⟨hended, ‹_›, hminutes, hfits⟩ h
      · rfl

end RealtimeCoordinatorState

namespace World

/-- A duration limit is not lifted while a failure is unresolved. -/
def Holding (w : World) (c : CoordinatorCall) : Prop := w.failed = true → ¬ w.state.Extends c

variable {w : World} {c : CoordinatorCall}

/-- An unresolved failure requires an action. -/
def Requiring (w : World) : Prop := w.failed = true → w.state.actionRequired = true

theorem requiring_apply {event : RealtimeCoordinatorEvent} (h : w.Requiring)
    (hholding : w.Holding (.apply event)) : (w.after (.apply event)).Requiring := by
  obtain ⟨s, failed⟩ := w
  simp only [Requiring, after, RealtimeCoordinatorState.call, RealtimeCoordinatorState.apply]
  by_cases hended : s.status = .ended
  · rw [if_pos hended]
    intro hf
    refine h ?_
    cases event with
    | backendFailed => simpa [failedAfter, hended] using hf
    | userApprovedBackendChange | recoverLocalSegment =>
      simp only [failedAfter, Bool.and_eq_true] at hf
      exact hf.1
    | rotateContext | localBackendUnloaded | setPolicy | pausePrivacy | resumePrivacy
    | extendPresence | end' => exact hf
  · rw [if_neg hended]
    cases event with
    | rotateContext reason =>
      intro hf
      dsimp only
      split
      · exact h hf
      · exact (RealtimeCoordinatorState.prepareContextRotation_actionRequired reason).trans (h hf)
    | userApprovedBackendChange segmentId backend provider personaDigest =>
      intro hf
      simp only [failedAfter, Bool.and_eq_true, Bool.not_eq_true', decide_eq_false_iff_not] at hf
      refine Eq.trans (Or.resolve_right ?_ hf.2) (h hf.1)
      exact RealtimeCoordinatorState.userApprovedBackendChange_action rfl
    | recoverLocalSegment segmentId personaDigest =>
      intro hf
      simp only [failedAfter, Bool.and_eq_true, Bool.not_eq_true', decide_eq_false_iff_not] at hf
      refine Eq.trans (Or.resolve_right ?_ hf.2) (h hf.1)
      exact RealtimeCoordinatorState.recoverLocalSegment_action rfl
    | localBackendUnloaded =>
      intro hf
      simp only [RealtimeCoordinatorState.localBackendUnload]
      split <;> exact h hf
    | setPolicy profile intensity =>
      exact fun hf =>
        (RealtimeCoordinatorState.setPolicy_actionRequired profile intensity).trans (h hf)
    | pausePrivacy =>
      intro hf
      simp only [RealtimeCoordinatorState.pausePrivacy]
      split
      · exact h hf
      · rw [RealtimeCoordinatorState.showing_actionRequired]
        exact h hf
    | resumePrivacy =>
      exact fun hf => RealtimeCoordinatorState.resumePrivacy_actionRequired.trans (h hf)
    | extendPresence minutes =>
      exact fun hf => (RealtimeCoordinatorState.extendPresence_actionRequired hended
        (hholding hf)).trans (h hf)
    | end' =>
      intro hf
      simp only [RealtimeCoordinatorState.finish, RealtimeCoordinatorState.showing_actionRequired]
      exact h hf
    | backendFailed =>
      intro hf
      simp only [RealtimeCoordinatorState.backendFailed]
      split
      · rename_i hinactive
        refine h ?_
        simpa [failedAfter, hinactive] using hf
      · rw [RealtimeCoordinatorState.showing_actionRequired]

theorem requiring_after (h : w.Requiring) (hholding : w.Holding c) : (w.after c).Requiring := by
  cases c with
  | apply event => exact requiring_apply h hholding
  | observeActivityCandidate sequence candidate =>
    intro hf
    simp only [after, RealtimeCoordinatorState.call,
      RealtimeCoordinatorState.observeActivityCandidate]
    split <;> exact h hf
  | recordMeaningfulActivity nowMs =>
    intro hf
    simp only [after, RealtimeCoordinatorState.call,
      RealtimeCoordinatorState.recordMeaningfulActivity]
    split <;> exact h hf
  | tick nowMs => exact fun hf => RealtimeCoordinatorState.tick_actionRequired nowMs (h hf)
  | prepareWake next =>
    exact fun hf => (RealtimeCoordinatorState.prepareWake_actionRequired next).trans (h hf)
  | prepareContextRotation reason =>
    exact fun hf =>
      (RealtimeCoordinatorState.prepareContextRotation_actionRequired reason).trans (h hf)
  | prepareStandbyContextRotation reason =>
    exact fun hf =>
      (RealtimeCoordinatorState.prepareStandbyContextRotation_actionRequired reason).trans (h hf)
  | commitContextRotationAt nextEpoch nowMs =>
    exact fun hf => (RealtimeCoordinatorState.commitContextRotationAt_actionRequired nextEpoch
      nowMs).trans (h hf)
  | commitCloudWake next nowMs =>
    exact fun hf =>
      (RealtimeCoordinatorState.commitCloudWake_actionRequired next nowMs).trans (h hf)
  | commitLocalWake next nowMs =>
    exact fun hf =>
      (RealtimeCoordinatorState.commitLocalWake_actionRequired next nowMs).trans (h hf)
  | failContextRotation =>
    exact fun _ => RealtimeCoordinatorState.showing_actionRequired _
  | projectWorkerEvent event =>
    intro hf
    obtain ⟨p, hp⟩ := w.state.projectWorkerEvent_snd event
    simp only [after, RealtimeCoordinatorState.call, hp]
    exact h hf
  | projectHostState state =>
    intro hf
    obtain ⟨p, hp⟩ := w.state.projectHostState_snd state
    simp only [after, RealtimeCoordinatorState.call, hp]
    exact h hf
  | projectFairySpeech speaking =>
    intro hf
    obtain ⟨p, hp⟩ := w.state.projectFairySpeech_snd speaking
    simp only [after, RealtimeCoordinatorState.call, hp]
    exact h hf

/-- While a failure is unresolved an action is required, and no result is accepted. -/
def FailureStands (w : World) : Prop :=
  w.failed = true → w.state.actionRequired = true ∧
    ∀ sessionId segmentId epoch, w.state.acceptsResult sessionId segmentId epoch = false

theorem failure_stands {s : RealtimeCoordinatorState} (h : Run Step Holding ⟨s, false⟩ w) :
    w.FailureStands := by
  have hrequiring : w.Requiring := h.invariant (fun a i b ha hholding hs => by
    rw [hs]
    exact requiring_after ha hholding) (fun hf => absurd hf nofun)
  intro hf
  refine ⟨hrequiring hf, fun sessionId segmentId epoch => ?_⟩
  simp [RealtimeCoordinatorState.acceptsResult, hrequiring hf]

/-- The limit is reached after the failure, and its extension clears the action. -/
theorem extension_clears_failure : ¬ ∀ request s w,
    RealtimeCoordinatorState.start request = .ok s →
      Run Step (fun _ _ => True) ⟨s, false⟩ w → w.FailureStands := by
  intro h
  have hrun : Run Step (fun _ _ => True) ⟨companion, false⟩
      ([.apply .backendFailed, .tick 14400000, .apply (.extendPresence 30)].foldl after
        ⟨companion, false⟩) := Run.foldl (by decide +kernel)
  have hrequired := (h _ _ _ start_companion hrun (by decide +kernel)).1
  revert hrequired
  decide +kernel

theorem failure_stands_paused : ([.apply .backendFailed, .apply .pausePrivacy,
    .apply .resumePrivacy].foldl after ⟨companion, false⟩).FailureStands := by
  refine failure_stands ((((Run.refl).next ?_ rfl).next ?_ rfl).next ?_ rfl) <;>
    exact fun _ he => he.elim

end World

end Fairy.Realtime
