import Fairy.Realtime.Gate

namespace Fairy.Realtime

open Fairy.Lib

/-- The segment identifiers that a call supplies. -/
def CoordinatorCall.supplied : CoordinatorCall → List String
  | .apply (.userApprovedBackendChange segmentId ..) => [segmentId]
  | .apply (.recoverLocalSegment segmentId _) => [segmentId]
  | .prepareWake nextSegmentId => nextSegmentId.toList
  | _ => []

/-- A classifier at the start of an epoch: it holds no evidence, and the sequence number one is
above its last one. -/
structure RealtimeActivityClassifier.Clean (c : RealtimeActivityClassifier) : Prop where
  evidence : c.evidence = []
  first : c.lastSequence < 1

namespace RealtimeCoordinatorState

/-- The calls that install a segment and leave the classifier as it is: the two events that
replace a segment, where they pass their checks, and a wake whose ordinal has no successor. -/
def InstallsUnreset (s : RealtimeCoordinatorState) : CoordinatorCall → Prop
  | .apply (.userApprovedBackendChange segmentId backend cloudProvider personaDigest) =>
    s.status = .active ∧ personaDigest = s.personaDigest ∧ validIdentifier segmentId = true ∧
      segmentId ≠ s.identity.segmentId ∧ backendProviderValid backend cloudProvider = true
  | .apply (.recoverLocalSegment segmentId personaDigest) =>
    s.status = .active ∧ s.backend = .localMiniCpmO45 ∧ s.actionRequired = true ∧
      personaDigest = s.personaDigest ∧ validIdentifier segmentId = true ∧
      segmentId ≠ s.identity.segmentId
  | .commitCloudWake nextSegmentId _ =>
    s.pendingCloudWake = some ⟨s.identity, nextSegmentId⟩ ∧
      ¬ s.segment.ordinal.toNat + 1 < UInt32.size
  | .commitLocalWake nextSegmentId _ =>
    s.pendingLocalWake = some ⟨s.identity, nextSegmentId⟩ ∧
      ¬ s.segment.ordinal.toNat + 1 < UInt32.size
  | _ => False

/-- The identity stays, and what is pending was so before or has just been prepared. -/
structure Stays (s : RealtimeCoordinatorState) (supplied : List String)
    (t : RealtimeCoordinatorState) : Prop where
  identity : t.identity = s.identity
  rotation : ∀ p ∈ t.pendingContextRotation, p ∈ s.pendingContextRotation ∨
    (p.current = s.identity ∧ checkedSucc64 s.identity.epoch = some p.nextEpoch)
  localWake : ∀ p ∈ t.pendingLocalWake, p ∈ s.pendingLocalWake ∨ p.nextSegmentId ∈ supplied
  cloudWake : ∀ p ∈ t.pendingCloudWake, p ∈ s.pendingCloudWake ∨ p.nextSegmentId ∈ supplied

/-- What one call makes of the identity, of what is pending and of the classifier. -/
inductive Turn (s : RealtimeCoordinatorState) (c : CoordinatorCall) :
    RealtimeCoordinatorState → Prop
  | stays {t : RealtimeCoordinatorState} (h : s.Stays c.supplied t) : Turn s c t
  | rotated {t : RealtimeCoordinatorState} {p : PendingContextRotation}
      (hp : p ∈ s.pendingContextRotation) (hcurrent : p.current = s.identity)
      (hid : t.identity = { s.identity with epoch := p.nextEpoch })
      (hnone : t.transitionPending = false) (hclean : t.activityClassifier.Clean) : Turn s c t
  | replaced {t : RealtimeCoordinatorState} {segmentId : String}
      (hnext : segmentId ∈ c.supplied ∨
        (∃ p ∈ s.pendingLocalWake, p.nextSegmentId = segmentId) ∨
        ∃ p ∈ s.pendingCloudWake, p.nextSegmentId = segmentId)
      (hid : t.identity = { s.identity with segmentId := segmentId, epoch := 1 })
      (hnone : t.transitionPending = false)
      (hclassifier : t.activityClassifier.Clean ∨
        s.InstallsUnreset c ∧ t.activityClassifier = s.activityClassifier) : Turn s c t

variable {s t s' t' : RealtimeCoordinatorState} {supplied : List String} {c : CoordinatorCall}

namespace Stays

theorem refl : s.Stays supplied s :=
  ⟨rfl, fun _ hp => .inl hp, fun _ hp => .inl hp, fun _ hp => .inl hp⟩

/-- The other fields before the call do not matter. -/
theorem of_source (h : s'.Stays supplied t) (hid : s'.identity = s.identity)
    (hrotation : s'.pendingContextRotation = s.pendingContextRotation)
    (hlocal : s'.pendingLocalWake = s.pendingLocalWake)
    (hcloud : s'.pendingCloudWake = s.pendingCloudWake) : s.Stays supplied t := by
  obtain ⟨hidentity, hr, hl, hc⟩ := h
  rw [hid] at hidentity hr
  rw [hrotation] at hr
  rw [hlocal] at hl
  rw [hcloud] at hc
  exact ⟨hidentity, hr, hl, hc⟩

/-- The other fields after the call do not matter. -/
theorem of_target (h : s.Stays supplied t') (hid : t'.identity = t.identity)
    (hrotation : t'.pendingContextRotation = t.pendingContextRotation)
    (hlocal : t'.pendingLocalWake = t.pendingLocalWake)
    (hcloud : t'.pendingCloudWake = t.pendingCloudWake) : s.Stays supplied t := by
  obtain ⟨hidentity, hr, hl, hc⟩ := h
  rw [hrotation] at hr
  rw [hlocal] at hl
  rw [hcloud] at hc
  exact ⟨hid.symm.trans hidentity, hr, hl, hc⟩

theorem shown (h : s.Stays supplied t) (state : RealtimePresenceState) :
    s.Stays supplied (t.shown state) := by
  obtain ⟨p, hp⟩ := t.shown_eq state
  rw [hp]
  exact h.of_target rfl rfl rfl rfl

/-- A call that drops what is pending. -/
theorem of_dropped (hid : t.identity = s.identity) (hnone : t.transitionPending = false) :
    s.Stays supplied t := by
  obtain ⟨hrotation, hlocal, hcloud⟩ := transitionPending_eq_false.mp hnone
  refine ⟨hid, fun p hp => ?_, fun p hp => ?_, fun p hp => ?_⟩
  · rw [hrotation] at hp
    cases hp
  · rw [hlocal] at hp
    cases hp
  · rw [hcloud] at hp
    cases hp

end Stays

theorem Turn.refl : s.Turn c s := .stays .refl

theorem Turn.present (h : s.Turn c t) (p : Presence) : s.Turn c { t with presence := p } := by
  cases h with
  | stays h => exact .stays (h.of_target rfl rfl rfl rfl)
  | rotated hp hcurrent hid hnone hclean => exact .rotated hp hcurrent hid hnone hclean
  | replaced hnext hid hnone hclassifier => exact .replaced hnext hid hnone hclassifier

theorem Turn.shown (h : s.Turn c t) (state : RealtimePresenceState) :
    s.Turn c (t.shown state) := by
  obtain ⟨p, hp⟩ := t.shown_eq state
  rw [hp]
  exact h.present p

theorem clean_resetEpoch (c : RealtimeActivityClassifier) : c.resetEpoch.Clean :=
  ⟨rfl, (by decide : (0 : UInt64) < 1)⟩

section Staying

theorem prepareContextRotation_stays (reason : ContextRotationReason) :
    s.Stays supplied (s.prepareContextRotation reason).2 := by
  simp only [prepareContextRotation]
  split
  · exact .refl
  · split
    · exact .refl
    · split
      · exact .refl
      · rename_i nextEpoch hnext
        refine ⟨rfl, fun p hp => .inr ?_, fun p hp => .inl hp, fun p hp => .inl hp⟩
        obtain rfl := Option.some.inj hp
        exact ⟨rfl, hnext⟩

theorem prepareStandbyContextRotation_stays (reason : ContextRotationReason) :
    s.Stays supplied (s.prepareStandbyContextRotation reason).2 := by
  simp only [prepareStandbyContextRotation]
  split
  · exact .refl
  · split
    · exact .refl
    · rename_i nextEpoch hnext
      refine ⟨rfl, fun p hp => .inr ?_, fun p hp => .inl hp, fun p hp => .inl hp⟩
      obtain rfl := Option.some.inj hp
      exact ⟨rfl, hnext⟩

theorem nextSegment_eq_some {next : Option String} {id : String}
    (h : s.nextSegment next = some id) : id ∈ next.toList := by
  obtain ⟨h, _⟩ := Option.filter_eq_some_iff.mp h
  rw [h]
  exact List.mem_singleton.mpr rfl

theorem prepareWake_stays (next : Option String) :
    s.Stays next.toList (s.prepareWake next).2 := by
  simp only [prepareWake]
  split
  · exact .refl
  · split
    · split
      · split
        · exact .refl
        · rename_i id hid
          refine ⟨rfl, fun p hp => .inl hp, fun p hp => .inr ?_, fun p hp => .inl hp⟩
          obtain rfl := Option.some.inj hp
          exact nextSegment_eq_some hid
      · split
        · exact .refl
        · split
          · exact .refl
          · rename_i nextEpoch hnext
            refine ⟨rfl, fun p hp => .inr ?_, fun p hp => .inl hp, fun p hp => .inl hp⟩
            obtain rfl := Option.some.inj hp
            exact ⟨rfl, hnext⟩
    · split
      · exact .refl
      · rename_i id hid
        refine ⟨rfl, fun p hp => .inl hp, fun p hp => .inl hp, fun p hp => .inr ?_⟩
        obtain rfl := Option.some.inj hp
        exact nextSegment_eq_some hid

theorem setPolicy_stays {profile : RealtimeActivityProfile}
    {intensity : RealtimeInteractionIntensity} :
    s.Stays supplied (s.setPolicy profile intensity).2 := by
  simp only [setPolicy]
  split
  · exact .refl
  · split
    · exact .refl
    · have hprepared : s.Stays supplied (({ s with
          activityProfile := profile
          activityClassifier := .new profile
          interactionIntensity := intensity } : RealtimeCoordinatorState).prepareContextRotation
            .profileChanged).2 :=
        (prepareContextRotation_stays .profileChanged).of_source rfl rfl rfl rfl
      split
      · rename_i heq
        rwa [heq] at hprepared
      · rename_i heq
        rw [heq] at hprepared
        exact hprepared.shown .preparing

theorem resumePrivacy_stays : s.Stays supplied s.resumePrivacy.2 := by
  simp only [resumePrivacy]
  split
  · exact .refl
  · split
    · rw [showing_snd]
      refine Stays.shown ?_ .standby
      exact .of_target .refl rfl rfl rfl rfl
    · exact (prepareContextRotation_stays .privacyResume).of_source rfl rfl rfl rfl

theorem extendPresence_stays {minutes : UInt16} :
    s.Stays supplied (s.extendPresence minutes).2 := by
  simp only [extendPresence]
  split
  · exact .refl
  · split
    · exact .refl
    · split <;> exact .of_target .refl rfl rfl rfl rfl

theorem tick_stays (nowMs : UInt64) : s.Stays supplied (s.tick nowMs).2 := by
  simp only [tick]
  split
  · exact .refl
  · split
    · refine Stays.shown ?_ .standby
      exact .of_target .refl rfl rfl rfl rfl
    · split
      · exact .refl
      · split
        · simp only [enterStandby]
          have hstandby : s.Stays supplied (({ s with
              status := .standby
              mediaGenerationEnabled := false
              standbyReason := some .inactivity
              localUnloadRequested := false
              localBackendUnloaded := false
              privacyResumeToStandby := false } : RealtimeCoordinatorState).shown .standby) := by
            refine Stays.shown ?_ .standby
            exact .of_target .refl rfl rfl rfl rfl
          split
          · split
            · exact hstandby.of_target rfl rfl rfl rfl
            · exact hstandby
          · exact hstandby
        · split
          · exact .of_target .refl rfl rfl rfl rfl
          · exact .refl

end Staying

section Turning

theorem userApprovedBackendChange_turn {segmentId personaDigest : String}
    {backend : RealtimeBackendKind} {cloudProvider : Option RealtimeCloudProviderKind} :
    s.Turn (.apply (.userApprovedBackendChange segmentId backend cloudProvider personaDigest))
      (s.userApprovedBackendChange segmentId backend cloudProvider personaDigest).2 := by
  simp only [userApprovedBackendChange]
  split
  · exact .refl
  rename_i hactive
  split
  · exact .refl
  rename_i hpersona
  split
  · exact .refl
  rename_i hsegment
  split
  · exact .refl
  rename_i hprovider
  simp only [not_or, Bool.not_eq_true, Bool.not_eq_false'] at hsegment hprovider
  have hinstalls : s.InstallsUnreset
      (.apply (.userApprovedBackendChange segmentId backend cloudProvider personaDigest)) :=
    ⟨not_not.mp hactive, not_not.mp hpersona, hsegment.1, hsegment.2, hprovider⟩
  split
  · exact .replaced (.inl List.mem_cons_self) rfl rfl (.inr ⟨hinstalls, rfl⟩)
  · rw [showing_snd]
    refine Turn.shown ?_ .preparing
    exact .replaced (.inl List.mem_cons_self) rfl rfl (.inr ⟨hinstalls, rfl⟩)

theorem recoverLocalSegment_turn {segmentId personaDigest : String} :
    s.Turn (.apply (.recoverLocalSegment segmentId personaDigest))
      (s.recoverLocalSegment segmentId personaDigest).2 := by
  simp only [recoverLocalSegment]
  split
  · exact .refl
  rename_i hactive
  split
  · exact .refl
  rename_i hguard
  simp only [not_or, not_not, Bool.not_eq_true', Bool.not_eq_false] at hguard
  obtain ⟨hbackend, haction, hpersona, hvalid, hne⟩ := hguard
  have hinstalls : s.InstallsUnreset (.apply (.recoverLocalSegment segmentId personaDigest)) :=
    ⟨not_not.mp hactive, hbackend, haction, hpersona, hvalid, hne⟩
  split
  · exact .replaced (.inl List.mem_cons_self) rfl rfl (.inr ⟨hinstalls, rfl⟩)
  · rw [showing_snd]
    refine Turn.shown ?_ .preparing
    exact .replaced (.inl List.mem_cons_self) rfl rfl (.inr ⟨hinstalls, rfl⟩)

theorem apply_turn (event : RealtimeCoordinatorEvent) :
    s.Turn (.apply event) (s.apply event).2 := by
  simp only [apply]
  split
  · exact .refl
  cases event with
  | rotateContext reason =>
    dsimp only
    split
    · exact .refl
    · exact .stays (prepareContextRotation_stays reason)
  | userApprovedBackendChange => exact userApprovedBackendChange_turn
  | recoverLocalSegment => exact recoverLocalSegment_turn
  | localBackendUnloaded =>
    simp only [localBackendUnload]
    split
    · exact .refl
    · exact .stays (.of_target .refl rfl rfl rfl rfl)
  | setPolicy => exact .stays setPolicy_stays
  | pausePrivacy =>
    simp only [pausePrivacy]
    split
    · exact .refl
    · refine .stays (Stays.shown ?_ .privacyPaused)
      exact .of_dropped rfl rfl
  | resumePrivacy => exact .stays resumePrivacy_stays
  | extendPresence => exact .stays extendPresence_stays
  | end' =>
    refine .stays (Stays.shown ?_ .idle)
    exact .of_dropped rfl rfl
  | backendFailed =>
    simp only [backendFailed]
    split
    · exact .refl
    · refine .stays (Stays.shown ?_ .error)
      exact .of_target .refl rfl rfl rfl rfl

theorem commitContextRotationAt_turn (hc : s.Coherent) (nextEpoch nowMs : UInt64) :
    s.Turn c (s.commitContextRotationAt nextEpoch nowMs).2 := by
  simp only [commitContextRotationAt]
  split
  · exact .refl
  · rename_i p hrotating
    obtain ⟨hp, hnext, hcurrent⟩ := Sound.rotating_iff.mp hrotating
    obtain ⟨hl, hcl⟩ := hc.no_wake_of_rotation (by simp [hp])
    have hpending : (s.rotated p nextEpoch nowMs).transitionPending = false := by
      rw [transitionPending_eq_false]
      simp only [rotated]
      split <;> exact ⟨rfl, hl, hcl⟩
    have hid : (s.rotated p nextEpoch nowMs).identity =
        { s.identity with epoch := p.nextEpoch } := by
      rw [hnext]
      simp only [rotated]
      split <;> rfl
    have hclean : (s.rotated p nextEpoch nowMs).activityClassifier.Clean := by
      simp only [rotated]
      split <;> exact clean_resetEpoch s.activityClassifier
    exact Turn.shown (.rotated hp hcurrent hid hpending hclean) .standby

theorem commitCloudWake_turn (hc : s.Coherent) (nextSegmentId : String) (nowMs : UInt64) :
    s.Turn (.commitCloudWake nextSegmentId nowMs) (s.commitCloudWake nextSegmentId nowMs).2 := by
  simp only [commitCloudWake]
  split
  · exact .refl
  · rename_i pending hpending
    obtain ⟨_, _, hr⟩ := hc.wake (.inr (by simp [hpending]))
    have hl : s.pendingLocalWake = none := hc.single.resolve_right (by simp [hpending])
    split
    · exact .refl
    · rename_i hmatch
      simp only [not_or, not_not] at hmatch
      split
      · rename_i hordinal
        have hwake : s.pendingCloudWake = some ⟨s.identity, nextSegmentId⟩ := by
          rw [hpending, ← hmatch.1, ← hmatch.2]
        exact .replaced (.inr (.inr ⟨pending, hpending, hmatch.2⟩)) rfl
          (transitionPending_eq_false.mpr ⟨hr, hl, rfl⟩)
          (.inr ⟨⟨hwake, checkedSucc32_eq_none hordinal⟩, rfl⟩)
      · refine Turn.shown ?_ .standby
        exact .replaced (.inr (.inr ⟨pending, hpending, hmatch.2⟩)) rfl
          (transitionPending_eq_false.mpr ⟨hr, hl, rfl⟩) (.inl (clean_resetEpoch _))

theorem commitLocalWake_turn (hc : s.Coherent) (nextSegmentId : String) (nowMs : UInt64) :
    s.Turn (.commitLocalWake nextSegmentId nowMs) (s.commitLocalWake nextSegmentId nowMs).2 := by
  simp only [commitLocalWake]
  split
  · exact .refl
  · rename_i pending hpending
    obtain ⟨_, _, hr⟩ := hc.wake (.inl (by simp [hpending]))
    have hcl : s.pendingCloudWake = none := hc.single.resolve_left (by simp [hpending])
    split
    · exact .refl
    · rename_i hmatch
      simp only [not_or, not_not] at hmatch
      split
      · rename_i hordinal
        have hwake : s.pendingLocalWake = some ⟨s.identity, nextSegmentId⟩ := by
          rw [hpending, ← hmatch.1, ← hmatch.2]
        exact .replaced (.inr (.inl ⟨pending, hpending, hmatch.2⟩)) rfl
          (transitionPending_eq_false.mpr ⟨hr, rfl, hcl⟩)
          (.inr ⟨⟨hwake, checkedSucc32_eq_none hordinal⟩, rfl⟩)
      · refine Turn.shown ?_ .standby
        exact .replaced (.inr (.inl ⟨pending, hpending, hmatch.2⟩)) rfl
          (transitionPending_eq_false.mpr ⟨hr, rfl, hcl⟩) (.inl (clean_resetEpoch _))

/-- What a call may do to the identity, whichever call it is. -/
theorem call_turn (hc : s.Coherent) (c : CoordinatorCall) : s.Turn c (s.call c).2 := by
  cases c with
  | apply event => exact apply_turn event
  | observeActivityCandidate sequence candidate =>
    simp only [call, observeActivityCandidate]
    split
    · exact .stays (.of_target .refl rfl rfl rfl rfl)
    · exact .refl
  | recordMeaningfulActivity nowMs =>
    simp only [call, recordMeaningfulActivity]
    split
    · exact .refl
    · exact .stays (.of_target .refl rfl rfl rfl rfl)
  | tick nowMs => exact .stays (tick_stays nowMs)
  | prepareWake next => exact .stays (prepareWake_stays next)
  | prepareContextRotation reason => exact .stays (prepareContextRotation_stays reason)
  | prepareStandbyContextRotation reason =>
    exact .stays (prepareStandbyContextRotation_stays reason)
  | commitContextRotationAt nextEpoch nowMs => exact commitContextRotationAt_turn hc nextEpoch nowMs
  | commitCloudWake next nowMs => exact commitCloudWake_turn hc next nowMs
  | commitLocalWake next nowMs => exact commitLocalWake_turn hc next nowMs
  | failContextRotation =>
    refine .stays (Stays.shown ?_ .error)
    exact .of_dropped rfl rfl
  | projectWorkerEvent event =>
    obtain ⟨p, hp⟩ := s.projectWorkerEvent_snd event
    simp only [call, hp]
    exact Turn.refl.present p
  | projectHostState state =>
    obtain ⟨p, hp⟩ := s.projectHostState_snd state
    simp only [call, hp]
    exact Turn.refl.present p
  | projectFairySpeech speaking =>
    obtain ⟨p, hp⟩ := s.projectFairySpeech_snd speaking
    simp only [call, hp]
    exact Turn.refl.present p

theorem call_coherent (hc : s.Coherent) (c : CoordinatorCall) : (s.call c).2.Coherent :=
  have hsound : s.Sound False false := ⟨hc, False.elim⟩
  (World.sound_after (w := ⟨s, false⟩) (c := c) hsound False.elim).coherent

end Turning

end RealtimeCoordinatorState

end Fairy.Realtime
