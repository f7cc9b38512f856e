import Fairy.Realtime.Identity

namespace Fairy.Realtime

open Fairy.Lib

/-- Where a worker event says that it belongs. -/
def WorkerEvent.source? : WorkerEvent → Option EventSource
  | .backendState source _ | .modelLoadProgress source | .sessionState source _
  | .publicCaption source | .presence source _ _ | .bargeIn source | .perceptionCandidate source
  | .assistanceRequest source | .assistanceState source _ | .toolRequest source
  | .resourcePressure source | .resourcePolicyApplied source _ | .contextRotated source
  | .segmentWoken source | .privacyPaused source => some source
  | .ready | .startupStage | .mediaChannelState | .captureSourceChanged | .resourceSample
  | .localSidecarFailure | .localBackendUnloaded | .usage | .diagnostic | .pong => none

/-- The identity that a worker event carries. -/
def EventSource.identity (source : EventSource) : ContextEpochIdentity :=
  ⟨source.sessionId, source.segmentId, source.contextEpoch⟩

/-- A session of the coordinator, with the segment identifiers that it has been given and the
identities that it has left. -/
structure Session where
  state : RealtimeCoordinatorState
  supplied : List String
  left : List ContextEpochIdentity
  deriving DecidableEq

namespace Session

def start (s : RealtimeCoordinatorState) : Session := ⟨s, [s.identity.segmentId], []⟩

def after (w : Session) (c : CoordinatorCall) : Session where
  state := (w.state.call c).2
  supplied := w.supplied ++ c.supplied
  left := if (w.state.call c).2.identity = w.state.identity then w.left
    else w.left ++ [w.state.identity]

def Step (w : Session) (c : CoordinatorCall) (w' : Session) : Prop := w' = w.after c

/-- Each supplied segment identifier is new in the session. -/
def Fresh (w : Session) (c : CoordinatorCall) : Prop := ∀ id ∈ c.supplied, id ∉ w.supplied

instance {w : Session} {c : CoordinatorCall} : Decidable (w.Fresh c) :=
  inferInstanceAs (Decidable (∀ id ∈ c.supplied, id ∉ w.supplied))

/-- A segment that may be installed yet: it is known and has been the segment of no identity. -/
structure Unused (w : Session) (segmentId : String) : Prop where
  known : segmentId ∈ w.supplied
  current : segmentId ≠ w.state.identity.segmentId
  left : ∀ l ∈ w.left, l.segmentId ≠ segmentId

/-- What every run of fresh segments keeps. -/
structure Sound (w : Session) : Prop where
  coherent : w.state.Coherent
  known : w.state.identity.segmentId ∈ w.supplied
  left : ∀ l ∈ w.left, l.segmentId ∈ w.supplied ∧
    (l.segmentId = w.state.identity.segmentId → l.epoch < w.state.identity.epoch)
  rotation : ∀ p ∈ w.state.pendingContextRotation,
    checkedSucc64 p.current.epoch = some p.nextEpoch
  localWake : ∀ p ∈ w.state.pendingLocalWake, w.Unused p.nextSegmentId
  cloudWake : ∀ p ∈ w.state.pendingCloudWake, w.Unused p.nextSegmentId

variable {w : Session} {c : CoordinatorCall}

theorem Sound.start {s : RealtimeCoordinatorState} {request : RealtimeCoordinatorStart}
    (h : RealtimeCoordinatorState.start request = .ok s) : (start s).Sound := by
  have hcoherent := (RealtimeCoordinatorState.start_coherent h).1
  simp only [RealtimeCoordinatorState.start] at h
  split at h
  · cases h
  · obtain rfl := Except.ok.inj h
    refine ⟨hcoherent, List.mem_singleton.mpr rfl, fun l hl => absurd hl List.not_mem_nil, ?_, ?_,
      ?_⟩
    all_goals exact fun p hp => Option.noConfusion rfl (heq_of_eq hp)

theorem checkedSucc64_lt {x y : UInt64} (h : checkedSucc64 x = some y) : x < y := by
  simp only [checkedSucc64] at h
  split at h
  · obtain rfl := Option.some.inj h
    rw [UInt64.lt_iff_toNat_lt, UInt64.toNat_add, UInt64.toNat_one, Nat.mod_eq_of_lt ‹_›]
    exact Nat.lt_succ_self _
  · cases h

/-- A state with nothing pending that has moved on from an identity it has left. -/
theorem Sound.moved {t : RealtimeCoordinatorState} {supplied : List String} (h : w.Sound)
    (hcoherent : t.Coherent) (hsupplied : w.supplied ⊆ supplied)
    (hknown : t.identity.segmentId ∈ supplied)
    (hepoch : t.identity.segmentId = w.state.identity.segmentId →
      w.state.identity.epoch < t.identity.epoch)
    (hleft : ∀ l ∈ w.left, l.segmentId = t.identity.segmentId → l.epoch < t.identity.epoch)
    (hnone : t.transitionPending = false) :
    (⟨t, supplied, w.left ++ [w.state.identity]⟩ : Session).Sound := by
  obtain ⟨hrotation, hlocal, hcloud⟩ :=
    RealtimeCoordinatorState.transitionPending_eq_false.mp hnone
  refine ⟨hcoherent, hknown, fun l hl => ?_, ?_, ?_, ?_⟩
  · obtain hl | hl := List.mem_append.mp hl
    · exact ⟨hsupplied (h.left l hl).1, hleft l hl⟩
    · obtain rfl := List.mem_singleton.mp hl
      exact ⟨hsupplied h.known, fun hsame => hepoch hsame.symm⟩
  all_goals
    intro p hp
    simp [hrotation, hlocal, hcloud] at hp

theorem Unused.grow {supplied : List String} {t : RealtimeCoordinatorState} {id : String}
    (h : w.Unused id) (hid : t.identity = w.state.identity) :
    (⟨t, w.supplied ++ supplied, w.left⟩ : Session).Unused id :=
  ⟨List.mem_append_left _ h.known, fun heq => h.current (heq.trans (congrArg _ hid)), h.left⟩

/-- An identifier that has just been supplied. -/
theorem Sound.unused_of_fresh {t : RealtimeCoordinatorState} {id : String} (h : w.Sound)
    (hfresh : w.Fresh c) (hmem : id ∈ c.supplied) (hid : t.identity = w.state.identity) :
    (⟨t, w.supplied ++ c.supplied, w.left⟩ : Session).Unused id := by
  have hnew := hfresh id hmem
  refine ⟨List.mem_append_right _ hmem, fun heq => ?_, fun l hl heq => ?_⟩
  · have heq : id = t.identity.segmentId := heq
    rw [heq, hid] at hnew
    exact hnew h.known
  · exact hnew (heq ▸ (h.left l hl).1)

theorem Sound.after (h : w.Sound) (hfresh : w.Fresh c) : (w.after c).Sound := by
  have hturn := RealtimeCoordinatorState.call_turn h.coherent c
  have hcoherent := RealtimeCoordinatorState.call_coherent h.coherent c
  simp only [Session.after]
  generalize (w.state.call c).2 = t at hturn hcoherent
  cases hturn with
  | stays hs =>
    rw [if_pos hs.identity]
    refine ⟨hcoherent, ?_, fun l hl => ?_, fun p hp => ?_, fun p hp => ?_, fun p hp => ?_⟩
    · rw [hs.identity]
      exact List.mem_append_left _ h.known
    · rw [hs.identity]
      exact ⟨List.mem_append_left _ (h.left l hl).1, (h.left l hl).2⟩
    · obtain hp | ⟨hcurrent, hnext⟩ := hs.rotation p hp
      · exact h.rotation p hp
      · rw [hcurrent]
        exact hnext
    · obtain hp | hmem := hs.localWake p hp
      · exact (h.localWake p hp).grow hs.identity
      · exact h.unused_of_fresh hfresh hmem hs.identity
    · obtain hp | hmem := hs.cloudWake p hp
      · exact (h.cloudWake p hp).grow hs.identity
      · exact h.unused_of_fresh hfresh hmem hs.identity
  | @rotated p hp hcurrent hid hnone hclean =>
    have hlt : w.state.identity.epoch < p.nextEpoch := by
      have := h.rotation p hp
      rw [hcurrent] at this
      exact checkedSucc64_lt this
    have hchanged : t.identity ≠ w.state.identity := by
      intro heq
      rw [hid] at heq
      have := congrArg ContextEpochIdentity.epoch heq
      rw [← this] at hlt
      exact absurd hlt (UInt64.lt_irrefl _)
    rw [if_neg hchanged]
    refine h.moved hcoherent (List.subset_append_left _ _) ?_ (fun _ => ?_)
      (fun l hl hsame => ?_) hnone
    · rw [hid]
      exact List.mem_append_left _ h.known
    · rw [hid]
      exact hlt
    · rw [hid] at hsame ⊢
      exact UInt64.lt_trans ((h.left l hl).2 hsame) hlt
  | @replaced segmentId hnext hid hnone hclassifier =>
    have hunused : segmentId ∈ w.supplied ++ c.supplied ∧
        segmentId ≠ w.state.identity.segmentId ∧ ∀ l ∈ w.left, l.segmentId ≠ segmentId := by
      obtain hmem | ⟨p, hp, rfl⟩ | ⟨p, hp, rfl⟩ := hnext
      · obtain ⟨hknown, hcurrent, hleft⟩ := h.unused_of_fresh (t := w.state) hfresh hmem rfl
        exact ⟨hknown, hcurrent, hleft⟩
      · obtain ⟨hknown, hcurrent, hleft⟩ := h.localWake p hp
        exact ⟨List.mem_append_left _ hknown, hcurrent, hleft⟩
      · obtain ⟨hknown, hcurrent, hleft⟩ := h.cloudWake p hp
        exact ⟨List.mem_append_left _ hknown, hcurrent, hleft⟩
    obtain ⟨hknown, hcurrent, hleft⟩ := hunused
    have hsegment : t.identity.segmentId = segmentId := congrArg _ hid
    have hchanged : t.identity ≠ w.state.identity := by
      intro heq
      exact hcurrent (hsegment.symm.trans (congrArg _ heq))
    rw [if_neg hchanged]
    refine h.moved hcoherent (List.subset_append_left _ _) ?_ (fun hsame => ?_)
      (fun l hl hsame => ?_) hnone
    · rw [hsegment]
      exact hknown
    · exact absurd (hsegment.symm.trans hsame) hcurrent
    · exact absurd (hsame.trans hsegment) (hleft l hl)

theorem Sound.run {w' : Session} (h : w.Sound) (hrun : Run Step Fresh w w') : w'.Sound :=
  hrun.invariant (fun a c b (hsound : a.Sound) hfresh hstep => by
    have hstep : b = a.after c := hstep
    rw [hstep]
    exact hsound.after hfresh) h

theorem Sound.not_mem_left (h : w.Sound) : w.state.identity ∉ w.left :=
  fun hmem => absurd ((h.left _ hmem).2 rfl) (UInt64.lt_irrefl _)

end Session

namespace RealtimeCoordinatorState

variable {s : RealtimeCoordinatorState} {c : CoordinatorCall}

theorem workerPresenceInput_source {event : WorkerEvent} {source : EventSource}
    {state : RealtimePresenceState} {level : Option UInt8}
    (h : workerPresenceInput event = some (source, state, level)) :
    event.source? = some source := by
  cases event with
  | backendState | sessionState | presence =>
    obtain ⟨_, _, heq⟩ := Option.map_eq_some_iff.mp h
    cases heq
    rfl
  | ready | startupStage | mediaChannelState | captureSourceChanged | resourceSample
  | localSidecarFailure | localBackendUnloaded | usage | diagnostic | pong => cases h
  | _ =>
    cases h
    rfl

/-- A worker event of another identity is dropped. -/
theorem projectWorkerEvent_of_ne {event : WorkerEvent} {source : EventSource}
    (hsource : event.source? = some source) (hne : source.identity ≠ s.identity) :
    s.projectWorkerEvent event = (none, s) := by
  simp only [projectWorkerEvent]
  split
  · rfl
  · rename_i other state level hinput
    obtain rfl := Option.some.inj (hsource.symm.trans (workerPresenceInput_source hinput))
    rw [if_pos]
    by_contra hguard
    simp only [not_or, not_not] at hguard
    obtain ⟨_, _, hsession, hsegment, hepoch⟩ := hguard
    apply hne
    rw [EventSource.identity, hsession, hsegment, hepoch]

theorem acceptsResult_of_ne {identity : ContextEpochIdentity} (hne : identity ≠ s.identity) :
    s.acceptsResult identity.sessionId identity.segmentId identity.epoch = false := by
  refine decide_eq_false ?_
  cases identity with
  | mk sessionId segmentId epoch =>
    rintro ⟨_, _, _, rfl, rfl, rfl⟩
    exact hne rfl

theorem backendProvider_not {backend : RealtimeBackendKind}
    {cloudProvider : Option RealtimeCloudProviderKind}
    (h : backendProviderValid backend cloudProvider = true) :
    ¬ (!backendProviderValid backend cloudProvider) = true := by
  simp [h]

/-- What installs a segment without a reset changes the segment and keeps the classifier. -/
theorem call_of_installsUnreset (h : s.InstallsUnreset c)
    (hwake : ∀ id, s.pendingLocalWake = some ⟨s.identity, id⟩ ∨
      s.pendingCloudWake = some ⟨s.identity, id⟩ → id ≠ s.identity.segmentId) :
    (s.call c).2.identity ≠ s.identity ∧
      (s.call c).2.activityClassifier = s.activityClassifier := by
  have hsegment : ∀ {t : RealtimeCoordinatorState} {id : String}, id ≠ s.identity.segmentId →
      t.identity.segmentId = id → t.identity ≠ s.identity :=
    fun hne hid heq => hne (hid.symm.trans (congrArg _ heq))
  have hshown : ∀ (t : RealtimeCoordinatorState) (state : RealtimePresenceState),
      (t.showing state).2.identity = t.identity ∧
        (t.showing state).2.activityClassifier = t.activityClassifier := by
    intro t state
    obtain ⟨p, hp⟩ := t.shown_eq state
    rw [showing_snd, hp]
    exact ⟨rfl, rfl⟩
  cases c with
  | apply event =>
    cases event with
    | userApprovedBackendChange segmentId backend cloudProvider personaDigest =>
      obtain ⟨hactive, hpersona, hvalid, hne, hprovider⟩ := h
      have hguard : ¬ ((!validIdentifier segmentId) = true ∨
          segmentId = s.identity.segmentId) := by simp [hvalid, hne]
      simp only [call, apply, userApprovedBackendChange]
      rw [if_neg (by simp [hactive]), if_neg (not_not.mpr hactive), if_neg (not_not.mpr hpersona),
        if_neg hguard, if_neg (backendProvider_not hprovider)]
      split
      · exact ⟨hsegment hne rfl, rfl⟩
      · rename_i ordinal _
        obtain ⟨hid, hclassifier⟩ := hshown _ .preparing
        exact ⟨hsegment hne (congrArg _ hid), hclassifier⟩
    | recoverLocalSegment segmentId personaDigest =>
      obtain ⟨hactive, hbackend, haction, hpersona, hvalid, hne⟩ := h
      have hguard : ¬ (s.backend ≠ .localMiniCpmO45 ∨ (!s.actionRequired) = true ∨
          personaDigest ≠ s.personaDigest ∨ (!validIdentifier segmentId) = true ∨
          segmentId = s.identity.segmentId) := by
        simp [hbackend, haction, hpersona, hvalid, hne]
      simp only [call, apply, recoverLocalSegment]
      rw [if_neg (by simp [hactive]), if_neg (not_not.mpr hactive), if_neg hguard]
      split
      · exact ⟨hsegment hne rfl, rfl⟩
      · obtain ⟨hid, hclassifier⟩ := hshown _ .preparing
        exact ⟨hsegment hne (congrArg _ hid), hclassifier⟩
    | _ => exact h.elim
  | commitCloudWake next nowMs =>
    obtain ⟨hpending, hordinal⟩ := h
    have hnone : checkedSucc32 s.segment.ordinal = none := if_neg hordinal
    have hmatch : ¬ (s.identity ≠ s.identity ∨ next ≠ next) := by simp
    simp only [call, commitCloudWake, hpending, hnone]
    rw [if_neg hmatch]
    exact ⟨hsegment (hwake next (.inr hpending)) rfl, rfl⟩
  | commitLocalWake next nowMs =>
    obtain ⟨hpending, hordinal⟩ := h
    have hnone : checkedSucc32 s.segment.ordinal = none := if_neg hordinal
    have hmatch : ¬ (s.identity ≠ s.identity ∨ next ≠ next) := by simp
    simp only [call, commitLocalWake, hpending, hnone]
    rw [if_neg hmatch]
    exact ⟨hsegment (hwake next (.inl hpending)) rfl, rfl⟩
  | _ => exact h.elim

end RealtimeCoordinatorState

namespace Session

/-- The classifier is at the start of its epoch when a call has changed the identity. -/
def ResetBy (w : Session) (c : CoordinatorCall) : Prop :=
  (w.after c).state.identity ≠ w.state.identity → (w.after c).state.activityClassifier.Clean

variable {w : Session} {c : CoordinatorCall}

theorem Sound.resetBy_iff (h : w.Sound) :
    w.ResetBy c ↔ (w.state.InstallsUnreset c → w.state.activityClassifier.Clean) := by
  constructor
  · intro hreset hinstalls
    obtain ⟨hchanged, hkept⟩ := RealtimeCoordinatorState.call_of_installsUnreset hinstalls
      fun id hid => hid.elim (fun hl => (h.localWake _ hl).current) fun hcl =>
        (h.cloudWake _ hcl).current
    exact hkept ▸ hreset hchanged
  · intro hclean hchanged
    have hturn := RealtimeCoordinatorState.call_turn h.coherent c
    simp only [Session.after] at hchanged ⊢
    generalize (w.state.call c).2 = t at hturn hchanged ⊢
    cases hturn with
    | stays hs => exact absurd hs.identity hchanged
    | rotated hp hcurrent hid hnone hreset => exact hreset
    | replaced hnext hid hnone hclassifier =>
      obtain hreset | ⟨hinstalls, hkept⟩ := hclassifier
      · exact hreset
      · rw [hkept]
        exact hclean hinstalls

/-- Over every run with fresh segments: no identity comes back, what was left is fenced off, and a
call resets the classifier exactly where the classifier is clean or the call is not one of those
that install a segment without a reset. -/
theorem identity_moves_on {request : RealtimeCoordinatorStart} {s : RealtimeCoordinatorState}
    (hstart : RealtimeCoordinatorState.start request = .ok s)
    (hrun : Run Step Fresh (start s) w) :
    w.state.identity ∉ w.left ∧
    (∀ l ∈ w.left, w.state.acceptsResult l.sessionId l.segmentId l.epoch = false ∧
      ∀ event source, event.source? = some source → source.identity = l →
        w.state.projectWorkerEvent event = (none, w.state)) ∧
    ∀ c, w.ResetBy c ↔ (w.state.InstallsUnreset c → w.state.activityClassifier.Clean) := by
  have h : w.Sound := (Sound.start hstart).run hrun
  refine ⟨h.not_mem_left, fun l hl => ?_, fun c => h.resetBy_iff⟩
  have hne : l ≠ w.state.identity := fun heq => h.not_mem_left (heq ▸ hl)
  refine ⟨RealtimeCoordinatorState.acceptsResult_of_ne hne, fun event source hsource hid => ?_⟩
  exact RealtimeCoordinatorState.projectWorkerEvent_of_ne hsource (hid ▸ hne)

/-- Evidence for the activity game. -/
def gameCandidate : RealtimeDialogueCandidate := ⟨.game, true, false, ["current_window:game"]⟩

/-- The companion has seen a game, and its backend is changed by the user. -/
def changedCompanion : Session :=
  (start companion).after (.observeActivityCandidate 5 gameCandidate)

theorem changedCompanion_not_reset : ¬ ∀ request s w,
    RealtimeCoordinatorState.start request = .ok s → Run Step Fresh (start s) w →
      ∀ c, w.Fresh c → w.ResetBy c := by
  intro h
  have hrun : Run Step Fresh (start companion) changedCompanion :=
    Run.foldl (l := [CoordinatorCall.observeActivityCandidate 5 gameCandidate]) (by decide +kernel)
  have hreset := h _ _ _ start_companion hrun
    (.apply (.userApprovedBackendChange "segment-2" .cloudLive (some .glmRealtimeAir)
      companionRequest.personaDigest)) (by decide +kernel)
  have hevidence := (hreset (by decide +kernel)).evidence
  revert hevidence
  decide +kernel

/-- A rotation leaves the first epoch of the companion. -/
def rotatedCompanion : Session :=
  [CoordinatorCall.observeActivityCandidate 5 gameCandidate,
    .prepareContextRotation .windowChanged, .commitContextRotationAt 2 1000].foldl after
      (start companion)

theorem rotatedCompanion_moves_on : rotatedCompanion.left = [companion.identity] ∧
    rotatedCompanion.state.acceptsResult "session-1" "segment-1" 1 = false ∧
    rotatedCompanion.ResetBy (.prepareContextRotation .manual) := by
  have hrun : Run Step Fresh (start companion) rotatedCompanion := Run.foldl (by decide +kernel)
  obtain ⟨_, hfenced, hreset⟩ := identity_moves_on start_companion hrun
  have hleft : rotatedCompanion.left = [companion.identity] := by decide +kernel
  refine ⟨hleft, (hfenced companion.identity ?_).1, (hreset _).mpr False.elim⟩
  rw [hleft]
  exact List.mem_singleton.mpr rfl

end Session

end Fairy.Realtime
