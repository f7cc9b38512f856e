import Fairy.Realtime.MediaProtocol
import Mathlib.Data.List.Induction
import Mathlib.Data.List.Nodup

namespace Fairy.Realtime

open Fairy.Lib

/-- What a run leaves on record: the packets that are accepted and the rotations. -/
inductive MediaEvent
  | accepted (header : MediaHeader)
  | rotated (epoch : UInt64)
  deriving DecidableEq

inductive MediaCall
  | rotateEpoch (epoch : UInt64)
  | configureVideo (width height : UInt32)
  | accept (header : MediaHeader) (payloadLength : Nat)
  deriving DecidableEq

namespace MediaCall

def perform (s : MediaValidationState) : MediaCall → MediaValidationState.Outcome
  | .rotateEpoch epoch => s.rotateEpoch epoch
  | .configureVideo width height => s.configureVideo width height
  | .accept header payloadLength => s.accept header payloadLength

/-- What a call that succeeds leaves on record. -/
def recorded : MediaCall → List MediaEvent
  | .rotateEpoch epoch => [.rotated epoch]
  | .configureVideo _ _ => []
  | .accept header _ => [.accepted header]

end MediaCall

structure MediaRun where
  state : MediaValidationState
  log : List MediaEvent
  deriving DecidableEq

namespace MediaRun

def start : MediaRun := ⟨.default, []⟩

def after (r : MediaRun) (c : MediaCall) : MediaRun where
  state := (c.perform r.state).2
  log := if (c.perform r.state).1 = .ok () then r.log ++ c.recorded else r.log

def Step (r : MediaRun) (c : MediaCall) (r' : MediaRun) : Prop := r' = r.after c

/-- A rotation goes to an epoch that the run has not been in. -/
def Fresh (r : MediaRun) (c : MediaCall) : Prop :=
  ∀ e ∈ c.recorded, ∀ epoch, e = .rotated epoch → .rotated epoch ∉ r.log

end MediaRun

section Log

/-- The packets that are accepted after the last rotation. -/
def segment (log : List MediaEvent) : List MediaHeader :=
  log.foldl (fun found e => match e with
    | .accepted header => found ++ [header]
    | .rotated _ => []) []

def epochs (log : List MediaEvent) : List UInt64 :=
  log.filterMap fun e => match e with
    | .accepted _ => none
    | .rotated epoch => some epoch

def microphones (headers : List MediaHeader) : List MediaHeader :=
  headers.filter fun header => header.kind = .microphonePcm16

variable {log l l₁ l₂ l₃ : List MediaEvent} {h h' : MediaHeader} {epoch epoch' : UInt64}

@[simp] theorem segment_accepted : segment (l ++ [.accepted h]) = segment l ++ [h] := by
  simp only [segment, List.foldl_append, List.foldl_cons, List.foldl_nil]

@[simp] theorem segment_rotated : segment (l ++ [.rotated epoch]) = [] := by
  simp only [segment, List.foldl_append, List.foldl_cons, List.foldl_nil]

@[simp] theorem epochs_accepted : epochs (l ++ [.accepted h]) = epochs l := by
  simp [epochs]

@[simp] theorem epochs_rotated : epochs (l ++ [.rotated epoch]) = epochs l ++ [epoch] := by
  simp [epochs]

theorem mem_epochs : epoch ∈ epochs l ↔ .rotated epoch ∈ l := by
  simp only [epochs, List.mem_filterMap]
  constructor
  · rintro ⟨e, he, hsome⟩
    cases e with
    | accepted h => cases hsome
    | rotated epoch' =>
      cases hsome
      exact he
  · intro he
    exact ⟨_, he, rfl⟩

/-- Without a rotation a segment goes on. -/
theorem segment_append (hnone : ∀ e, .rotated e ∉ l₂) :
    ∃ found, segment (l₁ ++ l₂) = segment l₁ ++ found ∧
      ∀ h, h ∈ found ↔ .accepted h ∈ l₂ := by
  induction l₂ using List.reverseRecOn with
  | nil => exact ⟨[], by simp, by simp⟩
  | append_singleton l₂ e ih =>
    obtain ⟨found, hfound, hmem⟩ := ih fun e he => hnone e (List.mem_append_left _ he)
    cases e with
    | accepted h =>
      refine ⟨found ++ [h], ?_, fun h' => ?_⟩
      · rw [← List.append_assoc, segment_accepted, hfound, List.append_assoc]
      · simp [hmem]
    | rotated epoch => exact absurd (by simp) (hnone epoch)

/-- What justifies an event by the events before it. -/
def Licit (l : List MediaEvent) : MediaEvent → Prop
  | .accepted h =>
    (epochs l).getLast? = some h.sessionEpoch ∧
      (∀ h' ∈ segment l, h'.sequence < h.sequence ∧ h'.timestampUs ≤ h.timestampUs) ∧
      ∀ h', (microphones (segment l)).getLast? = some h' → h.kind = .microphonePcm16 →
        h.timestampUs.toNat = h'.timestampUs.toNat + microphoneCadenceUs
  | .rotated epoch => epoch ∉ epochs l

/-- The packets are accepted once, in order, and in the epoch that they belong to. -/
structure ReplaySafe (log : List MediaEvent) : Prop where
  distinct : ∀ h h', List.Sublist [.accepted h, .accepted h'] log →
    ¬ (h.sessionEpoch = h'.sessionEpoch ∧ h.sequence = h'.sequence)
  increasing : ∀ l₁ h l₂ h' l₃, log = l₁ ++ .accepted h :: (l₂ ++ .accepted h' :: l₃) →
    (∀ e, .rotated e ∉ l₂) → h.sequence < h'.sequence ∧ h.timestampUs ≤ h'.timestampUs
  cadence : ∀ l₁ h l₂ h' l₃, log = l₁ ++ .accepted h :: (l₂ ++ .accepted h' :: l₃) →
    (∀ e, .rotated e ∉ l₂) → (∀ k, .accepted k ∈ l₂ → k.kind ≠ .microphonePcm16) →
    h.kind = .microphonePcm16 → h'.kind = .microphonePcm16 →
    h'.timestampUs.toNat = h.timestampUs.toNat + microphoneCadenceUs
  retired : ∀ e e' h, List.Sublist [.rotated e, .rotated e', .accepted h] log →
    h.sessionEpoch ≠ e

theorem nodup_epochs (hj : Justified Licit l) : (epochs l).Nodup := by
  induction l using List.reverseRecOn with
  | nil => exact List.nodup_nil
  | append_singleton l e ih =>
    have hl := ih (Justified.of_append hj)
    cases e with
    | accepted h => rwa [epochs_accepted]
    | rotated epoch =>
      have hfresh : epoch ∉ epochs l := hj l _ [] rfl
      rw [epochs_rotated]
      exact List.nodup_append'.mpr ⟨hl, List.nodup_singleton epoch, by simpa using hfresh⟩

/-- A packet that is not of the last segment is of an epoch before the last. -/
theorem mem_segment_or_retired (hj : Justified Licit l) (hmem : .accepted h ∈ l) :
    (h ∈ segment l ∧ (epochs l).getLast? = some h.sessionEpoch) ∨
      h.sessionEpoch ∈ (epochs l).dropLast := by
  induction l using List.reverseRecOn with
  | nil => simp at hmem
  | append_singleton l e ih =>
    have hl := Justified.of_append hj
    cases e with
    | accepted k =>
      rw [segment_accepted, epochs_accepted]
      obtain hold | hnew := List.mem_append.mp hmem
      · obtain ⟨hsegment, hlast⟩ | hretired := ih hl hold
        · exact .inl ⟨List.mem_append_left _ hsegment, hlast⟩
        · exact .inr hretired
      · obtain rfl : h = k := by simpa using hnew
        obtain ⟨hlast, _⟩ : Licit l (.accepted h) := hj l _ [] rfl
        exact .inl ⟨by simp, hlast⟩
    | rotated epoch =>
      have hold : .accepted h ∈ l := by simpa using hmem
      rw [epochs_rotated, List.dropLast_concat]
      obtain ⟨_, hlast⟩ | hretired := ih hl hold
      · exact .inr (List.mem_of_getLast? hlast)
      · exact .inr (List.dropLast_subset _ hretired)

theorem not_mem_dropLast {l : List UInt64} {a : UInt64} (hn : l.Nodup) (ha : l.getLast? = some a) :
    a ∉ l.dropLast := by
  obtain ⟨l', rfl⟩ := List.getLast?_eq_some_iff.mp ha
  rw [List.dropLast_concat]
  exact fun hmem => (List.nodup_append'.mp hn).2.2 hmem (by simp)

theorem replaySafe_of_justified (hj : Justified Licit log) : ReplaySafe log where
  distinct := by
    rintro h h' hsub ⟨hepoch, hsequence⟩
    obtain ⟨l₁, l₂, rfl, hmem, hmem'⟩ := List.cons_sublist_iff.mp hsub
    obtain ⟨l₃, l₄, rfl⟩ := List.append_of_mem (List.singleton_sublist.mp hmem')
    have hsplit : l₁ ++ (l₃ ++ .accepted h' :: l₄) = (l₁ ++ l₃) ++ .accepted h' :: l₄ := by simp
    rw [hsplit] at hj
    obtain ⟨hlast, hbelow, _⟩ : Licit (l₁ ++ l₃) (.accepted h') := hj _ _ _ rfl
    have hprefix := Justified.of_append hj
    obtain ⟨hsegment, _⟩ | hretired :=
      mem_segment_or_retired hprefix (List.mem_append_left l₃ hmem)
    · have hlt := (hbelow h hsegment).1
      rw [hsequence] at hlt
      exact UInt64.lt_irrefl _ hlt
    · rw [hepoch] at hretired
      exact not_mem_dropLast (nodup_epochs hprefix) hlast hretired
  increasing := by
    rintro l₁ h l₂ h' l₃ rfl hnone
    have hsplit : l₁ ++ .accepted h :: (l₂ ++ .accepted h' :: l₃) =
        ((l₁ ++ [.accepted h]) ++ l₂) ++ .accepted h' :: l₃ := by simp
    obtain ⟨_, hbelow, _⟩ : Licit ((l₁ ++ [.accepted h]) ++ l₂) (.accepted h') :=
      hj _ _ _ hsplit
    obtain ⟨found, hfound, _⟩ := @segment_append (l₁ ++ [.accepted h]) l₂ hnone
    apply hbelow
    rw [hfound, segment_accepted]
    simp
  cadence := by
    rintro l₁ h l₂ h' l₃ rfl hnone hquiet hmic hmic'
    have hsplit : l₁ ++ .accepted h :: (l₂ ++ .accepted h' :: l₃) =
        ((l₁ ++ [.accepted h]) ++ l₂) ++ .accepted h' :: l₃ := by simp
    obtain ⟨_, _, hcadence⟩ : Licit ((l₁ ++ [.accepted h]) ++ l₂) (.accepted h') :=
      hj _ _ _ hsplit
    obtain ⟨found, hfound, hmem⟩ := @segment_append (l₁ ++ [.accepted h]) l₂ hnone
    apply hcadence h _ hmic'
    have hsilent : microphones found = [] := by
      apply List.filter_eq_nil_iff.mpr
      intro k hk
      simpa using hquiet k ((hmem k).mp hk)
    rw [hfound, segment_accepted]
    simp only [microphones, List.filter_append] at hsilent ⊢
    rw [hsilent]
    simp [hmic]
  retired := by
    intro e e' h hsub
    obtain ⟨l₁, l₂, rfl, hmem, hsub⟩ := List.cons_sublist_iff.mp hsub
    obtain ⟨l₃, l₄, rfl, hmem', hsub⟩ := List.cons_sublist_iff.mp hsub
    obtain ⟨l₅, l₆, rfl⟩ := List.append_of_mem (List.singleton_sublist.mp hsub)
    have hsplit : l₁ ++ (l₃ ++ (l₅ ++ .accepted h :: l₆)) =
        (l₁ ++ l₃ ++ l₅) ++ .accepted h :: l₆ := by simp
    rw [hsplit] at hj
    obtain ⟨hlast, _⟩ : Licit (l₁ ++ l₃ ++ l₅) (.accepted h) := hj _ _ _ rfl
    have hnodup := nodup_epochs (Justified.of_append hj)
    rintro rfl
    -- the epoch of the first rotation is the last one of the log before the packet
    apply not_mem_dropLast hnodup hlast
    have hparts : epochs (l₁ ++ l₃ ++ l₅) = epochs l₁ ++ epochs (l₃ ++ l₅) := by
      simp [epochs, List.filterMap_append]
    have hne : epochs (l₃ ++ l₅) ≠ [] :=
      List.ne_nil_of_mem (mem_epochs.mpr (List.mem_append_left _ hmem'))
    rw [hparts, List.dropLast_append_of_ne_nil hne]
    exact List.mem_append_left _ (mem_epochs.mpr hmem)

end Log

namespace MediaRun

open MediaValidationState

variable {r r' : MediaRun} {c : MediaCall}

/-- What the counters of the state know of the record. -/
structure Sound (r : MediaRun) : Prop where
  justified : Justified Licit r.log
  epoch : r.state.sessionEpoch ≠ 0 → (epochs r.log).getLast? = some r.state.sessionEpoch
  bound : ∀ h ∈ segment r.log,
    h.sequence ≤ r.state.lastSequence ∧ h.timestampUs ≤ r.state.lastTimestampUs
  microphone : ∀ h, (microphones (segment r.log)).getLast? = some h →
    h.timestampUs = r.state.lastMicrophoneTimestampUs ∧ r.state.lastMicrophoneTimestampUs ≠ 0

theorem sound_start : start.Sound where
  justified := .nil
  epoch h := absurd rfl h
  bound := by simp [start, segment]
  microphone := by simp [start, segment, microphones]

/-- A call that is turned down changes nothing. -/
theorem after_error {e : MediaProtocolError} (h : (c.perform r.state).1 = .error e) :
    r.after c = r := by
  have hstate : (c.perform r.state).2 = r.state := by
    cases c with
    | rotateEpoch epoch => exact rotateEpoch_error h
    | configureVideo width height =>
      simp only [MediaCall.perform, configureVideo] at h ⊢
      split
      · rfl
      · rename_i hvalid
        rw [if_neg hvalid] at h
        cases h
    | accept header payloadLength => exact accept_error h
  simp only [after, hstate, h, reduceCtorEq, if_false]

theorem Sound.accepted {header : MediaHeader} {n : Nat} (hs : r.Sound)
    (hok : (r.state.accept header n).1 = .ok ()) : (r.after (.accept header n)).Sound := by
  obtain ⟨hahead, hstate⟩ := accept_ok hok
  have hlog : (r.after (.accept header n)).log = r.log ++ [.accepted header] := by
    simp only [after, MediaCall.perform, hok, if_true, MediaCall.recorded]
  have hnew : (r.after (.accept header n)).state = _ := hstate
  refine ⟨?_, ?_, ?_, ?_⟩
  · rw [hlog]
    refine hs.justified.snoc ⟨?_, fun h hh => ?_, fun h hlast hkind => ?_⟩
    · rw [hahead.epoch]
      exact hs.epoch hahead.positive
    · obtain ⟨hsequence, htimestamp⟩ := hs.bound h hh
      exact ⟨UInt64.lt_of_le_of_lt hsequence hahead.sequence,
        UInt64.le_trans htimestamp hahead.timestamp⟩
    · obtain ⟨hsame, hpositive⟩ := hs.microphone h hlast
      rw [hsame]
      exact hahead.cadence hkind hpositive
  · rw [hlog, hnew, epochs_accepted]
    exact hs.epoch
  · rw [hlog, hnew, segment_accepted]
    intro h hh
    obtain hold | hlast := List.mem_append.mp hh
    · obtain ⟨hsequence, htimestamp⟩ := hs.bound h hold
      exact ⟨UInt64.le_trans hsequence (UInt64.le_of_lt hahead.sequence),
        UInt64.le_trans htimestamp hahead.timestamp⟩
    · obtain rfl := List.mem_singleton.mp hlast
      exact ⟨UInt64.le_refl _, UInt64.le_refl _⟩
  · rw [hlog, hnew, segment_accepted]
    intro h hlast
    by_cases hkind : header.kind = .microphonePcm16
    · simp only [microphones, List.filter_append, List.filter_cons, hkind, decide_true, if_true,
        List.filter_nil, List.getLast?_concat, Option.some.injEq] at hlast ⊢
      rw [← hlast]
      exact ⟨rfl, hahead.stamped⟩
    · simp only [microphones, List.filter_append, List.filter_cons, hkind, decide_false,
        Bool.false_eq_true, if_false, List.filter_nil, List.append_nil] at hlast ⊢
      exact hs.microphone h hlast

theorem Sound.rotated {epoch : UInt64} (hs : r.Sound) (hfresh : r.Fresh (.rotateEpoch epoch))
    (hok : (r.state.rotateEpoch epoch).1 = .ok ()) : (r.after (.rotateEpoch epoch)).Sound := by
  obtain ⟨_, hstate⟩ := rotateEpoch_ok hok
  have hlog : (r.after (.rotateEpoch epoch)).log = r.log ++ [.rotated epoch] := by
    simp only [after, MediaCall.perform, hok, if_true, MediaCall.recorded]
  have hnew : (r.after (.rotateEpoch epoch)).state = _ := hstate
  refine ⟨?_, ?_, ?_, ?_⟩
  · rw [hlog]
    apply hs.justified.snoc
    intro hmem
    exact hfresh _ (List.mem_singleton.mpr rfl) epoch rfl (mem_epochs.mp hmem)
  · rw [hlog, hnew, epochs_rotated, List.getLast?_concat]
    exact fun _ => rfl
  · rw [hlog, segment_rotated]
    simp
  · rw [hlog, segment_rotated]
    simp [microphones]

theorem Sound.configured {width height : UInt32} (hs : r.Sound) :
    (r.after (.configureVideo width height)).Sound := by
  obtain ⟨hepoch, hsequence, htimestamp, hmicrophone⟩ :=
    configureVideo_keeps r.state width height
  have hlog : (r.after (.configureVideo width height)).log = r.log := by
    simp only [after, MediaCall.recorded, List.append_nil, ite_self]
  have hnew : (r.after (.configureVideo width height)).state =
      (r.state.configureVideo width height).2 := rfl
  refine ⟨?_, ?_, ?_, ?_⟩
  · rw [hlog]
    exact hs.justified
  · rw [hlog, hnew, hepoch]
    exact hs.epoch
  · rw [hlog, hnew, hsequence, htimestamp]
    exact hs.bound
  · rw [hlog, hnew, hmicrophone]
    exact hs.microphone

theorem Sound.step (hs : r.Sound) (hfresh : r.Fresh c) (h : Step r c r') : r'.Sound := by
  rw [show r' = r.after c from h]
  cases hresult : (c.perform r.state).1 with
  | error e => rwa [after_error hresult]
  | ok =>
    cases c with
    | rotateEpoch epoch => exact hs.rotated hfresh hresult
    | configureVideo width height => exact hs.configured
    | accept header n => exact hs.accepted hresult

/-- Rotations to epochs that the run has not been in keep every packet from being accepted
again. -/
theorem packets_accepted_once {r : MediaRun} (hrun : Run Step Fresh start r) :
    ReplaySafe r.log ∧ ∀ header payloadLength e,
      (r.state.accept header payloadLength).1 = .error e →
        (r.state.accept header payloadLength).2 = r.state := by
  have hsound : r.Sound := hrun.invariant (fun _ _ _ hs hf h => hs.step hf h) sound_start
  exact ⟨replaySafe_of_justified hsound.justified, fun _ _ _ => accept_error⟩

/-- A JPEG of one byte. -/
def smallFrame (epoch sequence : UInt64) : MediaHeader :=
  ⟨1, .jpeg, epoch, sequence, sequence, 1⟩

theorem packets_accepted_once_rotated :
    let r := [MediaCall.rotateEpoch 1, .accept (smallFrame 1 1) 1, .accept (smallFrame 1 1) 1,
      .rotateEpoch 2, .accept (smallFrame 2 1) 1].foldl after start
    r.log = [.rotated 1, .accepted (smallFrame 1 1), .rotated 2, .accepted (smallFrame 2 1)] ∧
      ReplaySafe r.log := by
  have hrun : Run Step Fresh start ([MediaCall.rotateEpoch 1, .accept (smallFrame 1 1) 1,
      .accept (smallFrame 1 1) 1, .rotateEpoch 2, .accept (smallFrame 2 1) 1].foldl after start) :=
    Run.foldl (by simp [Along, Fresh, MediaCall.recorded, start]; decide)
  exact ⟨by decide, (packets_accepted_once hrun).1⟩

/-- A rotation back to an epoch lets its packets in again. -/
theorem packets_accepted_twice : ¬ ∀ r, Run Step (fun _ _ => True) start r → ReplaySafe r.log := by
  intro h
  have hrun : Run Step (fun _ _ => True) start ([MediaCall.rotateEpoch 1,
      .accept (smallFrame 1 1) 1, .rotateEpoch 1, .accept (smallFrame 1 1) 1].foldl after start) :=
    Run.foldl (by simp [Along])
  have hlog : ([MediaCall.rotateEpoch 1, .accept (smallFrame 1 1) 1, .rotateEpoch 1,
      .accept (smallFrame 1 1) 1].foldl after start).log =
      [.rotated 1, .accepted (smallFrame 1 1), .rotated 1, .accepted (smallFrame 1 1)] := by
    decide
  have hsafe := h _ hrun
  rw [hlog] at hsafe
  exact hsafe.distinct (smallFrame 1 1) (smallFrame 1 1) (by decide) ⟨rfl, rfl⟩

end MediaRun

end Fairy.Realtime
