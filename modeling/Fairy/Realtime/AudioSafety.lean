import Fairy.Realtime.AudioProcessing
import Fairy.Lib.Run
import Fairy.Lib.Fallible

namespace Fairy.Realtime

open Fairy.Lib

section Slices

variable {α : Type}

theorem slice_some {l : List α} {start end' : Nat} (hs : start ≤ end') (he : end' ≤ l.length) :
    ∃ l', slice l start end' = some l' ∧ l'.length = end' - start := by
  refine ⟨_, if_pos ⟨hs, he⟩, ?_⟩
  rw [List.length_drop, List.length_take]
  omega

theorem copyFromSlice_some {l : List α} {start : Nat} (source : List α) (hs : start ≤ l.length)
    (hl : l.length - start = source.length) :
    ∃ l', copyFromSlice l start source = some l' ∧ l'.length = l.length := by
  refine ⟨_, if_pos ⟨hs, hl⟩, ?_⟩
  rw [List.length_append, List.length_take]
  omega

theorem boundedExtend_length (queue samples : List α) (maximum : Nat) :
    (boundedExtend queue samples maximum).length ≤ maximum := by
  simp only [boundedExtend, List.length_append, List.length_drop]
  omega

end Slices

variable {F : Type} {a : Arithmetic F}

section Frame

variable {reference weights : List F} {microphone : List Int16}

theorem estimateDelay_some (reference : List F) (microphone : List Int16) :
    ∃ delay, estimateDelay a reference microphone = some delay := by
  simp only [estimateDelay]
  split
  · exact ⟨0, rfl⟩
  rename_i hlong
  obtain ⟨_, hlength⟩ := not_or.mp hlong
  have hstep : ∀ best : Nat × F, True → ∀ step ∈ List.range
      (min maxDelaySamples (reference.length - audioProcessingFrameSamples) / delaySearchStep + 1),
      ∃ best', scoreDelay a reference microphone (a.rms microphone) best
        (step * delaySearchStep) = some best' ∧ True := by
    intro best _ step hmem
    have hle : step * delaySearchStep ≤
        min maxDelaySamples (reference.length - audioProcessingFrameSamples) :=
      Nat.le_trans (Nat.mul_le_mul_right _ (Nat.lt_succ_iff.mp (List.mem_range.mp hmem)))
        (Nat.div_mul_le_self _ _)
    have hdelay : step * delaySearchStep ≤ reference.length := by omega
    have hend : audioProcessingFrameSamples ≤ reference.length - step * delaySearchStep := by omega
    have hstart : reference.length - step * delaySearchStep - audioProcessingFrameSamples ≤
        reference.length - step * delaySearchStep := Nat.sub_le _ _
    obtain ⟨candidate, hcandidate, _⟩ := slice_some hstart (Nat.sub_le reference.length _)
    simp only [scoreDelay, subIndex, if_pos hdelay, if_pos hend, Option.bind_eq_bind,
      Option.bind_some, hcandidate]
    split
    · exact ⟨best, rfl, trivial⟩
    · exact ⟨_, rfl, trivial⟩
  obtain ⟨best, hbest, _⟩ := foldlM_some hstep (b := (0, a.literal 0)) trivial
  exact ⟨best.1, by rw [hbest]; rfl⟩

theorem estimateEcho_some {referenceIndex : Nat} (hw : weights.length = echoFilterTaps)
    (hlow : echoFilterTaps ≤ referenceIndex) (hhigh : referenceIndex < reference.length) :
    ∃ found, estimateEcho a weights reference referenceIndex = some found := by
  have hstep : ∀ found : F × F, True → ∀ tap ∈ List.range echoFilterTaps, ∃ found',
      (do
        let index ← subIndex referenceIndex tap
        let value ← reference[index]?
        let weight ← weights[tap]?
        return (a.add found.1 (a.mul weight value), a.add found.2 (a.mul value value))) =
          some found' ∧ True := by
    intro found _ tap hmem
    have htap := List.mem_range.mp hmem
    have hindex : referenceIndex - tap < reference.length := by omega
    simp only [subIndex, if_pos (Nat.le_trans (Nat.le_of_lt htap) hlow), Option.bind_eq_bind,
      Option.bind_some, List.getElem?_eq_getElem hindex,
      List.getElem?_eq_getElem (hw ▸ htap : tap < weights.length)]
    exact ⟨_, rfl, trivial⟩
  obtain ⟨found, hfound, _⟩ := foldlM_some hstep (b := (a.literal 0, a.literal 1)) trivial
  exact ⟨found, hfound⟩

theorem adaptWeights_some {referenceIndex : Nat} (step : F)
    (hw : weights.length = echoFilterTaps) (hlow : echoFilterTaps ≤ referenceIndex)
    (hhigh : referenceIndex < reference.length) :
    ∃ weights', adaptWeights a weights reference referenceIndex step = some weights' ∧
      weights'.length = echoFilterTaps := by
  refine foldlM_some (I := fun weights : List F => weights.length = echoFilterTaps)
    (fun weights hlength tap hmem => ?_) hw
  have htap := List.mem_range.mp hmem
  have hindex : referenceIndex - tap < reference.length := by omega
  simp only [subIndex, if_pos (Nat.le_trans (Nat.le_of_lt htap) hlow), Option.bind_eq_bind,
    Option.bind_some, List.getElem?_eq_getElem hindex,
    List.getElem?_eq_getElem (hlength ▸ htap : tap < weights.length)]
  exact ⟨_, rfl, by rw [List.length_set, hlength]⟩

theorem filterSample_some {adaptation : F} {found : List F × List F} {sample : Int16 × Nat}
    (hw : found.2.length = echoFilterTaps)
    (hr : reference.length = audioProcessingFrameSamples + echoFilterTaps)
    (hsample : sample.2 < audioProcessingFrameSamples) :
    ∃ found', filterSample a reference adaptation found sample = some found' ∧
      found'.2.length = echoFilterTaps := by
  have hlow : echoFilterTaps ≤ echoFilterTaps + sample.2 := Nat.le_add_right _ _
  have hhigh : echoFilterTaps + sample.2 < reference.length := by omega
  obtain ⟨⟨estimate, energy⟩, hestimate⟩ := estimateEcho_some (a := a) hw hlow hhigh
  obtain ⟨weights', hadapted, hlength⟩ := adaptWeights_some (a := a)
    (a.div (a.mul adaptation (a.sub (a.ofSample sample.1) estimate)) energy) hw hlow hhigh
  exact ⟨(_, weights'), by simp only [filterSample, hestimate, Option.bind_eq_bind,
    Option.bind_some, hadapted]; rfl, hlength⟩

/-- Without weights the first tap of the first sample is out of range. -/
theorem filterSample_none {adaptation : F} {output : List F} {sample : Int16 × Nat}
    : filterSample a reference adaptation (output, []) sample = none := by
  have hestimate : estimateEcho a [] reference (echoFilterTaps + sample.2) = none := by
    simp only [estimateEcho]
    rw [show List.range echoFilterTaps = 0 :: (List.range 127).map Nat.succ from
      List.range_succ_eq_map, List.foldlM_cons]
    cases subIndex (echoFilterTaps + sample.2) 0 with
    | none => rfl
    | some index =>
      cases reference[index]? with
      | none => simp
      | some value => simp
  simp only [filterSample, hestimate]
  rfl

end Frame

namespace RealtimeAudioProcessor

variable {s s' : RealtimeAudioProcessor F} {microphone : List Int16} {reference : List F}

/-- The reference of a frame is loud enough for the echo filter. -/
def Audible (a : Arithmetic F) (reference : List F) : Prop :=
  a.lt (a.rmsF32 (reference.drop (reference.length - audioProcessingFrameSamples)))
    a.minRenderRms = false

/-- The processor with other weights. -/
def withWeights (s : RealtimeAudioProcessor F) (weights : List F) : RealtimeAudioProcessor F :=
  { s with echoWeights := weights }

/-- What the frame pipeline leaves of the processor. -/
structure Carries (s s' : RealtimeAudioProcessor F) : Prop where
  microphone : s'.microphone = s.microphone
  reference : s'.renderReference = s.renderReference

theorem searchDelay_some (s : RealtimeAudioProcessor F) (history : List F)
    (microphone : List Int16) :
    ∃ s', s.searchDelay a history microphone = some s' ∧ Carries s s' ∧
      s'.echoWeights = s.echoWeights ∧
      ∀ w, (s.withWeights w).searchDelay a history microphone = some (s'.withWeights w) := by
  obtain ⟨delay, hdelay⟩ := estimateDelay_some (a := a) history microphone
  simp only [searchDelay, withWeights, hdelay]
  split
  · exact ⟨_, rfl, ⟨rfl, rfl⟩, rfl, fun _ => rfl⟩
  · exact ⟨_, rfl, ⟨rfl, rfl⟩, rfl, fun _ => rfl⟩

/-- The alignment of a frame never panics, and does not read the weights. -/
theorem alignedReference_some (s : RealtimeAudioProcessor F) (microphone : List Int16) :
    ∃ reference s', s.alignedReference a microphone = some (reference, s') ∧
      reference.length = audioProcessingFrameSamples + echoFilterTaps ∧
      Carries s s' ∧ s'.echoWeights = s.echoWeights ∧
      ∀ w, (s.withWeights w).alignedReference a microphone =
        some (reference, s'.withWeights w) := by
  by_cases hshort : (s.renderReference.map a.ofSample).length < audioProcessingFrameSamples
  · refine ⟨_, s, if_pos hshort, List.length_replicate, ⟨rfl, rfl⟩, rfl, fun w => if_pos hshort⟩
  obtain ⟨s', hsearch, hcarries, hweights, hother⟩ := searchDelay_some (a := a) s
    (s.renderReference.map a.ofSample) microphone
  have hhistory : (s.renderReference.map a.ofSample).length - s'.echoDelaySamples -
      audioProcessingFrameSamples - echoFilterTaps ≤
      (s.renderReference.map a.ofSample).length - s'.echoDelaySamples := by omega
  obtain ⟨source, hsource, hlength⟩ := slice_some hhistory
    (Nat.sub_le (s.renderReference.map a.ofSample).length s'.echoDelaySamples)
  have hroom : audioProcessingFrameSamples + echoFilterTaps - source.length ≤ (List.replicate
      (audioProcessingFrameSamples + echoFilterTaps) (a.literal 0)).length := by
    rw [List.length_replicate]
    omega
  obtain ⟨aligned, hcopy, hrequired⟩ := copyFromSlice_some source hroom
    (by rw [List.length_replicate]; omega)
  refine ⟨aligned, s', ?_, ?_, hcarries, hweights, fun w => ?_⟩
  · simp only [alignedReference]
    rw [if_neg hshort, hsearch]
    simp only [Option.bind_eq_bind, Option.bind_some, hsource, hcopy]
    rfl
  · rw [hrequired, List.length_replicate]
  · have hshort' : ¬ ((s.withWeights w).renderReference.map a.ofSample).length <
        audioProcessingFrameSamples := hshort
    have hsearch' : (s.withWeights w).searchDelay a
        ((s.withWeights w).renderReference.map a.ofSample) microphone =
        some (s'.withWeights w) := hother w
    have hsource' : slice ((s.withWeights w).renderReference.map a.ofSample)
        (((s.withWeights w).renderReference.map a.ofSample).length -
          (s'.withWeights w).echoDelaySamples - audioProcessingFrameSamples - echoFilterTaps)
        (((s.withWeights w).renderReference.map a.ofSample).length -
          (s'.withWeights w).echoDelaySamples) = some source := hsource
    simp only [alignedReference]
    rw [if_neg hshort', hsearch']
    simp only [Option.bind_eq_bind, Option.bind_some, hsource', hcopy]
    rfl

/-- The echo filter, with the frame that it compares with its threshold. -/
theorem cancelEcho_eq (s : RealtimeAudioProcessor F) (microphone : List Int16)
    (hr : reference.length = audioProcessingFrameSamples + echoFilterTaps) :
    ∃ adaptation, s.cancelEcho a microphone reference =
      if a.lt (a.rmsF32 (reference.drop (reference.length - audioProcessingFrameSamples)))
          a.minRenderRms then some (microphone.map a.ofSample, s)
      else (microphone.zipIdx.foldlM (filterSample a reference adaptation)
        ([], s.echoWeights)).map fun found => (found.1, s.withWeights found.2) := by
  have hstart : subIndex reference.length audioProcessingFrameSamples =
      some (reference.length - audioProcessingFrameSamples) := if_pos (by omega)
  have hslice : slice reference (reference.length - audioProcessingFrameSamples)
      reference.length = some (reference.drop (reference.length - audioProcessingFrameSamples)) := by
    simp only [slice]
    rw [if_pos ⟨Nat.sub_le _ _, Nat.le_refl _⟩, List.take_length]
  simp only [cancelEcho, hstart, hslice, Option.bind_eq_bind, Option.bind_some]
  refine ⟨if a.lt (a.mul (a.rmsF32 (reference.drop (reference.length -
      audioProcessingFrameSamples))) (a.literal (35 / 10))) (a.rms microphone) then
    a.literal (15 / 1000) else a.literal (12 / 100), ?_⟩
  split
  · rfl
  · exact (Option.map_eq_bind ..).symm

theorem cancelEcho_silent (hr : reference.length = audioProcessingFrameSamples + echoFilterTaps)
    (h : ¬ Audible a reference) :
    s.cancelEcho a microphone reference = some (microphone.map a.ofSample, s) := by
  obtain ⟨adaptation, heq⟩ := cancelEcho_eq (a := a) s microphone hr
  rw [heq, if_pos (by simpa [Audible] using h)]

theorem cancelEcho_weighted (hr : reference.length = audioProcessingFrameSamples + echoFilterTaps)
    (hw : s.echoWeights.length = echoFilterTaps)
    (hm : microphone.length ≤ audioProcessingFrameSamples) :
    ∃ output weights, s.cancelEcho a microphone reference =
      some (output, s.withWeights weights) ∧ weights.length = echoFilterTaps := by
  obtain ⟨adaptation, heq⟩ := cancelEcho_eq (a := a) s microphone hr
  rw [heq]
  split
  · exact ⟨_, s.echoWeights, rfl, hw⟩
  · have hloop : ∃ found, microphone.zipIdx.foldlM (filterSample a reference adaptation)
        ([], s.echoWeights) = some found ∧ found.2.length = echoFilterTaps := by
      refine foldlM_some (I := fun found : List F × List F => found.2.length = echoFilterTaps)
        (fun found hfound sample hmem => ?_) hw
      apply filterSample_some hfound hr
      have hindex := (List.mem_zipIdx hmem).2.1
      omega
    obtain ⟨⟨output, weights⟩, hfound, hlength⟩ := hloop
    exact ⟨output, weights, by rw [hfound]; rfl, hlength⟩

theorem cancelEcho_none (hr : reference.length = audioProcessingFrameSamples + echoFilterTaps)
    (hw : s.echoWeights = []) (hm : microphone ≠ []) (h : Audible a reference) :
    s.cancelEcho a microphone reference = none := by
  obtain ⟨sample, rest, rfl⟩ := List.exists_cons_of_ne_nil hm
  obtain ⟨adaptation, heq⟩ := cancelEcho_eq (a := a) s (sample :: rest) hr
  have hloud : ¬ a.lt (a.rmsF32 (reference.drop (reference.length -
      audioProcessingFrameSamples))) a.minRenderRms = true := by
    rw [show _ = false from h]
    exact Bool.false_ne_true
  rw [heq, if_neg hloud, hw, List.zipIdx_cons, List.foldlM_cons, filterSample_none]
  rfl

theorem updateVad_withWeights (s : RealtimeAudioProcessor F) (evidence : Bool) (w : List F) :
    (s.withWeights w).updateVad evidence =
      ((s.updateVad evidence).1, (s.updateVad evidence).2.withWeights w) := by
  have hactive : (s.withWeights w).speechActive = s.speechActive := rfl
  have honset : (s.withWeights w).vadOnset = s.vadOnset := rfl
  have hhangover : (s.withWeights w).vadHangover = s.vadHangover := rfl
  cases evidence
  all_goals
    simp only [updateVad, if_true, Bool.false_eq_true, if_false, hactive, honset, hhangover]
    split
    · rfl
    · split <;> rfl

/-- The last part of the pipeline does not read the weights. -/
theorem finishFrame_withWeights (s : RealtimeAudioProcessor F) (echoCancelled w : List F) :
    (s.withWeights w).finishFrame a echoCancelled =
      ((s.finishFrame a echoCancelled).1, (s.finishFrame a echoCancelled).2.withWeights w) := by
  have hnoise : (s.withWeights w).noiseRms = s.noiseRms := rfl
  simp only [finishFrame, hnoise]
  cases a.lt (a.max (a.mul s.noiseRms (a.literal (15 / 10))) a.minSpeechRms)
    (a.rmsF32 echoCancelled)
  · simp only [Bool.false_eq_true, if_false, Bool.false_and]
    have hquiet := updateVad_withWeights { s with
      noiseRms := a.max (a.add (a.mul s.noiseRms (a.literal (97 / 100)))
        (a.mul (a.rmsF32 echoCancelled) (a.literal (3 / 100)))) (a.literal 24) } false w
    simp only [withWeights] at hquiet ⊢
    rw [hquiet]
    rfl
  · simp only [if_true, hnoise, updateVad_withWeights]
    rfl

theorem finishFrame_carries (s : RealtimeAudioProcessor F) (echoCancelled : List F) :
    Carries s (s.finishFrame a echoCancelled).2 ∧
      (s.finishFrame a echoCancelled).2.echoWeights = s.echoWeights := by
  simp only [finishFrame, updateVad, applyGain]
  repeat' split
  all_goals exact ⟨⟨rfl, rfl⟩, rfl⟩

/-- The frame is not compared with a loud reference. -/
def Unheard (a : Arithmetic F) (s : RealtimeAudioProcessor F) (frame : List Int16) : Prop :=
  ∀ reference s', s.alignedReference a frame = some (reference, s') → ¬ Audible a reference

theorem processFrame_unheard {frame : List Int16} (h : s.Unheard a frame) :
    ∃ output s', s.processFrame a frame = some (output, s') ∧ Carries s s' ∧
      s'.echoWeights = s.echoWeights ∧
      ∀ w, (s.withWeights w).processFrame a frame = some (output, s'.withWeights w) := by
  obtain ⟨reference, s₁, haligned, hlength, hcarries, hweights, hother⟩ :=
    alignedReference_some (a := a) s frame
  have hsilent := h reference s₁ haligned
  obtain ⟨hfinished, hkept⟩ := finishFrame_carries (a := a) s₁ (frame.map a.ofSample)
  refine ⟨(s₁.finishFrame a (frame.map a.ofSample)).1,
    (s₁.finishFrame a (frame.map a.ofSample)).2, ?_, ?_, hkept.trans hweights, fun w => ?_⟩
  · simp only [processFrame, haligned, Option.bind_eq_bind, Option.bind_some,
      cancelEcho_silent hlength hsilent]
    rfl
  · exact ⟨hfinished.microphone.trans hcarries.microphone,
      hfinished.reference.trans hcarries.reference⟩
  · simp only [processFrame, hother w, Option.bind_eq_bind, Option.bind_some,
      cancelEcho_silent hlength hsilent, finishFrame_withWeights]
    rfl

theorem processFrame_weighted {frame : List Int16} (hw : s.echoWeights.length = echoFilterTaps)
    (hf : frame.length ≤ audioProcessingFrameSamples) :
    ∃ output s', s.processFrame a frame = some (output, s') ∧ Carries s s' ∧
      s'.echoWeights.length = echoFilterTaps := by
  obtain ⟨reference, s₁, haligned, hlength, hcarries, hweights, _⟩ :=
    alignedReference_some (a := a) s frame
  obtain ⟨cancelled, weights, hcancelled, hkept⟩ :=
    cancelEcho_weighted (a := a) hlength (hweights ▸ hw) hf
  obtain ⟨hfinished, hsame⟩ := finishFrame_carries (a := a) (s₁.withWeights weights) cancelled
  refine ⟨((s₁.withWeights weights).finishFrame a cancelled).1,
    ((s₁.withWeights weights).finishFrame a cancelled).2, ?_, ?_, ?_⟩
  · simp only [processFrame, haligned, Option.bind_eq_bind, Option.bind_some, hcancelled]
    rfl
  · exact ⟨hfinished.microphone.trans hcarries.microphone,
      hfinished.reference.trans hcarries.reference⟩
  · rw [hsame]
    exact hkept

theorem processFrame_none {frame : List Int16} (hw : s.echoWeights = []) (hf : frame ≠ [])
    (h : ¬ s.Unheard a frame) : s.processFrame a frame = none := by
  obtain ⟨reference, s₁, haligned, hlength, _, hweights, _⟩ :=
    alignedReference_some (a := a) s frame
  have haudible : Audible a reference := by
    by_contra hsilent
    apply h
    intro reference' s' h'
    rw [haligned] at h'
    cases h'
    exact hsilent
  simp only [processFrame, haligned, Option.bind_eq_bind, Option.bind_some,
    cancelEcho_none hlength (hweights.trans hw) hf haudible, Option.bind_none]

/-- No frame of a queue is compared with a loud reference. -/
def Quiet (a : Arithmetic F) : Nat → RealtimeAudioProcessor F → Prop
  | 0, _ => True
  | turns + 1, s =>
    s.microphone.length < audioProcessingFrameSamples ∨
      let frame := s.microphone.take audioProcessingFrameSamples
      let s := { s with microphone := s.microphone.drop audioProcessingFrameSamples }
      s.Unheard a frame ∧
        ∀ output s', s.processFrame a frame = some (output, s') → Quiet a turns s'

theorem processFrame_carries {frame : List Int16} {output : ProcessedAudioFrame}
    (h : s.processFrame a frame = some (output, s')) : Carries s s' := by
  obtain ⟨reference, s₁, haligned, hlength, hcarries, _⟩ :=
    alignedReference_some (a := a) s frame
  obtain ⟨adaptation, hcancel⟩ := cancelEcho_eq (a := a) s₁ frame hlength
  simp only [processFrame, haligned, Option.bind_eq_bind, Option.bind_some] at h
  obtain ⟨⟨cancelled, s₂⟩, hcancelled, hfinish⟩ := Option.bind_eq_some_iff.mp h
  have hmiddle : Carries s₁ s₂ := by
    rw [hcancel] at hcancelled
    split at hcancelled
    · cases hcancelled
      exact ⟨rfl, rfl⟩
    · obtain ⟨found, _, hfound⟩ := Option.map_eq_some_iff.mp hcancelled
      cases hfound
      exact ⟨rfl, rfl⟩
  obtain ⟨hlast, _⟩ := finishFrame_carries (a := a) s₂ cancelled
  cases hfinish
  exact ⟨hlast.microphone.trans (hmiddle.microphone.trans hcarries.microphone),
    hlast.reference.trans (hmiddle.reference.trans hcarries.reference)⟩

section Frames

variable {turns : Nat} {outputs : List ProcessedAudioFrame}

theorem processFrames_succ (turns : Nat) (s : RealtimeAudioProcessor F) :
    processFrames a (turns + 1) s =
      if s.microphone.length < audioProcessingFrameSamples then some ([], s)
      else
        ({ s with microphone := s.microphone.drop audioProcessingFrameSamples }.processFrame a
          (s.microphone.take audioProcessingFrameSamples)).bind fun found =>
            (processFrames a turns found.2).map fun rest : List ProcessedAudioFrame × _ =>
              (found.1 :: rest.1, rest.2) := by
  simp only [processFrames, Option.map_eq_bind]
  rfl

/-- The queue of a loop with turns enough ends below a frame. -/
theorem processFrames_bound (hturns : s.microphone.length ≤ turns)
    (h : processFrames a turns s = some (outputs, s')) :
    s'.microphone.length < audioProcessingFrameSamples ∧
      s'.renderReference = s.renderReference := by
  induction turns generalizing s outputs with
  | zero =>
    cases h
    exact ⟨Nat.lt_of_le_of_lt hturns (by decide), rfl⟩
  | succ turns ih =>
    rw [processFrames_succ] at h
    split at h
    · rename_i hshort
      cases h
      exact ⟨hshort, rfl⟩
    · rename_i hlong
      obtain ⟨⟨output, s₁⟩, hframe, hrest⟩ := Option.bind_eq_some_iff.mp h
      obtain ⟨⟨rest, s₂⟩, hframes, hlast⟩ := Option.map_eq_some_iff.mp hrest
      cases hlast
      have hcarries := processFrame_carries hframe
      have hlength : s₁.microphone.length ≤ turns := by
        rw [hcarries.microphone, List.length_drop]
        simp only [audioProcessingFrameSamples] at hlong ⊢
        omega
      obtain ⟨hbound, hreference⟩ := ih hlength hframes
      exact ⟨hbound, hreference.trans hcarries.reference⟩

theorem processFrames_weighted (turns : Nat) (hw : s.echoWeights.length = echoFilterTaps) :
    ∃ outputs s', processFrames a turns s = some (outputs, s') ∧
      s'.echoWeights.length = echoFilterTaps := by
  induction turns generalizing s with
  | zero => exact ⟨[], s, rfl, hw⟩
  | succ turns ih =>
    rw [processFrames_succ]
    split
    · exact ⟨[], s, rfl, hw⟩
    · obtain ⟨output, s₁, hframe, _, hweights⟩ := processFrame_weighted (a := a)
        (s := { s with microphone := s.microphone.drop audioProcessingFrameSamples }) hw
        (List.length_take_le audioProcessingFrameSamples s.microphone)
      obtain ⟨outputs, s₂, hframes, hlast⟩ := ih hweights
      exact ⟨output :: outputs, s₂, by rw [hframe, Option.bind_some, hframes]; rfl, hlast⟩

/-- A quiet loop goes on without weights, and as it does with any. -/
theorem processFrames_quiet (hw : s.echoWeights = []) (hquiet : Quiet a turns s) :
    ∃ outputs s', processFrames a turns s = some (outputs, s') ∧ s'.echoWeights = [] ∧
      ∀ w, processFrames a turns (s.withWeights w) = some (outputs, s'.withWeights w) := by
  induction turns generalizing s with
  | zero => exact ⟨[], s, rfl, hw, fun _ => rfl⟩
  | succ turns ih =>
    by_cases hshort : s.microphone.length < audioProcessingFrameSamples
    · refine ⟨[], s, ?_, hw, fun w => ?_⟩
      · rw [processFrames_succ, if_pos hshort]
      · rw [processFrames_succ]
        exact if_pos hshort
    · obtain hcontra | ⟨hunheard, hrest⟩ := hquiet
      · exact absurd hcontra hshort
      obtain ⟨output, s₁, hframe, _, hweights, hother⟩ := processFrame_unheard hunheard
      obtain ⟨outputs, s₂, hframes, hlast, hothers⟩ :=
        ih (hweights.trans hw) (hrest output s₁ hframe)
      refine ⟨output :: outputs, s₂, ?_, hlast, fun w => ?_⟩
      · rw [processFrames_succ, if_neg hshort, hframe, Option.bind_some, hframes]
        rfl
      · have hlong : ¬ (s.withWeights w).microphone.length < audioProcessingFrameSamples := hshort
        have hsame : ({ s.withWeights w with
            microphone := (s.withWeights w).microphone.drop audioProcessingFrameSamples } :
              RealtimeAudioProcessor F).processFrame a
            ((s.withWeights w).microphone.take audioProcessingFrameSamples) =
            some (output, s₁.withWeights w) := hother w
        rw [processFrames_succ, if_neg hlong, hsame, Option.bind_some, hothers w]
        rfl

/-- Without weights a loop that does not panic is quiet. -/
theorem quiet_of_processFrames (hw : s.echoWeights = [])
    (h : processFrames a turns s = some (outputs, s')) : Quiet a turns s := by
  induction turns generalizing s outputs with
  | zero => trivial
  | succ turns ih =>
    by_cases hshort : s.microphone.length < audioProcessingFrameSamples
    · exact .inl hshort
    rw [processFrames_succ, if_neg hshort] at h
    obtain ⟨⟨output, s₁⟩, hframe, hrest⟩ := Option.bind_eq_some_iff.mp h
    obtain ⟨⟨rest, s₂⟩, hframes, hlast⟩ := Option.map_eq_some_iff.mp hrest
    cases hlast
    have hne : s.microphone.take audioProcessingFrameSamples ≠ [] := by
      intro hnil
      have hlength := congrArg List.length hnil
      simp only [List.length_take, audioProcessingFrameSamples, List.length_nil] at hlength hshort
      omega
    have hunheard : ({ s with microphone := s.microphone.drop audioProcessingFrameSamples } :
        RealtimeAudioProcessor F).Unheard a (s.microphone.take audioProcessingFrameSamples) := by
      by_contra hloud
      have hnone := processFrame_none
        (s := { s with microphone := s.microphone.drop audioProcessingFrameSamples }) hw hne hloud
      rw [hnone] at hframe
      cases hframe
    refine .inr ⟨hunheard, fun output' s₁' hframe' => ?_⟩
    rw [hframe] at hframe'
    cases hframe'
    obtain ⟨_, _, hquiet, _, hweights, _⟩ := processFrame_unheard hunheard
    rw [hframe] at hquiet
    cases hquiet
    exact ih (hweights.trans hw) hframes

end Frames

inductive AudioCall
  | pushRenderReference (samples : List Int16)
  | processMicrophone (samples : List Int16)
  | reset

/-- The processor with new samples in its queue. -/
def listening (s : RealtimeAudioProcessor F) (samples : List Int16) : RealtimeAudioProcessor F :=
  { s with microphone := boundedExtend s.microphone samples maxMicrophoneSamples }

theorem processMicrophone_eq (s : RealtimeAudioProcessor F) (samples : List Int16) :
    s.processMicrophone a samples =
      processFrames a (s.listening samples).microphone.length (s.listening samples) := rfl

/-- A call, which yields the frames that it puts out. -/
def perform (a : Arithmetic F) (s : RealtimeAudioProcessor F) :
    AudioCall → Option (List ProcessedAudioFrame × RealtimeAudioProcessor F)
  | .pushRenderReference samples => some ([], s.pushRenderReference samples)
  | .processMicrophone samples => s.processMicrophone a samples
  | .reset => some ([], reset a)

/-- The frames that a sequence of calls puts out. -/
def outputs (a : Arithmetic F) :
    RealtimeAudioProcessor F → List AudioCall → Option (List (List ProcessedAudioFrame))
  | _, [] => some []
  | s, call :: calls =>
    (s.perform a call).bind fun found => (outputs a found.2 calls).map fun rest => found.1 :: rest

/-- The processor has its weights, or no frame of the call is compared with a loud reference. -/
def Careful (a : Arithmetic F) (s : RealtimeAudioProcessor F) : AudioCall → Prop
  | .processMicrophone samples =>
    s.echoWeights ≠ [] ∨
      Quiet a (s.listening samples).microphone.length (s.listening samples)
  | .pushRenderReference _ | .reset => True

def CarefulCalls (a : Arithmetic F) : RealtimeAudioProcessor F → List AudioCall → Prop
  | _, [] => True
  | s, call :: calls => s.Careful a call ∧
      ∀ output s', s.perform a call = some (output, s') → CarefulCalls a s' calls

def Step (a : Arithmetic F) (s : RealtimeAudioProcessor F) (call : AudioCall)
    (s' : RealtimeAudioProcessor F) : Prop :=
  ∃ output, s.perform a call = some (output, s')

/-- The queues are bounded, and the weights are all there or none of them. -/
structure Ready (s : RealtimeAudioProcessor F) : Prop where
  microphone : s.microphone.length < audioProcessingFrameSamples
  reference : s.renderReference.length ≤ maxReferenceSamples
  weights : s.echoWeights = [] ∨ s.echoWeights.length = echoFilterTaps

theorem ready_new : (new a).Ready where
  microphone := by simp [new, audioProcessingFrameSamples]
  reference := by simp [new]
  weights := .inr List.length_replicate

theorem ready_reset : (reset a).Ready where
  microphone := by simp [reset, audioProcessingFrameSamples]
  reference := by simp [reset]
  weights := .inl rfl

/-- A call panics just when it is not careful. -/
theorem perform_some_iff (hs : s.Ready) (call : AudioCall) :
    (∃ result, s.perform a call = some result) ↔ s.Careful a call := by
  cases call with
  | pushRenderReference samples => exact ⟨fun _ => trivial, fun _ => ⟨_, rfl⟩⟩
  | reset => exact ⟨fun _ => trivial, fun _ => ⟨_, rfl⟩⟩
  | processMicrophone samples =>
    simp only [perform, processMicrophone_eq, Careful]
    constructor
    · rintro ⟨⟨outputs, s'⟩, h⟩
      by_cases hw : s.echoWeights = []
      · exact .inr (quiet_of_processFrames (s := s.listening samples) hw h)
      · exact .inl hw
    · intro hcareful
      obtain hnone | hall := hs.weights
      · obtain hweighted | hquiet := hcareful
        · exact absurd hnone hweighted
        · obtain ⟨outputs, s', h, _⟩ :=
            processFrames_quiet (s := s.listening samples) hnone hquiet
          exact ⟨_, h⟩
      · obtain ⟨outputs, s', h, _⟩ :=
          processFrames_weighted (a := a) (s := s.listening samples) _ hall
        exact ⟨_, h⟩

theorem Ready.step {call : AudioCall} (hs : s.Ready) (h : Step a s call s') : s'.Ready := by
  obtain ⟨output, h⟩ := h
  cases call with
  | pushRenderReference samples =>
    cases h
    exact ⟨hs.microphone, boundedExtend_length _ _ _, hs.weights⟩
  | reset =>
    cases h
    exact ready_reset
  | processMicrophone samples =>
    simp only [perform, processMicrophone_eq] at h
    obtain ⟨hbound, hreference⟩ := processFrames_bound (Nat.le_refl _) h
    refine ⟨hbound, ?_, ?_⟩
    · rw [hreference]
      exact hs.reference
    · obtain hnone | hall := hs.weights
      · have hquiet := quiet_of_processFrames (s := s.listening samples) hnone h
        obtain ⟨_, _, hsame, hweights, _⟩ :=
          processFrames_quiet (s := s.listening samples) hnone hquiet
        rw [h] at hsame
        cases hsame
        exact .inl hweights
      · obtain ⟨_, _, hsame, hweights⟩ := processFrames_weighted (a := a)
          (s := s.listening samples) (s.listening samples).microphone.length hall
        rw [h] at hsame
        cases hsame
        exact .inr hweights

/-- Careful calls put out what they would with any weights. -/
theorem outputs_withWeights {calls : List AudioCall} (hw : s.echoWeights = [])
    (hcareful : CarefulCalls a s calls) (w : List F) :
    outputs a s calls = outputs a (s.withWeights w) calls := by
  induction calls generalizing s w with
  | nil => rfl
  | cons call calls ih =>
    obtain ⟨hcall, hcalls⟩ := hcareful
    cases call with
    | pushRenderReference samples =>
      have hrest := ih (s := s.pushRenderReference samples) hw (hcalls _ _ rfl) w
      exact congrArg (Option.map fun rest => [] :: rest) hrest
    | reset => rfl
    | processMicrophone samples =>
      obtain hweighted | hquiet := hcall
      · exact absurd hw hweighted
      obtain ⟨found, s₁, h, hnone, hother⟩ :=
        processFrames_quiet (s := s.listening samples) hw hquiet
      have hleft : s.perform a (.processMicrophone samples) = some (found, s₁) := h
      have hright : (s.withWeights w).perform a (.processMicrophone samples) =
          some (found, s₁.withWeights w) := hother w
      simp only [outputs, hleft, hright, Option.bind_some]
      rw [ih hnone (hcalls found s₁ hleft) w]

/-- While every frame that is compared with a loud reference finds the weights there, no call
panics, the queues are bounded and a processor that is reset puts out what a new one does. -/
theorem audio_processor_safe (a : Arithmetic F) {s : RealtimeAudioProcessor F}
    (hrun : Run (Step a) (Careful a) (new a) s) :
    (∀ call, (∃ result, s.perform a call = some result) ↔ s.Careful a call) ∧
      s.microphone.length < audioProcessingFrameSamples ∧
      s.renderReference.length ≤ maxReferenceSamples ∧
      (∀ samples, (boundedExtend s.microphone samples maxMicrophoneSamples).length ≤
        maxMicrophoneSamples) ∧
      ∀ s', Step a s .reset s' → ∀ calls, CarefulCalls a s' calls →
        outputs a s' calls = outputs a (new a) calls := by
  have hready : s.Ready := hrun.invariant (fun _ _ _ hs _ h => hs.step h) ready_new
  refine ⟨perform_some_iff hready, hready.microphone, hready.reference,
    fun samples => boundedExtend_length _ _ _, ?_⟩
  rintro s' ⟨_, hreset⟩ calls hcareful
  cases hreset
  exact outputs_withWeights rfl hcareful _

/-- Exact arithmetic, in which the root mean square of a constant signal is its amplitude. -/
def exactArithmetic : Arithmetic Rat where
  literal := id
  ofSample sample := sample.toInt
  add := (· + ·)
  sub := (· - ·)
  mul := (· * ·)
  div := (· / ·)
  abs x := if x < 0 then -x else x
  max x y := if x < y then y else x
  min x y := if x < y then x else y
  clamp x low high := if x < low then low else if high < x then high else x
  lt x y := x < y
  le x y := x ≤ y
  toSample x := Int16.ofInt x.floor
  rms samples := (samples.map fun sample => (sample.toInt.natAbs : Rat)).headD 0
  rmsF32 samples := (samples.map fun x => if x < 0 then -x else x).headD 0

def tone : List Int16 := List.replicate audioProcessingFrameSamples 2000

theorem audio_processor_safe_tone :
    ∃ s, Step exactArithmetic (new exactArithmetic) (.pushRenderReference tone) s ∧
      ∃ result, s.perform exactArithmetic (.processMicrophone tone) = some result := by
  have hstep : Step exactArithmetic (new exactArithmetic) (.pushRenderReference tone)
      ((new exactArithmetic).pushRenderReference tone) := ⟨[], rfl⟩
  obtain ⟨hsome, _⟩ := audio_processor_safe exactArithmetic
    (Run.single (i := .pushRenderReference tone) trivial hstep)
  exact ⟨_, hstep, (hsome _).mpr (.inl (List.cons_ne_nil _ _))⟩

/-- After a reset, the first frame that is compared with a loud reference panics. -/
theorem audio_processor_panics :
    ¬ ∀ s, Run (Step exactArithmetic) (fun _ _ => True) (new exactArithmetic) s →
      ∀ call, ∃ result, s.perform exactArithmetic call = some result := by
  intro h
  have hreset : Step exactArithmetic (new exactArithmetic) .reset (reset exactArithmetic) :=
    ⟨[], rfl⟩
  have hpush : Step exactArithmetic (reset exactArithmetic) (.pushRenderReference tone)
      ((reset exactArithmetic).pushRenderReference tone) := ⟨[], rfl⟩
  obtain ⟨result, hresult⟩ := h _ ((Run.single trivial hreset).next trivial hpush)
    (.processMicrophone tone)
  have hnone : (((reset exactArithmetic).pushRenderReference tone).perform exactArithmetic
      (.processMicrophone tone)).isNone = true := by decide +kernel
  rw [hresult] at hnone
  cases hnone

end RealtimeAudioProcessor

end Fairy.Realtime
