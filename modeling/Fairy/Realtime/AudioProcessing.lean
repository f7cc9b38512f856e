import Mathlib.Data.List.Basic

namespace Fairy.Realtime

def audioProcessingFrameSamples : Nat := 160

def maxReferenceSamples : Nat := 16000 / 4

def maxMicrophoneSamples : Nat := audioProcessingFrameSamples * 4

def echoFilterTaps : Nat := 128

def delaySearchStep : Nat := audioProcessingFrameSamples

def maxDelaySamples : Nat := 16000 * 150 / 1000

def vadOnsetFrames : Nat := 2

def vadHangoverFrames : Nat := 18

/-- The arithmetic of `f32`, with its literals and the two root mean squares. -/
structure Arithmetic (F : Type) where
  literal : Rat → F
  ofSample : Int16 → F
  add : F → F → F
  sub : F → F → F
  mul : F → F → F
  div : F → F → F
  abs : F → F
  max : F → F → F
  min : F → F → F
  clamp : F → F → F → F
  lt : F → F → Bool
  le : F → F → Bool
  /-- `round`, `clamp` and the cast to `i16`. -/
  toSample : F → Int16
  rms : List Int16 → F
  rmsF32 : List F → F

structure ProcessedAudioFrame where
  pcm16 : List Int16
  speechStarted : Bool
  speechStopped : Bool
  speechActive : Bool
  deriving DecidableEq

structure RealtimeAudioProcessor (F : Type) where
  microphone : List Int16
  renderReference : List Int16
  echoWeights : List F
  echoDelaySamples : Nat
  noiseRms : F
  agcGain : F
  vadOnset : Nat
  vadHangover : Nat
  speechActive : Bool
  framesSinceDelaySearch : Nat
  deriving DecidableEq

section Slices

variable {α : Type}

/-- `a - b` of two `usize`, which panics below zero. -/
def subIndex (a b : Nat) : Option Nat := if b ≤ a then some (a - b) else none

/-- `l[start..end]`, which panics outside of the slice. -/
def slice (l : List α) (start end' : Nat) : Option (List α) :=
  if start ≤ end' ∧ end' ≤ l.length then some ((l.take end').drop start) else none

/-- `l[start..].copy_from_slice(source)`, which panics unless the lengths agree. -/
def copyFromSlice (l : List α) (start : Nat) (source : List α) : Option (List α) :=
  if start ≤ l.length ∧ l.length - start = source.length then some (l.take start ++ source)
  else none

/-- `bounded_extend`. -/
@[irreducible] def boundedExtend (queue samples : List α) (maximum : Nat) : List α :=
  let overflow := queue.length + samples.length - maximum
  let start := samples.length - maximum
  queue.drop (min overflow queue.length) ++ samples.drop start

end Slices

section Processor

variable {F : Type} (a : Arithmetic F)

namespace Arithmetic

def minRenderRms : F := a.literal 80

def minSpeechRms : F := a.literal 180

def targetRms : F := a.literal 3600

def sampleMax : F := a.literal 32767

end Arithmetic

/-- The score of one delay is compared with the best so far. -/
def scoreDelay (reference : List F) (microphone : List Int16) (microphoneRms : F)
    (best : Nat × F) (delay : Nat) : Option (Nat × F) := do
  let end' ← subIndex reference.length delay
  let start ← subIndex end' audioProcessingFrameSamples
  let candidate ← slice reference start end'
  let candidateRms := a.rmsF32 candidate
  if a.lt candidateRms a.minRenderRms then return best
  else
    let correlation := a.abs (((candidate.zip microphone).map fun (left, right) =>
      a.mul left (a.ofSample right)).foldl a.add (a.literal 0))
    let score := a.div correlation (a.mul (a.mul candidateRms microphoneRms)
      (a.literal audioProcessingFrameSamples))
    return if a.lt best.2 score then (delay, score) else best

def estimateDelay (reference : List F) (microphone : List Int16) : Option Nat :=
  let microphoneRms := a.rms microphone
  if a.lt microphoneRms a.minRenderRms ∨ reference.length < audioProcessingFrameSamples then some 0
  else
    let maxDelay := min maxDelaySamples (reference.length - audioProcessingFrameSamples)
    ((List.range (maxDelay / delaySearchStep + 1)).foldlM (fun best step =>
      scoreDelay a reference microphone microphoneRms best (step * delaySearchStep))
      (0, a.literal 0)).map Prod.fst

def suppressNoise (samples : List F) (noiseRms : F) (speech : Bool) : List F :=
  if speech then samples
  else
    let current := a.rmsF32 samples
    let ratio := if a.le current noiseRms then a.literal (2 / 10)
      else a.clamp (a.div (a.sub current noiseRms) (a.max noiseRms (a.literal 1)))
        (a.literal (2 / 10)) (a.literal 1)
    samples.map fun sample => a.mul sample ratio

/-- The estimate of the echo in one sample and the energy of the reference, tap by tap. -/
def estimateEcho (weights reference : List F) (referenceIndex : Nat) : Option (F × F) :=
  (List.range echoFilterTaps).foldlM (fun found tap => do
    let index ← subIndex referenceIndex tap
    let value ← reference[index]?
    let weight ← weights[tap]?
    return (a.add found.1 (a.mul weight value), a.add found.2 (a.mul value value)))
    (a.literal 0, a.literal 1)

/-- The weights after one sample, tap by tap. -/
def adaptWeights (weights reference : List F) (referenceIndex : Nat) (step : F) :
    Option (List F) :=
  (List.range echoFilterTaps).foldlM (fun weights tap => do
    let index ← subIndex referenceIndex tap
    let value ← reference[index]?
    let weight ← weights[tap]?
    return weights.set tap (a.clamp (a.add weight (a.mul step value)) (a.literal (-4))
      (a.literal 4))) weights

/-- The echo filter over one sample, with the output so far. -/
def filterSample (reference : List F) (adaptation : F) (found : List F × List F)
    (sample : Int16 × Nat) : Option (List F × List F) := do
  let (output, weights) := found
  let referenceIndex := echoFilterTaps + sample.2
  let (estimate, energy) ← estimateEcho a weights reference referenceIndex
  let error := a.sub (a.ofSample sample.1) estimate
  let step := a.div (a.mul adaptation error) energy
  let weights ← adaptWeights a weights reference referenceIndex step
  return (output ++ [error], weights)

namespace RealtimeAudioProcessor

def new : RealtimeAudioProcessor F where
  microphone := []
  renderReference := []
  echoWeights := List.replicate echoFilterTaps (a.literal 0)
  echoDelaySamples := 0
  noiseRms := a.minSpeechRms
  agcGain := a.literal 1
  vadOnset := 0
  vadHangover := 0
  speechActive := false
  framesSinceDelaySearch := 0

variable (s : RealtimeAudioProcessor F)

/-- The delay that the alignment of a frame goes on with. -/
def searchDelay (history : List F) (microphone : List Int16) :
    Option (RealtimeAudioProcessor F) := do
  let s := { s with framesSinceDelaySearch := min (s.framesSinceDelaySearch + 1) 255 }
  if s.framesSinceDelaySearch ≥ 5 then
    let delay ← estimateDelay a history microphone
    return { s with echoDelaySamples := delay, framesSinceDelaySearch := 0 }
  else return s

def alignedReference (microphone : List Int16) : Option (List F × RealtimeAudioProcessor F) :=
  let history := s.renderReference.map a.ofSample
  let required := audioProcessingFrameSamples + echoFilterTaps
  if history.length < audioProcessingFrameSamples then
    some (List.replicate required (a.literal 0), s)
  else do
    let s ← s.searchDelay a history microphone
    let frameEnd := history.length - s.echoDelaySamples
    let frameStart := frameEnd - audioProcessingFrameSamples
    let historyStart := frameStart - echoFilterTaps
    let source ← slice history historyStart frameEnd
    let aligned ← copyFromSlice (List.replicate required (a.literal 0))
      (required - source.length) source
    return (aligned, s)

def cancelEcho (microphone : List Int16) (reference : List F) :
    Option (List F × RealtimeAudioProcessor F) := do
  let start ← subIndex reference.length audioProcessingFrameSamples
  let referenceFrame ← slice reference start reference.length
  let referenceRms := a.rmsF32 referenceFrame
  if a.lt referenceRms a.minRenderRms then return (microphone.map a.ofSample, s)
  else
    let adaptation := if a.lt (a.mul referenceRms (a.literal (35 / 10))) (a.rms microphone) then
      a.literal (15 / 1000) else a.literal (12 / 100)
    let (output, weights) ← microphone.zipIdx.foldlM (filterSample a reference adaptation)
      ([], s.echoWeights)
    return (output, { s with echoWeights := weights })

/-- The flags of the speech that has started and of the speech that has stopped. -/
def updateVad (evidence : Bool) : (Bool × Bool) × RealtimeAudioProcessor F :=
  let s := if evidence then
      { s with
        vadOnset := min (min (s.vadOnset + 1) 255) vadOnsetFrames
        vadHangover := vadHangoverFrames }
    else { s with vadOnset := 0, vadHangover := s.vadHangover - 1 }
  if s.speechActive = false ∧ s.vadOnset ≥ vadOnsetFrames then
    ((true, false), { s with speechActive := true })
  else if s.speechActive ∧ s.vadHangover = 0 then
    ((false, true), { s with speechActive := false })
  else ((false, false), s)

def applyGain (samples : List F) (currentRms : F) : List Int16 × RealtimeAudioProcessor F :=
  let desired := if a.lt (a.literal 1) currentRms then
    a.clamp (a.div a.targetRms currentRms) (a.literal (5 / 10)) (a.literal 4) else a.literal 1
  let rate := if a.lt desired s.agcGain then a.literal (18 / 100) else a.literal (25 / 1000)
  let gain := a.add s.agcGain (a.mul (a.sub desired s.agcGain) rate)
  let peak := (samples.map a.abs).foldl a.max (a.literal 0)
  let gain := if a.lt (a.literal 1) peak then
    a.min gain (a.div (a.mul a.sampleMax (a.literal (98 / 100))) peak) else gain
  (samples.map fun sample => a.toSample (a.mul sample gain), { s with agcGain := gain })

/-- What a frame comes to once its echo is cancelled. -/
def finishFrame (echoCancelled : List F) : ProcessedAudioFrame × RealtimeAudioProcessor F :=
  let echoRms := a.rmsF32 echoCancelled
  let speechEvidence := a.lt (a.max (a.mul s.noiseRms (a.literal (15 / 10))) a.minSpeechRms) echoRms
  let s := if speechEvidence then s else
    { s with noiseRms := a.max (a.add (a.mul s.noiseRms (a.literal (97 / 100)))
        (a.mul echoRms (a.literal (3 / 100)))) (a.literal 24) }
  let suppressed := suppressNoise a echoCancelled s.noiseRms speechEvidence
  let speechRms := a.rmsF32 suppressed
  let ((speechStarted, speechStopped), s) := s.updateVad (speechEvidence &&
    a.lt (a.max (a.mul s.noiseRms (a.literal (135 / 100)))
      (a.mul a.minSpeechRms (a.literal (7 / 10)))) speechRms)
  let (pcm16, s) := s.applyGain a suppressed speechRms
  (⟨pcm16, speechStarted, speechStopped, s.speechActive⟩, s)

def processFrame (microphone : List Int16) :
    Option (ProcessedAudioFrame × RealtimeAudioProcessor F) := do
  let (reference, s) ← s.alignedReference a microphone
  let (echoCancelled, s) ← s.cancelEcho a microphone reference
  return s.finishFrame a echoCancelled

def pushRenderReference (samples : List Int16) : RealtimeAudioProcessor F :=
  { s with renderReference := boundedExtend s.renderReference samples maxReferenceSamples }

/-- The loop of `process_microphone`, with turns to spare. -/
def processFrames : Nat → RealtimeAudioProcessor F →
    Option (List ProcessedAudioFrame × RealtimeAudioProcessor F)
  | 0, s => some ([], s)
  | turns + 1, s =>
    if s.microphone.length < audioProcessingFrameSamples then some ([], s)
    else do
      let frame := s.microphone.take audioProcessingFrameSamples
      let s := { s with microphone := s.microphone.drop audioProcessingFrameSamples }
      let (output, s) ← s.processFrame a frame
      let (outputs, s) ← processFrames turns s
      return (output :: outputs, s)

/-- Each turn takes a frame, so the queue has turns enough. -/
def processMicrophone (samples : List Int16) :
    Option (List ProcessedAudioFrame × RealtimeAudioProcessor F) :=
  let s := { s with microphone := boundedExtend s.microphone samples maxMicrophoneSamples }
  processFrames a s.microphone.length s

/-- The `zeroize` of a `Vec` leaves it empty. -/
def reset : RealtimeAudioProcessor F where
  microphone := []
  renderReference := []
  echoWeights := []
  echoDelaySamples := 0
  noiseRms := a.minSpeechRms
  agcGain := a.literal 1
  vadOnset := 0
  vadHangover := 0
  speechActive := false
  framesSinceDelaySearch := 0

end RealtimeAudioProcessor

end Processor

end Fairy.Realtime
