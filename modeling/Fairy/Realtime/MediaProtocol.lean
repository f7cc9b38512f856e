import Fairy.Lib.Chronicle
import Fairy.Lib.Run

namespace Fairy.Realtime

open Fairy.Lib

inductive MediaKind
  | microphonePcm16 | applicationPcm16 | jpeg | bgra
  deriving DecidableEq

structure MediaHeader where
  version : UInt16
  kind : MediaKind
  sessionEpoch : UInt64
  sequence : UInt64
  timestampUs : UInt64
  payloadLength : UInt32
  deriving DecidableEq

inductive MediaProtocolError
  | staleEpoch | staleSequence | staleTimestamp | invalidMicrophoneCadence | payloadBound
  | bgraDimensions | payloadLengthMismatch
  deriving DecidableEq

def microphonePcm16PacketBytes : UInt32 := 640

def maxApplicationPcm16Bytes : UInt32 := 32000

def maxJpegBytes : UInt32 := 8 * 1024 * 1024

def maxBgraBytes : Nat := 32 * 1024 * 1024

def microphoneCadenceUs : Nat := 20000

/-- `checked_add` of two `u64`. -/
def checkedAdd64 (a b : Nat) : Option Nat := if a + b < 18446744073709551616 then some (a + b) else none

/-- `checked_mul` of two `u64`. -/
def checkedMul64 (a b : Nat) : Option Nat := if a * b < 18446744073709551616 then some (a * b) else none

structure MediaValidationState where
  sessionEpoch : UInt64
  lastSequence : UInt64
  lastTimestampUs : UInt64
  lastMicrophoneTimestampUs : UInt64
  videoWidth : UInt32
  videoHeight : UInt32
  deriving DecidableEq

namespace MediaValidationState

def default : MediaValidationState := ⟨0, 0, 0, 0, 0, 0⟩

/-- What a method on `&mut self` comes to: what it has assigned before it fails stays. -/
abbrev Outcome := Except MediaProtocolError Unit × MediaValidationState

def rotateEpoch (s : MediaValidationState) (sessionEpoch : UInt64) : Outcome :=
  if sessionEpoch = 0 then (.error .staleEpoch, s)
  else (.ok (), { s with
    sessionEpoch
    lastSequence := 0
    lastTimestampUs := 0
    lastMicrophoneTimestampUs := 0 })

/-- The bytes of one BGRA frame. -/
def frameBytes (width height : UInt32) : Option Nat :=
  (checkedMul64 width.toNat height.toNat).bind fun pixels => checkedMul64 pixels 4

def configureVideo (s : MediaValidationState) (width height : UInt32) : Outcome :=
  let bytes := frameBytes width height
  if (width = 0) ≠ (height = 0) ∨ bytes = none ∨ ∃ value ∈ bytes, value > maxBgraBytes then
    (.error .bgraDimensions, s)
  else (.ok (), { s with videoWidth := width, videoHeight := height })

/-- The bound on the payload of each kind. -/
def validatePayload (s : MediaValidationState) (header : MediaHeader) :
    Except MediaProtocolError Unit :=
  match header.kind with
  | .microphonePcm16 =>
    if header.payloadLength ≠ microphonePcm16PacketBytes then .error .payloadBound else .ok ()
  | .applicationPcm16 =>
    if header.payloadLength = 0 ∨ header.payloadLength > maxApplicationPcm16Bytes ∨
        header.payloadLength % 2 ≠ 0 then .error .payloadBound
    else .ok ()
  | .jpeg =>
    if header.payloadLength = 0 ∨ header.payloadLength > maxJpegBytes then .error .payloadBound
    else .ok ()
  | .bgra =>
    match (frameBytes s.videoWidth s.videoHeight).filter fun bytes =>
        0 < bytes ∧ bytes ≤ maxBgraBytes with
    | none => .error .bgraDimensions
    | some expected =>
      if header.payloadLength.toNat ≠ expected then .error .bgraDimensions else .ok ()

def validateBeforeAllocation (s : MediaValidationState) (header : MediaHeader) :
    Except MediaProtocolError Unit :=
  if s.sessionEpoch = 0 ∨ header.sessionEpoch ≠ s.sessionEpoch then .error .staleEpoch
  else if header.sequence = 0 ∨ header.sequence ≤ s.lastSequence then .error .staleSequence
  else if header.timestampUs = 0 ∨ header.timestampUs < s.lastTimestampUs then
    .error .staleTimestamp
  else if header.kind = .microphonePcm16 ∧ s.lastMicrophoneTimestampUs ≠ 0 ∧
      checkedAdd64 s.lastMicrophoneTimestampUs.toNat microphoneCadenceUs ≠
        some header.timestampUs.toNat then
    .error .invalidMicrophoneCadence
  else s.validatePayload header

def accept (s : MediaValidationState) (header : MediaHeader) (payloadLength : Nat) : Outcome :=
  match s.validateBeforeAllocation header with
  | .error e => (.error e, s)
  | .ok () =>
    if payloadLength ≠ header.payloadLength.toNat then (.error .payloadLengthMismatch, s)
    else (.ok (), { s with
      lastSequence := header.sequence
      lastTimestampUs := header.timestampUs
      lastMicrophoneTimestampUs :=
        if header.kind = .microphonePcm16 then header.timestampUs
        else s.lastMicrophoneTimestampUs })

variable {s : MediaValidationState} {header : MediaHeader} {payloadLength : Nat}

theorem accept_error {e : MediaProtocolError} (h : (s.accept header payloadLength).1 = .error e) :
    (s.accept header payloadLength).2 = s := by
  simp only [accept] at h ⊢
  split
  · rfl
  · rename_i hvalid
    simp only [hvalid] at h
    split
    · rfl
    · rename_i hlength
      rw [if_neg hlength] at h
      cases h

/-- The header of an accepted packet is ahead of the state. -/
structure Ahead (s : MediaValidationState) (header : MediaHeader) : Prop where
  positive : s.sessionEpoch ≠ 0
  epoch : header.sessionEpoch = s.sessionEpoch
  sequence : s.lastSequence < header.sequence
  stamped : header.timestampUs ≠ 0
  timestamp : s.lastTimestampUs ≤ header.timestampUs
  cadence : header.kind = .microphonePcm16 → s.lastMicrophoneTimestampUs ≠ 0 →
    header.timestampUs.toNat = s.lastMicrophoneTimestampUs.toNat + microphoneCadenceUs

theorem accept_ok (h : (s.accept header payloadLength).1 = .ok ()) :
    s.Ahead header ∧ (s.accept header payloadLength).2 = { s with
      lastSequence := header.sequence
      lastTimestampUs := header.timestampUs
      lastMicrophoneTimestampUs :=
        if header.kind = .microphonePcm16 then header.timestampUs
        else s.lastMicrophoneTimestampUs } := by
  simp only [accept] at h ⊢
  split at h
  · cases h
  rename_i hvalid
  split at h
  · cases h
  rename_i hlength
  refine ⟨?_, by simp only [if_neg hlength]⟩
  simp only [validateBeforeAllocation] at hvalid
  split at hvalid
  · cases hvalid
  rename_i hepoch
  split at hvalid
  · cases hvalid
  rename_i hsequence
  split at hvalid
  · cases hvalid
  rename_i htimestamp
  split at hvalid
  · cases hvalid
  rename_i hcadence
  obtain ⟨hpositive, hsame⟩ := not_or.mp hepoch
  obtain ⟨_, hnewer⟩ := not_or.mp hsequence
  obtain ⟨hstamped, hlater⟩ := not_or.mp htimestamp
  refine ⟨hpositive, not_not.mp hsame, UInt64.not_le.mp hnewer, hstamped, UInt64.not_lt.mp hlater,
    fun hkind hmic => ?_⟩
  have hsum : checkedAdd64 s.lastMicrophoneTimestampUs.toNat microphoneCadenceUs =
      some header.timestampUs.toNat := not_not.mp fun hne => hcadence ⟨hkind, hmic, hne⟩
  simp only [checkedAdd64] at hsum
  split at hsum
  · exact (Option.some.inj hsum).symm
  · cases hsum

theorem rotateEpoch_ok {epoch : UInt64} (h : (s.rotateEpoch epoch).1 = .ok ()) :
    epoch ≠ 0 ∧ (s.rotateEpoch epoch).2 = { s with
      sessionEpoch := epoch
      lastSequence := 0
      lastTimestampUs := 0
      lastMicrophoneTimestampUs := 0 } := by
  simp only [rotateEpoch] at h ⊢
  split at h
  · cases h
  · rename_i hepoch
    exact ⟨hepoch, by rw [if_neg hepoch]⟩

theorem rotateEpoch_error {epoch : UInt64} {e : MediaProtocolError}
    (h : (s.rotateEpoch epoch).1 = .error e) : (s.rotateEpoch epoch).2 = s := by
  simp only [rotateEpoch] at h ⊢
  split
  · rfl
  · rename_i hepoch
    rw [if_neg hepoch] at h
    cases h

/-- The video has no part in the identity of the packets. -/
theorem configureVideo_keeps (s : MediaValidationState) (width height : UInt32) :
    (s.configureVideo width height).2.sessionEpoch = s.sessionEpoch ∧
      (s.configureVideo width height).2.lastSequence = s.lastSequence ∧
      (s.configureVideo width height).2.lastTimestampUs = s.lastTimestampUs ∧
      (s.configureVideo width height).2.lastMicrophoneTimestampUs =
        s.lastMicrophoneTimestampUs := by
  simp only [configureVideo]
  split <;> exact ⟨rfl, rfl, rfl, rfl⟩

end MediaValidationState

end Fairy.Realtime
