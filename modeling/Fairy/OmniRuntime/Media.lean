import Fairy.Lib.LittleEndian
import Fairy.Lib.Run
import Fairy.Realtime.MediaProtocol

namespace Fairy.OmniRuntime

open Fairy.Lib Fairy.Lib.LittleEndian Fairy.Realtime

/-- The text of a `ProtocolError`. -/
abbrev ProtocolError := String

/-! Headers. -/

def kMediaHeaderBytes : Nat := 36

/-- `FOMI`. -/
def kMagic : List UInt8 := [70, 79, 77, 73]

def kindCode : MediaKind → Nat
  | .microphonePcm16 => 1
  | .applicationPcm16 => 2
  | .jpeg => 3
  | .bgra => 4

def kindOf : Nat → Option MediaKind
  | 1 => some .microphonePcm16
  | 2 => some .applicationPcm16
  | 3 => some .jpeg
  | 4 => some .bgra
  | _ => none

/-- `encode_media_header`, and `MediaHeader::encode`. -/
def encodeMediaHeader (header : MediaHeader) : List UInt8 :=
  kMagic ++ (bytes 2 header.version.toNat ++ (bytes 2 (kindCode header.kind) ++
    (bytes 8 header.sessionEpoch.toNat ++ (bytes 8 header.sequence.toNat ++
      (bytes 8 header.timestampUs.toNat ++ bytes 4 header.payloadLength.toNat)))))

/-- What both sides read of a header, with the errors of a side. -/
def decodeHeader {ε : Type} (invalid unsupported unknown : ε) (l : List UInt8) :
    Except ε MediaHeader :=
  if l.length ≠ kMediaHeaderBytes ∨ window l 0 4 ≠ kMagic then .error invalid
  else if UInt16.ofNat (number (window l 4 6)) ≠ 1 then .error unsupported
  else
    match kindOf (number (window l 6 8)) with
    | none => .error unknown
    | some kind => .ok {
        version := UInt16.ofNat (number (window l 4 6))
        kind
        sessionEpoch := UInt64.ofNat (number (window l 8 16))
        sequence := UInt64.ofNat (number (window l 16 24))
        timestampUs := UInt64.ofNat (number (window l 24 32))
        payloadLength := UInt32.ofNat (number (window l 32 36)) }

def decodeMediaHeader : List UInt8 → Except ProtocolError MediaHeader :=
  decodeHeader "invalid media magic or header length" "unsupported media protocol version"
    "unknown media kind"

inductive HeaderError
  | invalidHeader | unsupportedVersion | unknownKind

/-- `MediaHeader::decode`. -/
def mediaHeaderDecode : List UInt8 → Except HeaderError MediaHeader :=
  decodeHeader .invalidHeader .unsupportedVersion .unknownKind

section Codec

variable {ε : Type} {invalid unsupported unknown : ε} {header : MediaHeader} {l : List UInt8}

theorem length_encodeMediaHeader : (encodeMediaHeader header).length = kMediaHeaderBytes := by
  simp only [encodeMediaHeader, List.length_append, length_bytes]
  rfl

theorem kindOf_kindCode (kind : MediaKind) : kindOf (kindCode kind) = some kind := by
  cases kind <;> rfl

theorem kindCode_lt (kind : MediaKind) : kindCode kind < capacity 2 := by
  cases kind <;> decide

theorem kindCode_kindOf {n : Nat} {kind : MediaKind} (h : kindOf n = some kind) :
    kindCode kind = n := by
  unfold kindOf at h
  split at h <;> cases h <;> rfl

/-- The fields of a header stand one after the other. -/
theorem windows_encodeMediaHeader :
    window (encodeMediaHeader header) 0 4 = kMagic ∧
    window (encodeMediaHeader header) 4 6 = bytes 2 header.version.toNat ∧
    window (encodeMediaHeader header) 6 8 = bytes 2 (kindCode header.kind) ∧
    window (encodeMediaHeader header) 8 16 = bytes 8 header.sessionEpoch.toNat ∧
    window (encodeMediaHeader header) 16 24 = bytes 8 header.sequence.toNat ∧
    window (encodeMediaHeader header) 24 32 = bytes 8 header.timestampUs.toNat ∧
    window (encodeMediaHeader header) 32 36 = bytes 4 header.payloadLength.toNat :=
  ⟨rfl, rfl, rfl, rfl, rfl, rfl, rfl⟩

theorem capacities : capacity 2 = 65536 ∧ capacity 4 = 4294967296 ∧
    capacity 8 = 18446744073709551616 := ⟨rfl, rfl, rfl⟩

/-- A side reads exactly the headers of its version, each back as it was written. -/
theorem decodeHeader_iff : decodeHeader invalid unsupported unknown l = .ok header ↔
    header.version = 1 ∧ l = encodeMediaHeader header := by
  obtain ⟨h2, h4, h8⟩ := capacities
  constructor
  · intro h
    unfold decodeHeader at h
    split at h
    · cases h
    rename_i hshape
    obtain ⟨hlength, hmagic⟩ := not_or.1 hshape
    rw [not_not] at hlength hmagic
    have hwidth : l.length = 36 := hlength
    split at h
    · cases h
    rename_i hversion
    split at h
    · cases h
    rename_i kind hkind
    cases h
    refine ⟨not_not.1 hversion, ?_⟩
    -- each field is the number of its own bytes
    have hfield : ∀ {first last w : Nat}, last ≤ 36 → last - first = w →
        bytes w (number (window l first last)) = window l first last ∧
          number (window l first last) < capacity w := by
      intro first last w hle hw
      have hwindow : (window l first last).length = w := by
        rw [length_window (by omega), hw]
      have hnumber := bytes_number (window l first last)
      have hlt := number_lt (window l first last)
      rw [hwindow] at hnumber hlt
      exact ⟨hnumber, hlt⟩
    have hv := @hfield 4 6 2 (by decide) rfl
    have hk := @hfield 6 8 2 (by decide) rfl
    have he := @hfield 8 16 8 (by decide) rfl
    have hs := @hfield 16 24 8 (by decide) rfl
    have ht := @hfield 24 32 8 (by decide) rfl
    have hp := @hfield 32 36 4 (by decide) rfl
    rw [h2] at hv hk
    rw [h8] at he hs ht
    rw [h4] at hp
    simp only [encodeMediaHeader, UInt16.toNat_ofNat', UInt64.toNat_ofNat', UInt32.toNat_ofNat',
      Nat.mod_eq_of_lt hv.2, Nat.mod_eq_of_lt he.2, Nat.mod_eq_of_lt hs.2, Nat.mod_eq_of_lt ht.2,
      Nat.mod_eq_of_lt hp.2, kindCode_kindOf hkind, hv.1, hk.1, he.1, hs.1, ht.1, hp.1]
    rw [← hmagic, window_concat (by decide) (by decide), window_concat (by decide) (by decide),
      window_concat (by decide) (by decide), window_concat (by decide) (by decide),
      window_concat (by decide) (by decide), window_concat (by decide) (by decide), window,
      List.drop_zero, Nat.sub_zero, ← hwidth, List.take_length]
  · rintro ⟨hversion, rfl⟩
    obtain ⟨hm, hv, hk, he, hs, ht, hp⟩ := @windows_encodeMediaHeader header
    have hversionNumber : number (bytes 2 header.version.toNat) = header.version.toNat :=
      number_bytes (h2 ▸ header.version.toNat_lt)
    have hkind : number (bytes 2 (kindCode header.kind)) = kindCode header.kind :=
      number_bytes (kindCode_lt _)
    have hnumber : ∀ n : UInt64, number (bytes 8 n.toNat) = n.toNat := fun n =>
      number_bytes (h8 ▸ n.toNat_lt)
    have hpayload : number (bytes 4 header.payloadLength.toNat) = header.payloadLength.toNat :=
      number_bytes (h4 ▸ header.payloadLength.toNat_lt)
    unfold decodeHeader
    rw [hm, hv, hk, he, hs, ht, hp, hversionNumber, hkind, hnumber, hnumber, hnumber, hpayload,
      kindOf_kindCode, UInt16.ofNat_toNat, if_neg (by
        rw [length_encodeMediaHeader]
        exact not_or.2 ⟨not_not.2 rfl, not_not.2 rfl⟩), if_neg (not_not.2 hversion)]
    simp only [UInt64.ofNat_toNat, UInt32.ofNat_toNat]

/-- The two sides read the same headers, and read back just what was written. -/
theorem headers_agree (header : MediaHeader) (l : List UInt8) :
    (decodeMediaHeader l = .ok header ↔ mediaHeaderDecode l = .ok header) ∧
      (mediaHeaderDecode l = .ok header ↔ header.version = 1 ∧ l = encodeMediaHeader header) :=
  ⟨decodeHeader_iff.trans decodeHeader_iff.symm, decodeHeader_iff⟩

theorem encodeMediaHeader_inj {header' : MediaHeader} (hv : header.version = 1)
    (hv' : header'.version = 1) (h : encodeMediaHeader header = encodeMediaHeader header') :
    header = header' := by
  have hread : decodeMediaHeader (encodeMediaHeader header) = .ok header :=
    decodeHeader_iff.2 ⟨hv, rfl⟩
  have hread' : decodeMediaHeader (encodeMediaHeader header') = .ok header' :=
    decodeHeader_iff.2 ⟨hv', rfl⟩
  rw [h, hread'] at hread
  exact (Except.ok.inj hread).symm

end Codec

/-! The buffer. -/

def kMicPcm16PacketBytes : Nat := 640

def kMaxApplicationPcm16Bytes : Nat := 32000

def kMaxJpegBytes : Nat := 8 * 1024 * 1024

def kMaxBgraBytes : Nat := 32 * 1024 * 1024

def kMaxMediaBufferBytes : Nat := 48 * 1024 * 1024

def kMaxAudioRingBytes : Nat := 8 * 1024 * 1024

def kMicCadenceUs : UInt64 := 20000

structure MediaFrame where
  header : MediaHeader
  payload : List UInt8

structure MediaBatch where
  microphonePcm16 : List UInt8
  jpeg : List UInt8
  mediaSequence : UInt64

structure MediaBuffer where
  epoch : UInt64
  lastSequence : UInt64
  lastTimestampUs : UInt64
  lastMicTimestampUs : UInt64
  videoWidth : UInt32
  videoHeight : UInt32
  microphone : List MediaFrame
  applicationAudio : List MediaFrame
  latestVideo : Option MediaFrame
  microphoneBytes : Nat
  applicationBytes : Nat
  videoBytes : Nat

def validateKindAndSize (header : MediaHeader) (videoWidth videoHeight : UInt32) :
    Except ProtocolError Unit :=
  let length := header.payloadLength.toNat
  match header.kind with
  | .microphonePcm16 =>
    if length ≠ kMicPcm16PacketBytes then
      .error "microphone packet must contain exactly 20 ms of PCM16"
    else .ok ()
  | .applicationPcm16 =>
    if length = 0 ∨ length > kMaxApplicationPcm16Bytes ∨ length % 2 ≠ 0 then
      .error "application PCM16 packet is outside its allowed bound"
    else .ok ()
  | .jpeg =>
    if length = 0 ∨ length > kMaxJpegBytes then .error "JPEG packet is outside its allowed bound"
    else .ok ()
  | .bgra =>
    if videoWidth = 0 ∨ videoHeight = 0 then
      .error "BGRA dimensions were not declared by the active context"
    else
      -- the product is taken modulo 2 to the 64
      let expected := (videoWidth.toUInt64 * videoHeight.toUInt64 * 4).toNat
      if expected = 0 ∨ expected > kMaxBgraBytes ∨ length ≠ expected then
        .error "BGRA packet does not match the bounded context dimensions"
      else .ok ()

namespace MediaBuffer

def new : MediaBuffer := ⟨0, 0, 0, 0, 0, 0, [], [], none, 0, 0, 0⟩

def validateLocked (b : MediaBuffer) (header : MediaHeader) : Except ProtocolError Unit :=
  if b.epoch = 0 ∨ header.sessionEpoch ≠ b.epoch then .error "stale media epoch"
  else if header.sequence = 0 ∨ header.sequence ≤ b.lastSequence then
    .error "stale media sequence"
  else if header.timestampUs = 0 ∨ header.timestampUs < b.lastTimestampUs then
    .error "stale media timestamp"
  else if header.kind = .microphonePcm16 ∧ b.lastMicTimestampUs ≠ 0 ∧
      (b.lastMicTimestampUs > 18446744073709551615 - kMicCadenceUs ∨
        header.timestampUs ≠ b.lastMicTimestampUs + kMicCadenceUs) then
    .error "microphone packet cadence is not exactly 20 ms"
  else validateKindAndSize header b.videoWidth b.videoHeight

def clearLocked (b : MediaBuffer) : MediaBuffer :=
  { b with
    microphone := []
    applicationAudio := []
    latestVideo := none
    microphoneBytes := 0
    applicationBytes := 0
    videoBytes := 0
    lastSequence := 0
    lastTimestampUs := 0
    lastMicTimestampUs := 0 }

def trimRing : List MediaFrame → Nat → List MediaFrame × Nat
  | [], ringBytes => ([], ringBytes)
  | frame :: ring, ringBytes =>
    if kMaxAudioRingBytes < ringBytes then trimRing ring (ringBytes - frame.payload.length)
    else (frame :: ring, ringBytes)

/-- What a method comes to: what it has assigned before it throws stays. -/
abbrev Outcome := Except ProtocolError Unit × MediaBuffer

def rotateEpoch (b : MediaBuffer) (sessionEpoch : UInt64) : Outcome :=
  if sessionEpoch = 0 then (.error "media epoch must be positive", b)
  else (.ok (), { b.clearLocked with epoch := sessionEpoch })

def configureVideo (b : MediaBuffer) (width height : UInt32) : Outcome :=
  if (width = 0) ≠ (height = 0) then
    (.error "video dimensions must both be zero or both be positive", b)
  else
    let bytes := (width.toUInt64 * height.toUInt64 * 4).toNat
    if bytes > kMaxBgraBytes then (.error "video dimensions exceed the BGRA buffer bound", b)
    else
      let b := { b with videoWidth := width, videoHeight := height }
      if b.latestVideo.any fun frame =>
          frame.header.kind = .bgra ∧ frame.payload.length ≠ bytes then
        (.ok (), { b with latestVideo := none, videoBytes := 0 })
      else (.ok (), b)

/-- Where `commit` puts a frame that it has validated. -/
def store (b : MediaBuffer) (frame : MediaFrame) : MediaBuffer :=
  let b := { b with
    lastSequence := frame.header.sequence
    lastTimestampUs := frame.header.timestampUs }
  match frame.header.kind with
  | .microphonePcm16 =>
    let ring := trimRing (b.microphone ++ [frame]) (b.microphoneBytes + frame.payload.length)
    { b with
      lastMicTimestampUs := frame.header.timestampUs
      microphone := ring.1
      microphoneBytes := ring.2 }
  | .applicationPcm16 =>
    let ring := trimRing (b.applicationAudio ++ [frame])
      (b.applicationBytes + frame.payload.length)
    { b with applicationAudio := ring.1, applicationBytes := ring.2 }
  | .jpeg | .bgra => { b with latestVideo := some frame, videoBytes := frame.payload.length }

def bufferedBytes (b : MediaBuffer) : Nat :=
  b.microphoneBytes + b.applicationBytes + b.videoBytes

def commit (b : MediaBuffer) (header : MediaHeader) (payload : List UInt8) : Outcome :=
  match b.validateLocked header with
  | .error e => (.error e, b)
  | .ok () =>
    if payload.length ≠ header.payloadLength.toNat then
      (.error "media payload length changed after validation", b)
    else
      let b := b.store ⟨header, payload⟩
      if b.bufferedBytes > kMaxMediaBufferBytes then
        (.error "aggregate media buffer exceeded its hard bound", b)
      else (.ok (), b)

/-- The batch; a picture that is no JPEG and the application audio are dropped. -/
def takeBatch (b : MediaBuffer) : MediaBatch × MediaBuffer :=
  ({ microphonePcm16 := b.microphone.flatMap (·.payload)
     jpeg := ((b.latestVideo.filter fun frame => frame.header.kind = .jpeg).map (·.payload)).getD []
     mediaSequence := b.lastSequence },
    { b with
      microphone := []
      microphoneBytes := 0
      applicationAudio := []
      applicationBytes := 0
      latestVideo := none
      videoBytes := 0 })

def clear (b : MediaBuffer) : MediaBuffer :=
  { b.clearLocked with epoch := 0, videoWidth := 0, videoHeight := 0 }

variable {b : MediaBuffer} {header : MediaHeader} {payload : List UInt8}

/-- What a packet has to be, for a buffer to take it. -/
structure Admits (b : MediaBuffer) (header : MediaHeader) : Prop where
  epoch : b.epoch ≠ 0 ∧ header.sessionEpoch = b.epoch
  sequence : b.lastSequence < header.sequence
  timestamp : header.timestampUs ≠ 0 ∧ b.lastTimestampUs ≤ header.timestampUs
  cadence : header.kind = .microphonePcm16 → b.lastMicTimestampUs ≠ 0 →
    header.timestampUs.toNat = b.lastMicTimestampUs.toNat + 20000
  size : validateKindAndSize header b.videoWidth b.videoHeight = .ok ()

theorem validateLocked_iff : b.validateLocked header = .ok () ↔ b.Admits header := by
  have hcadence : ∀ t : UInt64, (¬ (b.lastMicTimestampUs > 18446744073709551615 - kMicCadenceUs ∨
      t ≠ b.lastMicTimestampUs + kMicCadenceUs)) ↔
        t.toNat = b.lastMicTimestampUs.toNat + 20000 := by
    intro t
    have hlimit : (18446744073709551615 - kMicCadenceUs : UInt64).toNat =
        18446744073709531615 := rfl
    have hstep : kMicCadenceUs.toNat = 20000 := rfl
    have hsum := UInt64.toNat_add b.lastMicTimestampUs kMicCadenceUs
    have hlt := t.toNat_lt
    rw [not_or, not_not, gt_iff_lt, UInt64.lt_iff_toNat_lt, hlimit, ← UInt64.toNat_inj, hsum, hstep]
    omega
  unfold validateLocked
  constructor
  · intro h
    split at h
    · cases h
    rename_i hepoch
    split at h
    · cases h
    rename_i hsequence
    split at h
    · cases h
    rename_i htimestamp
    split at h
    · cases h
    rename_i hmic
    obtain ⟨hpositive, hsame⟩ := not_or.1 hepoch
    obtain ⟨-, hnewer⟩ := not_or.1 hsequence
    obtain ⟨hstamped, hlater⟩ := not_or.1 htimestamp
    refine ⟨⟨hpositive, not_not.1 hsame⟩, UInt64.not_le.1 hnewer,
      ⟨hstamped, UInt64.not_lt.1 hlater⟩, fun hkind hlast => ?_, h⟩
    exact (hcadence _).1 fun hwrong => hmic ⟨hkind, hlast, hwrong⟩
  · intro h
    have hpositive : header.sequence ≠ 0 := fun hzero => by
      have hlt := h.sequence
      rw [hzero] at hlt
      exact absurd hlt (UInt64.not_lt.2 (UInt64.zero_le))
    rw [if_neg (not_or.2 ⟨h.epoch.1, not_not.2 h.epoch.2⟩),
      if_neg (not_or.2 ⟨hpositive, UInt64.not_le.2 h.sequence⟩),
      if_neg (not_or.2 ⟨h.timestamp.1, UInt64.not_lt.2 h.timestamp.2⟩), if_neg ?_]
    · exact h.size
    · rintro ⟨hkind, hlast, hwrong⟩
      exact (hcadence _).2 (h.cadence hkind hlast) hwrong

/-- The bytes of the frames of a ring. -/
def ringBytes : List MediaFrame → Nat
  | [] => 0
  | frame :: ring => frame.payload.length + ringBytes ring

theorem ringBytes_append (ring ring' : List MediaFrame) :
    ringBytes (ring ++ ring') = ringBytes ring + ringBytes ring' := by
  induction ring with
  | nil => exact (Nat.zero_add _).symm
  | cons frame ring ih => rw [List.cons_append, ringBytes, ringBytes, ih, Nat.add_assoc]

/-- A ring is trimmed to its bound, and its bytes are counted on. -/
theorem trimRing_bytes (ring : List MediaFrame) :
    (trimRing ring (ringBytes ring)).2 = ringBytes (trimRing ring (ringBytes ring)).1 ∧
      (trimRing ring (ringBytes ring)).2 ≤ kMaxAudioRingBytes := by
  induction ring with
  | nil => exact ⟨rfl, Nat.zero_le _⟩
  | cons frame ring ih =>
    by_cases hfull : kMaxAudioRingBytes < ringBytes (frame :: ring)
    · have hrest : ringBytes (frame :: ring) - frame.payload.length = ringBytes ring :=
        Nat.add_sub_cancel_left ..
      rw [trimRing, if_pos hfull, hrest]
      exact ih
    · rw [trimRing, if_neg hfull]
      exact ⟨rfl, Nat.le_of_not_lt hfull⟩

/-- A ring within its bound is not trimmed. -/
theorem trimRing_fits {ring : List MediaFrame} {n : Nat} (h : n ≤ kMaxAudioRingBytes) :
    trimRing ring n = (ring, n) := by
  cases ring with
  | nil => rfl
  | cons frame ring => rw [trimRing, if_neg (Nat.not_lt.2 h)]

/-- The counters are of what is buffered, and each part is within its bound. -/
structure Sized (b : MediaBuffer) : Prop where
  microphone : b.microphoneBytes = ringBytes b.microphone
  application : b.applicationBytes = ringBytes b.applicationAudio
  video : b.videoBytes = (b.latestVideo.map (·.payload.length)).getD 0
  microphoneBound : b.microphoneBytes ≤ kMaxAudioRingBytes
  applicationBound : b.applicationBytes ≤ kMaxAudioRingBytes
  videoBound : b.videoBytes ≤ kMaxBgraBytes

/-- The three parts together are never past the bound of the buffer. -/
theorem Sized.bufferedBytes_le (h : b.Sized) : b.bufferedBytes ≤ kMaxMediaBufferBytes := by
  obtain ⟨-, -, -, hmicrophone, happlication, hvideo⟩ := h
  simp only [bufferedBytes, kMaxMediaBufferBytes, kMaxAudioRingBytes, kMaxBgraBytes] at *
  omega

theorem payload_le (h : validateKindAndSize header b.videoWidth b.videoHeight = .ok ()) :
    header.payloadLength.toNat ≤ kMaxBgraBytes := by
  simp only [validateKindAndSize] at h
  split at h
  · split at h
    · cases h
    · rename_i hlength
      rw [not_not.1 hlength]
      decide
  · split at h
    · cases h
    · rename_i hlength
      simp only [kMaxApplicationPcm16Bytes, kMaxBgraBytes] at hlength ⊢
      omega
  · split at h
    · cases h
    · rename_i hlength
      simp only [kMaxJpegBytes, kMaxBgraBytes] at hlength ⊢
      omega
  · split at h
    · cases h
    split at h
    · cases h
    · rename_i hlength
      omega

theorem Sized.store (h : b.Sized) {frame : MediaFrame}
    (hlength : frame.payload.length ≤ kMaxBgraBytes) : (b.store frame).Sized := by
  have hring : ∀ ring : List MediaFrame, ringBytes ring + frame.payload.length =
      ringBytes (ring ++ [frame]) := fun ring => by
    rw [ringBytes_append]
    rfl
  cases hkind : frame.header.kind with
  | microphonePcm16 =>
    have htrim := trimRing_bytes (b.microphone ++ [frame])
    simp only [MediaBuffer.store, hkind]
    refine { h with microphone := ?_, microphoneBound := ?_ }
    · simp only [h.microphone, hring]
      exact htrim.1
    · simp only [h.microphone, hring]
      exact htrim.2
  | applicationPcm16 =>
    have htrim := trimRing_bytes (b.applicationAudio ++ [frame])
    simp only [MediaBuffer.store, hkind]
    refine { h with application := ?_, applicationBound := ?_ }
    · simp only [h.application, hring]
      exact htrim.1
    · simp only [h.application, hring]
      exact htrim.2
  | jpeg | bgra =>
    simp only [MediaBuffer.store, hkind]
    exact { h with video := rfl, videoBound := hlength }

/-- A packet is stored where it is admitted and has the length that its header says; the bound of
the whole buffer refuses nothing. -/
theorem commit_eq (h : b.Sized) : b.commit header payload =
    match b.validateLocked header with
    | .error e => (.error e, b)
    | .ok () =>
      if payload.length ≠ header.payloadLength.toNat then
        (.error "media payload length changed after validation", b)
      else (.ok (), b.store ⟨header, payload⟩) := by
  unfold commit
  cases hvalid : b.validateLocked header with
  | error e => rfl
  | ok =>
    by_cases hlength : payload.length ≠ header.payloadLength.toNat
    · simp only [if_pos hlength]
    · have hsize := payload_le (validateLocked_iff.1 hvalid).size
      rw [← not_not.1 hlength] at hsize
      have hsized := (@Sized.store b h ⟨header, payload⟩ hsize).bufferedBytes_le
      simp only [if_neg hlength, gt_iff_lt, if_neg (Nat.not_lt.2 hsized)]

theorem Sized.commit (h : b.Sized) : (b.commit header payload).2.Sized := by
  rw [commit_eq h]
  cases hvalid : b.validateLocked header with
  | error e => exact h
  | ok =>
    by_cases hlength : payload.length ≠ header.payloadLength.toNat
    · simp only [if_pos hlength]
      exact h
    · have hsize := payload_le (validateLocked_iff.1 hvalid).size
      rw [← not_not.1 hlength] at hsize
      simp only [if_neg hlength]
      exact h.store hsize

theorem Sized.clearLocked (b : MediaBuffer) : b.clearLocked.Sized :=
  ⟨rfl, rfl, rfl, Nat.zero_le _, Nat.zero_le _, Nat.zero_le _⟩

theorem Sized.rotateEpoch (h : b.Sized) (epoch : UInt64) : (b.rotateEpoch epoch).2.Sized := by
  unfold MediaBuffer.rotateEpoch
  split
  · exact h
  · exact { Sized.clearLocked b with }

theorem Sized.configureVideo (h : b.Sized) (width height : UInt32) :
    (b.configureVideo width height).2.Sized := by
  unfold MediaBuffer.configureVideo
  split
  · exact h
  simp only
  split
  · exact h
  split
  · exact { h with video := rfl, videoBound := Nat.zero_le _ }
  · exact { h with }

theorem Sized.takeBatch (h : b.Sized) : b.takeBatch.2.Sized :=
  { h with
    microphone := rfl
    application := rfl
    video := rfl
    microphoneBound := Nat.zero_le _
    applicationBound := Nat.zero_le _
    videoBound := Nat.zero_le _ }

/-- A call of the buffer. -/
inductive Call
  | rotateEpoch (sessionEpoch : UInt64)
  | configureVideo (width height : UInt32)
  | commit (header : MediaHeader) (payload : List UInt8)
  | takeBatch
  | clear

/-- What a call answers, and what it leaves. -/
def call (b : MediaBuffer) : Call → Outcome
  | .rotateEpoch sessionEpoch => b.rotateEpoch sessionEpoch
  | .configureVideo width height => b.configureVideo width height
  | .commit header payload => b.commit header payload
  | .takeBatch => (.ok (), b.takeBatch.2)
  | .clear => (.ok (), b.clear)

def Step (b : MediaBuffer) (c : Call) (b' : MediaBuffer) : Prop := b' = (b.call c).2

theorem Sized.call (h : b.Sized) (c : Call) : (b.call c).2.Sized := by
  cases c with
  | rotateEpoch sessionEpoch => exact h.rotateEpoch sessionEpoch
  | configureVideo width height => exact h.configureVideo width height
  | commit header payload => exact h.commit
  | takeBatch => exact h.takeBatch
  | clear => exact { Sized.clearLocked b with }

theorem Sized.of_run (h : Run Step (fun _ _ => True) new b) : b.Sized :=
  h.invariant (fun b c b' hb _ hs => by rw [hs]; exact hb.call c) (Sized.clearLocked new)

theorem call_error (h : b.Sized) {c : Call} {e : ProtocolError} (he : (b.call c).1 = .error e) :
    (b.call c).2 = b := by
  cases c with
  | rotateEpoch sessionEpoch =>
    simp only [MediaBuffer.call, MediaBuffer.rotateEpoch] at he ⊢
    split
    · rfl
    · rename_i hpositive
      rw [if_neg hpositive] at he
      cases he
  | configureVideo width height =>
    simp only [MediaBuffer.call, MediaBuffer.configureVideo] at he ⊢
    split
    · rfl
    rename_i hboth
    rw [if_neg hboth] at he
    split
    · rfl
    rename_i hbound
    rw [if_neg hbound] at he
    split at he <;> cases he
  | commit header payload =>
    simp only [MediaBuffer.call, commit_eq h] at he ⊢
    cases hvalid : b.validateLocked header with
    | error e => rfl
    | ok =>
      rw [hvalid] at he
      by_cases hlength : payload.length ≠ header.payloadLength.toNat
      · simp only [if_pos hlength]
      · simp only [if_neg hlength] at he
        cases he
  | takeBatch | clear => cases he

/-- In every run of the calls of a buffer its counters are of what it holds, it holds no more than
its bound, and a call that is refused leaves it as it was. -/
theorem bounded_of_run (h : Run Step (fun _ _ => True) new b) :
    b.bufferedBytes = ringBytes b.microphone + ringBytes b.applicationAudio +
        (b.latestVideo.map (·.payload.length)).getD 0 ∧
      b.bufferedBytes ≤ kMaxMediaBufferBytes ∧
        ∀ c e, (b.call c).1 = .error e → (b.call c).2 = b := by
  have hsized := Sized.of_run h
  refine ⟨?_, hsized.bufferedBytes_le, fun c e he => call_error hsized he⟩
  rw [bufferedBytes, hsized.microphone, hsized.application, hsized.video]

/-- A picture of three bytes. -/
theorem bounded_of_picture :
    ((new.rotateEpoch 1).2.commit ⟨1, .jpeg, 1, 1, 1, 3⟩ [1, 2, 3]).2.bufferedBytes ≤
      kMaxMediaBufferBytes := by
  have hrun : Run Step (fun _ _ => True) new
      ((new.call (.rotateEpoch 1)).2.call (.commit ⟨1, .jpeg, 1, 1, 1, 3⟩ [1, 2, 3])).2 :=
    .next (.next .refl trivial rfl) trivial rfl
  exact (bounded_of_run hrun).2.1

end MediaBuffer

/-! The two keepers of the protocol: the buffer of the runtime and the state of the desktop. -/

/-- A context has no dimension past 8192. -/
structure Agrees (s : MediaValidationState) (b : MediaBuffer) : Prop where
  sized : b.Sized
  epoch : s.sessionEpoch = b.epoch
  sequence : s.lastSequence = b.lastSequence
  timestamp : s.lastTimestampUs = b.lastTimestampUs
  microphone : s.lastMicrophoneTimestampUs = b.lastMicTimestampUs
  width : s.videoWidth = b.videoWidth ∧ b.videoWidth.toNat ≤ 8192
  height : s.videoHeight = b.videoHeight ∧ b.videoHeight.toNat ≤ 8192

section Agreement

variable {s : MediaValidationState} {b : MediaBuffer} {header : MediaHeader} {width height : UInt32}

/-- Within the dimensions of a context no product is taken modulo anything. -/
theorem frameBytes_eq (hw : width.toNat ≤ 8192) (hh : height.toNat ≤ 8192) :
    MediaValidationState.frameBytes width height =
      some (width.toUInt64 * height.toUInt64 * 4).toNat := by
  have hproduct : width.toNat * height.toNat ≤ 8192 * 8192 := Nat.mul_le_mul hw hh
  have hvalue : (width.toUInt64 * height.toUInt64 * 4).toNat = width.toNat * height.toNat * 4 := by
    rw [UInt64.toNat_mul, UInt64.toNat_mul, UInt32.toNat_toUInt64, UInt32.toNat_toUInt64]
    change _ % 18446744073709551616 * 4 % 18446744073709551616 = _
    omega
  rw [hvalue, MediaValidationState.frameBytes, checkedMul64, if_pos (by omega), Option.bind_some,
    checkedMul64, if_pos (by omega)]

theorem validatePayload_iff (h : Agrees s b) : s.validatePayload header = .ok () ↔
    validateKindAndSize header b.videoWidth b.videoHeight = .ok () := by
  have hif : ∀ {ε ε' : Type} {e : ε} {e' : ε'} {p q : Prop} [Decidable p] [Decidable q],
      (p ↔ q) → ((if p then Except.error e else .ok ()) = .ok () ↔
        (if q then Except.error e' else .ok ()) = .ok ()) := by
    intro ε ε' e e' p q _ _ hpq
    by_cases hp : p
    · rw [if_pos hp, if_pos (hpq.1 hp)]
      exact iff_of_false nofun nofun
    · rw [if_neg hp, if_neg fun hq => hp (hpq.2 hq)]
      exact iff_of_true rfl rfl
  have hzero : header.payloadLength = 0 ↔ header.payloadLength.toNat = 0 :=
    UInt32.toNat_inj.symm
  unfold MediaValidationState.validatePayload validateKindAndSize
  cases hkind : header.kind with
  | microphonePcm16 =>
    apply hif
    rw [ne_eq, ne_eq, ← UInt32.toNat_inj]
    exact Iff.rfl
  | applicationPcm16 =>
    apply hif
    have hbound : maxApplicationPcm16Bytes.toNat = kMaxApplicationPcm16Bytes := rfl
    have htwo : (header.payloadLength % 2).toNat = header.payloadLength.toNat % 2 :=
      UInt32.toNat_mod ..
    rw [hzero, gt_iff_lt, gt_iff_lt, UInt32.lt_iff_toNat_lt, hbound, ne_eq, ne_eq,
      ← UInt32.toNat_inj, htwo]
    exact Iff.rfl
  | jpeg =>
    apply hif
    have hbound : maxJpegBytes.toNat = kMaxJpegBytes := rfl
    rw [hzero, gt_iff_lt, gt_iff_lt, UInt32.lt_iff_toNat_lt, hbound]
  | bgra =>
    simp only [h.width.1, h.height.1, frameBytes_eq h.width.2 h.height.2]
    by_cases hdeclared : b.videoWidth = 0 ∨ b.videoHeight = 0
    · have hnone : (b.videoWidth.toUInt64 * b.videoHeight.toUInt64 * 4).toNat = 0 := by
        have hzero : (0 : UInt32).toUInt64 = 0 := rfl
        obtain hz | hz := hdeclared
        · rw [hz, hzero, UInt64.zero_mul]
          rfl
        · rw [hz, hzero, UInt64.mul_zero]
          rfl
      rw [if_pos hdeclared, hnone]
      exact iff_of_false nofun nofun
    · rw [if_neg hdeclared]
      generalize (b.videoWidth.toUInt64 * b.videoHeight.toUInt64 * 4).toNat = expected
      by_cases hbound : 0 < expected ∧ expected ≤ maxBgraBytes
      · have hrange : ¬ (expected = 0 ∨ expected > kMaxBgraBytes) := by
          have hsame : maxBgraBytes = kMaxBgraBytes := rfl
          omega
        rw [Option.filter_some, if_pos (decide_eq_true hbound)]
        refine hif ⟨fun hne => .inr (.inr hne), fun hor => ?_⟩
        obtain hz | hlarge | hne := hor
        · exact absurd (.inl hz) hrange
        · exact absurd (.inr hlarge) hrange
        · exact hne
      · have hrange : expected = 0 ∨ expected > kMaxBgraBytes := by
          have hsame : maxBgraBytes = kMaxBgraBytes := rfl
          omega
        rw [Option.filter_some, if_neg (by simpa using hbound), if_pos]
        · exact iff_of_false nofun nofun
        · exact hrange.imp_right .inl

theorem validate_agree (h : Agrees s b) : s.validateBeforeAllocation header = .ok () ↔
    b.validateLocked header = .ok () := by
  have hcadence : (header.kind = .microphonePcm16 ∧ b.lastMicTimestampUs ≠ 0 ∧
      checkedAdd64 b.lastMicTimestampUs.toNat microphoneCadenceUs ≠
        some header.timestampUs.toNat) ↔
      ¬ (header.kind = .microphonePcm16 → b.lastMicTimestampUs ≠ 0 →
        header.timestampUs.toNat = b.lastMicTimestampUs.toNat + 20000) := by
    have hlt : header.timestampUs.toNat < 18446744073709551616 := header.timestampUs.toNat_lt
    have hsum : checkedAdd64 b.lastMicTimestampUs.toNat microphoneCadenceUs =
        some header.timestampUs.toNat ↔
          header.timestampUs.toNat = b.lastMicTimestampUs.toNat + 20000 := by
      unfold checkedAdd64 microphoneCadenceUs
      split
      · rw [Option.some.injEq, eq_comm]
      · refine iff_of_false nofun ?_
        omega
    rw [ne_eq, ne_eq, hsum, Classical.not_imp, Classical.not_imp]
  rw [MediaBuffer.validateLocked_iff]
  unfold MediaValidationState.validateBeforeAllocation
  rw [h.epoch, h.sequence, h.timestamp, h.microphone]
  constructor
  · intro hvalid
    split at hvalid
    · cases hvalid
    rename_i hepoch
    split at hvalid
    · cases hvalid
    rename_i hsequence
    split at hvalid
    · cases hvalid
    rename_i htimestamp
    split at hvalid
    · cases hvalid
    rename_i hmicrophone
    obtain ⟨hpositive, hsame⟩ := not_or.1 hepoch
    obtain ⟨hstamped, hlater⟩ := not_or.1 htimestamp
    exact ⟨⟨hpositive, not_not.1 hsame⟩, UInt64.not_le.1 (not_or.1 hsequence).2,
      ⟨hstamped, UInt64.not_lt.1 hlater⟩, not_not.1 fun hwrong => hmicrophone (hcadence.2 hwrong),
      (validatePayload_iff h).1 hvalid⟩
  · intro hadmits
    have hpositive : header.sequence ≠ 0 := fun hzero => by
      have hlt := hadmits.sequence
      rw [hzero] at hlt
      exact absurd hlt (UInt64.not_lt.2 UInt64.zero_le)
    rw [if_neg (not_or.2 ⟨hadmits.epoch.1, not_not.2 hadmits.epoch.2⟩),
      if_neg (not_or.2 ⟨hpositive, UInt64.not_le.2 hadmits.sequence⟩),
      if_neg (not_or.2 ⟨hadmits.timestamp.1, UInt64.not_lt.2 hadmits.timestamp.2⟩),
      if_neg fun hwrong => hcadence.1 hwrong hadmits.cadence]
    exact (validatePayload_iff h).2 hadmits.size

/-- What both keepers are told; only the buffer has batches to be taken. -/
inductive Message
  | rotateEpoch (sessionEpoch : UInt64)
  | configureVideo (width height : UInt32)
  | packet (header : MediaHeader) (payload : List UInt8)
  | takeBatch

/-- A context declares no dimension past 8192. -/
def Message.Declared : Message → Prop
  | .configureVideo width height => width.toNat ≤ 8192 ∧ height.toNat ≤ 8192
  | _ => True

def hostCall (s : MediaValidationState) : Message → MediaValidationState.Outcome
  | .rotateEpoch sessionEpoch => s.rotateEpoch sessionEpoch
  | .configureVideo width height => s.configureVideo width height
  | .packet header payload => s.accept header payload.length
  | .takeBatch => (.ok (), s)

def nativeCall (b : MediaBuffer) : Message → MediaBuffer.Outcome
  | .rotateEpoch sessionEpoch => b.rotateEpoch sessionEpoch
  | .configureVideo width height => b.configureVideo width height
  | .packet header payload => b.commit header payload
  | .takeBatch => (.ok (), b.takeBatch.2)

/-- What a keeper says to one message after the other. -/
def answers {σ ε : Type} (call : σ → Message → Except ε Unit × σ) : σ → List Message → List Bool
  | _, [] => []
  | s, m :: messages => (call s m).1.isOk :: answers call (call s m).2 messages

theorem agree_rotateEpoch (h : Agrees s b) (sessionEpoch : UInt64) :
    (s.rotateEpoch sessionEpoch).1.isOk = (b.rotateEpoch sessionEpoch).1.isOk ∧
      Agrees (s.rotateEpoch sessionEpoch).2 (b.rotateEpoch sessionEpoch).2 := by
  have hsized := h.sized.rotateEpoch sessionEpoch
  unfold MediaValidationState.rotateEpoch
  unfold MediaBuffer.rotateEpoch at hsized ⊢
  by_cases hzero : sessionEpoch = 0
  · rw [if_pos hzero, if_pos hzero]
    exact ⟨rfl, h⟩
  · rw [if_neg hzero] at hsized
    rw [if_neg hzero, if_neg hzero]
    exact ⟨rfl, hsized, rfl, rfl, rfl, rfl, h.width, h.height⟩

theorem agree_configureVideo (h : Agrees s b) (hw : width.toNat ≤ 8192)
    (hh : height.toNat ≤ 8192) :
    (s.configureVideo width height).1.isOk = (b.configureVideo width height).1.isOk ∧
      Agrees (s.configureVideo width height).2 (b.configureVideo width height).2 := by
  have hsized := h.sized.configureVideo width height
  unfold MediaValidationState.configureVideo
  unfold MediaBuffer.configureVideo at hsized ⊢
  simp only [frameBytes_eq hw hh, Option.mem_def, Option.some.injEq, exists_eq_left', reduceCtorEq,
    false_or]
  have hbound : maxBgraBytes = kMaxBgraBytes := rfl
  by_cases hboth : (width = 0) ≠ (height = 0)
  · rw [if_pos (.inl hboth), if_pos hboth]
    exact ⟨rfl, h⟩
  rw [if_neg hboth] at hsized ⊢
  by_cases hlarge : (width.toUInt64 * height.toUInt64 * 4).toNat > kMaxBgraBytes
  · rw [if_pos (.inr (hbound ▸ hlarge)), if_pos hlarge]
    exact ⟨rfl, h⟩
  rw [if_neg hlarge] at hsized
  rw [if_neg (not_or.2 ⟨hboth, hbound ▸ hlarge⟩), if_neg hlarge]
  simp only at hsized ⊢
  split
  · rename_i hstale
    rw [if_pos hstale] at hsized
    exact ⟨rfl, hsized, h.epoch, h.sequence, h.timestamp, h.microphone, ⟨rfl, hw⟩, ⟨rfl, hh⟩⟩
  · rename_i hfresh
    rw [if_neg hfresh] at hsized
    exact ⟨rfl, hsized, h.epoch, h.sequence, h.timestamp, h.microphone, ⟨rfl, hw⟩, ⟨rfl, hh⟩⟩

theorem agree_packet (h : Agrees s b) (header : MediaHeader) (payload : List UInt8) :
    (s.accept header payload.length).1.isOk = (b.commit header payload).1.isOk ∧
      Agrees (s.accept header payload.length).2 (b.commit header payload).2 := by
  have hsized := @MediaBuffer.Sized.commit b header payload h.sized
  have hagree := @validate_agree s b header h
  rw [MediaBuffer.commit_eq h.sized] at hsized ⊢
  unfold MediaValidationState.accept
  cases hhost : s.validateBeforeAllocation header with
  | error e =>
    cases hnative : b.validateLocked header with
    | error e' => exact ⟨rfl, h⟩
    | ok =>
      rw [hagree.2 hnative] at hhost
      cases hhost
  | ok =>
    rw [hagree.1 hhost] at hsized ⊢
    by_cases hlength : payload.length ≠ header.payloadLength.toNat
    · simp only [if_pos hlength]
      exact ⟨rfl, h⟩
    · simp only [if_neg hlength] at hsized ⊢
      refine ⟨rfl, ?_⟩
      revert hsized
      unfold MediaBuffer.store
      cases hkind : header.kind with
      | microphonePcm16 => exact fun hsized => ⟨hsized, h.epoch, rfl, rfl, rfl, h.width, h.height⟩
      | applicationPcm16 | jpeg | bgra =>
        exact fun hsized => ⟨hsized, h.epoch, rfl, rfl, h.microphone, h.width, h.height⟩

/-- The runtime and the desktop say the same to every series of messages. -/
theorem packets_agree {messages : List Message} (h : ∀ m ∈ messages, m.Declared) :
    answers hostCall .default messages = answers nativeCall .new messages := by
  have hagrees : ∀ (s : MediaValidationState) (b : MediaBuffer), Agrees s b →
      answers hostCall s messages = answers nativeCall b messages := by
    induction messages with
    | nil => exact fun _ _ _ => rfl
    | cons m messages ih =>
      intro s b hs
      rw [List.forall_mem_cons] at h
      have hstep : (hostCall s m).1.isOk = (nativeCall b m).1.isOk ∧
          Agrees (hostCall s m).2 (nativeCall b m).2 := by
        cases m with
        | rotateEpoch sessionEpoch => exact agree_rotateEpoch hs sessionEpoch
        | configureVideo width height => exact agree_configureVideo hs h.1.1 h.1.2
        | packet header payload => exact agree_packet hs header payload
        | takeBatch => exact ⟨rfl, { hs with sized := hs.sized.takeBatch }⟩
      rw [answers, answers, hstep.1, ih h.2 _ _ hstep.2]
  refine hagrees _ _ ⟨MediaBuffer.Sized.clearLocked .new, rfl, rfl, rfl, rfl, ⟨rfl, ?_⟩, ⟨rfl, ?_⟩⟩
  all_goals exact Nat.zero_le _

/-- A packet that comes a second time is refused by both. -/
theorem packet_repeated :
    answers nativeCall .new [.rotateEpoch 1, .packet ⟨1, .jpeg, 1, 1, 1, 2⟩ [1, 2],
      .packet ⟨1, .jpeg, 1, 1, 1, 2⟩ [1, 2]] = [true, true, false] := by
  rw [← packets_agree]
  · decide
  · simp only [List.forall_mem_cons, Message.Declared, List.not_mem_nil, false_imp_iff,
      implies_true, and_self]

end Agreement

end Fairy.OmniRuntime
