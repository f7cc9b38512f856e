import Fairy.OmniRuntime.Host

namespace Fairy.OmniRuntime

open Fairy.Lib Fairy.Lib.LittleEndian Fairy.Realtime

namespace Session

section Pump

variable {contextEpoch : UInt64} {s : Session} {c : Log} {front back : List Sent}
  {frame : MediaFrame} {content rest : List MediaFrame} {b : MediaBuffer} {header : MediaHeader}

/-- The frames that the runtime has or will have, until it hears of a rotation. -/
theorem Waits.chain (hw : s.Waits back) (hk : c.Kept)
    (hvalid : Log.Valid s.host.sessionId s.host.segmentId c back) :
    Log.Chain c.contextEpoch c.markSequence c.markTimestampUs (c.since ++ frames back) := by
  have hclosed : ∀ l, Log.Valid s.host.sessionId s.host.segmentId c l →
      (∀ x ∈ l, ¬ Log.Turns x) → Log.Chain c.contextEpoch c.markSequence c.markTimestampUs
        (c.since ++ frames l) := by
    intro l hl hquiet
    refine Log.chain_append.2 ⟨hk.chain, ?_⟩
    rw [← hk.sequence, ← hk.timestamp]
    exact (Log.chain_frames hk hl hquiet).2
  obtain rfl | ⟨l, x, rfl⟩ := List.eq_nil_or_concat back
  · exact hclosed [] trivial nofun
  rw [List.concat_eq_append] at hw hvalid ⊢
  have hquiet := hw.turns
  rw [List.dropLast_concat] at hquiet
  by_cases hx : Log.Turns x
  · have hlast : frames [x] = [] := by
      cases x with
      | frame frame => exact hx.elim
      | command frame => rfl
    rw [Log.frames_append, hlast, List.append_nil]
    exact hclosed l (Log.valid_append.1 hvalid).1 hquiet
  · refine hclosed _ hvalid fun y hy => ?_
    obtain hy | hy := List.mem_append.1 hy
    · exact hquiet y hy
    · rw [List.mem_singleton.1 hy]
      exact hx

/-- The time of a microphone packet is 20 ms on, until the last time there is. -/
theorem nextTimestampUs_mic {t : UInt64}
    (h : nextTimestampUs t .microphonePcm16 ≠ 18446744073709551615) :
    (nextTimestampUs t .microphonePcm16).toNat = t.toNat + 20000 := by
  unfold nextTimestampUs saturatingAdd at *
  cases hsum : checkedAdd t 20000 with
  | none =>
    rw [hsum] at h
    exact absurd rfl h
  | some sum =>
    obtain ⟨hroom, rfl⟩ := checkedAdd_eq.1 hsum
    exact toNat_next hroom

theorem nextTimestampUs_le {t : UInt64} {kind : MediaKind}
    (h : nextTimestampUs t kind ≠ 18446744073709551615) :
    nextTimestampUs t kind ≠ 0 ∧ t ≤ nextTimestampUs t kind := by
  by_cases hkind : kind = .microphonePcm16
  · subst hkind
    have hvalue := nextTimestampUs_mic h
    refine ⟨fun hzero => ?_, UInt64.le_iff_toNat_le.2 (by omega)⟩
    rw [hzero] at hvalue
    have hnone : (0 : UInt64).toNat = 0 := rfl
    omega
  · unfold nextTimestampUs
    rw [if_neg hkind]
    by_cases hzero : t = 0
    · rw [if_pos hzero, hzero]
      exact ⟨by decide, by decide⟩
    · rw [if_neg hzero]
      exact ⟨hzero, UInt64.le_refl t⟩

theorem validateKindAndSize_sendable (hs : Log.Sendable header.kind frame.payload)
    (hlength : header.payloadLength.toNat = frame.payload.length) (width height : UInt32) :
    validateKindAndSize header width height = .ok () := by
  unfold validateKindAndSize
  cases hkind : header.kind with
  | microphonePcm16 =>
    rw [hkind] at hs
    simp only [hlength, ne_eq]
    exact if_neg (not_not.2 hs)
  | applicationPcm16 =>
    rw [hkind] at hs
    simp only [Log.Sendable, maxApplicationAudioBytes] at hs
    simp only [hlength, kMaxApplicationPcm16Bytes]
    exact if_neg (by omega)
  | jpeg =>
    rw [hkind] at hs
    simp only [Log.Sendable, maxJpegBytes] at hs
    simp only [hlength, kMaxJpegBytes]
    exact if_neg (by omega)
  | bgra =>
    rw [hkind] at hs
    exact hs.elim

theorem payloadLength_eq {n t : UInt64} (hc : Log.Chain c.contextEpoch n t (frame :: rest)) :
    frame.header.payloadLength.toNat = frame.payload.length := by
  obtain ⟨-, hsend, hheader, -⟩ := hc
  have hlength : frame.header.payloadLength = .ofNat frame.payload.length := by rw [hheader]
  rw [hlength, UInt32.toNat_ofNat']
  exact Nat.mod_eq_of_lt (Sendable.length hsend)

/-- A buffer that holds what came before takes the next packet of its context. -/
theorem Holds.admits (hb : Holds b c content) (hepoch : b.epoch = c.contextEpoch ∧ b.epoch ≠ 0)
    (hc : Log.Chain c.contextEpoch c.markSequence c.markTimestampUs (content ++ frame :: rest))
    (ht : frame.header.timestampUs ≠ 18446744073709551615) : b.Admits frame.header := by
  obtain ⟨hroom, hsend, hheader, -⟩ := (Log.chain_append.1 hc).2
  have hlength := payloadLength_eq (Log.chain_append.1 hc).2
  have hsequence : frame.header.sequence = b.lastSequence + 1 := by
    rw [hb.sequence, hheader]
  have htimestamp : frame.header.timestampUs =
      nextTimestampUs b.lastTimestampUs frame.header.kind := by
    rw [hb.timestamp]
    exact congrArg MediaHeader.timestampUs hheader
  rw [htimestamp] at ht
  obtain ⟨hstamped, hlater⟩ := nextTimestampUs_le ht
  refine ⟨⟨hepoch.2, ?_⟩, ?_, ?_, fun hkind hlast => ?_,
    validateKindAndSize_sendable hsend hlength _ _⟩
  · rw [hepoch.1, hheader]
  · rw [hsequence, UInt64.lt_iff_toNat_lt, toNat_next (by rw [hb.sequence]; exact hroom)]
    exact Nat.lt_succ_self _
  · rw [htimestamp]
    exact ⟨hstamped, hlater⟩
  · rw [hkind] at htimestamp ht
    rw [htimestamp, nextTimestampUs_mic ht, hb.cadence.resolve_left hlast]

/-- What the buffer holds with one frame more. -/
theorem Holds.store (hb : Holds b c content) (hsized : b.Sized)
    (hc : Log.Chain c.contextEpoch c.markSequence c.markTimestampUs (content ++ frame :: rest)) :
    Holds (b.store frame) c (content ++ [frame]) := by
  obtain ⟨-, hsend, hheader, -⟩ := (Log.chain_append.1 hc).2
  have htimestamp : frame.header.timestampUs =
      nextTimestampUs b.lastTimestampUs frame.header.kind := by
    rw [hb.timestamp]
    exact congrArg MediaHeader.timestampUs hheader
  have hsequence : Log.lastSequence c.markSequence (content ++ [frame]) =
      frame.header.sequence := by
    rw [Log.lastSequence_append]
    rfl
  have hlast : Log.lastTimestampUs c.markTimestampUs (content ++ [frame]) =
      frame.header.timestampUs := by
    rw [Log.lastTimestampUs_append]
    rfl
  -- the time goes on for the microphone alone
  have hquiet : frame.header.kind ≠ .microphonePcm16 →
      b.lastMicTimestampUs = 0 ∨ b.lastMicTimestampUs = frame.header.timestampUs := by
    intro hkind
    rw [htimestamp, nextTimestampUs, if_neg hkind]
    obtain hzero | hsame := hb.cadence
    · exact .inl hzero
    · rw [hsame]
      by_cases hnone : b.lastTimestampUs = 0
      · exact .inl hnone
      · rw [if_neg hnone]
        exact .inr rfl
  have hmic : micFrames (content ++ [frame]) = micFrames content ++ micFrames [frame] :=
    List.filter_append ..
  have hvideo : videoFrames (content ++ [frame]) = videoFrames content ++ videoFrames [frame] :=
    List.filter_append ..
  cases hkind : frame.header.kind with
  | microphonePcm16 =>
    have hone : micFrames [frame] = [frame] ∧ videoFrames [frame] = [] := by
      simp [micFrames, videoFrames, hkind]
    simp only [MediaBuffer.store, hkind]
    refine ⟨hsequence.symm, hlast.symm, .inr rfl, fun hfits => ?_, ?_⟩
    · rw [hmic, hone.1, MediaBuffer.ringBytes_append] at hfits
      have hring := hb.microphone (Nat.le_of_add_right_le hfits)
      have hbytes : b.microphoneBytes + frame.payload.length ≤ kMaxAudioRingBytes := by
        rw [hsized.microphone, hring]
        exact hfits
      simp only [MediaBuffer.trimRing_fits hbytes, hring, hmic, hone.1]
    · rw [hvideo, hone.2, List.append_nil]
      exact hb.video
  | applicationPcm16 =>
    have hone : micFrames [frame] = [] ∧ videoFrames [frame] = [] := by
      simp [micFrames, videoFrames, hkind]
    simp only [MediaBuffer.store, hkind]
    refine ⟨hsequence.symm, hlast.symm, hquiet (by simp [hkind]), fun hfits => ?_, ?_⟩
    · rw [hmic, hone.1, List.append_nil] at hfits ⊢
      exact hb.microphone hfits
    · rw [hvideo, hone.2, List.append_nil]
      exact hb.video
  | jpeg =>
    have hone : micFrames [frame] = [] ∧ videoFrames [frame] = [frame] := by
      simp [micFrames, videoFrames, hkind]
    simp only [MediaBuffer.store, hkind]
    refine ⟨hsequence.symm, hlast.symm, hquiet (by simp [hkind]), fun hfits => ?_, ?_⟩
    · rw [hmic, hone.1, List.append_nil] at hfits ⊢
      exact hb.microphone hfits
    · rw [hvideo, hone.2, List.getLast?_append]
      rfl
  | bgra =>
    rw [hkind] at hsend
    exact hsend.elim

theorem length_pipe : s.pipe.length = (wire (frames s.host.sent)).length - s.read :=
  List.length_drop

/-- The pump before a frame reads its header, and looks whether the buffer takes it. -/
theorem pumpStep_header (hexited : s.exited = none) (hpump : s.pump = .header)
    (hr : s.Reads (frame :: rest)) (hversion : frame.header.version = 1) :
    s.pumpStep = { s with
      read := s.read + kMediaHeaderBytes
      pump := if s.buffer.validateLocked frame.header = .ok () then .payload frame.header
        else .failed } := by
  obtain ⟨-, hpipe⟩ := hr
  rw [hpump] at hpipe
  simp only [wire_cons] at hpipe
  have hlong : ¬ s.pipe.length < kMediaHeaderBytes := by
    rw [hpipe, List.length_append, length_encodeMediaHeader]
    omega
  have htake : s.pipe.take kMediaHeaderBytes = encodeMediaHeader frame.header := by
    rw [hpipe, ← @length_encodeMediaHeader frame.header, List.take_left]
  have hdecoded : decodeMediaHeader (encodeMediaHeader frame.header) = .ok frame.header :=
    decodeHeader_iff.2 ⟨hversion, rfl⟩
  unfold pumpStep
  rw [if_neg (not_not.2 hexited), hpump]
  simp only [if_neg hlong, htake, hdecoded]
  cases hvalid : s.buffer.validateLocked frame.header with
  | error e => simp only [reduceCtorEq, if_false]
  | ok => simp only [if_true]

theorem reads_payload (hpump : s.pump = .header) (hr : s.Reads (frame :: rest)) {pump : Pump}
    (hnext : pump = .payload frame.header) :
    { s with read := s.read + kMediaHeaderBytes, pump }.Reads (frame :: rest) := by
  obtain ⟨hread, hpipe⟩ := hr
  rw [hpump] at hpipe
  simp only [wire_cons] at hpipe
  have hlength := @length_pipe s
  rw [hpipe, List.length_append, length_encodeMediaHeader] at hlength
  subst hnext
  refine ⟨?_, frame, rest, rfl, rfl, ?_⟩
  · simp only [kMediaHeaderBytes] at hlength ⊢
    omega
  · have hdrop : (wire (frames s.host.sent)).drop (s.read + kMediaHeaderBytes) =
        s.pipe.drop kMediaHeaderBytes := List.drop_drop.symm
    change (wire (frames s.host.sent)).drop (s.read + kMediaHeaderBytes) = _
    rw [hdrop, hpipe, ← @length_encodeMediaHeader frame.header, List.drop_left]

/-- The pump within a frame reads the payload, and commits it. -/
theorem pumpStep_payload (hexited : s.exited = none) (hpump : s.pump = .payload header)
    (hr : s.Reads (frame :: rest))
    (hlength : frame.payload.length = frame.header.payloadLength.toNat) :
    header = frame.header ∧ s.pumpStep = { s with
      read := s.read + frame.payload.length
      buffer := (s.buffer.commit frame.header frame.payload).2
      pump := if (s.buffer.commit frame.header frame.payload).1 = .ok () then .header
        else .failed } := by
  obtain ⟨-, hpipe⟩ := hr
  rw [hpump] at hpipe
  obtain ⟨frame', rest', hsame, rfl, hpayload⟩ := hpipe
  cases hsame
  have hlong : ¬ s.pipe.length < frame.header.payloadLength.toNat := by
    rw [hpayload, List.length_append, hlength]
    omega
  have htake : s.pipe.take frame.header.payloadLength.toNat = frame.payload := by
    rw [hpayload, ← hlength, List.take_left]
  refine ⟨rfl, ?_⟩
  unfold pumpStep
  rw [if_neg (not_not.2 hexited), hpump]
  simp only [if_neg hlong, htake]
  cases hcommit : s.buffer.commit frame.header frame.payload with
  | mk result buffer =>
    cases result with
    | error e => simp only [reduceCtorEq, if_false, hlength]
    | ok => simp only [if_true, hlength]

theorem reads_header (hpump : s.pump = .payload header) (hr : s.Reads (frame :: rest))
    {buffer : MediaBuffer} {pump : Pump} (hnext : pump = .header) :
    { s with read := s.read + frame.payload.length, buffer, pump }.Reads rest := by
  obtain ⟨hread, hpipe⟩ := hr
  rw [hpump] at hpipe
  obtain ⟨frame', rest', hsame, -, hpayload⟩ := hpipe
  cases hsame
  have hlength := @length_pipe s
  rw [hpayload, List.length_append] at hlength
  subst hnext
  refine ⟨?_, ?_⟩
  · simp only
    omega
  · have hdrop : (wire (frames s.host.sent)).drop (s.read + frame.payload.length) =
        s.pipe.drop frame.payload.length := List.drop_drop.symm
    change (wire (frames s.host.sent)).drop (s.read + frame.payload.length) = _
    rw [hdrop, hpayload, List.drop_left]

theorem commit_result (hsized : b.Sized)
    (hlength : frame.payload.length = frame.header.payloadLength.toNat) :
    b.commit frame.header frame.payload =
      if b.validateLocked frame.header = .ok () then (.ok (), b.store frame)
      else ((b.commit frame.header frame.payload).1, b) := by
  rw [MediaBuffer.commit_eq hsized]
  cases hvalid : b.validateLocked frame.header with
  | error e => rfl
  | ok => simp only [if_neg (not_not.2 hlength), if_true]

theorem commit_ok_iff (hsized : b.Sized)
    (hlength : frame.payload.length = frame.header.payloadLength.toNat) :
    (b.commit frame.header frame.payload).1 = .ok () ↔ b.Admits frame.header := by
  rw [MediaBuffer.commit_eq hsized, ← MediaBuffer.validateLocked_iff]
  cases hvalid : b.validateLocked frame.header with
  | error e => exact iff_of_false nofun nofun
  | ok => exact iff_of_true (by simp only [if_neg (not_not.2 hlength)]) rfl

/-- A packet of an older context is not taken. -/
theorem not_admits (h : frame.header.sessionEpoch < b.epoch) : ¬ b.Admits frame.header :=
  fun hadmits => UInt64.lt_irrefl b.epoch (hadmits.epoch.2 ▸ h)

/-- A step of the pump before a frame that it has not read to its end. -/
theorem media_pump (hexited : s.exited = none) (hh : s.Hears c)
    (hc : Log.Chain c.contextEpoch c.markSequence c.markTimestampUs (c.since ++ frames back))
    (hm : s.Media c back) : s.pumpStep.Media c back := by
  obtain (hfailed | ⟨hzero, frame, rest, hreads, hversion, hlength, hstale⟩) |
    ⟨content, pending, hsplit, hreads, hholds⟩ := hm
  · refine .inl (.inl ?_)
    unfold pumpStep
    rw [if_neg (not_not.2 hexited), hfailed]
    exact hfailed
  · -- an overtaken packet is refused, at its header or at its end
    have hrefused := not_admits hstale
    refine .inl (.inl ?_)
    cases hpump : s.pump with
    | header =>
      rw [pumpStep_header hexited hpump hreads hversion]
      exact if_neg fun hok => hrefused (MediaBuffer.validateLocked_iff.1 hok)
    | payload header =>
      rw [(pumpStep_payload hexited hpump hreads hlength).2]
      exact if_neg fun hok => hrefused ((commit_ok_iff hh.sized hlength).1 hok)
    | failed | stopped =>
      have hnone := hreads.2
      rw [hpump] at hnone
      exact hnone.elim
  · cases pending with
    | nil =>
      -- nothing is there to be read
      have hempty : s.pumpStep = s := by
        unfold pumpStep
        rw [if_neg (not_not.2 hexited)]
        have hpipe := hreads.2
        revert hpipe
        cases s.pump with
        | header =>
          intro hpipe
          exact if_pos (by rw [hpipe]; decide)
        | payload header =>
          rintro ⟨frame, rest, hcons, -⟩
          cases hcons
        | failed | stopped => exact False.elim
      rw [hempty]
      exact .inr ⟨content, [], hsplit, hreads, hholds⟩
    | cons frame rest =>
      rw [hsplit] at hc
      have hheader := (Log.chain_append.1 hc).2.2.2.1
      have hversion : frame.header.version = 1 := by rw [hheader]
      have hlength := (payloadLength_eq (Log.chain_append.1 hc).2).symm
      cases hpump : s.pump with
      | header =>
        rw [pumpStep_header hexited hpump hreads hversion]
        by_cases hvalid : s.buffer.validateLocked frame.header = .ok ()
        · exact .inr ⟨content, frame :: rest, hsplit,
            reads_payload hpump hreads (if_pos hvalid), hholds⟩
        · exact .inl (.inl (if_neg hvalid))
      | payload header =>
        rw [(pumpStep_payload hexited hpump hreads hlength).2]
        by_cases hok : (s.buffer.commit frame.header frame.payload).1 = .ok ()
        · have hvalid := MediaBuffer.validateLocked_iff.2 ((commit_ok_iff hh.sized hlength).1 hok)
          refine .inr ⟨content ++ [frame], rest, ?_, reads_header hpump hreads (if_pos hok), ?_⟩
          · rw [hsplit, List.append_assoc]
            rfl
          · have hstore := hholds.store hh.sized hc
            rw [commit_result hh.sized hlength, if_pos hvalid]
            exact hstore
        · exact .inl (.inl (if_neg hok))
      | failed | stopped =>
        have hnone := hreads.2
        rw [hpump] at hnone
        exact hnone.elim

theorem commit_epoch (header : MediaHeader) (payload : List UInt8) :
    (b.commit header payload).2.epoch = b.epoch := by
  unfold MediaBuffer.commit
  cases b.validateLocked header with
  | error e => rfl
  | ok =>
    have hstore : ∀ frame : MediaFrame, (b.store frame).epoch = b.epoch := by
      intro frame
      unfold MediaBuffer.store
      cases frame.header.kind <;> rfl
    simp only
    split
    · rfl
    split <;> exact hstore _

/-- A step of the pump changes the pump, what has been read and the buffer. -/
theorem pumpStep_frame : s.pumpStep.host = s.host ∧ s.pumpStep.handled = s.handled ∧
    s.pumpStep.events = s.events ∧ s.pumpStep.runtime = s.runtime ∧
      s.pumpStep.exited = s.exited ∧ s.pumpStep.submitted = s.submitted ∧
        s.pumpStep.buffer.epoch = s.buffer.epoch ∧
          (s.buffer.Sized → s.pumpStep.buffer.Sized) := by
  unfold pumpStep
  split
  · exact ⟨rfl, rfl, rfl, rfl, rfl, rfl, rfl, id⟩
  split
  · split
    · exact ⟨rfl, rfl, rfl, rfl, rfl, rfl, rfl, id⟩
    simp only
    split
    · exact ⟨rfl, rfl, rfl, rfl, rfl, rfl, rfl, id⟩
    split <;> exact ⟨rfl, rfl, rfl, rfl, rfl, rfl, rfl, id⟩
  · rename_i header hpump
    simp only
    split
    · exact ⟨rfl, rfl, rfl, rfl, rfl, rfl, rfl, id⟩
    have hepoch := @commit_epoch s.buffer header (s.pipe.take header.payloadLength.toNat)
    have hsized := @MediaBuffer.Sized.commit s.buffer header
      (s.pipe.take header.payloadLength.toNat)
    split
    · rename_i e buffer hcommit
      rw [hcommit] at hepoch hsized
      exact ⟨rfl, rfl, rfl, rfl, rfl, rfl, hepoch, hsized⟩
    · rename_i buffer hcommit
      rw [hcommit] at hepoch hsized
      exact ⟨rfl, rfl, rfl, rfl, rfl, rfl, hepoch, hsized⟩
  · exact ⟨rfl, rfl, rfl, rfl, rfl, rfl, rfl, id⟩
  · exact ⟨rfl, rfl, rfl, rfl, rfl, rfl, rfl, id⟩

theorem Inv.pump (hi : s.Inv contextEpoch) : s.pumpStep.Inv contextEpoch := by
  obtain ⟨hhost, hhandled, hevents, hruntime, hexited, hsubmitted, hepoch, hsized⟩ :=
    @pumpStep_frame s
  obtain ⟨hvalid, hstands, front, back, hsplit, hbatches, hplays⟩ := hi
  refine ⟨hhost ▸ hvalid, ?_, front, back, hhost ▸ hsplit, hsubmitted ▸ hbatches,
    fun hrunning hstopped => ?_⟩
  · unfold Stands at hstands ⊢
    rw [hhost, hevents]
    exact hstands
  · rw [hexited] at hrunning
    rw [hruntime] at hstopped
    obtain ⟨hcount, hhears, hwaits, hmedia⟩ := hplays hrunning hstopped
    rw [hsplit] at hvalid
    have hvalid := Log.valid_append.1 hvalid
    have hchain := hwaits.chain (Log.kept_start.run hvalid.1) hvalid.2
    refine ⟨hhandled ▸ hcount, ?_, ⟨hwaits.turns, ?_, ?_⟩,
      media_pump hrunning hhears hchain hmedia⟩
    · obtain ⟨h1, h2, h3, h4, h5, h6, h7, h8, h9⟩ := hhears
      refine ⟨?_, ?_, ?_, ?_, ?_, ?_, ?_, hepoch.trans h8, hsized h9⟩
      all_goals
        first
          | rw [hruntime]
          | skip
        first
          | rw [hhost]
          | skip
        assumption
    · rw [hhost]
      exact hwaits.quiet
    · rw [hhost, hevents]
      exact hwaits.asked

end Pump

end Session

end Fairy.OmniRuntime
