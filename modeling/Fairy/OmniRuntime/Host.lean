import Fairy.OmniRuntime.Session
import Mathlib.Data.List.Infix

namespace Fairy.OmniRuntime

open Fairy.Lib Fairy.Lib.LittleEndian Fairy.Realtime

section Host

variable {contextEpoch : UInt64} {h h' : LocalOmniBackend} {packets : Nat} {kind : MediaKind}
  {payload : List UInt8}

/-- The log of a host that began with a context. -/
def LocalOmniBackend.log (contextEpoch : UInt64) (h : LocalOmniBackend) : Log :=
  (Log.start contextEpoch).run h.sent

/-- What a host has written is allowed, and its counters are of what it has written. -/
structure Follows (contextEpoch : UInt64) (h : LocalOmniBackend) (packets : Nat) : Prop where
  valid : Log.Valid h.sessionId h.segmentId (.start contextEpoch) h.sent
  epoch : h.contextEpoch = (h.log contextEpoch).contextEpoch
  control : h.controlSequence = (h.log contextEpoch).controlSequence
  media : h.mediaSequence = (h.log contextEpoch).mediaSequence
  timestamp : h.mediaTimestampUs = (h.log contextEpoch).mediaTimestampUs
  packets : (micFrames (h.log contextEpoch).since).length = packets

/-- A host that has written more, and no rotation. -/
structure Writes (h h' : LocalOmniBackend) : Prop where
  session : h'.sessionId = h.sessionId ∧ h'.segmentId = h.segmentId
  phase : h'.phase = h.phase
  sent : ∃ l, h'.sent = h.sent ++ l ∧ ∀ x ∈ l, ¬ Log.Turns x

theorem Writes.refl (h : LocalOmniBackend) : Writes h h :=
  ⟨⟨rfl, rfl⟩, rfl, [], (List.append_nil _).symm, nofun⟩

theorem Writes.trans {h'' : LocalOmniBackend} (hw : Writes h h') (hw' : Writes h' h'') :
    Writes h h'' := by
  obtain ⟨l, hl, hquiet⟩ := hw.sent
  obtain ⟨l', hl', hquiet'⟩ := hw'.sent
  refine ⟨⟨hw'.session.1.trans hw.session.1, hw'.session.2.trans hw.session.2⟩,
    hw'.phase.trans hw.phase, l ++ l', by rw [hl', hl, List.append_assoc], fun x hx => ?_⟩
  exact (List.mem_append.1 hx).elim (hquiet x) (hquiet' x)

theorem Writes.one {x : Sent} (hids : h'.sessionId = h.sessionId ∧ h'.segmentId = h.segmentId)
    (hphase : h'.phase = h.phase) (hsent : h'.sent = h.sent ++ [x]) (hx : ¬ Log.Turns x) :
    Writes h h' :=
  ⟨hids, hphase, [x], hsent, fun y hy => by rw [List.mem_singleton.1 hy]; exact hx⟩

theorem Follows.kept (hf : Follows contextEpoch h packets) : (h.log contextEpoch).Kept :=
  Log.kept_start.run hf.valid

theorem log_append {x : Sent} (hsent : h'.sent = h.sent ++ [x]) :
    h'.log contextEpoch = (h.log contextEpoch).add x := by
  rw [LocalOmniBackend.log, hsent, Log.run_append]
  rfl

theorem valid_append_one {x : Sent} (hf : Follows contextEpoch h packets)
    (hids : h'.sessionId = h.sessionId ∧ h'.segmentId = h.segmentId)
    (hsent : h'.sent = h.sent ++ [x])
    (hx : Log.Allows h.sessionId h.segmentId (h.log contextEpoch) x) :
    Log.Valid h'.sessionId h'.segmentId (.start contextEpoch) h'.sent := by
  rw [hids.1, hids.2, hsent]
  exact Log.valid_append.2 ⟨hf.valid, hx, trivial⟩

theorem Sendable.length (hs : Log.Sendable kind payload) : payload.length < 4294967296 := by
  cases kind with
  | microphonePcm16 =>
    simp only [Log.Sendable, microphonePacketBytes] at hs
    omega
  | applicationPcm16 =>
    simp only [Log.Sendable, maxApplicationAudioBytes] at hs
    omega
  | jpeg =>
    simp only [Log.Sendable, maxJpegBytes] at hs
    omega
  | bgra => exact hs.elim

/-- A frame is written, or the sequence numbers are used up. -/
theorem writeMedia_spec (hf : Follows contextEpoch h packets) (hs : Log.Sendable kind payload) :
    (h.writeMedia kind payload = (.error .localProtocol, h)) ∨
      ∃ h', h.writeMedia kind payload = (.ok (), h') ∧ Writes h h' ∧
        Follows contextEpoch h' (packets + if kind = .microphonePcm16 then 1 else 0) ∧
        (h'.log contextEpoch).since ≠ [] ∧
        h'.microphonePacketsSinceCommit = h.microphonePacketsSinceCommit ∧
        h'.microphoneBuffer = h.microphoneBuffer := by
  unfold LocalOmniBackend.writeMedia
  cases hsum : checkedAdd h.mediaSequence 1 with
  | none => exact .inl rfl
  | some sequence =>
    right
    obtain ⟨hroom, rfl⟩ := checkedAdd_eq.1 hsum
    have hshort : ¬ payload.length ≥ 4294967296 := Nat.not_le.2 (Sendable.length hs)
    simp only [if_neg hshort]
    refine ⟨_, rfl, Writes.one ⟨rfl, rfl⟩ rfl rfl id, ?_, ?_, rfl, rfl⟩
    · have hallows : Log.Allows h.sessionId h.segmentId (h.log contextEpoch) (.frame
          ⟨⟨1, kind, h.contextEpoch, h.mediaSequence + 1,
            nextTimestampUs h.mediaTimestampUs kind, .ofNat payload.length⟩, payload⟩) := by
        refine ⟨by rw [← hf.media]; exact hroom, hs, ?_⟩
        rw [Log.next, ← hf.epoch, ← hf.media, ← hf.timestamp]
      refine ⟨valid_append_one hf ⟨rfl, rfl⟩ rfl hallows, ?_, ?_, ?_, ?_, ?_⟩
      · rw [log_append rfl]
        exact hf.epoch
      · rw [log_append rfl]
        exact hf.control
      · rw [log_append rfl]
        rfl
      · rw [log_append rfl]
        rfl
      · rw [log_append rfl]
        simp only [Log.add, micFrames, List.filter_append, List.length_append, List.filter_cons,
          List.filter_nil, decide_eq_true_eq]
        rw [← hf.packets]
        split <;> rfl
    · rw [log_append rfl]
      simp [Log.add]

/-- A command that is no rotation is written. -/
theorem writeControl_spec (hf : Follows contextEpoch h packets) {command : Command}
    (hquiet : ∀ id, ¬ Log.Turns (.command ⟨id, command⟩))
    (hallows : Log.Allows h.sessionId h.segmentId (h.log contextEpoch) (.command
      ⟨⟨h.sessionId, h.segmentId, h.contextEpoch, saturatingAdd h.controlSequence 1⟩, command⟩)) :
    Writes h (h.writeControl command) ∧
      Follows contextEpoch (h.writeControl command)
        (micFrames ((h.log contextEpoch).addCommand command).since).length := by
  refine ⟨Writes.one ⟨rfl, rfl⟩ rfl rfl (hquiet _), valid_append_one hf ⟨rfl, rfl⟩ rfl hallows,
    ?_, ?_, ?_, ?_, ?_⟩
  all_goals rw [log_append rfl]
  · cases command with
    | contextRotate next reason summary => exact absurd trivial (hquiet ⟨"", "", 0, 0⟩)
    | _ => exact hf.epoch
  · cases command <;> rfl
  · cases command with
    | contextRotate next reason summary => exact absurd trivial (hquiet ⟨"", "", 0, 0⟩)
    | _ => exact hf.media
  · cases command with
    | contextRotate next reason summary => exact absurd trivial (hquiet ⟨"", "", 0, 0⟩)
    | _ => exact hf.timestamp
  · cases command <;> rfl

/-- A commit behind a frame closes the frames since the last one. -/
theorem commit_spec (hf : Follows contextEpoch h packets) (hpackets : packets ≤ audioCommitPackets)
    (hsince : (h.log contextEpoch).since ≠ []) :
    Writes h h.commit ∧ Follows contextEpoch h.commit 0 ∧
      h.commit.microphonePacketsSinceCommit = 0 ∧
      h.commit.microphoneBuffer = h.microphoneBuffer := by
  have hkept := hf.kept
  have hcount := hkept.chain.sequence
  rw [← hkept.sequence, ← hf.media] at hcount
  have hpositive : h.mediaSequence ≠ 0 := fun hzero => by
    rw [hzero] at hcount
    have hlength := List.length_pos_iff.2 hsince
    have hnone : (0 : UInt64).toNat = 0 := rfl
    omega
  have hallows : Log.Allows h.sessionId h.segmentId (h.log contextEpoch) (.command
      ⟨⟨h.sessionId, h.segmentId, h.contextEpoch, saturatingAdd h.controlSequence 1⟩,
        .mediaCommit h.mediaSequence⟩) := by
    refine ⟨by rw [hf.epoch, hf.control], hf.media, hsince, ?_⟩
    rw [Log.ringBytes_micFrames hkept.chain.sendable, hf.packets]
    simp only [microphonePacketBytes, audioCommitPackets, kMaxAudioRingBytes] at hpackets ⊢
    omega
  obtain ⟨hwrites, hfollows⟩ := writeControl_spec hf (fun _ => id) hallows
  unfold LocalOmniBackend.commit
  rw [if_neg hpositive]
  exact ⟨⟨hwrites.session, hwrites.phase, hwrites.sent⟩, { hfollows with }, rfl, rfl⟩

/-- A host that may be called. -/
structure Ready (contextEpoch : UInt64) (h : LocalOmniBackend) : Prop where
  follows : Follows contextEpoch h h.microphonePacketsSinceCommit
  packets : h.microphonePacketsSinceCommit < audioCommitPackets

/-- A call that leaves a host ready, and has written no rotation. -/
def Goes (contextEpoch : UInt64) (h h' : LocalOmniBackend) : Prop :=
  Writes h h' ∧ Ready contextEpoch h'

theorem pushPackets_spec {rounds : Nat} (hr : Ready contextEpoch h)
    (hbuffer : rounds * microphonePacketBytes ≤ h.microphoneBuffer.length) :
    Goes contextEpoch h (h.pushPackets rounds).2 := by
  induction rounds generalizing h with
  | zero => exact ⟨.refl h, hr⟩
  | succ rounds ih =>
    have hlong : (rounds + 1) * microphonePacketBytes =
        rounds * microphonePacketBytes + microphonePacketBytes := Nat.succ_mul ..
    have hpacket : Log.Sendable .microphonePcm16
        (h.microphoneBuffer.take microphonePacketBytes) := by
      simp only [Log.Sendable, List.length_take]
      omega
    have hrest : rounds * microphonePacketBytes ≤
        (h.microphoneBuffer.drop microphonePacketBytes).length := by
      rw [List.length_drop]
      omega
    have hdropped : Follows contextEpoch
        { h with microphoneBuffer := h.microphoneBuffer.drop microphonePacketBytes }
        h.microphonePacketsSinceCommit := { hr.follows with }
    have hsame : Writes h
        { h with microphoneBuffer := h.microphoneBuffer.drop microphonePacketBytes } :=
      ⟨⟨rfl, rfl⟩, rfl, [], (List.append_nil _).symm, nofun⟩
    rw [LocalOmniBackend.pushPackets]
    obtain hfull | ⟨h', hwritten, hwrites, hfollows, hsince, hcount, hleft⟩ :=
      writeMedia_spec hdropped hpacket
    · rw [hfull]
      exact ⟨hsame, hdropped, hr.packets⟩
    · rw [hwritten]
      simp only at hcount hleft
      have hcounted : Follows contextEpoch
          { h' with microphonePacketsSinceCommit := h'.microphonePacketsSinceCommit + 1 }
          (h.microphonePacketsSinceCommit + 1) := { hfollows with }
      have hwritesCounted : Writes h
          { h' with microphonePacketsSinceCommit := h'.microphonePacketsSinceCommit + 1 } :=
        hsame.trans ⟨hwrites.session, hwrites.phase, hwrites.sent⟩
      by_cases hcommit : audioCommitPackets ≤ h'.microphonePacketsSinceCommit + 1
      · obtain ⟨hmore, hclosed, hzero, hkeeps⟩ := commit_spec hcounted hr.packets hsince
        have hready := @ih _ ⟨hzero.symm ▸ hclosed, hzero.symm ▸ (by decide)⟩ (by
          rw [hkeeps, hleft]
          exact hrest)
        simp only [if_pos hcommit]
        exact ⟨(hwritesCounted.trans hmore).trans hready.1, hready.2⟩
      · have hready := @ih { h' with
            microphonePacketsSinceCommit := h'.microphonePacketsSinceCommit + 1 }
          ⟨by rw [hcount]; exact hcount ▸ hcounted, Nat.lt_of_not_le hcommit⟩ (by
            simp only [hleft]
            exact hrest)
        simp only [if_neg hcommit]
        exact ⟨hwritesCounted.trans hready.1, hready.2⟩

theorem pushMicrophone_spec (hr : Ready contextEpoch h) (pcm16 : List UInt8) :
    Goes contextEpoch h (h.pushMicrophone pcm16).2 := by
  have hgoes := @pushPackets_spec contextEpoch { h with
      microphoneBuffer := h.microphoneBuffer ++ pcm16 }
    ((h.microphoneBuffer ++ pcm16).length / microphonePacketBytes) ⟨{ hr.follows with }, hr.packets⟩
    (Nat.div_mul_le_self ..)
  exact ⟨⟨hgoes.1.session, hgoes.1.phase, hgoes.1.sent⟩, hgoes.2⟩

theorem pushApplicationAudio_spec (hr : Ready contextEpoch h) (pcm16 : List UInt8) :
    Goes contextEpoch h (h.pushApplicationAudio pcm16).2 := by
  unfold LocalOmniBackend.pushApplicationAudio
  by_cases hbad : pcm16 = [] ∨ pcm16.length > maxApplicationAudioBytes ∨ pcm16.length % 2 ≠ 0
  · rw [if_pos hbad]
    exact ⟨.refl h, hr⟩
  · have hs : Log.Sendable .applicationPcm16 pcm16 := by
      obtain ⟨hnil, hbound⟩ := not_or.1 hbad
      have hlength := List.length_pos_iff.2 hnil
      exact ⟨hlength, by omega, by omega⟩
    rw [if_neg hbad]
    obtain hfull | ⟨h', hwritten, hwrites, hfollows, -, hcount, -⟩ := writeMedia_spec hr.follows hs
    · rw [hfull]
      exact ⟨.refl h, hr⟩
    · rw [hwritten]
      exact ⟨hwrites, hcount ▸ hfollows, hcount ▸ hr.packets⟩

theorem pushVideo_spec (hr : Ready contextEpoch h) (jpeg : List UInt8) :
    Goes contextEpoch h (h.pushVideo jpeg).2 := by
  unfold LocalOmniBackend.pushVideo
  by_cases hbad : jpeg = [] ∨ jpeg.length > maxJpegBytes
  · rw [if_pos hbad]
    exact ⟨.refl h, hr⟩
  · have hs : Log.Sendable .jpeg jpeg := by
      obtain ⟨hnil, hbound⟩ := not_or.1 hbad
      have hlength := List.length_pos_iff.2 hnil
      exact ⟨hlength, by omega⟩
    rw [if_neg hbad]
    obtain hfull | ⟨h', hwritten, hwrites, hfollows, hsince, -, -⟩ := writeMedia_spec hr.follows hs
    · rw [hfull]
      exact ⟨.refl h, hr⟩
    · obtain ⟨hmore, hclosed, hzero, -⟩ := commit_spec hfollows (Nat.le_of_lt hr.packets) hsince
      rw [hwritten]
      exact ⟨hwrites.trans hmore, hzero.symm ▸ hclosed, hzero.symm ▸ (by decide)⟩

theorem pause_spec (hr : Ready contextEpoch h) : Goes contextEpoch h h.pause.2 := by
  have hcleared : Follows contextEpoch { h with microphoneBuffer := [] }
      h.microphonePacketsSinceCommit := { hr.follows with }
  obtain ⟨hwrites, hfollows⟩ := @writeControl_spec _ _ _ hcleared .cancelGeneration (fun _ => id)
    ⟨by rw [hr.follows.control, hr.follows.epoch]; rfl, trivial⟩
  refine ⟨⟨hwrites.session, hwrites.phase, hwrites.sent⟩, ?_, hr.packets⟩
  have hcount : (micFrames ((h.log contextEpoch).addCommand .cancelGeneration).since).length =
      h.microphonePacketsSinceCommit := hr.follows.packets
  exact hcount ▸ hfollows

end Host

/-! What holds of the two processes, however their steps follow each other. -/

namespace Session

/-- The frames that the pump has not read; of the first one it may have read the header. -/
def Reads (s : Session) (pending : List MediaFrame) : Prop :=
  s.read ≤ (wire (frames s.host.sent)).length ∧
    match s.pump with
    | .header => s.pipe = wire pending
    | .payload header => ∃ frame rest, pending = frame :: rest ∧ frame.header = header ∧
        s.pipe = frame.payload ++ wire rest
    | .failed | .stopped => False

/-- The buffer holds the frames that have been read since the mark; the ring of the microphone holds
them as long as they fit. -/
structure Holds (b : MediaBuffer) (c : Log) (content : List MediaFrame) : Prop where
  sequence : b.lastSequence = Log.lastSequence c.markSequence content
  timestamp : b.lastTimestampUs = Log.lastTimestampUs c.markTimestampUs content
  cadence : b.lastMicTimestampUs = 0 ∨ b.lastMicTimestampUs = b.lastTimestampUs
  microphone : MediaBuffer.ringBytes (micFrames content) ≤ kMaxAudioRingBytes →
    b.microphone = micFrames content
  video : b.latestVideo = (videoFrames content).getLast?

/-- The pump has stopped at a packet, or stands before one that a rotation has overtaken. -/
def Overtaken (s : Session) : Prop :=
  s.pump = .failed ∨ s.buffer.lastSequence = 0 ∧ ∃ frame rest, s.Reads (frame :: rest) ∧
    frame.header.version = 1 ∧ frame.payload.length = frame.header.payloadLength.toNat ∧
      frame.header.sessionEpoch < s.buffer.epoch

/-- The media side, for a runtime that has heard the log up to `c` and not the rest of it. -/
def Media (s : Session) (c : Log) (back : List Sent) : Prop :=
  s.Overtaken ∨ ∃ content pending, c.since ++ frames back = content ++ pending ∧
    s.Reads pending ∧ Holds s.buffer c content

/-- The control side. -/
structure Hears (s : Session) (c : Log) : Prop where
  initialized : s.runtime.initialized = true
  active : s.runtime.contextActive = true
  session : s.runtime.sessionId = s.host.sessionId ∧ s.runtime.segmentId = s.host.segmentId
  identifiers : TextWithin 128 false s.host.sessionId ∧ TextWithin 128 false s.host.segmentId ∧
    s.host.sessionId.toList.all isSafe = true ∧ s.host.segmentId.toList.all isSafe = true
  epoch : s.runtime.contextEpoch = c.contextEpoch ∧ c.contextEpoch ≠ 0
  sequence : s.runtime.lastSequence = c.controlSequence
  media : s.runtime.lastMediaSequence = c.markSequence
  buffer : s.buffer.epoch = c.contextEpoch
  sized : s.buffer.Sized

/-- An event that a host takes without a change. -/
structure Plain (h : LocalOmniBackend) (e : RuntimeEvent) : Prop where
  session : e.identity.sessionId = h.sessionId ∧ e.identity.segmentId = h.segmentId
  epoch : e.identity.contextEpoch = h.contextEpoch
  event : match e.event with
    | .contextRotated .. | .pong _ => False
    | .diagnostic code severity => code.utf8ByteSize ≤ 128 ∧ severity.utf8ByteSize ≤ 32
    | _ => True

/-- A rotation is the last that a host writes until it is acknowledged. -/
structure Waits (s : Session) (back : List Sent) : Prop where
  turns : ∀ x ∈ back.dropLast, ¬ Log.Turns x
  quiet : s.host.phase = .ready → ∀ x ∈ back, ¬ Log.Turns x
  asked : ∀ next reason summary, s.host.phase = .rotating next reason summary → back ≠ [] →
    (∀ e ∈ s.events, Plain s.host e) ∧
      ∃ id, back.getLast? = some (.command ⟨id, .contextRotate next reason summary⟩)

/-- A runtime that runs. -/
structure Plays (s : Session) (c : Log) (front back : List Sent) : Prop where
  handled : (commands front).length = s.handled
  hears : s.Hears c
  waits : s.Waits back
  media : s.Media c back

/-- A host once its rotation is acknowledged. -/
def turned (h : LocalOmniBackend) (nextContextEpoch : UInt64) : LocalOmniBackend :=
  { h with
    contextEpoch := nextContextEpoch
    mediaSequence := 0
    mediaTimestampUs := 0
    microphonePacketsSinceCommit := 0
    phase := .ready }

/-- The host, and the events it has not read. -/
def Stands (contextEpoch : UInt64) (s : Session) : Prop :=
  match s.host.phase with
  | .ready => Ready contextEpoch s.host ∧ ∀ e ∈ s.events, Plain s.host e
  | .rotating next reason summary => checkedAdd s.host.contextEpoch 1 = some next ∧
      Ready contextEpoch (turned s.host next) ∧
      ((∀ e ∈ s.events, Plain s.host e) ∨ ∃ events sequence,
        s.events = events ++ [⟨⟨s.host.sessionId, s.host.segmentId, next, sequence⟩,
          .contextRotated reason summary⟩] ∧ ∀ e ∈ events, Plain s.host e)
  | .closed => True

structure Inv (contextEpoch : UInt64) (s : Session) : Prop where
  valid : Log.Valid s.host.sessionId s.host.segmentId (.start contextEpoch) s.host.sent
  stands : s.Stands contextEpoch
  heard : ∃ front back, s.host.sent = front ++ back ∧
    s.submitted = ((Log.start contextEpoch).run front).batches ∧
      (s.exited = none → s.runtime.stopped = false →
        s.Plays ((Log.start contextEpoch).run front) front back)

section Host

variable {contextEpoch : UInt64} {s : Session} {h' : LocalOmniBackend} {c : Log}
  {l back : List Sent} {pending : List MediaFrame}

theorem wire_append (l l' : List MediaFrame) : wire (l ++ l') = wire l ++ wire l' :=
  List.flatMap_append

theorem wire_cons (frame : MediaFrame) (l : List MediaFrame) : wire (frame :: l) =
    encodeMediaHeader frame.header ++ (frame.payload ++ wire l) := by
  rw [wire, List.flatMap_cons, MediaFrame.bytes, List.append_assoc]
  rfl

theorem wire_cons_ne_nil (frame : MediaFrame) (l : List MediaFrame) : wire (frame :: l) ≠ [] := by
  intro hnil
  have hlength := congrArg List.length hnil
  rw [wire_cons, List.length_append, length_encodeMediaHeader, List.length_nil] at hlength
  simp only [kMediaHeaderBytes] at hlength
  omega

/-- A packet of the version that both sides know, whose header tells its length. -/
def Framed (frame : MediaFrame) : Prop :=
  frame.header.version = 1 ∧ frame.payload.length = frame.header.payloadLength.toNat

/-- The bytes in the pipe are of one list of packets. -/
theorem wire_injective {l l' : List MediaFrame} (h : ∀ frame ∈ l, Framed frame)
    (h' : ∀ frame ∈ l', Framed frame) (hbytes : wire l = wire l') : l = l' := by
  induction l generalizing l' with
  | nil =>
    cases l' with
    | nil => rfl
    | cons frame' l' => exact absurd hbytes.symm (wire_cons_ne_nil frame' l')
  | cons frame l ih =>
    cases l' with
    | nil => exact absurd hbytes (wire_cons_ne_nil frame l)
    | cons frame' l' =>
      rw [List.forall_mem_cons] at h h'
      obtain ⟨⟨hversion, hlength⟩, hrest⟩ := h
      obtain ⟨⟨hversion', hlength'⟩, hrest'⟩ := h'
      rw [wire_cons, wire_cons] at hbytes
      obtain ⟨hheaders, hbytes⟩ := List.append_inj hbytes (by
        rw [length_encodeMediaHeader, length_encodeMediaHeader])
      have hheader := encodeMediaHeader_inj hversion hversion' hheaders
      obtain ⟨hpayload, hbytes⟩ := List.append_inj hbytes (by rw [hlength, hlength', hheader])
      have hframe : frame = frame' := by
        cases frame
        cases frame'
        cases hheader
        cases hpayload
        rfl
      rw [hframe, ih hrest hrest' hbytes]

/-- A packet of two bytes is no other one in the pipe. -/
theorem wire_of_packet : wire [⟨⟨1, .applicationPcm16, 1, 1, 1, 2⟩, [0, 0]⟩] ≠
    wire [⟨⟨1, .applicationPcm16, 1, 1, 1, 2⟩, [0, 1]⟩] := by
  intro hbytes
  have hsame := wire_injective (List.forall_mem_singleton.2 ⟨rfl, rfl⟩)
    (List.forall_mem_singleton.2 ⟨rfl, rfl⟩) hbytes
  exact absurd hsame (by simp)

/-- What is written more stands behind what the pump has not read. -/
theorem Reads.append (hr : s.Reads pending) (hsent : h'.sent = s.host.sent ++ l) :
    { s with host := h' }.Reads (pending ++ frames l) := by
  obtain ⟨hread, hpump⟩ := hr
  have hwire : wire (frames h'.sent) = wire (frames s.host.sent) ++ wire (frames l) := by
    rw [hsent, Log.frames_append, wire_append]
  have hpipe : { s with host := h' }.pipe = s.pipe ++ wire (frames l) := by
    unfold pipe
    rw [hwire, List.drop_append_of_le_length hread]
  refine ⟨?_, ?_⟩
  · rw [hwire, List.length_append]
    exact Nat.le_add_right_of_le hread
  · rw [hpipe]
    revert hpump
    cases s.pump with
    | header =>
      intro hpump
      simp only at hpump ⊢
      rw [hpump, wire_append]
    | payload header =>
      rintro ⟨frame, rest, rfl, hframe, hpayload⟩
      refine ⟨frame, rest ++ frames l, rfl, hframe, ?_⟩
      rw [hpayload, wire_append, List.append_assoc]
    | failed | stopped => exact False.elim

theorem Media.append (hm : s.Media c back) (hsent : h'.sent = s.host.sent ++ l) :
    { s with host := h' }.Media c (back ++ l) := by
  obtain (hfailed | ⟨hzero, frame, rest, hreads, hstale⟩) |
    ⟨content, pending, hsplit, hreads, hholds⟩ := hm
  · exact .inl (.inl hfailed)
  · exact .inl (.inr ⟨hzero, frame, rest ++ frames l, hreads.append hsent, hstale⟩)
  · refine .inr ⟨content, pending ++ frames l, ?_, hreads.append hsent, hholds⟩
    rw [Log.frames_append, ← List.append_assoc, hsplit, List.append_assoc]

/-- A host that has written more. -/
theorem Inv.extend (hi : s.Inv contextEpoch)
    (hids : h'.sessionId = s.host.sessionId ∧ h'.segmentId = s.host.segmentId)
    (hsent : h'.sent = s.host.sent ++ l)
    (hvalid : Log.Valid h'.sessionId h'.segmentId (.start contextEpoch) h'.sent)
    (hstands : { s with host := h' }.Stands contextEpoch)
    (hwaits : ∀ back, s.Waits back → { s with host := h' }.Waits (back ++ l)) :
    { s with host := h' }.Inv contextEpoch := by
  obtain ⟨front, back, hsplit, hsubmitted, hplays⟩ := hi.heard
  refine ⟨hvalid, hstands, front, back ++ l, ?_, hsubmitted, fun hexited hstopped => ?_⟩
  · rw [hsent, hsplit, List.append_assoc]
  · obtain ⟨hhandled, hhears, hwait, hmedia⟩ := hplays hexited hstopped
    refine ⟨hhandled, { hhears with session := ?_, identifiers := ?_ }, hwaits back hwait,
      hmedia.append hsent⟩
    · rw [hids.1, hids.2]
      exact hhears.session
    · rw [hids.1, hids.2]
      exact hhears.identifiers

theorem Plain.not_rotated {h : LocalOmniBackend} {e : RuntimeEvent} (hp : Plain h e) :
    ¬ ∃ reason summary, e.event = .contextRotated reason summary := by
  rintro ⟨reason, summary, he⟩
  have hevent := hp.event
  rw [he] at hevent
  exact hevent

theorem stands_ready (hphase : s.host.phase = .ready) : s.Stands contextEpoch ↔
    Ready contextEpoch s.host ∧ ∀ e ∈ s.events, Plain s.host e := by
  unfold Stands
  rw [hphase]

/-- A host that goes on with what it writes, or is given up. -/
theorem Inv.goes (hi : s.Inv contextEpoch) (hphase : s.host.phase = .ready)
    (hg : Goes contextEpoch s.host h') {phase : Phase} (hnext : phase = .ready ∨ phase = .closed) :
    { s with host := { h' with phase } }.Inv contextEpoch := by
  obtain ⟨⟨hids, -, l, hsent, hquiet⟩, hready⟩ := hg
  have hplain := ((stands_ready hphase).1 hi.stands).2
  refine @Inv.extend contextEpoch s { h' with phase } l hi hids hsent hready.follows.valid ?_ ?_
  · obtain rfl | rfl := hnext
    · refine (stands_ready rfl).2 ⟨⟨{ hready.follows with }, hready.packets⟩, fun e he => ?_⟩
      have hp := hplain e he
      have hepoch : h'.contextEpoch = s.host.contextEpoch := by
        have hstart := ((stands_ready hphase).1 hi.stands).1.follows
        have hchain := Log.chain_frames hstart.kept (l := l) (by
          have hvalid := hready.follows.valid
          rw [hids.1, hids.2, hsent] at hvalid
          exact (Log.valid_append.1 hvalid).2) hquiet
        rw [hready.follows.epoch, hstart.epoch, ← hchain.1, LocalOmniBackend.log, hsent,
          Log.run_append]
        rfl
      exact ⟨⟨hp.session.1.trans hids.1.symm, hp.session.2.trans hids.2.symm⟩,
        hp.epoch.trans hepoch.symm, hp.event⟩
    · exact trivial
  · intro back hwaits
    have hall : ∀ x ∈ back ++ l, ¬ Log.Turns x := fun x hx =>
      (List.mem_append.1 hx).elim (hwaits.quiet hphase x) (hquiet x)
    refine ⟨fun x hx => hall x (List.mem_of_mem_dropLast hx), fun _ => hall, ?_⟩
    rintro next reason summary hrotating -
    obtain rfl | rfl := hnext <;> cases hrotating

/-- A call of a host. -/
theorem Inv.call (hi : s.Inv contextEpoch) {op : LocalOmniBackend → LocalOmniBackend.Outcome}
    (hop : ∀ h, Ready contextEpoch h → Goes contextEpoch h (op h).2) (fatal : Bool) :
    (s.call fatal op).Inv contextEpoch := by
  unfold Session.call
  by_cases hphase : s.host.phase = .ready
  · have hgoes := hop _ ((stands_ready hphase).1 hi.stands).1
    have hstays : ∀ h' : LocalOmniBackend, h'.phase = .ready →
        { h' with phase := .ready } = h' := by
      rintro ⟨⟩ rfl
      rfl
    rw [if_pos hphase]
    split
    · rename_i h' hresult
      rw [hresult] at hgoes
      have hsame := hstays h' (hgoes.1.phase.trans hphase)
      have hinv := hi.goes hphase hgoes (.inl rfl)
      rw [hsame] at hinv
      exact hinv
    · rename_i h' hresult
      rw [hresult] at hgoes
      cases fatal with
      | true => exact hi.goes hphase hgoes (.inr rfl)
      | false =>
        have hsame := hstays h' (hgoes.1.phase.trans hphase)
        have hinv := hi.goes hphase hgoes (.inl rfl)
        rw [hsame] at hinv
        exact hinv
  · rw [if_neg hphase]
    exact hi

theorem Inv.abandon (hi : s.Inv contextEpoch) :
    { s with host := { s.host with phase := .closed } }.Inv contextEpoch := by
  refine @Inv.extend contextEpoch s { s.host with phase := .closed } [] hi ⟨rfl, rfl⟩
    (List.append_nil _).symm hi.valid trivial fun back hwaits => ?_
  rw [List.append_nil]
  exact ⟨hwaits.turns, nofun, nofun⟩

theorem Inv.stop (hi : s.Inv contextEpoch) :
    (s.call true (·.stop)).Inv contextEpoch := by
  unfold Session.call
  by_cases hphase : s.host.phase = .ready
  · have hready := ((stands_ready hphase).1 hi.stands).1
    obtain ⟨hwrites, hfollows⟩ := @writeControl_spec _ _ _ hready.follows .stop (fun _ => id)
      ⟨by rw [hready.follows.control, hready.follows.epoch], trivial⟩
    have hcount : (micFrames ((s.host.log contextEpoch).addCommand .stop).since).length =
        s.host.microphonePacketsSinceCommit := hready.follows.packets
    rw [if_pos hphase]
    exact hi.goes hphase ⟨hwrites, hcount ▸ hfollows, hready.packets⟩ (.inr rfl)
  · rw [if_neg hphase]
    exact hi

theorem Inv.rotateContext (hi : s.Inv contextEpoch) (next : UInt64) (reason summary : String) :
    (s.call true (·.rotateContext next reason summary)).Inv contextEpoch := by
  unfold Session.call
  by_cases hphase : s.host.phase = .ready
  · obtain ⟨hready, hplain⟩ := (stands_ready hphase).1 hi.stands
    rw [if_pos hphase]
    by_cases hbad : checkedAdd s.host.contextEpoch 1 ≠ some next ∨ reason = "" ∨
        reason.utf8ByteSize > 64 ∨ summary.toList.length > 2000
    · simp only [LocalOmniBackend.rotateContext, if_pos hbad]
      exact hi.abandon
    · simp only [LocalOmniBackend.rotateContext, if_neg hbad]
      obtain ⟨hnext, hreason, hshort, -⟩ := by simpa only [not_or, not_not, not_lt] using hbad
      have hallows : Log.Allows s.host.sessionId s.host.segmentId (s.host.log contextEpoch)
          (.command ⟨⟨s.host.sessionId, s.host.segmentId, s.host.contextEpoch,
            saturatingAdd s.host.controlSequence 1⟩, .contextRotate next reason summary⟩) := by
        refine ⟨by rw [hready.follows.control, hready.follows.epoch], ?_, hreason, hshort⟩
        rw [← hready.follows.epoch]
        exact hnext
      have hvalid : Log.Valid s.host.sessionId s.host.segmentId (.start contextEpoch)
          (s.host.sent ++ [.command ⟨⟨s.host.sessionId, s.host.segmentId, s.host.contextEpoch,
            saturatingAdd s.host.controlSequence 1⟩, .contextRotate next reason summary⟩]) :=
        Log.valid_append.2 ⟨hready.follows.valid, hallows, trivial⟩
      refine hi.extend ⟨rfl, rfl⟩ rfl hvalid
        ⟨hnext, ⟨⟨hvalid, ?_, ?_, ?_, ?_, ?_⟩, ?_⟩, .inl ?_⟩ ?_
      · rw [@log_append contextEpoch s.host _ _ rfl]
        rfl
      · rw [@log_append contextEpoch s.host _ _ rfl]
        rfl
      · rw [@log_append contextEpoch s.host _ _ rfl]
        rfl
      · rw [@log_append contextEpoch s.host _ _ rfl]
        rfl
      · rw [@log_append contextEpoch s.host _ _ rfl]
        rfl
      · exact Nat.zero_lt_succ _
      · exact fun e he => ⟨(hplain e he).session, (hplain e he).epoch, (hplain e he).event⟩
      · intro back hwaits
        refine ⟨?_, nofun, ?_⟩
        · rw [List.dropLast_concat]
          exact hwaits.quiet hphase
        · rintro next' reason' summary' hrotating -
          cases hrotating
          exact ⟨fun e he => ⟨(hplain e he).session, (hplain e he).epoch, (hplain e he).event⟩, _,
            List.getLast?_concat⟩
  · rw [if_neg hphase]
    exact hi

/-- An event that is read: it changes nothing, or acknowledges the rotation. -/
theorem receive_spec (hs : s.Stands contextEpoch) {e : RuntimeEvent} {events : List RuntimeEvent}
    (he : s.events = e :: events) :
    (s.host.receive e = (.ok (), s.host) ∧ { s with events }.Stands contextEpoch) ∨
      ∃ next reason summary, s.host.phase = .rotating next reason summary ∧
        s.host.receive e = (.ok (), turned s.host next) ∧ events = [] ∧ ¬ Plain s.host e ∧
          Ready contextEpoch (turned s.host next) := by
  unfold Stands at hs ⊢
  have hplain : ∀ next reason summary, Plain s.host e →
      s.host.phase = .rotating next reason summary ∨ s.host.phase = .ready →
        s.host.receive e = (.ok (), s.host) := by
    intro next reason summary hp hphase
    have hevent := hp.event
    unfold LocalOmniBackend.receive
    obtain hphase | hphase := hphase
    all_goals
      rw [hphase]
      simp only [hp.session.1, hp.session.2, hp.epoch, ne_eq, not_true_eq_false, or_self, if_false]
      cases hcase : e.event with
      | contextRotated reason summary | pong nonce => simp only [hcase] at hevent
      | diagnostic code severity =>
        simp only [hcase] at hevent
        first
          | exact if_neg (not_or.2 ⟨Nat.not_lt.2 hevent.1, Nat.not_lt.2 hevent.2⟩)
          | rfl
      | _ => rfl
  cases hphase : s.host.phase with
  | ready =>
    rw [hphase, he, List.forall_mem_cons] at hs
    exact .inl ⟨hplain 0 "" "" hs.2.1 (.inr hphase), hs.1, hs.2.2⟩
  | closed =>
    refine .inl ⟨?_, trivial⟩
    unfold LocalOmniBackend.receive
    rw [hphase]
  | rotating next reason summary =>
    rw [hphase, he] at hs
    obtain ⟨hnext, hready, hall | ⟨events', sequence, hlist, hall⟩⟩ := hs
    · rw [List.forall_mem_cons] at hall
      exact .inl ⟨hplain next reason summary hall.1 (.inl hphase), hnext, hready, .inl hall.2⟩
    · cases events' with
      | nil =>
        simp only [List.nil_append, List.cons.injEq] at hlist
        obtain ⟨rfl, rfl⟩ := hlist
        refine .inr ⟨next, reason, summary, rfl, ?_, rfl, fun hp => hp.event, hready⟩
        unfold LocalOmniBackend.receive
        rw [hphase]
        simp only [ne_eq, not_true_eq_false, or_self, if_false]
        rfl
      | cons e' events' =>
        simp only [List.cons_append, List.cons.injEq] at hlist
        obtain ⟨rfl, rfl⟩ := hlist
        rw [List.forall_mem_cons] at hall
        exact .inl ⟨hplain next reason summary hall.1 (.inl hphase), hnext, hready,
          .inr ⟨events', sequence, rfl, hall.2⟩⟩

theorem Inv.receive (hi : s.Inv contextEpoch) : s.receive.Inv contextEpoch := by
  unfold Session.receive
  cases he : s.events with
  | nil => exact hi
  | cons e events =>
    obtain ⟨front, back, hsplit, hsubmitted, hplays⟩ := hi.heard
    obtain ⟨hreceived, hstands⟩ |
      ⟨next, reason, summary, hphase, hreceived, rfl, hrotated, hready⟩ := receive_spec hi.stands he
    · simp only [hreceived]
      refine ⟨hi.valid, hstands, front, back, hsplit, hsubmitted, fun hexited hstopped => ?_⟩
      obtain ⟨hhandled, hhears, ⟨hturns, hquiet, hasked⟩, hmedia⟩ := hplays hexited hstopped
      refine ⟨hhandled, { hhears with }, ⟨hturns, hquiet, ?_⟩, hmedia⟩
      intro next reason summary hphase hback
      obtain ⟨hplain, hlast⟩ := hasked next reason summary hphase hback
      exact ⟨fun e' he' => hplain e' (he ▸ List.mem_cons_of_mem _ he'), hlast⟩
    · simp only [hreceived]
      refine ⟨hi.valid, ⟨hready, nofun⟩, front, back, hsplit, hsubmitted,
        fun hexited hstopped => ?_⟩
      obtain ⟨hhandled, hhears, hwaits, hmedia⟩ := hplays hexited hstopped
      -- the runtime has heard the rotation, and nothing is behind it
      have hnone : back = [] := by
        by_contra hback
        exact hrotated ((hwaits.asked next reason summary hphase hback).1 e
          (he ▸ List.mem_cons_self))
      subst hnone
      exact ⟨hhandled, { hhears with }, ⟨nofun, nofun, nofun⟩, hmedia⟩

end Host

end Session

end Fairy.OmniRuntime
