import Fairy.OmniRuntime.Control

namespace Fairy.OmniRuntime

open Fairy.Lib Fairy.Lib.LittleEndian Fairy.Realtime

/-! The host. -/

/-- What a host has written, to the pipe and to the standard input of the runtime. -/
inductive Sent
  | frame (frame : MediaFrame)
  | command (frame : CommandFrame)

inductive BackendError
  | localProtocol
  deriving DecidableEq

/-- Whether a host may be called, waits for a rotation to be acknowledged, or is given up. -/
inductive Phase
  | ready
  | rotating (nextContextEpoch : UInt64) (reason publicSummary : String)
  | closed
  deriving DecidableEq

structure LocalOmniBackend where
  sessionId : String
  segmentId : String
  contextEpoch : UInt64
  controlSequence : UInt64
  mediaSequence : UInt64
  mediaTimestampUs : UInt64
  microphoneBuffer : List UInt8
  microphonePacketsSinceCommit : Nat
  phase : Phase
  sent : List Sent

def microphonePacketBytes : Nat := 640

def maxApplicationAudioBytes : Nat := 32000

def maxJpegBytes : Nat := 8 * 1024 * 1024

def audioCommitPackets : Nat := 50

/-- The timestamp of a packet; only the microphone lets the time go on. -/
def nextTimestampUs (timestampUs : UInt64) (kind : MediaKind) : UInt64 :=
  if kind = .microphonePcm16 then saturatingAdd timestampUs 20000
  else if timestampUs = 0 then 20000
  else timestampUs

namespace LocalOmniBackend

/-- What a method on `&mut self` comes to. -/
abbrev Outcome := Except BackendError Unit × LocalOmniBackend

variable (h : LocalOmniBackend)

/-- `write_control` of a command with the next identity. -/
def writeControl (command : Command) : LocalOmniBackend :=
  let sequence := saturatingAdd h.controlSequence 1
  { h with
    controlSequence := sequence
    sent := h.sent ++ [.command ⟨⟨h.sessionId, h.segmentId, h.contextEpoch, sequence⟩, command⟩] }

def commit : LocalOmniBackend :=
  if h.mediaSequence = 0 then h
  else { h.writeControl (.mediaCommit h.mediaSequence) with microphonePacketsSinceCommit := 0 }

/-- `write_media`, with `write_frame`. -/
def writeMedia (kind : MediaKind) (payload : List UInt8) : Outcome :=
  match checkedAdd h.mediaSequence 1 with
  | none => (.error .localProtocol, h)
  | some sequence =>
    let timestampUs := nextTimestampUs h.mediaTimestampUs kind
    let h := { h with mediaSequence := sequence, mediaTimestampUs := timestampUs }
    if payload.length ≥ 4294967296 then (.error .localProtocol, h)
    else
      let header := ⟨1, kind, h.contextEpoch, sequence, timestampUs, .ofNat payload.length⟩
      (.ok (), { h with sent := h.sent ++ [.frame ⟨header, payload⟩] })

/-- The loop of `push_microphone`, by its number of rounds. -/
def pushPackets : Nat → LocalOmniBackend → Outcome
  | 0, h => (.ok (), h)
  | rounds + 1, h =>
    let packet := h.microphoneBuffer.take microphonePacketBytes
    let h := { h with microphoneBuffer := h.microphoneBuffer.drop microphonePacketBytes }
    match h.writeMedia .microphonePcm16 packet with
    | (.error e, h) => (.error e, h)
    | (.ok (), h) =>
      let h := { h with microphonePacketsSinceCommit := h.microphonePacketsSinceCommit + 1 }
      pushPackets rounds
        (if audioCommitPackets ≤ h.microphonePacketsSinceCommit then h.commit else h)

def pushMicrophone (pcm16 : List UInt8) : Outcome :=
  let h := { h with microphoneBuffer := h.microphoneBuffer ++ pcm16 }
  pushPackets (h.microphoneBuffer.length / microphonePacketBytes) h

def pushApplicationAudio (pcm16 : List UInt8) : Outcome :=
  if pcm16 = [] ∨ pcm16.length > maxApplicationAudioBytes ∨ pcm16.length % 2 ≠ 0 then
    (.error .localProtocol, h)
  else h.writeMedia .applicationPcm16 pcm16

def pushVideo (jpeg : List UInt8) : Outcome :=
  if jpeg = [] ∨ jpeg.length > maxJpegBytes then (.error .localProtocol, h)
  else
    match h.writeMedia .jpeg jpeg with
    | (.error e, h) => (.error e, h)
    | (.ok (), h) => (.ok (), h.commit)

def pause : Outcome :=
  (.ok (), { h with microphoneBuffer := [] }.writeControl .cancelGeneration)

/-- The first half of `rotate_context_acknowledged`: the command is written. -/
def rotateContext (nextContextEpoch : UInt64) (reason publicSummary : String) : Outcome :=
  if checkedAdd h.contextEpoch 1 ≠ some nextContextEpoch ∨ reason = "" ∨
      reason.utf8ByteSize > 64 ∨ publicSummary.toList.length > 2000 then
    (.error .localProtocol, h)
  else
    (.ok (), { { h with microphoneBuffer := [] }.writeControl
      (.contextRotate nextContextEpoch reason publicSummary) with
        phase := .rotating nextContextEpoch reason publicSummary })

def stop : Outcome := (.ok (), { h.writeControl .stop with phase := .closed })

/-- An event that is read: by `poll`, and by the loop that waits for a rotation. What becomes of a
decision is not part of the protocol. -/
def receive (e : RuntimeEvent) : Outcome :=
  let id := e.identity
  match h.phase with
  | .closed => (.ok (), h)
  | .ready =>
    if id.sessionId ≠ h.sessionId ∨ id.segmentId ≠ h.segmentId ∨
        id.contextEpoch ≠ h.contextEpoch then
      (.error .localProtocol, h)
    else
      match e.event with
      | .diagnostic code severity =>
        if code.utf8ByteSize > 128 ∨ severity.utf8ByteSize > 32 then (.error .localProtocol, h)
        else (.ok (), h)
      | .pong _ => (.error .localProtocol, h)
      | _ => (.ok (), h)
  | .rotating next reason summary =>
    if id.sessionId ≠ h.sessionId ∨ id.segmentId ≠ h.segmentId then (.error .localProtocol, h)
    else
      match e.event with
      | .contextRotated reason' summary' =>
        if id.contextEpoch ≠ next ∨ reason' ≠ reason ∨ summary' ≠ summary then
          (.error .localProtocol, h)
        else
          (.ok (), { h with
            contextEpoch := next
            mediaSequence := 0
            mediaTimestampUs := 0
            microphonePacketsSinceCommit := 0
            phase := .ready })
      | .pong _ => (.error .localProtocol, h)
      | _ => if id.contextEpoch ≠ h.contextEpoch then (.error .localProtocol, h) else (.ok (), h)

end LocalOmniBackend

/-! The two processes, and what is on its way between them. -/

/-- The bytes of a frame in the pipe. -/
def MediaFrame.bytes (frame : MediaFrame) : List UInt8 :=
  encodeMediaHeader frame.header ++ frame.payload

def frames : List Sent → List MediaFrame
  | [] => []
  | .frame frame :: sent => frame :: frames sent
  | .command _ :: sent => frames sent

def commands : List Sent → List CommandFrame
  | [] => []
  | .frame _ :: sent => commands sent
  | .command frame :: sent => frame :: commands sent

def wire (frames : List MediaFrame) : List UInt8 := frames.flatMap MediaFrame.bytes

/-- What the thread of `MediaPipePump` is about to read. -/
inductive Pump
  | header
  | payload (header : MediaHeader)
  | failed
  | stopped

structure Session where
  host : LocalOmniBackend
  /-- How many bytes of the pipe have been read. -/
  read : Nat
  /-- How many commands have been read. -/
  handled : Nat
  /-- The events that the host has not read. -/
  events : List RuntimeEvent
  runtime : ControlRuntime
  buffer : MediaBuffer
  pump : Pump
  /-- What ended the runtime, but for a `stop`. -/
  exited : Option ProtocolError
  /-- The batches that the backend was given. -/
  submitted : List MediaBatch

inductive Act
  | pushMicrophone (pcm16 : List UInt8)
  | pushApplicationAudio (pcm16 : List UInt8)
  | pushVideo (jpeg : List UInt8)
  | pause
  | rotateContext (nextContextEpoch : UInt64) (reason publicSummary : String)
  | stop
  | receive
  /-- A deadline passes, or the session ends. -/
  | abandon
  | pump
  | control (answers : Answers)

namespace Session

variable (s : Session)

def pipe : List UInt8 := (wire (frames s.host.sent)).drop s.read

def input : List CommandFrame := (commands s.host.sent).drop s.handled

/-- A call of a host that may be called. After an error the session gives the host up, but for one
of the application audio. -/
def call (fatal : Bool) (op : LocalOmniBackend → LocalOmniBackend.Outcome) : Session :=
  if s.host.phase = .ready then
    match op s.host with
    | (.ok (), host) => { s with host }
    | (.error _, host) => { s with host := if fatal then { host with phase := .closed } else host }
  else s

def receive : Session :=
  match s.events with
  | [] => s
  | e :: events =>
    match s.host.receive e with
    | (.ok (), host) => { s with host, events }
    | (.error _, host) => { s with host := { host with phase := .closed }, events }

/-- A step of the pump, where the bytes for it are there. -/
def pumpStep : Session :=
  if s.exited ≠ none then s
  else
  match s.pump with
  | .header =>
    if s.pipe.length < kMediaHeaderBytes then s
    else
      let s' := { s with read := s.read + kMediaHeaderBytes }
      match decodeMediaHeader (s.pipe.take kMediaHeaderBytes) with
      | .error _ => { s' with pump := .failed }
      | .ok header =>
        match s.buffer.validateLocked header with
        | .error _ => { s' with pump := .failed }
        | .ok () => { s' with pump := .payload header }
  | .payload header =>
    let length := header.payloadLength.toNat
    if s.pipe.length < length then s
    else
      let s' := { s with read := s.read + length }
      match s.buffer.commit header (s.pipe.take length) with
      | (.error _, buffer) => { s' with buffer, pump := .failed }
      | (.ok (), buffer) => { s' with buffer, pump := .header }
  | .failed | .stopped => s

/-- A round of the main loop of the runtime, where a command is there. -/
def control (x : Answers) : Session :=
  if s.exited ≠ none ∨ s.runtime.stopped then s
  else
    match s.input with
    | [] => s
    | frame :: _ =>
      match s.pump with
      | .failed => { s with
          handled := s.handled + 1
          events := s.events ++ [s.runtime.baseEvent s.runtime.lastSequence
            (.diagnostic "media_frame_rejected" "error")]
          exited := some "media_frame_rejected" }
      | _ =>
        match s.runtime.serve s.buffer x frame with
        | .error e => { s with handled := s.handled + 1, exited := some e }
        | .ok done => { s with
            handled := s.handled + 1
            events := s.events ++ done.events
            runtime := done.runtime
            buffer := done.buffer
            pump := if done.runtime.stopped then .stopped else s.pump
            submitted := s.submitted ++ done.submitted }

def after : Act → Session
  | .pushMicrophone pcm16 => s.call true (·.pushMicrophone pcm16)
  | .pushApplicationAudio pcm16 => s.call false (·.pushApplicationAudio pcm16)
  | .pushVideo jpeg => s.call true (·.pushVideo jpeg)
  | .pause => s.call true (·.pause)
  | .rotateContext next reason summary => s.call true (·.rotateContext next reason summary)
  | .stop => s.call true (·.stop)
  | .receive => s.receive
  | .abandon => { s with host := { s.host with phase := .closed } }
  | .pump => s.pumpStep
  | .control x => s.control x

def Step (s : Session) (a : Act) (s' : Session) : Prop := s' = s.after a

/-- A session once `connect` has its three answers. -/
def connected (sessionId segmentId : String) (contextEpoch : UInt64) (runtime : ControlRuntime)
    (buffer : MediaBuffer) : Session where
  host := ⟨sessionId, segmentId, contextEpoch, 3, 0, 0, [], 0, .ready, []⟩
  read := 0
  handled := 0
  events := []
  runtime := runtime
  buffer := buffer
  pump := .header
  exited := none
  submitted := []

/-- The commands that `connect` sends. -/
def greeting (sessionId segmentId : String) (contextEpoch : UInt64)
    (manifestDigest modelVersion systemInstruction : String) : List CommandFrame :=
  [⟨⟨sessionId, segmentId, contextEpoch, 1⟩, .hello 1⟩,
    ⟨⟨sessionId, segmentId, contextEpoch, 2⟩,
      .load manifestDigest modelVersion systemInstruction⟩,
    ⟨⟨sessionId, segmentId, contextEpoch, 3⟩,
      .contextBegin "duplex_conversation" 4096 60000 900 0 0⟩]

end Session

/-! What a host has written, read from the first to the last. -/

def micFrames (l : List MediaFrame) : List MediaFrame :=
  l.filter fun frame => frame.header.kind = .microphonePcm16

def videoFrames (l : List MediaFrame) : List MediaFrame :=
  l.filter fun frame => frame.header.kind = .jpeg

/-- The batch of the frames that a commit closes. -/
def batchOf (l : List MediaFrame) (mediaSequence : UInt64) : MediaBatch where
  microphonePcm16 := (micFrames l).flatMap (·.payload)
  jpeg := ((videoFrames l).getLast?.map (·.payload)).getD []
  mediaSequence := mediaSequence

/-- Where a host is: its counters, the frames since the last commit or rotation, where these began,
and the batches before them. -/
structure Log where
  contextEpoch : UInt64
  controlSequence : UInt64
  mediaSequence : UInt64
  mediaTimestampUs : UInt64
  markSequence : UInt64
  markTimestampUs : UInt64
  since : List MediaFrame
  batches : List MediaBatch

namespace Log

def start (contextEpoch : UInt64) : Log := ⟨contextEpoch, 3, 0, 0, 0, 0, [], []⟩

def addCommand (c : Log) : Command → Log
  | .mediaCommit mediaSequence => { c with
      markSequence := c.mediaSequence
      markTimestampUs := c.mediaTimestampUs
      since := []
      batches := c.batches ++ [batchOf c.since mediaSequence] }
  | .contextRotate next _ _ => { c with
      contextEpoch := next
      mediaSequence := 0
      mediaTimestampUs := 0
      markSequence := 0
      markTimestampUs := 0
      since := [] }
  | _ => c

def add (c : Log) : Sent → Log
  | .frame frame => { c with
      mediaSequence := frame.header.sequence
      mediaTimestampUs := frame.header.timestampUs
      since := c.since ++ [frame] }
  | .command frame => { c with controlSequence := frame.identity.sequence }.addCommand frame.command

def run (c : Log) (sent : List Sent) : Log := sent.foldl add c

/-- The frame that a host at `c` writes for a payload. -/
def next (c : Log) (kind : MediaKind) (payload : List UInt8) : MediaFrame :=
  ⟨⟨1, kind, c.contextEpoch, c.mediaSequence + 1, nextTimestampUs c.mediaTimestampUs kind,
    .ofNat payload.length⟩, payload⟩

/-- What a host sends of each kind; it writes no BGRA. -/
def Sendable : MediaKind → List UInt8 → Prop
  | .microphonePcm16, payload => payload.length = microphonePacketBytes
  | .applicationPcm16, payload => 0 < payload.length ∧
      payload.length ≤ maxApplicationAudioBytes ∧ payload.length % 2 = 0
  | .jpeg, payload => 0 < payload.length ∧ payload.length ≤ maxJpegBytes
  | .bgra, _ => False

/-- What a host at `c` may write next. -/
def Allows (sessionId segmentId : String) (c : Log) : Sent → Prop
  | .frame frame => c.mediaSequence.toNat + 1 < 18446744073709551616 ∧
      Sendable frame.header.kind frame.payload ∧ frame = c.next frame.header.kind frame.payload
  | .command ⟨id, command⟩ =>
    id = ⟨sessionId, segmentId, c.contextEpoch, saturatingAdd c.controlSequence 1⟩ ∧
      match command with
      | .mediaCommit mediaSequence => mediaSequence = c.mediaSequence ∧ c.since ≠ [] ∧
          MediaBuffer.ringBytes (micFrames c.since) ≤ kMaxAudioRingBytes
      | .contextRotate next reason _ => checkedAdd c.contextEpoch 1 = some next ∧ reason ≠ "" ∧
          reason.utf8ByteSize ≤ 64
      | .cancelGeneration | .stop => True
      | _ => False

/-- Each entry is allowed where it stands. -/
def Valid (sessionId segmentId : String) : Log → List Sent → Prop
  | _, [] => True
  | c, x :: sent => Allows sessionId segmentId c x ∧ Valid sessionId segmentId (c.add x) sent

/-- A rotation. -/
def Turns : Sent → Prop
  | .command ⟨_, .contextRotate ..⟩ => True
  | _ => False

section Entries

variable {sessionId segmentId : String} {c : Log} {x : Sent} {l l' : List Sent}

theorem run_append : c.run (l ++ l') = (c.run l).run l' := List.foldl_append ..

theorem valid_append : Valid sessionId segmentId c (l ++ l') ↔
    Valid sessionId segmentId c l ∧ Valid sessionId segmentId (c.run l) l' := by
  induction l generalizing c with
  | nil => exact (iff_of_eq (true_and _)).symm
  | cons x l ih => simp only [List.cons_append, Valid, ih, and_assoc, run, List.foldl_cons]

theorem frames_append : frames (l ++ l') = frames l ++ frames l' := by
  induction l with
  | nil => rfl
  | cons x l ih => cases x <;> simp only [List.cons_append, frames, ih]

theorem commands_append : commands (l ++ l') = commands l ++ commands l' := by
  induction l with
  | nil => rfl
  | cons x l ih => cases x <;> simp only [List.cons_append, commands, ih]

theorem frames_map (fs : List MediaFrame) : frames (fs.map .frame) = fs := by
  induction fs with
  | nil => rfl
  | cons f fs ih => rw [List.map_cons, frames, ih]

theorem commands_map (fs : List MediaFrame) : commands (fs.map .frame) = [] := by
  induction fs with
  | nil => rfl
  | cons f fs ih => rw [List.map_cons, commands, ih]

/-- Up to the next command a host has written frames. -/
theorem split_command {frame : CommandFrame} {rest : List CommandFrame}
    (h : commands l = frame :: rest) :
    ∃ (fs : List MediaFrame) (l' : List Sent), l = fs.map .frame ++ .command frame :: l' ∧
      commands l' = rest := by
  induction l with
  | nil => cases h
  | cons x l ih =>
    cases x with
    | frame f =>
      obtain ⟨fs, l', rfl, hrest⟩ := ih h
      exact ⟨f :: fs, l', rfl, hrest⟩
    | command frame' =>
      simp only [commands, List.cons.injEq] at h
      obtain ⟨rfl, rfl⟩ := h
      exact ⟨[], l, rfl, rfl⟩

end Entries

/-! The frames of a context. -/

def lastSequence (n : UInt64) (l : List MediaFrame) : UInt64 :=
  (l.getLast?.map (·.header.sequence)).getD n

def lastTimestampUs (t : UInt64) (l : List MediaFrame) : UInt64 :=
  (l.getLast?.map (·.header.timestampUs)).getD t

/-- Frames of a context that a host has written one after the other, from a sequence number and a
time on. -/
def Chain (contextEpoch : UInt64) : UInt64 → UInt64 → List MediaFrame → Prop
  | _, _, [] => True
  | n, t, frame :: l => n.toNat + 1 < 18446744073709551616 ∧
      Sendable frame.header.kind frame.payload ∧
      frame.header = ⟨1, frame.header.kind, contextEpoch, n + 1,
        nextTimestampUs t frame.header.kind, .ofNat frame.payload.length⟩ ∧
      Chain contextEpoch frame.header.sequence frame.header.timestampUs l

section Chains

variable {e n t : UInt64} {frame : MediaFrame} {l l' : List MediaFrame}

theorem lastSequence_append :
    lastSequence n (l ++ l') = lastSequence (lastSequence n l) l' := by
  unfold lastSequence
  rw [List.getLast?_append]
  cases l'.getLast? <;> rfl

theorem lastTimestampUs_append :
    lastTimestampUs t (l ++ l') = lastTimestampUs (lastTimestampUs t l) l' := by
  unfold lastTimestampUs
  rw [List.getLast?_append]
  cases l'.getLast? <;> rfl

theorem lastSequence_cons : lastSequence n (frame :: l) = lastSequence frame.header.sequence l :=
  @lastSequence_append n [frame] l

theorem lastTimestampUs_cons :
    lastTimestampUs t (frame :: l) = lastTimestampUs frame.header.timestampUs l :=
  @lastTimestampUs_append t [frame] l

theorem chain_append : Chain e n t (l ++ l') ↔
    Chain e n t l ∧ Chain e (lastSequence n l) (lastTimestampUs t l) l' := by
  induction l generalizing n t with
  | nil => exact (iff_of_eq (true_and _)).symm
  | cons frame l ih =>
    simp only [List.cons_append, Chain, ih, lastSequence_cons, lastTimestampUs_cons, and_assoc]

/-- The frames of a context are counted. -/
theorem Chain.sequence (h : Chain e n t l) :
    (lastSequence n l).toNat = n.toNat + l.length := by
  induction l generalizing n t with
  | nil => rfl
  | cons frame l ih =>
    obtain ⟨hroom, -, hheader, hrest⟩ := h
    have hsequence : frame.header.sequence.toNat = n.toNat + 1 := by
      rw [hheader, UInt64.toNat_add]
      exact Nat.mod_eq_of_lt hroom
    rw [lastSequence_cons, ih hrest, hsequence, List.length_cons]
    omega

theorem Chain.epoch (h : Chain e n t l) : ∀ frame ∈ l, frame.header.sessionEpoch = e := by
  induction l generalizing n t with
  | nil => exact nofun
  | cons frame l ih =>
    obtain ⟨-, -, hheader, hrest⟩ := h
    rw [List.forall_mem_cons]
    exact ⟨by rw [hheader], ih hrest⟩

theorem Chain.sendable (h : Chain e n t l) :
    ∀ frame ∈ l, Sendable frame.header.kind frame.payload := by
  induction l generalizing n t with
  | nil => exact nofun
  | cons frame l ih =>
    obtain ⟨-, hsend, -, hrest⟩ := h
    rw [List.forall_mem_cons]
    exact ⟨hsend, ih hrest⟩

/-- Packets of the microphone have one length. -/
theorem ringBytes_micFrames (h : ∀ frame ∈ l, Sendable frame.header.kind frame.payload) :
    MediaBuffer.ringBytes (micFrames l) = microphonePacketBytes * (micFrames l).length := by
  induction l with
  | nil => rfl
  | cons frame l ih =>
    rw [List.forall_mem_cons] at h
    have hrest := ih h.2
    unfold micFrames at hrest ⊢
    by_cases hkind : frame.header.kind = .microphonePcm16
    · have hlength : frame.payload.length = microphonePacketBytes := by
        have hsend := h.1
        rw [hkind] at hsend
        exact hsend
      rw [List.filter_cons_of_pos (by simpa using hkind), MediaBuffer.ringBytes, hrest, hlength,
        List.length_cons, Nat.mul_succ, Nat.add_comm]
    · rw [List.filter_cons_of_neg (by simpa using hkind)]
      exact hrest

end Chains

/-- What is kept of the frames since the last mark. -/
structure Kept (c : Log) : Prop where
  chain : Chain c.contextEpoch c.markSequence c.markTimestampUs c.since
  sequence : c.mediaSequence = lastSequence c.markSequence c.since
  timestamp : c.mediaTimestampUs = lastTimestampUs c.markTimestampUs c.since

section Keeping

variable {sessionId segmentId : String} {c : Log} {x : Sent} {l : List Sent}

theorem Kept.add (h : Kept c) (hx : Allows sessionId segmentId c x) : Kept (c.add x) := by
  cases x with
  | frame frame =>
    obtain ⟨hroom, hsend, hframe⟩ := hx
    have hheader : frame.header = ⟨1, frame.header.kind, c.contextEpoch,
        lastSequence c.markSequence c.since + 1,
        nextTimestampUs (lastTimestampUs c.markTimestampUs c.since) frame.header.kind,
        .ofNat frame.payload.length⟩ := by
      rw [← h.sequence, ← h.timestamp]
      exact congrArg MediaFrame.header hframe
    refine ⟨?_, ?_, ?_⟩
    · refine chain_append.2 ⟨h.chain, ?_⟩
      exact ⟨h.sequence ▸ hroom, hsend, hheader, trivial⟩
    · simp only [Log.add, lastSequence_append]
      rfl
    · simp only [Log.add, lastTimestampUs_append]
      rfl
  | command frame =>
    obtain ⟨id, command⟩ := frame
    obtain ⟨-, hcommand⟩ := hx
    cases command with
    | mediaCommit mediaSequence => exact ⟨trivial, rfl, rfl⟩
    | contextRotate next reason summary => exact ⟨trivial, rfl, rfl⟩
    | cancelGeneration | stop => exact ⟨h.chain, h.sequence, h.timestamp⟩
    | hello | load | contextBegin | ping => exact hcommand.elim

theorem Kept.run (h : Kept c) (hl : Valid sessionId segmentId c l) : Kept (c.run l) := by
  induction l generalizing c with
  | nil => exact h
  | cons x l ih => exact ih (h.add hl.1) hl.2

theorem kept_start {contextEpoch : UInt64} : Kept (start contextEpoch) := ⟨trivial, rfl, rfl⟩

/-- Without a rotation the frames go on in their context. -/
theorem chain_frames (h : Kept c) (hl : Valid sessionId segmentId c l)
    (hquiet : ∀ x ∈ l, ¬ Turns x) :
    (c.run l).contextEpoch = c.contextEpoch ∧
      Chain c.contextEpoch c.mediaSequence c.mediaTimestampUs (frames l) := by
  induction l generalizing c with
  | nil => exact ⟨rfl, trivial⟩
  | cons x l ih =>
    rw [List.forall_mem_cons] at hquiet
    obtain ⟨hepoch, hchain⟩ := ih (h.add hl.1) hl.2 hquiet.2
    have hstay : (c.add x).contextEpoch = c.contextEpoch := by
      cases x with
      | frame frame => rfl
      | command frame =>
        obtain ⟨id, command⟩ := frame
        cases command with
        | contextRotate next reason summary => exact absurd trivial hquiet.1
        | _ => rfl
    refine ⟨hepoch.trans hstay, ?_⟩
    rw [hstay] at hchain
    cases x with
    | frame frame =>
      obtain ⟨⟨hroom, hsend, hframe⟩, -⟩ := hl
      exact ⟨hroom, hsend, congrArg MediaFrame.header hframe, hchain⟩
    | command frame =>
      obtain ⟨id, command⟩ := frame
      cases command with
      | contextRotate next reason summary => exact absurd trivial hquiet.1
      | _ => exact hchain

end Keeping

end Log

end Fairy.OmniRuntime
