import Fairy.Lib.Fallible
import Fairy.OmniRuntime.Media

namespace Fairy.OmniRuntime

open Fairy.Lib Fairy.Lib.LittleEndian Fairy.Realtime

/-! The commands and the events on the wire; their JSON has one form. -/

structure Identity where
  sessionId : String
  segmentId : String
  contextEpoch : UInt64
  sequence : UInt64
  deriving DecidableEq

inductive Command
  | hello (protocolVersion : UInt64)
  | load (manifestDigest modelVersion systemInstruction : String)
  | contextBegin (contextKind : String) (tokenBudget audioBudgetMs frameBudget : UInt64)
      (videoWidth videoHeight : UInt64)
  | contextRotate (nextContextEpoch : UInt64) (reason publicSummary : String)
  | mediaCommit (mediaSequence : UInt64)
  | cancelGeneration
  | ping (nonce : String)
  | stop
  deriving DecidableEq

structure CommandFrame where
  identity : Identity
  command : Command
  deriving DecidableEq

inductive Event
  | ready (protocolVersion : UInt64) (runtimeCompatibility buildProfile : String)
  | loadProgress (stage : String) (completed total : UInt64)
  | modelReady (modelVersion manifestDigest : String) (backendReady : Bool) (reason : String)
  | contextReady (contextKind : String) (tokenBudget audioBudgetMs frameBudget : UInt64)
      (videoWidth videoHeight : UInt64)
  | contextRotated (reason publicSummary : String)
  | decision (decision text : String) (backendReady : Bool)
  | diagnostic (code severity : String)
  | pong (nonce : String)
  | stopped (reason : String)
  deriving DecidableEq

structure RuntimeEvent where
  identity : Identity
  event : Event
  deriving DecidableEq

/-! The runtime. -/

structure BackendStatus where
  ready : Bool
  reason : String

structure BackendDecision where
  ok : Bool
  speak : Bool
  text : String

/-- What the model files and the backend answer while a command is handled. -/
structure Answers where
  buildProfile : String
  /-- `validate_model_identity` and `Backend::load`. -/
  load : Except ProtocolError (String × String × BackendStatus)
  starts : Bool
  submits : Bool
  decision : Option BackendDecision
  status : BackendStatus

/-- The event of a decision. -/
def Answers.spoken (x : Answers) : Event :=
  let decision := x.decision.filter (·.ok)
  .decision (if decision.any (·.speak) then "speak" else "listen")
    ((decision.map (·.text)).getD "") x.status.ready

structure ControlRuntime where
  sessionId : String
  segmentId : String
  contextEpoch : UInt64
  lastSequence : UInt64
  lastMediaSequence : UInt64
  initialized : Bool
  loaded : Bool
  contextActive : Bool
  stopped : Bool

/-- What a command comes to when it is not refused; a refusal ends the process. -/
structure Handled where
  events : List RuntimeEvent
  runtime : ControlRuntime
  buffer : MediaBuffer
  submitted : List MediaBatch

/-- The check of `require_string` on a text. -/
def TextWithin (maxBytes : Nat) (allowEmpty : Bool) (value : String) : Prop :=
  (value = "" → allowEmpty = true) ∧ value.utf8ByteSize ≤ maxBytes ∧ '\x00' ∉ value.toList

instance {maxBytes : Nat} {allowEmpty : Bool} {value : String} :
    Decidable (TextWithin maxBytes allowEmpty value) := inferInstanceAs (Decidable (_ ∧ _ ∧ _))

def requireString (key value : String) (maxBytes : Nat) (allowEmpty : Bool) :
    Except ProtocolError Unit :=
  if TextWithin maxBytes allowEmpty value then .ok ()
  else .error (key ++ " is outside its allowed bound")

/-- `std::isalnum`, in the locale of a C program. -/
def isSafe (c : Char) : Bool :=
  c.isAlphanum || c = '-' || c = '_' || c = ':' || c = '.'

def requireSafeIdentifier (key value : String) : Except ProtocolError Unit :=
  if value.toList.all isSafe then .ok () else .error (key ++ " contains an unsupported character")

def isHex (c : Char) : Bool :=
  c.isDigit || ('a' ≤ c && c ≤ 'f') || ('A' ≤ c && c ≤ 'F')

def requireSha256Hex (key value : String) : Except ProtocolError Unit :=
  if value.toList.length = 64 ∧ value.toList.all isHex then .ok ()
  else .error (key ++ " must be a SHA-256 hex digest")

def requirePositive (key : String) (value : UInt64) : Except ProtocolError Unit :=
  if value = 0 then .error (key ++ " must be positive") else .ok ()

def requireBounded (key : String) (value maximum : UInt64) : Except ProtocolError Unit :=
  if value > maximum then .error (key ++ " exceeds its allowed bound") else .ok ()

namespace ControlRuntime

def new : ControlRuntime := ⟨"", "", 0, 0, 0, false, false, false, false⟩

/-- `base_event`. -/
def baseEvent (r : ControlRuntime) (sequence : UInt64) (event : Event) : RuntimeEvent :=
  ⟨⟨r.sessionId, r.segmentId, r.contextEpoch, sequence⟩, event⟩

def handleHello (r : ControlRuntime) (b : MediaBuffer) (x : Answers) (id : Identity)
    (protocolVersion : UInt64) : Except ProtocolError Handled := do
  if r.initialized then throw "duplicate hello"
  requirePositive "protocol_version" protocolVersion
  if protocolVersion ≠ 1 ∨ id.sequence ≠ 1 then
    throw "unsupported protocol version or initial sequence"
  let r := { r with
    sessionId := id.sessionId
    segmentId := id.segmentId
    contextEpoch := id.contextEpoch
    lastSequence := id.sequence
    initialized := true }
  return ⟨[r.baseEvent id.sequence (.ready 1 "fairy-omni-runtime-v1" x.buildProfile)], r, b, []⟩

/-- A command after the first is of the session and the context, and the next one. -/
def requireCurrent (r : ControlRuntime) (id : Identity) : Except ProtocolError Unit := do
  if r.initialized = false then throw "hello must be the first command"
  if id.sessionId ≠ r.sessionId ∨ id.segmentId ≠ r.segmentId ∨
      id.contextEpoch ≠ r.contextEpoch then
    throw "stale control identity"
  if r.lastSequence = 18446744073709551615 ∨ id.sequence ≠ r.lastSequence + 1 then
    throw "out-of-order control sequence"

variable (r : ControlRuntime) (b : MediaBuffer) (x : Answers)

def handleLoad (sequence : UInt64) (manifestDigest modelVersion systemInstruction : String) :
    Except ProtocolError Handled := do
  if r.loaded then throw "duplicate load"
  requireString "manifest_digest" manifestDigest 64 false
  requireString "model_version" modelVersion 128 false
  requireString "system_instruction" systemInstruction 8192 false
  requireSha256Hex "manifest_digest" manifestDigest
  let (digest, version, status) ← x.load
  if digest ≠ manifestDigest ∨ version ≠ modelVersion then
    throw "load identity does not match the managed model"
  return ⟨[r.baseEvent sequence (.loadProgress x.buildProfile 1 1),
    r.baseEvent sequence (.modelReady modelVersion manifestDigest status.ready status.reason)],
    { r with loaded := true }, b, []⟩

def handleContextBegin (sequence : UInt64) (contextKind : String)
    (tokenBudget audioBudgetMs frameBudget videoWidth videoHeight : UInt64) :
    Except ProtocolError Handled := do
  if r.loaded = false ∨ r.contextActive then throw "context cannot begin in the current state"
  requireString "context_kind" contextKind 64 false
  if contextKind ≠ "duplex_conversation" ∧ contextKind ≠ "structured_perception" ∧
      contextKind ≠ "assistance_summary" then
    throw "unknown context kind"
  requirePositive "token_budget" tokenBudget
  requireBounded "token_budget" tokenBudget 32768
  requireBounded "audio_budget_ms" audioBudgetMs 600000
  requireBounded "frame_budget" frameBudget 4096
  requireBounded "video_width" videoWidth 8192
  requireBounded "video_height" videoHeight 8192
  if (videoWidth = 0) ≠ (videoHeight = 0) ∨ videoWidth * videoHeight > 8388608 then
    throw "video dimensions exceed the bounded context surface"
  if x.starts = false then throw "backend context failed to start"
  return ⟨[r.baseEvent sequence
    (.contextReady contextKind tokenBudget audioBudgetMs frameBudget videoWidth videoHeight)],
    { r with contextActive := true }, b, []⟩

def handleContextRotate (sequence nextContextEpoch : UInt64) (reason publicSummary : String) :
    Except ProtocolError Handled := do
  if r.contextActive = false then throw "context is not active"
  requirePositive "next_context_epoch" nextContextEpoch
  if r.contextEpoch = 18446744073709551615 ∨ nextContextEpoch ≠ r.contextEpoch + 1 then
    throw "context rotation must advance exactly one epoch"
  requireString "reason" reason 64 false
  requireString "public_summary" publicSummary 4096 true
  let r := { r with contextEpoch := nextContextEpoch, lastMediaSequence := 0 }
  return ⟨[r.baseEvent sequence (.contextRotated reason publicSummary)], r, b, []⟩

def handleMediaCommit (sequence mediaSequence : UInt64) : Except ProtocolError Handled := do
  if r.contextActive = false then throw "context is not active"
  requirePositive "media_sequence" mediaSequence
  if mediaSequence ≤ r.lastMediaSequence then throw "media sequence is stale"
  let r := { r with lastMediaSequence := mediaSequence }
  let (batch, b) := b.takeBatch
  if batch.mediaSequence ≠ mediaSequence then
    throw "media commit does not match the buffered sequence"
  if x.submits = false then throw "backend rejected the committed media"
  return ⟨[r.baseEvent sequence x.spoken], r, b, [batch]⟩

/-- `handle`. -/
def handle (frame : CommandFrame) : Except ProtocolError Handled := do
  let id := frame.identity
  if r.stopped then throw "runtime is already stopped"
  requireString "session_id" id.sessionId 128 false
  requireString "segment_id" id.segmentId 128 false
  requireSafeIdentifier "session_id" id.sessionId
  requireSafeIdentifier "segment_id" id.segmentId
  requirePositive "context_epoch" id.contextEpoch
  requirePositive "sequence" id.sequence
  match frame.command with
  | .hello protocolVersion => r.handleHello b x id protocolVersion
  | command => do
    r.requireCurrent id
    let r := { r with lastSequence := id.sequence }
    match command with
    | .hello _ => throw "duplicate hello"
    | .load digest version instruction => r.handleLoad b x id.sequence digest version instruction
    | .contextBegin kind tokens audio frames width height =>
      r.handleContextBegin b x id.sequence kind tokens audio frames width height
    | .contextRotate next reason summary =>
      r.handleContextRotate b id.sequence next reason summary
    | .mediaCommit mediaSequence => r.handleMediaCommit b x id.sequence mediaSequence
    | .cancelGeneration =>
      return ⟨[r.baseEvent id.sequence (.diagnostic "generation_cancelled" "info")], r, b, []⟩
    | .ping nonce =>
      requireString "nonce" nonce 128 false
      return ⟨[r.baseEvent id.sequence (.pong nonce)], r, b, []⟩
    | .stop =>
      let r := { r with stopped := true, contextActive := false, loaded := false }
      return ⟨[r.baseEvent id.sequence (.stopped "requested")], r, b, []⟩

/-- What the main loop does to the buffer once a command is handled. -/
def retarget (b : MediaBuffer) (frame : CommandFrame) : MediaBuffer.Outcome :=
  match frame.command with
  | .hello _ => b.rotateEpoch frame.identity.contextEpoch
  | .contextBegin _ _ _ _ width height => b.configureVideo width.toUInt32 height.toUInt32
  | .contextRotate next _ _ => b.rotateEpoch next
  | _ => (.ok (), b)

/-- A command in the main loop. The pump may run between `handle` and the change of the buffer;
it reads nothing of the runtime, so that its steps can be taken before. -/
def serve (frame : CommandFrame) : Except ProtocolError Handled := do
  let handled ← r.handle b x frame
  match retarget handled.buffer frame with
  | (.error e, _) => throw e
  | (.ok (), b) => return { handled with buffer := b }

/-- The commands of `LocalOmniBackend::connect`, each sent when the one before is answered. -/
def serveAll : ControlRuntime → MediaBuffer → List (Answers × CommandFrame) →
    Except ProtocolError (ControlRuntime × MediaBuffer)
  | r, b, [] => .ok (r, b)
  | r, b, (x, frame) :: frames => do
    let handled ← serve r b x frame
    serveAll handled.runtime handled.buffer frames

end ControlRuntime

/-! Sums of unsigned integers. -/

def checkedAdd (a b : UInt64) : Option UInt64 :=
  if a.toNat + b.toNat < 18446744073709551616 then some (a + b) else none

def saturatingAdd (a b : UInt64) : UInt64 := (checkedAdd a b).getD 18446744073709551615

theorem checkedAdd_eq {a b c : UInt64} : checkedAdd a b = some c ↔
    a.toNat + b.toNat < 18446744073709551616 ∧ c = a + b := by
  unfold checkedAdd
  split
  · rename_i hroom
    rw [Option.some.injEq, and_iff_right hroom, eq_comm]
  · rename_i hfull
    exact iff_of_false nofun fun h => hfull h.1

theorem toNat_next {n t : UInt64} (h : n.toNat + t.toNat < 18446744073709551616) :
    (n + t).toNat = n.toNat + t.toNat := by
  rw [UInt64.toNat_add]
  exact Nat.mod_eq_of_lt h

theorem saturatingAdd_one {n : UInt64} :
    saturatingAdd n 1 ≠ 0 ∧ (n ≠ 18446744073709551615 → saturatingAdd n 1 = n + 1) := by
  unfold saturatingAdd
  cases hsum : checkedAdd n 1 with
  | none =>
    refine ⟨by decide, fun hn => absurd ?_ hn⟩
    have hfull : ¬ n.toNat + (1 : UInt64).toNat < 18446744073709551616 := fun hroom => by
      rw [checkedAdd, if_pos hroom] at hsum
      cases hsum
    have hbound := n.toNat_lt
    have hone : (1 : UInt64).toNat = 1 := rfl
    have hlast : (18446744073709551615 : UInt64).toNat = 18446744073709551615 := rfl
    exact UInt64.toNat_inj.1 (by omega)
  | some m =>
    obtain ⟨hroom, rfl⟩ := checkedAdd_eq.1 hsum
    refine ⟨fun hzero => ?_, fun _ => rfl⟩
    have hvalue := toNat_next hroom
    rw [Option.getD_some] at hzero
    rw [hzero] at hvalue
    have hone : (1 : UInt64).toNat = 1 := rfl
    have hnone : (0 : UInt64).toNat = 0 := rfl
    omega

/-- An epoch that comes after another. -/
theorem checkedAdd_one {n next : UInt64} (h : checkedAdd n 1 = some next) :
    next ≠ 0 ∧ n ≠ 18446744073709551615 ∧ next = n + 1 ∧ n < next := by
  obtain ⟨hroom, rfl⟩ := checkedAdd_eq.1 h
  have hvalue := toNat_next hroom
  have hone : (1 : UInt64).toNat = 1 := rfl
  refine ⟨fun hzero => ?_, fun hlast => ?_, rfl, UInt64.lt_iff_toNat_lt.2 (by omega)⟩
  · rw [hzero] at hvalue
    have hnone : (0 : UInt64).toNat = 0 := rfl
    omega
  · rw [hlast] at hroom
    exact absurd hroom (by decide)

/-! What becomes of the commands of a host. -/

namespace ControlRuntime

variable {r : ControlRuntime} {b : MediaBuffer} {x : Answers} {frame : CommandFrame}
  {done : Handled} {id : Identity}

theorem serve_ok (h : r.serve b x frame = .ok done) : ∃ handled b',
    r.handle b x frame = .ok handled ∧
      ControlRuntime.retarget handled.buffer frame = (.ok (), b') ∧
        done = { handled with buffer := b' } := by
  obtain ⟨handled, hhandled, h⟩ := bind_ok h
  refine ⟨handled, ?_⟩
  cases hretarget : ControlRuntime.retarget handled.buffer frame with
  | mk result b' =>
    rw [hretarget] at h
    cases result with
    | error e => cases h
    | ok => exact ⟨b', hhandled, rfl, (pure_ok h).symm⟩

theorem passes {c : Prop} [Decidable c] {e : ProtocolError}
    (h : (if c then .ok () else .error e : Except ProtocolError Unit) = .ok ()) : c := by
  by_contra hc
  rw [if_neg hc] at h
  cases h

theorem handle_hello {version : UInt64}
    (h : ControlRuntime.new.handle b x ⟨id, .hello version⟩ = .ok done) :
    TextWithin 128 false id.sessionId ∧ TextWithin 128 false id.segmentId ∧
      id.sessionId.toList.all isSafe = true ∧ id.segmentId.toList.all isSafe = true ∧
        id.contextEpoch ≠ 0 ∧ done.buffer = b ∧ done.runtime = ⟨id.sessionId, id.segmentId,
          id.contextEpoch, id.sequence, 0, true, false, false, false⟩ := by
  unfold ControlRuntime.handle at h
  obtain ⟨-, h⟩ := check_bind_ok_iff.1 h
  obtain ⟨⟨⟩, h1, h⟩ := bind_ok h
  obtain ⟨⟨⟩, h2, h⟩ := bind_ok h
  obtain ⟨⟨⟩, h3, h⟩ := bind_ok h
  obtain ⟨⟨⟩, h4, h⟩ := bind_ok h
  obtain ⟨⟨⟩, h5, h⟩ := bind_ok h
  obtain ⟨-, -, h⟩ := bind_ok h
  unfold ControlRuntime.handleHello at h
  obtain ⟨-, h⟩ := check_bind_ok_iff.1 h
  obtain ⟨-, -, h⟩ := bind_ok h
  obtain ⟨-, h⟩ := check_bind_ok_iff.1 h
  have hdone := pure_ok h
  subst hdone
  refine ⟨passes h1, passes h2, passes h3, passes h4, fun hzero => ?_, rfl, rfl⟩
  rw [requirePositive, if_pos hzero] at h5
  cases h5

theorem handle_load {digest version instruction : String}
    (h : r.handle b x ⟨id, .load digest version instruction⟩ = .ok done) :
    done.buffer = b ∧ done.runtime = { r with lastSequence := id.sequence, loaded := true } := by
  unfold ControlRuntime.handle at h
  obtain ⟨-, h⟩ := check_bind_ok_iff.1 h
  iterate 6 obtain ⟨-, -, h⟩ := bind_ok h
  obtain ⟨-, -, h⟩ := bind_ok h
  unfold ControlRuntime.handleLoad at h
  obtain ⟨-, h⟩ := check_bind_ok_iff.1 h
  iterate 4 obtain ⟨-, -, h⟩ := bind_ok h
  obtain ⟨⟨_, _, _⟩, -, h⟩ := bind_ok h
  obtain ⟨-, h⟩ := check_bind_ok_iff.1 h
  cases pure_ok h
  exact ⟨rfl, rfl⟩

theorem handle_contextBegin {kind : String}
    {tokens audio frames width height : UInt64}
    (h : r.handle b x ⟨id, .contextBegin kind tokens audio frames width height⟩ = .ok done) :
    done.buffer = b ∧
      done.runtime = { r with lastSequence := id.sequence, contextActive := true } := by
  unfold ControlRuntime.handle at h
  obtain ⟨-, h⟩ := check_bind_ok_iff.1 h
  iterate 6 obtain ⟨-, -, h⟩ := bind_ok h
  obtain ⟨-, -, h⟩ := bind_ok h
  unfold ControlRuntime.handleContextBegin at h
  obtain ⟨-, h⟩ := check_bind_ok_iff.1 h
  obtain ⟨-, -, h⟩ := bind_ok h
  obtain ⟨-, h⟩ := check_bind_ok_iff.1 h
  iterate 6 obtain ⟨-, -, h⟩ := bind_ok h
  obtain ⟨-, h⟩ := check_bind_ok_iff.1 h
  obtain ⟨-, h⟩ := check_bind_ok_iff.1 h
  cases pure_ok h
  exact ⟨rfl, rfl⟩

theorem handleMediaCommit_eq {sequence n : UInt64}
    (hactive : r.contextActive = true) (hn : r.lastMediaSequence < n) :
    r.handleMediaCommit b x sequence n =
      if b.lastSequence ≠ n then .error "media commit does not match the buffered sequence"
      else if x.submits = false then .error "backend rejected the committed media"
      else .ok ⟨[r.baseEvent sequence x.spoken], { r with lastMediaSequence := n },
        b.takeBatch.2, [b.takeBatch.1]⟩ := by
  have hzero : n ≠ 0 := fun h => by
    rw [h, UInt64.lt_iff_toNat_lt] at hn
    exact Nat.not_lt_zero _ hn
  unfold ControlRuntime.handleMediaCommit requirePositive
  simp only [hactive, if_neg hzero, if_neg (UInt64.not_le.2 hn), Bool.true_eq_false, if_false, bind,
    Except.bind]
  rfl

theorem handleContextRotate_eq {sequence next : UInt64}
    {reason summary : String} (hactive : r.contextActive = true)
    (hnext : checkedAdd r.contextEpoch 1 = some next) :
    r.handleContextRotate b sequence next reason summary =
      if ¬ TextWithin 64 false reason then .error "reason is outside its allowed bound"
      else if ¬ TextWithin 4096 true summary then
        .error "public_summary is outside its allowed bound"
      else
        let r := { r with contextEpoch := next, lastMediaSequence := 0 }
        .ok ⟨[r.baseEvent sequence (.contextRotated reason summary)], r, b, []⟩ := by
  obtain ⟨hzero, hlast, rfl, -⟩ := checkedAdd_one hnext
  unfold ControlRuntime.handleContextRotate requirePositive requireString
  simp only [hactive, hlast, if_neg hzero, ne_eq, not_true_eq_false, or_self, Bool.true_eq_false,
    if_false, bind, Except.bind]
  by_cases hreason : TextWithin 64 false reason
  · by_cases hsummary : TextWithin 4096 true summary
    · simp only [hreason, hsummary, not_true_eq_false, if_true, if_false]
      rfl
    · simp only [hreason, hsummary, not_true_eq_false, not_false_eq_true, if_true, if_false]
      rfl
  · simp only [hreason, not_false_eq_true, if_true, if_false]
    rfl

end ControlRuntime

end Fairy.OmniRuntime
