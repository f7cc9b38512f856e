import Fairy.Lib.Fallible
import Fairy.Lib.Table
import Fairy.Lib.Text

namespace Fairy.Preview

open Fairy.Lib

abbrev Uuid := Nat

inductive RuntimeError
  | keyError (message : String)
  | valueError (message : String)
  | invalidTransition (message : String)
  | idempotencyConflict (message : String)
  | versionConflict (message : String)
  | runtimeExecutor (message errorCode : String)
  deriving DecidableEq

/-- `getattr(error, "error_code", "WORKER_INTERRUPTED")`. -/
def RuntimeError.errorCode : RuntimeError → String
  | .runtimeExecutor _ errorCode => errorCode
  | _ => "WORKER_INTERRUPTED"

inductive RuntimeStatus
  | created | starting | running | stopping | stopped | failed | interrupted
  deriving DecidableEq

inductive PreviewStatus
  | created | starting | ready | stopping | stopped | failed | interrupted
  deriving DecidableEq

/-- `RuntimeHealth`, and `PreviewHealth` with the same values. -/
inductive Health
  | unknown | starting | healthy | stopping | stopped | unhealthy | interrupted
  deriving DecidableEq

inductive ExecutionTarget
  | local' | cloud
  deriving DecidableEq

inductive RuntimeKind
  | staticSite | wslProject | cloudOci
  deriving DecidableEq

namespace RuntimeStatus

def value : RuntimeStatus → String
  | created => "created"
  | starting => "starting"
  | running => "running"
  | stopping => "stopping"
  | stopped => "stopped"
  | failed => "failed"
  | interrupted => "interrupted"

/-- `_RUNTIME_TRANSITIONS`. -/
def transitions : RuntimeStatus → List RuntimeStatus
  | created => [starting, interrupted]
  | starting => [running, failed, interrupted]
  | running => [stopping, failed, interrupted]
  | stopping => [stopped, failed, interrupted]
  | stopped => []
  | failed => [starting]
  | interrupted => [starting, stopping, failed]

def health : RuntimeStatus → Health
  | created => .unknown
  | starting => .starting
  | running => .healthy
  | stopping => .stopping
  | stopped => .stopped
  | failed => .unhealthy
  | interrupted => .interrupted

end RuntimeStatus

namespace PreviewStatus

def value : PreviewStatus → String
  | created => "created"
  | starting => "starting"
  | ready => "ready"
  | stopping => "stopping"
  | stopped => "stopped"
  | failed => "failed"
  | interrupted => "interrupted"

/-- `_PREVIEW_TRANSITIONS`. -/
def transitions : PreviewStatus → List PreviewStatus
  | created => [starting, interrupted]
  | starting => [ready, failed, interrupted]
  | ready => [stopping, failed, interrupted]
  | stopping => [stopped, failed, interrupted]
  | stopped => []
  | failed => [starting]
  | interrupted => [starting, stopping, failed]

def health : PreviewStatus → Health
  | created => .unknown
  | starting => .starting
  | ready => .healthy
  | stopping => .stopping
  | stopped => .stopped
  | failed => .unhealthy
  | interrupted => .interrupted

/-- `_TERMINAL_PREVIEW_STATUSES` of the store. -/
def terminal (s : PreviewStatus) : Bool := s ∈ [stopped, failed, interrupted]

/-- `_ACTIVE_PREVIEW_STATUSES` of the history application. -/
def active (s : PreviewStatus) : Bool := s ∈ [created, starting, ready, stopping, interrupted]

/-- The phase of the Runtime that goes with a phase of its Preview. -/
def runtime : PreviewStatus → RuntimeStatus
  | created => .created
  | starting => .starting
  | ready => .running
  | stopping => .stopping
  | stopped => .stopped
  | failed => .failed
  | interrupted => .interrupted

end PreviewStatus

/-- What a Runtime and its Preview are bound to. -/
structure Scope where
  projectId : Option Uuid
  workspaceId : Uuid
  conversationId : Uuid
  taskId : Uuid
  versionId : Uuid
  projectRoot : String
  executionTarget : ExecutionTarget
  deriving DecidableEq

structure RuntimeServiceDefinition where
  serviceId : String
  adapter : String
  cwd : String
  readinessPath : String
  dependsOn : List String
  deriving DecidableEq

structure RuntimeGraph where
  services : List RuntimeServiceDefinition
  publicServiceId : String
  deriving DecidableEq

structure RuntimeRow where
  id : Uuid
  scope : Scope
  kind : RuntimeKind
  graph : RuntimeGraph
  executor : String
  executorHandle : Option String
  port : Option Nat
  status : RuntimeStatus
  health : Health
  errorCode : Option String
  idempotencyKey : String
  revision : Nat
  deriving DecidableEq

/-- `RuntimeSession.__post_init__`. -/
structure RuntimeRow.Valid (r : RuntimeRow) : Prop where
  health : r.health = r.status.health
  paired : r.executorHandle.isSome = r.port.isSome
  port : ∀ p ∈ r.port, 1 ≤ p ∧ p ≤ 65535
  active : r.status ∈ [RuntimeStatus.running, .stopping] → r.executorHandle.isSome
  inactive : r.status ∈ [RuntimeStatus.created, .starting, .stopped] → r.executorHandle = none
  errorCode : r.errorCode.isSome = decide (r.status ∈ [RuntimeStatus.failed, .interrupted])

structure RuntimeSession extends RuntimeRow where
  valid : toRuntimeRow.Valid
  deriving DecidableEq

structure PreviewRow where
  id : Uuid
  scope : Scope
  runtimeId : Uuid
  url : Option String
  status : PreviewStatus
  health : Health
  errorCode : Option String
  idempotencyKey : String
  revision : Nat
  deriving DecidableEq

/-- `PreviewSession.__post_init__`. -/
structure PreviewRow.Valid (p : PreviewRow) : Prop where
  health : p.health = p.status.health
  active : p.status ∈ [PreviewStatus.ready, .stopping] → p.url.isSome
  inactive : p.status ∈ [PreviewStatus.created, .starting, .stopped, .failed] → p.url = none
  errorCode : p.errorCode.isSome = decide (p.status ∈ [PreviewStatus.failed, .interrupted])

structure PreviewSession extends PreviewRow where
  valid : toPreviewRow.Valid
  deriving DecidableEq

def requiredText (value fieldName : String) : Except RuntimeError String :=
  if Text.strip value = "" then throw (.valueError s!"{fieldName} is required")
  else return Text.strip value

namespace RuntimeSession

def create (id : Uuid) (scope : Scope) (kind : RuntimeKind) (executor idempotencyKey : String)
    (graph : RuntimeGraph) : RuntimeSession where
  toRuntimeRow :=
    { id, scope, kind, graph, executor, executorHandle := none, port := none, status := .created
      health := .unknown, errorCode := none, idempotencyKey, revision := 0 }
  valid := ⟨rfl, rfl, nofun, by simp, fun _ => rfl, rfl⟩

/-- `_transition`, and the assignments after it. -/
def move (r : RuntimeSession) (target : RuntimeStatus) (handle : Option String)
    (port : Option Nat) (errorCode : Option String)
    (valid : RuntimeRow.Valid { r.toRuntimeRow with
      executorHandle := handle, port, status := target, health := target.health, errorCode
      revision := r.revision + 1 }) : Except RuntimeError RuntimeSession :=
  if target ∈ r.status.transitions then
    return ⟨{ r.toRuntimeRow with
      executorHandle := handle, port, status := target, health := target.health, errorCode
      revision := r.revision + 1 }, valid⟩
  else throw (.invalidTransition
    s!"cannot transition Runtime from {r.status.value} to {target.value}")

def beginStart (r : RuntimeSession) : Except RuntimeError RuntimeSession :=
  r.move .starting none none none ⟨rfl, rfl, nofun, by simp, fun _ => rfl, rfl⟩

def markRunning (r : RuntimeSession) (executorHandle : String) (port : Nat) :
    Except RuntimeError RuntimeSession := do
  let handle ← requiredText executorHandle "executor_handle"
  if hport : 1 ≤ port ∧ port ≤ 65535 then
    r.move .running (some handle) (some port) none
      ⟨rfl, rfl, by simpa using hport, fun _ => rfl, by simp, rfl⟩
  else throw (.valueError "port must be between 1 and 65535")

def beginStop (r : RuntimeSession) : Except RuntimeError RuntimeSession :=
  if h : r.executorHandle.isSome ∧ r.port.isSome then
    r.move .stopping r.executorHandle r.port none
      ⟨rfl, r.valid.paired, r.valid.port, fun _ => h.1, by simp, rfl⟩
  else throw (.invalidTransition "Runtime cannot stop without an executor handle")

def markStopped (r : RuntimeSession) : Except RuntimeError RuntimeSession :=
  r.move .stopped none none none ⟨rfl, rfl, nofun, by simp, fun _ => rfl, rfl⟩

def markFailed (r : RuntimeSession) (errorCode : String) : Except RuntimeError RuntimeSession := do
  let normalizedError ← requiredText errorCode "error_code"
  r.move .failed r.executorHandle r.port (some normalizedError)
    ⟨rfl, r.valid.paired, r.valid.port, by simp, by simp, rfl⟩

def markInterrupted (r : RuntimeSession) (errorCode : String) :
    Except RuntimeError RuntimeSession := do
  let normalizedError ← requiredText errorCode "error_code"
  r.move .interrupted r.executorHandle r.port (some normalizedError)
    ⟨rfl, r.valid.paired, r.valid.port, by simp, by simp, rfl⟩

end RuntimeSession

/-- `_validate_preview_url`: the normalized URL, if it is one for the execution target. -/
abbrev UrlRule := String → ExecutionTarget → Option String

namespace PreviewSession

def create (id : Uuid) (scope : Scope) (runtimeId : Uuid) (idempotencyKey : String) :
    PreviewSession where
  toPreviewRow :=
    { id, scope, runtimeId, url := none, status := .created, health := .unknown
      errorCode := none, idempotencyKey, revision := 0 }
  valid := ⟨rfl, by simp, fun _ => rfl, rfl⟩

/-- `_transition`, and the assignments after it. -/
def move (p : PreviewSession) (target : PreviewStatus) (url : Option String)
    (errorCode : Option String)
    (valid : PreviewRow.Valid { p.toPreviewRow with
      url, status := target, health := target.health, errorCode, revision := p.revision + 1 }) :
    Except RuntimeError PreviewSession :=
  if target ∈ p.status.transitions then
    return ⟨{ p.toPreviewRow with
      url, status := target, health := target.health, errorCode, revision := p.revision + 1 },
      valid⟩
  else throw (.invalidTransition
    s!"cannot transition Preview from {p.status.value} to {target.value}")

def beginStart (p : PreviewSession) : Except RuntimeError PreviewSession :=
  p.move .starting none none ⟨rfl, by simp, fun _ => rfl, rfl⟩

def markReady (x : UrlRule) (p : PreviewSession) (url : String) :
    Except RuntimeError PreviewSession :=
  match x url p.scope.executionTarget with
  | some normalized =>
    p.move .ready (some normalized) none ⟨rfl, fun _ => rfl, by simp, rfl⟩
  | none => throw (.valueError "Preview URL is invalid")

def beginStop (p : PreviewSession) : Except RuntimeError PreviewSession :=
  if h : p.url.isSome then
    p.move .stopping p.url none ⟨rfl, fun _ => h, by simp, rfl⟩
  else throw (.invalidTransition "Preview cannot stop without a URL")

def markStopped (p : PreviewSession) : Except RuntimeError PreviewSession :=
  p.move .stopped none none ⟨rfl, by simp, fun _ => rfl, rfl⟩

def markFailed (p : PreviewSession) (errorCode : String) : Except RuntimeError PreviewSession := do
  let normalizedError ← requiredText errorCode "error_code"
  p.move .failed none (some normalizedError) ⟨rfl, by simp, fun _ => rfl, rfl⟩

def markInterrupted (p : PreviewSession) (errorCode : String) :
    Except RuntimeError PreviewSession := do
  let normalizedError ← requiredText errorCode "error_code"
  p.move .interrupted p.url (some normalizedError) ⟨rfl, by simp, by simp, rfl⟩

end PreviewSession

/-- The two state machines are the same, up to the name of one phase. -/
theorem mem_transitions_runtime {s t : PreviewStatus} :
    t.runtime ∈ s.runtime.transitions ↔ t ∈ s.transitions := by
  cases s <;> cases t <;> decide

theorem runtime_injective {s t : PreviewStatus} (h : s.runtime = t.runtime) : s = t := by
  cases s <;> cases t <;> first | rfl | cases h

/-- A Runtime and a Preview in matching phases, which have a handle and a URL together. -/
structure Coupled (p : PreviewSession) (r : RuntimeSession) : Prop where
  phase : r.status = p.status.runtime
  handle : p.url.isSome = r.executorHandle.isSome

/-- What a transition assigns, and keeps. -/
structure RuntimeSession.Moves (r r' : RuntimeSession) (target : RuntimeStatus) : Prop where
  allowed : target ∈ r.status.transitions
  status : r'.status = target
  id : r'.id = r.id
  key : r'.idempotencyKey = r.idempotencyKey
  revision : r'.revision = r.revision + 1

structure PreviewSession.Moves (p p' : PreviewSession) (target : PreviewStatus) : Prop where
  allowed : target ∈ p.status.transitions
  status : p'.status = target
  id : p'.id = p.id
  scope : p'.scope = p.scope
  runtimeId : p'.runtimeId = p.runtimeId
  key : p'.idempotencyKey = p.idempotencyKey
  revision : p'.revision = p.revision + 1

section Moves

variable {r r' : RuntimeSession} {p p' : PreviewSession}

theorem RuntimeSession.move_spec {target : RuntimeStatus} {handle : Option String}
    {port : Option Nat} {errorCode : Option String} {valid}
    (h : r.move target handle port errorCode valid = .ok r') :
    r.Moves r' target ∧ r'.executorHandle = handle := by
  simp only [RuntimeSession.move] at h
  split at h
  · rename_i hmem
    obtain rfl := pure_ok h
    exact ⟨⟨hmem, rfl, rfl, rfl, rfl⟩, rfl⟩
  · cases h

theorem PreviewSession.move_spec {target : PreviewStatus} {url errorCode : Option String} {valid}
    (h : p.move target url errorCode valid = .ok p') : p.Moves p' target ∧ p'.url = url := by
  simp only [PreviewSession.move] at h
  split at h
  · rename_i hmem
    obtain rfl := pure_ok h
    exact ⟨⟨hmem, rfl, rfl, rfl, rfl, rfl, rfl⟩, rfl⟩
  · cases h

theorem RuntimeSession.beginStart_spec (h : r.beginStart = .ok r') :
    r.Moves r' .starting ∧ r'.executorHandle = none := move_spec h

theorem PreviewSession.beginStart_spec (h : p.beginStart = .ok p') :
    p.Moves p' .starting ∧ p'.url = none := move_spec h

theorem RuntimeSession.markRunning_spec {handle : String} {port : Nat}
    (h : r.markRunning handle port = .ok r') :
    r.Moves r' .running ∧ r'.executorHandle.isSome := by
  obtain ⟨normalized, _, h⟩ := bind_ok h
  split at h
  · obtain ⟨hmoves, hhandle⟩ := move_spec h
    exact ⟨hmoves, by rw [hhandle]; rfl⟩
  · cases h

theorem PreviewSession.markReady_spec {x : UrlRule} {url : String}
    (h : p.markReady x url = .ok p') : p.Moves p' .ready ∧ p'.url.isSome := by
  simp only [PreviewSession.markReady] at h
  split at h
  · obtain ⟨hmoves, hurl⟩ := move_spec h
    exact ⟨hmoves, by rw [hurl]; rfl⟩
  · cases h

theorem RuntimeSession.beginStop_spec (h : r.beginStop = .ok r') :
    r.Moves r' .stopping ∧ r'.executorHandle = r.executorHandle := by
  simp only [RuntimeSession.beginStop] at h
  split at h
  · exact move_spec h
  · cases h

theorem PreviewSession.beginStop_spec (h : p.beginStop = .ok p') :
    p.Moves p' .stopping ∧ p'.url = p.url := by
  simp only [PreviewSession.beginStop] at h
  split at h
  · exact move_spec h
  · cases h

theorem RuntimeSession.markStopped_spec (h : r.markStopped = .ok r') :
    r.Moves r' .stopped ∧ r'.executorHandle = none := move_spec h

theorem PreviewSession.markStopped_spec (h : p.markStopped = .ok p') :
    p.Moves p' .stopped ∧ p'.url = none := move_spec h

theorem RuntimeSession.markFailed_spec {errorCode : String}
    (h : r.markFailed errorCode = .ok r') :
    r.Moves r' .failed ∧ r'.executorHandle = r.executorHandle := by
  obtain ⟨_, _, h⟩ := bind_ok h
  exact move_spec h

theorem PreviewSession.markFailed_spec {errorCode : String}
    (h : p.markFailed errorCode = .ok p') : p.Moves p' .failed ∧ p'.url = none := by
  obtain ⟨_, _, h⟩ := bind_ok h
  exact move_spec h

theorem RuntimeSession.markInterrupted_spec {errorCode : String}
    (h : r.markInterrupted errorCode = .ok r') :
    r.Moves r' .interrupted ∧ r'.executorHandle = r.executorHandle := by
  obtain ⟨_, _, h⟩ := bind_ok h
  exact move_spec h

theorem PreviewSession.markInterrupted_spec {errorCode : String}
    (h : p.markInterrupted errorCode = .ok p') : p.Moves p' .interrupted ∧ p'.url = p.url := by
  obtain ⟨_, _, h⟩ := bind_ok h
  exact move_spec h

end Moves

end Fairy.Preview
