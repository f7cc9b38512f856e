import Fairy.Commanding.Models
import Fairy.Lib.Fallible

namespace Fairy.CloudRuntime

open Fairy.Lib
open Fairy.Commanding (Uuid Time)

inductive CloudRuntimeError
  | valueError (message : String)
  | keyError (message : String)
  | workerFence (message : String)
  | idempotencyConflict (message : String)
  | integrityError (constraint : String)
  | runtimeError (message : String)
  deriving DecidableEq

inductive RuntimeKind
  | staticSite | wslProject | cloudOci
  deriving DecidableEq

inductive CloudRuntimeStatus
  | queued | starting | running | stopping | stopped | failed | interrupted
  deriving DecidableEq

inductive CloudRuntimeClaimAction
  | start | recover | stop
  deriving DecidableEq

/-- `^[0-9a-f]{64}$`. -/
def isDigest (s : String) : Bool :=
  s.toList.length = 64 ∧ s.toList.all fun c => c.isDigit ∨ 'a' ≤ c ∧ c ≤ 'f'

/-- `hashlib.sha256` in hexadecimal. -/
structure Sha256 where
  digest : List UInt8 → String
  hex : ∀ bytes, isDigest (digest bytes) = true

section Text

/-- `^[a-z][a-z0-9-]{0,31}$`. -/
def isServiceId (s : String) : Bool :=
  match s.toList with
  | [] => false
  | c :: rest =>
    c.isLower ∧ rest.length ≤ 31 ∧ rest.all fun d => d.isLower ∨ d.isDigit ∨ d = '-'

/-- `^/(?:[A-Za-z0-9._~-]+/)*[A-Za-z0-9._~-]*$`, without a part that is `..`. -/
def isReadinessPath (s : String) : Bool :=
  match s.toList with
  | '/' :: rest =>
    let parts := rest.splitOn '/'
    (rest.all fun c => c.isAlphanum ∨ c ∈ ['.', '_', '~', '-', '/']) ∧ [] ∉ parts.dropLast ∧
      ['.', '.'] ∉ parts
  | _ => false

/-- A directory below the root of a workspace. -/
def isRelativeDirectory (s : String) : Bool :=
  s = "." ∨ (s.toList.head? ≠ some '/' ∧ '\\' ∉ s.toList ∧
    ∀ part ∈ s.toList.splitOn '/', part ∉ [[], ['.'], ['.', '.']])

/-- How often the token of the port stands in an argument. -/
def portTokens (argument : String) : Nat :=
  argument.toList.tails.countP fun rest => "\x7bport\x7d".toList.isPrefixOf rest

def expectedTokens (adapter : String) : Nat := if adapter = "node_http" then 0 else 1

end Text

structure RuntimeServiceStart where
  serviceId : String
  adapter : String
  argv : List String
  cwd : String
  readinessPath : String
  startupTimeoutSeconds : Nat
  dependsOn : List String
  deriving DecidableEq

def RuntimeServiceStart.validate (service : RuntimeServiceStart) :
    Except CloudRuntimeError Unit := do
  if ¬ isServiceId service.serviceId then throw (.valueError "Runtime service_id is invalid")
  if service.adapter ∉ ["vite", "next", "astro", "python_asgi", "node_http"] then
    throw (.valueError "Runtime service adapter is invalid")
  if ¬ isRelativeDirectory service.cwd then throw (.valueError "Runtime service cwd is invalid")
  if ¬ isReadinessPath service.readinessPath then
    throw (.valueError "Runtime service readiness_path is invalid")
  if ¬ (1 ≤ service.startupTimeoutSeconds ∧ service.startupTimeoutSeconds ≤ 120) then
    throw (.valueError "Runtime service startup timeout is invalid")
  if service.argv = [] ∨ "" ∈ service.argv then
    throw (.valueError "Runtime service argv is invalid")
  if (service.argv.map portTokens).sum ≠ expectedTokens service.adapter then
    throw (.valueError "Runtime service port binding is invalid")
  if service.adapter ≠ "node_http" ∧ "127.0.0.1" ∉ service.argv then
    throw (.valueError "Runtime service must bind exact IPv4 loopback")
  if ¬ service.dependsOn.Nodup ∨ service.serviceId ∈ service.dependsOn then
    throw (.valueError "Runtime service dependencies are invalid")

/-- What a runtime belongs to; `_validate_retry` calls it the immutable binding, together with the
tenant. -/
structure RuntimeScope where
  runtimeId : Uuid
  previewId : Uuid
  projectId : Option Uuid
  workspaceId : Uuid
  conversationId : Uuid
  taskId : Uuid
  versionId : Uuid
  scopeDigest : String
  deriving DecidableEq

/-- What is to be started. -/
structure RuntimeProgram where
  workspaceGeneration : Nat
  requestLeaseFence : Nat
  adapter : String
  argv : List String
  cwd : String
  readinessPath : String
  startupTimeoutSeconds : Nat
  dependencyKey : String
  services : List RuntimeServiceStart
  publicServiceId : String
  workspaceArchive : List UInt8
  archiveSha256 : String
  deriving DecidableEq

/-- The fields of a `DynamicRuntimeStart`, with its default workspace and service filled in. -/
structure RuntimeStart extends RuntimeScope, RuntimeProgram where
  executionTarget : String
  kind : RuntimeKind
  deriving DecidableEq

section Graph

variable (dependencies : String → List String)

/-- `visit` of `_validate_service_graph`: the services visited, or none on a cycle. The walk is no
deeper than there are services. -/
def visitService : Nat → List String → List String → String → Option (List String)
  | 0, _, _, _ => none
  | fuel + 1, visiting, visited, id =>
    if id ∈ visiting then none
    else if id ∈ visited then some visited
    else
      ((dependencies id).foldlM (visitService fuel (id :: visiting)) visited).map (id :: ·)

end Graph

def validateServiceGraph (services : List RuntimeServiceStart) : Except CloudRuntimeError Unit :=
  let dependencies (id : String) : List String :=
    ((services.find? fun service => service.serviceId = id).map (·.dependsOn)).getD []
  match (services.map (·.serviceId)).foldlM
    (visitService dependencies (services.length + 1) []) [] with
  | some _ => .ok ()
  | none => .error (.valueError "dynamic Runtime service graph contains a cycle")

def maxWorkspaceArchiveBytes : Nat := 128 * 1024 * 1024

/-- The checks of `DynamicRuntimeStart` that read its scope, its target and its services. -/
def RuntimeStart.validateServices (r : RuntimeStart) : Except CloudRuntimeError Unit := do
  r.services.forM RuntimeServiceStart.validate
  if r.executionTarget ∉ ["local", "cloud"] then
    throw (.valueError "dynamic Runtime execution_target is invalid")
  if r.kind ≠ (if r.executionTarget = "local" then .wslProject else .cloudOci) then
    throw (.valueError "dynamic Runtime kind does not match execution_target")
  if Text.strip r.adapter = "" then throw (.valueError "dynamic Runtime adapter is required")
  if ¬ (1 ≤ r.services.length ∧ r.services.length ≤ 8) then
    throw (.valueError "dynamic Runtime requires between one and eight services")
  if ¬ (r.services.map (·.serviceId)).Nodup ∨
      r.publicServiceId ∉ r.services.map (·.serviceId) then
    throw (.valueError "dynamic Runtime public service is invalid")
  if ∃ service ∈ r.services, ∃ id ∈ service.dependsOn, id ∉ r.services.map (·.serviceId) then
    throw (.valueError "dynamic Runtime service dependency is unknown")
  validateServiceGraph r.services
  if r.services.any fun service => service.serviceId = r.publicServiceId ∧
      (r.adapter, r.argv, r.cwd, r.readinessPath, r.startupTimeoutSeconds) ≠
        (service.adapter, service.argv, service.cwd, service.readinessPath,
          service.startupTimeoutSeconds) then
    throw (.valueError "dynamic Runtime public service metadata changed")

/-- `DynamicRuntimeStart.__post_init__`. -/
def RuntimeStart.validate (x : Sha256) (r : RuntimeStart) : Except CloudRuntimeError Unit := do
  r.validateServices
  if ¬ isDigest r.scopeDigest then throw (.valueError "dynamic Runtime scope_digest is invalid")
  if ¬ isDigest r.dependencyKey then
    throw (.valueError "dynamic Runtime dependency_key is invalid")
  if r.workspaceGeneration < 1 then
    throw (.valueError "dynamic Runtime workspace_generation is invalid")
  if r.requestLeaseFence < 1 then throw (.valueError "dynamic Runtime lease_fence is invalid")
  if ¬ isRelativeDirectory r.cwd then throw (.valueError "dynamic Runtime cwd is invalid")
  if ¬ isReadinessPath r.readinessPath then
    throw (.valueError "dynamic Runtime readiness_path is invalid")
  if ¬ (1 ≤ r.startupTimeoutSeconds ∧ r.startupTimeoutSeconds ≤ 120) then
    throw (.valueError "dynamic Runtime startup timeout is invalid")
  if r.argv = [] ∨ "" ∈ r.argv then throw (.valueError "dynamic Runtime argv is invalid")
  if (r.argv.map portTokens).sum ≠ expectedTokens r.adapter then
    throw (.valueError "dynamic Runtime argv has invalid Core port binding")
  if r.adapter ≠ "node_http" ∧ "127.0.0.1" ∉ r.argv then
    throw (.valueError "dynamic Runtime must bind exact IPv4 loopback")
  if r.workspaceArchive = [] ∨ maxWorkspaceArchiveBytes < r.workspaceArchive.length then
    throw (.valueError "dynamic Runtime workspace archive is invalid")
  if ¬ isDigest r.archiveSha256 ∨ r.archiveSha256 ≠ x.digest r.workspaceArchive then
    throw (.valueError "dynamic Runtime workspace archive digest is invalid")

/-- A `DynamicRuntimeStart` that could be built. -/
structure DynamicRuntimeStart (x : Sha256) extends RuntimeStart where
  valid : toRuntimeStart.validate x = .ok ()

end Fairy.CloudRuntime
