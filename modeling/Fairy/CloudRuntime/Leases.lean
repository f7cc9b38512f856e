import Fairy.CloudRuntime.Models
import Fairy.Lib.Url

namespace Fairy.CloudRuntime

open Fairy.Lib
open Fairy.Commanding (Uuid Time)

def tenantIdLength : Nat := 128

def normalizeTenantId (value : String) : Except CloudRuntimeError String := do
  let normalized := Text.strip value
  if normalized = "" then throw (.valueError "tenant_id must not be empty")
  if normalized.length > tenantIdLength then
    throw (.valueError "tenant_id must not exceed 128 characters")
  return normalized

/-- The hash and the canonical `json.dumps` of a request. -/
structure RuntimeHashing extends Sha256 where
  encode : RuntimeStart → List UInt8

/-- `cloud_runtime_fingerprint`. -/
def RuntimeHashing.fingerprint (x : RuntimeHashing) (r : RuntimeStart) : String :=
  x.digest (x.encode r)

structure CloudRuntimeLease extends RuntimeScope, RuntimeProgram where
  tenantId : String
  requestFingerprint : String
  status : CloudRuntimeStatus
  internalUrl : Option String
  workerId : Option String
  leaseOwner : Option String
  leaseExpiresAt : Option Time
  leaseFence : Nat
  attempts : Nat
  expiresAt : Time
  errorCode : Option String
  createdAt : Time
  updatedAt : Time
  deriving DecidableEq

/-- What the URL of a running runtime has to be. -/
def isInternalEndpoint (runtimeId : Uuid) (url : String) : Bool :=
  let parsed := Url.urlsplit url
  parsed.scheme = "http".toList ∧ parsed.hostname = some "runtime".toList ∧
    parsed.port = some 8082 ∧ parsed.hasUserinfo = false ∧ parsed.query = [] ∧
    parsed.fragment = [] ∧ parsed.path = ("/internal/" ++ toString runtimeId ++ "/").toList

namespace CloudRuntimeLease

variable (l : CloudRuntimeLease)

/-- The check of a running lease. -/
def validateRunning : Except CloudRuntimeError Unit :=
  match l.internalUrl, l.workerId with
  | some url, some workerId =>
    if url = "" ∨ workerId = "" ∨ l.leaseFence < 1 then
      .error (.valueError "running Cloud Runtime requires a fenced internal endpoint")
    else if isInternalEndpoint l.runtimeId url then .ok ()
    else .error (.valueError "Cloud Runtime internal endpoint is invalid")
  | _, _ => .error (.valueError "running Cloud Runtime requires a fenced internal endpoint")

def validateErrorCode : Except CloudRuntimeError Unit :=
  if l.status ∈ [CloudRuntimeStatus.failed, .interrupted] then
    if l.errorCode.getD "" = "" then
      .error (.valueError "failed Cloud Runtime requires an error code")
    else .ok ()
  else if l.errorCode ≠ none then
    .error (.valueError "healthy Cloud Runtime cannot carry an error code")
  else .ok ()

/-- `__post_init__`. -/
def validate : Except CloudRuntimeError CloudRuntimeLease := do
  let tenantId ← normalizeTenantId l.tenantId
  if ¬ isDigest l.scopeDigest then throw (.valueError "Cloud Runtime scope_digest is invalid")
  if ¬ isDigest l.requestFingerprint then
    throw (.valueError "Cloud Runtime request_fingerprint is invalid")
  if ¬ isDigest l.dependencyKey then throw (.valueError "Cloud Runtime dependency_key is invalid")
  if ¬ isDigest l.archiveSha256 then throw (.valueError "Cloud Runtime archive_sha256 is invalid")
  if l.workspaceGeneration < 1 ∨ l.requestLeaseFence < 1 then
    throw (.valueError "Cloud Runtime request fence is invalid")
  if l.expiresAt ≤ l.createdAt then throw (.valueError "Cloud Runtime timestamps are invalid")
  if (l.leaseOwner = none) ≠ (l.leaseExpiresAt = none) then
    throw (.valueError "Cloud Runtime worker lease fields must be present together")
  if l.status = .running then l.validateRunning
  if l.status ∈ [CloudRuntimeStatus.queued, .stopped] ∧ l.internalUrl ≠ none then
    throw (.valueError "inactive Cloud Runtime cannot expose an internal endpoint")
  l.validateErrorCode
  return { l with tenantId }

/-- `CloudRuntimeLease.create`, with its defaults. -/
def create (x : RuntimeHashing) (tenantId : String) (request : RuntimeStart)
    (expiresAt now : Time) : Except CloudRuntimeError CloudRuntimeLease :=
  validate {
    toRuntimeScope := request.toRuntimeScope
    toRuntimeProgram := request.toRuntimeProgram
    tenantId, requestFingerprint := x.fingerprint request
    status := .queued, internalUrl := none, workerId := none, leaseOwner := none
    leaseExpiresAt := none, leaseFence := 0, attempts := 0, expiresAt, errorCode := none
    createdAt := now, updatedAt := now }

def toRequest : RuntimeStart where
  toRuntimeScope := l.toRuntimeScope
  toRuntimeProgram := l.toRuntimeProgram
  executionTarget := "cloud"
  kind := .cloudOci

end CloudRuntimeLease

/-- A row of `runtime_leases`. -/
structure LeaseRow extends CloudRuntimeLease where
  archiveByteLength : Nat
  deriving DecidableEq

/-- The primary key of `runtime_leases`. -/
def LeaseRow.key (row : LeaseRow) : String × Uuid := (row.tenantId, row.runtimeId)

/-- `str(value) if value else None`. -/
def textOrNone : Option String → Option String
  | some "" | none => none
  | some text => some text

/-- `_lease_from_row`. -/
def leaseFromRow (x : Sha256) (row : LeaseRow) : Except CloudRuntimeError CloudRuntimeLease := do
  row.services.forM RuntimeServiceStart.validate
  let lease ← { row.toCloudRuntimeLease with
    internalUrl := textOrNone row.internalUrl
    workerId := textOrNone row.workerId
    leaseOwner := textOrNone row.leaseOwner
    errorCode := textOrNone row.errorCode }.validate
  if row.archiveByteLength ≠ lease.workspaceArchive.length then
    throw (.valueError "Cloud Runtime archive length does not match")
  lease.toRequest.validate x
  if lease.toRequest.archiveSha256 ≠ lease.archiveSha256 then
    throw (.valueError "Cloud Runtime archive hash does not match")
  return lease

structure CloudRuntimeClaim where
  lease : CloudRuntimeLease
  action : CloudRuntimeClaimAction
  deriving DecidableEq

/-- `CloudRuntimeClaim.__post_init__`. -/
def CloudRuntimeClaim.validate (claim : CloudRuntimeClaim) :
    Except CloudRuntimeError CloudRuntimeClaim :=
  if claim.lease.leaseOwner.getD "" = "" ∨ claim.lease.leaseExpiresAt = none ∨
      claim.lease.leaseFence < 1 then
    .error (.valueError "Cloud Runtime claim requires a fenced worker lease")
  else .ok claim

/-- The gateway of the runtime service. -/
def gatewayBaseUrl : String := "http://runtime:8082"

/-- The URL that `mark_running` stores. -/
def internalUrl (runtimeId : Uuid) : String :=
  gatewayBaseUrl ++ "/internal/" ++ toString runtimeId ++ "/"

section Sound

/-- What the operations keep of a row, column by column. -/
structure LeaseRow.Sound (x : Sha256) (row : LeaseRow) : Prop where
  tenant : normalizeTenantId row.tenantId = .ok row.tenantId
  fingerprint : isDigest row.requestFingerprint = true
  request : row.toRequest.validate x = .ok ()
  archive : row.archiveByteLength = row.workspaceArchive.length
  lifetime : row.createdAt < row.expiresAt
  owner : row.leaseOwner = none ↔ row.leaseExpiresAt = none
  ownerText : row.leaseOwner ≠ some ""
  fenced : row.leaseOwner ≠ none → 1 ≤ row.leaseFence
  idle : row.status ∉ [CloudRuntimeStatus.starting, .running, .stopping] → row.leaseOwner = none
  endpoint : row.internalUrl =
    if row.status = .running then some (internalUrl row.runtimeId) else none
  worker : row.workerId ≠ some ""
  running : row.status = .running → row.workerId ≠ none
  started : row.status ∈ [CloudRuntimeStatus.starting, .running] → 1 ≤ row.leaseFence
  error : row.errorCode ≠ some "" ∧
    (row.errorCode = none ↔ row.status ∉ [CloudRuntimeStatus.failed, .interrupted])

/-- Neither a query nor a fragment starts at the character, and it is printable. -/
def IsPathChar (c : Char) : Prop := c ∉ ['?', '#'] ∧ 32 < c.toNat

instance (c : Char) : Decidable (IsPathChar c) :=
  inferInstanceAs (Decidable (c ∉ ['?', '#'] ∧ 32 < c.toNat))

theorem isPathChar_of_mem {text : List Char} {c : Char}
    (h : text.all fun c => IsPathChar c) (hc : c ∈ text) : IsPathChar c :=
  of_decide_eq_true (List.all_eq_true.mp h c hc)

theorem isInternalEndpoint_internalUrl (runtimeId : Uuid) :
    isInternalEndpoint runtimeId (internalUrl runtimeId) = true := by
  have hdigit : ∀ c ∈ Nat.toDigits 10 runtimeId, c.isDigit = true :=
    fun c hc => Nat.isDigit_of_mem_toDigits (by decide) (by decide) hc
  have hurl : internalUrl runtimeId = String.ofList ('h' :: "ttp".toList ++ ':' :: '/' :: '/' ::
      ("runtime:8082".toList ++
        '/' :: ("internal/".toList ++ Nat.toDigits 10 runtimeId ++ ['/']))) := by
    apply String.toList_inj.mp
    simp [internalUrl, gatewayBaseUrl, String.toList_append]
  have hpath : ∀ c ∈ "internal/".toList ++ Nat.toDigits 10 runtimeId ++ ['/'],
      IsPathChar c := by
    intro c hc
    simp only [List.mem_append] at hc
    obtain (hc | hc) | hc := hc
    · exact isPathChar_of_mem (by decide) hc
    · have := hdigit c hc
      simp only [Char.isDigit, Bool.and_eq_true, decide_eq_true_eq, ge_iff_le,
        UInt32.le_iff_toNat_le] at this
      have hmin : 48 ≤ c.toNat := this.1
      refine ⟨?_, by omega⟩
      simp only [List.mem_cons, List.not_mem_nil, or_false, not_or]
      refine ⟨?_, ?_⟩
      · rintro rfl
        exact absurd this.2 (by decide)
      · rintro rfl
        exact absurd hmin (by decide)
    · exact isPathChar_of_mem (by decide) hc
  have hprintable : ∀ c ∈ 'h' :: "ttp".toList ++ ':' :: '/' :: '/' :: ("runtime:8082".toList ++
      '/' :: ("internal/".toList ++ Nat.toDigits 10 runtimeId ++ ['/'])), 32 < c.toNat := by
    intro c hc
    have hparts : c ∈ "http://runtime:8082/".toList ++
        ("internal/".toList ++ Nat.toDigits 10 runtimeId ++ ['/']) := hc
    clear hc
    obtain hc | hc := List.mem_append.mp hparts
    · exact (isPathChar_of_mem (by decide) hc).2
    · exact (hpath c hc).2
  have hscheme : ('h' :: "ttp".toList).all fun c =>
      Url.isSchemeChar c = true ∧ c ≠ ':' ∧ c.toLower = c := by decide
  have hnetloc : "runtime:8082".toList.all fun c => c ∉ ['/', '?', '#'] := by decide
  have hsplit := Url.urlsplit_eq (by decide)
    (fun c hc => of_decide_eq_true (List.all_eq_true.mp hscheme c hc))
    (fun c hc => of_decide_eq_true (List.all_eq_true.mp hnetloc c hc))
    (fun c hc => (hpath c hc).1) hprintable
  simp only [isInternalEndpoint, hurl, hsplit]
  refine decide_eq_true ⟨rfl, rfl, rfl, rfl, trivial, trivial, ?_⟩
  simp [String.toList_append]

theorem textOrNone_eq_self {value : Option String} (h : value ≠ some "") :
    textOrNone value = value := by
  match value with
  | none => rfl
  | some text =>
    unfold textOrNone
    split
    · rename_i heq
      exact absurd heq h
    · rename_i heq
      cases heq
    · rename_i heq
      exact heq.symm

end Sound

end Fairy.CloudRuntime
