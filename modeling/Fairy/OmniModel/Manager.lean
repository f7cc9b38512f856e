import Fairy.Lib.Effect

namespace Fairy.OmniModel

open Fairy.Lib

/-- `OmniModelInstallPhase`; `incomplete` is its `Partial`, which is a keyword here. -/
inductive Phase
  | notInstalled | checkingSpace | downloading | cancelling | incomplete | verifying | layoutCheck
  | runtimeSelfTest | ready | corrupt | runtimeMissing | selfTestFailed
  deriving DecidableEq

def Phase.isActive : Phase → Bool
  | checkingSpace | downloading | cancelling | verifying | layoutCheck | runtimeSelfTest => true
  | notInstalled | incomplete | ready | corrupt | runtimeMissing | selfTestFailed => false

/-- `OmniModelInstallState`, without what the manifest fixes. -/
structure InstallState where
  sequence : Nat
  phase : Phase
  currentFile : Option String
  receivedBytes : Nat
  totalBytes : Nat
  errorCode : Option String
  deriving DecidableEq

structure ModelFile where
  path : String
  size : Nat
  deriving DecidableEq

/-- `u64::MAX`. -/
def maxU64 : Nat := 18446744073709551615

/-- `MAX_TOTAL_SIZE`. -/
def maxTotalSize : Nat := 20 * 1024 * 1024 * 1024

def totalSize (files : List ModelFile) : Nat := files.foldl (fun total file => total + file.size) 0

/-- The files of a manifest that `validate` has accepted. -/
structure Manifest where
  files : List ModelFile
  small : totalSize files ≤ maxTotalSize

inductive DownloadError
  | urlNotAllowed | client | invalidResponse | invalidRange | sizeExceeded | cancelled
  | progressState | io
  deriving DecidableEq

inductive ManagerError
  | busy
  | notActive
  | cancelled
  | insufficientDisk (requiredBytes availableBytes : Nat)
  | verification (code : String)
  | manifest
  | store
  | io
  | download (error : DownloadError)
  deriving DecidableEq

/-- `verification_error_code`. -/
def verificationErrorCode : ManagerError → String
  | .verification code => code
  | .manifest => "MODEL_MANIFEST_INVALID"
  | .store => "MODEL_STORE_FAILED"
  | .io => "MODEL_IO_FAILED"
  | .download .urlNotAllowed => "MODEL_DOWNLOAD_URL_DENIED"
  | .download .client => "MODEL_DOWNLOAD_NETWORK_FAILED"
  | .download .invalidResponse => "MODEL_DOWNLOAD_INVALID_RESPONSE"
  | .download .invalidRange => "MODEL_DOWNLOAD_INVALID_RANGE"
  | .download .sizeExceeded => "MODEL_DOWNLOAD_SIZE_EXCEEDED"
  | .download .cancelled => "MODEL_DOWNLOAD_CANCELLED"
  | .download .progressState => "MODEL_PROGRESS_STATE_FAILED"
  | .download .io => "MODEL_DOWNLOAD_IO_FAILED"
  | .cancelled => "MODEL_VERIFICATION_CANCELLED"
  | .insufficientDisk .. => "MODEL_DISK_INSUFFICIENT"
  | .busy => "MODEL_OPERATION_BUSY"
  | .notActive => "MODEL_OPERATION_NOT_ACTIVE"

/-- `download_error_is_corrupt`. -/
def downloadErrorIsCorrupt : DownloadError → Bool
  | .urlNotAllowed | .invalidResponse | .invalidRange | .sizeExceeded => true
  | .client | .cancelled | .progressState | .io => false

inductive ActiveOperation
  | install | verify | runtimeSelfTest
  deriving DecidableEq

/-- The calls of the store and of the file system, by the place that they are made from. -/
inductive Site
  -- `begin_install`
  | spacePartialBytes | checkingSpace | requiredDiskBytes | diskInsufficient | prepareStaging
  | installPartialBytes | downloading
  -- `begin_verify`
  | beginVerify
  -- `update_download_progress`
  | progress
  -- `download_and_install`
  | artifactPath | artifactExists | artifactVerify | artifactMetadata | artifactRemove | partialPath
  | partialVerify | finalize
  -- `fail_download` and `settle_operation_error`
  | failedPartialBytes | failed | settledPartialBytes | settled
  -- `request_cancel` and `finish_cancel`
  | requestCancel | cancelPartialBytes | cancelled
  -- `verify_staging_and_promote`
  | stagingTree | stagedManifestExists | stagedManifestMetadata | stagedManifestRemove | layoutCheck
  | writeStagedManifest | stagingLayout | promote
  -- `verify_directory`
  | directoryTree | directoryMissing | verifying | verifyFile | verified | directoryLayout
  -- how an installation and a verification end
  | storedManifest | installed | verificationPartialBytes | verificationCancelled
  | verificationFailed
  -- `begin_runtime_self_test` and `finish_runtime_self_test`
  | beginSelfTest | selfTestReady | selfTestFailed
  -- `remove`
  | removeVersion | removeStaging | notInstalled
  deriving DecidableEq

/-- What the calls answer, by their number: the error that one raises or what it returns, whether
the token has been cancelled, and the reports and the error of a transfer. -/
structure Env where
  fails : Site → Nat → Option ManagerError
  value : Site → Nat → Nat
  cancels : Nat → Bool
  transfer : Nat → List Nat × Option DownloadError

/-- A manager, with the state that its store holds and the number of calls made. -/
structure World where
  state : InstallState
  active : Option ActiveOperation
  cancelled : Bool
  stored : InstallState
  calls : Nat

abbrev Manage (α : Type) := Effect ManagerError World α

section Operations

variable (env : Env) (manifest : Manifest)

def here : Manage World := effect fun w => (.ok w, w)

def update (f : World → World) : Manage Unit := effect fun w => (.ok (), f w)

/-- A call that can fail. -/
def ask (site : Site) : Manage Nat := effect fun w =>
  (match env.fails site w.calls with
    | some error => .error error
    | none => .ok (env.value site w.calls), { w with calls := w.calls + 1 })

/-- A question that cannot fail, such as `Path::exists`. -/
def flag (site : Site) : Manage Bool := effect fun w =>
  (.ok (env.value site w.calls ≠ 0), { w with calls := w.calls + 1 })

/-- `OmniCancellationToken::is_cancelled`; the token is shared. -/
def isCancelled : Manage Bool := effect fun w =>
  (.ok (w.cancelled || env.cancels w.calls), { w with
    cancelled := w.cancelled || env.cancels w.calls
    calls := w.calls + 1 })

/-- `transition`, whose `write_state` is the call of the site. -/
def transition (site : Site) (phase : Phase) (currentFile errorCode : Option String)
    (receivedBytes : Nat) : Manage Unit := do
  let w ← here
  if maxU64 < w.state.sequence + 1 then throw (.verification "MODEL_SEQUENCE_OVERFLOW")
  update fun w => { w with state := { w.state with
    sequence := w.state.sequence + 1, phase, currentFile, errorCode
    receivedBytes := min receivedBytes w.state.totalBytes } }
  let _ ← ask env site
  update fun w => { w with stored := w.state }

def requireIdle : Manage Unit := do
  let w ← here
  if w.active.isSome ∨ w.state.phase.isActive then throw .busy

def requireActive (operation : ActiveOperation) : Manage Unit := do
  let w ← here
  if w.active ≠ some operation then throw .notActive

def requireSomeActive : Manage Unit := do
  let w ← here
  if w.active.isNone then throw .notActive

/-- `self.active = None`. -/
def release : Manage Unit := update fun w => { w with active := none }

/-- A new token and the operation that it is for. -/
def occupy (operation : ActiveOperation) : Manage Unit :=
  update fun w => { w with cancelled := false, active := some operation }

def temporaryAllowance : Nat := 2 * 1024 * 1024 * 1024

def postInstallFreeSpace : Nat := 5 * 1024 * 1024 * 1024

def requiredDiskBytes : Manage Nat := do
  let received ← ask env .requiredDiskBytes
  let required := totalSize manifest.files - received + temporaryAllowance + postInstallFreeSpace
  if maxU64 < required then throw (.verification "MODEL_SIZE_OVERFLOW")
  return required

def beginInstall (diskAvailableBytes : Nat) : Manage Unit := do
  requireIdle
  let received ← ask env .spacePartialBytes
  transition env .checkingSpace .checkingSpace none none received
  let required ← requiredDiskBytes env manifest
  if diskAvailableBytes < required then
    let w ← here
    transition env .diskInsufficient .incomplete none (some "MODEL_DISK_INSUFFICIENT")
      w.state.receivedBytes
    throw (.insufficientDisk required diskAvailableBytes)
  let _ ← ask env .prepareStaging
  occupy .install
  let received ← ask env .installPartialBytes
  transition env .downloading .downloading none none received

def beginVerify : Manage Unit := do
  requireIdle
  occupy .verify
  let w ← here
  transition env .beginVerify .verifying none none w.state.receivedBytes

def updateDownloadProgress (file : ModelFile) (receivedBytes : Nat) : Manage Unit := do
  requireActive .install
  if totalSize manifest.files < receivedBytes then
    throw (.verification "MODEL_PROGRESS_OVERFLOW")
  transition env .progress .downloading (some file.path) none receivedBytes

/-- `fail_download`. -/
def failDownload {α : Type} (error : ManagerError) (phase : Phase) : Manage α := do
  release
  let received ← ask env .failedPartialBytes
  transition env .failed phase none (some (verificationErrorCode error)) received
  throw error

def finishCancel : Manage Unit := do
  requireSomeActive
  release
  let received ← ask env .cancelPartialBytes
  transition env .cancelled .incomplete none (some "MODEL_DOWNLOAD_CANCELLED") received

/-- `transfer.download`: its reports and how it ends; a report that fails ends it. -/
def download (completed : Nat) (file : ModelFile) : Manage Unit := do
  let w ← here
  update fun w => { w with calls := w.calls + 1 }
  (env.transfer w.calls).1.forM fun received =>
    catching (fun _ => throw (.download .progressState))
      (updateDownloadProgress env manifest file (min maxU64 (completed + received)))
  match (env.transfer w.calls).2 with
  | some error => throw (.download error)
  | none => return

def failedDownloadPhase : ManagerError → Phase
  | .download error => if downloadErrorIsCorrupt error then .corrupt else .incomplete
  | _ => .incomplete

/-- What is done with an artifact that is there: whether it is kept. -/
def keepArtifact : Manage Bool := do
  match ← attempt (ask env .artifactVerify) with
  | .ok _ => return true
  | .error (.verification _) =>
    let metadata ← ask env .artifactMetadata
    -- a symbolic link, or no file
    if metadata ≠ 0 then failDownload env (.verification "MODEL_ARTIFACT_UNSAFE") .corrupt
    let _ ← ask env .artifactRemove
    return false
  | .error error => throw error

def reuseArtifact : Manage Bool := do
  let found ← flag env .artifactExists
  if found then keepArtifact env else return false

def fetchFile (completed : Nat) (file : ModelFile) : Manage Nat := do
  let _ ← ask env .partialPath
  catching (fun error => failDownload env error (failedDownloadPhase error))
    (download env manifest completed file)
  let _ ← catching (fun error => failDownload env error .corrupt) (ask env .partialVerify)
  let _ ← ask env .finalize
  if maxU64 < completed + file.size then throw (.verification "MODEL_SIZE_OVERFLOW")
  updateDownloadProgress env manifest file (completed + file.size)
  return completed + file.size

/-- One round of the loop over the files, with the bytes completed before and after it. -/
def installFile (completed : Nat) (file : ModelFile) : Manage Nat := do
  if ← isCancelled env then
    finishCancel env
    throw .cancelled
  let _ ← ask env .artifactPath
  let kept ← reuseArtifact env
  if kept then
    updateDownloadProgress env manifest file (min maxU64 (completed + file.size))
    return min maxU64 (completed + file.size)
  else fetchFile env manifest completed file

def checkCancelled : Manage Unit := do
  if ← isCancelled env then throw .cancelled

/-- `verify_layout`. -/
def verifyLayout (site : Site) : Manage Unit := do
  let unexpected ← ask env site
  if unexpected ≠ 0 then throw (.verification "MODEL_LAYOUT_UNEXPECTED")

def verifyDirectory : Manage Unit := do
  let _ ← ask env .directoryTree
  let isMissing ← flag env .directoryMissing
  if isMissing then throw (.verification "MODEL_LAYOUT_MISSING")
  let w ← here
  transition env .verifying .verifying none none w.state.receivedBytes
  let _ ← manifest.files.foldlM (fun verified file => do
    checkCancelled env
    let _ ← ask env .verifyFile
    if maxU64 < verified + file.size then throw (.verification "MODEL_SIZE_OVERFLOW")
    transition env .verified .verifying (some file.path) none (verified + file.size)
    return verified + file.size) 0
  verifyLayout env .directoryLayout

/-- What `verify_staging_and_promote` does before it releases the operation. -/
def promoteStaging : Manage Unit := do
  let _ ← ask env .stagingTree
  let found ← flag env .stagedManifestExists
  if found then
    let metadata ← ask env .stagedManifestMetadata
    if metadata ≠ 0 then throw (.verification "MODEL_MANIFEST_UNSAFE")
    let _ ← ask env .stagedManifestRemove
  verifyDirectory env manifest
  transition env .layoutCheck .layoutCheck none none (totalSize manifest.files)
  let _ ← ask env .writeStagedManifest
  verifyLayout env .stagingLayout
  let _ ← ask env .promote

def verifyStagingAndPromote : Manage Unit := do
  requireActive .install
  let result ← attempt (promoteStaging env manifest)
  release
  match result with
  | .ok _ =>
    transition env .installed .runtimeMissing none (some "OMNI_RUNTIME_MISSING")
      (totalSize manifest.files)
  | .error .cancelled =>
    let received ← ask env .verificationPartialBytes
    transition env .verificationCancelled .incomplete none (some "MODEL_VERIFICATION_CANCELLED")
      received
    throw .cancelled
  | .error error =>
    transition env .verificationFailed .corrupt none (some (verificationErrorCode error)) 0
    throw error

/-- `download_and_install_active`. -/
def installActive : Manage Unit := do
  let _ ← manifest.files.foldlM (installFile env manifest) 0
  verifyStagingAndPromote env manifest

def settledPhase : ManagerError → Phase
  | .cancelled | .insufficientDisk .. | .io | .download .client | .download .cancelled
  | .download .progressState | .download .io => .incomplete
  | _ => .corrupt

def settleOperationError (error : ManagerError) : Manage Unit := do
  let w ← here
  if w.active.isNone then return
  release
  let received ← ask env .settledPartialBytes
  transition env .settled (settledPhase error) none (some (verificationErrorCode error)) received

def downloadAndInstall : Manage Unit := do
  requireActive .install
  match ← attempt (installActive env manifest) with
  | .ok _ => return
  | .error error =>
    settleOperationError env error
    throw error

def requestCancel : Manage Unit := do
  requireSomeActive
  update fun w => { w with cancelled := true }
  let w ← here
  transition env .requestCancel .cancelling w.state.currentFile none w.state.receivedBytes

/-- What `verify_installed` does before it releases the operation. -/
def verifyVersion : Manage Unit := do
  verifyDirectory env manifest
  let mismatch ← ask env .storedManifest
  if mismatch ≠ 0 then throw (.verification "MODEL_MANIFEST_MISMATCH")

def verifyInstalled : Manage Unit := do
  requireActive .verify
  let result ← attempt (verifyVersion env manifest)
  release
  match result with
  | .ok _ =>
    transition env .installed .runtimeMissing none (some "OMNI_RUNTIME_MISSING")
      (totalSize manifest.files)
  | .error .cancelled =>
    let w ← here
    transition env .verificationCancelled .incomplete none (some "MODEL_VERIFICATION_CANCELLED")
      w.state.receivedBytes
    throw .cancelled
  | .error error =>
    transition env .verificationFailed .corrupt none (some (verificationErrorCode error)) 0
    throw error

def beginRuntimeSelfTest : Manage Unit := do
  requireIdle
  let w ← here
  if w.state.phase ∉ [Phase.runtimeMissing, .selfTestFailed] then
    throw (.verification "OMNI_MODEL_NOT_VERIFIED")
  occupy .runtimeSelfTest
  transition env .beginSelfTest .runtimeSelfTest none none (totalSize manifest.files)

def finishRuntimeSelfTest (errorCode : Option String) : Manage Unit := do
  requireActive .runtimeSelfTest
  release
  match errorCode with
  | none => transition env .selfTestReady .ready none none (totalSize manifest.files)
  | some code =>
    transition env .selfTestFailed .selfTestFailed none (some code) (totalSize manifest.files)

def remove : Manage Unit := do
  requireIdle
  let _ ← ask env .removeVersion
  let _ ← ask env .removeStaging
  transition env .notInstalled .notInstalled none none 0

end Operations

/-- `OmniModelManager::new` on the state that its store has loaded; it fails if it cannot write. -/
def create (loaded : InstallState) (writes : Bool) : Except ManagerError World :=
  if loaded.phase.isActive then
    if maxU64 < loaded.sequence + 1 ∨ writes = false then .error .store
    else
      let state := { loaded with
        sequence := loaded.sequence + 1
        phase := .incomplete
        errorCode := some "MODEL_OPERATION_INTERRUPTED"
        currentFile := none }
      .ok ⟨state, none, false, state, 0⟩
  else .ok ⟨loaded, none, false, loaded, 0⟩

end Fairy.OmniModel
