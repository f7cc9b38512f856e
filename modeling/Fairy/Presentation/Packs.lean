import Fairy.Lib.Effect
import Fairy.Lib.Json
import Fairy.Lib.PosixPath

namespace Fairy.Presentation

open Fairy.Lib

inductive PackError
  | permission (message : String)
  | verification (message : String)
  | fileExists (message : String)
  | os (error : FileError String)
  /-- An error of the standard library. -/
  | uncaught (kind : String)
  deriving DecidableEq

structure RendererPackManifest where
  id : String
  version : String
  sandbox : String
  entrypoint : String
  payloadSha256 : String
  deriving DecidableEq

structure RendererPackMetadata where
  keyId : String
  manifestSha256 : String
  payloadSha256 : String

/-- A member of an archive; `data` is none where it cannot be read. -/
structure ZipInfo (β : Type) where
  filename : String
  flagBits : Nat
  fileSize : Nat
  externalAttr : Nat
  data : Option β

def ZipInfo.isDir {β : Type} (info : ZipInfo β) : Bool :=
  info.filename.toList.getLast? = some '/'

/-- A bundle that opens as an archive. -/
structure RendererPackBundle (β : Type) where
  namelist : List String
  read : String → β

structure InstalledRendererPack where
  manifest : RendererPackManifest
  installPath : List String

abbrev PackTree (β : Type) := FileTree String β

/-- The installer and what it rests on: its root, its keys, and the parsing, hashing and signatures
of the libraries. -/
structure RendererPackInstaller (β Key : Type) where
  root : List String
  rootPlain : ∀ name ∈ root, PosixPath.Plain name
  trustedKeys : String → Option Key
  authenticode : Option (PackTree β → List String → Bool)
  loads : β → Option Json
  /-- `str` of a JSON value. -/
  str : Json → String
  /-- The fields that are checked and not read here. -/
  otherFields : Json → Except PackError Unit
  verify : Key → β → β → Bool
  sha256 : β → String
  openZip : β → Option (List (ZipInfo β))

/-- What a call comes with: the bundle, the characters that `mkdtemp` draws, and which of the calls
of the operating system fail. -/
structure PackCall (β : Type) where
  userConfirmed : Bool
  bundle : Option (RendererPackBundle β)
  suffix : String
  suffixPlain : '/' ∉ suffix.toList
  fails : Nat → Bool

def requireDigest (value : String) : Except PackError Unit :=
  if value.toList.length ≠ 64 ∨
      value.toList.any (fun c => !("0123456789abcdef".toList.contains c)) then
    .error (.verification "Renderer Pack digest must be lowercase SHA-256")
  else .ok ()

/-- `_safe_relative`, with the parts of the path. -/
def safeRelative (value : String) : Except PackError (List String) :=
  let text := String.ofList (value.toList.map fun c => if c = '\\' then '/' else c)
  let parts := PosixPath.names text
  if PosixPath.isAbsolute text ∨ parts = [] ∨ ".." ∈ parts then
    .error (.verification "Renderer Pack contains an unsafe path")
  else if ':' ∈ value.toList then
    .error (.verification "Renderer Pack contains an unsafe path")
  else .ok parts

section Verify

variable {β Key : Type} (h : RendererPackInstaller β Key)

/-- `str(data[key])`. -/
def RendererPackInstaller.text (data : Json) (key message : String) : Except PackError String :=
  match data.field? key with
  | some value => .ok (h.str value)
  | none => .error (.verification message)

def RendererPackManifest.parse (payload : β) : Except PackError RendererPackManifest := do
  let message := "invalid Renderer Pack manifest"
  let data ← (h.loads payload).elim (.error (.verification message)) .ok
  let id ← h.text data "id" message
  let version ← h.text data "version" message
  h.otherFields data
  let sandbox ← h.text data "sandbox" message
  let entrypoint ← h.text data "entrypoint" message
  let payloadSha256 ← h.text data "payload_sha256" message
  if id = "" ∨ version = "" ∨ sandbox ≠ "native_restricted" then
    throw (.verification "Renderer Pack requires a restricted sandbox")
  requireDigest payloadSha256
  let _ ← safeRelative entrypoint
  return { id, version, sandbox, entrypoint, payloadSha256 }

/-- `_parse_metadata`. -/
def RendererPackMetadata.parse (payload : β) : Except PackError RendererPackMetadata := do
  let message := "invalid Renderer Pack metadata"
  let data ← (h.loads payload).elim (.error (.verification message)) .ok
  let keyId ← h.text data "key_id" message
  let manifestSha256 ← h.text data "manifest_sha256" message
  let payloadSha256 ← h.text data "payload_sha256" message
  requireDigest manifestSha256
  requireDigest payloadSha256
  return { keyId, manifestSha256, payloadSha256 }

def bundleFiles : List String :=
  ["metadata.json", "metadata.sig", "manifest.json", "manifest.sig", "payload.zip"]

/-- The first half of `verify_and_install`: what the signatures and the digests vouch for. -/
def RendererPackInstaller.verified (bundle : RendererPackBundle β) :
    Except PackError RendererPackManifest := do
  if bundle.namelist.length ≠ bundleFiles.length ∨
      ¬ (bundle.namelist ⊆ bundleFiles ∧ bundleFiles ⊆ bundle.namelist) then
    throw (.verification "Renderer Pack bundle layout is invalid")
  let metadata ← RendererPackMetadata.parse h (bundle.read "metadata.json")
  let key ← (h.trustedKeys metadata.keyId).elim
    (.error (.verification "Renderer Pack signing key is not trusted")) .ok
  if ¬ h.verify key (bundle.read "metadata.json") (bundle.read "metadata.sig") then
    throw (.verification "Renderer Pack metadata signature is invalid")
  if ¬ h.verify key (bundle.read "manifest.json") (bundle.read "manifest.sig") then
    throw (.verification "Renderer Pack manifest signature is invalid")
  if h.sha256 (bundle.read "manifest.json") ≠ metadata.manifestSha256 then
    throw (.verification "Renderer Pack manifest digest is invalid")
  if h.sha256 (bundle.read "payload.zip") ≠ metadata.payloadSha256 then
    throw (.verification "Renderer Pack payload digest is invalid")
  let manifest ← RendererPackManifest.parse h (bundle.read "manifest.json")
  if manifest.payloadSha256 ≠ metadata.payloadSha256 then
    throw (.verification "Renderer Pack payload digest disagrees")
  return manifest

end Verify

/-- The file system and how many calls it has had. -/
structure PackDisk (β : Type) where
  tree : PackTree β
  calls : Nat

abbrev PackProgram (β α : Type) := Effect PackError (PackDisk β) α

section Calls

variable {β : Type} [DecidableEq β] (fails : Nat → Bool)

/-- A call of the operating system. -/
def call (f : PackTree β → Except (FileError String) (PackTree β)) : PackProgram β Unit :=
  effect fun s =>
    if fails s.calls then (.error (.os (.raised "OSError")), { s with calls := s.calls + 1 })
    else
      match f s.tree with
      | .ok tree => (.ok (), ⟨tree, s.calls + 1⟩)
      | .error e => (.error (.os e), { s with calls := s.calls + 1 })

/-- A call at the path that a text leads to. -/
def atPath (path : List String) (f : List String → PackTree β →
    Except (FileError String) (PackTree β)) : PackProgram β Unit :=
  call fails fun tree => PosixPath.resolve tree [] path >>= fun p => f p tree

/-- `os.mkdir`. -/
def mkdir (path : List String) : PackProgram β Unit := atPath fails path FileTree.mkdir

/-- `Path.write_bytes`. -/
def writeBytes (path : List String) (content : β) : PackProgram β Unit :=
  atPath fails path fun p => FileTree.replace p content

/-- What is written to a path that was opened with `xb`. -/
def writeNew (path : List String) (content : β) : PackProgram β Unit :=
  atPath fails path fun p tree =>
    if tree.node p = none then FileTree.replace p content tree else .error (.alreadyExists p)

/-- What stands where a path leads to. -/
def stat (tree : PackTree β) (path : List String) : Option (Node β) :=
  match PosixPath.resolve tree [] path with
  | .ok p => tree.node p
  | .error _ => none

def look (f : PackTree β → Bool) : PackProgram β Bool := effect fun s => (.ok (f s.tree), s)

def isDirectory (path : List String) : PackProgram β Bool :=
  look fun tree => stat tree path = some .directory

/-- The branch `except OSError` of `Path.mkdir` with `exist_ok`. -/
def existOk (path : List String) (e : PackError) : PackProgram β Unit := do
  if ← isDirectory path then pure () else throw e

/-- `Path.mkdir(parents=True, exist_ok=True)`, of the names of a path from the last one up. -/
def makedirs : List String → PackProgram β Unit
  | [] => pure ()
  | name :: above =>
    let path := (name :: above).reverse
    catching (fun
      | .os (.notFound _) => do
        makedirs above
        catching (fun
          | .os (.notFound p) => throw (.os (.notFound p))
          | e => existOk path e) (mkdir fails path)
      | e => existOk path e) (mkdir fails path)

/-- The body of the loop over the members. -/
def extractMember (target : List String) (total : Nat) (info : ZipInfo β) : PackProgram β Nat :=
  match safeRelative info.filename with
  | .error e => throw e
  | .ok relative =>
    if info.flagBits &&& 1 ≠ 0 then
      throw (.verification "encrypted Renderer Pack members are not allowed")
    else if info.isDir then do
      makedirs fails (target ++ relative).reverse
      return total
    else if info.fileSize > 2 * 1024 * 1024 * 1024 then
      throw (.verification "Renderer Pack member exceeds size limit")
    else if total + info.fileSize > 4 * 1024 * 1024 * 1024 then
      throw (.verification "Renderer Pack exceeds extracted size limit")
    else if (info.externalAttr >>> 16) &&& 0o170000 = 0o120000 then
      throw (.verification "Renderer Pack symlinks are not allowed")
    else do
      makedirs fails (target ++ relative).dropLast.reverse
      match info.data with
      | none => throw (.uncaught "BadZipFile")
      | some content => writeNew fails (target ++ relative) content
      return total + info.fileSize

/-- `_extract_payload`. -/
def extractPayload (archive : List (ZipInfo β)) (target : List String) : PackProgram β Unit := do
  if archive.length > 10000 then
    throw (.verification "Renderer Pack contains too many members")
  let _ ← archive.foldlM (extractMember fails target) 0

/-- `Path.suffix`, in lower case. -/
def suffixOf (name : String) : List Char :=
  let extension := (name.toList.reverse.takeWhile (· ≠ '.')).reverse
  if extension.length + 1 < name.toList.length ∧ extension ≠ [] ∧ '.' ∈ name.toList then
    '.' :: extension.map Char.toLower
  else []

/-- The programs and libraries that `rglob` finds. -/
def executables (tree : PackTree β) (directory : List String) : Finset (List String) :=
  tree.entries.keys.filter fun p => directory <+: p ∧ p ≠ directory ∧
    suffixOf (p.getLast?.getD "") ∈ [".exe".toList, ".dll".toList]

/-- `os.replace` of a directory. -/
def moveTree (source target : List String) : PackProgram β Unit :=
  atPath fails target fun p tree =>
    PosixPath.resolve tree [] source >>= fun q => FileTree.rename q p tree

end Calls

namespace RendererPackInstaller

variable {β Key : Type} [DecidableEq β] (h : RendererPackInstaller β Key)

/-- `self._root / manifest.id / manifest.version`. -/
def target (id version : String) : List String :=
  PosixPath.join (PosixPath.join h.root id) version

def staging (suffix : String) : List String := h.root ++ ["renderer-pack-" ++ suffix]

omit [DecidableEq β] in
theorem staging_ne_nil (suffix : String) : h.staging suffix ≠ [] := by simp [staging]

/-- The authenticity of the programs that have been extracted. -/
def checkAuthenticode (extracted : List String) : PackProgram β Unit :=
  effect fun s =>
    match h.authenticode with
    | none =>
      if executables s.tree extracted = ∅ then (.ok (), s)
      else (.error (.verification "Authenticode verification is unavailable"), s)
    | some authenticode =>
      if ∀ path ∈ executables s.tree extracted, authenticode s.tree path then (.ok (), s)
      else (.error (.verification "Renderer Pack Authenticode check failed"), s)

/-- The end of the installation: the content takes its place unless something stands there. -/
def settleTarget (c : PackCall β) (manifest : RendererPackManifest) (manifestBytes : β)
    (extracted : List String) : PackProgram β InstalledRendererPack := do
  let target := h.target manifest.id manifest.version
  makedirs c.fails target.dropLast.reverse
  if ← look fun tree => (stat tree target).isSome then
    if ← look fun tree => stat tree (target ++ [".verified-manifest.json"]) =
        some (.file manifestBytes) then
      return ⟨manifest, target⟩
    else throw (.fileExists "a different Renderer Pack is already installed at this version")
  else do
    moveTree c.fails extracted target
    return ⟨manifest, target⟩

/-- What is done in the staging directory. -/
def unpack (c : PackCall β) (manifest : RendererPackManifest) (manifestBytes payload : β) :
    PackProgram β InstalledRendererPack := do
  let staging := h.staging c.suffix
  let extracted := staging ++ ["content"]
  writeBytes c.fails (staging ++ ["payload.zip"]) payload
  mkdir c.fails extracted
  match h.openZip payload with
  | none => throw (.uncaught "BadZipFile")
  | some archive => extractPayload c.fails archive extracted
  if ← look fun tree => (stat tree (extracted ++ PosixPath.names manifest.entrypoint)).any
      fun node => node ≠ .directory then
    h.checkAuthenticode extracted
    writeBytes c.fails (extracted ++ [".verified-manifest.json"]) manifestBytes
    h.settleTarget c manifest manifestBytes extracted
  else throw (.verification "Renderer Pack entrypoint is missing")

def verifyAndInstall (c : PackCall β) : PackProgram β InstalledRendererPack :=
  if ¬ c.userConfirmed then
    throw (.permission "Renderer Pack installation requires explicit user confirmation")
  else
    match c.bundle with
    | none => throw (.uncaught "BadZipFile")
    | some bundle =>
      match h.verified bundle with
      | .error e => throw e
      | .ok manifest => do
        mkdir c.fails (h.staging c.suffix)
        afterwards (fun s => { s with
          tree := s.tree.rmtree (h.staging c.suffix) (h.staging_ne_nil c.suffix) })
          (h.unpack c manifest (bundle.read "manifest.json") (bundle.read "payload.zip"))

end RendererPackInstaller

end Fairy.Presentation
