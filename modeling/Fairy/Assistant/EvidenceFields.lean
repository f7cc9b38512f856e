import Fairy.Lib.Fallible
import Fairy.Lib.Text
import Fairy.Lib.UrlAuthority
import Fairy.Lib.PosixPath

namespace Fairy.Assistant

open Fairy.Lib
open PosixPath (names asPosix isAbsolute Plain)

section EvidenceUrl

open Url (partition)

/-- What Python's Unicode data and codecs do to the host of a URL. -/
structure UrlCodec where
  /-- `str.lower`. -/
  lower : List Char → List Char
  /-- `str.encode("idna").decode("ascii")`; `none` where it raises. -/
  idna : List Char → Option (List Char)
  casefold : List Char → List Char
  /-- `_checknetloc`. -/
  netlocOk : List Char → Bool
  /-- `_check_bracketed_host`. -/
  addressOk : List Char → Bool

def IsAscii (l : List Char) : Prop := ∀ c ∈ l, c.toNat < 128

/-- The characters that end or part a network location, or that `urlsplit` takes out. -/
def delimiters : List Char := ['/', '?', '#', '@', ':', '\t', '\r', '\n']

/-- What is documented of them. -/
structure UrlCodec.Lawful (k : UrlCodec) : Prop where
  lower_ascii : ∀ l, IsAscii l → k.lower l = l.map Char.toLower
  casefold_ascii : ∀ l, IsAscii l → k.casefold l = l.map Char.toLower
  idna_is_ascii : ∀ l a, k.idna l = some a → IsAscii a
  idna_of_ascii : ∀ l a, IsAscii l → k.idna l = some a → a = l
  idna_nonempty : ∀ l a, l ≠ [] → k.idna l = some a → a ≠ []
  lower_nonempty : ∀ l, l ≠ [] → k.lower l ≠ []
  netloc_ascii : ∀ l, IsAscii l → k.netlocOk l = true
  /-- A location that passes has no host that turns into one with a new delimiter. -/
  delimiters_kept : ∀ netloc a, k.netlocOk netloc = true →
    k.idna (k.lower (partition (· = '%') (Url.hostPort netloc).1).1 ++
      (Url.hostPort netloc).1.drop (partition (· = '%') (Url.hostPort netloc).1).1.length) = some a →
    ∀ c ∈ delimiters, c ∈ a → c ∈ (Url.hostPort netloc).1
  /-- No address begins with a bracket. -/
  address_head : ∀ l, k.addressOk l = true → l.head? ≠ some '['

/-- `SplitResult.hostname`, of the host as it stands: a zone keeps its case. -/
def UrlCodec.hostname (k : UrlCodec) (host : List Char) : List Char :=
  k.lower (partition (· = '%') host).1 ++ host.drop (partition (· = '%') host).1.length

/-- `urlunsplit` of a URL without query and fragment. -/
def unsplit (scheme netloc path : List Char) : List Char :=
  let path := if path ≠ [] ∧ path.head? ≠ some '/' ∧ netloc ≠ [] then '/' :: path else path
  scheme ++ ':' :: (if netloc ≠ [] then '/' :: '/' :: netloc else []) ++ path

def urlError : String := "evidence URL must be a credential-free HTTPS URL"

/-- The port of an authority, without the default one; an outer `none` where it cannot be read. -/
def explicitPort (text : List Char) : Option (Option Nat) :=
  if text = [] then some none
  else (Url.readPort text).map fun port => if port = 443 then none else some port

def authority (host : List Char) : Option Nat → List Char
  | none => host
  | some port => host ++ ':' :: Nat.toDigits 10 port

/-- `_safe_url` of a text. -/
def safeUrl (k : UrlCodec) (value : String) : Except String String := do
  let parsed := Url.urlsplit (Text.strip value)
  if ¬ Url.bracketsOk k.addressOk parsed.netloc ∨ ¬ k.netlocOk parsed.netloc then
    throw "evidence URL is invalid"
  let (host, portText) := Url.hostPort parsed.netloc
  if parsed.scheme ≠ "https".toList ∨ host = [] ∨ (Url.userinfo parsed.netloc).1 ≠ [] ∨
      (Url.userinfo parsed.netloc).2 ≠ [] then
    throw urlError
  let ascii ← (k.idna (k.hostname host)).elim (.error "label empty or too long") .ok
  let port ← (explicitPort portText).elim (.error "Port could not be cast to integer value") .ok
  let path := if parsed.path = [] then ['/'] else parsed.path
  let result := unsplit "https".toList (authority (k.casefold ascii) port) path
  if result.length > 2048 then throw "evidence URL is too long"
  return String.ofList result

end EvidenceUrl

/-- `_required`. -/
def required (name : String) (maximum : Nat) (value : String) : Except String String := do
  let normalized := Text.strip value
  if normalized = "" ∨ normalized.toList.length > maximum then throw s!"{name} is invalid"
  return normalized

/-- `_label`. -/
def label (value : String) : Except String String :=
  required "public_label" 240 (String.ofList (Text.unwords (Text.words value.toList)))

/-- `_revision` of a text. -/
def revision (value : String) : Except String String := required "source_revision" 512 value

/-- `^[0-9a-f]{64}$`. -/
def isSha256 (s : String) : Bool :=
  s.toList.length = 64 && s.toList.all fun c => c.isDigit || decide ('a' ≤ c) && decide (c ≤ 'f')

/-- `_optional_digest` of a text. -/
def digest (value : String) : Except String String := do
  if ¬ isSha256 value then throw "evidence hash must be a lowercase SHA-256 digest"
  return value

def slashed (value : String) : String :=
  String.ofList (value.toList.map fun c => if c = '\\' then '/' else c)

/-- `_relative_path` of a text. -/
def relativePath (value : String) : Except String String := do
  let normalized := Text.strip (slashed value)
  if normalized = "" ∨ normalized.toList.length > 1024 ∨ isAbsolute normalized ∨
      ['.', '/'] <+: normalized.toList ∨ ∃ part ∈ names normalized, part = ".." then
    throw "evidence path must be canonical and Workspace-relative"
  return asPosix (names normalized)

/-- `_line_range`. -/
def lineRange (start stop : Option Int) : Except String Unit := do
  if start.isNone ≠ stop.isNone then throw "evidence line range must be complete"
  if ∃ first ∈ start, first < 1 ∨ ∃ last ∈ stop, last < first then
    throw "evidence line range is invalid"

/-- A `datetime` of microseconds since the year one on a clock with an offset, if it has one. -/
structure Datetime where
  wall : Int
  offset : Option Int
  deriving DecidableEq

def Datetime.range : Int := 3652059 * 86400 * 1000000

/-- `_aware`. -/
def aware (name : String) (value : Datetime) : Except String Datetime := do
  match value.offset with
  | none => throw s!"{name} must include a timezone"
  | some offset =>
    if value.wall - offset < 0 ∨ Datetime.range ≤ value.wall - offset then
      throw "date value out of range"
    return ⟨value.wall - offset, some 0⟩

/-- A function of an optional field: `None` stays. -/
def optional {α : Type} (f : α → Except String α) : Option α → Except String (Option α)
  | none => .ok none
  | some a => (f a).map some

/-- A normaliser that accepts what it returns and leaves it as it is. -/
def Settled {α : Type} (f : α → Except String α) : Prop := ∀ a b, f a = .ok b → f b = .ok b

section Settled

variable {α : Type} {f : α → Except String α}

theorem Settled.optional (h : Settled f) : Settled (optional f) := by
  intro a b hab
  cases a with
  | none =>
    cases hab
    rfl
  | some a =>
    obtain ⟨c, hc, rfl⟩ := map_ok hab
    rw [Assistant.optional, h a c hc]
    rfl

theorem optional_some_iff {a b : α} : optional f (some a) = .ok (some b) ↔ f a = .ok b := by
  constructor
  · intro h
    obtain ⟨c, hc, hcb⟩ := map_ok h
    cases hcb
    exact hc
  · intro h
    rw [optional, h]
    rfl

/-- The law of a normaliser of an optional field, from that of the field. -/
theorem optional_fixed_iff {Stable : α → Prop}
    (h : ∀ a b, f a = .ok b → (f b = .ok b ↔ Stable a)) {a b : Option α}
    (hab : optional f a = .ok b) : optional f b = .ok b ↔ ∀ x ∈ a, Stable x := by
  cases a with
  | none =>
    cases hab
    exact iff_of_true rfl fun _ hx => by cases hx
  | some x =>
    obtain ⟨y, hy, rfl⟩ := map_ok hab
    rw [optional_some_iff, h x y hy]
    exact ⟨fun hs _ hx => by cases hx; exact hs, fun hs => hs x rfl⟩

end Settled

section Texts

theorem required_ok_iff {name value w : String} {maximum : Nat} :
    required name maximum value = .ok w ↔
      w = Text.strip value ∧ w ≠ "" ∧ w.toList.length ≤ maximum := by
  rw [required, check_bind_ok_iff, not_or, Nat.not_lt]
  constructor
  · rintro ⟨⟨hne, hlength⟩, h⟩
    obtain rfl := pure_ok h
    exact ⟨rfl, hne, hlength⟩
  · rintro ⟨rfl, hne, hlength⟩
    exact ⟨⟨hne, hlength⟩, rfl⟩

theorem required_settled (name : String) (maximum : Nat) : Settled (required name maximum) := by
  intro value w h
  obtain ⟨rfl, hne, hlength⟩ := required_ok_iff.mp h
  exact required_ok_iff.mpr ⟨(Text.strip_strip value).symm, hne, hlength⟩

theorem label_settled : Settled label := by
  intro value w h
  have hwords : ∀ v ∈ Text.words value.toList, Text.Word v := fun v hv => Text.mem_words hv
  obtain ⟨rfl, hne, hlength⟩ := required_ok_iff.mp h
  have htext : Text.strip (String.ofList (Text.unwords (Text.words value.toList))) =
      String.ofList (Text.unwords (Text.words value.toList)) := by
    rw [Text.strip, String.toList_ofList, Text.stripChars_unwords hwords]
  rw [htext] at hne hlength ⊢
  refine required_ok_iff.mpr ⟨?_, hne, hlength⟩
  rw [String.toList_ofList, Text.words_unwords hwords, htext]

theorem digest_ok_iff {value w : String} : digest value = .ok w ↔ w = value ∧ isSha256 value := by
  rw [digest, check_bind_ok_iff, Decidable.not_not]
  exact ⟨fun h => ⟨(pure_ok h.2).symm, h.1⟩, fun h => ⟨h.2, h.1 ▸ rfl⟩⟩

theorem digest_settled : Settled digest := by
  intro value w h
  obtain ⟨rfl, hhex⟩ := digest_ok_iff.mp h
  exact digest_ok_iff.mpr ⟨rfl, hhex⟩

end Texts

section Dates

theorem aware_ok {name : String} {value d : Datetime} (h : aware name value = .ok d) :
    d.offset = some 0 ∧ 0 ≤ d.wall ∧ d.wall < Datetime.range := by
  unfold aware at h
  split at h
  · cases h
  · rename_i offset hoffset
    obtain ⟨hrange, h⟩ := check_bind_ok_iff.mp h
    rw [not_or, Int.not_lt, Int.not_le] at hrange
    cases pure_ok h
    exact ⟨rfl, hrange.1, hrange.2⟩

/-- An instant in UTC is left as it is, whichever field it is of. -/
theorem aware_utc {name : String} {d : Datetime} (hoffset : d.offset = some 0) (hlow : 0 ≤ d.wall)
    (hhigh : d.wall < Datetime.range) : aware name d = .ok d := by
  obtain ⟨wall, offset⟩ := d
  cases hoffset
  rw [aware]
  refine check_bind_ok_iff.mpr ⟨?_, ?_⟩
  · change ¬ (wall - 0 < 0 ∨ _ ≤ wall - 0)
    rw [Int.sub_zero]
    change 0 ≤ wall at hlow
    change wall < Datetime.range at hhigh
    omega
  · rw [Int.sub_zero]
    rfl

theorem aware_settled (name name' : String) {value d : Datetime} (h : aware name value = .ok d) :
    aware name' d = .ok d := by
  obtain ⟨hoffset, hlow, hhigh⟩ := aware_ok h
  exact aware_utc hoffset hlow hhigh

end Dates

end Fairy.Assistant
