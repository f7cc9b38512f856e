import Fairy.Lib.Base64
import Fairy.Lib.Fallible
import Fairy.Lib.JsonRoundTrip
import Mathlib.Data.Nat.Digits.Lemmas

namespace Fairy.Storage

open Fairy.Lib Fairy.Lib.Base64 Fairy.Lib.JsonText

/-- A `datetime` in UTC, in microseconds from 1970. -/
structure Instant where
  value : Int
  least : -62135596800000000 ≤ value
  most : value ≤ 253402300799999999
  deriving DecidableEq

/-- A UUID by its number. -/
abbrev Uuid := Fin 340282366920938463463374607431768211456

/-- What `datetime.fromisoformat` makes of a text: a time without an offset, or one with an
offset, which in UTC may lie outside the years that a `datetime` has. -/
inductive IsoTime
  | naive
  | aware (instant : Option Instant)

/-- A text of ASCII characters that no escape makes longer than six times. -/
def Ascii (s : PyString) : Prop := ∀ n ∈ s, n < 128

instance {s : PyString} : Decidable (Ascii s) := inferInstanceAs (Decidable (∀ n ∈ s, n < 128))

/-- The functions of the standard library that a cursor is made with. -/
structure CursorCodec where
  /-- `hashlib.sha256(text).hexdigest()`. -/
  sha256 : List Char → PyString
  isoformat : Instant → PyString
  fromIsoformat : PyString → Option IsoTime
  /-- `str(UUID)`. -/
  uuidText : Uuid → PyString
  /-- `UUID(text)`. -/
  parseUuid : PyString → Option Uuid
  /-- How `json.loads` decodes bytes. -/
  decodeBytes : List UInt8 → Option (List Char)
  /-- Whether a JSON number is equal to one. -/
  floatIsOne : List Char → Bool
  sha256_short : ∀ text, Ascii (sha256 text) ∧ (sha256 text).length = 64
  isoformat_short : ∀ t, Ascii (isoformat t) ∧ (isoformat t).length ≤ 32
  isoformat_read : ∀ t, fromIsoformat (isoformat t) = some (.aware (some t))
  uuidText_short : ∀ u, Ascii (uuidText u) ∧ (uuidText u).length = 36
  uuidText_read : ∀ u, parseUuid (uuidText u) = some u
  decodeBytes_ascii : ∀ text : List Char, (∀ c ∈ text, 0 < c.toNat ∧ c.toNat < 128) →
    decodeBytes (text.map fun c => UInt8.ofNat c.toNat) = some text

inductive PageError
  | valueError (message : String)
  | attributeError
  | overflowError
  deriving DecidableEq

/-- The arguments that a listing was asked with, by their names. -/
abbrev Scope := List (PyString × Option PyString)

structure CursorPosition where
  createdAt : Instant
  entityId : Uuid
  deriving DecidableEq

section Codec

variable (codec : CursorCodec)

/-- A value of a scope as JSON. -/
def scopeValue : Option PyString → Value
  | none => .null
  | some s => .str s

def Scope.value (scope : Scope) : Value :=
  .obj (sortKeys (scope.map fun f => (f.1, scopeValue f.2)))

/-- The text that `_scope_digest` hashes. -/
def canonicalScope (collection : PyString) (scope : Scope) : List Char :=
  dumps (.obj [(.ofString "collection", .str collection), (.ofString "scope", scope.value)])

def scopeDigest (collection : PyString) (scope : Scope) : PyString :=
  codec.sha256 (canonicalScope collection scope)

/-- The payload of a cursor, by the order of its keys. -/
def cursorPayload (position : CursorPosition) (collection : PyString) (scope : Scope) : Value :=
  .obj [(.ofString "c", .str collection), (.ofString "i", .str (codec.uuidText position.entityId)),
    (.ofString "s", .str (scopeDigest codec collection scope)),
    (.ofString "t", .str (codec.isoformat position.createdAt)), (.ofString "v", .int 1)]

def encodeCursor (position : CursorPosition) (collection : PyString) (scope : Scope) : PyString :=
  urlText ((dumps (cursorPayload codec position collection scope)).map fun c =>
    UInt8.ofNat c.toNat)

/-- `value == 1`. -/
def isOne : Value → Bool
  | .int n => n = 1
  | .bool b => b
  | .float literal => codec.floatIsOne literal
  | _ => false

def cursorKeys : List PyString := [.ofString "v", .ofString "c", .ofString "t", .ofString "i",
  .ofString "s"]

/-- Whether the keys of a payload are those of a cursor. -/
def sameKeys (keys : List PyString) : Bool :=
  (keys.all fun k => cursorKeys.any (· = k)) && cursorKeys.all fun k => keys.any (· = k)

def invalidScope : PageError := .valueError "cursor is invalid for this collection scope"

/-- A time of a payload; only one with an offset is taken. -/
def readTime : Option Value → Except PageError (Option Instant)
  | some (.str s) =>
    match codec.fromIsoformat s with
    | some (.aware instant) => .ok instant
    | _ => .error invalidScope
  | _ => .error invalidScope

/-- `UUID(value)`: what is no text and not null has no `replace`. -/
def readUuid : Option Value → Except PageError Uuid
  | some (.str s) =>
    match codec.parseUuid s with
    | some id => .ok id
    | none => .error invalidScope
  | none | some .null => .error invalidScope
  | some _ => .error .attributeError

/-- Whether a value is a text. -/
def isText (text : PyString) : Option Value → Bool
  | some (.str s) => s = text
  | _ => false

def readPayload (payload : Value) (collection : PyString) (scope : Scope) :
    Except PageError CursorPosition :=
  match payload with
  | .obj fields => do
    if ¬ sameKeys (fields.map Prod.fst) then throw invalidScope
    if ¬ (get? fields (.ofString "v")).any (isOne codec) then throw invalidScope
    if ¬ isText collection (get? fields (.ofString "c")) then throw invalidScope
    if ¬ isText (scopeDigest codec collection scope) (get? fields (.ofString "s")) then
      throw invalidScope
    let createdAt ← readTime codec (get? fields (.ofString "t"))
    let entityId ← readUuid codec (get? fields (.ofString "i"))
    match createdAt with
    | some createdAt => return ⟨createdAt, entityId⟩
    | none => throw .overflowError
  | _ => .error invalidScope

def decodeCursor (cursor : Option PyString) (collection : PyString) (scope : Scope) :
    Except PageError (Option CursorPosition) :=
  match cursor with
  | none => .ok none
  | some text =>
    if text = [] ∨ 2048 < text.length then .error (.valueError "cursor is invalid")
    else
      match ((urlBytes text).bind codec.decodeBytes).bind loads with
      | none => .error invalidScope
      | some payload => (readPayload codec payload collection scope).map some

/-- `validate_limit`. -/
def validateLimit (limit : Int) : Except PageError Unit :=
  if ¬ (1 ≤ limit ∧ limit ≤ 100) then .error (.valueError "limit must be between 1 and 100")
  else .ok ()

end Codec

section RoundTrip

variable {codec : CursorCodec} {position : CursorPosition} {collection : PyString}
  {scope : Scope}

theorem Ascii.scalars {s : PyString} (h : Ascii s) : Scalars s := fun n hn => by
  have hn := h n hn
  omega

theorem payload_exact (h : Ascii collection) :
    Exact (cursorPayload codec position collection scope) := by
  refine ⟨(by decide : [PyString.ofString "c", .ofString "i", .ofString "s", .ofString "t",
    .ofString "v"].Nodup), ?_⟩
  have hi := (codec.uuidText_short position.entityId).1.scalars
  have hs := (codec.sha256_short (canonicalScope collection scope)).1.scalars
  have ht := (codec.isoformat_short position.createdAt).1.scalars
  exact ⟨scalars_ofString _, h.scalars, scalars_ofString _, hi, scalars_ofString _, hs,
    scalars_ofString _, ht, scalars_ofString _, trivial, trivial⟩

theorem length_payload (hascii : Ascii collection) (hshort : collection.length ≤ 16) :
    (dumps (cursorPayload codec position collection scope)).length ≤ 1000 := by
  have hwide : ∀ {s : PyString}, Ascii s → (quote s).length ≤ 6 * s.length + 2 := fun h =>
    length_quote fun n hn => by have hn := h n hn; omega
  have hi := codec.uuidText_short position.entityId
  have hs := codec.sha256_short (canonicalScope collection scope)
  have ht := codec.isoformat_short position.createdAt
  have hcollection := hwide hascii
  have hid := hwide hi.1
  have hdigest := hwide hs.1
  have htime := hwide ht.1
  have hkeys : (quote (.ofString "c")).length = 3 ∧ (quote (.ofString "i")).length = 3 ∧
      (quote (.ofString "s")).length = 3 ∧ (quote (.ofString "t")).length = 3 ∧
        (quote (.ofString "v")).length = 3 ∧ (dumps (.int 1)).length = 1 := by
    decide
  simp only [cursorPayload, scopeDigest, dumps, dumpFields, List.length_append, List.length_cons,
    List.length_nil] at hkeys ⊢
  omega

variable {collection' : PyString} {scope' : Scope}

/-- What a payload is read as, by a listing that may be another one. -/
theorem readPayload_cursorPayload :
    readPayload codec (cursorPayload codec position collection scope) collection' scope' =
      if collection = collection' ∧
          scopeDigest codec collection scope = scopeDigest codec collection' scope' then
        .ok position
      else .error invalidScope := by
  have hkeys : sameKeys [.ofString "c", .ofString "i", .ofString "s", .ofString "t",
      .ofString "v"] := by
    decide
  have hfound : ∀ c i s t : Value,
      let fields := [(PyString.ofString "c", c), (.ofString "i", i), (.ofString "s", s),
        (.ofString "t", t), (.ofString "v", .int 1)]
      (get? fields (.ofString "v")).any (isOne codec) = true ∧
        get? fields (.ofString "c") = some c ∧ get? fields (.ofString "i") = some i ∧
          get? fields (.ofString "s") = some s ∧ get? fields (.ofString "t") = some t :=
    fun _ _ _ _ => ⟨rfl, rfl, rfl, rfl, rfl⟩
  obtain ⟨hv, hc, hi, hs, ht⟩ := hfound (.str collection)
    (.str (codec.uuidText position.entityId)) (.str (scopeDigest codec collection scope))
    (.str (codec.isoformat position.createdAt))
  rw [cursorPayload, readPayload]
  simp only [hv, hc, hi, hs, ht, isText, readTime, readUuid, codec.isoformat_read,
    codec.uuidText_read, decide_eq_true_eq]
  refine (if_neg (not_not.2 hkeys)).trans ?_
  rw [if_neg (not_not.2 trivial)]
  by_cases hcollection : collection = collection'
  · by_cases hdigest : scopeDigest codec collection scope = scopeDigest codec collection' scope'
    · rw [if_neg (not_not.2 hcollection), if_neg (not_not.2 hdigest),
        if_pos ⟨hcollection, hdigest⟩]
      rfl
    · have hother : ¬ (collection = collection' ∧
          scopeDigest codec collection scope = scopeDigest codec collection' scope') :=
        fun h => hdigest h.2
      rw [if_neg (not_not.2 hcollection), if_pos hdigest, if_neg hother]
      rfl
  · have hother : ¬ (collection = collection' ∧
        scopeDigest codec collection scope = scopeDigest codec collection' scope') :=
      fun h => hcollection h.1
    rw [if_pos hcollection, if_neg hother]
    rfl

/-- A cursor is read back as the position that it was made for, by each listing of its collection
and scope and by no other. -/
theorem decodeCursor_encodeCursor (hascii : Ascii collection) (hshort : collection.length ≤ 16) :
    decodeCursor codec (some (encodeCursor codec position collection scope)) collection' scope' =
      if collection = collection' ∧
          scopeDigest codec collection scope = scopeDigest codec collection' scope' then
        .ok (some position)
      else .error invalidScope := by
  have hexact : Exact (cursorPayload codec position collection scope) := payload_exact hascii
  have htext := ascii_dumps _ hexact
  have hlength := @length_payload codec position _ scope hascii hshort
  generalize hpayload : cursorPayload codec position collection scope = payload at *
  have hread : ((urlBytes (encodeCursor codec position collection scope)).bind
      codec.decodeBytes).bind loads = some payload := by
    rw [encodeCursor, hpayload, urlBytes_urlText, Option.bind_some,
      codec.decodeBytes_ascii _ htext, Option.bind_some, loads_dumps hexact]
  have hencoded : encodeCursor codec position collection scope ≠ [] ∧
      (encodeCursor codec position collection scope).length ≤ 2048 := by
    constructor
    · intro hnil
      obtain ⟨c, tail, hcons, -⟩ := dumps_cons hexact
      have hbytes := urlBytes_urlText ((dumps payload).map fun c => UInt8.ofNat c.toNat)
      rw [encodeCursor, hpayload] at hnil
      rw [hnil, hcons] at hbytes
      cases hbytes
    · have hshorter := length_urlText ((dumps payload).map fun c => UInt8.ofNat c.toNat)
      rw [List.length_map] at hshorter
      rw [encodeCursor, hpayload]
      omega
  rw [decodeCursor, if_neg (by rw [not_or, not_lt]; exact hencoded), hread, ← hpayload]
  simp only [readPayload_cursorPayload]
  split <;> rfl

/-- The keys and values of a scope are ASCII, as identifiers and the names of lifecycles are. -/
structure Scope.Written (scope : Scope) : Prop where
  nodup : (scope.map Prod.fst).Nodup
  keys : ∀ f ∈ scope, Ascii f.1
  values : ∀ f ∈ scope, ∀ s ∈ f.2, Ascii s

theorem scopeValue_inj : Function.Injective scopeValue := by
  intro a b h
  cases a <;> cases b <;> cases h <;> rfl

theorem exactFields_iff {fields : List (PyString × Value)} :
    ExactFields fields ↔ ∀ f ∈ fields, Scalars f.1 ∧ Exact f.2 := by
  induction fields with
  | nil => exact iff_of_true trivial nofun
  | cons f fields ih =>
    rw [List.forall_mem_cons, ← ih, ExactFields, and_assoc]

theorem sortKeys_perm (fields : List (PyString × Value)) : (sortKeys fields).Perm fields :=
  List.perm_insertionSort ..

theorem Scope.value_exact (h : scope.Written) : Exact scope.value := by
  have hperm := sortKeys_perm (scope.map fun f => (f.1, scopeValue f.2))
  refine ⟨?_, exactFields_iff.2 fun f hf => ?_⟩
  · refine ((hperm.map Prod.fst).nodup_iff).2 ?_
    rw [List.map_map]
    exact h.nodup
  · obtain ⟨g, hg, rfl⟩ := List.mem_map.1 (hperm.mem_iff.1 hf)
    refine ⟨(h.keys g hg).scalars, ?_⟩
    cases hvalue : g.2 with
    | none => exact trivial
    | some s => exact (h.values g hg s hvalue).scalars

theorem dumps_inj {v v' : Value} (hv : Exact v) (hv' : Exact v') (h : dumps v = dumps v') :
    v = v' := by
  have hread := loads_dumps hv
  rw [h, loads_dumps hv'] at hread
  exact (Option.some.inj hread).symm

theorem sortKeys_eq_iff {fields fields' : List (PyString × Value)}
    (h : (fields.map Prod.fst).Nodup) :
    sortKeys fields = sortKeys fields' ↔ fields.Perm fields' := by
  refine ⟨fun heq => ?_, fun hperm => ?_⟩
  · have hsorted := sortKeys_perm fields
    rw [heq] at hsorted
    exact hsorted.symm.trans (sortKeys_perm fields')
  · refine (((sortKeys_perm fields).trans hperm).trans (sortKeys_perm fields').symm).eq_of_pairwise
      (fun a b ha hb hab hba => ?_) (List.pairwise_insertionSort _ _)
      (List.pairwise_insertionSort _ _)
    have hb := hperm.mem_iff.2 ((sortKeys_perm fields').mem_iff.1 hb)
    exact List.inj_on_of_nodup_map h ((sortKeys_perm fields).mem_iff.1 ha) hb (le_antisymm hab hba)

/-- The text that is hashed says which collection and which scope it is of. -/
theorem canonicalScope_inj (hascii : Ascii collection) (hascii' : Ascii collection')
    (hscope : scope.Written) (hscope' : scope'.Written) :
    canonicalScope collection scope = canonicalScope collection' scope' ↔
      collection = collection' ∧ scope.Perm scope' := by
  have hexact : ∀ {collection : PyString} {scope : Scope}, Ascii collection → scope.Written →
      Exact (.obj [(.ofString "collection", .str collection), (.ofString "scope", scope.value)]) :=
    fun hascii hscope => ⟨(by decide : [PyString.ofString "collection", .ofString "scope"].Nodup),
      scalars_ofString _, hascii.scalars, scalars_ofString _, Scope.value_exact hscope, trivial⟩
  have hinjective : Function.Injective fun f : PyString × Option PyString =>
      (f.1, scopeValue f.2) := by
    rintro ⟨k, v⟩ ⟨k', v'⟩ h
    simp only [Prod.mk.injEq] at h
    exact Prod.ext h.1 (scopeValue_inj h.2)
  have hkeys : ((scope.map fun f => (f.1, scopeValue f.2)).map Prod.fst).Nodup := by
    rw [List.map_map]
    exact hscope.nodup
  have hvalue : scope.value = scope'.value ↔ scope.Perm scope' := by
    refine Iff.trans ?_ (List.map_perm_map_iff hinjective)
    refine Iff.trans ?_ (sortKeys_eq_iff hkeys)
    exact ⟨fun h => by injection h, fun h => congrArg Value.obj h⟩
  refine ⟨fun h => ?_, fun ⟨hcollection, hperm⟩ => ?_⟩
  · have heq := dumps_inj (hexact hascii hscope) (hexact hascii' hscope') h
    simp only [Value.obj.injEq, List.cons.injEq, Prod.mk.injEq, Value.str.injEq, true_and,
      and_true] at heq
    exact ⟨heq.1, hvalue.1 heq.2⟩
  · rw [canonicalScope, canonicalScope, hcollection, hvalue.2 hperm]

end RoundTrip

section Sample

variable {α β : Type} [DecidableEq α]

/-- A text for each value, which for some of them is given. -/
def written (given : List (α × PyString)) (text : α → PyString) (a : α) : PyString :=
  ((given.find? fun p => p.1 = a).map Prod.snd).getD (text a)

def reading (given : List (α × PyString)) (read : PyString → β) (of : α → β) (s : PyString) : β :=
  ((given.find? fun p => p.2 = s).map fun p => of p.1).getD (read s)

theorem reading_written {given : List (α × PyString)} {text : α → PyString}
    {read : PyString → β} {of : α → β}
    (hgiven : ∀ p ∈ given, ∀ q ∈ given, p.2 = q.2 → p.1 = q.1)
    (hplain : ∀ p ∈ given, ∀ a, p.2 ≠ text a) (hread : ∀ a, read (text a) = of a) (a : α) :
    reading given read of (written given text a) = of a := by
  cases hfind : given.find? fun p => p.1 = a with
  | none =>
    have hwritten : written given text a = text a := by
      rw [written, hfind, Option.map_none, Option.getD_none]
    have hnone : (given.find? fun p => p.2 = text a) = none :=
      List.find?_eq_none.2 fun p hp heq => hplain p hp a (by simpa using heq)
    rw [hwritten, reading, hnone, Option.map_none, Option.getD_none, hread]
  | some p =>
    have hp : p ∈ given ∧ p.1 = a :=
      ⟨List.mem_of_find?_eq_some hfind, by simpa using List.find?_some hfind⟩
    have hwritten : written given text a = p.2 := by
      rw [written, hfind, Option.map_some, Option.getD_some]
    cases hsecond : given.find? fun q => q.2 = p.2 with
    | none =>
      have hnone := List.find?_eq_none.1 hsecond p hp.1
      simp only [decide_true, not_true_eq_false] at hnone
    | some q =>
      have hq : q.2 = p.2 := by simpa using List.find?_some hsecond
      have hsame := hgiven q (List.mem_of_find?_eq_some hsecond) p hp.1 hq
      rw [hwritten, reading, hsecond, Option.map_some, Option.getD_some, hsame, hp.2]

theorem written_mem {given : List (α × PyString)} {text : α → PyString} {P : PyString → Prop}
    (hgiven : ∀ p ∈ given, P p.2) (htext : ∀ a, P (text a)) (a : α) : P (written given text a) := by
  cases hfind : given.find? fun p => p.1 = a with
  | none =>
    rw [written, hfind, Option.map_none, Option.getD_none]
    exact htext a
  | some p =>
    rw [written, hfind, Option.map_some, Option.getD_some]
    exact hgiven p (List.mem_of_find?_eq_some hfind)

def sampleTime : Instant := ⟨1767225600000000, by decide, by decide⟩

def sampleId : Uuid := ⟨1, by decide⟩

def otherId : Uuid := ⟨2, by decide⟩

def timeText : Instant → PyString :=
  written [(sampleTime, .ofString "2026-01-01T00:00:00+00:00")] fun t =>
    Nat.digits 100 (t.value + 62135596800000000).toNat

def idText : Uuid → PyString :=
  written [(sampleId, .ofString "00000000-0000-0000-0000-000000000001"),
    (otherId, .ofString "00000000-0000-0000-0000-000000000002")] fun u =>
    Nat.digits 100 u.val ++ List.replicate (36 - (Nat.digits 100 u.val).length) 0

/-- The scope of the projects of a lifecycle. -/
def lifecycleScope (lifecycle : String) : Scope :=
  [(.ofString "lifecycle", some (.ofString lifecycle))]

def digestText : List Char → PyString :=
  written [(canonicalScope (.ofString "projects") (lifecycleScope "active"),
      .ofString "7d82d292a1468a28d6cb6e66b105acf61b78e8b1b9f00044b0b7b77bf61baaa0"),
    (canonicalScope (.ofString "projects") (lifecycleScope "archived"),
      .ofString "9145ab074a436689769fa0a8f8937734c43b8469988521e0f7131c639c646ba2")]
    fun _ => List.replicate 64 48

theorem digits_ascii (n : Nat) : Ascii (Nat.digits 100 n) := fun d hd => by
  have hlt := Nat.digits_lt_base (by decide : 1 < 100) hd
  omega

theorem length_timeDigits (t : Instant) :
    (Nat.digits 100 (t.value + 62135596800000000).toNat).length ≤ 9 := by
  rw [Nat.digits_length_le_iff (by decide)]
  have hleast := t.least
  have hmost := t.most
  norm_num
  omega

theorem length_idDigits (u : Uuid) : (Nat.digits 100 u.val).length ≤ 20 := by
  rw [Nat.digits_length_le_iff (by decide)]
  have hlt := u.isLt
  norm_num
  omega

/-- What a number of microseconds from the first year is read as. -/
def timeOf (n : Nat) : IsoTime :=
  if h : -62135596800000000 ≤ (n : Int) - 62135596800000000 ∧
      (n : Int) - 62135596800000000 ≤ 253402300799999999 then
    .aware (some ⟨(n : Int) - 62135596800000000, h.1, h.2⟩)
  else .naive

/-- A codec that writes the time, the identifiers and the scopes of the example as Python does. -/
def sampleCodec : CursorCodec where
  sha256 := digestText
  isoformat := timeText
  fromIsoformat := reading [(sampleTime, .ofString "2026-01-01T00:00:00+00:00")]
    (fun s => some (timeOf (Nat.ofDigits 100 s))) fun t => some (.aware (some t))
  uuidText := idText
  parseUuid := reading [(sampleId, .ofString "00000000-0000-0000-0000-000000000001"),
      (otherId, .ofString "00000000-0000-0000-0000-000000000002")]
    (fun s => if h : Nat.ofDigits 100 s < 340282366920938463463374607431768211456 then
      some ⟨_, h⟩ else none) some
  decodeBytes bytes := some (bytes.map fun b => Char.ofNat b.toNat)
  floatIsOne _ := false
  sha256_short := by
    refine written_mem (P := fun s => Ascii s ∧ s.length = 64) ?_ fun _ =>
      ⟨?_, List.length_replicate⟩
    · simp only [List.forall_mem_cons, List.not_mem_nil, false_imp_iff, implies_true, and_true]
      decide
    · intro n hn
      rw [List.eq_of_mem_replicate hn]
      decide
  isoformat_short := by
    refine written_mem (P := fun s => Ascii s ∧ s.length ≤ 32) ?_ fun t =>
      ⟨digits_ascii _, (length_timeDigits t).trans (by decide)⟩
    simp only [List.forall_mem_cons, List.not_mem_nil, false_imp_iff, implies_true, and_true]
    decide
  isoformat_read := by
    refine reading_written (by simp) ?_ fun t => ?_
    · simp only [List.forall_mem_cons, List.not_mem_nil, false_imp_iff, implies_true, and_true]
      intro t heq
      have hlength := length_timeDigits t
      rw [← heq] at hlength
      exact absurd hlength (by decide)
    · have hleast := t.least
      have hvalue : ((t.value + 62135596800000000).toNat : Int) - 62135596800000000 = t.value := by
        omega
      rw [Nat.ofDigits_digits, timeOf, dif_pos (by rw [hvalue]; exact ⟨t.least, t.most⟩)]
      simp only [hvalue]
  uuidText_short := by
    refine written_mem (P := fun s => Ascii s ∧ s.length = 36) ?_ fun u => ⟨?_, ?_⟩
    · simp only [List.forall_mem_cons, List.not_mem_nil, false_imp_iff, implies_true, and_true]
      decide
    · intro n hn
      obtain hn | hn := List.mem_append.1 hn
      · exact digits_ascii _ n hn
      · rw [List.eq_of_mem_replicate hn]
        decide
    · have hlength := length_idDigits u
      rw [List.length_append, List.length_replicate]
      omega
  uuidText_read := by
    refine reading_written (by decide) (fun p hp u heq => ?_) fun u => ?_
    · have hlength := length_idDigits u
      have hzero : 0 ∈ p.2 := by
        rw [heq]
        exact List.mem_append_right _ (List.mem_replicate.2 ⟨by omega, rfl⟩)
      have hgiven : ∀ p ∈ [(sampleId, PyString.ofString "00000000-0000-0000-0000-000000000001"),
          (otherId, .ofString "00000000-0000-0000-0000-000000000002")], 0 ∉ p.2 := by
        decide
      exact hgiven p hp hzero
    · simp only [Nat.ofDigits_append_replicate_zero, Nat.ofDigits_digits, u.isLt, dite_true]
  decodeBytes_ascii := by
    intro text htext
    rw [List.map_map, Option.some.injEq]
    refine (List.map_congr_left fun c hc => ?_).trans text.map_id
    have hsmall := htext c hc
    have hnat : (UInt8.ofNat c.toNat).toNat = c.toNat := by
      rw [UInt8.toNat_ofNat']
      omega
    change Char.ofNat (UInt8.ofNat c.toNat).toNat = c
    rw [hnat, Char.ofNat_toNat]

end Sample

section Confined

variable {codec : CursorCodec} {position : CursorPosition} {collection collection' : PyString}
  {scope scope' : Scope}

/-- No listing but those of its own collection, lifecycle and filters reads a cursor, as long as
`sha256` tells the two texts apart. -/
theorem cursor_confined (hascii : Ascii collection) (hshort : collection.length ≤ 16)
    (hascii' : Ascii collection') (hscope : scope.Written) (hscope' : scope'.Written)
    (hsha256 : codec.sha256 (canonicalScope collection scope) =
      codec.sha256 (canonicalScope collection' scope') →
        canonicalScope collection scope = canonicalScope collection' scope') :
    decodeCursor codec (some (encodeCursor codec position collection scope)) collection' scope' =
      if collection = collection' ∧ scope.Perm scope' then .ok (some position)
      else .error invalidScope := by
  have hsame : collection = collection' ∧
      scopeDigest codec collection scope = scopeDigest codec collection' scope' ↔
        collection = collection' ∧ scope.Perm scope' := by
    have htexts := canonicalScope_inj hascii hascii' hscope hscope'
    refine ⟨fun h => htexts.1 (hsha256 h.2), fun h => ⟨h.1, ?_⟩⟩
    exact congrArg codec.sha256 (htexts.2 h)
  rw [decodeCursor_encodeCursor hascii hshort]
  exact if_congr hsame rfl rfl

/-- The cursor of the active projects is no cursor of the archived ones. -/
theorem cursor_of_active : decodeCursor sampleCodec
    (some (encodeCursor sampleCodec ⟨sampleTime, sampleId⟩ (.ofString "projects")
      (lifecycleScope "active"))) (.ofString "projects") (lifecycleScope "archived") =
      .error invalidScope := by
  have hascii : Ascii (.ofString "projects") := by decide
  have hwritten : (lifecycleScope "active").Written ∧ (lifecycleScope "archived").Written := by
    refine ⟨⟨?_, ?_, ?_⟩, ⟨?_, ?_, ?_⟩⟩ <;> decide
  have hdigests : digestText (canonicalScope (.ofString "projects") (lifecycleScope "active")) ≠
      digestText (canonicalScope (.ofString "projects") (lifecycleScope "archived")) := by
    decide +kernel
  rw [cursor_confined hascii (by decide) hascii hwritten.1 hwritten.2 fun h => absurd h hdigests]
  exact if_neg (by decide)

end Confined

end Fairy.Storage
