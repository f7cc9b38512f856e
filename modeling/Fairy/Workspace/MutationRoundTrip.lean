import Fairy.Lib.Fallible
import Fairy.Workspace.StoredMutations

namespace Fairy.Workspace

open Fairy.Lib Fairy.Lib.Base64 Fairy.Lib.JsonText

theorem length_le_utf8 (s : String) : s.length ≤ (utf8 s).length := by
  rw [← String.length_toList, utf8]
  induction s.toList with
  | nil => exact le_rfl
  | cons c l ih =>
    have hc := Char.utf8Size_pos c
    rw [List.flatMap_cons, List.length_append, String.length_utf8EncodeChar, List.length_cons]
    omega

namespace FileMutation

variable {m : FileMutation} {revision : Option Nat}

/-- The dict as it is written, by its keys. -/
def sortedPayload (m : FileMutation) (revision : Option Nat) : List (PyString × Value) :=
  [(PyString.ofString "content_base64",
      optionalText (m.contentBytes.map fun content => (b64encode content).map Char.toNat)),
    (PyString.ofString "destination_path",
      optionalText (m.destinationPath.map fun path => PyString.ofString path.text)),
    (PyString.ofString "expected_hash", optionalText (m.expectedHash.map PyString.ofString)),
    (PyString.ofString "expected_workspace_revision", optionalInt revision),
    (PyString.ofString "operation", .str (PyString.ofString m.operation.value))]

theorem sortKeys_payload (m : FileMutation) (revision : Option Nat) :
    sortKeys (m.payload revision) = m.sortedPayload revision := rfl

theorem exact_optionalText {s : Option PyString} (h : ∀ t ∈ s, Scalars t) :
    Exact (optionalText s) := by
  cases s with
  | none => trivial
  | some t => exact h t rfl

theorem exact_payload (m : FileMutation) (revision : Option Nat) :
    Exact (.obj (m.sortedPayload revision)) := by
  have hkeys : ((m.sortedPayload revision).map Prod.fst).Nodup := by
    change (["content_base64", "destination_path", "expected_hash", "expected_workspace_revision",
      "operation"].map PyString.ofString).Nodup
    decide
  refine ⟨hkeys, scalars_ofString _, ?_, scalars_ofString _, ?_, scalars_ofString _, ?_,
    scalars_ofString _, ?_, scalars_ofString _, scalars_ofString _, trivial⟩
  · refine exact_optionalText fun t ht => ?_
    obtain ⟨content, _, rfl⟩ := Option.mem_map.mp ht
    exact scalars_map _
  · refine exact_optionalText fun t ht => ?_
    obtain ⟨path, _, rfl⟩ := Option.mem_map.mp ht
    exact scalars_ofString _
  · refine exact_optionalText fun t ht => ?_
    obtain ⟨hash, _, rfl⟩ := Option.mem_map.mp ht
    exact scalars_ofString _
  · cases revision <;> trivial

theorem operationOf_value (c : Conversions) (operation : FileMutationOperation) :
    operationOf c (.str (PyString.ofString operation.value)) = .ok operation := by
  simp only [operationOf, c.str_str]
  cases operation <;> rfl

theorem present_optionalText (c : Conversions) {fields : List (PyString × Value)} {key : String}
    {s : Option PyString} (h : get? fields (PyString.ofString key) = some (optionalText s)) :
    (present fields key).map c.str = s := by
  rw [present, h]
  cases s with
  | none => rfl
  | some t => exact congrArg some (c.str_str t)

theorem decodedContent_payload (m : FileMutation) (revision : Option Nat) :
    decodedContent (m.sortedPayload revision) = .ok m.contentBytes := by
  have hget : get? (m.sortedPayload revision) (PyString.ofString "content_base64") =
      some (optionalText (m.contentBytes.map fun content => (b64encode content).map Char.toNat)) :=
    rfl
  rw [decodedContent, hget]
  cases m.contentBytes with
  | none => rfl
  | some content => simp only [Option.map_some, optionalText, b64decode_b64encode]

theorem decodedRevision_payload (c : Conversions) (m : FileMutation) (revision : Option Nat) :
    decodedRevision c (m.sortedPayload revision) = .ok (revision.map Int.ofNat) := by
  cases revision with
  | none => rfl
  | some n => exact congrArg (Except.map some) (c.int_int n)

theorem decodeEnvelope_payload (c : Conversions) (m : FileMutation) (revision : Option Nat) :
    decodeEnvelope c m.path.text (dumps (.obj (m.sortedPayload revision))) =
      .ok (m.mutation revision).stored := by
  have hoperation : decodedOperation c (m.sortedPayload revision) = .ok m.operation :=
    operationOf_value c m.operation
  have hdestination : (present (m.sortedPayload revision) "destination_path").map c.str =
      m.destinationPath.map fun path => PyString.ofString path.text :=
    present_optionalText c rfl
  have hhash : (present (m.sortedPayload revision) "expected_hash").map c.str =
      m.expectedHash.map PyString.ofString := present_optionalText c rfl
  simp only [decodeEnvelope, loads_dumps (exact_payload m revision), decodedContent_payload,
    hoperation, decodedRevision_payload, hdestination, hhash]
  rfl

/-- A string of the dict that a text holds is shorter than the text. -/
theorem length_encoded {text : List Char} {fields : List (PyString × Value)} {key s : PyString}
    (h : loads text = some (.obj fields)) (hget : get? fields key = some (.str s)) :
    s.length < text.length := by
  have hskip := length_skip text
  simp only [loads] at h
  split at h
  · cases h
  · rename_i v rest hread
    simp only [Option.ite_none_right_eq_some, Option.some.injEq] at h
    obtain ⟨f, hfind, hf⟩ := Option.map_eq_some_iff.mp hget
    have hbelow := ((takes _).value hread).2.2 fields h.2
    have hlt := hbelow f (List.mem_of_find?_eq_some hfind) s hf
    omega

/-- A content shorter than the text it is read from is no content of that text. -/
theorem decodeEnvelope_short {c : Conversions} {path : String} {text : List Char}
    {x : StoredMutation} (h : decodeEnvelope c path text = .ok x) :
    ∀ content ∈ x.content, content.length ≤ text.length := by
  intro content hx
  simp only [decodeEnvelope] at h
  split at h
  · rename_i fields hloads
    obtain ⟨content', hcontent, h⟩ := bind_ok h
    obtain ⟨operation, _, h⟩ := bind_ok h
    obtain ⟨revision, _, h⟩ := bind_ok h
    cases h
    simp only [decodedContent] at hcontent
    split at hcontent
    · rename_i encoded hget
      split at hcontent
      · cases hcontent
      · rename_i decoded hdecode
        cases hcontent
        cases hx
        have hlength := length_b64decode hdecode
        have hencoded := length_encoded hloads hget
        omega
    · cases hcontent
      cases hx
  · cases h

theorem destinationPath_of_accepted (m : FileMutation) (h : m.operation ≠ .rename) :
    m.destinationPath = none := by
  obtain ⟨_, _, h₁⟩ := bind_ok m.accepted
  obtain ⟨_, _, h₂⟩ := bind_ok h₁
  obtain ⟨_, _, h₃⟩ := bind_ok h₂
  obtain ⟨_, _, h₄⟩ := bind_ok h₃
  obtain ⟨_, _, h₅⟩ := bind_ok h₄
  obtain ⟨_, _, h₆⟩ := bind_ok h₅
  rw [MutationFields.requireDestination, if_neg h, MutationFields.refuse] at h₆
  split at h₆
  · cases h₆
  · exact not_not.mp ‹_›

/-- A plain text that begins as an envelope does. -/
def LooksEncoded (m : FileMutation) (revision : Option Nat) : Prop :=
  m.Plain revision ∧ ∀ content ∈ m.content, mutationPrefix <+: content.toList

/-- What a changeset item stores is read back as the mutation that was proposed if
and only if no plain content was stored that looks like an envelope. -/
theorem mutation_stored_iff (c : Conversions) (m : FileMutation) (revision : Option Nat) :
    decodeMutation c m.path.text (m.encodeMutation revision) = .ok (m.mutation revision).stored ↔
      ¬ m.LooksEncoded revision := by
  by_cases hplain : m.Plain revision
  · obtain ⟨content, hcontent⟩ := Option.ne_none_iff_exists'.mp hplain.2.1
    have hbytes : m.contentBytes = some (utf8 content) := by rw [contentBytes, hcontent]
    have hencode : m.encodeMutation revision = content.toList := by
      rw [encodeMutation, if_pos hplain, hcontent]
      rfl
    rw [hencode]
    by_cases hprefix : mutationPrefix <+: content.toList
    · have hlooks : m.LooksEncoded revision := by
        refine ⟨hplain, fun content' h => ?_⟩
        cases hcontent.symm.trans h
        exact hprefix
      refine ⟨fun h => ?_, fun h => absurd hlooks h⟩
      rw [decodeMutation, if_pos hprefix] at h
      have hshort := decodeEnvelope_short h (utf8 content) hbytes
      have hlong := length_le_utf8 content
      have hprefix := hprefix.length_le
      rw [List.length_drop, String.length_toList] at hshort
      rw [String.length_toList] at hprefix
      change 23 ≤ _ at hprefix
      change _ ≤ _ - 23 at hshort
      omega
    · refine ⟨fun _ h => hprefix (h.2 content hcontent), fun _ => ?_⟩
      obtain ⟨hoperation, _, _, hhash, rfl⟩ := hplain
      have hdestination := m.destinationPath_of_accepted (by rw [hoperation]; decide)
      rw [decodeMutation, if_neg hprefix, String.ofList_toList]
      simp only [mutation, WorkspaceFileMutation.stored, hoperation, hdestination, hbytes, hhash]
      rfl
  · refine ⟨fun _ h => hplain h.1, fun _ => ?_⟩
    rw [encodeMutation, if_neg hplain, decodeMutation, if_pos (List.prefix_append _ _),
      List.drop_left, sortKeys_payload]
    exact decodeEnvelope_payload c m revision

end FileMutation

/-- `str` and `int` of strings and of integers. -/
def sampleConversions : Conversions where
  str
    | .str s => s
    | _ => []
  int
    | .int n => .ok n
    | _ => .error .typeError
  str_str _ := rfl
  int_int _ := rfl

/-- A file whose text is an envelope. -/
def disguisedRequest : MutationRequest where
  operation := .upsert
  path := "a"
  destinationPath := none
  content :=
    some "fairy-file-mutation-v1:\x7b\"operation\":\"delete\",\"expected_hash\":\"00\"\x7d"
  contentBase64 := none
  expectedHash := none

/-- The write that was approved is read back as a deletion. -/
theorem mutation_stored_otherwise : ∃ m, disguisedRequest.validate = .ok m ∧
    decodeMutation sampleConversions m.path.text (m.encodeMutation none) =
      .ok ⟨.delete, "a", none, none, some [48, 48], none⟩ ∧
    decodeMutation sampleConversions m.path.text (m.encodeMutation none) ≠
      .ok (m.mutation none).stored := by
  have hdecoded : (disguisedRequest.validate.toOption.any fun m =>
      (decodeMutation sampleConversions m.path.text (m.encodeMutation none)).toOption =
        some ⟨.delete, "a", none, none, some [48, 48], none⟩ ∧
      (m.mutation none).stored.operation = .upsert) = true := by
    decide +kernel
  cases hm : disguisedRequest.validate with
  | error e =>
    rw [hm] at hdecoded
    cases hdecoded
  | ok m =>
    rw [hm] at hdecoded
    obtain ⟨hread, hoperation⟩ := of_decide_eq_true hdecoded
    cases hd : decodeMutation sampleConversions m.path.text (m.encodeMutation none) with
    | error e =>
      rw [hd] at hread
      cases hread
    | ok x =>
      rw [hd] at hread
      cases hread
      refine ⟨m, rfl, hd, fun h => ?_⟩
      have hsame := congrArg StoredMutation.operation (Except.ok.inj (hd.symm.trans h))
      rw [hoperation] at hsame
      cases hsame

end Fairy.Workspace
