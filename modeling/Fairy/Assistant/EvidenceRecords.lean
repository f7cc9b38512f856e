import Fairy.Assistant.EvidenceSurvival

namespace Fairy.Assistant

open Fairy.Lib
open PosixPath (names)

variable {k : UrlCodec} {x : RecordCodec} {record : Json} {key : String}

section Reading

theorem field?_of_mem {fields : List (String × Json)} {value : Json}
    (hkeys : (fields.map Prod.fst).Nodup) (h : (key, value) ∈ fields) :
    (Json.obj fields).field? key = some value := by
  induction fields with
  | nil => exact absurd h List.not_mem_nil
  | cons f fields ih =>
    rw [List.map_cons, List.nodup_cons] at hkeys
    rw [Json.field?, List.find?_cons]
    obtain rfl | h := List.mem_cons.mp h
    · simp
    · have hne : f.1 ≠ key := fun he => hkeys.1 (he ▸ List.mem_map_of_mem h)
      rw [decide_eq_false hne]
      exact ih hkeys.2 h

theorem readText_of_field {s : String} (h : record.field? key = some (.str s)) :
    readText x record key = .ok s := by
  rw [readText, item, h]
  rfl

variable (hx : x.Lawful)
include hx

theorem readId_of_field {id : Uuid} (h : record.field? key = some (.str (x.uuidText id))) :
    readId x record key = .ok id := by
  rw [readId, readText_of_field h, ok_bind, hx.uuid_text]
  rfl

theorem readOptionalId_of_field {id : Option Uuid} (h : record.field? key = some (x.idJson id)) :
    readOptionalId x record key = .ok id := by
  rw [readOptionalId, getItem, h]
  cases id with
  | none => rfl
  | some id =>
    have htrue : truthy (x.idJson (some id)) = true := decide_eq_true (hx.uuid_nonempty id)
    rw [Option.getD_some, if_pos htrue, readId_of_field hx h]
    rfl

theorem parseDatetime_isoformat {d : Datetime} {name : String} {value : Datetime}
    (h : aware name value = .ok d) : parseDatetime x (.str (x.isoformat d)) = .ok d := by
  obtain ⟨hoffset, hlow, hhigh⟩ := aware_ok h
  rw [parseDatetime, hx.iso d hoffset hlow hhigh]
  exact aware_utc hoffset hlow hhigh

theorem readOptionalDatetime_of_field {d value : Option Datetime} {name : String}
    (hd : optional (aware name) value = .ok d)
    (h : record.field? key = some (Json.optional (d.map x.isoformat))) :
    readOptionalDatetime x record key = .ok d := by
  rw [readOptionalDatetime, getItem, h]
  cases value with
  | none =>
    cases hd
    rfl
  | some value =>
    obtain ⟨e, he, rfl⟩ := map_ok hd
    rw [Option.getD_some, if_neg (by simp [Json.optional])]
    change (parseDatetime x (.str (x.isoformat e))).map some = _
    rw [parseDatetime_isoformat hx he]
    rfl

omit hx

theorem readOptionalText_of_field {s : Option String}
    (h : record.field? key = some (Json.optional s)) : readOptionalText x record key = s := by
  rw [readOptionalText, getItem, h]
  cases s with
  | none => rfl
  | some s => rfl

theorem readOptionalInt_of_field {n : Option Int}
    (h : record.field? key = some (RecordCodec.intJson n)) :
    readOptionalInt x record key = .ok n := by
  rw [readOptionalInt, getItem, h]
  cases n with
  | none => rfl
  | some n => rfl

theorem readKind_of_field {α : Type} [DecidableEq α] {all : List α} {value : α → String} {a : α}
    (hall : all.find? (fun b => value b = value a) = some a)
    (h : record.field? key = some (.str (value a))) : readKind x record all value key = .ok a := by
  rw [readKind, readText_of_field h, ok_bind, hall]
  rfl

end Reading

theorem EvidenceRequirementKind.find?_all (kind : EvidenceRequirementKind) :
    all.find? (fun b => b.value = kind.value) = some kind := by
  cases kind <;> simp [all, value]

theorem EvidenceSourceKind.find?_all (kind : EvidenceSourceKind) :
    all.find? (fun b => b.value = kind.value) = some kind := by
  cases kind <;> simp [all, value]

theorem field_of_mem {r : EvidenceReceipt} {value : Json}
    (h : (key, value) ∈ evidenceReceiptFields x r) :
    (evidenceReceiptRecord x r).field? key = some value := by
  refine field?_of_mem ?_ h
  simp [evidenceReceiptFields]

/-- A stored receipt is read back through the constructor. -/
theorem fromRecord_record (hx : x.Lawful) {raw r : EvidenceReceipt} (h : raw.postInit k = .ok r) :
    evidenceReceiptFromRecord x (evidenceReceiptRecord x r) k = r.postInit k := by
  obtain ⟨hn, -, -⟩ := EvidenceReceipt.postInit_ok_iff.mp h
  have hid : ∀ (key : String) (id : Uuid), (key, .str (x.uuidText id)) ∈ evidenceReceiptFields x r →
      readId x (evidenceReceiptRecord x r) key = .ok id := fun _ _ hm =>
    readId_of_field hx (field_of_mem hm)
  have hoptional : ∀ (key : String) (id : Option Uuid),
      (key, x.idJson id) ∈ evidenceReceiptFields x r →
      readOptionalId x (evidenceReceiptRecord x r) key = .ok id := fun _ _ hm =>
    readOptionalId_of_field hx (field_of_mem hm)
  have hint : ∀ (key : String) (n : Option Int),
      (key, RecordCodec.intJson n) ∈ evidenceReceiptFields x r →
      readOptionalInt x (evidenceReceiptRecord x r) key = .ok n := fun _ _ hm =>
    readOptionalInt_of_field (field_of_mem hm)
  have htext : ∀ key s : String, (key, .str s) ∈ evidenceReceiptFields x r →
      readText x (evidenceReceiptRecord x r) key = .ok s := fun _ _ hm =>
    readText_of_field (field_of_mem hm)
  have hlast : ∀ (key : String) (s : Option String),
      (key, Json.optional s) ∈ evidenceReceiptFields x r →
      readOptionalText x (evidenceReceiptRecord x r) key = s := fun _ _ hm =>
    readOptionalText_of_field (field_of_mem hm)
  have hrequirement : readKind x (evidenceReceiptRecord x r) EvidenceRequirementKind.all
      EvidenceRequirementKind.value "requirement_kind" = .ok r.requirementKind :=
    readKind_of_field (EvidenceRequirementKind.find?_all _)
      (field_of_mem (by simp [evidenceReceiptFields]))
  have hsource : readKind x (evidenceReceiptRecord x r) EvidenceSourceKind.all
      EvidenceSourceKind.value "source_kind" = .ok r.sourceKind :=
    readKind_of_field (EvidenceSourceKind.find?_all _)
      (field_of_mem (by simp [evidenceReceiptFields]))
  have hobserved : item (evidenceReceiptRecord x r) "observed_at" =
      .ok (.str (x.isoformat r.observedAt)) := by
    have hfield : (evidenceReceiptRecord x r).field? "observed_at" =
        some (.str (x.isoformat r.observedAt)) := field_of_mem (by simp [evidenceReceiptFields])
    rw [item, hfield]
    rfl
  have hexpires : readOptionalDatetime x (evidenceReceiptRecord x r) "expires_at" =
      .ok r.expiresAt :=
    readOptionalDatetime_of_field hx hn.expires (field_of_mem (by simp [evidenceReceiptFields]))
  have htruncated : truthy (getItem (evidenceReceiptRecord x r) "truncated") = r.truncated := by
    have hfield : (evidenceReceiptRecord x r).field? "truncated" = some (.bool r.truncated) :=
      field_of_mem (by simp [evidenceReceiptFields])
    rw [getItem, hfield]
    rfl
  have hdict : isDict (evidenceReceiptRecord x r) = true := rfl
  unfold evidenceReceiptFromRecord
  dsimp only
  rw [if_neg (not_not.mpr hdict),
    hid "id" r.id (by simp [evidenceReceiptFields]), ok_bind,
    hid "tool_invocation_id" r.toolInvocationId (by simp [evidenceReceiptFields]), ok_bind,
    hid "turn_id" r.turnId (by simp [evidenceReceiptFields]), ok_bind,
    hid "task_id" r.taskId (by simp [evidenceReceiptFields]), ok_bind,
    hid "conversation_id" r.conversationId (by simp [evidenceReceiptFields]), ok_bind,
    hrequirement, ok_bind, hsource, ok_bind,
    htext "tool_name" r.toolName (by simp [evidenceReceiptFields]), ok_bind,
    htext "public_label" r.publicLabel (by simp [evidenceReceiptFields]), ok_bind,
    htext "scope_digest" r.scopeDigest (by simp [evidenceReceiptFields]), ok_bind,
    hid "workspace_id" r.workspaceId (by simp [evidenceReceiptFields]), ok_bind,
    hoptional "project_id" r.projectId (by simp [evidenceReceiptFields]), ok_bind,
    hoptional "version_id" r.versionId (by simp [evidenceReceiptFields]), ok_bind,
    hint "workspace_generation" r.workspaceGeneration (by simp [evidenceReceiptFields]), ok_bind,
    hoptional "memory_snapshot_id" r.memorySnapshotId (by simp [evidenceReceiptFields]), ok_bind,
    hoptional "knowledge_snapshot_id" r.knowledgeSnapshotId (by simp [evidenceReceiptFields]), ok_bind,
    hoptional "document_snapshot_id" r.documentSnapshotId (by simp [evidenceReceiptFields]), ok_bind,
    hint "line_start" r.lineStart (by simp [evidenceReceiptFields]), ok_bind,
    hint "line_end" r.lineEnd (by simp [evidenceReceiptFields]), ok_bind,
    hobserved, ok_bind, parseDatetime_isoformat hx hn.observed, ok_bind, hexpires, ok_bind,
    hlast "memory_snapshot_hash" r.memorySnapshotHash (by simp [evidenceReceiptFields]),
    hlast "knowledge_snapshot_hash" r.knowledgeSnapshotHash (by simp [evidenceReceiptFields]),
    hlast "document_snapshot_hash" r.documentSnapshotHash (by simp [evidenceReceiptFields]),
    hlast "relative_path" r.relativePath (by simp [evidenceReceiptFields]),
    hlast "safe_url" r.safeUrl (by simp [evidenceReceiptFields]),
    hlast "content_hash" r.contentHash (by simp [evidenceReceiptFields]),
    hlast "source_revision" r.sourceRevision (by simp [evidenceReceiptFields]),
    htruncated]

/-- A created receipt is accepted again as it is just where its texts are stable. -/
theorem postInit_fixed_iff (hk : k.Lawful) {raw r : EvidenceReceipt} (h : raw.postInit k = .ok r) :
    r.postInit k = .ok r ↔ raw.Stable k := by
  obtain ⟨hn, hc, hr⟩ := EvidenceReceipt.postInit_ok_iff.mp h
  rw [EvidenceReceipt.postInit_ok_iff, hn.fixed_iff hk]
  refine and_iff_left ⟨?_, ?_⟩
  · obtain ⟨htool, hscope, hmemory, hknowledge, hversion, hbound⟩ := hn.admits_iff.mpr hc
    have htool' : Text.strip (Text.strip raw.toolName) ≠ "" ∧
        (Text.strip (Text.strip raw.toolName)).toList.length ≤ 255 := by
      rw [Text.strip_strip]
      exact htool
    rw [hr]
    exact ⟨htool', hscope, hmemory, hknowledge, hversion, hbound⟩
  · have htool : Text.strip r.toolName = r.toolName := by
      rw [hr]
      exact Text.strip_strip raw.toolName
    rw [htool]

/-- Drafts survive sealing, and receipts their records, just where a URL and a path are read back as
they are and the scope is one that a receipt can be sealed in. -/
theorem evidence_survives_iff (hk : k.Lawful) (hx : x.Lawful) {newId : Nat → Uuid}
    (hnew : Function.Injective newId) :
    (∀ (c : SealContext) (raws drafts : List EvidenceDraft),
      raws.mapM (EvidenceDraft.postInit k) = .ok drafts →
      ((∃ receipts, sealEvidenceDrafts k newId drafts c = .ok receipts ∧
        receipts.map EvidenceReceipt.toEvidenceDraft = drafts) ↔
      ∀ raw ∈ raws, raw.Stable k ∧ c.Admits raw)) ∧
    ∀ raw r : EvidenceReceipt, raw.postInit k = .ok r →
      (evidenceReceiptFromRecord x (evidenceReceiptRecord x r) k = .ok r ↔ raw.Stable k) := by
  refine ⟨fun c raws drafts h => seal_iff hk hnew h, fun raw r h => ?_⟩
  rw [fromRecord_record hx h]
  exact postInit_fixed_iff hk h

section Samples

/-- The codec on texts of ASCII characters. -/
def asciiUrls : UrlCodec where
  lower := List.map Char.toLower
  idna l := if l.all fun c => decide (c.toNat < 128) then some l else none
  casefold := List.map Char.toLower
  netlocOk _ := true
  addressOk l := l.all fun c => c.isAlphanum || c == ':' || c == '.'

theorem asciiUrls_lawful : asciiUrls.Lawful where
  lower_ascii _ _ := rfl
  casefold_ascii _ _ := rfl
  idna_is_ascii l a h := by
    change (if _ then some l else none) = some a at h
    split at h
    · rename_i hall
      cases h
      exact fun c hc => of_decide_eq_true (List.all_eq_true.mp hall c hc)
    · cases h
  idna_of_ascii l a _ h := by
    change (if _ then some l else none) = some a at h
    split at h
    · cases h
      rfl
    · cases h
  idna_nonempty l a hl h := by
    change (if _ then some l else none) = some a at h
    split at h
    · cases h
      exact hl
    · cases h
  lower_nonempty l hl h := hl (List.map_eq_nil_iff.mp h)
  netloc_ascii _ _ := rfl
  delimiters_kept netloc a _ h c hc hmem := by
    change (if _ then some _ else none) = some a at h
    split at h
    · cases h
      obtain hmem | hmem := List.mem_append.mp hmem
      · obtain ⟨d, hd, hdc⟩ := List.mem_map.mp hmem
        rw [← toLower_delimiter hc hdc]
        exact Url.partition_fst_sublist.subset hd
      · exact List.mem_of_mem_drop hmem
    · cases h
  address_head l h hhead := by
    cases l with
    | nil => cases hhead
    | cons c l =>
      cases hhead
      exact absurd (List.all_eq_true.mp h '[' List.mem_cons_self) (by decide)

/-- Ids of one digit as they are written; other ids and instants in a form of their own. -/
def plainRecords : RecordCodec where
  uuidText id := String.ofList ("00000000-0000-0000-0000-".toList ++
    (List.replicate (12 - (Nat.toDigits 10 id).length) '0' ++ Nat.toDigits 10 id))
  uuid s := some (Nat.ofDigitChars 10 (s.toList.drop 24) 0)
  isoformat d := if d.wall = 0 then "0001-01-01T00:00:00+00:00"
    else String.ofList ('@' :: Nat.toDigits 10 d.wall.toNat)
  fromisoformat s := if s = "0001-01-01T00:00:00+00:00" then some ⟨0, some 0⟩
    else some ⟨Nat.ofDigitChars 10 (s.toList.drop 1) 0, some 0⟩
  str _ := ""
  int _ := none

theorem plainRecords_lawful : plainRecords.Lawful where
  uuid_text id := by
    change some (Nat.ofDigitChars 10 ((String.ofList _).toList.drop 24) 0) = _
    rw [String.toList_ofList, List.drop_append_of_le_length (by decide),
      List.drop_of_length_le (by decide), List.nil_append, Nat.ofDigitChars_append,
      Nat.ofDigitChars_replicate_zero, Nat.mul_zero, Nat.ofDigitChars_ten_toDigits]
  uuid_nonempty id h := by
    have hlist := congrArg String.toList h
    change (String.ofList _).toList = _ at hlist
    rw [String.toList_ofList] at hlist
    cases hlist
  iso d hoffset hlow _ := by
    obtain ⟨wall, offset⟩ := d
    cases hoffset
    have hfrom : ∀ s, plainRecords.fromisoformat s =
        if s = "0001-01-01T00:00:00+00:00" then some ⟨0, some 0⟩
        else some ⟨Nat.ofDigitChars 10 (s.toList.drop 1) 0, some 0⟩ := fun _ => rfl
    by_cases hzero : wall = 0
    · have hiso : plainRecords.isoformat ⟨wall, some 0⟩ = "0001-01-01T00:00:00+00:00" := if_pos hzero
      rw [hfrom, hiso, if_pos rfl, hzero]
    · have hiso : plainRecords.isoformat ⟨wall, some 0⟩ =
          String.ofList ('@' :: Nat.toDigits 10 wall.toNat) := if_neg hzero
      have hne : String.ofList ('@' :: Nat.toDigits 10 wall.toNat) ≠ "0001-01-01T00:00:00+00:00" := by
        intro he
        have hlist := congrArg String.toList he
        rw [String.toList_ofList] at hlist
        cases hlist
      rw [hfrom, hiso, if_neg hne, String.toList_ofList, List.drop_succ_cons, List.drop_zero,
        Nat.ofDigitChars_ten_toDigits, Int.toNat_of_nonneg hlow]

def plainDraft : EvidenceDraft where
  requirementKind := .workspaceContent
  sourceKind := .projectFile
  publicLabel := "main"
  relativePath := some "src/main.py"
  lineStart := some 1
  lineEnd := some 3
  safeUrl := none
  contentHash := none
  sourceRevision := none
  documentSnapshotId := none
  documentSnapshotHash := none
  workspaceGeneration := some 1
  observedAt := ⟨0, some 0⟩
  expiresAt := none
  truncated := false

def plainContext : SealContext where
  invocationId := 1
  turnId := 2
  toolName := "project.read"
  taskId := 3
  conversationId := 4
  scopeDigest := String.ofList (List.replicate 64 '0')
  workspaceId := 5
  projectId := none
  targetVersionId := some 6
  memorySnapshotId := none
  memorySnapshotHash := none
  knowledgeSnapshotId := none
  knowledgeSnapshotHash := none

/-- A page at an address between brackets. -/
def bracketedDraft : EvidenceDraft :=
  { plainDraft with
    requirementKind := .webCurrent, sourceKind := .webDocument, relativePath := none
    safeUrl := some "https://[::1]/" }

theorem plain_evidence_survives :
    (∃ receipts, sealEvidenceDrafts asciiUrls id [plainDraft] plainContext = .ok receipts ∧
      receipts.map EvidenceReceipt.toEvidenceDraft = [plainDraft]) ∧
    evidenceReceiptFromRecord plainRecords
      (evidenceReceiptRecord plainRecords (plainContext.receipt 7 plainDraft)) asciiUrls =
        .ok (plainContext.receipt 7 plainDraft) := by
  have hboth := evidence_survives_iff asciiUrls_lawful plainRecords_lawful Function.injective_id
  have hstable : plainDraft.Stable asciiUrls := by
    refine ⟨fun _ h => (by cases h), fun value h => ?_⟩
    cases h
    have hlast : (names (Text.strip (slashed "src/main.py"))).getLast? = some "main.py" := by
      decide +kernel
    intro name hname c hc
    cases hlast.symm.trans hname
    cases hc
    rfl
  have hadmits : plainContext.Admits plainDraft := by
    refine ⟨?_, ?_, ⟨rfl, fun _ h => (by cases h)⟩, ⟨rfl, fun _ h => (by cases h)⟩, fun _ => rfl,
      fun h => (by cases h)⟩ <;> decide +kernel
  constructor
  · refine (hboth.1 plainContext [plainDraft] [plainDraft] (by decide +kernel)).mpr ?_
    rintro raw (_ | ⟨_, hraw⟩)
    · exact ⟨hstable, hadmits⟩
    · cases hraw
  · exact (hboth.2 (plainContext.receipt 7 plainDraft) (plainContext.receipt 7 plainDraft)
      (by decide +kernel)).mpr hstable

/-- A URL whose host is an address loses its brackets, and is then not read again; a path that ends
in a blank and a slash loses first the one and then the other. -/
theorem evidence_not_read_again :
    bracketedDraft.postInit asciiUrls = .ok { bracketedDraft with safeUrl := some "https://::1/" } ∧
    sealEvidenceDrafts asciiUrls id [{ bracketedDraft with safeUrl := some "https://::1/" }]
      plainContext = .error "evidence URL must be a credential-free HTTPS URL" ∧
    (plainContext.receipt 7 { plainDraft with relativePath := some "src /" }).postInit asciiUrls =
      .ok (plainContext.receipt 7 { plainDraft with relativePath := some "src " }) ∧
    evidenceReceiptFromRecord plainRecords (evidenceReceiptRecord plainRecords
      (plainContext.receipt 7 { plainDraft with relativePath := some "src " })) asciiUrls =
        .ok (plainContext.receipt 7 { plainDraft with relativePath := some "src" }) := by
  refine ⟨?_, ?_, ?_, ?_⟩ <;> decide +kernel

end Samples

end Fairy.Assistant
