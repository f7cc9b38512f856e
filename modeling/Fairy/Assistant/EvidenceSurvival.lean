import Mathlib.Data.List.Nodup
import Mathlib.Data.List.Dedup
import Fairy.Assistant.Evidence
import Fairy.Assistant.PathStability
import Fairy.Assistant.UrlStability

namespace Fairy.Assistant

open Fairy.Lib

variable {k : UrlCodec} {x : RecordCodec}

/-- The texts of a draft that are left as they are once they have been normalised. -/
structure EvidenceDraft.Stable (k : UrlCodec) (raw : EvidenceDraft) : Prop where
  url : ∀ value ∈ raw.safeUrl, StableUrl k value
  path : ∀ value ∈ raw.relativePath, StablePath value

/-- What the two constructors make of the fields they share, and what both check. -/
structure Normalized (k : UrlCodec) (raw d : EvidenceDraft) : Prop where
  label : label raw.publicLabel = .ok d.publicLabel
  path : optional relativePath raw.relativePath = .ok d.relativePath
  url : optional (safeUrl k) raw.safeUrl = .ok d.safeUrl
  content : optional digest raw.contentHash = .ok d.contentHash
  revision : optional revision raw.sourceRevision = .ok d.sourceRevision
  document : optional digest raw.documentSnapshotHash = .ok d.documentSnapshotHash
  observed : aware "observed_at" raw.observedAt = .ok d.observedAt
  expires : optional (aware "expires_at") raw.expiresAt = .ok d.expiresAt
  expiry : checkExpiry d.observedAt d.expiresAt = .ok ()
  lines : lineRange raw.lineStart raw.lineEnd = .ok ()
  snapshot : paired "Document Snapshot" raw.documentSnapshotId d.documentSnapshotHash = .ok ()
  kept : d = { raw with
    publicLabel := d.publicLabel, relativePath := d.relativePath, safeUrl := d.safeUrl
    contentHash := d.contentHash, sourceRevision := d.sourceRevision
    documentSnapshotHash := d.documentSnapshotHash, observedAt := d.observedAt
    expiresAt := d.expiresAt }

/-- The fields are settled once but for a URL and a path. -/
theorem Normalized.fixed_iff (hk : k.Lawful) {raw d : EvidenceDraft} (h : Normalized k raw d) :
    Normalized k d d ↔ raw.Stable k := by
  have hurl := optional_fixed_iff (fun _ _ hv => safeUrl_idem_iff hk hv) h.url
  have hpath := optional_fixed_iff (fun _ _ hv => relativePath_idem_iff hv) h.path
  constructor
  · intro hd
    exact ⟨hurl.mp hd.url, hpath.mp hd.path⟩
  · intro hs
    have hlines : lineRange d.lineStart d.lineEnd = .ok () := by
      rw [h.kept]
      exact h.lines
    have hsnapshot : paired "Document Snapshot" d.documentSnapshotId d.documentSnapshotHash =
        .ok () := by
      have hid : d.documentSnapshotId = raw.documentSnapshotId := by rw [h.kept]
      rw [hid]
      exact h.snapshot
    exact {
      label := label_settled _ _ h.label
      path := hpath.mpr hs.path
      url := hurl.mpr hs.url
      content := digest_settled.optional _ _ h.content
      revision := (required_settled _ _).optional _ _ h.revision
      document := digest_settled.optional _ _ h.document
      observed := aware_settled _ _ h.observed
      expires := Settled.optional (fun _ _ hd => aware_settled _ _ hd) _ _ h.expires
      expiry := h.expiry
      lines := hlines
      snapshot := hsnapshot
      kept := rfl }

theorem EvidenceDraft.postInit_ok {raw d : EvidenceDraft} (h : raw.postInit k = .ok d) :
    Normalized k raw d := by
  unfold EvidenceDraft.postInit at h
  obtain ⟨publicLabel, hlabel, h⟩ := bind_ok h
  obtain ⟨path, hpath, h⟩ := bind_ok h
  obtain ⟨url, hurl, h⟩ := bind_ok h
  obtain ⟨content, hcontent, h⟩ := bind_ok h
  obtain ⟨revision, hrevision, h⟩ := bind_ok h
  obtain ⟨document, hdocument, h⟩ := bind_ok h
  obtain ⟨observed, hobserved, h⟩ := bind_ok h
  obtain ⟨expires, hexpires, h⟩ := bind_ok h
  obtain ⟨_, hexpiry, h⟩ := bind_ok h
  obtain ⟨_, hlines, h⟩ := bind_ok h
  obtain ⟨_, hsnapshot, h⟩ := bind_ok h
  simp only [↓check_bind_ok_iff] at h
  obtain ⟨_, _, _, _, _, _, _, _, h⟩ := h
  cases pure_ok h
  exact ⟨hlabel, hpath, hurl, hcontent, hrevision, hdocument, hobserved, hexpires, hexpiry, hlines,
    hsnapshot, rfl⟩

section Context

/-- A snapshot and its hash come together, and the hash is one. -/
def Pinned (identifier : Option Uuid) (hash : Option String) : Prop :=
  identifier.isNone = hash.isNone ∧ ∀ value ∈ hash, isSha256 value = true

/-- What a receipt asks of the call and the scope it is sealed in. -/
structure SealContext.Admits (c : SealContext) (d : EvidenceDraft) : Prop where
  tool : Text.strip c.toolName ≠ "" ∧ (Text.strip c.toolName).toList.length ≤ 255
  scope : isSha256 c.scopeDigest = true
  memory : Pinned c.memorySnapshotId c.memorySnapshotHash
  knowledge : Pinned c.knowledgeSnapshotId c.knowledgeSnapshotHash
  version : d.sourceKind.workspace = true → c.targetVersionId.isSome = true
  bound : d.sourceKind = .privateSnapshot → c.memorySnapshotId.isSome = true ∨
    c.knowledgeSnapshotId.isSome = true ∨ d.documentSnapshotId.isSome = true

def EvidenceReceipt.context (r : EvidenceReceipt) : SealContext where
  invocationId := r.toolInvocationId
  turnId := r.turnId
  toolName := r.toolName
  taskId := r.taskId
  conversationId := r.conversationId
  scopeDigest := r.scopeDigest
  workspaceId := r.workspaceId
  projectId := r.projectId
  targetVersionId := r.versionId
  memorySnapshotId := r.memorySnapshotId
  memorySnapshotHash := r.memorySnapshotHash
  knowledgeSnapshotId := r.knowledgeSnapshotId
  knowledgeSnapshotHash := r.knowledgeSnapshotHash

theorem paired_ok_iff {name : String} {identifier : Option Uuid} {hash : Option String} :
    paired name identifier hash = .ok () ↔ identifier.isNone = hash.isNone := by
  rw [paired, check_ok_iff, Decidable.not_not]
  exact and_iff_left rfl

theorem optional_digest_iff {hash hash' : Option String} :
    optional digest hash = .ok hash' ↔ hash' = hash ∧ ∀ value ∈ hash, isSha256 value = true := by
  cases hash with
  | none =>
    refine ⟨fun h => ?_, fun h => by rw [h.1]; rfl⟩
    cases h
    exact ⟨rfl, fun _ hv => by cases hv⟩
  | some value =>
    constructor
    · intro h
      obtain ⟨w, hw, rfl⟩ := map_ok h
      obtain ⟨rfl, hhex⟩ := digest_ok_iff.mp hw
      exact ⟨rfl, fun _ hv => by cases hv; exact hhex⟩
    · rintro ⟨rfl, hhex⟩
      exact optional_some_iff.mpr (digest_ok_iff.mpr ⟨rfl, hhex value rfl⟩)

/-- What the constructor of a receipt accepts, and what it makes of it. -/
theorem EvidenceReceipt.postInit_ok_iff {raw r : EvidenceReceipt} :
    raw.postInit k = .ok r ↔ Normalized k raw.toEvidenceDraft r.toEvidenceDraft ∧
      raw.context.Admits raw.toEvidenceDraft ∧
        r = { raw with toEvidenceDraft := r.toEvidenceDraft, toolName := Text.strip raw.toolName } := by
  unfold EvidenceReceipt.postInit
  constructor
  · intro h
    obtain ⟨toolName, htool, h⟩ := bind_ok h
    obtain ⟨publicLabel, hlabel, h⟩ := bind_ok h
    obtain ⟨path, hpath, h⟩ := bind_ok h
    obtain ⟨url, hurl, h⟩ := bind_ok h
    obtain ⟨content, hcontent, h⟩ := bind_ok h
    obtain ⟨memory, hmemory, h⟩ := bind_ok h
    obtain ⟨knowledge, hknowledge, h⟩ := bind_ok h
    obtain ⟨document, hdocument, h⟩ := bind_ok h
    obtain ⟨revision, hrevision, h⟩ := bind_ok h
    obtain ⟨hscope, h⟩ := check_bind_ok_iff.mp h
    obtain ⟨_, hlines, h⟩ := bind_ok h
    obtain ⟨observed, hobserved, h⟩ := bind_ok h
    obtain ⟨expires, hexpires, h⟩ := bind_ok h
    obtain ⟨_, hexpiry, h⟩ := bind_ok h
    obtain ⟨_, hmemory', h⟩ := bind_ok h
    obtain ⟨_, hknowledge', h⟩ := bind_ok h
    obtain ⟨_, hsnapshot, h⟩ := bind_ok h
    obtain ⟨hversion, h⟩ := check_bind_ok_iff.mp h
    obtain ⟨hbound, h⟩ := check_bind_ok_iff.mp h
    cases pure_ok h
    obtain ⟨rfl, hne, hlength⟩ := required_ok_iff.mp htool
    obtain ⟨rfl, hmemoryHex⟩ := optional_digest_iff.mp hmemory
    obtain ⟨rfl, hknowledgeHex⟩ := optional_digest_iff.mp hknowledge
    refine ⟨⟨hlabel, hpath, hurl, hcontent, hrevision, hdocument, hobserved, hexpires, hexpiry,
      hlines, hsnapshot, rfl⟩, ⟨⟨hne, hlength⟩, not_not.mp hscope,
      ⟨paired_ok_iff.mp hmemory', hmemoryHex⟩, ⟨paired_ok_iff.mp hknowledge', hknowledgeHex⟩,
      fun hws => ?_, fun hprivate => ?_⟩, rfl⟩
    · by_contra hnone
      exact hversion ⟨hws, Option.isNone_iff_eq_none.mpr (Option.not_isSome_iff_eq_none.mp hnone)⟩
    · by_contra hnone
      exact hbound ⟨hprivate, hnone⟩
  · rintro ⟨hn, hc, hr⟩
    have htool : required "tool_name" 255 raw.toolName = .ok (Text.strip raw.toolName) :=
      required_ok_iff.mpr ⟨rfl, hc.tool.1, hc.tool.2⟩
    have hmemory : optional digest raw.memorySnapshotHash = .ok raw.memorySnapshotHash :=
      optional_digest_iff.mpr ⟨rfl, hc.memory.2⟩
    have hknowledge : optional digest raw.knowledgeSnapshotHash = .ok raw.knowledgeSnapshotHash :=
      optional_digest_iff.mpr ⟨rfl, hc.knowledge.2⟩
    have hmemory' : paired "Memory Snapshot" raw.memorySnapshotId raw.memorySnapshotHash = .ok () :=
      paired_ok_iff.mpr hc.memory.1
    have hknowledge' : paired "Knowledge Snapshot" raw.knowledgeSnapshotId
        raw.knowledgeSnapshotHash = .ok () := paired_ok_iff.mpr hc.knowledge.1
    rw [htool, ok_bind, hn.label, ok_bind, hn.path, ok_bind, hn.url, ok_bind, hn.content, ok_bind,
      hmemory, ok_bind, hknowledge, ok_bind, hn.document, ok_bind, hn.revision, ok_bind]
    refine check_bind_ok_iff.mpr ⟨not_not.mpr hc.scope, ?_⟩
    rw [hn.lines, ok_bind, hn.observed, ok_bind, hn.expires, ok_bind, hn.expiry, ok_bind, hmemory',
      ok_bind, hknowledge', ok_bind, hn.snapshot, ok_bind]
    refine check_bind_ok_iff.mpr ⟨fun h => ?_, check_bind_ok_iff.mpr ⟨fun h => ?_, ?_⟩⟩
    · have hsome := hc.version h.1
      change raw.versionId.isSome = true at hsome
      rw [Option.isNone_iff_eq_none] at h
      rw [h.2] at hsome
      cases hsome
    · exact h.2 (hc.bound h.1)
    · conv_rhs => rw [hr, hn.kept]
      rfl

end Context

section Sealing

variable {newId : Nat → Uuid} {c : SealContext} {id : Uuid} {raw d : EvidenceDraft}

/-- The receipt that the constructor returns when it leaves the draft as it is. -/
def SealContext.sealed (c : SealContext) (id : Uuid) (d : EvidenceDraft) : EvidenceReceipt :=
  { c.receipt id d with toolName := Text.strip c.toolName }

theorem Normalized.admits_iff (h : Normalized k raw d) : c.Admits d ↔ c.Admits raw := by
  have hkind : d.sourceKind = raw.sourceKind := by rw [h.kept]
  have hdocument : d.documentSnapshotId = raw.documentSnapshotId := by rw [h.kept]
  constructor
  · rintro ⟨htool, hscope, hmemory, hknowledge, hversion, hbound⟩
    exact ⟨htool, hscope, hmemory, hknowledge, hkind ▸ hversion, hkind ▸ hdocument ▸ hbound⟩
  · rintro ⟨htool, hscope, hmemory, hknowledge, hversion, hbound⟩
    exact ⟨htool, hscope, hmemory, hknowledge, hkind ▸ hversion, hkind ▸ hdocument ▸ hbound⟩

theorem receipt_ok_iff (hk : k.Lawful) (h : Normalized k raw d) {r : EvidenceReceipt} :
    (c.receipt id d).postInit k = .ok r ∧ r.toEvidenceDraft = d ↔
      r = c.sealed id d ∧ raw.Stable k ∧ c.Admits raw := by
  rw [EvidenceReceipt.postInit_ok_iff]
  constructor
  · rintro ⟨⟨hn, hc, hr⟩, hd⟩
    rw [hd] at hn hr
    exact ⟨hr, (h.fixed_iff hk).mp hn, h.admits_iff.mp hc⟩
  · rintro ⟨rfl, hs, hc⟩
    exact ⟨⟨(h.fixed_iff hk).mpr hs, h.admits_iff.mpr hc, rfl⟩, rfl⟩

/-- Sealing keeps every draft just where the drafts are stable and the scope admits them. -/
theorem seal_iff (hk : k.Lawful) (hnew : Function.Injective newId) {raws drafts : List EvidenceDraft}
    (h : raws.mapM (EvidenceDraft.postInit k) = .ok drafts) :
    (∃ receipts, sealEvidenceDrafts k newId drafts c = .ok receipts ∧
      receipts.map EvidenceReceipt.toEvidenceDraft = drafts) ↔
    ∀ raw ∈ raws, raw.Stable k ∧ c.Admits raw := by
  have hall := mapM_ok h
  rw [sealEvidenceDrafts]
  constructor
  · rintro ⟨receipts, hseal, hkept⟩ raw hraw
    obtain ⟨sealed, hsealed, hseal⟩ := bind_ok hseal
    obtain ⟨_, hseal⟩ := check_bind_ok_iff.mp hseal
    cases pure_ok hseal
    have hreceipts := mapM_ok hsealed
    obtain ⟨i, hi, rfl⟩ := List.mem_iff_getElem.mp hraw
    have hidraft : i < drafts.length := hall.length_eq ▸ hi
    have hizip : i < drafts.zipIdx.length := by rwa [List.length_zipIdx]
    have hireceipt : i < receipts.length := hreceipts.length_eq ▸ hizip
    have hdraft := EvidenceDraft.postInit_ok (hall.get hi hidraft)
    have hone := hreceipts.get hizip hireceipt
    simp only [List.get_eq_getElem, List.getElem_zipIdx] at hone hdraft
    have hsame : receipts[i].toEvidenceDraft = drafts[i] := by
      have := List.getElem_map (f := EvidenceReceipt.toEvidenceDraft) (l := receipts) (i := i)
        (h := by rwa [List.length_map])
      rw [← this]
      exact List.getElem_of_eq hkept _
    exact ((receipt_ok_iff hk hdraft).mp ⟨hone, hsame⟩).2
  · intro hstable
    have hmap : (drafts.zipIdx.mapM fun p => (c.receipt (newId p.2) p.1).postInit k) =
        .ok (drafts.zipIdx.map fun p => c.sealed (newId p.2) p.1) := by
      refine mapM_eq_map fun p hp => ?_
      obtain ⟨raw, hraw, hone⟩ := mapM_mem h (List.fst_mem_of_mem_zipIdx hp)
      exact ((receipt_ok_iff hk (EvidenceDraft.postInit_ok hone)).mpr ⟨rfl, hstable raw hraw⟩).1
    have hids : (drafts.zipIdx.map fun p => c.sealed (newId p.2) p.1).map EvidenceReceipt.id =
        (drafts.zipIdx.map Prod.snd).map newId := by
      rw [List.map_map, List.map_map]
      rfl
    have hnodup : ((drafts.zipIdx.map fun p => c.sealed (newId p.2) p.1).map
        EvidenceReceipt.id).Nodup := by
      rw [hids, List.zipIdx_map_snd]
      exact (List.nodup_range' ..).map hnew
    have hkept : (drafts.zipIdx.map fun p => c.sealed (newId p.2) p.1).map
        EvidenceReceipt.toEvidenceDraft = drafts := by
      rw [List.map_map]
      exact List.zipIdx_map_fst 0 drafts
    refine ⟨_, ?_, hkept⟩
    rw [hmap, ok_bind]
    refine check_bind_ok_iff.mpr ⟨?_, rfl⟩
    rw [hnodup.dedup, List.length_map]
    exact not_not.mpr rfl

end Sealing

end Fairy.Assistant
