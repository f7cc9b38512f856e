import Fairy.Memory.Forgetting
import Fairy.Snapshot.Canonical

namespace Fairy.Memory

open Fairy.Lib
open Fairy.Commanding (Uuid Time)

/-- What becomes of a claim: it stays in its conflict set and never gets into a conflict. -/
structure ClaimRow.Follows (c c' : ClaimRow) : Prop where
  id : c'.id = c.id
  conflictSetId : c'.conflictSetId = c.conflictSetId
  status : c'.status = .conflicted → c.status = .conflicted

namespace ClaimRow.Follows

variable {c c' c'' : ClaimRow}

theorem refl (c : ClaimRow) : c.Follows c := ⟨rfl, rfl, fun h => h⟩

theorem trans (h : c.Follows c') (h' : c'.Follows c'') : c.Follows c'' :=
  ⟨h'.id.trans h.id, h'.conflictSetId.trans h.conflictSetId, fun hs => h.status (h'.status hs)⟩

end ClaimRow.Follows

namespace MemoryStore

variable {x : Hashing} {s t u : MemoryStore} {act : MemoryAct} {key : String}

/-- Each claim of the first store is followed by one of the second. -/
def ClaimsFollow (s t : MemoryStore) : Prop :=
  ∀ c : ClaimRow, c ∈ s.claims → ∃ c' : ClaimRow, c' ∈ t.claims ∧ c.Follows c'

theorem ClaimsFollow.of_eq (h : t.claims = s.claims) : s.ClaimsFollow t := fun c hc =>
  ⟨c, h ▸ hc, .refl c⟩

theorem ClaimsFollow.trans (h : s.ClaimsFollow t) (h' : t.ClaimsFollow u) : s.ClaimsFollow u := by
  intro c hc
  obtain ⟨c', hc', hfollows⟩ := h c hc
  obtain ⟨c'', hc'', hfollows'⟩ := h' c' hc'
  exact ⟨c'', hc'', hfollows.trans hfollows'⟩

theorem ClaimsFollow.of_map {f : ClaimRow → ClaimRow} (hf : ∀ c : ClaimRow, c.Follows (f c))
    (h : t.claims.rows = s.claims.rows.map f) : s.ClaimsFollow t := fun c hc =>
  ⟨f c, (Table.mem_of_rows_map h).mpr ⟨c, hc, rfl⟩, hf c⟩

theorem ClaimsFollow.of_replaces {c c' : ClaimRow} (hf : c.Follows c')
    (h : Table.Replaces s.claims t.claims c c') : s.ClaimsFollow t := by
  intro other hother
  by_cases hid : other.id = c.id
  · rw [Table.eq_of_key hother h.1 hid]
    exact ⟨c', h.mem, hf⟩
  · exact ⟨other, h.mem_other hother hid, .refl other⟩

/-- A revision ends no claim's conflict and begins none. -/
theorem follows_advancedClaim (now : Time) (revision : MemoryClaimRevision) (c : ClaimRow) :
    c.Follows (advancedClaim now revision (revisedStatus now c.status revision) c) := by
  refine ⟨rfl, rfl, fun h => ?_⟩
  change revisedStatus now c.status revision = .conflicted at h
  simp only [revisedStatus] at h
  split at h
  · cases h
  · split at h
    · cases h
    · exact h

theorem resolvedStatus_ne_conflicted (now : Time) (revision : MemoryClaimRevision) :
    resolvedStatus now revision ≠ .conflicted := by
  unfold resolvedStatus
  split <;> exact nofun

theorem follows_settledClaim {c c' : ClaimRow} {updatedAt decidedAt : Time}
    {revision : MemoryClaimRevision} (h : c.Follows c') :
    c.Follows (settledClaim updatedAt (resolvedStatus decidedAt revision) c') :=
  ⟨h.id, h.conflictSetId, fun hs => absurd hs (resolvedStatus_ne_conflicted decidedAt revision)⟩

theorem createClaim_follows {claim : MemoryClaim} (h : s.createClaim x claim key = .ok t) :
    s.ClaimsFollow t := by
  simp only [createClaim] at h
  obtain ⟨_, _, h⟩ := bind_ok h
  split at h
  · split at h <;> cases h
  · obtain ⟨_, _, h⟩ := bind_ok h
    obtain rfl := pure_ok h
    obtain hsame | ⟨_, hrows⟩ := s.insertClaim_cases _
    · exact .of_eq (by rw [hsame])
    · intro c hc
      refine ⟨c, ?_, .refl c⟩
      rw [Table.mem_iff, hrows]
      exact List.mem_append_left _ hc

theorem forget_follows {tombstone : MemoryTombstone} (h : s.forget x tombstone key = .ok t) :
    s.ClaimsFollow t := by
  simp only [forget] at h
  obtain ⟨_, _, h⟩ := bind_ok h
  obtain ⟨_, _, h⟩ := bind_ok h
  obtain ⟨_, _, h⟩ := bind_ok h
  obtain ⟨_, _, h⟩ := bind_ok h
  split at h
  · cases h
  obtain ⟨_, _, h⟩ := bind_ok h
  obtain ⟨_, _, h⟩ := bind_ok h
  obtain rfl := pure_ok h
  by_cases hkind : tombstone.targetKind = .claim
  · rw [if_pos hkind, forgetTarget, if_pos hkind]
    refine .of_map (f := fun c => if c.id = tombstone.targetId then forgottenClaim c else c)
      (fun c => ?_) rfl
    split
    · exact ⟨rfl, rfl, fun hactive => by cases hactive⟩
    · exact .refl c
  · rw [if_neg hkind]
    exact .of_eq (forgetTarget_observation _ _ hkind).1

theorem purgeForgottenPayloads_follows {before : Time} {limit : Nat}
    {result : MemoryPayloadPurgeResult}
    (h : s.purgeForgottenPayloads x before limit = .ok (t, result)) : s.ClaimsFollow t := by
  simp only [purgeForgottenPayloads] at h
  split at h
  · cases h
  cases h
  refine .of_map (fun c => ?_) rfl
  split <;> exact ⟨rfl, rfl, fun h => h⟩

theorem perform_follows (h : s.perform x act = .ok t) : s.ClaimsFollow t := by
  cases act with
  | recordEvent event =>
    simp only [perform, recordEvent] at h
    split at h <;> cases h
    exact .of_eq rfl
  | appendObservation observation key => exact .of_eq (appendObservation_ok h).1
  | transitionObservation observationId expected status =>
    exact .of_eq (transitionObservation_ok h).1
  | createClaim claim key => exact createClaim_follows h
  | appendRevision now claimId expected revision key =>
    obtain ⟨⟨_, updated⟩, happend, rfl⟩ := map_ok h
    obtain ⟨rfl, _⟩ | ⟨c, c', row, _, _, rfl, hrevises⟩ := appendRevisionWith_ok happend
    · exact .of_eq rfl
    · exact .of_replaces (follows_advancedClaim now revision c) hrevises.claims
  | resolveConflict now decidedAt updatedAt claimId expected revision resolved key =>
    obtain ⟨rfl, _⟩ | ⟨c, c', row, _, _, _, rfl, hrevises⟩ := resolveConflict_cases h
    · exact .of_eq rfl
    · exact .of_replaces (follows_settledClaim (follows_advancedClaim now revision c))
        hrevises.claims
  | forget tombstone key => exact forget_follows h
  | purgeForgottenPayloads before limit =>
    obtain ⟨⟨_, result⟩, hpurge, rfl⟩ := map_ok h
    exact purgeForgottenPayloads_follows hpurge
  | bindItem item =>
    cases h
    exact .of_eq rfl

/-- A claim that is named in a resolution is in the conflict set. -/
theorem verifyConflictSet_ok {conflictSetId : Option Uuid} {id : Uuid}
    (h : s.verifyConflictSet conflictSetId id = .ok ()) :
    ∃ named ∈ s.claims, named.id = id ∧ named.conflictSetId = conflictSetId := by
  unfold verifyConflictSet at h
  split at h
  · cases h
  · rename_i named hnamed
    obtain ⟨hmem, hid⟩ := Table.find?_eq_some.mp hnamed
    split at h
    · cases h
    · rename_i hset
      exact ⟨named, hmem, hid, not_not.mp hset⟩

/-- Along every run a claim stays in its conflict set, and out of a conflict once it is. -/
theorem ClaimsFollow.run {ok : MemoryStore → MemoryAct → Prop} (h : Run (Step x) ok s t) :
    s.ClaimsFollow t := by
  refine h.history (I := fun _ => True) (R := ClaimsFollow) (fun a => .of_eq rfl)
    (fun _ _ _ => ClaimsFollow.trans) (fun _ _ _ _ _ _ => trivial) (fun a act b _ _ hstep => ?_)
    trivial
  obtain rfl | hok := step_cases hstep
  · exact .of_eq rfl
  · exact perform_follows hok

end MemoryStore

end Fairy.Memory

namespace Fairy.Snapshot

open Fairy.Lib
open Fairy.Memory
open Fairy.Commanding (Uuid Time)

section Disclosure

variable {f : SnapshotRules} {p : ContentScan} {s : MemoryStore} {req : SnapshotRequest}
  {hits : List MemorySearchHit} {now at' : Time}

/-- A candidate of a claim, with its rendered text, discloses a conflict or does not. -/
structure SnapshotCandidate.Discloses (candidate : SnapshotCandidate) (c : MemoryClaim)
    (conflict : Bool) : Prop where
  reason : candidate.selectionReason = .conflictDisclosure ↔ conflict = true
  text : ∃ r, candidate.renderedText = renderClaim c r conflict
  conflictSetId : candidate.conflictSetId = c.conflictSetId

theorem claimReason_iff {n : MemoryNamespace} {exactMatch conflict : Bool} :
    claimReason n exactMatch conflict = .conflictDisclosure ↔ conflict = true := by
  cases conflict with
  | true => exact iff_of_true rfl rfl
  | false =>
    refine iff_of_false ?_ Bool.false_ne_true
    cases n <;> cases exactMatch <;> exact nofun

/-- Each candidate of the claims is made of a claim of the store, which it discloses. -/
theorem claimCandidates_disclose {found : List SnapshotCandidate × List Uuid}
    (h : claimCandidates f p s req hits now at' = .ok found) :
    ∀ candidate ∈ found.1, ∃ c ∈ s.claims, candidate.sourceId = c.id ∧
      candidate.Discloses c.toMemoryClaim (c.status = .conflicted || c.conflictSetId.isSome) := by
  simp only [claimCandidates] at h
  obtain ⟨perNamespace, hfound, h⟩ := bind_ok h
  obtain rfl := pure_ok h
  intro candidate hc
  obtain ⟨⟨candidate, ids⟩, hmem, rfl⟩ := List.mem_map.mp hc
  obtain ⟨candidates, hnamespace, hmem⟩ :=
    List.mem_flatten.mp (List.reduceOption_mem_iff.mp hmem)
  obtain ⟨n, hn, hcandidates⟩ := mapM_mem hfound hnamespace
  simp only [namespaceCandidates] at hcandidates
  obtain ⟨read, hread, hcandidates⟩ := bind_ok hcandidates
  obtain ⟨claim, hclaim, hcandidate⟩ := mapM_mem hcandidates hmem
  obtain ⟨⟨row, hrow, rfl⟩, rfl, _⟩ :=
    (MemoryStore.mem_claimsForScope hread).mp (List.mem_mergeSort.mp hclaim)
  refine ⟨row, hrow, ?_⟩
  simp only [claimCandidate] at hcandidate
  split at hcandidate
  · cases hcandidate
  split at hcandidate
  · cases hcandidate
  have hmade := pure_ok hcandidate
  simp only [Option.some.injEq, Prod.mk.injEq] at hmade
  rw [← hmade.1]
  exact ⟨rfl, claimReason_iff, ⟨_, rfl⟩, rfl⟩

end Disclosure

/-- What a resolution that is not a replay does: the claim is settled in its conflict set, no
other claim is touched, and what later snapshots disclose of it is its conflict set. -/
structure Settles (x : Hashing) (s t : MemoryStore) (decidedAt : Time) (claimId : Uuid)
    (revision : MemoryClaimRevision) (resolved : List Uuid) (c c' : ClaimRow) : Prop where
  before : c ∈ s.claims ∧ c.id = claimId ∧ c.status = .conflicted
  named : ∀ id ∈ resolved, ∃ other ∈ s.claims, other.id = id ∧
    other.conflictSetId = c.conflictSetId
  after : c' ∈ t.claims ∧ c'.id = claimId ∧ c'.conflictSetId = c.conflictSetId
  status : c'.status = if ∃ time ∈ revision.validTo, time ≤ decidedAt then .expired else .active
  others : ∀ other, other.id ≠ claimId → (other ∈ t.claims ↔ other ∈ s.claims)
  disclosed : ∀ later, Run (MemoryStore.Step x) (fun _ _ => True) t later →
    ∀ f p req hits now at' found,
      claimCandidates f p later req hits now at' = .ok found →
      ∀ candidate ∈ found.1, candidate.sourceId = claimId →
        (candidate.selectionReason = .conflictDisclosure ↔ c.conflictSetId ≠ none)

/-- A conflict that is resolved settles the chosen claim and no other. -/
theorem resolve_conflict_settles (x : Hashing) (s t : MemoryStore) (now decidedAt updatedAt : Time)
    (claimId : Uuid) (expected : Nat) (revision : MemoryClaimRevision) (resolved : List Uuid)
    (key : String)
    (h : s.resolveConflict x now decidedAt updatedAt claimId expected revision resolved key =
      .ok t) :
    (t = s ∧ s.revisionByRequest claimId key ≠ none) ∨
      ∃ c c', Settles x s t decidedAt claimId revision resolved c c' := by
  obtain hreplay | ⟨c, c', row, rfl, hconflicted, hnamed, hsettled, hrevises⟩ :=
    MemoryStore.resolveConflict_cases h
  · exact .inl hreplay
  have hstatus : c'.status = MemoryStore.resolvedStatus decidedAt revision := by
    rw [hsettled]
    rfl
  have hset : c'.conflictSetId = c.conflictSetId := by
    rw [hsettled]
    rfl
  have hid : c'.id = c.id := hrevises.claims.2.1
  refine .inr ⟨c, c', ⟨hrevises.claims.1, rfl, hconflicted⟩,
    fun id hin => MemoryStore.verifyConflictSet_ok (hnamed id hin), ⟨hrevises.claims.mem, hid, hset⟩,
    hstatus, fun other hother => ?_, ?_⟩
  · rw [hrevises.claims.2.2]
    constructor
    · rintro (rfl | ⟨hmem, _⟩)
      · exact absurd hid hother
      · exact hmem
    · exact fun hmem => .inr ⟨hmem, hother⟩
  · intro later hrun f p req hits clock at' found hfound candidate hcandidate hsource
    obtain ⟨row, hrow, hrowId, hdiscloses⟩ := claimCandidates_disclose hfound candidate hcandidate
    obtain ⟨last, hlast, hfollows⟩ := MemoryStore.ClaimsFollow.run hrun c' hrevises.claims.mem
    obtain rfl : row = last := Table.eq_of_key hrow hlast
      (hrowId.symm.trans (hsource.trans (hfollows.id.trans hid).symm))
    have hcalm : row.status ≠ .conflicted := by
      intro hrowStatus
      exact MemoryStore.resolvedStatus_ne_conflicted decidedAt revision
        (hstatus.symm.trans (hfollows.status hrowStatus))
    rw [hdiscloses.reason]
    simp only [hcalm, decide_false, Bool.false_or, hfollows.conflictSetId, hset,
      Option.isSome_iff_ne_none]


/-! Two claims in conflict, one of which is chosen. -/

open MemoryStore (userEvent profileClaim profileRevision plainHashing digest)

def conflicting (id : Uuid) : ClaimRow where
  toMemoryClaim := { profileClaim with
    id := id, currentRevision := 1, conflictSetId := some 7, status := .conflicted }
  requestFingerprint := ""
  contentFingerprint := ""

def conflictStore : MemoryStore :=
  { MemoryStore.empty with
    events := ⟨[userEvent], by decide, fun _ _ => trivial⟩
    claims := ⟨[conflicting 5, conflicting 6], by decide, fun _ _ => trivial⟩ }

def resolution : Except MemoryError MemoryStore :=
  conflictStore.resolveConflict plainHashing 3 3 3 5 1 (profileRevision 2) [5, 6] (digest 'f')

theorem resolve_conflict_settles_profile :
    ∃ t c c', resolution = .ok t ∧
      Settles plainHashing conflictStore t 3 5 (profileRevision 2) [5, 6] c c' := by
  cases hresolution : resolution with
  | error e =>
    have hok : resolution.isOk = true := by decide +kernel
    rw [hresolution] at hok
    cases hok
  | ok t =>
    obtain ⟨_, hreplay⟩ | ⟨c, c', hsettles⟩ := resolve_conflict_settles plainHashing conflictStore t
      3 3 3 5 1 (profileRevision 2) [5, 6] (digest 'f') hresolution
    · exact absurd (by decide +kernel) hreplay
    · exact ⟨t, c, c', rfl, hsettles⟩

/-- A claim that the resolution names stays conflicted, and the chosen one in its set. -/
theorem resolve_conflict_leaves_named :
    (resolution.toOption.bind (·.claimRow 5)).map (fun c => (c.status, c.conflictSetId)) =
        some (.active, some 7) ∧
      (resolution.toOption.bind (·.claimRow 6)).map (·.status) = some .conflicted := by
  decide +kernel

end Fairy.Snapshot
