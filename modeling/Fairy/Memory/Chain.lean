import Fairy.Memory.Effects
import Fairy.Lib.Run

namespace Fairy.Memory

open Fairy.Lib
open Fairy.Commanding (Uuid Time)

/-- The numbers of one claim's revisions, in the order they were inserted. -/
def numbers (rows : List RevisionRow) (id : Uuid) : List Nat :=
  (rows.filter fun r => r.claimId = id).map (·.revision)

variable {rows : List RevisionRow} {id : Uuid} {r : RevisionRow}

theorem numbers_append (rows : List RevisionRow) (row : RevisionRow) (id : Uuid) :
    numbers (rows ++ [row]) id =
      numbers rows id ++ if row.claimId = id then [row.revision] else [] := by
  by_cases h : row.claimId = id <;> simp [numbers, List.filter_append, h]

theorem numbers_map {g : RevisionRow → RevisionRow}
    (hg : ∀ r, (g r).claimId = r.claimId ∧ (g r).revision = r.revision) :
    numbers (rows.map g) id = numbers rows id := by
  simp only [numbers, List.filter_map, List.map_map]
  have hfilter : ((fun r : RevisionRow => decide (r.claimId = id)) ∘ g) =
      fun r => decide (r.claimId = id) := by
    funext r
    simp [(hg r).1]
  rw [hfilter]
  exact List.map_congr_left fun r _ => (hg r).2

theorem mem_numbers (h : r ∈ rows) (hid : r.claimId = id) : r.revision ∈ numbers rows id := by
  refine List.mem_map_of_mem (List.mem_filter.mpr ⟨h, ?_⟩)
  simpa using hid

theorem numbers_eq_nil (h : ∀ r ∈ rows, r.claimId ≠ id) : numbers rows id = [] := by
  have hnone : rows.filter (fun r => r.claimId = id) = [] :=
    List.filter_eq_nil_iff.mpr fun r hr => by simpa using h r hr
  simp [numbers, hnone]

namespace RevisionRow

@[simp] theorem retired_claimId (r : RevisionRow) (id : Uuid) : (r.retired id).claimId = r.claimId := by
  simp only [retired]
  split <;> rfl

@[simp] theorem retired_revision (r : RevisionRow) (id : Uuid) :
    (r.retired id).revision = r.revision := by
  simp only [retired]
  split <;> rfl

@[simp] theorem retired_supersedesRevision (r : RevisionRow) (id : Uuid) :
    (r.retired id).supersedesRevision = r.supersedesRevision := by
  simp only [retired]
  split <;> rfl

theorem retired_same (h : r.claimId = id) : (r.retired id).isCurrent = false := by
  simp only [retired, h, true_and]
  split
  · rfl
  · rename_i hcurrent
    simpa using hcurrent

theorem retired_other (h : r.claimId ≠ id) : r.retired id = r := if_neg fun hr => h hr.1

end RevisionRow

namespace MemoryStore

/-- Claim by claim, what the two tables say of its revisions. -/
structure Sound (s : MemoryStore) : Prop where
  known : ∀ r ∈ s.revisions, ∃ c ∈ s.claims, c.id = r.claimId
  numbered : ∀ c ∈ s.claims, numbers s.revisions.rows c.id = List.range' 1 c.currentRevision
  supersedes : ∀ r ∈ s.revisions, r.supersedesRevision = expectedSuperseded (r.revision - 1)
  current : ∀ c ∈ s.claims, ∀ r ∈ s.revisions, r.claimId = c.id →
    (r.isCurrent ↔ c.status ≠ .forgotten ∧ r.revision = c.currentRevision)

variable {s t : MemoryStore} {act : MemoryAct} {c c' : ClaimRow} {row : RevisionRow}

theorem sound_empty : empty.Sound where
  known _ h := absurd h (Table.not_mem_empty _)
  numbered _ h := absurd h (Table.not_mem_empty _)
  supersedes _ h := absurd h (Table.not_mem_empty _)
  current _ h := absurd h (Table.not_mem_empty _)

namespace Sound

theorem le_current (h : s.Sound) (hc : c ∈ s.claims) (hr : r ∈ s.revisions)
    (hid : r.claimId = c.id) : r.revision ≤ c.currentRevision := by
  have hmem := mem_numbers hr hid
  rw [h.numbered c hc, List.mem_range'_1] at hmem
  omega

theorem kept (h : s.Sound) (hclaims : t.claims = s.claims)
    (hrevisions : t.revisions = s.revisions) : t.Sound := by
  refine ⟨?_, ?_, ?_, ?_⟩ <;> rw [hrevisions]
  · rw [hclaims]
    exact h.known
  · rw [hclaims]
    exact h.numbered
  · exact h.supersedes
  · rw [hclaims]
    exact h.current

theorem created (h : s.Sound) (hrow : c.currentRevision = 0) (hfresh : ∀ d ∈ s.claims, d.id ≠ c.id)
    (hclaims : t.claims.rows = s.claims.rows ++ [c]) (hrevisions : t.revisions = s.revisions) :
    t.Sound := by
  have hmem : ∀ {d}, d ∈ t.claims ↔ d ∈ s.claims ∨ d = c := by
    intro d
    rw [Table.mem_of_rows_append hclaims, List.mem_singleton]
  have hnone : ∀ r ∈ s.revisions, r.claimId ≠ c.id := by
    intro r hr hid
    obtain ⟨d, hd, hdid⟩ := h.known r hr
    exact hfresh d hd (hdid.trans hid)
  refine ⟨fun r hr => ?_, fun d hd => ?_, ?_, fun d hd r hr hid => ?_⟩
  · rw [hrevisions] at hr
    obtain ⟨d, hd, hdid⟩ := h.known r hr
    exact ⟨d, hmem.mpr (.inl hd), hdid⟩
  · rw [hrevisions]
    obtain hd | rfl := hmem.mp hd
    · exact h.numbered d hd
    · rw [hrow, numbers_eq_nil hnone]
      rfl
  · rw [hrevisions]
    exact h.supersedes
  · rw [hrevisions] at hr
    obtain hd | rfl := hmem.mp hd
    · exact h.current d hd r hr hid
    · exact absurd hid (hnone r hr)

/-- The first revision of a claim finds none to retire. -/
theorem retired_rows (h : s.Sound) (hr : Revises s t c c' row) :
    t.revisions.rows = s.revisions.rows.map (RevisionRow.retired c.id) ++ [row] := by
  rw [hr.revisions]
  split
  · rename_i hzero
    have hnone : numbers s.revisions.rows c.id = [] := by
      rw [h.numbered c hr.claims.1, hzero]
      rfl
    have hsame : s.revisions.rows.map (RevisionRow.retired c.id) = s.revisions.rows := by
      conv_rhs => rw [← List.map_id s.revisions.rows]
      refine List.map_congr_left fun r hmem => RevisionRow.retired_other fun hid => ?_
      exact absurd (mem_numbers hmem hid) (by simp [hnone])
    rw [hsame]
  · rfl

theorem revised (h : s.Sound) (hr : Revises s t c c' row) : t.Sound := by
  have hrows := h.retired_rows hr
  have hkey : c'.id = c.id := hr.claims.2.1
  have hmem : ∀ {r}, r ∈ t.revisions → r = row ∨ ∃ r₀ ∈ s.revisions, r = r₀.retired c.id := by
    intro r hr'
    rw [Table.mem_iff, hrows] at hr'
    obtain hr' | hr' := List.mem_append.mp hr'
    · obtain ⟨r₀, hr₀, rfl⟩ := List.mem_map.mp hr'
      exact .inr ⟨r₀, hr₀, rfl⟩
    · exact .inl (List.mem_singleton.mp hr')
  have hnumbers : ∀ id, numbers t.revisions.rows id = numbers s.revisions.rows id ++
      if row.claimId = id then [row.revision] else [] := by
    intro id
    rw [hrows, numbers_append, numbers_map fun r => ⟨r.retired_claimId _, r.retired_revision _⟩]
  refine ⟨fun r hr' => ?_, fun d hd => ?_, fun r hr' => ?_, fun d hd r hr' hid => ?_⟩
  · obtain rfl | ⟨r₀, hr₀, rfl⟩ := hmem hr'
    · exact ⟨c', hr.claims.mem, hkey.trans hr.owner.symm⟩
    · obtain ⟨d, hd, hdid⟩ := h.known r₀ hr₀
      obtain ⟨e, he, heid⟩ := hr.claims.key_mem hd
      exact ⟨e, he, heid.trans (hdid.trans (r₀.retired_claimId _).symm)⟩
  · rw [hnumbers, hr.owner]
    obtain rfl | ⟨hd, hne⟩ := hr.claims.cases hd
    · rw [if_pos hkey.symm, hkey, h.numbered c hr.claims.1, hr.number, hr.next,
        List.range'_1_concat, Nat.add_comm 1]
    · rw [if_neg (Ne.symm hne), List.append_nil]
      exact h.numbered d hd
  · obtain rfl | ⟨r₀, hr₀, rfl⟩ := hmem hr'
    · rw [hr.supersedes, hr.number, Nat.add_sub_cancel]
    · rw [RevisionRow.retired_supersedesRevision, RevisionRow.retired_revision]
      exact h.supersedes r₀ hr₀
  · obtain rfl | ⟨hd, hne⟩ := hr.claims.cases hd
    · obtain rfl | ⟨r₀, hr₀, rfl⟩ := hmem hr'
      · exact iff_of_true hr.current ⟨hr.still, hr.number.trans hr.next.symm⟩
      · rw [RevisionRow.retired_claimId, hkey] at hid
        rw [RevisionRow.retired_same hid, RevisionRow.retired_revision, hr.next]
        have hle := h.le_current hr.claims.1 hr₀ hid
        exact iff_of_false nofun fun hand => by omega
    · obtain rfl | ⟨r₀, hr₀, rfl⟩ := hmem hr'
      · exact absurd (hid.symm.trans hr.owner) hne
      · rw [RevisionRow.retired_claimId] at hid
        rw [RevisionRow.retired_other fun he => hne (hid.symm.trans he)]
        exact h.current d hd r₀ hr₀ hid

theorem forgot (h : s.Sound)
    (hclaims : Table.Replaces s.claims t.claims c (forgottenClaim c))
    (hrows : t.revisions.rows = s.revisions.rows.map (RevisionRow.retired c.id)) : t.Sound := by
  refine ⟨fun r hr => ?_, fun d hd => ?_, fun r hr => ?_, fun d hd r hr hid => ?_⟩
  · obtain ⟨r₀, hr₀, rfl⟩ := (Table.mem_of_rows_map hrows).mp hr
    obtain ⟨d, hd, hdid⟩ := h.known r₀ hr₀
    obtain ⟨e, he, heid⟩ := hclaims.key_mem hd
    exact ⟨e, he, heid.trans (hdid.trans (r₀.retired_claimId _).symm)⟩
  · rw [hrows, numbers_map fun r => ⟨r.retired_claimId _, r.retired_revision _⟩]
    obtain rfl | ⟨hd, _⟩ := hclaims.cases hd
    · exact h.numbered c hclaims.1
    · exact h.numbered d hd
  · obtain ⟨r₀, hr₀, rfl⟩ := (Table.mem_of_rows_map hrows).mp hr
    rw [RevisionRow.retired_supersedesRevision, RevisionRow.retired_revision]
    exact h.supersedes r₀ hr₀
  · obtain ⟨r₀, hr₀, rfl⟩ := (Table.mem_of_rows_map hrows).mp hr
    rw [RevisionRow.retired_claimId] at hid
    obtain rfl | ⟨hd, hne⟩ := hclaims.cases hd
    · rw [RevisionRow.retired_same (show r₀.claimId = c.id from hid)]
      exact iff_of_false nofun fun hand => hand.1 rfl
    · rw [RevisionRow.retired_other fun he => hne (hid.symm.trans he)]
      exact h.current d hd r₀ hr₀ hid

theorem purged (h : s.Sound) {f : ClaimRow → ClaimRow} {g : RevisionRow → RevisionRow}
    (hf : ∀ c, ClaimRow.Rewritten c (f c)) (hg : ∀ r, RevisionRow.Rewritten r (g r))
    (hclaims : t.claims.rows = s.claims.rows.map f)
    (hrows : t.revisions.rows = s.revisions.rows.map g) : t.Sound := by
  refine ⟨fun r hr => ?_, fun d hd => ?_, fun r hr => ?_, fun d hd r hr hid => ?_⟩
  · obtain ⟨r₀, hr₀, rfl⟩ := (Table.mem_of_rows_map hrows).mp hr
    obtain ⟨d, hd, hdid⟩ := h.known r₀ hr₀
    exact ⟨f d, (Table.mem_of_rows_map hclaims).mpr ⟨d, hd, rfl⟩,
      (hf d).1.trans (hdid.trans (hg r₀).1.symm)⟩
  · obtain ⟨c, hc, rfl⟩ := (Table.mem_of_rows_map hclaims).mp hd
    rw [hrows, numbers_map fun r => ⟨(hg r).1, (hg r).2.1⟩, (hf c).1, (hf c).2.1]
    exact h.numbered c hc
  · obtain ⟨r₀, hr₀, rfl⟩ := (Table.mem_of_rows_map hrows).mp hr
    rw [(hg r₀).2.1, (hg r₀).2.2.1]
    exact h.supersedes r₀ hr₀
  · obtain ⟨r₀, hr₀, rfl⟩ := (Table.mem_of_rows_map hrows).mp hr
    obtain ⟨c, hc, rfl⟩ := (Table.mem_of_rows_map hclaims).mp hd
    rw [(hg r₀).2.2.2, (hg r₀).2.1, (hf c).2.1, (hf c).2.2]
    refine h.current c hc r₀ hr₀ ?_
    rw [← (hg r₀).1, ← (hf c).1]
    exact hid

end Sound

/-- A claim is handed to `create_claim` as `MemoryClaim.create` makes it, without a revision. -/
def Admitted (_ : MemoryStore) : MemoryAct → Prop
  | .createClaim claim _ => claim.currentRevision = 0
  | _ => True

instance : ∀ (s : MemoryStore) (act : MemoryAct), Decidable (Admitted s act)
  | _, .createClaim claim _ => inferInstanceAs (Decidable (claim.currentRevision = 0))
  | _, .recordEvent .. | _, .appendObservation .. | _, .transitionObservation ..
  | _, .appendRevision .. | _, .resolveConflict .. | _, .forget ..
  | _, .purgeForgottenPayloads .. | _, .bindItem .. => isTrue trivial

def Step (x : Hashing) (s : MemoryStore) (act : MemoryAct) (t : MemoryStore) : Prop :=
  t = s.after x act

variable {x : Hashing}

theorem step_cases (h : Step x s act t) : t = s ∨ s.perform x act = .ok t := by
  rw [Step, after] at h
  split at h
  · rename_i hok
    exact .inr (h ▸ hok)
  · exact .inl h

theorem Sound.step (h : s.Sound) (ha : Admitted s act) (hstep : Step x s act t) : t.Sound := by
  obtain rfl | hok := step_cases hstep
  · exact h
  · cases (perform_ok hok).1 with
    | kept hclaims hrevisions => exact h.kept hclaims hrevisions
    | created row input fresh hclaims hrevisions =>
      obtain ⟨key, rfl⟩ := input
      exact h.created ha fresh hclaims hrevisions
    | revised c c' row hr => exact h.revised hr
    | forgot c hclaims hrows => exact h.forgot hclaims hrows
    | purged f g hf hg hclaims hrows => exact h.purged hf hg hclaims hrows

theorem Sound.run (h : s.Sound) (hrun : Run (Step x) Admitted s t) : t.Sound :=
  hrun.invariant (fun _ _ _ hs ha hstep => hs.step ha hstep) h

/-- What the claim table and the revision table say of one claim. -/
structure RevisionChain (s : MemoryStore) (claim : ClaimRow) : Prop where
  numbered : (s.revisionsForClaim claim.id).map (·.revision) =
    List.range' 1 claim.currentRevision
  supersedes : ∀ r ∈ s.revisionsForClaim claim.id,
    r.supersedesRevision = if r.revision = 1 then none else some (r.revision - 1)
  /-- The latest revision is the only current one, and none is of a forgotten claim. -/
  current : (s.revisionsForClaim claim.id).filter (·.isCurrent) =
    if claim.status = .forgotten then [] else (s.revisionsForClaim claim.id).getLast?.toList

theorem Sound.revisionsForClaim_eq (h : s.Sound) (hc : c ∈ s.claims) :
    s.revisionsForClaim c.id = s.revisions.select fun r => r.claimId = c.id := by
  refine List.mergeSort_of_pairwise ?_
  have hsorted : ((s.revisions.select fun r => r.claimId = c.id).map (·.revision)).Pairwise
      (· ≤ ·) := by
    have hnumbers := h.numbered c hc
    simp only [numbers] at hnumbers
    simp only [Table.select, hnumbers]
    exact List.pairwise_le_range'
  simpa [List.pairwise_map] using hsorted

theorem Sound.mem_revisionsForClaim (h : s.Sound) (hc : c ∈ s.claims) {r : RevisionRow} :
    r ∈ s.revisionsForClaim c.id ↔ r ∈ s.revisions ∧ r.claimId = c.id := by
  rw [h.revisionsForClaim_eq hc, Table.mem_select]

theorem Sound.revisionChain (h : s.Sound) (hc : c ∈ s.claims) : s.RevisionChain c := by
  have hnumbered : (s.revisionsForClaim c.id).map (·.revision) =
      List.range' 1 c.currentRevision := by
    rw [h.revisionsForClaim_eq hc]
    exact h.numbered c hc
  refine ⟨hnumbered, fun r hr => ?_, ?_⟩
  · obtain ⟨hmem, hid⟩ := (h.mem_revisionsForClaim hc).mp hr
    have hpos : 1 ≤ r.revision := s.revisions.checked r hmem
    rw [h.supersedes r hmem, expectedSuperseded]
    by_cases hone : r.revision = 1
    · simp [hone]
    · rw [if_neg hone, if_neg (by omega)]
  · have hcurrent : ∀ r ∈ s.revisionsForClaim c.id,
        (r.isCurrent ↔ c.status ≠ .forgotten ∧ r.revision = c.currentRevision) := by
      intro r hr
      obtain ⟨hmem, hid⟩ := (h.mem_revisionsForClaim hc).mp hr
      exact h.current c hc r hmem hid
    split
    · rename_i hforgotten
      refine List.filter_eq_nil_iff.mpr fun r hr hr' => ?_
      exact ((hcurrent r hr).mp hr').1 hforgotten
    · rename_i hlive
      generalize s.revisionsForClaim c.id = l at hnumbered hcurrent
      obtain rfl | ⟨l, last, rfl⟩ := l.eq_nil_or_concat
      · rfl
      · rw [List.concat_eq_append] at hnumbered hcurrent ⊢
        obtain ⟨k, hk⟩ : ∃ k, c.currentRevision = k + 1 := by
          refine Nat.exists_eq_succ_of_ne_zero fun hzero => ?_
          simp [hzero] at hnumbered
        rw [hk, List.range'_1_concat, List.map_append] at hnumbered
        obtain ⟨hinit, hlast⟩ := List.append_inj' hnumbered rfl
        have hretired : l.filter (·.isCurrent) = [] := by
          refine List.filter_eq_nil_iff.mpr fun r hr hr' => ?_
          have hmem : r.revision ∈ List.range' 1 k := hinit ▸ List.mem_map_of_mem hr
          have heq := ((hcurrent r (List.mem_append_left _ hr)).mp hr').2
          rw [List.mem_range'_1] at hmem
          omega
        have hlatest : last.isCurrent = true := by
          refine (hcurrent last (by simp)).mpr ⟨hlive, ?_⟩
          have hrevision : last.revision = 1 + k := by simpa using hlast
          omega
        simp [List.filter_append, hretired, hlatest]

/-! What is forgotten stays so. -/

def ForgottenClaim (s : MemoryStore) (id : Uuid) : Prop :=
  ∃ c ∈ s.claims, c.id = id ∧ c.status = .forgotten

def ForgottenObservation (s : MemoryStore) (id : Uuid) : Prop :=
  ∃ o ∈ s.observations, o.id = id ∧ o.status = .forgotten

instance {id : Uuid} : Decidable (s.ForgottenClaim id) :=
  inferInstanceAs (Decidable (∃ c ∈ s.claims.rows, c.id = id ∧ c.status = .forgotten))

instance {id : Uuid} : Decidable (s.ForgottenObservation id) :=
  inferInstanceAs (Decidable (∃ o ∈ s.observations.rows, o.id = id ∧ o.status = .forgotten))

theorem forgottenClaim_of_change {id : Uuid} (h : ClaimChange act s t) (hid : s.ForgottenClaim id) :
    t.ForgottenClaim id := by
  obtain ⟨c, hc, rfl, hforgotten⟩ := hid
  cases h with
  | kept hclaims _ => exact ⟨c, hclaims ▸ hc, rfl, hforgotten⟩
  | created row _ _ hclaims _ =>
    exact ⟨c, (Table.mem_of_rows_append hclaims).mpr (.inl hc), rfl, hforgotten⟩
  | revised d d' row hr =>
    refine ⟨c, hr.claims.mem_other hc fun he => ?_, rfl, hforgotten⟩
    exact hr.live (Table.eq_of_key hc hr.claims.1 he ▸ hforgotten)
  | forgot d hclaims _ =>
    by_cases he : c.id = d.id
    · exact ⟨forgottenClaim d, hclaims.mem, he.symm, rfl⟩
    · exact ⟨c, hclaims.mem_other hc he, rfl, hforgotten⟩
  | purged f g hf hg hclaims _ =>
    exact ⟨f c, (Table.mem_of_rows_map hclaims).mpr ⟨c, hc, rfl⟩, (hf c).1,
      (hf c).2.2.trans hforgotten⟩

theorem forgottenObservation_of_change {id : Uuid} (h : ObservationChange s t)
    (hid : s.ForgottenObservation id) : t.ForgottenObservation id := by
  obtain ⟨o, ho, rfl, hforgotten⟩ := hid
  cases h with
  | kept hsame => exact ⟨o, hsame ▸ ho, rfl, hforgotten⟩
  | added row _ hrows =>
    exact ⟨o, (Table.mem_of_rows_append hrows).mpr (.inl ho), rfl, hforgotten⟩
  | changed f hid habsorbs hrows =>
    exact ⟨f o, (Table.mem_of_rows_map hrows).mpr ⟨o, ho, rfl⟩, hid o, habsorbs o ho hforgotten⟩

theorem ForgottenClaim.run {id : Uuid} (hrun : Run (Step x) Admitted s t)
    (h : s.ForgottenClaim id) : t.ForgottenClaim id := by
  refine hrun.invariant (I := fun s => s.ForgottenClaim id) (fun a _ b ha _ hstep => ?_) h
  obtain rfl | hok := step_cases hstep
  · exact ha
  · exact forgottenClaim_of_change (perform_ok hok).1 ha

theorem ForgottenObservation.run {id : Uuid} (hrun : Run (Step x) Admitted s t)
    (h : s.ForgottenObservation id) : t.ForgottenObservation id := by
  refine hrun.invariant (I := fun s => s.ForgottenObservation id) (fun a _ b ha _ hstep => ?_) h
  obtain rfl | hok := step_cases hstep
  · exact ha
  · exact forgottenObservation_of_change (perform_ok hok).2 ha

end MemoryStore

end Fairy.Memory
