import Fairy.Lib.Fallible
import Fairy.Workflow.Claim

namespace Fairy.Workflow

open Fairy.Lib

/-- What the picked rows add to the active list of a run. -/
def picked (l : List ReadyRow) (runId : Uuid) : ActiveList :=
  (l.filter fun x => x.node.runId = runId).map fun x =>
    (x.node.concurrencyPolicy, x.node.resourceKeys)

/-- Each row fits in with what is active in its run and what precedes it. -/
def Fits (base : Uuid → ActiveList) (l : List ReadyRow) : Prop :=
  ∀ pre row post, l = pre ++ row :: post →
    (base row.node.runId ++ picked pre row.node.runId).length < row.run.budget.maxParallelNodes ∧
      conflicts row.node.concurrencyPolicy row.node.resourceKeys
        (base row.node.runId ++ picked pre row.node.runId) = false

/-- The picked rows that belong to root runs. -/
def roots (l : List ReadyRow) : List ReadyRow := l.filter fun x => x.isChild = false

theorem Fits.nil (base : Uuid → ActiveList) : Fits base [] := by
  intro pre row post h
  cases pre <;> cases h

theorem Fits.snoc {base : Uuid → ActiveList} {l : List ReadyRow} {row : ReadyRow}
    (h : Fits base l)
    (hlen : (base row.node.runId ++ picked l row.node.runId).length <
      row.run.budget.maxParallelNodes)
    (hfree : conflicts row.node.concurrencyPolicy row.node.resourceKeys
      (base row.node.runId ++ picked l row.node.runId) = false) : Fits base (l ++ [row]) := by
  intro pre x post he
  rcases List.eq_nil_or_concat post with rfl | ⟨post, y, rfl⟩
  · obtain ⟨rfl, hx⟩ := List.append_inj' he rfl
    cases hx
    exact ⟨hlen, hfree⟩
  · have hp : l ++ [row] = (pre ++ x :: post) ++ [y] := by simpa using he
    exact h pre x post (List.append_inj' hp rfl).1

theorem picked_snoc {l : List ReadyRow} {row : ReadyRow} {runId : Uuid} :
    picked (l ++ [row]) runId = picked l runId ++ if row.node.runId = runId then
      [(row.node.concurrencyPolicy, row.node.resourceKeys)] else [] := by
  by_cases h : row.node.runId = runId <;> simp [picked, h]

theorem roots_snoc {l : List ReadyRow} {row : ReadyRow} :
    roots (l ++ [row]) = roots l ++ if row.isChild then [] else [row] := by
  cases h : row.isChild <;> simp [roots, h]

/-- What the selection loop keeps, the rows of `left` being still unpicked. -/
structure Selection.Sound (base : Uuid → ActiveList) (slots : Slots) (rows left : List ReadyRow)
    (σ : Selection) : Prop where
  perm : (σ.selected ++ left).Perm rows
  limit : σ.selected.length ≤ slots.limit
  active : ∀ runId, σ.activeByRun runId = base runId ++ picked σ.selected runId
  fits : Fits base σ.selected
  child : σ.selectedChild = σ.selected.any ReadyRow.isChild
  parent : σ.selectedBlockingParent = σ.selected.any (·.isBlockingParent slots)
  reserved : (slots.reserveChildSlot || σ.selectedBlockingParent) = true →
    (roots σ.selected).length ≤ slots.limit - 1

namespace Selection

variable {base : Uuid → ActiveList} {slots : Slots} {rows rest : List ReadyRow} {σ : Selection}

/-- Without a picked child every picked row is a root. -/
theorem Sound.roots_eq {left : List ReadyRow} (h : σ.Sound base slots rows left)
    (hc : σ.selectedChild = false) : roots σ.selected = σ.selected := by
  rw [h.child, List.any_eq_false] at hc
  exact List.filter_eq_self.mpr fun x hx => by simpa using hc x hx

/-- A picked child leaves one slot the roots do not use. -/
theorem Sound.roots_lt {left : List ReadyRow} (h : σ.Sound base slots rows left)
    (hc : σ.selectedChild = true) : (roots σ.selected).length < σ.selected.length := by
  rw [h.child, List.any_eq_true] at hc
  obtain ⟨x, hx, hc⟩ := hc
  exact List.length_filter_lt_length_iff_exists.mpr ⟨x, hx, by simp [hc]⟩

theorem Sound.skip {row : ReadyRow} (h : σ.Sound base slots rows (σ.nextRemaining ++ row :: rest)) :
    Sound base slots rows ((σ.nextRemaining ++ [row]) ++ rest)
      { σ with nextRemaining := σ.nextRemaining ++ [row] } where
  perm := by simpa using h.perm
  limit := h.limit
  active := h.active
  fits := h.fits
  child := h.child
  parent := h.parent
  reserved := h.reserved

theorem Sound.consider {row : ReadyRow}
    (h : σ.Sound base slots rows (σ.nextRemaining ++ row :: rest)) :
    (Selection.consider slots σ row).Sound base slots rows
      ((Selection.consider slots σ row).nextRemaining ++ rest) := by
  unfold Selection.consider
  dsimp only
  split
  · exact h.skip
  rename_i hskip
  split
  · exact h.skip
  rename_i hheld
  split
  · exact h.skip
  rename_i hblocked
  rw [not_or, Nat.not_le] at hskip
  rw [blocked, not_or, Nat.not_le, Bool.not_eq_true, h.active] at hblocked
  refine ⟨?_, ?_, ?_, h.fits.snoc hblocked.1 hblocked.2, ?_, ?_, ?_⟩
  · refine List.Perm.trans ?_ h.perm
    have hm : (row :: (σ.nextRemaining ++ rest)).Perm (σ.nextRemaining ++ row :: rest) :=
      List.perm_middle.symm
    simpa using hm.append_left σ.selected
  · rw [List.length_append]
    exact hskip.2
  · intro runId
    rw [picked_snoc]
    by_cases hr : runId = row.node.runId
    · simp [hr, h.active]
    · simp [hr, Ne.symm hr, h.active]
  · simp [h.child]
  · simp [h.parent]
  · intro hres
    rw [roots_snoc]
    cases hc : row.isChild with
    | true =>
      have hnot : row.isBlockingParent slots = false := by simp [ReadyRow.isBlockingParent, hc]
      simpa using h.reserved (by simpa [hnot, Bool.or_assoc] using hres)
    | false =>
      -- a root is picked while a slot stays free, or after a child
      have hfree : σ.selectedChild = true ∨ σ.selected.length < slots.limit - 1 := by
        by_contra hx
        rw [not_or, Nat.not_lt, Bool.not_eq_true] at hx
        exact hheld ⟨hc, hx.1, by simpa [Bool.or_assoc] using hres, hx.2⟩
      have hlen : (roots σ.selected ++ [row]).length = (roots σ.selected).length + 1 := by simp
      simp only [Bool.false_eq_true, if_false]
      rw [hlen]
      rcases hfree with hch | hlt
      · have := h.roots_lt hch
        have := hskip.2
        omega
      · have : (roots σ.selected).length ≤ σ.selected.length := List.length_filter_le _ _
        omega

theorem Sound.pass (h : σ.Sound base slots rows rest) :
    (σ.pass slots rest).Sound base slots rows (σ.pass slots rest).nextRemaining := by
  let I := fun (l : List ReadyRow) (τ : Selection) => τ.Sound base slots rows (τ.nextRemaining ++ l)
  have h0 : I rest { σ with selectedRunIds := [], nextRemaining := [], progress := false } :=
    ⟨h.perm, h.limit, h.active, h.fits, h.child, h.parent, h.reserved⟩
  have hI : I [] (σ.pass slots rest) := foldl_rule (fun _ _ _ => Sound.consider) h0
  simpa only [I, List.append_nil] using hI

theorem Sound.passes (fuel : Nat) (h : σ.Sound base slots rows rest) :
    ∃ left, (Selection.passes slots fuel σ rest).Sound base slots rows left := by
  induction fuel generalizing σ rest with
  | zero => exact ⟨rest, h⟩
  | succ fuel ih =>
    unfold Selection.passes
    dsimp only
    split
    · exact ⟨rest, h⟩
    split
    · exact ih h.pass
    · exact ⟨_, h.pass⟩

end Selection

/-- What `claim_ready` relies on of the rows its selection loop picks. -/
theorem Store.selectRows_sound (s : Store) (slots : Slots) (now : Time) :
    ∃ (σ : Selection) (left : List ReadyRow), σ.selected = s.selectRows slots now ∧
      σ.Sound s.activeByRun slots (s.readyRows now) left := by
  have h0 : Selection.Sound s.activeByRun slots (s.readyRows now) (s.readyRows now)
      ⟨[], false, false, s.activeByRun, [], [], false⟩ :=
    ⟨.refl _, Nat.zero_le _, fun _ => (List.append_nil _).symm, .nil _, rfl, rfl,
      fun _ => Nat.zero_le _⟩
  obtain ⟨left, h⟩ := h0.passes (s.readyRows now).length
  exact ⟨_, left, rfl, h⟩

theorem Store.readyRow_eq_some {s : Store} {now : Time} {node : WorkflowNode} {row : ReadyRow} :
    s.readyRow now node = some row ↔
      row.node = node ∧ row.run ∈ s.runs ∧ row.run.id = node.runId ∧ row.claimable now := by
  unfold readyRow
  constructor
  · intro h
    split at h
    · cases h
    rename_i run hr
    split at h
    · cases h
      obtain ⟨hm, hid⟩ := Table.find?_eq_some.mp hr
      exact ⟨rfl, hm, hid, ‹_›⟩
    · cases h
  · rintro ⟨rfl, hm, hid, hc⟩
    rw [Table.find?_eq_some.mpr ⟨hm, hid⟩]
    exact if_pos hc

theorem Store.mem_readyRows {s : Store} {now : Time} {row : ReadyRow} :
    row ∈ s.readyRows now ↔
      row.node ∈ s.nodes ∧ row.run ∈ s.runs ∧ row.run.id = row.node.runId ∧ row.claimable now := by
  rw [readyRows, List.mem_insertionSort, List.mem_filterMap]
  constructor
  · rintro ⟨n, hn, h⟩
    obtain ⟨rfl, h⟩ := readyRow_eq_some.mp h
    exact ⟨hn, h⟩
  · rintro ⟨hn, h⟩
    exact ⟨row.node, hn, readyRow_eq_some.mpr ⟨rfl, h⟩⟩

theorem Store.readyRows_nodup (s : Store) (now : Time) :
    ((s.readyRows now).map fun x => x.node.id).Nodup := by
  have hkey : s.nodes.rows.Pairwise fun a b => a.id ≠ b.id := List.pairwise_map.mp s.nodes.nodup
  have hp : (s.readyRows now).Perm _ := List.perm_insertionSort _ _
  rw [(hp.map _).nodup_iff, List.Nodup, List.pairwise_map, List.pairwise_filterMap]
  refine hkey.imp fun {a b} hab x hx y hy => ?_
  rwa [(readyRow_eq_some.mp hx).1, (readyRow_eq_some.mp hy).1]

section

variable {s : Store} {slots : Slots} {now : Time}

theorem Store.mem_readyRows_of_selected {row : ReadyRow} (h : row ∈ s.selectRows slots now) :
    row ∈ s.readyRows now := by
  obtain ⟨σ, left, he, hσ⟩ := s.selectRows_sound slots now
  rw [← he] at h
  exact hσ.perm.subset (List.mem_append_left _ h)

theorem Store.selectRows_nodup (s : Store) (slots : Slots) (now : Time) :
    ((s.selectRows slots now).map fun x => x.node.id).Nodup := by
  obtain ⟨σ, left, he, hσ⟩ := s.selectRows_sound slots now
  have hn := ((hσ.perm.map fun x => x.node.id).nodup_iff).mpr (s.readyRows_nodup now)
  rw [List.map_append] at hn
  rw [← he]
  exact hn.of_append_left

theorem Store.selectRows_length : (s.selectRows slots now).length ≤ slots.limit := by
  obtain ⟨σ, left, he, hσ⟩ := s.selectRows_sound slots now
  exact he ▸ hσ.limit

theorem Store.selectRows_fits : Fits s.activeByRun (s.selectRows slots now) := by
  obtain ⟨σ, left, he, hσ⟩ := s.selectRows_sound slots now
  exact he ▸ hσ.fits

/-- With a blocking parent active or picked, the picked roots leave a slot. -/
theorem Store.selectRows_reserved (h : slots.reserveChildSlot = true ∨
      ∃ row ∈ s.selectRows slots now, row.isBlockingParent slots = true) :
    (roots (s.selectRows slots now)).length ≤ slots.limit - 1 := by
  obtain ⟨σ, left, he, hσ⟩ := s.selectRows_sound slots now
  rw [← he] at h ⊢
  refine hσ.reserved ?_
  rw [Bool.or_eq_true, hσ.parent, List.any_eq_true]
  exact h

end

end Fairy.Workflow
