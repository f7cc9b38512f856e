import Mathlib.Data.List.Sort
import Mathlib.Data.List.Perm.Basic
import Mathlib.Data.List.TakeDrop

namespace Fairy.Lib

variable {α : Type} {before : α → α → Bool} {n : Nat} {l l' kept lost chosen : List α}

/-- The first `n` of a list in an order that may have ties. -/
def Leads (before : α → α → Bool) (n : Nat) (l chosen : List α) : Prop :=
  ∃ sorted : List α, sorted.Perm l ∧ sorted.Pairwise (fun a b => before a b = true) ∧
    chosen = sorted.take n

/-- A reflexive order in which any two elements are comparable. -/
structure Orders (before : α → α → Bool) : Prop where
  trans : ∀ a b c, before a b = true → before b c = true → before a c = true
  total : ∀ a b, (before a b || before b a) = true

theorem Orders.refl (h : Orders before) (a : α) : before a a = true := by
  simpa using h.total a a

theorem leads_mergeSort (h : Orders before) (n : Nat) (l : List α) :
    Leads before n l ((l.mergeSort before).take n) :=
  ⟨l.mergeSort before, List.mergeSort_perm l before, List.pairwise_mergeSort h.trans h.total l, rfl⟩

namespace Leads

theorem perm (hl : Leads before n l chosen) (h : l.Perm l') : Leads before n l' chosen := by
  obtain ⟨sorted, hperm, hpairs, hchosen⟩ := hl
  exact ⟨sorted, hperm.trans h, hpairs, hchosen⟩

theorem sub (hl : Leads before n l chosen) : chosen.Subperm l := by
  obtain ⟨sorted, hperm, _, rfl⟩ := hl
  exact (List.take_sublist n sorted).subperm.trans hperm.subperm

theorem length (hl : Leads before n l chosen) : chosen.length = min n l.length := by
  obtain ⟨sorted, hperm, _, rfl⟩ := hl
  rw [List.length_take, hperm.length_eq]

/-- A chosen element has fewer than `n` elements strictly before it. -/
theorem countP_lt (hl : Leads before n l chosen) (h : Orders before) {a : α} (ha : a ∈ chosen) :
    l.countP (fun b => !before a b) < n := by
  obtain ⟨sorted, hperm, hpairs, rfl⟩ := hl
  obtain ⟨i, hi, rfl⟩ := List.mem_take_iff_getElem.mp ha
  have hsorted : i < sorted.length := by omega
  have hdrop : (sorted.drop i).countP (fun b => !before sorted[i] b) = 0 := by
    rw [List.countP_eq_zero]
    intro b hb
    rw [List.drop_eq_getElem_cons hsorted] at hb
    obtain rfl | hb := List.mem_cons.mp hb
    · simp [h.refl]
    · rw [← List.take_append_drop (i + 1) sorted, List.pairwise_append] at hpairs
      have hbefore := hpairs.2.2 sorted[i] (List.mem_take_iff_getElem.mpr ⟨i, by omega, rfl⟩) b hb
      simp [hbefore]
  calc
    l.countP (fun b => !before sorted[i] b) = sorted.countP (fun b => !before sorted[i] b) :=
      (hperm.countP_eq _).symm
    _ = (sorted.take i).countP (fun b => !before sorted[i] b) +
          (sorted.drop i).countP (fun b => !before sorted[i] b) := by
      rw [← List.countP_append, List.take_append_drop]
    _ ≤ (sorted.take i).length := by
      rw [hdrop, Nat.add_zero]
      exact List.countP_le_length
    _ < n := by
      rw [List.length_take]
      omega

/-- The first of what is kept are the first of all when each element that is lost has enough
kept ones before it. -/
theorem append_iff (hl : Leads before n kept chosen) (h : Orders before) :
    Leads before n (kept ++ lost) chosen ↔
      ∀ a ∈ lost, n ≤ kept.countP (fun b => before b a) := by
  constructor
  · have hsub := hl.sub
    rintro ⟨sorted, hperm, hpairs, hchosen⟩ a ha
    obtain ⟨sorted', hperm', _, hchosen'⟩ := hl
    have hsplit : (chosen ++ sorted.drop n).Perm (chosen ++ (sorted'.drop n ++ lost)) := by
      rw [← List.append_assoc, hchosen, List.take_append_drop, ← hchosen, hchosen',
        List.take_append_drop]
      exact hperm.trans (hperm'.symm.append_right lost)
    have hrest : a ∈ sorted.drop n :=
      ((List.perm_append_left_iff chosen).mp hsplit).mem_iff.mpr (List.mem_append_right _ ha)
    have hlong : n < sorted.length := by
      by_contra hshort
      rw [List.drop_eq_nil_of_le (by omega)] at hrest
      exact absurd hrest List.not_mem_nil
    have hall : ∀ b ∈ chosen, before b a = true := by
      intro b hb
      rw [← List.take_append_drop n sorted, List.pairwise_append] at hpairs
      exact hpairs.2.2 b (hchosen ▸ hb) a hrest
    calc
      n = chosen.length := by rw [hchosen, List.length_take]; omega
      _ = chosen.countP (fun b => before b a) := (List.countP_eq_length.mpr hall).symm
      _ ≤ kept.countP (fun b => before b a) := hsub.countP_le _
  · intro henough
    have hlong : lost ≠ [] → chosen.length = n := by
      intro hne
      obtain ⟨a, ha⟩ := List.exists_mem_of_ne_nil lost hne
      have hle := (henough a ha).trans List.countP_le_length
      rw [hl.length]
      omega
    have hlead : ∀ a ∈ lost, ∀ b ∈ chosen, before b a = true := by
      intro a ha b hb
      by_contra hnot
      have hle : kept.countP (fun c => before c a) ≤ kept.countP (fun c => !before b c) := by
        refine List.countP_mono_left fun c _ hc => ?_
        simpa using fun hbc => hnot (h.trans b c a hbc hc)
      have hlt := hl.countP_lt h hb
      have hge := henough a ha
      omega
    obtain ⟨sorted, hperm, hpairs, hchosen⟩ := hl
    have hsplit : chosen ++ sorted.drop n = sorted := by rw [hchosen, List.take_append_drop]
    rw [← hsplit, List.pairwise_append] at hpairs
    obtain ⟨hchosenPairs, _, hcross⟩ := hpairs
    refine ⟨chosen ++ (sorted.drop n ++ lost).mergeSort before, ?_, ?_, ?_⟩
    · have hall : (chosen ++ (sorted.drop n ++ lost)).Perm (kept ++ lost) := by
        rw [← List.append_assoc, hsplit]
        exact hperm.append_right lost
      exact ((List.mergeSort_perm _ before).append_left chosen).trans hall
    · refine List.pairwise_append.mpr
        ⟨hchosenPairs, List.pairwise_mergeSort h.trans h.total _, fun b hb a ha => ?_⟩
      obtain ha | ha := List.mem_append.mp ((List.mergeSort_perm _ before).mem_iff.mp ha)
      · exact hcross b hb a ha
      · exact hlead a ha b hb
    · by_cases hne : lost = []
      · by_cases hshort : sorted.length ≤ n
        · subst hne
          rw [List.drop_eq_nil_of_le hshort, List.append_nil, List.mergeSort_nil, List.append_nil,
            hchosen, List.take_take, Nat.min_self]
        · have hn : chosen.length = n := by rw [hchosen, List.length_take]; omega
          rw [List.take_left' hn]
      · rw [List.take_left' (hlong hne)]

/-- The first of a list may be taken before it is joined with another one. -/
theorem join (hl : Leads before n l chosen) (h : Orders before) {result : List α}
    (hr : Leads before n (chosen ++ l') result) : Leads before n (l ++ l') result := by
  obtain ⟨sorted, hperm, hpairs, hchosen⟩ := hl
  have hsplit : chosen ++ sorted.drop n = sorted := by rw [hchosen, List.take_append_drop]
  have hall : Leads before n (chosen ++ l' ++ sorted.drop n) result := by
    refine (hr.append_iff h).mpr fun a ha => ?_
    have hlong : n < sorted.length := by
      by_contra hshort
      rw [List.drop_eq_nil_of_le (by omega)] at ha
      exact absurd ha List.not_mem_nil
    rw [← hsplit, List.pairwise_append] at hpairs
    rw [List.countP_append]
    calc
      n = chosen.length := by rw [hchosen, List.length_take]; omega
      _ = chosen.countP (fun b => before b a) :=
        (List.countP_eq_length.mpr fun b hb => hpairs.2.2 b hb a ha).symm
      _ ≤ _ := Nat.le_add_right ..
  have hswap : (chosen ++ l' ++ sorted.drop n).Perm (chosen ++ (sorted.drop n ++ l')) := by
    rw [List.append_assoc]
    exact List.perm_append_comm.append_left chosen
  refine hall.perm (hswap.trans ?_)
  rw [← List.append_assoc, hsplit]
  exact hperm.append_right l'

/-- Where no two lost elements tie, the elements before a lost one may be counted among all of
them. -/
theorem append_countP_iff (hl : Leads before n kept chosen) (h : Orders before)
    (hlost : lost.Pairwise fun a b => ¬ (before a b = true ∧ before b a = true)) :
    Leads before n (kept ++ lost) chosen ↔
      ∀ a ∈ lost, n < (kept ++ lost).countP (fun b => before b a) := by
  rw [hl.append_iff h]
  constructor
  · intro henough a ha
    have hself : 0 < lost.countP (fun b => before b a) :=
      List.countP_pos_iff.mpr ⟨a, ha, h.refl a⟩
    rw [List.countP_append]
    have := henough a ha
    omega
  · intro henough a ha
    -- the first of the lost ones has no other one before it
    have hsorted := List.pairwise_mergeSort h.trans h.total lost
    have hperm := List.mergeSort_perm lost before
    obtain ⟨first, rest, hcons⟩ := List.exists_cons_of_ne_nil
      (List.ne_nil_of_mem (hperm.mem_iff.mpr ha))
    have hdistinct := (hperm.pairwise_iff fun hab hba => hab hba.symm).mpr hlost
    rw [hcons] at hsorted hperm hdistinct
    obtain ⟨hfirst, -⟩ := List.pairwise_cons.mp hsorted
    have hone : lost.countP (fun b => before b first) = 1 := by
      have hrest : rest.countP (fun b => before b first) = 0 := by
        rw [List.countP_eq_zero]
        intro b hb hbefore
        exact (List.pairwise_cons.mp hdistinct).1 b hb ⟨hfirst b hb, hbefore⟩
      rw [← hperm.countP_eq, List.countP_cons, hrest, if_pos (h.refl first)]
    have hlead : before first a = true := by
      obtain rfl | ha := List.mem_cons.mp (hperm.mem_iff.mpr ha)
      · exact h.refl a
      · exact hfirst a ha
    have hcount := henough first (hperm.mem_iff.mp List.mem_cons_self)
    rw [List.countP_append, hone] at hcount
    calc
      n ≤ kept.countP (fun b => before b first) := by omega
      _ ≤ kept.countP (fun b => before b a) :=
        List.countP_mono_left fun b _ hb => h.trans b first a hb hlead

/-- The same for a list of which some elements are kept and the others lost. -/
theorem split_iff (hl : Leads before n kept chosen) (h : Orders before)
    (hlost : lost.Pairwise fun a b => ¬ (before a b = true ∧ before b a = true))
    (hperm : (kept ++ lost).Perm l) :
    Leads before n l chosen ↔ ∀ a ∈ lost, n < l.countP (fun b => before b a) := by
  have hexact := hl.append_countP_iff h hlost
  simp only [hperm.countP_eq] at hexact
  rw [← hexact]
  exact ⟨fun hleads => hleads.perm hperm.symm, fun hleads => hleads.perm hperm⟩

end Leads

end Fairy.Lib
