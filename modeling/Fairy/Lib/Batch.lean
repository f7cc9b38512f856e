import Mathlib.Data.List.Nodup
import Mathlib.Data.List.Perm.Basic

namespace Fairy.Lib

universe u

variable {α : Type u}

/-- `SELECT ... ORDER BY ... LIMIT n`. -/
def batch (le : α → α → Bool) (n : Nat) (l : List α) : List α := (l.mergeSort le).take n

/-- How many rows come before a row. -/
def rank (le : α → α → Bool) (l : List α) (a : α) : Nat := l.countP fun b => !le a b

/-- The order of a sort key that no two rows of the list share. -/
structure Sorts (le : α → α → Bool) (l : List α) : Prop where
  trans : ∀ a b c, le a b = true → le b c = true → le a c = true
  total : ∀ a b, (le a b || le b a) = true
  antisymm : ∀ a ∈ l, ∀ b ∈ l, le a b = true → le b a = true → a = b
  nodup : l.Nodup

variable {le : α → α → Bool} {n : Nat} {l : List α} {a : α}

theorem mem_of_mem_batch (h : a ∈ batch le n l) : a ∈ l :=
  List.mem_mergeSort.mp (List.mem_of_mem_take h)

theorem nodup_map_batch {β : Type u} {f : α → β} (h : (l.map f).Nodup) :
    ((batch le n l).map f).Nodup := by
  have hperm : ((l.mergeSort le).map f).Perm (l.map f) := (List.mergeSort_perm l le).map f
  exact (hperm.nodup_iff.mpr h).sublist ((List.take_sublist _ _).map f)

theorem mem_take_middle {p q : List α} (hp : a ∉ p) : a ∈ (p ++ a :: q).take n ↔ p.length < n := by
  constructor
  · intro h
    by_contra hle
    rw [List.take_append_of_le_length (by omega)] at h
    exact hp (List.mem_of_mem_take h)
  · intro h
    have hn : n = p.length + ((n - p.length - 1) + 1) := by omega
    rw [hn, List.take_length_add_append, List.take_succ_cons]
    exact List.mem_append_right _ List.mem_cons_self

/-- In a sorted list, the rows before a row are those of a smaller key. -/
theorem rank_middle {p q : List α} (h : Sorts le (p ++ a :: q))
    (hsorted : (p ++ a :: q).Pairwise fun a b => le a b = true) :
    rank le (p ++ a :: q) a = p.length := by
  obtain ⟨_, hq, hpq⟩ := List.pairwise_append.mp hsorted
  have hrefl : le a a = true := by simpa using h.total a a
  have hbefore : p.countP (fun b => !le a b) = p.length := by
    refine List.countP_eq_length.mpr fun b hb => ?_
    have hle : le b a = true := hpq b hb a List.mem_cons_self
    have hne : b ≠ a := by
      rintro rfl
      exact (List.nodup_append'.mp h.nodup).2.2 hb List.mem_cons_self
    simp only [Bool.not_eq_true', Bool.eq_false_iff]
    intro hab
    exact hne (h.antisymm b (List.mem_append_left _ hb) a (by simp) hle hab)
  have hafter : q.countP (fun b => !le a b) = 0 := by
    refine List.countP_eq_zero.mpr fun b hb => ?_
    simp [(List.pairwise_cons.mp hq).1 b hb]
  rw [rank, List.countP_append, List.countP_cons, hbefore, hafter, hrefl]
  simp

/-- The batch has the rows that fewer than `n` others come before. -/
theorem mem_batch (h : Sorts le l) : a ∈ batch le n l ↔ a ∈ l ∧ rank le l a < n := by
  have hperm : (l.mergeSort le).Perm l := List.mergeSort_perm l le
  have hsorted : (l.mergeSort le).Pairwise fun a b => le a b = true :=
    List.pairwise_mergeSort h.trans h.total l
  have hsorts : Sorts le (l.mergeSort le) := by
    refine ⟨h.trans, h.total, fun a ha b hb => ?_, hperm.nodup_iff.mpr h.nodup⟩
    exact h.antisymm a (hperm.mem_iff.mp ha) b (hperm.mem_iff.mp hb)
  by_cases ha : a ∈ l
  · obtain ⟨p, q, hsplit⟩ := List.append_of_mem (hperm.mem_iff.mpr ha)
    have hrank : rank le l a = p.length := by
      rw [← rank_middle (hsplit ▸ hsorts) (hsplit ▸ hsorted), ← hsplit]
      exact (hperm.countP_eq _).symm
    have hnotin : a ∉ p := by
      have hnodup := hsorts.nodup
      rw [hsplit] at hnodup
      exact fun hp => (List.nodup_append'.mp hnodup).2.2 hp List.mem_cons_self
    rw [hrank, batch, hsplit, mem_take_middle hnotin]
    exact (and_iff_right ha).symm
  · exact iff_of_false (fun hb => ha (mem_of_mem_batch hb)) fun hb => ha hb.1

/-- Where only equal rows tie, the rows decide the sorted list. -/
theorem mergeSort_eq_of_perm {l' : List α}
    (trans : ∀ a b c, le a b = true → le b c = true → le a c = true)
    (total : ∀ a b, (le a b || le b a) = true)
    (antisymm : ∀ a ∈ l, ∀ b ∈ l, le a b = true → le b a = true → a = b) (hperm : l.Perm l') :
    l.mergeSort le = l'.mergeSort le := by
  have hl : (l.mergeSort le).Perm l := List.mergeSort_perm l le
  have hl' : (l'.mergeSort le).Perm l' := List.mergeSort_perm l' le
  refine List.Perm.eq_of_pairwise (fun a b ha hb hab hba => ?_)
    (List.pairwise_mergeSort trans total l) (List.pairwise_mergeSort trans total l')
    (hl.trans (hperm.trans hl'.symm))
  have hb : b ∈ l := hperm.mem_iff.mpr (hl'.mem_iff.mp hb)
  exact antisymm a (hl.mem_iff.mp ha) b hb hab hba

/-- The order of a sort key decides the sorted list. -/
theorem Sorts.mergeSort_eq {l' : List α} (h : Sorts le l) (hperm : l.Perm l') :
    l.mergeSort le = l'.mergeSort le :=
  mergeSort_eq_of_perm h.trans h.total h.antisymm hperm

/-- A list is split in one way only into elements without a property and elements with it. -/
theorem append_inj_of_forall {p : α → Bool} {l₁ l₂ m₁ m₂ : List α} (h : l₁ ++ l₂ = m₁ ++ m₂)
    (hl₁ : ∀ a ∈ l₁, p a = false) (hl₂ : ∀ a ∈ l₂, p a = true) (hm₁ : ∀ a ∈ m₁, p a = false)
    (hm₂ : ∀ a ∈ m₂, p a = true) : l₁ = m₁ ∧ l₂ = m₂ := by
  induction l₁ generalizing m₁ with
  | nil =>
    cases m₁ with
    | nil => exact ⟨rfl, h⟩
    | cons b m₁ =>
      have hb : p b = true := by
        rw [List.nil_append] at h
        exact hl₂ b (h ▸ List.mem_append_left _ List.mem_cons_self)
      rw [hm₁ b List.mem_cons_self] at hb
      cases hb
  | cons a l₁ ih =>
    have ha : p a = false := hl₁ a List.mem_cons_self
    cases m₁ with
    | nil =>
      have ha' : p a = true := by
        rw [List.nil_append] at h
        exact hm₂ a (h ▸ List.mem_append_left _ List.mem_cons_self)
      rw [ha] at ha'
      cases ha'
    | cons b m₁ =>
      rw [List.cons_append, List.cons_append] at h
      obtain ⟨rfl, htail⟩ := List.cons.inj h
      obtain ⟨rfl, rfl⟩ := ih htail (fun c hc => hl₁ c (List.mem_cons_of_mem _ hc))
        fun c hc => hm₁ c (List.mem_cons_of_mem _ hc)
      exact ⟨rfl, rfl⟩

/-- Sorting leaves the elements of a property in the order they have without the others. -/
theorem mergeSort_filter (trans : ∀ a b c, le a b = true → le b c = true → le a c = true)
    (total : ∀ a b, (le a b || le b a) = true) (p : α → Bool) (l : List α) :
    (l.mergeSort le).filter p = (l.filter p).mergeSort le := by
  have hafter {a : α} {l₁ l₂ : List α} {l : List α} (h : l.mergeSort le = l₁ ++ a :: l₂) :
      ∀ b ∈ l₂, le a b = true := by
    have hsorted := List.pairwise_mergeSort trans total l
    rw [h] at hsorted
    exact fun b hb => (List.pairwise_cons.mp (List.pairwise_append.mp hsorted).2.1).1 b hb
  induction l with
  | nil => rw [List.mergeSort_nil, List.filter_nil, List.mergeSort_nil]
  | cons a l ih =>
    obtain ⟨l₁, l₂, hcons, hl, hbefore⟩ := List.mergeSort_cons trans total a l
    rw [hl, List.filter_append] at ih
    rw [hcons, List.filter_append]
    by_cases ha : p a = true
    · obtain ⟨m₁, m₂, hcons', hm, hbefore'⟩ := List.mergeSort_cons trans total a (l.filter p)
      rw [List.filter_cons_of_pos ha, List.filter_cons_of_pos ha, hcons']
      obtain ⟨h₁, h₂⟩ := append_inj_of_forall (p := le a) (ih.trans hm)
        (fun b hb => by simpa using hbefore b (List.mem_filter.mp hb).1)
        (fun b hb => hafter hcons b (List.mem_filter.mp hb).1)
        (fun b hb => by simpa using hbefore' b hb) (hafter hcons')
      rw [h₁, h₂]
    · rw [List.filter_cons_of_neg ha, List.filter_cons_of_neg ha, ih]

section Key

variable {f : α → Nat}

/-- `ORDER BY f`. -/
def byKey (f : α → Nat) (a b : α) : Bool := f a ≤ f b

/-- A unique column sorts the rows. -/
theorem sorts_byKey (h : (l.map f).Nodup) : Sorts (byKey f) l where
  trans a b c hab hbc := by
    simp only [byKey, decide_eq_true_eq] at *
    omega
  total a b := by
    simp only [byKey, Bool.or_eq_true, decide_eq_true_eq]
    omega
  antisymm a ha b hb hab hba := by
    simp only [byKey, decide_eq_true_eq] at hab hba
    exact List.inj_on_of_nodup_map h ha hb (by omega)
  nodup := .of_map f h

end Key

section Keys

variable {f g : α → Nat}

/-- `ORDER BY f, g`. -/
def byKeys (f g : α → Nat) (a b : α) : Bool :=
  ((compare (f a) (f b)).then (compare (g a) (g b))).isLE

theorem byKeys_iff {a b : α} : byKeys f g a b = true ↔ f a < f b ∨ f a = f b ∧ g a ≤ g b := by
  simp only [byKeys, Ordering.isLE_then_iff_or, Nat.compare_eq_lt, Nat.compare_eq_eq,
    Nat.isLE_compare]

theorem byKeys_trans (a b c : α) (hab : byKeys f g a b = true) (hbc : byKeys f g b c = true) :
    byKeys f g a c = true := by
  rw [byKeys_iff] at *
  omega

theorem byKeys_total (a b : α) : (byKeys f g a b || byKeys f g b a) = true := by
  rw [Bool.or_eq_true, byKeys_iff, byKeys_iff]
  omega

theorem byKeys_antisymm {a b : α} (hab : byKeys f g a b = true) (hba : byKeys f g b a = true) :
    g a = g b := by
  rw [byKeys_iff] at *
  omega

/-- Two keys sort the rows when the second one is unique. -/
theorem sorts_byKeys (h : (l.map g).Nodup) : Sorts (byKeys f g) l where
  trans := byKeys_trans
  total := byKeys_total
  antisymm _ ha _ hb hab hba := List.inj_on_of_nodup_map h ha hb (byKeys_antisymm hab hba)
  nodup := .of_map g h

theorem sorts_byKeys_flip (h : (l.map g).Nodup) : Sorts (fun a b => byKeys f g b a) l where
  trans a b c hab hbc := byKeys_trans c b a hbc hab
  total a b := byKeys_total b a
  antisymm _ ha _ hb hab hba := List.inj_on_of_nodup_map h ha hb (byKeys_antisymm hba hab)
  nodup := .of_map g h

end Keys

section Compare

variable {cmp : α → α → Ordering} [Std.TransCmp cmp]

theorem isLE_total (a b : α) : ((cmp a b).isLE || (cmp b a).isLE) = true := by
  have hswap : cmp b a = (cmp a b).swap := Std.OrientedCmp.eq_swap
  rw [hswap]
  cases cmp a b <;> rfl

/-- A comparison whose last key is unique sorts the rows. -/
theorem sorts_compare {β : Type u} {f : α → β} (heq : ∀ a b, cmp a b = .eq → f a = f b)
    (h : (l.map f).Nodup) : Sorts (fun a b => (cmp a b).isLE) l where
  trans _ _ _ hab hbc := Std.TransCmp.isLE_trans hab hbc
  total := isLE_total
  antisymm a ha b hb hab hba :=
    List.inj_on_of_nodup_map h ha hb (heq a b (Std.OrientedCmp.isLE_antisymm hab hba))
  nodup := .of_map f h

end Compare

section Keep

/-- A loop that keeps an element when what it has kept so far lets it in. -/
def keep (k : List α → α → Prop) [∀ kept a, Decidable (k kept a)] (acc l : List α) : List α :=
  l.foldl (fun kept a => if k kept a then kept ++ [a] else kept) acc

variable {k : List α → α → Prop} [∀ kept a, Decidable (k kept a)] {acc l : List α}

/-- The loop leaves elements out and does not move them. -/
theorem exists_keep (acc l : List α) : ∃ kept, keep k acc l = acc ++ kept ∧ kept.Sublist l := by
  induction l generalizing acc with
  | nil => exact ⟨[], (List.append_nil acc).symm, List.nil_sublist _⟩
  | cons a l ih =>
    by_cases ha : k acc a
    · obtain ⟨kept, hkept, hsub⟩ := ih (acc ++ [a])
      refine ⟨a :: kept, ?_, hsub.cons_cons a⟩
      rw [keep, List.foldl_cons, if_pos ha]
      exact hkept.trans (List.append_assoc acc [a] kept)
    · obtain ⟨kept, hkept, hsub⟩ := ih acc
      refine ⟨kept, ?_, hsub.cons a⟩
      rw [keep, List.foldl_cons, if_neg ha]
      exact hkept

theorem keep_sublist : (keep k [] l).Sublist l := by
  obtain ⟨kept, hkept, hsub⟩ := exists_keep (k := k) [] l
  rw [hkept]
  exact hsub

/-- What every element that is let in preserves holds at the end. -/
theorem keep_invariant {P : List α → Prop}
    (hstep : ∀ kept, P kept → ∀ a, k kept a → P (kept ++ [a])) (h : P acc) : P (keep k acc l) := by
  induction l generalizing acc with
  | nil => exact h
  | cons a l ih =>
    by_cases ha : k acc a
    · rw [keep, List.foldl_cons, if_pos ha]
      exact ih (hstep acc h a ha)
    · rw [keep, List.foldl_cons, if_neg ha]
      exact ih h

end Keep

end Fairy.Lib
