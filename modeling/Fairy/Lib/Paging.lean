import Mathlib.Data.List.Sort
import Mathlib.Data.List.Induction

namespace Fairy.Lib

variable {α : Type} (key : α → Nat)

/-- `SELECT ... WHERE key > cursor AND p ORDER BY key LIMIT n`. -/
def page (p : α → Prop) [DecidablePred p] (cursor : Nat) (limit : Option Nat) (l : List α) :
    List α :=
  let rows := (l.filter fun a => cursor < key a ∧ p a).insertionSort fun a b => key a ≤ key b
  match limit with
  | none => rows
  | some n => rows.take n

/-- The cursor of a reader who has taken the rows one after the other. -/
def resume (cursor : Nat) (rows : List α) : Nat := rows.foldl (fun _ a => key a) cursor

variable {key} {p : α → Prop} [DecidablePred p] {cursor : Nat} {limit : Option Nat} {l : List α}

theorem resume_concat (rows : List α) (a : α) : resume key cursor (rows ++ [a]) = key a := by
  simp [resume]

variable (key p cursor limit l) in
theorem page_eq_take : ∃ n, page key p cursor limit l =
    ((l.filter fun a => cursor < key a ∧ p a).insertionSort fun a b => key a ≤ key b).take n := by
  cases limit with
  | none => exact ⟨_, (List.take_length (l := _)).symm⟩
  | some n => exact ⟨n, rfl⟩

theorem mem_page {a : α} (h : a ∈ page key p cursor limit l) : a ∈ l ∧ cursor < key a ∧ p a := by
  obtain ⟨n, hn⟩ := page_eq_take key p cursor limit l
  rw [hn] at h
  have h := List.mem_of_mem_take h
  simpa [List.mem_insertionSort] using h

/-- The rows of a page are in the order of their keys. -/
theorem page_sorted : (page key p cursor limit l).Pairwise fun a b => key a ≤ key b := by
  obtain ⟨n, hn⟩ := page_eq_take key p cursor limit l
  have : Std.Total fun a b : α => key a ≤ key b := ⟨fun a b => le_total (key a) (key b)⟩
  have : IsTrans α fun a b => key a ≤ key b := ⟨fun _ _ _ h h' => le_trans h h'⟩
  rw [hn]
  exact (List.pairwise_insertionSort _ _).sublist (List.take_sublist _ _)

/-- If the keys tell the rows apart, no key comes twice. -/
theorem page_strict (h : (l.map key).Nodup) :
    (page key p cursor limit l).Pairwise fun a b => key a < key b := by
  have hnodup : ((page key p cursor limit l).map key).Nodup := by
    obtain ⟨n, hn⟩ := page_eq_take key p cursor limit l
    rw [hn]
    have hf := h.sublist ((List.filter_sublist (p := fun a => cursor < key a ∧ p a)).map key)
    have hs := ((List.perm_insertionSort (fun a b => key a ≤ key b)
      (l.filter fun a => cursor < key a ∧ p a)).map key).nodup_iff.mpr hf
    exact hs.sublist ((List.take_sublist _ _).map key)
  have hne : (page key p cursor limit l).Pairwise fun a b => key a ≠ key b :=
    List.pairwise_map.mp hnodup
  exact (page_sorted.and hne).imp fun h => lt_of_le_of_ne h.1 h.2

variable (key cursor) in
/-- The reader's cursor is the key of the last row, or where it was. -/
theorem resume_cases (rows : List α) :
    (rows = [] ∧ resume key cursor rows = cursor) ∨
      ∃ a ∈ rows, rows.getLast? = some a ∧ resume key cursor rows = key a := by
  induction rows using List.reverseRecOn with
  | nil => exact .inl ⟨rfl, rfl⟩
  | append_singleton rows a _ =>
    exact .inr ⟨a, List.mem_append_right _ List.mem_cons_self, List.getLast?_concat,
      resume_concat rows a⟩

theorem le_resume : cursor ≤ resume key cursor (page key p cursor limit l) := by
  obtain ⟨_, he⟩ | ⟨a, ha, _, he⟩ := resume_cases key cursor
    (page key p cursor limit l)
  · omega
  · have := (mem_page ha).2.1
    omega

theorem lt_resume {a : α} (ha : a ∈ page key p cursor limit l) :
    cursor < resume key cursor (page key p cursor limit l) := by
  obtain ⟨hn, _⟩ | ⟨b, hb, _, he⟩ := resume_cases key cursor
    (page key p cursor limit l)
  · rw [hn] at ha
    exact absurd ha List.not_mem_nil
  · have := (mem_page hb).2.1
    omega

/-- The reader's cursor is at or after every row, if they are in order. -/
theorem key_le_resume {rows : List α} (hs : rows.Pairwise fun a b => key a ≤ key b) {a : α}
    (ha : a ∈ rows) : key a ≤ resume key cursor rows := by
  induction rows using List.reverseRecOn with
  | nil => exact absurd ha List.not_mem_nil
  | append_singleton rows b _ =>
    rw [resume_concat]
    obtain ha | ha := List.mem_append.mp ha
    · exact (List.pairwise_append.mp hs).2.2 a ha b List.mem_cons_self
    · rw [List.mem_singleton.mp ha]

theorem resume_append (rows rows' : List α) :
    resume key (resume key cursor rows) rows' = resume key cursor (rows ++ rows') := by
  simp [resume]

theorem page_of_false (h : ∀ a, ¬ p a) : page key p cursor limit l = [] :=
  List.eq_nil_iff_forall_not_mem.mpr fun a ha => h a (mem_page ha).2.2

/-- A page leaves out no row that its reader then has behind it. -/
theorem mem_page_of_le {a : α} (hk : (l.map key).Nodup) (ha : a ∈ l) (hp : p a)
    (hc : cursor < key a) (hr : key a ≤ resume key cursor (page key p cursor limit l)) :
    a ∈ page key p cursor limit l := by
  obtain ⟨n, hn⟩ := page_eq_take key p cursor limit l
  obtain ⟨_, he⟩ | ⟨b, hb, _, he⟩ := resume_cases key cursor
    (page key p cursor limit l)
  · omega
  have hs : (page key p cursor none l).Pairwise fun a b => key a ≤ key b := page_sorted
  have hall : a ∈ page key p cursor none l := by
    simp [page, List.mem_insertionSort, ha, hp, hc]
  have hsplit : page key p cursor limit l ++ (page key p cursor none l).drop n =
      page key p cursor none l := by
    rw [hn]
    exact List.take_append_drop n _
  rw [← hsplit] at hall hs
  obtain ha' | ha' := List.mem_append.mp hall
  · exact ha'
  · have hle := (List.pairwise_append.mp hs).2.2 b hb a ha'
    rw [← List.inj_on_of_nodup_map hk (mem_page hb).1 ha (by omega)]
    exact hb

/-- A page that may hold a row is not empty while there is one. -/
theorem exists_mem_page {a : α} (ha : a ∈ l) (hp : p a) (hc : cursor < key a)
    (hl : limit ≠ some 0) : ∃ b, b ∈ page key p cursor limit l := by
  have hall : a ∈ page key p cursor none l := by
    simp [page, List.mem_insertionSort, ha, hp, hc]
  cases limit with
  | none => exact ⟨a, hall⟩
  | some n =>
    refine List.exists_mem_of_ne_nil _ fun hn => ?_
    have hz : n = 0 ∨ page key p cursor none l = [] := List.take_eq_nil_iff.mp hn
    obtain rfl | he := hz
    · exact hl rfl
    · rw [he] at hall
      exact List.not_mem_nil hall

end Fairy.Lib
