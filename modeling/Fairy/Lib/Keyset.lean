import Mathlib.Data.List.Sort
import Mathlib.Order.Lattice

namespace Fairy.Lib.Keyset

universe u v

variable {α : Type u} {κ : Type v} [LinearOrder κ] (key : α → κ)

/-- `ORDER BY key`, for rows no two of which have the same key. -/
def ordered (l : List α) : List α := l.mergeSort fun a b => key a ≤ key b

/-- The rows behind a position; there is none before the first page. -/
def Behind (position : Option κ) (a : α) : Prop := ∀ k ∈ position, k < key a

instance {position : Option κ} {a : α} : Decidable (Behind key position a) :=
  inferInstanceAs (Decidable (∀ k ∈ position, k < key a))

/-- `WHERE key > position ORDER BY key LIMIT n`. -/
def select (l : List α) (position : Option κ) (n : Nat) : List α :=
  (ordered key (l.filter fun a => Behind key position a)).take n

/-- A page and the position of the next one, found by reading one row more than the page has. -/
def page (l : List α) (position : Option κ) (limit : Nat) : List α × Option κ :=
  let rows := select key l position (limit + 1)
  let page := rows.take limit
  (page, if limit < rows.length then page.getLast?.map key else none)

section Order

variable {key} {l : List α}

theorem ordered_perm : (ordered key l).Perm l := List.mergeSort_perm ..

theorem ordered_strict (h : (l.map key).Nodup) :
    (ordered key l).Pairwise fun a b => key a < key b := by
  have hle : (ordered key l).Pairwise fun a b => key a ≤ key b := by
    have hsorted := @List.pairwise_mergeSort α (fun a b => decide (key a ≤ key b))
      (fun a b c hab hbc => by
        rw [decide_eq_true_eq] at hab hbc ⊢
        exact hab.trans hbc)
      (fun a b => by
        rw [Bool.or_eq_true, decide_eq_true_eq, decide_eq_true_eq]
        exact le_total _ _) l
    exact hsorted.imp fun hab => by rwa [decide_eq_true_eq] at hab
  have hne : (ordered key l).Pairwise fun a b => key a ≠ key b := by
    rw [← List.pairwise_map (R := (· ≠ ·))]
    exact (ordered_perm.map key).nodup_iff.2 h
  exact hle.imp₂ (fun _ _ hab hne => lt_of_le_of_ne hab hne) hne

/-- Rows in strict order are what is left of them when they are put in order. -/
theorem ordered_filter (h : (l.map key).Nodup) (p : α → Prop) [DecidablePred p] :
    ordered key (l.filter fun a => p a) = (ordered key l).filter fun a => p a := by
  have hsub : ((l.filter fun a => p a).map key).Nodup :=
    h.sublist (List.filter_sublist.map key)
  have hperm : (ordered key (l.filter fun a => p a)).Perm
      ((ordered key l).filter fun a => p a) :=
    ordered_perm.trans (ordered_perm.symm.filter _)
  refine hperm.eq_of_pairwise (fun a b _ _ hab hba => absurd hba (not_lt_of_gt hab))
    (ordered_strict hsub) ((ordered_strict h).filter _)

end Order

section Left

variable {key} {l : List α} {position : Option κ} {limit : Nat}

variable (key l position) in
/-- The rows that are left from a position on. -/
def left : List α := (ordered key l).filter fun a => Behind key position a

theorem left_strict (h : (l.map key).Nodup) :
    (left key l position).Pairwise fun a b => key a < key b :=
  (ordered_strict h).filter _

theorem left_none : left key l none = ordered key l := by
  rw [left, List.filter_eq_self]
  intro a _
  simp [Behind]

theorem page_eq (h : (l.map key).Nodup) : page key l position limit =
    ((left key l position).take limit,
      if limit < (left key l position).length then
        ((left key l position).take limit).getLast?.map key
      else none) := by
  have hselect : select key l position (limit + 1) = (left key l position).take (limit + 1) := by
    rw [select, ordered_filter h, left]
  have htake : ((left key l position).take (limit + 1)).take limit =
      (left key l position).take limit := by
    rw [List.take_take, Nat.min_eq_left (Nat.le_succ limit)]
  have hlength : limit < ((left key l position).take (limit + 1)).length ↔
      limit < (left key l position).length := by
    rw [List.length_take]
    omega
  simp only [page, hselect, htake, hlength]

/-- Behind the last row of a page is what the page has left. -/
theorem left_next (h : (l.map key).Nodup) {last : α}
    (hlast : last ∈ ((left key l position).take limit).getLast?) :
    left key l (some (key last)) = (left key l position).drop limit := by
  have hmem : last ∈ left key l position :=
    List.mem_of_mem_take (List.mem_of_getLast? hlast)
  have hbehind : Behind key position last := by
    have hfiltered := List.of_mem_filter hmem
    simpa using hfiltered
  -- what is behind the last row is behind the position
  have hsame : left key l (some (key last)) =
      (left key l position).filter fun a => Behind key (some (key last)) a := by
    rw [left, left, List.filter_filter]
    refine List.filter_congr fun a _ => ?_
    have himplied : Behind key (some (key last)) a → Behind key position a := by
      intro ha k hk
      exact (hbehind k hk).trans (ha _ rfl)
    rw [Bool.eq_iff_iff, Bool.and_eq_true, decide_eq_true_eq, decide_eq_true_eq]
    exact ⟨fun ha => ⟨ha, himplied ha⟩, And.left⟩
  have hsorted : (left key l position).Pairwise fun a b => key a < key b := left_strict h
  rw [← List.take_append_drop limit (left key l position), List.pairwise_append] at hsorted
  obtain ⟨htaken, -, hcross⟩ := hsorted
  obtain ⟨init, hinit⟩ := List.getLast?_eq_some_iff.1 hlast
  rw [hinit, List.pairwise_append] at htaken
  have hupto : ∀ a ∈ (left key l position).take limit, ¬ Behind key (some (key last)) a := by
    intro a ha hlater
    have hlt : key last < key a := hlater _ rfl
    rw [hinit, List.mem_append, List.mem_singleton] at ha
    obtain ha | rfl := ha
    · exact absurd hlt (not_lt_of_gt (htaken.2.2 a ha last List.mem_cons_self))
    · exact lt_irrefl _ hlt
  have hafter : ∀ b ∈ (left key l position).drop limit, Behind key (some (key last)) b := by
    intro b hb k hk
    cases hk
    exact hcross last (List.mem_of_getLast? hlast) b hb
  rw [hsame]
  conv_lhs => rw [← List.take_append_drop limit (left key l position)]
  rw [List.filter_append, List.filter_eq_nil_iff.2 fun a ha => by simpa using hupto a ha,
    List.filter_eq_self.2 fun b hb => by simpa using hafter b hb, List.nil_append]

end Left

section Cursors

variable {ι γ ε : Type*}

/-- The pages that a reader is given from a cursor on to the last, each for a request of its own,
by what a request may be answered with. -/
inductive Pages (answers : ι → Option γ → List α × Option γ → Prop) :
    Option γ → List (List α) → Prop
  | last {i : ι} {cursor : Option γ} {page : List α} (h : answers i cursor (page, none)) :
    Pages answers cursor [page]
  | more {i : ι} {cursor : Option γ} {page : List α} {next : γ} {rest : List (List α)}
    (h : answers i cursor (page, some next)) (hrest : Pages answers (some next) rest) :
    Pages answers cursor (page :: rest)

/-- What a reader answers when it does not fail. -/
def Answered (read : ι → Option γ → Except ε (List α × Option γ)) (i : ι) (cursor : Option γ)
    (answer : List α × Option γ) : Prop := read i cursor = .ok answer

variable (read : ι → Option γ → Except ε (List α × Option γ))

/-- The loop that reads every page for one request, with the number of its rounds. -/
def gather (i : ι) : Nat → Option γ → Except ε (Option (List α))
  | 0, _ => .ok none
  | n + 1, cursor =>
    match read i cursor with
    | .error e => .error e
    | .ok (page, none) => .ok (some page)
    | .ok (page, some next) => (gather i n (some next)).map fun rest => rest.map (page ++ ·)

variable {read} {answers : ι → Option γ → List α × Option γ → Prop} {key} {l : List α}
  {stands : γ → κ → Prop} {cursor : Option γ} {position : Option κ}

/-- An answer is the page behind the position that the cursor stands for, and the next cursor
stands for the next position. -/
def Answers (key : α → κ) (l : List α) (stands : γ → κ → Prop) (position : Option κ)
    (answer : List α × Option γ) : Prop :=
  ∃ limit, 0 < limit ∧ answer.1 = (page key l position limit).1 ∧
    Option.Rel stands answer.2 (page key l position limit).2

/-- What an answer and the pages after it come to. -/
theorem Answers.left_eq (hkey : (l.map key).Nodup) {rows : List α} {next : Option γ}
    (h : Answers key l stands position (rows, next)) :
    (next = none → rows = left key l position) ∧
      ∀ c ∈ next, ∃ k, stands c k ∧ rows ++ left key l (some k) = left key l position ∧
        (left key l (some k)).length < (left key l position).length := by
  obtain ⟨limit, hlimit, hrows, hnext⟩ := h
  rw [page_eq hkey] at hrows hnext
  simp only at hrows hnext
  constructor
  · intro hnone
    rw [hnone] at hnext
    split at hnext
    next hmore =>
      -- a page that is followed by another has a last row
      cases hlast : ((left key l position).take limit).getLast? with
      | some last =>
        rw [hlast] at hnext
        cases hnext
      | none =>
        rw [List.getLast?_eq_none_iff, List.take_eq_nil_iff] at hlast
        obtain hzero | hnil := hlast
        · omega
        · rw [hnil] at hmore
          cases hmore
    next hall =>
      rw [hrows, List.take_of_length_le (by omega)]
  · intro c hc
    rw [Option.mem_def.1 hc] at hnext
    split at hnext
    next hmore =>
      cases hlast : ((left key l position).take limit).getLast? with
      | none =>
        rw [hlast] at hnext
        cases hnext
      | some last =>
        rw [hlast] at hnext
        cases hnext with
        | some hstands =>
          refine ⟨key last, hstands, ?_, ?_⟩
          · rw [hrows, left_next hkey hlast, List.take_append_drop]
          · rw [left_next hkey hlast, List.length_drop]
            omega
    next hall => cases hnext

variable (hkey : (l.map key).Nodup)

include hkey

/-- Pages that are read to the last one are what is left, in order and without a repetition. -/
theorem Pages.flatten (hread : ∀ i cursor position answer, Option.Rel stands cursor position →
      answers i cursor answer → Answers key l stands position answer)
    {pages : List (List α)} (h : Pages answers cursor pages)
    (hcursor : Option.Rel stands cursor position) : pages.flatten = left key l position := by
  induction h generalizing position with
  | last h =>
    have hanswer := (hread _ _ _ _ hcursor h).left_eq hkey
    rw [List.flatten_singleton]
    exact hanswer.1 rfl
  | more h hrest ih =>
    obtain ⟨k, hstands, hleft, -⟩ := ((hread _ _ _ _ hcursor h).left_eq hkey).2 _ rfl
    rw [List.flatten_cons, ih (.some hstands), hleft]

/-- The loop ends, with all that is left. -/
theorem gather_eq (hread : ∀ i cursor position answer, Option.Rel stands cursor position →
      read i cursor = .ok answer → Answers key l stands position answer)
    {i : ι} (hok : ∀ cursor position, Option.Rel stands cursor position →
      ∃ answer, read i cursor = .ok answer) {n : Nat}
    (hcursor : Option.Rel stands cursor position) (hn : (left key l position).length < n) :
    gather read i n cursor = .ok (some (left key l position)) := by
  induction n generalizing cursor position with
  | zero => omega
  | succ n ih =>
    obtain ⟨⟨rows, next⟩, hanswer⟩ := hok cursor position hcursor
    obtain ⟨hlast, hmore⟩ := (hread _ _ _ _ hcursor hanswer).left_eq hkey
    cases next with
    | none => simp only [gather, hanswer, hlast rfl]
    | some c =>
      obtain ⟨k, hstands, hleft, hshorter⟩ := hmore c rfl
      simp only [gather, hanswer, ih (.some hstands) (by omega)]
      rw [← hleft]
      rfl

end Cursors

end Fairy.Lib.Keyset
