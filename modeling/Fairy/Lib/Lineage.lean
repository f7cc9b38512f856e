import Mathlib.Data.List.Chain

namespace Fairy.Lib

universe u

variable {α : Type u}

/-- The values that a stored object has had: the first one is fresh, each of the others comes from
the one before it by a move, and the last one is stored now. -/
structure Lineage (fresh : α → Prop) (move : α → α → Prop) (l : List α) (a : α) : Prop where
  chain : l.IsChain move
  head : ∀ b ∈ l.head?, fresh b
  last : l.getLast? = some a

namespace Lineage

variable {fresh : α → Prop} {move : α → α → Prop} {l : List α} {a b c : α}

theorem single (h : fresh a) : Lineage fresh move [a] a :=
  ⟨List.isChain_singleton a, fun _ hb => Option.some.inj hb ▸ h, rfl⟩

theorem snoc (h : Lineage fresh move l a) (hmove : move a b) :
    Lineage fresh move (l ++ [b]) b := by
  have hne : l ≠ [] := by
    rintro rfl
    cases h.last
  refine ⟨List.isChain_append.mpr ⟨h.chain, List.isChain_singleton b, ?_⟩, ?_,
    List.getLast?_concat⟩
  · intro x hx y hy
    rw [h.last] at hx
    obtain rfl := Option.some.inj hx
    obtain rfl := Option.some.inj hy
    exact hmove
  · rw [List.head?_append_of_ne_nil l hne]
    exact h.head

theorem ne_nil (h : Lineage fresh move l a) : l ≠ [] := by
  rintro rfl
  cases h.last

theorem mem (h : Lineage fresh move l a) : a ∈ l := List.mem_of_getLast? h.last

/-- Two values that stand next to each other are a move. -/
theorem move_of_infix (h : Lineage fresh move l a) (hbc : [b, c] <:+: l) : move b c :=
  List.isChain_pair.mp <| List.IsChain.infix h.chain hbc

/-- What every move respects relates each value to the one stored now. -/
theorem related {R : α → α → Prop} (hrefl : ∀ a, R a a) (htrans : ∀ a b c, R a b → R b c → R a c)
    (hmove : ∀ a b, move a b → R a b) (h : Lineage fresh move l a) (hb : b ∈ l) : R b a := by
  obtain ⟨l₁, l₂, rfl⟩ := List.append_of_mem hb
  have hchain : (b :: l₂).IsChain move := (List.isChain_append.mp h.chain).2.1
  have hlast : (b :: l₂).getLast? = some a := by
    rw [← h.last, List.getLast?_append_of_ne_nil l₁ (List.cons_ne_nil b l₂)]
  clear h hb
  induction l₂ generalizing b with
  | nil =>
    obtain rfl := Option.some.inj hlast
    exact hrefl b
  | cons c l₂ ih =>
    obtain ⟨hbc, hrest⟩ := List.isChain_cons_cons.mp hchain
    exact htrans b c a (hmove b c hbc) (ih hrest (by rwa [List.getLast?_cons_cons] at hlast))

/-- A property that the first value does not have came with one of the moves. -/
theorem exists_infix {p : α → Prop} (hfresh : ∀ a, fresh a → ¬ p a) (h : Lineage fresh move l a)
    (ha : p a) : ∃ b c, [b, c] <:+: l ∧ ¬ p b ∧ p c := by
  obtain ⟨hchain, hhead, hlast⟩ := h
  cases l with
  | nil => cases hlast
  | cons b l =>
    have hb : ¬ p b := hfresh b (hhead b rfl)
    clear hchain hhead
    induction l generalizing b with
    | nil =>
      obtain rfl : b = a := Option.some.inj hlast
      exact absurd ha hb
    | cons c l ih =>
      by_cases hc : p c
      · exact ⟨b, c, ⟨[], l, rfl⟩, hb, hc⟩
      · obtain ⟨d, e, hinfix, hd, he⟩ := ih c (by rwa [List.getLast?_cons_cons] at hlast) hc
        exact ⟨d, e, hinfix.trans (List.suffix_cons b _).isInfix, hd, he⟩

/-- A number that starts at one and that every move raises by one counts the values. -/
theorem count {f : α → Nat} (hfresh : ∀ a, fresh a → f a = 1)
    (hmove : ∀ a b, move a b → f b = f a + 1) (h : Lineage fresh move l a)
    {i : Nat} (hi : i < l.length) : f l[i] = i + 1 := by
  induction i with
  | zero => exact hfresh _ (h.head _ (List.head?_eq_getElem? ▸ List.getElem?_eq_getElem hi))
  | succ i ih =>
    rw [hmove l[i] l[i + 1] (h.chain.getElem i hi), ih (Nat.lt_of_succ_lt hi)]

theorem count_last {f : α → Nat} (hfresh : ∀ a, fresh a → f a = 1)
    (hmove : ∀ a b, move a b → f b = f a + 1) (h : Lineage fresh move l a) :
    f a = l.length := by
  have hpos : 0 < l.length := List.length_pos_of_ne_nil h.ne_nil
  have hlast : l[l.length - 1] = a := by
    have := h.last
    rw [List.getLast?_eq_getElem?, List.getElem?_eq_getElem (by omega)] at this
    exact Option.some.inj this
  rw [← hlast, h.count hfresh hmove (by omega)]
  omega

end Lineage

end Fairy.Lib
