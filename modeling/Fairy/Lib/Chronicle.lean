import Mathlib.Data.List.Basic

namespace Fairy.Lib

universe u

variable {ε : Type u} {J : List ε → ε → Prop} {log l : List ε} {e : ε}

/-- Every entry of a log is justified by the entries before it. -/
def Justified (J : List ε → ε → Prop) (log : List ε) : Prop :=
  ∀ l₁ e l₂, log = l₁ ++ e :: l₂ → J l₁ e

namespace Justified

theorem nil : Justified J [] := fun _ _ _ h => absurd h (by simp)

/-- The entries of a prefix are justified by the same entries. -/
theorem of_append {l' : List ε} (h : Justified J (l ++ l')) : Justified J l := by
  intro l₁ e l₂ hsplit
  apply h l₁ e (l₂ ++ l')
  rw [hsplit, List.append_assoc, List.cons_append]

theorem snoc (h : Justified J log) (he : J log e) : Justified J (log ++ [e]) := by
  intro l₁ f l₂ hsplit
  obtain rfl | ⟨l₂, a, rfl⟩ := List.eq_nil_or_concat l₂
  · obtain ⟨rfl, hf⟩ := List.append_inj' hsplit rfl
    obtain rfl := List.singleton_inj.mp hf
    exact he
  · rw [List.concat_eq_append, ← List.cons_append, ← List.append_assoc] at hsplit
    obtain ⟨rfl, -⟩ := List.append_inj' hsplit rfl
    exact h l₁ f l₂ rfl

/-- Of two entries in their order, the first is among what justifies the second. -/
theorem of_sublist {e' : ε} (h : Justified J log) (hs : List.Sublist [e, e'] log) :
    ∃ l₁, e ∈ l₁ ∧ J l₁ e' := by
  obtain ⟨l₁, l₂, rfl, he, he'⟩ := List.cons_sublist_iff.mp hs
  obtain ⟨l₃, l₄, rfl⟩ := List.append_of_mem (List.singleton_sublist.mp he')
  exact ⟨l₁ ++ l₃, List.mem_append_left _ he, h _ _ l₄ (by simp)⟩

end Justified

end Fairy.Lib
