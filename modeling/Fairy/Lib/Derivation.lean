import Mathlib.Logic.Relation

namespace Fairy.Lib

universe u

variable {α : Type u} (rule : α → Option (List α))

/-- The least set that has each thing whose rule is there and asks for members only: a derivation
is finite and well founded. -/
inductive Derivable : α → Prop
  | intro {a : α} {needs : List α} (hrule : rule a = some needs)
      (hneeds : ∀ b ∈ needs, Derivable b) : Derivable a

variable {rule} {R : α → α → Prop} {a b : α} {needs : List α}

theorem derivable_iff (hrule : rule a = some needs) :
    Derivable rule a ↔ ∀ b ∈ needs, Derivable rule b := by
  refine ⟨fun h => ?_, .intro hrule⟩
  cases h with
  | intro hrule' hneeds =>
    obtain rfl := Option.some.inj (hrule.symm.trans hrule')
    exact hneeds

theorem not_derivable_of_none (hrule : rule a = none) : ¬ Derivable rule a := by
  intro h
  cases h with
  | intro hrule' => cases hrule.symm.trans hrule'

section Cycles

variable (hR : ∀ a needs b, rule a = some needs → R a b → b ∈ needs)
include hR

theorem Derivable.reach (h : Derivable rule a) (hab : Relation.ReflTransGen R a b) :
    Derivable rule b := by
  induction hab with
  | refl => exact h
  | tail _ hbc ih =>
    cases ih with
    | intro hrule hneeds => exact hneeds _ (hR _ _ _ hrule hbc)

/-- What needs itself cannot be derived: by induction on the derivation, along the cycle. -/
theorem not_derivable_of_cycle (h : Derivable rule a) : ¬ Relation.TransGen R a a := by
  induction h with
  | @intro a needs hrule _ ih =>
    intro hcycle
    obtain ⟨b, hab, hba⟩ := Relation.TransGen.head'_iff.mp hcycle
    exact ih b (hR a needs b hrule hab) (Relation.TransGen.tail' hba hab)

theorem not_derivable_of_reach_cycle (hab : Relation.ReflTransGen R a b)
    (hcycle : Relation.TransGen R b b) : ¬ Derivable rule a :=
  fun h => not_derivable_of_cycle hR (h.reach hR hab) hcycle

end Cycles

end Fairy.Lib
