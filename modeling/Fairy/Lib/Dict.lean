import Mathlib.Algebra.Order.BigOperators.Group.Finset
import Mathlib.Algebra.Order.Group.Nat
import Mathlib.Data.Finmap

namespace Fairy.Lib

universe u v w

/-- A finite map from keys to values. -/
abbrev Dict (α : Type u) (β : Type v) := Finmap fun _ : α => β

namespace Dict

variable {α : Type u} {β : Type v} {γ : Type w} [DecidableEq α]

/-- The values that a function makes of those of a map. -/
def collect (f : α → β → Option γ) (m : Dict α β) : Dict α γ :=
  Finmap.keysLookupEquiv.symm
    ⟨(m.keys.filter fun a => ((m.lookup a).bind (f a)).isSome, fun a => (m.lookup a).bind (f a)),
      fun a => by
        simp only [Finset.mem_filter, Finmap.mem_keys, iff_and_self, Option.isSome_iff_exists]
        rintro ⟨c, hc⟩
        obtain ⟨b, hb, _⟩ := Option.bind_eq_some_iff.mp hc
        exact Finmap.mem_of_lookup_eq_some hb⟩

@[simp] theorem lookup_collect (f : α → β → Option γ) (m : Dict α β) (a : α) :
    (m.collect f).lookup a = (m.lookup a).bind (f a) := by
  simp [collect]

/-- The sum of the values. -/
def total (m : Dict α Nat) : Nat := ∑ a ∈ m.keys, (m.lookup a).getD 0

/-- How many keys there are. -/
def size (m : Dict α β) : Nat := m.keys.card

/-- One map holds whatever the other does. -/
def Covers (m m' : Dict α β) : Prop := ∀ a b, m'.lookup a = some b → m.lookup a = some b

variable {m m' : Dict α β}

instance [DecidableEq β] : Decidable (m.Covers m') :=
  decidable_of_iff (∀ a ∈ m'.keys, m.lookup a = m'.lookup a)
    ⟨fun h a b hb => (h a (Finmap.mem_keys.mpr (Finmap.mem_of_lookup_eq_some hb))).trans hb,
      fun h a ha => by
        obtain ⟨b, hb⟩ := Finmap.mem_iff.mp (Finmap.mem_keys.mp ha)
        rw [hb, h a b hb]⟩

theorem Covers.keys (h : m.Covers m') : m'.keys ⊆ m.keys := by
  intro a ha
  obtain ⟨b, hb⟩ := Finmap.mem_iff.mp (Finmap.mem_keys.mp ha)
  exact Finmap.mem_keys.mpr (Finmap.mem_of_lookup_eq_some (h a b hb))

theorem Covers.size_le (h : m.Covers m') : m'.size ≤ m.size := Finset.card_le_card h.keys

theorem Covers.total_le {m m' : Dict α Nat} (h : m.Covers m') : m'.total ≤ m.total := by
  calc
    m'.total = ∑ a ∈ m'.keys, (m.lookup a).getD 0 := by
      refine Finset.sum_congr rfl fun a ha => ?_
      obtain ⟨b, hb⟩ := Finmap.mem_iff.mp (Finmap.mem_keys.mp ha)
      rw [hb, h a b hb]
    _ ≤ m.total := Finset.sum_le_sum_of_subset h.keys

end Dict

end Fairy.Lib
