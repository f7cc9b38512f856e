import Mathlib.Data.Set.Insert
import Fairy.Lib.Run

namespace Fairy.Lib

universe u

variable {ν : Type u}

/-- A submission that has been answered, with the revision it found. -/
structure Submission (ν : Type u) where
  value : ν
  expected : Int
  found : Nat
  accepted : Bool

/-- The submission was accepted and is not the replay of one that was. -/
def Submission.first (s : Submission ν) : Bool := s.accepted && decide (s.expected = s.found)

/-- A register, the values on record as having lost, what has been active at each
revision, and the submissions so far. -/
@[ext] structure Register (ν : Type u) where
  revision : Nat
  active : Option ν
  retained : Set ν
  past : List (Option ν)
  log : List (Submission ν)

namespace Register

def start (active : Option ν) : Register ν := ⟨0, active, ∅, [active], []⟩

/-- The register after a submission: a promotion may strike the value from the
record, a value that loses is on record unless it has been active. -/
inductive Step (r : Register ν) : ν × Int → Register ν → Prop
  | promoted {v : ν} {kept : Set ν} (hk : ∀ u ∈ r.retained, u = v ∨ u ∈ kept) :
    Step r (v, r.revision) ⟨r.revision + 1, some v, kept, r.past ++ [some v],
      r.log ++ [⟨v, r.revision, r.revision, true⟩]⟩
  | replayed {v : ν} {e : Int} (ha : r.active = some v) (hr : (r.revision : Int) = e + 1) :
    Step r (v, e) { r with log := r.log ++ [⟨v, e, r.revision, true⟩] }
  | retained {v : ν} {e : Int} {kept : Set ν} (hk : r.retained ⊆ kept)
    (hv : some v ∈ r.past ∨ v ∈ kept) :
    Step r (v, e) { r with retained := kept, log := r.log ++ [⟨v, e, r.revision, false⟩] }

/-- Nothing is lost: the revision counts the first acceptances, two submissions
accepted with one expectation are of one value, and every value that was ever
submitted has been active or is on record. -/
structure Lossless (r : Register ν) : Prop where
  counted : r.revision = (r.log.filter Submission.first).length
  agreed : ∀ s ∈ r.log, ∀ t ∈ r.log, s.accepted = true → t.accepted = true →
    s.expected = t.expected → s.value = t.value
  kept : ∀ s ∈ r.log, some s.value ∈ r.past ∨ s.value ∈ r.retained

/-- The history invariant: the value accepted with an expectation is what was active
at the revision after it. -/
structure Sound (r : Register ν) : Prop where
  length : r.past.length = r.revision + 1
  current : r.past[r.revision]? = some r.active
  counted : r.revision = (r.log.filter Submission.first).length
  placed : ∀ s ∈ r.log, s.accepted = true →
    0 ≤ s.expected + 1 ∧ r.past[(s.expected + 1).toNat]? = some (some s.value)
  kept : ∀ s ∈ r.log, some s.value ∈ r.past ∨ s.value ∈ r.retained

theorem Sound.start (active : Option ν) : (start active).Sound :=
  ⟨rfl, rfl, rfl, fun _ hs => absurd hs List.not_mem_nil, fun _ hs => absurd hs List.not_mem_nil⟩

theorem Sound.lossless {r : Register ν} (h : r.Sound) : r.Lossless := by
  refine ⟨h.counted, fun s hs t ht has hat he => ?_, h.kept⟩
  obtain ⟨_, hps⟩ := h.placed s hs has
  obtain ⟨_, hpt⟩ := h.placed t ht hat
  rw [he, hpt] at hps
  exact (Option.some.inj (Option.some.inj hps)).symm

theorem Sound.step {r r' : Register ν} {x : ν × Int} (h : r.Sound) (hs : r.Step x r') :
    r'.Sound := by
  cases hs with
  | @promoted v kept hk =>
    refine ⟨by simp [h.length], ?_, ?_, ?_, ?_⟩
    · rw [← h.length, List.getElem?_concat_length]
    · simp [List.filter_append, ← h.counted, Submission.first]
    · intro s hs ha
      obtain hs | hs := List.mem_append.mp hs
      · obtain ⟨h0, hp⟩ := h.placed s hs ha
        exact ⟨h0, List.getElem?_append_left (List.getElem?_eq_some_iff.mp hp).1 ▸ hp⟩
      · obtain rfl := List.mem_singleton.mp hs
        have hn : ((r.revision : Int) + 1).toNat = r.past.length := by
          rw [h.length]
          omega
        change 0 ≤ (r.revision : Int) + 1 ∧
          (r.past ++ [some v])[((r.revision : Int) + 1).toNat]? = some (some v)
        rw [hn, List.getElem?_concat_length]
        exact ⟨by omega, rfl⟩
    · intro s hs
      obtain hs | hs := List.mem_append.mp hs
      · obtain hp | hr := h.kept s hs
        · exact .inl (List.mem_append_left _ hp)
        · obtain rfl | hu := hk _ hr
          · exact .inl (List.mem_append_right _ List.mem_cons_self)
          · exact .inr hu
      · obtain rfl := List.mem_singleton.mp hs
        exact .inl (List.mem_append_right _ List.mem_cons_self)
  | @replayed v e ha hr =>
    refine ⟨h.length, h.current, ?_, ?_, ?_⟩
    · have hne : ¬ e = r.revision := by omega
      simp [List.filter_append, ← h.counted, Submission.first, hne]
    · intro s hs hacc
      obtain hs | hs := List.mem_append.mp hs
      · exact h.placed s hs hacc
      · obtain rfl := List.mem_singleton.mp hs
        change 0 ≤ e + 1 ∧ r.past[(e + 1).toNat]? = some (some v)
        rw [← hr, Int.toNat_natCast, h.current, ha]
        exact ⟨by omega, rfl⟩
    · intro s hs
      obtain hs | hs := List.mem_append.mp hs
      · exact h.kept s hs
      · obtain rfl := List.mem_singleton.mp hs
        exact .inl (ha ▸ List.mem_of_getElem? h.current)
  | @retained v e kept hk hv =>
    refine ⟨h.length, h.current, ?_, ?_, ?_⟩
    · simp [List.filter_append, ← h.counted, Submission.first]
    · intro s hs hacc
      obtain hs | hs := List.mem_append.mp hs
      · exact h.placed s hs hacc
      · obtain rfl := List.mem_singleton.mp hs
        cases hacc
    · intro s hs
      obtain hs | hs := List.mem_append.mp hs
      · exact (h.kept s hs).imp id fun hr => hk hr
      · obtain rfl := List.mem_singleton.mp hs
        exact hv

end Register

end Fairy.Lib
