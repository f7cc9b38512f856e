import Mathlib.Data.List.Basic

namespace Fairy.Lib

universe u v

variable {ρ : Type u} {ο : Type v}

/-- Operations on a row, each of which raises its revision. -/
structure Revised (ρ : Type u) (ο : Type v) where
  revision : ρ → Nat
  apply : ο → ρ → Option ρ
  raises : ∀ {o : ο} {r r' : ρ}, apply o r = some r' → revision r < revision r'

/-- What an operation has made of the row that was read, and the revision that was read. -/
structure Guarded (ρ : Type u) (ο : Type v) where
  op : ο
  expected : Nat
  row : ρ
  deriving DecidableEq

namespace Revised

variable (R : Revised ρ ο)

/-- The operations, one after another. -/
def replay (ops : List ο) (r : ρ) : Option ρ := ops.foldlM (fun r o => R.apply o r) r

/-- A write is refused if the revision has moved since it was read. -/
def write (w : Guarded ρ ο) (r : ρ) : Option ρ :=
  if R.revision r = w.expected then some w.row else none

def writes (l : List (Guarded ρ ο)) (r : ρ) : Option ρ := l.foldlM (fun r w => R.write w r) r

/-- Each write takes up where the one before it has left the row. -/
def Follows : List (Guarded ρ ο) → ρ → Prop
  | [], _ => True
  | w :: l, r => R.apply w.op r = some w.row ∧ w.expected = R.revision r ∧ Follows l w.row

/-- The row that a party has read is the one that is stored, or an older one. -/
def Held (l : List (Guarded ρ ο)) (r : ρ) : Prop :=
  ∃ snapshot, (snapshot = r ∨ R.revision snapshot < R.revision r) ∧ R.Follows l snapshot

variable {R} {l : List (Guarded ρ ο)} {ops ops' : List ο} {r r' r'' : ρ} {w : Guarded ρ ο}

@[simp] theorem replay_nil : R.replay [] r = some r := rfl

@[simp] theorem writes_nil : R.writes [] r = some r := rfl

theorem replay_cons {o : ο} : R.replay (o :: ops) r = R.apply o r >>= R.replay ops :=
  List.foldlM_cons

theorem writes_cons : R.writes (w :: l) r = R.write w r >>= R.writes l := List.foldlM_cons

theorem replay_append (h : R.replay ops r = some r') (h' : R.replay ops' r' = some r'') :
    R.replay (ops ++ ops') r = some r'' := by
  rw [replay, List.foldlM_append]
  exact Option.bind_eq_some_iff.mpr ⟨r', h, h'⟩

/-- The invariant rule: what each operation keeps, the operations keep together. -/
theorem replay_invariant {I : ρ → Prop} (hk : ∀ o r r', I r → R.apply o r = some r' → I r')
    (h : R.replay ops r = some r') (hi : I r) : I r' := by
  induction ops generalizing r with
  | nil =>
    obtain rfl := Option.some.inj h
    exact hi
  | cons o ops ih =>
    rw [replay_cons] at h
    obtain ⟨s, hs, h⟩ := Option.bind_eq_some_iff.mp h
    exact ih h (hk _ _ _ hi hs)

/-- The accounting rule: the operations add to a counter once for each of those that count. -/
theorem replay_counter {m : ρ → Nat} {c : ο → Bool}
    (hk : ∀ o r r', R.apply o r = some r' → m r' = m r + if c o then 1 else 0)
    (h : R.replay ops r = some r') : m r' = m r + ops.countP c := by
  induction ops generalizing r with
  | nil =>
    obtain rfl := Option.some.inj h
    rfl
  | cons o ops ih =>
    rw [replay_cons] at h
    obtain ⟨s, hs, h⟩ := Option.bind_eq_some_iff.mp h
    rw [ih h, hk _ _ _ hs, List.countP_cons]
    omega

theorem replay_revision (h : R.replay ops r = some r') :
    r = r' ∨ R.revision r < R.revision r' := by
  induction ops generalizing r with
  | nil => exact .inl (Option.some.inj h)
  | cons o ops ih =>
    rw [replay_cons] at h
    obtain ⟨s, hs, h⟩ := Option.bind_eq_some_iff.mp h
    have hraised := R.raises hs
    obtain rfl | hlt := ih h
    · exact .inr hraised
    · exact .inr (by omega)

theorem Follows.held (h : R.Follows l r) : R.Held l r := ⟨r, .inl rfl, h⟩

/-- What others do to the row leaves a party with an older one. -/
theorem Held.replay (h : R.Held l r) (hr : R.replay ops r = some r') : R.Held l r' := by
  obtain ⟨snapshot, hold, hl⟩ := h
  refine ⟨snapshot, ?_, hl⟩
  obtain rfl | hlt := replay_revision hr
  · exact hold
  · obtain rfl | hold := hold
    · exact .inr hlt
    · exact .inr (by omega)

theorem Follows.writes (h : R.Follows l r) (hw : R.writes l r = some r') :
    R.replay (l.map (·.op)) r = some r' := by
  induction l generalizing r with
  | nil => exact hw
  | cons w l ih =>
    obtain ⟨happly, hexpected, hl⟩ := h
    rw [writes_cons, write, if_pos hexpected.symm] at hw
    rw [List.map_cons, replay_cons, happly]
    exact ih hl hw

/-- The refinement: writes that are not refused do what the operations do to the row that is
stored, whatever has become of it since it was read. -/
theorem Held.writes (h : R.Held l r) (hw : R.writes l r = some r') :
    R.replay (l.map (·.op)) r = some r' := by
  obtain ⟨snapshot, rfl | hlt, hl⟩ := h
  · exact hl.writes hw
  · cases l with
    | nil => exact hw
    | cons w l =>
      have hne : R.revision r ≠ w.expected := by
        rw [hl.2.1]
        exact Nat.ne_of_gt hlt
      rw [writes_cons, write, if_neg hne] at hw
      cases hw

end Revised

end Fairy.Lib
