import Mathlib.Data.Finite.Defs
import Mathlib.Data.List.Basic
import Mathlib.Data.List.Nodup
import Mathlib.Data.List.Perm.Subperm
import Mathlib.Data.Set.Finite.List
import Mathlib.Logic.Relation
import Mathlib.Order.WellFounded

namespace Fairy.Lib

section Acyclic

variable {ν : Type} {r : ν → ν → Prop}

/-- No vertex is reached from itself. -/
def Acyclic (r : ν → ν → Prop) : Prop := ∀ v, ¬ Relation.TransGen r v v

namespace Acyclic

theorem of_rank (rank : ν → Nat) (h : ∀ a b, r a b → rank a < rank b) : Acyclic r := by
  have hgrow : ∀ a b, Relation.TransGen r a b → rank a < rank b := by
    intro a b hab
    induction hab with
    | single hab => exact h _ _ hab
    | tail _ hbc ih => exact ih.trans (h _ _ hbc)
  exact fun v hv => Nat.lt_irrefl _ (hgrow v v hv)

/-- Where finitely many vertices have edges out of them, what holds of a vertex as soon as it holds
of all its sources holds of all vertices. -/
theorem induction {vertices : List ν} (h : Acyclic r) (hwithin : ∀ a b, r a b → a ∈ vertices)
    {p : ν → Prop} (hstep : ∀ b, (∀ a, r a b → p a) → p b) (b : ν) : p b := by
  have hfinite : Finite { v // v ∈ vertices } := (List.finite_toSet vertices).to_subtype
  let s : { v // v ∈ vertices } → { v // v ∈ vertices } → Prop := fun a b =>
    Relation.TransGen r a.1 b.1
  have htrans : IsTrans _ s := ⟨fun _ _ _ hab hbc => hab.trans hbc⟩
  have hirrefl : Std.Irrefl s := ⟨fun a ha => h a.1 ha⟩
  have hwf : WellFounded s := Finite.wellFounded_of_trans_of_irrefl s
  have hall : ∀ v : { v // v ∈ vertices }, p v.1 := by
    intro v
    induction v using hwf.induction with
    | h v ih => exact hstep v.1 fun a ha => ih ⟨a, hwithin a _ ha⟩ (.single ha)
  exact hstep b fun a ha => hall ⟨a, hwithin a b ha⟩

end Acyclic

end Acyclic

namespace Kahn

variable {ν : Type} [DecidableEq ν] (incoming outgoing : ν → List ν)

/-- Kahn's walk: a queued vertex is visited once, and a target is queued as
soon as all its sources are visited. -/
def visit : Nat → List ν → List ν → List ν
  | 0, visited, _ => visited
  | _ + 1, visited, [] => visited
  | fuel + 1, visited, v :: queue =>
    if v ∈ visited then visit fuel visited queue
    else visit fuel (visited ++ [v])
      (queue ++ (outgoing v).filter fun t => (incoming t).all (· ∈ visited ++ [v]))

/-- Each listed vertex comes after all its sources. -/
def Ordered (visited : List ν) : Prop :=
  ∀ x ∈ visited, ∀ y ∈ incoming x, y ∈ visited ∧ visited.idxOf y < visited.idxOf x

variable {incoming outgoing}

theorem Ordered.append {visited : List ν} {v : ν} (h : Ordered incoming visited)
    (hv : v ∉ visited) (hs : ∀ y ∈ incoming v, y ∈ visited) :
    Ordered incoming (visited ++ [v]) := by
  intro x hx y hy
  rcases List.mem_append.mp hx with hx | hx
  · obtain ⟨hm, hl⟩ := h x hx y hy
    refine ⟨List.mem_append_left _ hm, ?_⟩
    rwa [List.idxOf_append_of_mem hm, List.idxOf_append_of_mem hx]
  · obtain rfl := List.mem_singleton.mp hx
    have hm := hs y hy
    refine ⟨List.mem_append_left _ hm, ?_⟩
    rw [List.idxOf_append_of_mem hm, List.idxOf_append_of_notMem hv]
    exact Nat.lt_of_lt_of_le (List.idxOf_lt_length_of_mem hm) (Nat.le_add_right _ _)

/-- What the walk keeps: the visited vertices are distinct, ordered and among
the graph's, and every queued vertex has all its sources visited. -/
structure Walk (incoming : ν → List ν) (vertices visited queue : List ν) : Prop where
  nodup : visited.Nodup
  ordered : Ordered incoming visited
  within : ∀ x ∈ visited, x ∈ vertices
  queued : ∀ x ∈ queue, x ∈ vertices ∧ ∀ y ∈ incoming x, y ∈ visited

theorem Walk.visit {vertices : List ν} (ht : ∀ v, ∀ t ∈ outgoing v, t ∈ vertices) (fuel : Nat)
    {visited queue : List ν} (h : Walk incoming vertices visited queue) :
    ∃ queue', Walk incoming vertices (visit incoming outgoing fuel visited queue) queue' := by
  induction fuel generalizing visited queue with
  | zero => exact ⟨queue, h⟩
  | succ fuel ih =>
    cases queue with
    | nil => exact ⟨[], h⟩
    | cons v queue =>
      simp only [Kahn.visit]
      by_cases hv : v ∈ visited
      · rw [if_pos hv]
        exact ih ⟨h.nodup, h.ordered, h.within, fun x hx => h.queued x (List.mem_cons_of_mem _ hx)⟩
      · rw [if_neg hv]
        obtain ⟨hg, hs⟩ := h.queued v List.mem_cons_self
        refine ih ⟨?_, h.ordered.append hv hs, ?_, ?_⟩
        · exact List.nodup_append'.mpr ⟨h.nodup, List.nodup_singleton v, by simpa using hv⟩
        · intro x hx
          rcases List.mem_append.mp hx with hx | hx
          · exact h.within x hx
          · rwa [List.mem_singleton.mp hx]
        · intro x hx
          rcases List.mem_append.mp hx with hx | hx
          · obtain ⟨hm, hq⟩ := h.queued x (List.mem_cons_of_mem _ hx)
            exact ⟨hm, fun y hy => List.mem_append_left _ (hq y hy)⟩
          · obtain ⟨hm, hq⟩ := List.mem_filter.mp hx
            exact ⟨ht v x hm, by simpa using hq⟩

/-- A walk from the source-free vertices that lists as many vertices as the
graph has lists all of them, each after its sources. -/
theorem visit_complete {vertices ready : List ν}
    (ht : ∀ v, ∀ t ∈ outgoing v, t ∈ vertices)
    (hr : ∀ x ∈ ready, x ∈ vertices ∧ incoming x = []) {fuel : Nat}
    (hl : (visit incoming outgoing fuel [] ready).length = vertices.length) :
    (∀ x ∈ vertices, x ∈ visit incoming outgoing fuel [] ready) ∧
      Ordered incoming (visit incoming outgoing fuel [] ready) := by
  have h0 : Walk incoming vertices [] ready :=
    ⟨List.nodup_nil, fun _ hx => absurd hx List.not_mem_nil, fun _ hx => absurd hx List.not_mem_nil,
      fun x hx => ⟨(hr x hx).1, by simp [(hr x hx).2]⟩⟩
  obtain ⟨_, h⟩ := h0.visit ht fuel
  have hsub : (visit incoming outgoing fuel [] ready) ⊆ vertices := fun x hx => h.within x hx
  have hperm := (List.subperm_of_subset h.nodup hsub).perm_of_length_le (Nat.le_of_eq hl.symm)
  exact ⟨fun x hx => hperm.mem_iff.mpr hx, h.ordered⟩

section Completeness

variable {vertices visited queue : List ν} {v : ν} {fuel : Nat}

/-- What the unvisited vertices may still put into the queue. -/
def pending (outgoing : ν → List ν) : (vertices visited : List ν) → Nat
  | [], _ => 0
  | v :: vertices, visited =>
    (if v ∈ visited then 0 else (outgoing v).length) + pending outgoing vertices visited

theorem pending_append_le : pending outgoing vertices (visited ++ [v]) ≤
    pending outgoing vertices visited := by
  induction vertices with
  | nil => exact le_refl _
  | cons w vertices ih =>
    rw [pending, pending]
    by_cases hw : w ∈ visited
    · rw [if_pos hw, if_pos (List.mem_append_left _ hw)]
      omega
    · rw [if_neg hw]
      split <;> omega

theorem pending_append (hv : v ∈ vertices) (hnew : v ∉ visited) :
    pending outgoing vertices (visited ++ [v]) + (outgoing v).length ≤
      pending outgoing vertices visited := by
  induction vertices with
  | nil => exact absurd hv List.not_mem_nil
  | cons w vertices ih =>
    rw [pending, pending]
    obtain rfl | hv := List.mem_cons.mp hv
    · have hrest : pending outgoing vertices (visited ++ [v]) ≤ pending outgoing vertices visited :=
        pending_append_le
      rw [if_neg hnew, if_pos (List.mem_append_right _ (List.mem_singleton_self v))]
      omega
    · have hrest := ih hv
      by_cases hw : w ∈ visited
      · rw [if_pos hw, if_pos (List.mem_append_left _ hw)]
        omega
      · rw [if_neg hw]
        split <;> omega

/-- A walk with enough fuel leaves no vertex out whose sources are all visited. -/
theorem visit_closed (hlink : ∀ x ∈ vertices, ∀ y ∈ incoming x, x ∈ outgoing y)
    (htarget : ∀ v, ∀ t ∈ outgoing v, t ∈ vertices) (hqueue : ∀ x ∈ queue, x ∈ vertices)
    (hfuel : queue.length + pending outgoing vertices visited ≤ fuel)
    (hserved : ∀ x ∈ vertices, (∀ y ∈ incoming x, y ∈ visited) → x ∈ visited ∨ x ∈ queue) :
    ∀ x ∈ vertices, (∀ y ∈ incoming x, y ∈ visit incoming outgoing fuel visited queue) →
      x ∈ visit incoming outgoing fuel visited queue := by
  induction fuel generalizing visited queue with
  | zero =>
    have hnil : queue = [] := List.length_eq_zero_iff.mp (by omega)
    intro x hx hsources
    exact (hserved x hx hsources).resolve_right (by simp [hnil])
  | succ fuel ih =>
    cases queue with
    | nil =>
      intro x hx hsources
      exact (hserved x hx hsources).resolve_right List.not_mem_nil
    | cons v queue =>
      obtain ⟨hv, hqueue⟩ := List.forall_mem_cons.mp hqueue
      rw [List.length_cons] at hfuel
      simp only [Kahn.visit]
      by_cases hold : v ∈ visited
      · rw [if_pos hold]
        refine ih hqueue (by omega) fun x hx hsources => ?_
        obtain h | h := hserved x hx hsources
        · exact .inl h
        · obtain rfl | h := List.mem_cons.mp h
          · exact .inl hold
          · exact .inr h
      · rw [if_neg hold]
        refine ih (fun x hx => ?_) ?_ fun x hx hsources => ?_
        · obtain hx | hx := List.mem_append.mp hx
          · exact hqueue x hx
          · exact htarget v x (List.mem_filter.mp hx).1
        · have hrest : pending outgoing vertices (visited ++ [v]) + (outgoing v).length ≤
              pending outgoing vertices visited := pending_append hv hold
          have hnew := List.length_filter_le
            (fun t => (incoming t).all (· ∈ visited ++ [v])) (outgoing v)
          rw [List.length_append]
          omega
        · by_cases hbefore : ∀ y ∈ incoming x, y ∈ visited
          · obtain h | h := hserved x hx hbefore
            · exact .inl (List.mem_append_left _ h)
            · obtain rfl | h := List.mem_cons.mp h
              · exact .inl (List.mem_append_right _ (List.mem_singleton_self x))
              · exact .inr (List.mem_append_left _ h)
          · -- the last source of the vertex is the one visited now
            push Not at hbefore
            obtain ⟨y, hy, hyold⟩ := hbefore
            have hyv : y = v := by simpa [hyold] using hsources y hy
            refine .inr (List.mem_append_right _ (List.mem_filter.mpr ⟨?_, ?_⟩))
            · exact hyv ▸ hlink x hx y hy
            · simpa using hsources

/-- A walk of an acyclic graph visits all its vertices. -/
theorem visit_acyclic {ready : List ν}
    (hlink : ∀ x ∈ vertices, ∀ y ∈ incoming x, y ∈ vertices ∧ x ∈ outgoing y)
    (htarget : ∀ v, ∀ t ∈ outgoing v, t ∈ vertices) (hwithin : ∀ x ∈ ready, x ∈ vertices)
    (hready : ∀ x ∈ vertices, incoming x = [] → x ∈ ready)
    (hfuel : ready.length + pending outgoing vertices [] ≤ fuel)
    (hacyclic : Acyclic fun a b => b ∈ vertices ∧ a ∈ incoming b) :
    ∀ x ∈ vertices, x ∈ visit incoming outgoing fuel [] ready := by
  have hclosed : ∀ x ∈ vertices, (∀ y ∈ incoming x, y ∈ visit incoming outgoing fuel [] ready) →
      x ∈ visit incoming outgoing fuel [] ready :=
    visit_closed (fun x hx y hy => (hlink x hx y hy).2) htarget hwithin hfuel fun x hx hsources =>
      .inr (hready x hx (List.eq_nil_iff_forall_not_mem.mpr fun y hy =>
        absurd (hsources y hy) List.not_mem_nil))
  refine hacyclic.induction (fun a b h => (hlink b h.1 a h.2).1) ?_
  intro b ih hb
  exact hclosed b hb fun y hy => ih y ⟨hb, hy⟩ (hlink b hb y hy).1

end Completeness

/-- Where every vertex is a source or has a lower one of its kind before it, there
is a source. -/
theorem exists_source {α : Type} (rank : α → Nat) {p q : α → Prop}
    (h : ∀ a, p a → q a ∨ ∃ b, p b ∧ rank b < rank a) {a : α} (ha : p a) : ∃ b, p b ∧ q b := by
  induction hn : rank a using Nat.strongRecOn generalizing a with
  | _ n ih =>
    obtain hq | ⟨b, hb, hlt⟩ := h a ha
    · exact ⟨a, ha, hq⟩
    · exact ih (rank b) (hn ▸ hlt) hb rfl

end Kahn

end Fairy.Lib
