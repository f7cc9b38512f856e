import Mathlib.Data.Nat.Init
import Mathlib.Order.Defs.PartialOrder

namespace Fairy.Lib

universe u v

variable {σ : Type u} {ι : Type v}

/-- Runs of a labelled transition relation whose labels are all admitted, in
the state they are taken from, by `ok`. -/
inductive Run (step : σ → ι → σ → Prop) (ok : σ → ι → Prop) (s : σ) : σ → Prop
  | refl : Run step ok s s
  | next {t u : σ} {i : ι} : Run step ok s t → ok t i → step t i u → Run step ok s u

namespace Run

variable {step : σ → ι → σ → Prop} {ok ok' : σ → ι → Prop} {s t u : σ}

theorem single {i : ι} (ho : ok s i) (h : step s i t) : Run step ok s t := refl.next ho h

theorem trans (h : Run step ok s t) (h' : Run step ok t u) : Run step ok s u := by
  induction h' with
  | refl => exact h
  | next _ ho hs ih => exact ih.next ho hs

theorem mono (h : Run step ok s t) (hw : ∀ a i, ok a i → ok' a i) : Run step ok' s t := by
  induction h with
  | refl => exact refl
  | next _ ho hs ih => exact ih.next (hw _ _ ho) hs

/-- The invariant rule: what holds at the start and is kept by each admitted
step holds at the end. -/
theorem invariant {I : σ → Prop} (hk : ∀ a i b, I a → ok a i → step a i b → I b)
    (h : Run step ok s t) (hi : I s) : I t := by
  induction h with
  | refl => exact hi
  | next _ ho hs ih => exact hk _ _ _ ih ho hs

/-- The history rule: a reflexive and transitive relation that each admitted
step respects, under an invariant, relates the ends of a run. -/
theorem history {I : σ → Prop} {R : σ → σ → Prop} (hrefl : ∀ a, R a a)
    (htrans : ∀ a b c, R a b → R b c → R a c)
    (hk : ∀ a i b, I a → ok a i → step a i b → I b)
    (hr : ∀ a i b, I a → ok a i → step a i b → R a b)
    (h : Run step ok s t) (hi : I s) : R s t := by
  induction h with
  | refl => exact hrefl s
  | next hp ho hs ih => exact htrans _ _ _ ih (hr _ _ _ (hp.invariant hk hi) ho hs)

end Run

section Function

variable {f : σ → ι → σ} {ok : σ → ι → Prop}

/-- Each label of a list is admitted where a run by a function takes it. -/
def Along (f : σ → ι → σ) (ok : σ → ι → Prop) : σ → List ι → Prop
  | _, [] => True
  | s, i :: l => ok s i ∧ Along f ok (f s i) l

def decideAlong [∀ s i, Decidable (ok s i)] : ∀ s l, Decidable (Along f ok s l)
  | _, [] => isTrue trivial
  | s, i :: l =>
    have := decideAlong (f s i) l
    inferInstanceAs (Decidable (ok s i ∧ Along f ok (f s i) l))

instance [∀ s i, Decidable (ok s i)] {s : σ} {l : List ι} : Decidable (Along f ok s l) :=
  decideAlong s l

theorem Run.foldl {s : σ} {l : List ι} (h : Along f ok s l) :
    Run (fun s i t => t = f s i) ok s (l.foldl f s) := by
  induction l generalizing s with
  | nil => exact .refl
  | cons i l ih => exact (Run.single h.1 rfl).trans (ih h.2)

end Function

/-- An infinite run of a labelled transition relation. -/
structure Trace (step : σ → ι → σ → Prop) where
  state : Nat → σ
  label : Nat → ι
  next : ∀ n, step (state n) (label n) (state (n + 1))

namespace Trace

variable {step : σ → ι → σ → Prop}

/-- What each step keeps holds at every later time. -/
theorem later (τ : Trace step) {I : σ → Prop} (hk : ∀ a i b, I a → step a i b → I b) {n m : Nat}
    (hle : n ≤ m) (h : I (τ.state n)) : I (τ.state m) := by
  induction m, hle using Nat.le_induction with
  | base => exact h
  | succ m _ ih => exact hk _ _ _ ih (τ.next m)

theorem invariant (τ : Trace step) {I : σ → Prop} (hk : ∀ a i b, I a → step a i b → I b)
    (h : I (τ.state 0)) (n : Nat) : I (τ.state n) :=
  τ.later hk (Nat.zero_le n) h

/-- Labels of a kind that occur again and again. -/
def Recurs (τ : Trace step) (helpful : ι → Prop) : Prop :=
  ∀ n, ∃ m, n ≤ m ∧ helpful (τ.label m)

section LeadsTo

variable {P Q : σ → Prop} {rank : σ → Nat} {helpful : ι → Prop}

theorem keeps_until (τ : Trace step)
    (hkeep : ∀ a i b, P a → step a i b → Q b ∨ P b ∧ rank b ≤ rank a) {n m : Nat} (hle : n ≤ m)
    (h : P (τ.state n)) :
    (∃ k, n ≤ k ∧ Q (τ.state k)) ∨ P (τ.state m) ∧ rank (τ.state m) ≤ rank (τ.state n) := by
  induction m, hle using Nat.le_induction with
  | base => exact .inr ⟨h, Nat.le_refl _⟩
  | succ m hm ih =>
    obtain hq | ⟨hp, hr⟩ := ih
    · exact .inl hq
    · obtain hq | ⟨hp', hr'⟩ := hkeep _ _ _ hp (τ.next m)
      · exact .inl ⟨m + 1, by omega, hq⟩
      · exact .inr ⟨hp', by omega⟩

variable (P Q rank) in
/-- The progress rule: what every step keeps, and every helpful step brings nearer to
the goal, reaches the goal if helpful steps recur. -/
theorem leadsTo (τ : Trace step) (hrecurs : τ.Recurs helpful)
    (hkeep : ∀ a i b, P a → step a i b → Q b ∨ P b ∧ rank b ≤ rank a)
    (hmove : ∀ a i b, P a → helpful i → step a i b → Q b ∨ P b ∧ rank b < rank a) {n : Nat}
    (h : P (τ.state n)) : ∃ m, n ≤ m ∧ Q (τ.state m) := by
  induction hr : rank (τ.state n) using Nat.strong_induction_on generalizing n with
  | _ r ih =>
    obtain ⟨m, hm, hi⟩ := hrecurs n
    obtain hq | ⟨hp, hle⟩ := τ.keeps_until hkeep hm h
    · exact hq
    obtain hq | ⟨hp', hlt⟩ := hmove _ _ _ hp hi (τ.next m)
    · exact ⟨m + 1, by omega, hq⟩
    · obtain ⟨k, hk, hq⟩ := ih _ (by omega) hp' rfl
      exact ⟨k, by omega, hq⟩

end LeadsTo

end Trace

end Fairy.Lib
