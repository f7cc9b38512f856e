import Mathlib.Data.List.Forall2
import Mathlib.Data.List.ReduceOption

namespace Fairy.Lib

variable {ε α β : Type}

theorem bind_ok {x : Except ε α} {f : α → Except ε β} {b : β} (h : x >>= f = .ok b) :
    ∃ a, x = .ok a ∧ f a = .ok b := by
  cases x with
  | error e => cases h
  | ok a => exact ⟨a, rfl, h⟩

theorem ok_bind {a : α} {f : α → Except ε β} : Except.ok a >>= f = f a := rfl

theorem bind_total {x : Except ε α} {f : α → Except ε β} (hx : ∃ a, x = .ok a)
    (hf : ∀ a, ∃ b, f a = .ok b) : ∃ b, x >>= f = .ok b := by
  obtain ⟨a, rfl⟩ := hx
  exact hf a

theorem bind_pure_total_iff {x : Except ε α} {f : α → β} :
    (∃ b, (x >>= fun a => pure (f a)) = .ok b) ↔ ∃ a, x = .ok a := by
  constructor
  · rintro ⟨b, h⟩
    obtain ⟨a, ha, _⟩ := bind_ok h
    exact ⟨a, ha⟩
  · rintro ⟨a, rfl⟩
    exact ⟨f a, rfl⟩

theorem bind_error {x : Except ε α} {f : α → Except ε β} {e : ε} (h : x = .error e) :
    x >>= f = .error e := by
  rw [h]
  rfl

theorem map_error {x : Except ε α} {f : α → β} {e : ε} (h : x = .error e) :
    x.map f = .error e := by
  rw [h]
  rfl

theorem map_ok {x : Except ε α} {f : α → β} {b : β} (h : x.map f = .ok b) :
    ∃ a, x = .ok a ∧ f a = b := by
  cases x with
  | error e => cases h
  | ok a => exact ⟨a, rfl, Except.ok.inj h⟩

theorem throw_bind_ne {e : ε} {f : α → Except ε β} {b : β} :
    (throw e : Except ε α) >>= f ≠ .ok b := nofun

/-- A check in front of what is left of a `do` block. -/
theorem check_bind_ok_iff {c : Prop} [Decidable c] {e : ε} {f : α → Except ε β}
    {k : Except ε β} {b : β} :
    (if c then (throw e : Except ε α) >>= f else k) = .ok b ↔ ¬ c ∧ k = .ok b := by
  by_cases hc : c
  · rw [if_pos hc]
    exact iff_of_false throw_bind_ne fun h => h.1 hc
  · rw [if_neg hc]
    exact (and_iff_right hc).symm

/-- A check that ends a `do` block. -/
theorem check_ok_iff {c : Prop} [Decidable c] {e : ε} {k : Except ε β} {b : β} :
    (if c then (throw e : Except ε β) else k) = .ok b ↔ ¬ c ∧ k = .ok b := by
  by_cases hc : c
  · rw [if_pos hc]
    exact iff_of_false (fun h => by cases h) fun h => h.1 hc
  · rw [if_neg hc]
    exact (and_iff_right hc).symm

theorem pure_ok {a b : α} (h : (pure a : Except ε α) = .ok b) : a = b := by
  cases h
  rfl

theorem forM_ok {f : α → Except ε Unit} {l : List α} (h : l.forM f = .ok ()) :
    ∀ x ∈ l, f x = .ok () := by
  induction l with
  | nil => exact fun x hx => absurd hx List.not_mem_nil
  | cons a l ih =>
    obtain ⟨_, ha, hl⟩ := bind_ok h
    intro x hx
    rcases List.mem_cons.mp hx with rfl | hx
    · exact ha
    · exact ih hl x hx

theorem forM_ok_iff {f : α → Except ε Unit} {l : List α} :
    l.forM f = .ok () ↔ ∀ x ∈ l, f x = .ok () := by
  refine ⟨forM_ok, fun h => ?_⟩
  induction l with
  | nil => rfl
  | cons a l ih =>
    obtain ⟨ha, hl⟩ := List.forall_mem_cons.mp h
    change (f a >>= fun _ => l.forM f) = .ok ()
    rw [ha, ok_bind, ih hl]

/-- The loop rule of a `for` loop: `I` speaks of the elements that are left. -/
theorem foldl_rule {I : List α → β → Prop} {f : β → α → β}
    (hk : ∀ a l b, I (a :: l) b → I l (f b a)) {l : List α} {b : β} (hi : I l b) :
    I [] (l.foldl f b) := by
  induction l generalizing b with
  | nil => exact hi
  | cons a l ih => exact ih (hk a l b hi)

/-- The loop rule of a `for` loop whose body may raise. -/
theorem foldlM_rule {I : List α → β → Prop} {f : β → α → Except ε β}
    (hk : ∀ a l b b', I (a :: l) b → f b a = .ok b' → I l b') {l : List α} {b b' : β}
    (h : l.foldlM f b = .ok b') (hi : I l b) : I [] b' := by
  induction l generalizing b with
  | nil => exact pure_ok h ▸ hi
  | cons a l ih =>
    obtain ⟨c, ha, hl⟩ := bind_ok h
    exact ih hl (hk a l b c hi ha)

/-- A loop whose body cannot raise while `I` holds does not raise. -/
theorem foldlM_total {I : List α → β → Prop} {f : β → α → Except ε β}
    (hk : ∀ a l b, I (a :: l) b → ∃ b', f b a = .ok b' ∧ I l b') {l : List α} {b : β}
    (hi : I l b) : ∃ b', l.foldlM f b = .ok b' ∧ I [] b' := by
  induction l generalizing b with
  | nil => exact ⟨b, rfl, hi⟩
  | cons a l ih =>
    obtain ⟨c, ha, hc⟩ := hk a l b hi
    obtain ⟨b', hl, hb⟩ := ih hc
    exact ⟨b', by rw [List.foldlM_cons, ha]; exact hl, hb⟩

/-- A loop none of whose turns panics. -/
theorem foldlM_some {γ : Type} {I : β → Prop} {f : β → γ → Option β} {l : List γ}
    (hstep : ∀ b, I b → ∀ i ∈ l, ∃ b', f b i = some b' ∧ I b') {b : β} (hb : I b) :
    ∃ b', l.foldlM f b = some b' ∧ I b' := by
  induction l generalizing b with
  | nil => exact ⟨b, rfl, hb⟩
  | cons i l ih =>
    obtain ⟨c, hc, hic⟩ := hstep b hb i (List.mem_cons_self ..)
    obtain ⟨d, hd, hid⟩ := ih (fun b hb j hj => hstep b hb j (List.mem_cons_of_mem _ hj)) hic
    refine ⟨d, ?_, hid⟩
    rw [List.foldlM_cons, hc]
    exact hd

/-- A comprehension that does not raise has evaluated each element. -/
theorem mapM_ok {f : α → Except ε β} {l : List α} {bs : List β} (h : l.mapM f = .ok bs) :
    List.Forall₂ (fun a b => f a = .ok b) l bs := by
  induction l generalizing bs with
  | nil =>
    rw [List.mapM_nil] at h
    rw [← pure_ok h]
    exact .nil
  | cons a l ih =>
    rw [List.mapM_cons] at h
    obtain ⟨b, hb, h⟩ := bind_ok h
    obtain ⟨cs, hcs, h⟩ := bind_ok h
    rw [← pure_ok h]
    exact .cons hb (ih hcs)

/-- A comprehension does not raise just when no element does. -/
theorem mapM_total_iff {f : α → Except ε β} {l : List α} :
    (∃ bs, l.mapM f = .ok bs) ↔ ∀ a ∈ l, ∃ b, f a = .ok b := by
  induction l with
  | nil => exact ⟨fun _ a ha => absurd ha List.not_mem_nil, fun _ => ⟨[], List.mapM_nil⟩⟩
  | cons a l ih =>
    rw [List.mapM_cons, List.forall_mem_cons]
    constructor
    · rintro ⟨bs, h⟩
      obtain ⟨b, hb, h⟩ := bind_ok h
      obtain ⟨cs, hcs, _⟩ := bind_ok h
      exact ⟨⟨b, hb⟩, ih.mp ⟨cs, hcs⟩⟩
    · rintro ⟨⟨b, hb⟩, h⟩
      obtain ⟨cs, hcs⟩ := ih.mpr h
      rw [hb, ok_bind, hcs]
      exact ⟨b :: cs, rfl⟩

theorem mapM_congr {f g : α → Except ε β} {l : List α} (h : ∀ a ∈ l, f a = g a) :
    l.mapM f = l.mapM g := by
  induction l with
  | nil => rfl
  | cons a l ih =>
    rw [List.forall_mem_cons] at h
    rw [List.mapM_cons, List.mapM_cons, h.1, ih h.2]

theorem mapM_eq_map {f : α → Except ε β} {g : α → β} {l : List α}
    (h : ∀ a ∈ l, f a = .ok (g a)) : l.mapM f = .ok (l.map g) := by
  rw [mapM_congr h]
  exact List.mapM_pure

theorem mapM_mem {f : α → Except ε β} {l : List α} {bs : List β} (h : l.mapM f = .ok bs) {b : β}
    (hb : b ∈ bs) : ∃ a ∈ l, f a = .ok b := by
  obtain ⟨i, hi, rfl⟩ := List.mem_iff_getElem.mp hb
  have hall := mapM_ok h
  have hil : i < l.length := hall.length_eq ▸ hi
  exact ⟨l[i], List.getElem_mem hil, hall.get hil hi⟩

theorem mapM_image {f : α → Except ε β} {l : List α} {bs : List β} (h : l.mapM f = .ok bs) {a : α}
    (ha : a ∈ l) : ∃ b ∈ bs, f a = .ok b := by
  obtain ⟨i, hi, rfl⟩ := List.mem_iff_getElem.mp ha
  have hall := mapM_ok h
  have hib : i < bs.length := hall.length_eq ▸ hi
  exact ⟨bs[i], List.getElem_mem hib, hall.get hi hib⟩

theorem mapM_map {γ : Type} {f : α → Except ε β} {g : β → γ} {l : List α} :
    (l.mapM f).map (List.map g) = l.mapM fun a => (f a).map g := by
  induction l with
  | nil => rfl
  | cons a l ih =>
    rw [List.mapM_cons, List.mapM_cons, ← ih]
    cases f a with
    | error e => rfl
    | ok b =>
      cases l.mapM f with
      | error e => rfl
      | ok bs => rfl

theorem mapM_reduceOption_cons {f : α → Except ε (Option β)} (a : α) (l : List α) :
    ((a :: l).mapM f).map List.reduceOption =
      f a >>= fun b => ((l.mapM f).map List.reduceOption).map fun bs => b.toList ++ bs := by
  rw [List.mapM_cons]
  cases f a with
  | error e => rfl
  | ok b =>
    cases l.mapM f with
    | error e => rfl
    | ok bs => cases b <;> rfl

/-- The elements of which a comprehension makes nothing may be left out. -/
theorem mapM_reduceOption {f : α → Except ε (Option β)} {p : α → Bool} {l : List α}
    (h : ∀ a ∈ l, p a = false → f a = .ok none) :
    (l.mapM f).map List.reduceOption = ((l.filter p).mapM f).map List.reduceOption := by
  induction l with
  | nil => rfl
  | cons a l ih =>
    rw [List.forall_mem_cons] at h
    rw [mapM_reduceOption_cons, ih h.2]
    by_cases ha : p a = true
    · rw [List.filter_cons_of_pos ha, mapM_reduceOption_cons]
    · rw [List.filter_cons_of_neg ha, h.1 (by simpa using ha), ok_bind]
      cases (l.filter p).mapM f with
      | error e => rfl
      | ok bs => rfl

end Fairy.Lib
