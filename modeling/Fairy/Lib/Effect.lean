namespace Fairy.Lib

universe u

variable {ε σ α β : Type u}

/-- A program that changes a state and may raise; what it has changed stays when it raises. -/
abbrev Effect (ε σ α : Type u) := ExceptT ε (StateM σ) α

/-- How a program ends and what it leaves. -/
def exec (m : Effect ε σ α) (s : σ) : Except ε α × σ := m s

/-- A program from what it does to a state. -/
def effect (f : σ → Except ε α × σ) : Effect ε σ α := f

/-- `try: m except: g`. -/
def catching (g : ε → Effect ε σ α) (m : Effect ε σ α) : Effect ε σ α :=
  effect fun s =>
    match exec m s with
    | (.ok a, t) => (.ok a, t)
    | (.error e, t) => exec (g e) t

/-- `try: m finally: cleanup`, for a cleanup that does not raise. -/
def afterwards (cleanup : σ → σ) (m : Effect ε σ α) : Effect ε σ α :=
  effect fun s => ((exec m s).1, cleanup (exec m s).2)

/-- How a program ends, as a value. -/
def attempt (m : Effect ε σ α) : Effect ε σ (Except ε α) :=
  effect fun s => (.ok (exec m s).1, (exec m s).2)

section Exec

variable {m : Effect ε σ α} {f : α → Effect ε σ β} {s t : σ} {a : α} {b : β} {e : ε}

@[simp] theorem exec_effect {g : σ → Except ε α × σ} : exec (effect g) s = g s := rfl

@[simp] theorem exec_pure : exec (pure a : Effect ε σ α) s = (.ok a, s) := rfl

@[simp] theorem exec_throw : exec (throw e : Effect ε σ α) s = (.error e, s) := rfl

theorem exec_bind : exec (m >>= f) s =
    match exec m s with
    | (.ok a, t) => exec (f a) t
    | (.error e, t) => (.error e, t) := by
  change (ExceptT.bindCont f (m s).1) (m s).2 = _
  rw [exec]
  obtain ⟨r, t⟩ := m s
  cases r <;> rfl

theorem exec_bind_ok (h : exec m s = (.ok a, t)) : exec (m >>= f) s = exec (f a) t := by
  rw [exec_bind, h]

theorem exec_bind_error (h : exec m s = (.error e, t)) : exec (m >>= f) s = (.error e, t) := by
  rw [exec_bind, h]

end Exec

/-- What holds before the program holds after it, also when it raises. -/
def Keeps (P : σ → Prop) (m : Effect ε σ α) : Prop := ∀ s, P s → P (exec m s).2

namespace Keeps

variable {P : σ → Prop} {m : Effect ε σ α}

theorem pure (a : α) : Keeps P (Pure.pure a : Effect ε σ α) := fun _ h => h

theorem throw (e : ε) : Keeps P (MonadExcept.throw e : Effect ε σ α) := fun _ h => h

theorem bind {f : α → Effect ε σ β} (hm : Keeps P m) (hf : ∀ a, Keeps P (f a)) :
    Keeps P (m >>= f) := by
  intro s hs
  have hmid := hm s hs
  rw [exec_bind]
  cases hexec : exec m s with
  | mk r t =>
    rw [hexec] at hmid
    cases r with
    | error e => exact hmid
    | ok a => exact hf a t hmid

theorem throw_bind (e : ε) (f : α → Effect ε σ β) :
    Keeps P ((MonadExcept.throw e : Effect ε σ α) >>= f) := fun _ h => h

theorem catching {g : ε → Effect ε σ α} (hm : Keeps P m) (hg : ∀ e, Keeps P (g e)) :
    Keeps P (catching g m) := by
  intro s hs
  have hmid := hm s hs
  rw [Lib.catching, exec_effect]
  cases hexec : exec m s with
  | mk r t =>
    rw [hexec] at hmid
    cases r with
    | error e => exact hg e t hmid
    | ok a => exact hmid

theorem foldlM {ι : Type} {f : α → ι → Effect ε σ α} (hf : ∀ a i, Keeps P (f a i)) (l : List ι)
    (a : α) : Keeps P (l.foldlM f a) := by
  induction l generalizing a with
  | nil => exact pure a
  | cons i l ih =>
    rw [List.foldlM_cons]
    exact (hf a i).bind ih

theorem forM {ι : Type} {f : ι → Effect ε σ PUnit} (hf : ∀ i, Keeps P (f i)) (l : List ι) :
    Keeps P (l.forM f) := by
  induction l with
  | nil => exact pure _
  | cons i l ih => exact (hf i).bind fun _ => ih

end Keeps

/-- From `P` the program ends in `post`, or raises in `raised`. -/
def Ends (P : σ → Prop) (m : Effect ε σ α) (post : α → σ → Prop) (raised : σ → Prop) : Prop :=
  ∀ s, P s → (∀ a t, exec m s = (.ok a, t) → post a t) ∧ ∀ e t, exec m s = (.error e, t) → raised t

namespace Ends

variable {P : σ → Prop} {m : Effect ε σ α} {post : α → σ → Prop} {raised : σ → Prop}

theorem pure {a : α} (h : ∀ s, P s → post a s) :
    Ends P (Pure.pure a : Effect ε σ α) post raised := by
  refine fun s hs => ⟨fun b t hexec => ?_, fun e t hexec => by cases hexec⟩
  cases hexec
  exact h s hs

theorem throw {e : ε} (h : ∀ s, P s → raised s) :
    Ends P (MonadExcept.throw e : Effect ε σ α) post raised := by
  refine fun s hs => ⟨fun b t hexec => (by cases hexec), fun e t hexec => ?_⟩
  cases hexec
  exact h s hs

theorem bind {f : α → Effect ε σ β} {last : β → σ → Prop} (hm : Ends P m post raised)
    (hf : ∀ a, Ends (post a) (f a) last raised) : Ends P (m >>= f) last raised := by
  intro s hs
  obtain ⟨hok, herror⟩ := hm s hs
  rw [exec_bind]
  cases hexec : exec m s with
  | mk r t =>
    cases r with
    | error e =>
      refine ⟨fun b u hu => (by cases hu), fun e' u hu => ?_⟩
      cases hu
      exact herror e t hexec
    | ok a => exact hf a t (hok a t hexec)

theorem throw_bind {e : ε} {f : α → Effect ε σ β} {last : β → σ → Prop}
    (h : ∀ s, P s → raised s) :
    Ends P ((MonadExcept.throw e : Effect ε σ α) >>= f) last raised := by
  have hthrow : Ends P (MonadExcept.throw e : Effect ε σ α) (fun _ _ => False) raised := throw h
  exact hthrow.bind fun _ _ hs => hs.elim

theorem catching {g : ε → Effect ε σ α} {mid : σ → Prop} (hm : Ends P m post mid)
    (hg : ∀ e, Ends mid (g e) post raised) : Ends P (Lib.catching g m) post raised := by
  intro s hs
  obtain ⟨hok, herror⟩ := hm s hs
  rw [Lib.catching, exec_effect]
  cases hexec : exec m s with
  | mk r t =>
    cases r with
    | error e => exact hg e t (herror e t hexec)
    | ok a =>
      refine ⟨fun b u hu => ?_, fun e u hu => by cases hu⟩
      cases hu
      exact hok a t hexec

/-- A program whose end is looked at does not raise. -/
theorem attempt {never : σ → Prop} (h : Ends P m post raised) :
    Ends P (Lib.attempt m) (fun r s => match r with
      | .ok a => post a s
      | .error _ => raised s) never := by
  intro s hs
  obtain ⟨hok, herror⟩ := h s hs
  refine ⟨fun r t hexec => ?_, fun e t hexec => by cases hexec⟩
  rw [Lib.attempt, exec_effect] at hexec
  cases hm : exec m s with
  | mk r' t' =>
    rw [hm] at hexec
    cases hexec
    cases r' with
    | ok a => exact hok a _ hm
    | error e => exact herror e _ hm

theorem foldlM {ι : Type _} {I : σ → Prop} {f : α → ι → Effect ε σ α}
    (hf : ∀ a i, Ends I (f a i) (fun _ => I) raised) (l : List ι) (a : α) :
    Ends I (l.foldlM f a) (fun _ => I) raised := by
  induction l generalizing a with
  | nil => exact pure fun _ hs => hs
  | cons i l ih =>
    rw [List.foldlM_cons]
    exact (hf a i).bind fun b => ih b

theorem forM {ι : Type _} {I : σ → Prop} {f : ι → Effect ε σ PUnit}
    (hf : ∀ i, Ends I (f i) (fun _ => I) raised) (l : List ι) :
    Ends I (l.forM f) (fun _ => I) raised := by
  induction l with
  | nil => exact pure fun _ hs => hs
  | cons i l ih => exact (hf i).bind fun _ => ih

/-- What holds at either end holds of what is left. -/
theorem left {Q : σ → Prop} (h : Ends P m (fun _ => Q) Q) {s : σ} (hs : P s) :
    Q (exec m s).2 := by
  obtain ⟨hok, herror⟩ := h s hs
  cases hexec : exec m s with
  | mk r t =>
    cases r with
    | ok a => exact hok a t hexec
    | error e => exact herror e t hexec

theorem of_keeps (h : Keeps P m) (hraised : ∀ s, P s → raised s) :
    Ends P m (fun _ => P) raised := by
  refine fun s hs => ⟨fun a t hexec => ?_, fun e t hexec => hraised t ?_⟩
  · have hkept := h s hs
    rwa [hexec] at hkept
  · have hkept := h s hs
    rwa [hexec] at hkept

end Ends

end Fairy.Lib
