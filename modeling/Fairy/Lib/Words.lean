import Fairy.Lib.Text
import Mathlib.Data.List.Basic

namespace Fairy.Lib.Text

section Intercalate

variable {α : Type} {s : α} {w : List α} {ws vs : List (List α)}

/-- No piece of a split holds an element that was split at. -/
theorem separator_free {p : α → Bool} {l : List α} (h : w ∈ l.splitOnP p) :
    ∀ c ∈ w, p c = false := by
  induction l generalizing w with
  | nil =>
    rw [List.splitOnP_nil, List.mem_singleton] at h
    rw [h]
    exact fun _ hc => absurd hc List.not_mem_nil
  | cons d l ih =>
    rw [List.splitOnP_cons_eq_if_modifyHead] at h
    by_cases hd : p d = true
    · rw [if_pos hd] at h
      obtain rfl | h := List.mem_cons.mp h
      · exact fun _ hc => absurd hc List.not_mem_nil
      · exact ih h
    · rw [if_neg hd] at h
      obtain ⟨first, rest, hsplit⟩ := List.exists_cons_of_ne_nil (List.splitOnP_ne_nil p l)
      rw [hsplit, List.modifyHead_cons] at h
      obtain rfl | h := List.mem_cons.mp h
      · intro c hc
        obtain rfl | hc := List.mem_cons.mp hc
        · simpa using hd
        · exact ih (hsplit ▸ List.mem_cons_self) c hc
      · exact ih (hsplit ▸ List.mem_cons_of_mem _ h)

theorem head?_intercalate (h : w ≠ []) : ([s].intercalate (w :: ws)).head? = w.head? := by
  cases ws with
  | nil => rw [List.intercalate_singleton]
  | cons v ws =>
    rw [List.intercalate_cons_cons, List.append_assoc]
    exact List.head?_append_of_ne_nil _ h

theorem getLast?_intercalate (h : ∀ w ∈ ws, w ≠ []) :
    ([s].intercalate ws).getLast? = ws.getLast?.bind List.getLast? := by
  induction ws with
  | nil => rfl
  | cons w ws ih =>
    obtain ⟨hw, hws⟩ := List.forall_mem_cons.mp h
    cases ws with
    | nil => rw [List.intercalate_singleton, List.getLast?_singleton, Option.bind_some]
    | cons v ws =>
      have hv := (List.forall_mem_cons.mp hws).1
      have hne : [s].intercalate (v :: ws) ≠ [] := by
        intro hnil
        have hhead : ([s].intercalate (v :: ws)).head? = v.head? := head?_intercalate hv
        rw [hnil] at hhead
        exact hv (List.head?_eq_none_iff.mp hhead.symm)
      rw [List.intercalate_cons_cons, List.getLast?_append_of_ne_nil _ hne, ih hws,
        List.getLast?_cons_cons]

theorem length_intercalate_cons (hne : ws ≠ []) :
    ([s].intercalate (w :: ws)).length = w.length + ([s].intercalate ws).length + 1 := by
  rw [List.intercalate_cons_of_ne_nil hne]
  simp only [List.length_append, List.length_singleton]
  omega

theorem length_intercalate_le (h : vs.Sublist ws) :
    ([s].intercalate vs).length ≤ ([s].intercalate ws).length := by
  induction h with
  | slnil => exact le_refl _
  | @cons vs ws w h ih =>
    refine ih.trans ?_
    by_cases hne : ws = []
    · rw [hne]
      exact Nat.zero_le _
    · rw [length_intercalate_cons hne]
      omega
  | @cons_cons vs ws w h ih =>
    by_cases hne : vs = []
    · rw [hne, List.intercalate_singleton]
      by_cases hne' : ws = []
      · rw [hne', List.intercalate_singleton]
      · rw [length_intercalate_cons hne']
        omega
    · have hne' : ws ≠ [] := fun hnil => hne (List.eq_nil_of_sublist_nil (hnil ▸ h))
      rw [length_intercalate_cons hne, length_intercalate_cons hne']
      omega

theorem mem_intercalate {c : α} (h : c ∈ [s].intercalate ws) : c = s ∨ ∃ w ∈ ws, c ∈ w := by
  induction ws with
  | nil => exact absurd h List.not_mem_nil
  | cons w ws ih =>
    by_cases hne : ws = []
    · rw [hne, List.intercalate_singleton] at h
      exact .inr ⟨w, List.mem_cons_self, h⟩
    · rw [List.intercalate_cons_of_ne_nil hne, List.append_assoc, List.mem_append,
        List.singleton_append, List.mem_cons] at h
      obtain h | h | h := h
      · exact .inr ⟨w, List.mem_cons_self, h⟩
      · exact .inl h
      · obtain hs | ⟨v, hv, hc⟩ := ih h
        · exact .inl hs
        · exact .inr ⟨v, List.mem_cons_of_mem _ hv, hc⟩

theorem mem_intercalate_of_mem {c : α} (hw : w ∈ ws) (hc : c ∈ w) : c ∈ [s].intercalate ws := by
  induction ws with
  | nil => exact absurd hw List.not_mem_nil
  | cons v ws ih =>
    by_cases hne : ws = []
    · rw [hne, List.mem_singleton] at hw
      rw [hne, List.intercalate_singleton, ← hw]
      exact hc
    · rw [List.intercalate_cons_of_ne_nil hne]
      obtain rfl | hw := List.mem_cons.mp hw
      · exact List.mem_append_left _ (List.mem_append_left _ hc)
      · exact List.mem_append_right _ (ih hw)

end Intercalate

section Ends

variable {l : List Char}

theorem stripChars_eq (l : List Char) : stripChars l = rstripChars (l.dropWhile isSpace) := rfl

theorem head_stripChars : ∀ c ∈ (stripChars l).head?, isSpace c = false := by
  intro c hc
  obtain ⟨rest, hrest⟩ := rstripChars_prefix (l.dropWhile isSpace)
  have hhead : c ∈ (l.dropWhile isSpace).head? := by
    rw [← hrest, ← stripChars_eq, List.head?_append_of_ne_nil]
    · exact hc
    · intro hnil
      rw [hnil] at hc
      cases hc
  have hnot := List.head?_dropWhile_not isSpace l
  rw [hhead] at hnot
  exact hnot

theorem getLast_stripChars : ∀ c ∈ (stripChars l).getLast?, isSpace c = false := by
  intro c hc
  rw [stripChars_eq, rstripChars, List.getLast?_reverse] at hc
  have hnot := List.head?_dropWhile_not isSpace (l.dropWhile isSpace).reverse
  rw [hc] at hnot
  exact hnot

/-- Nothing is stripped from a text that neither begins nor ends in a blank. -/
theorem stripChars_eq_self (hhead : ∀ c ∈ l.head?, isSpace c = false)
    (hlast : ∀ c ∈ l.getLast?, isSpace c = false) : stripChars l = l := by
  cases l with
  | nil => rfl
  | cons c l => rw [stripChars_cons (hhead c rfl), rstripChars_eq_self_iff.mpr hlast]

theorem stripChars_stripChars : stripChars (stripChars l) = stripChars l :=
  stripChars_eq_self head_stripChars getLast_stripChars

theorem strip_strip (s : String) : strip (strip s) = strip s := by
  rw [strip, strip, String.toList_ofList, stripChars_stripChars]

theorem stripChars_ne_nil_iff : stripChars l ≠ [] ↔ ∃ c ∈ l, isSpace c = false := by
  constructor
  · intro h
    by_contra hnone
    push Not at hnone
    have hdrop : l.dropWhile isSpace = [] :=
      List.dropWhile_eq_nil_iff.mpr fun c hc => Bool.not_eq_false _ ▸ hnone c hc
    rw [stripChars_eq, hdrop] at h
    exact h rfl
  · rintro ⟨c, hc, hspace⟩ hnil
    have hdrop : l.dropWhile isSpace = [] := by
      by_contra hne
      have hnot := List.head?_dropWhile_not isSpace l
      rw [List.head?_eq_some_head hne] at hnot
      exact rstripChars_ne_nil (List.head_mem hne) hnot hnil
    rw [List.dropWhile_eq_nil_iff.mp hdrop c hc] at hspace
    cases hspace

theorem strip_ne_empty_iff {s : String} : strip s ≠ "" ↔ ∃ c ∈ s.toList, isSpace c = false := by
  rw [← stripChars_ne_nil_iff, strip, ne_eq, String.ofList_eq_empty_iff]

theorem strip_append_ne_empty {s : String} (h : strip s ≠ "") (t : String) :
    strip (s ++ t) ≠ "" := by
  rw [strip_ne_empty_iff] at h ⊢
  obtain ⟨c, hc, hspace⟩ := h
  exact ⟨c, by rw [String.toList_append]; exact List.mem_append_left _ hc, hspace⟩

end Ends

section Words

variable {c : Char} {l m w : List Char} {ws : List (List Char)}

/-- `str.split()`. -/
def words (l : List Char) : List (List Char) := (l.splitOnP isSpace).filter fun w => !w.isEmpty

/-- `" ".join(words)`. -/
def unwords (ws : List (List Char)) : List Char := [' '].intercalate ws

structure Word (w : List Char) : Prop where
  nonempty : w ≠ []
  solid : ∀ c ∈ w, isSpace c = false

theorem mem_words (h : w ∈ words l) : Word w := by
  obtain ⟨hw, hne⟩ := List.mem_filter.mp h
  exact ⟨by simpa using hne, separator_free hw⟩

theorem words_append_cons (hc : isSpace c = true) : words (l ++ c :: m) = words l ++ words m := by
  rw [words, List.splitOnP_append_cons l m hc, List.filter_append]
  rfl

theorem words_of_word (h : Word w) : words w = [w] := by
  rw [words, List.splitOnP_eq_singleton h.solid]
  simp [h.nonempty]

theorem words_unwords (h : ∀ w ∈ ws, Word w) : words (unwords ws) = ws := by
  induction ws with
  | nil => rfl
  | cons w ws ih =>
    obtain ⟨hw, hws⟩ := List.forall_mem_cons.mp h
    cases ws with
    | nil => rw [unwords, List.intercalate_singleton, words_of_word hw]
    | cons v ws =>
      rw [unwords, List.intercalate_cons_cons, List.append_assoc, List.singleton_append,
        words_append_cons (by decide), words_of_word hw]
      exact congrArg (w :: ·) (ih hws)

theorem stripChars_unwords (h : ∀ w ∈ ws, Word w) : stripChars (unwords ws) = unwords ws := by
  refine stripChars_eq_self (fun c hc => ?_) fun c hc => ?_
  · cases ws with
    | nil => cases hc
    | cons w ws =>
      have hw := h w List.mem_cons_self
      rw [unwords, head?_intercalate hw.nonempty] at hc
      exact hw.solid c (List.mem_of_head? hc)
  · rw [unwords, getLast?_intercalate fun w hw => (h w hw).nonempty] at hc
    obtain ⟨w, hw, hc⟩ := Option.bind_eq_some_iff.mp hc
    exact (h w (List.mem_of_getLast? hw)).solid c (List.mem_of_getLast? hc)

end Words

end Fairy.Lib.Text
