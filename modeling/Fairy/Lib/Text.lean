import Mathlib.Data.List.TakeWhile

namespace Fairy.Lib.Text

instance lawfulBEqListChar : LawfulBEq (List Char) := inferInstance

/-- The characters Python's `str.strip` removes. -/
def isSpace (c : Char) : Bool :=
  let n := c.toNat
  (9 ≤ n && n ≤ 13) || (28 ≤ n && n ≤ 32) || n == 0x85 || n == 0xa0 || n == 0x1680 ||
    (0x2000 ≤ n && n ≤ 0x200a) || n == 0x2028 || n == 0x2029 || n == 0x202f || n == 0x205f ||
    n == 0x3000

def stripChars (l : List Char) : List Char :=
  ((l.dropWhile isSpace).reverse.dropWhile isSpace).reverse

/-- `str.strip()`. -/
def strip (s : String) : String := String.ofList (stripChars s.toList)

/-- `s[:n]`. -/
def truncate (n : Nat) (s : String) : String := String.ofList (s.toList.take n)

/-- `not s.strip()`. -/
def blank (s : String) : Bool := (stripChars s.toList).isEmpty

/-- `str.rstrip()`. -/
def rstripChars (l : List Char) : List Char := (l.reverse.dropWhile isSpace).reverse

section Strip

variable {l m : List Char} {c : Char}

theorem rstripChars_prefix (l : List Char) : rstripChars l <+: l := by
  obtain ⟨rest, hrest⟩ := List.dropWhile_suffix isSpace (l := l.reverse)
  refine ⟨rest.reverse, ?_⟩
  rw [rstripChars, ← List.reverse_append, hrest, List.reverse_reverse]

/-- A text that does not begin with a blank is stripped at its end. -/
theorem stripChars_cons (hc : isSpace c = false) : stripChars (c :: l) = rstripChars (c :: l) := by
  rw [stripChars, List.dropWhile_cons_of_neg (by simp [hc])]
  rfl

theorem rstripChars_append (h : rstripChars m ≠ []) : rstripChars (l ++ m) = l ++ rstripChars m := by
  have hne : m.reverse.dropWhile isSpace ≠ [] := by
    intro hnil
    exact h (by rw [rstripChars, hnil]; rfl)
  rw [rstripChars, List.reverse_append, List.dropWhile_append, if_neg (by simpa using hne),
    List.reverse_append, List.reverse_reverse]
  rfl

theorem rstripChars_ne_nil (hmem : c ∈ l) (hc : isSpace c = false) : rstripChars l ≠ [] := by
  intro hnil
  have hall := List.dropWhile_eq_nil_iff.mp (List.reverse_eq_nil_iff.mp hnil) c
    (List.mem_reverse.mpr hmem)
  rw [hc] at hall
  cases hall

/-- Nothing is stripped from the end of a text that does not end in a blank. -/
theorem rstripChars_eq_self_iff :
    rstripChars l = l ↔ ∀ c ∈ l.getLast?, isSpace c = false := by
  rw [← List.head?_reverse]
  constructor
  · intro h c hc
    have hrev : l.reverse.dropWhile isSpace = l.reverse := by
      rw [← List.reverse_reverse (l.reverse.dropWhile isSpace)]
      exact congrArg List.reverse h
    cases hl : l.reverse with
    | nil =>
      rw [hl] at hc
      cases hc
    | cons d rest =>
      rw [hl] at hrev hc
      cases hc
      by_contra hspace
      rw [Bool.not_eq_false] at hspace
      rw [List.dropWhile_cons_of_pos hspace] at hrev
      have hlen := (List.dropWhile_sublist isSpace (l := rest)).length_le
      rw [hrev, List.length_cons] at hlen
      omega
  · intro h
    cases hl : l.reverse with
    | nil =>
      rw [List.reverse_eq_nil_iff.mp hl]
      rfl
    | cons d rest =>
      rw [hl] at h
      rw [rstripChars, hl, List.dropWhile_cons_of_neg (by simp [h d rfl]), ← hl,
        List.reverse_reverse]

end Strip

end Fairy.Lib.Text
