import Fairy.Lib.Text
import Mathlib.Algebra.Order.Field.Rat
import Mathlib.Data.List.DropRight
import Mathlib.Tactic.FieldSimp
import Mathlib.Tactic.Ring
import Mathlib.Tactic.Positivity

namespace Fairy.Lib

/-- The characters that are decimal digits, with their values. -/
structure DigitSet where
  value : Char → Option Nat
  ascii : ∀ n < 10, value (Nat.digitChar n) = some n
  point : value '.' = none
  minus : value '-' = none
  plus : value '+' = none

/-- A `decimal.Decimal`. -/
inductive Decimal
  | finite (negative : Bool) (coefficient : Nat) (exponent : Int)
  | infinite (negative : Bool)
  | nan
  deriving DecidableEq

namespace Decimal

section Parse

variable (d : DigitSet)

def isDigit (c : Char) : Bool := (d.value c).isSome

/-- `int()` of a text of digits. -/
def natural (digits : List Char) : Nat :=
  digits.foldl (fun n c => 10 * n + (d.value c).getD 0) 0

/-- A sign and what follows it. -/
def sign : List Char → Bool × List Char
  | '-' :: rest => (true, rest)
  | '+' :: rest => (false, rest)
  | rest => (false, rest)

/-- The exponent after its letter. -/
def readExponent (text : List Char) : Option Int :=
  let (negative, digits) := sign text
  if digits ≠ [] ∧ digits.all (isDigit d) then
    some (if negative then -(natural d digits : Int) else natural d digits)
  else none

/-- The coefficient and the exponent of a number without its sign. -/
def readNumber (text : List Char) : Option (Nat × Int) :=
  let whole := text.takeWhile (isDigit d)
  let (fraction, rest) := match text.dropWhile (isDigit d) with
    | '.' :: rest => (rest.takeWhile (isDigit d), rest.dropWhile (isDigit d))
    | rest => ([], rest)
  if whole = [] ∧ fraction = [] then none
  else
    match rest with
    | [] => some (natural d (whole ++ fraction), -fraction.length)
    | c :: rest =>
      if c = 'E' ∨ c = 'e' then
        (readExponent d rest).map fun e =>
          (natural d (whole ++ fraction), e - fraction.length)
      else none

/-- `Decimal(text)`: `none` is an `InvalidOperation`. -/
def parse (text : String) : Option Decimal :=
  let (negative, rest) := sign ((Text.strip text).toList.filter (· ≠ '_'))
  match readNumber d rest with
  | some (coefficient, exponent) => some (.finite negative coefficient exponent)
  | none =>
    let name := rest.map Char.toLower
    if name ∈ ["inf".toList, "infinity".toList] then some (.infinite negative)
    else
      let name := if name.head? = some 's' then name.drop 1 else name
      if name.take 3 = "nan".toList ∧ (name.drop 3).all (isDigit d) then some .nan else none

end Parse

/-- The number that a finite decimal is. -/
def value : Decimal → Option Rat
  | finite negative coefficient exponent =>
    some ((if negative then -1 else 1) * coefficient * (10 : Rat) ^ exponent)
  | infinite _ | nan => none

/-- A natural number in a given number of digits. -/
def padded : Nat → Nat → List Char
  | 0, _ => []
  | width + 1, n => padded width (n / 10) ++ [Nat.digitChar (n % 10)]

/-- `coefficient · 10 ^ exponent` in fixed-point notation. -/
def fixedPoint (coefficient : Nat) (exponent : Int) : List Char :=
  if 0 ≤ exponent then Nat.toDigits 10 (coefficient * 10 ^ exponent.toNat)
  else
    let places := (-exponent).toNat
    Nat.toDigits 10 (coefficient / 10 ^ places) ++ '.' ::
      padded places (coefficient % 10 ^ places)

/-- `format(self, "f")` of a finite decimal. -/
def formatFixed (negative : Bool) (coefficient : Nat) (exponent : Int) : List Char :=
  (if negative then ['-'] else []) ++ fixedPoint coefficient exponent

/-- `str.rstrip` of one character. -/
def rstrip (c : Char) (text : List Char) : List Char := text.rdropWhile (· = c)

section Digits

/-- A text of ASCII digits. -/
def AsciiDigits (text : List Char) : Prop := ∀ c ∈ text, ∃ n < 10, c = Nat.digitChar n

variable {d : DigitSet} {text whole fraction : List Char} {n i r k : Nat}

theorem AsciiDigits.append (h : AsciiDigits whole) (h' : AsciiDigits fraction) :
    AsciiDigits (whole ++ fraction) := by
  intro c hc
  obtain hc | hc := List.mem_append.mp hc
  · exact h c hc
  · exact h' c hc

theorem asciiDigits_singleton (hn : n < 10) : AsciiDigits [Nat.digitChar n] := by
  intro c hc
  exact ⟨n, hn, List.mem_singleton.mp hc⟩

theorem asciiDigits_toDigits (n : Nat) : AsciiDigits (Nat.toDigits 10 n) := by
  induction n using Nat.strongRecOn with
  | ind n ih =>
    rw [Nat.toDigits_eq_if (by decide)]
    split
    · rename_i hn
      exact asciiDigits_singleton hn
    · rename_i hn
      exact (ih (n / 10) (by omega)).append (asciiDigits_singleton (Nat.mod_lt _ (by decide)))

theorem asciiDigits_padded (k n : Nat) : AsciiDigits (padded k n) := by
  induction k generalizing n with
  | zero => exact fun c hc => absurd hc List.not_mem_nil
  | succ k ih => exact (ih (n / 10)).append (asciiDigits_singleton (Nat.mod_lt _ (by decide)))

@[simp] theorem length_padded (k n : Nat) : (padded k n).length = k := by
  induction k generalizing n with
  | zero => rfl
  | succ k ih => rw [padded, List.length_append, ih, List.length_singleton]

theorem AsciiDigits.isDigit (h : AsciiDigits text) : ∀ c ∈ text, isDigit d c = true := by
  intro c hc
  obtain ⟨n, hn, rfl⟩ := h c hc
  simp only [Decimal.isDigit, d.ascii n hn, Option.isSome_some]

theorem natural_snoc (hn : n < 10) :
    natural d (text ++ [Nat.digitChar n]) = 10 * natural d text + n := by
  simp only [natural, List.foldl_append, List.foldl_cons, List.foldl_nil, d.ascii n hn,
    Option.getD_some]

theorem natural_toDigits (n : Nat) : natural d (Nat.toDigits 10 n) = n := by
  induction n using Nat.strongRecOn with
  | ind n ih =>
    rw [Nat.toDigits_eq_if (by decide)]
    split
    · rename_i hn
      rw [← List.nil_append [Nat.digitChar n], natural_snoc hn]
      simp [natural]
    · rename_i hn
      rw [natural_snoc (Nat.mod_lt _ (by decide)), ih (n / 10) (by omega)]
      omega

theorem natural_append_padded (hr : r < 10 ^ k) :
    natural d (text ++ padded k r) = natural d text * 10 ^ k + r := by
  induction k generalizing r with
  | zero =>
    rw [Nat.pow_zero] at hr
    simp [padded, Nat.lt_one_iff.mp hr]
  | succ k ih =>
    have hdiv : r / 10 < 10 ^ k := by
      rw [Nat.pow_succ] at hr
      omega
    rw [padded, ← List.append_assoc, natural_snoc (Nat.mod_lt _ (by decide)), ih hdiv,
      Nat.pow_succ, ← Nat.mul_assoc]
    omega

/-- No sign, no underscore and no space is a digit. -/
theorem digitChar_plain (hn : n < 10) : Nat.digitChar n ≠ '_' ∧
    Text.isSpace (Nat.digitChar n) = false := by
  have hall : ∀ n < 10, Nat.digitChar n ≠ '_' ∧ Text.isSpace (Nat.digitChar n) = false := by
    decide
  exact hall n hn

end Digits

section Read

variable {d : DigitSet} {text whole fraction : List Char}

variable (d) in
theorem takeWhile_digits (rest : List Char) (hw : AsciiDigits whole)
    (hr : ∀ c ∈ rest.head?, isDigit d c = false) :
    (whole ++ rest).takeWhile (isDigit d) = whole ∧
      (whole ++ rest).dropWhile (isDigit d) = rest := by
  rw [List.takeWhile_append_of_pos hw.isDigit, List.dropWhile_append_of_pos hw.isDigit]
  cases rest with
  | nil => exact ⟨List.append_nil _, rfl⟩
  | cons c rest =>
    have hc : isDigit d c = false := hr c rfl
    rw [List.takeWhile_cons, List.dropWhile_cons, hc]
    exact ⟨List.append_nil _, rfl⟩

theorem readNumber_plain (hw : AsciiDigits whole) (hne : whole ≠ []) :
    readNumber d whole = some (natural d whole, 0) := by
  obtain ⟨htake, hdrop⟩ := takeWhile_digits d [] hw (by simp)
  rw [List.append_nil] at htake hdrop
  simp [readNumber, htake, hdrop, hne]

theorem readNumber_point (hw : AsciiDigits whole) (hf : AsciiDigits fraction) (hne : whole ≠ []) :
    readNumber d (whole ++ '.' :: fraction) =
      some (natural d (whole ++ fraction), -(fraction.length : Int)) := by
  have hpoint : isDigit d '.' = false := by simp [isDigit, d.point]
  obtain ⟨htake, hdrop⟩ := takeWhile_digits d ('.' :: fraction) hw
    (by simpa using hpoint)
  obtain ⟨htake', hdrop'⟩ := takeWhile_digits d [] hf (by simp)
  rw [List.append_nil] at htake' hdrop'
  simp [readNumber, htake, hdrop, htake', hdrop', hne]

theorem sign_digits (hw : AsciiDigits whole) (hne : whole ≠ []) (rest : List Char) :
    sign (whole ++ rest) = (false, whole ++ rest) := by
  obtain ⟨c, whole, rfl⟩ := List.exists_cons_of_ne_nil hne
  obtain ⟨n, hn, rfl⟩ := hw c (List.mem_cons_self ..)
  have hall : ∀ n < 10, Nat.digitChar n ≠ '-' ∧ Nat.digitChar n ≠ '+' := by decide
  obtain ⟨hminus, hplus⟩ := hall n hn
  simp only [List.cons_append, sign]
  split
  · rename_i h
    exact absurd (List.cons.inj h).1 hminus
  · rename_i h
    exact absurd (List.cons.inj h).1 hplus
  · rfl

theorem strip_of_plain (h : ∀ c ∈ text, Text.isSpace c = false) :
    Text.strip (String.ofList text) = String.ofList text := by
  have hkeep : ∀ l : List Char, (∀ c ∈ l, Text.isSpace c = false) → l.dropWhile Text.isSpace = l := by
    intro l hl
    cases l with
    | nil => rfl
    | cons c l => rw [List.dropWhile_cons, hl c (List.mem_cons_self ..), if_neg Bool.false_ne_true]
  have hreverse : ∀ c ∈ text.reverse, Text.isSpace c = false := fun c hc =>
    h c (List.mem_reverse.mp hc)
  simp only [Text.strip, Text.stripChars, String.toList_ofList, hkeep text h,
    hkeep text.reverse hreverse, List.reverse_reverse]

/-- A text of digits, with or without a point, is read as it stands. -/
theorem parse_unsigned {negative : Bool} {rest : List Char} {found : Nat × Int}
    (hplain : ∀ c ∈ text, c ≠ '_' ∧ Text.isSpace c = false)
    (hsign : sign text = (negative, rest)) (hread : readNumber d rest = some found) :
    parse d (String.ofList text) = some (.finite negative found.1 found.2) := by
  have hfilter : text.filter (· ≠ '_') = text :=
    List.filter_eq_self.mpr fun c hc => by simpa using (hplain c hc).1
  simp only [parse, strip_of_plain fun c hc => (hplain c hc).2, String.toList_ofList, hfilter,
    hsign, hread]

theorem AsciiDigits.plain (h : AsciiDigits text) :
    ∀ c ∈ text, c ≠ '_' ∧ Text.isSpace c = false := by
  intro c hc
  obtain ⟨n, hn, rfl⟩ := h c hc
  exact digitChar_plain hn

theorem parse_plain (n : Nat) :
    parse d (String.ofList (Nat.toDigits 10 n)) = some (.finite false n 0) := by
  have hdigits := asciiDigits_toDigits n
  have hsign := sign_digits hdigits Nat.toDigits_ne_nil []
  rw [List.append_nil] at hsign
  rw [parse_unsigned hdigits.plain hsign (readNumber_plain hdigits Nat.toDigits_ne_nil),
    natural_toDigits]

theorem parse_point {i k r : Nat} (hr : r < 10 ^ k) :
    parse d (String.ofList (Nat.toDigits 10 i ++ '.' :: padded k r)) =
      some (.finite false (i * 10 ^ k + r) (-(k : Int))) := by
  have hdigits := asciiDigits_toDigits i
  have hplaces := asciiDigits_padded k r
  have hplain : ∀ c ∈ Nat.toDigits 10 i ++ '.' :: padded k r,
      c ≠ '_' ∧ Text.isSpace c = false := by
    intro c hc
    obtain hc | hc := List.mem_append.mp hc
    · exact hdigits.plain c hc
    · obtain rfl | hc := List.mem_cons.mp hc
      · decide
      · exact hplaces.plain c hc
  rw [parse_unsigned hplain (sign_digits hdigits Nat.toDigits_ne_nil _)
    (readNumber_point hdigits hplaces Nat.toDigits_ne_nil), natural_append_padded hr,
    natural_toDigits, length_padded]

end Read

section Format

variable {n i k r : Nat}

theorem fixedPoint_plain (n : Nat) : fixedPoint n 0 = Nat.toDigits 10 n := by
  simp [fixedPoint]

theorem fixedPoint_point (hk : 0 < k) (hr : r < 10 ^ k) :
    fixedPoint (i * 10 ^ k + r) (-(k : Int)) = Nat.toDigits 10 i ++ '.' :: padded k r := by
  have hneg : ¬ (0 : Int) ≤ -(k : Int) := by omega
  have hplaces : (-(-(k : Int))).toNat = k := by omega
  simp only [fixedPoint, if_neg hneg, hplaces]
  rw [Nat.mul_comm i, Nat.mul_add_div (Nat.pos_of_ne_zero (by positivity)),
    Nat.mul_add_mod, Nat.div_eq_of_lt hr, Nat.mod_eq_of_lt hr, Nat.add_zero]

/-- What is formatted is a whole number, or one with its places. -/
theorem fixedPoint_cases (coefficient : Nat) (exponent : Int) :
    (∃ n : Nat, fixedPoint coefficient exponent = Nat.toDigits 10 n ∧
      (coefficient : Rat) * 10 ^ exponent = n) ∨
    ∃ i k r : Nat, 0 < k ∧ r < 10 ^ k ∧
      fixedPoint coefficient exponent = Nat.toDigits 10 i ++ '.' :: padded k r ∧
      (coefficient : Rat) * 10 ^ exponent = (i * 10 ^ k + r) / 10 ^ k := by
  obtain ⟨e, rfl | rfl⟩ := Int.eq_nat_or_neg exponent
  · refine .inl ⟨coefficient * 10 ^ e, ?_, ?_⟩
    · rw [fixedPoint, if_pos (Int.natCast_nonneg e), Int.toNat_natCast]
    · rw [zpow_natCast]
      push_cast
      rfl
  · obtain rfl | he := Nat.eq_zero_or_pos e
    · refine .inl ⟨coefficient, fixedPoint_plain coefficient, ?_⟩
      simp
    · have hsplit := Nat.div_add_mod' coefficient (10 ^ e)
      have hmod : coefficient % 10 ^ e < 10 ^ e := Nat.mod_lt _ (by positivity)
      refine .inr ⟨coefficient / 10 ^ e, e, coefficient % 10 ^ e, he, hmod, ?_, ?_⟩
      · rw [← fixedPoint_point he hmod, hsplit]
      · rw [zpow_neg, zpow_natCast, ← div_eq_mul_inv]
        congr 1
        exact_mod_cast hsplit.symm

theorem rstrip_snoc (c : Char) (text : List Char) : rstrip c (text ++ [c]) = rstrip c text :=
  List.rdropWhile_concat_pos _ _ _ (by simp)

theorem rstrip_keep {c last : Char} (h : last ≠ c) (text : List Char) :
    rstrip c (text ++ [last]) = text ++ [last] :=
  List.rdropWhile_concat_neg _ _ _ (by simpa using h)

theorem digitChar_zero_iff (hn : n < 10) : Nat.digitChar n = '0' ↔ n = 0 := by
  have hall : ∀ n < 10, Nat.digitChar n = '0' ↔ n = 0 := by decide
  exact hall n hn

/-- The trailing zeros of a positive number are factors of ten. -/
theorem rstrip_toDigits (hn : 0 < n) : ∃ m, 0 < m ∧ rstrip '0' (Nat.toDigits 10 n) =
    Nat.toDigits 10 m ∧ m % 10 ≠ 0 ∧ (m = n ∨ n % 10 = 0 ∧ m < n) := by
  induction n using Nat.strongRecOn with
  | ind n ih =>
    by_cases hlast : n % 10 = 0
    · obtain ⟨m, hm, hstrip, hne, hle⟩ := ih (n / 10) (by omega) (by omega)
      refine ⟨m, hm, ?_, hne, .inr ⟨hlast, by omega⟩⟩
      rw [Nat.toDigits_of_base_le (by decide) (by omega), hlast]
      exact (rstrip_snoc '0' _).trans hstrip
    · refine ⟨n, hn, ?_, hlast, .inl rfl⟩
      have hchar : Nat.digitChar (n % 10) ≠ '0' := by
        rwa [Ne, digitChar_zero_iff (Nat.mod_lt _ (by decide))]
      rw [Nat.toDigits_eq_if (by decide)]
      split
      · rename_i hsmall
        rw [Nat.mod_eq_of_lt hsmall] at hchar
        exact rstrip_keep hchar []
      · exact rstrip_keep hchar _

/-- The trailing zeros of a fraction leave its value. -/
theorem rstrip_padded (text : List Char) (hr : r < 10 ^ k) (hne : r ≠ 0) :
    ∃ k' r', rstrip '0' (text ++ padded k r) = text ++ padded k' r' ∧ r' < 10 ^ k' ∧
      k' ≤ k ∧ r = r' * 10 ^ (k - k') ∧ r' % 10 ≠ 0 := by
  induction k generalizing r with
  | zero =>
    rw [Nat.pow_zero] at hr
    omega
  | succ k ih =>
    by_cases hlast : r % 10 = 0
    · have hdiv : r / 10 < 10 ^ k := by
        rw [Nat.pow_succ] at hr
        omega
      obtain ⟨k', r', hstrip, hlt, hle, hvalue, hmod⟩ := ih hdiv (by omega)
      refine ⟨k', r', ?_, hlt, by omega, ?_, hmod⟩
      · rw [padded, hlast, ← List.append_assoc]
        exact (rstrip_snoc '0' _).trans hstrip
      · have hten : r = r / 10 * 10 := by omega
        rw [hten, hvalue, Nat.succ_sub hle, Nat.pow_succ, Nat.mul_assoc]
    · refine ⟨k + 1, r, ?_, hr, Nat.le_refl _, by simp, hlast⟩
      have hchar : Nat.digitChar (r % 10) ≠ '0' := by
        rwa [Ne, digitChar_zero_iff (Nat.mod_lt _ (by decide))]
      rw [padded, ← List.append_assoc]
      exact rstrip_keep hchar _

theorem rstrip_zeros (text : List Char) (k : Nat) :
    rstrip '0' (text ++ padded k 0) = rstrip '0' text := by
  induction k with
  | zero => rw [padded, List.append_nil]
  | succ k ih =>
    rw [padded, ← List.append_assoc]
    exact (rstrip_snoc '0' _).trans ih

/-- A text that ends in an ASCII digit has no point to strip. -/
theorem rstrip_point {text : List Char} (hdigits : AsciiDigits text) (hne : text ≠ [])
    (before : List Char) : rstrip '.' (before ++ text) = before ++ text := by
  obtain ⟨text, c, rfl⟩ := List.eq_nil_or_concat text |>.resolve_left hne
  rw [List.concat_eq_append] at hdigits ⊢
  obtain ⟨n, hn, rfl⟩ := hdigits c (by simp)
  have hall : ∀ n < 10, Nat.digitChar n ≠ '.' := by decide
  rw [← List.append_assoc]
  exact rstrip_keep (hall n hn) _

end Format

end Decimal

end Fairy.Lib
