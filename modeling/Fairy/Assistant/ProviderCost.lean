import Fairy.Lib.Decimal
import Fairy.Lib.Dict
import Mathlib.Tactic.Linarith
import Mathlib.Tactic.NormNum

namespace Fairy.Assistant

open Fairy.Lib

inductive ProviderAttemptStatus
  | started | succeeded | failed
  deriving DecidableEq

inductive ProviderErrorCategory
  | authentication | rateLimit | timeout | protocol | contextLength | contentRejected | network
  | unavailable | cancelled | unknown
  deriving DecidableEq

inductive ProviderAttemptError
  | valueError (message : String)
  | invalidTransitionError (message : String)
  deriving DecidableEq

/-- `_required_text`. -/
def requiredText (value name : String) (maximum : Nat) : Except ProviderAttemptError String :=
  let normalized := Text.strip value
  if normalized = "" then .error (.valueError s!"{name} is required")
  else if maximum < normalized.length then .error (.valueError s!"{name} is too long")
  else .ok normalized

/-- `_normalized_usage`, over the items of the dictionary in their order. -/
def normalizedUsage (usage : List (String × Int)) :
    Except ProviderAttemptError (Dict String Int) :=
  usage.foldlM (fun result item => do
    if item.2 < 0 then
      throw (.valueError "provider attempt usage must contain non-negative integers")
    let name ← requiredText item.1 "usage name" 128
    return result.insert name item.2) ∅

/-- `format(amount, "f").rstrip("0").rstrip(".") or "0"` of what is formatted. -/
def trimmed (text : List Char) : String :=
  match Decimal.rstrip '.' (Decimal.rstrip '0' text) with
  | [] => "0"
  | c :: rest => String.ofList (c :: rest)

section Cost

variable (d : DigitSet)

/-- `_normalized_cost`. -/
def normalizedCost : Option String → Except ProviderAttemptError (Option String)
  | none => .ok none
  | some value =>
    match Decimal.parse d value with
    | none => .error (.valueError "provider attempt usage cost is invalid")
    | some (.infinite _) | some .nan =>
      .error (.valueError "provider attempt usage cost must be finite and non-negative")
    | some (.finite negative coefficient exponent) =>
      -- minus zero is not below zero
      if negative ∧ coefficient ≠ 0 then
        .error (.valueError "provider attempt usage cost must be finite and non-negative")
      else .ok (some (trimmed (Decimal.formatFixed negative coefficient exponent)))

structure ProviderAttempt (Time : Type) where
  status : ProviderAttemptStatus
  errorCategory : Option ProviderErrorCategory
  usage : Dict String Int
  usageCost : Option String
  completedAt : Option Time

namespace ProviderAttempt

variable {Time : Type}

/-- What `succeed` and `fail` do once they have set the status: the attempt keeps the fields
that were set before an error. -/
def account (attempt : ProviderAttempt Time) (usage : List (String × Int))
    (usageCost : Option String) (now : Time) :
    Except ProviderAttemptError Unit × ProviderAttempt Time :=
  match normalizedUsage usage with
  | .error e => (.error e, attempt)
  | .ok usage =>
    let attempt := { attempt with usage }
    match normalizedCost d usageCost with
    | .error e => (.error e, attempt)
    | .ok usageCost => (.ok (), { attempt with usageCost, completedAt := some now })

def succeed (attempt : ProviderAttempt Time) (usage : List (String × Int))
    (usageCost : Option String) (now : Time) :
    Except ProviderAttemptError Unit × ProviderAttempt Time :=
  if attempt.status ≠ .started then
    (.error (.invalidTransitionError "provider attempt is already terminal"), attempt)
  else account d { attempt with status := .succeeded } usage usageCost now

def fail (attempt : ProviderAttempt Time) (errorCategory : ProviderErrorCategory)
    (usage : List (String × Int)) (usageCost : Option String) (now : Time) :
    Except ProviderAttemptError Unit × ProviderAttempt Time :=
  if attempt.status ≠ .started then
    (.error (.invalidTransitionError "provider attempt is already terminal"), attempt)
  else
    account d { attempt with status := .failed, errorCategory := some errorCategory } usage
      usageCost now

end ProviderAttempt

/-- The text denotes the number. -/
def Denotes (text : String) (q : Rat) : Prop :=
  ∃ amount, Decimal.parse d text = some amount ∧ amount.value = some q

/-- The stored cost is the amount, and normalising it again leaves it. -/
def KeepsAmount (q : Rat) (stored : Option String) : Prop :=
  ∃ text, stored = some text ∧ Denotes d text q ∧ normalizedCost d stored = .ok stored

end Cost

section Trimmed

variable {i k n r : Nat}

theorem trimmed_of_ne {text : List Char}
    (h : Decimal.rstrip '.' (Decimal.rstrip '0' text) ≠ []) :
    trimmed text = String.ofList (Decimal.rstrip '.' (Decimal.rstrip '0' text)) := by
  obtain ⟨c, rest, hc⟩ := List.exists_cons_of_ne_nil h
  simp only [trimmed, hc]

theorem trimmed_zero : trimmed (Nat.toDigits 10 0) = String.ofList (Nat.toDigits 10 0) := by
  decide

theorem trimmed_toDigits (hn : 0 < n) : ∃ m, trimmed (Nat.toDigits 10 n) =
    String.ofList (Nat.toDigits 10 m) ∧ (m = n ∨ n % 10 = 0 ∧ m < n) ∧ m % 10 ≠ 0 := by
  obtain ⟨m, _, hstrip, hlast, hm⟩ := Decimal.rstrip_toDigits hn
  have hpoint := Decimal.rstrip_point (Decimal.asciiDigits_toDigits m) Nat.toDigits_ne_nil []
  rw [List.nil_append] at hpoint
  refine ⟨m, ?_, hm, hlast⟩
  rw [trimmed_of_ne] <;> rw [hstrip, hpoint]
  exact Nat.toDigits_ne_nil

/-- Nothing but a factor of ten is trimmed off a whole number. -/
theorem trimmed_of_mod (h : n % 10 ≠ 0) :
    trimmed (Nat.toDigits 10 n) = String.ofList (Nat.toDigits 10 n) := by
  obtain ⟨m, htrimmed, rfl | ⟨hmod, _⟩, _⟩ := trimmed_toDigits (n := n) (by omega)
  · exact htrimmed
  · exact absurd hmod h

/-- The places of a whole number are trimmed off with their point. -/
theorem trimmed_whole (before : List Char) (i k : Nat) :
    trimmed (before ++ (Nat.toDigits 10 i ++ '.' :: Decimal.padded k 0)) =
      String.ofList (before ++ Nat.toDigits 10 i) := by
  have hdot : ('.' : Char) ≠ '0' := by decide
  have hpoint := Decimal.rstrip_point (Decimal.asciiDigits_toDigits i) Nat.toDigits_ne_nil before
  have hstrip : Decimal.rstrip '.'
      (Decimal.rstrip '0' (before ++ (Nat.toDigits 10 i ++ '.' :: Decimal.padded k 0))) =
      before ++ Nat.toDigits 10 i := by
    calc
      _ = Decimal.rstrip '.' (Decimal.rstrip '0'
            ((before ++ Nat.toDigits 10 i ++ ['.']) ++ Decimal.padded k 0)) := by simp
      _ = Decimal.rstrip '.' (Decimal.rstrip '0' (before ++ Nat.toDigits 10 i ++ ['.'])) := by
        rw [Decimal.rstrip_zeros]
      _ = Decimal.rstrip '.' (before ++ Nat.toDigits 10 i) := by
        rw [Decimal.rstrip_keep hdot, Decimal.rstrip_snoc]
      _ = before ++ Nat.toDigits 10 i := hpoint
  rw [trimmed_of_ne] <;> rw [hstrip]
  exact List.append_ne_nil_of_right_ne_nil _ Nat.toDigits_ne_nil

theorem trimmed_point (i : Nat) (hr : r < 10 ^ k) (hne : r ≠ 0) :
    ∃ k' r', trimmed (Nat.toDigits 10 i ++ '.' :: Decimal.padded k r) =
      String.ofList (Nat.toDigits 10 i ++ '.' :: Decimal.padded k' r') ∧ r' < 10 ^ k' ∧
      k' ≤ k ∧ r = r' * 10 ^ (k - k') ∧ r' % 10 ≠ 0 := by
  obtain ⟨k', r', hstrip, hlt, hle, hvalue, hlast⟩ :=
    Decimal.rstrip_padded (Nat.toDigits 10 i ++ ['.']) hr hne
  have hpadded : Decimal.padded k' r' ≠ [] := by
    intro hnil
    have hlength := Decimal.length_padded k' r'
    rw [hnil, List.length_nil] at hlength
    rw [← hlength, Nat.pow_zero] at hlt
    omega
  have hpoint := Decimal.rstrip_point (Decimal.asciiDigits_padded k' r') hpadded
    (Nat.toDigits 10 i ++ ['.'])
  rw [← hstrip] at hpoint
  simp only [List.append_assoc, List.singleton_append] at hstrip hpoint
  refine ⟨k', r', ?_, hlt, hle, hvalue, hlast⟩
  rw [trimmed_of_ne] <;> rw [hpoint, hstrip]
  simp

/-- What is left after trimming is trimmed. -/
theorem trimmed_of_last (i : Nat) (hr : r < 10 ^ k) (hlast : r % 10 ≠ 0) :
    trimmed (Nat.toDigits 10 i ++ '.' :: Decimal.padded k r) =
      String.ofList (Nat.toDigits 10 i ++ '.' :: Decimal.padded k r) := by
  obtain ⟨k', r', htrimmed, _, hle, hvalue, _⟩ := trimmed_point i hr (by omega)
  obtain hk | hk := Nat.eq_or_lt_of_le hle
  · subst hk
    rw [Nat.sub_self, Nat.pow_zero, Nat.mul_one] at hvalue
    rw [htrimmed, hvalue]
  · refine absurd ?_ hlast
    obtain ⟨j, hj⟩ := Nat.exists_eq_add_of_lt hk
    rw [hvalue, show k - k' = j + 1 by omega, Nat.pow_succ, ← Nat.mul_assoc]
    exact Nat.mul_mod_left ..

end Trimmed

section Amounts

variable {d : DigitSet} {i k n r : Nat} {q : Rat}

theorem denotes_iff {text : String} {amount : Decimal}
    (h : Decimal.parse d text = some amount) : Denotes d text q ↔ amount.value = some q := by
  simp only [Denotes, h, Option.some.injEq, exists_eq_left']

theorem normalizedCost_unsigned {text : String} {coefficient : Nat} {exponent : Int}
    (h : Decimal.parse d text = some (.finite false coefficient exponent)) :
    normalizedCost d (some text) =
      .ok (some (trimmed (Decimal.fixedPoint coefficient exponent))) := by
  simp only [normalizedCost, h, Bool.false_eq_true, false_and, ↓reduceIte, Decimal.formatFixed,
    List.nil_append]

theorem denotes_toDigits (d : DigitSet) (n : Nat) (q : Rat) :
    Denotes d (String.ofList (Nat.toDigits 10 n)) q ↔ (n : Rat) = q := by
  rw [denotes_iff (Decimal.parse_plain n)]
  simp [Decimal.value]

theorem denotes_point (d : DigitSet) (i : Nat) (hr : r < 10 ^ k) (q : Rat) :
    Denotes d (String.ofList (Nat.toDigits 10 i ++ '.' :: Decimal.padded k r)) q ↔
      ((i * 10 ^ k + r) / 10 ^ k : Rat) = q := by
  rw [denotes_iff (Decimal.parse_point hr)]
  simp [Decimal.value, div_eq_mul_inv]

theorem normalizedCost_toDigits (d : DigitSet) (n : Nat) :
    normalizedCost d (some (String.ofList (Nat.toDigits 10 n))) =
      .ok (some (trimmed (Nat.toDigits 10 n))) := by
  rw [normalizedCost_unsigned (Decimal.parse_plain n), Decimal.fixedPoint_plain]

theorem normalizedCost_point (d : DigitSet) (i : Nat) (hk : 0 < k) (hr : r < 10 ^ k) :
    normalizedCost d (some (String.ofList (Nat.toDigits 10 i ++ '.' :: Decimal.padded k r))) =
      .ok (some (trimmed (Nat.toDigits 10 i ++ '.' :: Decimal.padded k r))) := by
  rw [normalizedCost_unsigned (Decimal.parse_point hr), Decimal.fixedPoint_point hk hr]

/-- A whole number is kept as it is printed unless it ends in a zero. -/
theorem keepsAmount_toDigits (d : DigitSet) (n : Nat) :
    KeepsAmount d n (some (String.ofList (Nat.toDigits 10 n))) ↔
      ¬ ∃ m : Nat, 0 < m ∧ (n : Rat) = 10 * m := by
  simp only [KeepsAmount, Option.some.injEq, exists_eq_left', normalizedCost_toDigits,
    denotes_toDigits, true_and, Except.ok.injEq]
  obtain rfl | hn := Nat.eq_zero_or_pos n
  · simp only [trimmed_zero, Nat.cast_zero, true_iff]
    rintro ⟨m, hm, hq⟩
    have hzero : (0 : Nat) = 10 * m := by exact_mod_cast hq
    omega
  obtain ⟨m, htrimmed, hm, hlast⟩ := trimmed_toDigits hn
  rw [htrimmed]
  constructor
  · intro hsame
    have hdenotes := (denotes_toDigits d m m).mpr rfl
    rw [hsame, denotes_toDigits] at hdenotes
    rintro ⟨t, ht, hq⟩
    have hten : n = 10 * t := by exact_mod_cast hq
    have hmn : n = m := by exact_mod_cast hdenotes
    omega
  · intro hten
    obtain rfl | ⟨hmod, _⟩ := hm
    · rfl
    · refine absurd ⟨n / 10, by omega, ?_⟩ hten
      have hn : n = 10 * (n / 10) := by omega
      exact_mod_cast hn

/-- Trimming a whole number that ends in a zero makes another number of it. -/
theorem keepsAmount_trimmed (d : DigitSet) (n : Nat) :
    KeepsAmount d n (some (trimmed (Nat.toDigits 10 n))) ↔
      ¬ ∃ m : Nat, 0 < m ∧ (n : Rat) = 10 * m := by
  obtain rfl | hn := Nat.eq_zero_or_pos n
  · rw [trimmed_zero]
    exact keepsAmount_toDigits d 0
  obtain ⟨m, htrimmed, rfl | ⟨hmod, hlt⟩, _⟩ := trimmed_toDigits hn
  · rw [htrimmed]
    exact keepsAmount_toDigits d m
  · refine iff_of_false ?_ ?_
    · rintro ⟨text, hsome, hdenotes, _⟩
      cases hsome
      rw [htrimmed, denotes_toDigits] at hdenotes
      have hmn : m = n := by exact_mod_cast hdenotes
      omega
    · refine not_not_intro ⟨n / 10, by omega, ?_⟩
      have hten : n = 10 * (n / 10) := by omega
      exact_mod_cast hten

theorem keepsAmount_point (d : DigitSet) (i : Nat) (hk : 0 < k) (hr : r < 10 ^ k)
    (hq : ((i * 10 ^ k + r) / 10 ^ k : Rat) = q) :
    KeepsAmount d q (some (trimmed (Nat.toDigits 10 i ++ '.' :: Decimal.padded k r))) ↔
      ¬ ∃ m : Nat, 0 < m ∧ q = 10 * m := by
  have hpower : (10 ^ k : Rat) ≠ 0 := by positivity
  by_cases hzero : r = 0
  · subst hzero
    rw [Nat.cast_zero, add_zero, mul_div_cancel_right₀ _ hpower] at hq
    subst hq
    have hwhole := trimmed_whole [] i k
    rw [List.nil_append, List.nil_append] at hwhole
    rw [hwhole]
    exact keepsAmount_toDigits d i
  obtain ⟨k', r', htrimmed, hlt, hle, hvalue, hlast⟩ := trimmed_point i hr hzero
  have hk' : 0 < k' := by
    refine Nat.pos_of_ne_zero fun h => ?_
    rw [h, Nat.pow_zero] at hlt
    omega
  refine iff_of_true ⟨_, rfl, ?_, ?_⟩ ?_
  · rw [htrimmed, denotes_point d i hlt, ← hq, hvalue]
    obtain ⟨j, rfl⟩ := Nat.exists_eq_add_of_le hle
    rw [Nat.add_sub_cancel_left]
    push_cast
    rw [pow_add]
    field_simp
  · rw [htrimmed, normalizedCost_point d i hk' hlt, trimmed_of_last i hlt hlast]
  · rintro ⟨m, _, hm⟩
    rw [hm, div_eq_iff hpower] at hq
    have hnat : i * 10 ^ k + r = 10 * m * 10 ^ k := by exact_mod_cast hq
    have hmod := congrArg (· % 10 ^ k) hnat
    simp only [Nat.mul_add_mod_self_right, Nat.mul_mod_left, Nat.mod_eq_of_lt hr] at hmod
    exact hzero hmod

/-- The cost of an amount that is written without a sign. -/
theorem keepsAmount_fixedPoint (d : DigitSet) (coefficient : Nat) (exponent : Int) :
    KeepsAmount d (coefficient * (10 : Rat) ^ exponent)
        (some (trimmed (Decimal.fixedPoint coefficient exponent))) ↔
      ¬ ∃ m : Nat, 0 < m ∧ coefficient * (10 : Rat) ^ exponent = 10 * m := by
  obtain ⟨n, hprint, hvalue⟩ | ⟨i, k, r, hk, hr, hprint, hvalue⟩ :=
    Decimal.fixedPoint_cases coefficient exponent
  · rw [hprint, hvalue]
    exact keepsAmount_trimmed d n
  · rw [hprint]
    exact keepsAmount_point d i hk hr hvalue.symm

/-- A sign alone is no number. -/
theorem parse_sign (d : DigitSet) : Decimal.parse d "-" = none := by
  have hread : Decimal.readNumber d [] = none := by
    simp only [Decimal.readNumber, List.takeWhile_nil, List.dropWhile_nil, and_self, ↓reduceIte]
  have hstrip : (Text.strip "-").toList.filter (· ≠ '_') = ['-'] := by decide
  have hsign : Decimal.sign ['-'] = (true, []) := rfl
  have hnames : ([] : List Char) ∉ ["inf".toList, "infinity".toList] := by decide
  have hnan : ¬ ([] : List Char) = "nan".toList := by decide
  simp only [Decimal.parse, hstrip, hsign, hread, List.map_nil, if_neg hnames, List.head?_nil,
    reduceCtorEq, ↓reduceIte, List.take_nil, hnan, false_and]

theorem parse_minus_zero (d : DigitSet) :
    Decimal.parse d "-0" = some (.finite true 0 0) := by
  have hzero := Decimal.asciiDigits_toDigits 0
  have hplain : ∀ c ∈ "-0".toList, c ≠ '_' ∧ Text.isSpace c = false := by
    simp [Text.isSpace]
  have hread := Decimal.readNumber_plain (d := d) hzero Nat.toDigits_ne_nil
  rw [Decimal.natural_toDigits] at hread
  exact Decimal.parse_unsigned hplain rfl hread

/-- Minus zero is stored as a sign, or as a minus zero that will be. -/
theorem not_keepsAmount_minus (d : DigitSet) (exponent : Int) (q : Rat) :
    ¬ KeepsAmount d q (some (trimmed (Decimal.formatFixed true 0 exponent))) := by
  have hsign : trimmed ('-' :: Nat.toDigits 10 0) = "-" := by decide
  rintro ⟨text, hsome, ⟨amount, hparse, _⟩, hagain⟩
  cases hsome
  obtain ⟨n, hprint, hvalue⟩ | ⟨i, k, r, hk, hr, hprint, hvalue⟩ :=
    Decimal.fixedPoint_cases 0 exponent
  · obtain rfl : n = 0 := by simpa using hvalue.symm
    rw [Decimal.formatFixed, hprint, if_pos rfl, List.singleton_append, hsign, parse_sign]
      at hparse
    cases hparse
  · have hpower : (10 ^ k : Rat) ≠ 0 := by positivity
    have hsum : i * 10 ^ k + r = 0 := by
      rw [Nat.cast_zero, zero_mul, eq_div_iff hpower, zero_mul] at hvalue
      exact_mod_cast hvalue.symm
    obtain ⟨hi, rfl⟩ := Nat.add_eq_zero_iff.mp hsum
    obtain rfl : i = 0 := (Nat.mul_eq_zero.mp hi).resolve_right (by positivity)
    have hzero : String.ofList ('-' :: Nat.toDigits 10 0) = "-0" := by decide
    rw [Decimal.formatFixed, hprint, if_pos rfl, trimmed_whole, List.singleton_append, hzero,
      normalizedCost, parse_minus_zero] at hagain
    simp only [ne_eq, not_true_eq_false, and_false, ↓reduceIte, Decimal.formatFixed,
      Decimal.fixedPoint_plain, List.singleton_append, hsign, Except.ok.injEq,
      Option.some.injEq] at hagain
    exact absurd hagain (by decide)

/-- The cost of an amount that is not below zero, with or without a sign. -/
theorem keepsAmount_formatFixed (d : DigitSet) {negative : Bool} {coefficient : Nat}
    {exponent : Int} (hq : ¬ (negative = true ∧ coefficient ≠ 0)) :
    KeepsAmount d (coefficient * (10 : Rat) ^ exponent)
        (some (trimmed (Decimal.formatFixed negative coefficient exponent))) ↔
      negative = false ∧ ¬ ∃ m : Nat, 0 < m ∧ coefficient * (10 : Rat) ^ exponent = 10 * m := by
  cases negative with
  | true =>
    obtain rfl : coefficient = 0 := by simpa using hq
    exact iff_of_false (not_keepsAmount_minus d exponent _) fun h => by cases h.1
  | false =>
    rw [and_iff_right rfl]
    obtain ⟨n, hprint, hvalue⟩ | ⟨i, k, r, hk, hr, hprint, hvalue⟩ :=
      Decimal.fixedPoint_cases coefficient exponent
    · rw [Decimal.formatFixed, hprint, hvalue]
      exact keepsAmount_trimmed d n
    · rw [Decimal.formatFixed, hprint]
      exact keepsAmount_point d i hk hr hvalue.symm

end Amounts

section Stored

variable {Time : Type} {d : DigitSet} {negative : Bool} {coefficient : Nat} {exponent : Int}
  {text : String} {q : Rat}

theorem below_zero_iff (coefficient : Nat) (exponent : Int) (negative : Bool) :
    (if negative then -1 else 1 : Rat) * coefficient * (10 : Rat) ^ exponent < 0 ↔
      negative = true ∧ coefficient ≠ 0 := by
  have hpower : (0 : Rat) < 10 ^ exponent := zpow_pos (by norm_num) _
  have hcoefficient : (0 : Rat) ≤ coefficient := Nat.cast_nonneg coefficient
  cases negative with
  | false =>
    rw [if_neg Bool.false_ne_true, one_mul]
    have hle : (0 : Rat) ≤ coefficient * 10 ^ exponent := by positivity
    exact iff_of_false (not_lt.mpr hle) fun h => by cases h.1
  | true =>
    rw [and_iff_right rfl, if_pos rfl, neg_one_mul, neg_mul, neg_lt_zero,
      mul_pos_iff_of_pos_right hpower, Nat.cast_pos, Nat.pos_iff_ne_zero]

/-- What a started attempt keeps of a cost and of a valid usage. -/
theorem ProviderAttempt.account_ok (attempt : ProviderAttempt Time) {usage : List (String × Int)}
    {usageCost stored : Option String} (now : Time)
    (husage : ∃ kept, normalizedUsage usage = .ok kept)
    (hcost : normalizedCost d usageCost = .ok stored) :
    (attempt.account d usage usageCost now).1 = .ok () ∧
      (attempt.account d usage usageCost now).2.usageCost = stored := by
  obtain ⟨kept, hkept⟩ := husage
  simp only [ProviderAttempt.account, hkept, hcost, and_self]

theorem normalizedCost_of_nonneg
    (hparse : Decimal.parse d text = some (.finite negative coefficient exponent))
    (hvalue : (Decimal.finite negative coefficient exponent).value = some q) (hq : 0 ≤ q) :
    normalizedCost d (some text) =
        .ok (some (trimmed (Decimal.formatFixed negative coefficient exponent))) ∧
      (KeepsAmount d q
          (some (trimmed (Decimal.formatFixed negative coefficient exponent))) ↔
        negative = false ∧ ¬ ∃ m : Nat, 0 < m ∧ q = 10 * m) := by
  rw [Decimal.value, Option.some.injEq] at hvalue
  have hsign : ¬ (negative = true ∧ coefficient ≠ 0) := by
    rw [← below_zero_iff coefficient exponent, hvalue]
    exact not_lt.mpr hq
  have hplain : (coefficient : Rat) * 10 ^ exponent = q := by
    rw [← hvalue]
    cases negative with
    | false => rw [if_neg Bool.false_ne_true, one_mul]
    | true =>
      obtain rfl : coefficient = 0 := by simpa using hsign
      simp
  refine ⟨?_, hplain ▸ keepsAmount_formatFixed d hsign⟩
  simp only [normalizedCost, hparse, if_neg hsign]

/-- The amount that an attempt ends with is the one it was given unless that is a positive
multiple of ten or a minus zero. -/
theorem ProviderAttempt.stored_cost_exact (d : DigitSet) {text : String} {negative : Bool}
    {coefficient : Nat} {exponent : Int} {q : Rat}
    (hparse : Decimal.parse d text = some (.finite negative coefficient exponent))
    (hvalue : (Decimal.finite negative coefficient exponent).value = some q) (hq : 0 ≤ q)
    (attempt : ProviderAttempt Time) (hstarted : attempt.status = .started)
    (errorCategory : ProviderErrorCategory) (usage : List (String × Int))
    (husage : ∃ kept, normalizedUsage usage = .ok kept) (now : Time) :
    ((attempt.succeed d usage (some text) now).1 = .ok () ∧
      KeepsAmount d q (attempt.succeed d usage (some text) now).2.usageCost ↔
        negative = false ∧ ¬ ∃ m : Nat, 0 < m ∧ q = 10 * m) ∧
    ((attempt.fail d errorCategory usage (some text) now).1 = .ok () ∧
      KeepsAmount d q (attempt.fail d errorCategory usage (some text) now).2.usageCost ↔
        negative = false ∧ ¬ ∃ m : Nat, 0 < m ∧ q = 10 * m) := by
  obtain ⟨hcost, hkeeps⟩ := normalizedCost_of_nonneg hparse hvalue hq
  have haccount := fun a : ProviderAttempt Time => ProviderAttempt.account_ok a now husage hcost
  constructor
  · obtain ⟨hok, hstored⟩ := haccount { attempt with status := .succeeded }
    rw [ProviderAttempt.succeed, if_neg (not_not_intro hstarted), hstored, and_iff_right hok]
    exact hkeeps
  · obtain ⟨hok, hstored⟩ :=
      haccount { attempt with status := .failed, errorCategory := some errorCategory }
    rw [ProviderAttempt.fail, if_neg (not_not_intro hstarted), hstored, and_iff_right hok]
    exact hkeeps

/-- The ASCII digits alone. -/
def asciiDigits : DigitSet where
  value c := if '0' ≤ c ∧ c ≤ '9' then some (c.toNat - '0'.toNat) else none
  ascii := by decide
  point := by decide
  minus := by decide
  plus := by decide

def startedAttempt : ProviderAttempt Nat where
  status := .started
  errorCategory := none
  usage := ∅
  usageCost := none
  completedAt := none

/-- A cost of 0.50 is kept as 0.5. -/
theorem ProviderAttempt.stored_cost_exact_half :
    ((startedAttempt.succeed asciiDigits [] (some "0.50") 7).1 = .ok () ∧
      KeepsAmount asciiDigits (1 / 2)
        (startedAttempt.succeed asciiDigits [] (some "0.50") 7).2.usageCost) ∧
    ((startedAttempt.fail asciiDigits .timeout [] (some "0.50") 7).1 = .ok () ∧
      KeepsAmount asciiDigits (1 / 2)
        (startedAttempt.fail asciiDigits .timeout [] (some "0.50") 7).2.usageCost) := by
  have hvalue : (Decimal.finite false 50 (-2)).value = some (1 / 2) := by
    norm_num [Decimal.value]
  have hparse : Decimal.parse asciiDigits "0.50" = some (.finite false 50 (-2)) := by decide +kernel
  have hkeeps := ProviderAttempt.stored_cost_exact asciiDigits hparse
    hvalue (by norm_num) startedAttempt rfl .timeout [] ⟨∅, rfl⟩ 7
  have hhalf : ¬ ∃ m : Nat, 0 < m ∧ (1 / 2 : Rat) = 10 * m := by
    rintro ⟨m, _, hm⟩
    have hm : 1 = 20 * m := by
      have hm : (1 : Rat) = 20 * m := by linarith
      exact_mod_cast hm
    omega
  exact ⟨hkeeps.1.mpr ⟨rfl, hhalf⟩, hkeeps.2.mpr ⟨rfl, hhalf⟩⟩

/-- A cost of 100 is stored as 1. -/
theorem ProviderAttempt.hundred_is_stored_as_one :
    Denotes asciiDigits "100" 100 ∧
      (startedAttempt.succeed asciiDigits [] (some "100") 7).1 = .ok () ∧
      (startedAttempt.succeed asciiDigits [] (some "100") 7).2.usageCost = some "1" ∧
      ¬ Denotes asciiDigits "1" 100 := by
  have hhundred : Decimal.parse asciiDigits "100" = some (.finite false 100 0) := by
    decide +kernel
  have hone : Decimal.parse asciiDigits "1" = some (.finite false 1 0) := by decide +kernel
  refine ⟨?_, by decide +kernel, by decide +kernel, ?_⟩
  · rw [denotes_iff hhundred]
    norm_num [Decimal.value]
  · rw [denotes_iff hone]
    norm_num [Decimal.value]

end Stored

end Fairy.Assistant
