import Mathlib.Data.Bool.AllAny
import Mathlib.Data.Nat.Digits.Lemmas
import Fairy.Lib.JsonReading

/-!
What is written is read again.
-/

namespace Fairy.Lib.JsonText

theorem hexDigit_hexChar : ∀ d < 16, hexDigit (hexChar d) = some d := by decide

theorem units_unicodeEscape {n : Nat} (h : n < 0x10000) (rest : List Char) :
    units (unicodeEscape n ++ rest) = (units rest).map fun x => (n :: x.1, x.2) := by
  have hnumber : hexNumber [hexChar (n / 4096 % 16), hexChar (n / 256 % 16),
      hexChar (n / 16 % 16), hexChar (n % 16)] = some n := by
    simp only [hexNumber, List.mapM_cons, List.mapM_nil,
      hexDigit_hexChar _ (Nat.mod_lt _ (by omega : 0 < 16))]
    simp only [Option.pure_def, Option.bind_eq_bind, Option.bind_some, Option.map_some,
      List.foldl_cons, List.foldl_nil, Option.some.injEq]
    omega
  simp only [unicodeEscape, List.cons_append, List.nil_append, units, hnumber]
  cases units rest <;> rfl

/-- The code units a code point is read as. -/
def pieces (n : Nat) : List Nat :=
  if n < 0x10000 then [n] else [0xd800 + (n - 0x10000) / 0x400, 0xdc00 + (n - 0x10000) % 0x400]

theorem units_unescape {c : Char} {n : Nat} (h : unescape c = some n) (rest : List Char) :
    units ('\\' :: c :: rest) = (units rest).map fun x => (n :: x.1, x.2) := by
  have hu : c ≠ 'u' := by
    rintro rfl
    cases h
  rw [units]
  · rw [h]
    cases units rest <;> rfl
  · rintro a b c' d tail heq
    exact absurd heq hu

theorem units_raw {c : Char} (hc : 32 ≤ c.toNat) (hquote : c ≠ '"') (hback : c ≠ '\\')
    (rest : List Char) :
    units (c :: rest) = (units rest).map fun x => (c.toNat :: x.1, x.2) := by
  rw [units]
  · rw [if_neg (not_or.mpr ⟨by omega, hback⟩)]
  · exact hquote
  · rintro a b c' d tail heq
    exact absurd heq hback
  · rintro c' tail heq
    exact absurd heq hback

theorem toNat_ofNat : ∀ n < 127, (Char.ofNat n).toNat = n := by decide

theorem units_escape {n : Nat} (h : n < 0x110000) (rest : List Char) :
    units (escape n ++ rest) = (units rest).map fun x => (pieces n ++ x.1, x.2) := by
  by_cases hsmall : n < 0x10000
  · have hpieces : pieces n = [n] := if_pos hsmall
    rw [hpieces]
    simp only [escape]
    split_ifs with h34 h92 h10 h13 h9 h12 h8 hraw
    · exact h34 ▸ units_unescape rfl rest
    · exact h92 ▸ units_unescape rfl rest
    · exact h10 ▸ units_unescape rfl rest
    · exact h13 ▸ units_unescape rfl rest
    · exact h9 ▸ units_unescape rfl rest
    · exact h12 ▸ units_unescape rfl rest
    · exact h8 ▸ units_unescape rfl rest
    · have hn : (Char.ofNat n).toNat = n := toNat_ofNat n hraw.2
      have hne : ∀ c : Char, c.toNat ≠ n → Char.ofNat n ≠ c := fun c hc he => hc (he ▸ hn)
      have hunits := units_raw (by omega) (hne '"' (Ne.symm h34)) (hne '\\' (Ne.symm h92)) rest
      rw [hn] at hunits
      exact hunits
    · exact units_unicodeEscape hsmall rest
  · have hpieces : pieces n = [0xd800 + (n - 0x10000) / 0x400, 0xdc00 + (n - 0x10000) % 0x400] :=
      if_neg hsmall
    have hescape : escape n = unicodeEscape (0xd800 + (n - 0x10000) / 0x400) ++
        unicodeEscape (0xdc00 + (n - 0x10000) % 0x400) := by
      simp only [escape]
      split_ifs <;> first | rfl | omega
    rw [hpieces, hescape, List.append_assoc, units_unicodeEscape (by omega),
      units_unicodeEscape (by omega), Option.map_map]
    rfl

/-- No code point of the string is a surrogate. -/
def Scalars (s : PyString) : Prop := ∀ n ∈ s, n < 0x110000 ∧ ¬ (0xd800 ≤ n ∧ n < 0xe000)

theorem scalars_map (l : List Char) : Scalars (l.map Char.toNat) := by
  intro n hn
  obtain ⟨c, _, rfl⟩ := List.mem_map.mp hn
  have hc := c.valid
  simp only [UInt32.isValidChar, Nat.isValidChar] at hc
  change c.val.toNat < _ ∧ ¬ (_ ≤ c.val.toNat ∧ c.val.toNat < _)
  omega

theorem scalars_ofString (s : String) : Scalars (.ofString s) := scalars_map s.toList

theorem join_cons {n : Nat} (h : ¬ isHigh n) (s : List Nat) : join (n :: s) = n :: join s := by
  cases s with
  | nil => rfl
  | cons m s => rw [join, if_neg (fun hs => h hs.1)]

theorem join_pieces {s : PyString} (h : Scalars s) : join (s.flatMap pieces) = s := by
  induction s with
  | nil => rfl
  | cons n s ih =>
    obtain ⟨hn, hs⟩ := List.forall_mem_cons.mp h
    have ih := ih hs
    rw [List.flatMap_cons]
    by_cases hsmall : n < 0x10000
    · have hpieces : pieces n = [n] := if_pos hsmall
      rw [hpieces, List.singleton_append, join_cons (fun hh => hn.2 ⟨hh.1, by have := hh.2; omega⟩), ih]
    · have hpieces : pieces n =
          [0xd800 + (n - 0x10000) / 0x400, 0xdc00 + (n - 0x10000) % 0x400] := if_neg hsmall
      have hpair : isHigh (0xd800 + (n - 0x10000) / 0x400) ∧
          isLow (0xdc00 + (n - 0x10000) % 0x400) := ⟨⟨by omega, by omega⟩, by omega, by omega⟩
      have hjoined : 0x10000 + (0xd800 + (n - 0x10000) / 0x400 - 0xd800) * 0x400 +
          (0xdc00 + (n - 0x10000) % 0x400 - 0xdc00) = n := by omega
      rw [hpieces, List.cons_append, List.singleton_append, join, if_pos hpair, hjoined, ih]

theorem units_quoted {s : PyString} (h : Scalars s) (rest : List Char) :
    units (s.flatMap escape ++ '"' :: rest) = some (s.flatMap pieces, rest) := by
  induction s with
  | nil => simp [units]
  | cons n s ih =>
    obtain ⟨hn, hs⟩ := List.forall_mem_cons.mp h
    rw [List.flatMap_cons, List.append_assoc, units_escape hn.1, ih hs]
    rfl

theorem string_quoted {s : PyString} (h : Scalars s) (rest : List Char) :
    string (s.flatMap escape ++ '"' :: rest) = some (s, rest) := by
  simp only [string, units_quoted h, Option.map_some, join_pieces h]


/-- What follows is no part of a number. -/
def Ends (rest : List Char) : Prop :=
  ∀ c tail, rest = c :: tail → isDigit c = false ∧ c ≠ '.' ∧ c ≠ 'e' ∧ c ≠ 'E'

theorem ends_cons {c : Char} {tail : List Char}
    (h : isDigit c = false ∧ c ≠ '.' ∧ c ≠ 'e' ∧ c ≠ 'E') : Ends (c :: tail) := by
  intro c' tail' heq
  cases heq
  exact h

theorem takeWhile_digits {ds rest : List Char} (hd : ∀ d ∈ ds, isDigit d = true)
    (h : Ends rest) : (ds ++ rest).takeWhile isDigit = ds := by
  induction ds with
  | nil =>
    cases rest with
    | nil => rfl
    | cons c tail => simp [(h c tail rfl).1]
  | cons d ds ih =>
    obtain ⟨hd, hds⟩ := List.forall_mem_cons.mp hd
    simp [hd, ih hds]

theorem natural_reverse (ds : List Nat) (h : ∀ d ∈ ds, d < 10) :
    natural (ds.reverse.map fun d => Char.ofNat (d + 48)) = Nat.ofDigits 10 ds := by
  induction ds with
  | nil => rfl
  | cons d ds ih =>
    obtain ⟨hd, hds⟩ := List.forall_mem_cons.mp h
    have ih := ih hds
    simp only [natural] at ih
    simp only [natural, List.reverse_cons, List.map_append, List.map_cons, List.map_nil,
      List.foldl_append, List.foldl_cons, List.foldl_nil, ih, Nat.ofDigits_cons,
      toNat_ofNat (d + 48) (by omega)]
    omega

theorem natural_decimal (n : Nat) : natural (decimal n) = n := by
  by_cases h : n = 0
  · rw [h]
    rfl
  · rw [decimal, if_neg h, natural_reverse _ fun d hd => Nat.digits_lt_base (by omega) hd,
      Nat.ofDigits_digits]

theorem isDigit_ofNat : ∀ d < 10, isDigit (Char.ofNat (d + 48)) = true := by decide

theorem isDigit_decimal (n : Nat) : ∀ c ∈ decimal n, isDigit c = true := by
  intro c hc
  by_cases h : n = 0
  · rw [h] at hc
    rw [List.mem_singleton.mp hc]
    rfl
  · rw [decimal, if_neg h] at hc
    obtain ⟨d, hd, rfl⟩ := List.mem_map.mp hc
    exact isDigit_ofNat d (Nat.digits_lt_base (by omega) (List.mem_reverse.mp hd))

/-- No decimal but that of zero begins with a zero. -/
theorem decimal_cons (n : Nat) :
    ∃ c tail, decimal n = c :: tail ∧ isDigit c = true ∧ (c = '0' → tail = []) := by
  by_cases h : n = 0
  · exact ⟨'0', [], by rw [h]; rfl, rfl, fun _ => rfl⟩
  · have hne : Nat.digits 10 n ≠ [] := Nat.digits_ne_nil_iff_ne_zero.mpr h
    have hlast := Nat.getLast_digit_ne_zero 10 h
    have hlt := Nat.digits_lt_base (b := 10) (m := n) (by omega) (List.getLast_mem hne)
    have hsplit := List.dropLast_append_getLast hne
    refine ⟨Char.ofNat ((Nat.digits 10 n).getLast hne + 48),
      (Nat.digits 10 n).dropLast.reverse.map fun d => Char.ofNat (d + 48), ?_,
      isDigit_ofNat _ hlt, fun hzero => ?_⟩
    · rw [decimal, if_neg h]
      nth_rewrite 1 [← hsplit]
      rw [List.reverse_append]
      rfl
    · have hnat := congrArg Char.toNat hzero
      rw [toNat_ofNat _ (by omega)] at hnat
      exact absurd hnat (by change _ ≠ 48; omega)

theorem whole_decimal (n : Nat) {rest : List Char} (h : Ends rest) :
    whole (decimal n ++ rest) = decimal n := by
  obtain ⟨c, tail, hdec, hdigit, hzero⟩ := decimal_cons n
  have htake := takeWhile_digits (isDigit_decimal n) h
  rw [hdec] at htake ⊢
  by_cases hc : c = '0'
  · rw [hc, hzero hc]
    rfl
  · rw [List.cons_append, whole]
    · exact htake
    · intro tail' heq
      exact absurd (List.cons.inj heq).1 hc

theorem fraction_ends {rest : List Char} (h : Ends rest) : fraction rest = ([], rest) := by
  fun_cases fraction rest with
  | case1 d tail => exact absurd rfl (h _ _ rfl).2.1
  | case2 d tail => exact absurd rfl (h _ _ rfl).2.1
  | case3 => rfl

theorem exponent_ends {rest : List Char} (h : Ends rest) : exponent rest = ([], rest) := by
  fun_cases exponent rest with
  | case1 e tail he =>
    obtain ⟨_, _, hlower, hupper⟩ := h _ _ rfl
    exact (he.1.elim hlower hupper).elim
  | case2 => rfl
  | case3 => rfl

theorem unsigned_decimal (negative : Bool) (n : Nat) {rest : List Char} (h : Ends rest) :
    unsigned negative (decimal n ++ rest) =
      some (.int (if negative then -(n : Int) else n), rest) := by
  have hne : decimal n ≠ [] := by
    obtain ⟨c, tail, hdec, _⟩ := decimal_cons n
    simp [hdec]
  simp only [unsigned, whole_decimal n h, List.drop_left, fraction_ends h, exponent_ends h,
    if_neg hne, natural_decimal]
  rfl

theorem scalar_number {input : List Char}
    (h : ∀ w ∈ constants, w.1.isPrefixOf input = false) : scalar input = number input := by
  have hfind : (constants.find? fun w => w.1.isPrefixOf input) = none :=
    List.find?_eq_none.mpr fun w hw => by simp [h w hw]
  rw [scalar, hfind]

theorem scalar_digit {c : Char} (h : isDigit c = true) (tail : List Char) :
    scalar (c :: tail) = unsigned false (c :: tail) := by
  have hne : ∀ d : Char, isDigit d = false → d ≠ c := by
    rintro d hd rfl
    rw [h] at hd
    cases hd
  rw [scalar_number, number]
  · exact fun rest heq => hne '-' rfl (List.cons.inj heq).1.symm
  · simp [constants, List.isPrefixOf, hne 'n' rfl, hne 't' rfl, hne 'f' rfl, hne 'N' rfl, hne 'I' rfl,
      hne '-' rfl]

theorem scalar_minus {c : Char} (h : isDigit c = true) (tail : List Char) :
    scalar ('-' :: c :: tail) = unsigned true (c :: tail) := by
  have hne : 'I' ≠ c := by
    rintro rfl
    cases h
  rw [scalar_number, number]
  simp [constants, List.isPrefixOf, hne]

theorem value_scalar (fuel : Nat) {c : Char} {tail : List Char}
    (h : c ≠ '"' ∧ c ≠ '{' ∧ c ≠ '[') :
    value (fuel + 1) (c :: tail) = scalar (c :: tail) := by
  simp [value, h]

theorem value_int (fuel : Nat) (n : Int) {rest : List Char} (h : Ends rest) :
    value (fuel + 1) (dumps (.int n) ++ rest) = some (.int n, rest) := by
  obtain ⟨c, tail, hdec, hdigit, _⟩ := decimal_cons n.natAbs
  have hread := fun negative => unsigned_decimal negative n.natAbs h
  rw [hdec, List.cons_append] at hread
  by_cases hneg : n < 0
  · rw [dumps, if_pos hneg, hdec, List.cons_append, List.cons_append,
      value_scalar fuel (by decide), scalar_minus hdigit, hread true]
    simp only [if_true]
    rw [show -(n.natAbs : Int) = n by omega]
  · have hc : c ≠ '"' ∧ c ≠ '{' ∧ c ≠ '[' := by
      refine ⟨?_, ?_, ?_⟩ <;> rintro rfl <;> cases hdigit
    rw [dumps, if_neg hneg, hdec, List.cons_append, value_scalar fuel hc, scalar_digit hdigit,
      hread false]
    simp only [Bool.false_eq_true, if_false]
    rw [show (n.natAbs : Int) = n by omega]

mutual

/-- The values that are written so that they are read again: no floats, no
surrogates, and no key twice. -/
def Exact : Value → Prop
  | .null | .bool _ | .int _ => True
  | .float _ => False
  | .str s => Scalars s
  | .arr vs => ExactItems vs
  | .obj fs => (fs.map Prod.fst).Nodup ∧ ExactFields fs

def ExactItems : List Value → Prop
  | [] => True
  | v :: vs => Exact v ∧ ExactItems vs

def ExactFields : List (PyString × Value) → Prop
  | [] => True
  | (k, v) :: fs => Scalars k ∧ Exact v ∧ ExactFields fs

end

theorem skip_cons {c : Char} (h : isSpace c = false) (tail : List Char) :
    skip (c :: tail) = c :: tail := by
  simp [skip, h]

/-- A value begins neither with a space nor with the end of an array. -/
theorem dumps_cons {v : Value} (h : Exact v) :
    ∃ c tail, dumps v = c :: tail ∧ isSpace c = false ∧ c ≠ ']' := by
  match v, h with
  | .null, _ | .bool true, _ | .bool false, _ | .str _, _ | .arr _, _ | .obj _, _ =>
    exact ⟨_, _, rfl, rfl, by decide⟩
  | .int n, _ =>
    obtain ⟨c, tail, hdec, hdigit, _⟩ := decimal_cons n.natAbs
    by_cases hneg : n < 0
    · exact ⟨'-', decimal n.natAbs, by rw [dumps, if_pos hneg], rfl, by decide⟩
    · refine ⟨c, tail, by rw [dumps, if_neg hneg, hdec], ?_, ?_⟩
      · simp only [isDigit, decide_eq_true_eq] at hdigit
        have hne : ∀ d : Char, d.toNat < 48 → (c == d) = false := by
          intro d hd
          refine beq_eq_false_iff_ne.mpr ?_
          rintro rfl
          omega
        simp [isSpace, hne ' ' (by decide), hne '\t' (by decide), hne '\n' (by decide),
          hne '\r' (by decide)]
      · rintro rfl
        cases hdigit

theorem put_append {read : List (PyString × Value)} {key : PyString} (v : Value)
    (h : key ∉ read.map Prod.fst) : put read key v = read ++ [(key, v)] := if_neg h

theorem dumpItems_cons {v : Value} (vs : List Value) (h : Exact v) :
    ∃ c tail, dumpItems (v :: vs) = c :: tail ∧ isSpace c = false ∧ c ≠ ']' := by
  obtain ⟨c, tail, hc, hspace, hclose⟩ := dumps_cons h
  cases vs with
  | nil => exact ⟨c, tail, by rw [dumpItems, hc], hspace, hclose⟩
  | cons w vs =>
    refine ⟨c, tail ++ ',' :: dumpItems (w :: vs), ?_, hspace, hclose⟩
    rw [dumpItems, hc, List.cons_append]
    exact fun heq => nomatch heq

theorem dumpFields_cons (f : PyString × Value) (fs : List (PyString × Value)) :
    ∃ tail, dumpFields (f :: fs) = '"' :: tail := by
  cases fs with
  | nil => exact ⟨_, rfl⟩
  | cons g fs => exact ⟨_, rfl⟩

section Steps

variable {fuel : Nat} {c : Char} {input tail rest : List Char}

theorem value_arr {vs : List Value} (hspace : isSpace c = false) (hclose : c ≠ ']')
    (h : items fuel (c :: tail) = some (vs, rest)) :
    value (fuel + 1) ('[' :: c :: tail) = some (.arr vs, rest) := by
  simp only [value, skip_cons hspace]
  split
  · rename_i heq
    exact absurd (List.cons.inj heq).1 hclose
  · rw [h]
    rfl

theorem value_obj {fs : List (PyString × Value)}
    (h : fields fuel [] ('"' :: tail) = some (fs, rest)) :
    value (fuel + 1) ('{' :: '"' :: tail) = some (.obj fs, rest) := by
  have hskip := skip_cons (c := '"') rfl tail
  simp only [value, hskip]
  split
  · rename_i heq
    exact absurd (List.cons.inj heq).1 (by decide)
  · rw [h]
    rfl

theorem items_last {v : Value} (h : value fuel input = some (v, ']' :: rest)) :
    items (fuel + 1) input = some ([v], rest) := by
  have hskip := skip_cons (c := ']') rfl rest
  simp only [items, h, hskip]

theorem items_more {v : Value} {vs : List Value} (h : value fuel input = some (v, ',' :: c :: tail))
    (hspace : isSpace c = false) (hvs : items fuel (c :: tail) = some (vs, rest)) :
    items (fuel + 1) input = some (v :: vs, rest) := by
  have hskip := skip_cons (c := ',') rfl (c :: tail)
  simp only [items, h, hskip, skip_cons hspace, hvs, Option.map_some]

theorem fields_last {key : PyString} {v : Value} (hkey : Scalars key)
    (read : List (PyString × Value)) (hspace : isSpace c = false)
    (h : value fuel (c :: tail) = some (v, '}' :: rest)) :
    fields (fuel + 1) read (quote key ++ ':' :: c :: tail) = some (put read key v, rest) := by
  have hskip := skip_cons (c := ':') rfl (c :: tail)
  have hskip' := skip_cons (c := '}') rfl rest
  simp only [quote, List.cons_append, List.append_assoc, List.nil_append, fields]
  rw [string_quoted hkey]
  simp only [hskip, skip_cons hspace, h, hskip']

theorem fields_more {key : PyString} {v : Value} (hkey : Scalars key)
    (read : List (PyString × Value)) (hspace : isSpace c = false)
    (h : value fuel (c :: tail) = some (v, ',' :: rest)) :
    fields (fuel + 1) read (quote key ++ ':' :: c :: tail) =
      fields fuel (put read key v) (skip rest) := by
  have hskip := skip_cons (c := ':') rfl (c :: tail)
  have hskip' := skip_cons (c := ',') rfl rest
  simp only [quote, List.cons_append, List.append_assoc, List.nil_append, fields]
  rw [string_quoted hkey]
  simp only [hskip, skip_cons hspace, h, hskip']

end Steps

mutual

theorem value_dumps : ∀ (v : Value) (fuel : Nat) (rest : List Char), Exact v →
    2 * (dumps v ++ rest).length < fuel → Ends rest →
    value fuel (dumps v ++ rest) = some (v, rest)
  | v, 0, rest, _, h, _ => by omega
  | .null, fuel + 1, rest, _, _, _ => rfl
  | .bool true, fuel + 1, rest, _, _, _ => rfl
  | .bool false, fuel + 1, rest, _, _, _ => rfl
  | .int n, fuel + 1, rest, _, _, hends => value_int fuel n hends
  | .str s, fuel + 1, rest, hs, _, _ => by
    simp only [dumps, quote, List.cons_append, List.append_assoc, List.nil_append, value]
    rw [string_quoted hs]
    rfl
  | .arr [], fuel + 1, rest, _, _, _ => by
    have hskip := skip_cons (c := ']') rfl rest
    simp only [dumps, dumpItems, List.cons_append, List.nil_append, value, hskip]
  | .arr (v :: vs), fuel + 1, rest, hv, h, _ => by
    obtain ⟨c, tail, hc, hspace, hclose⟩ := dumpItems_cons vs hv.1
    have hread := items_dumps v vs fuel rest hv (by
      simp only [dumps, List.length_append, List.length_cons, List.length_nil] at h ⊢
      omega)
    simp only [dumps, List.cons_append, List.append_assoc, List.nil_append]
    rw [hc] at hread ⊢
    exact value_arr hspace hclose hread
  | .obj [], fuel + 1, rest, _, _, _ => by
    have hskip := skip_cons (c := '}') rfl rest
    simp only [dumps, dumpFields, List.cons_append, List.nil_append, value, hskip]
  | .obj ((k, v) :: fs), fuel + 1, rest, hv, h, _ => by
    obtain ⟨tail, hc⟩ := dumpFields_cons (k, v) fs
    have hread := fields_dumps k v fs fuel [] rest hv.2 hv.1 (by
      simp only [dumps, List.length_append, List.length_cons, List.length_nil] at h ⊢
      omega)
    simp only [dumps, List.cons_append, List.append_assoc, List.nil_append]
    rw [hc] at hread ⊢
    exact value_obj hread

theorem items_dumps : ∀ (v : Value) (vs : List Value) (fuel : Nat) (rest : List Char),
    ExactItems (v :: vs) → 2 * (dumpItems (v :: vs) ++ ']' :: rest).length + 1 < fuel →
    items fuel (dumpItems (v :: vs) ++ ']' :: rest) = some (v :: vs, rest)
  | v, vs, 0, rest, _, h => by omega
  | v, [], fuel + 1, rest, hv, h => by
    simp only [dumpItems] at h ⊢
    exact items_last (value_dumps v fuel (']' :: rest) hv.1 (by omega) (ends_cons (by decide)))
  | v, w :: vs, fuel + 1, rest, hv, h => by
    obtain ⟨c, tail, hc, hspace, _⟩ := dumpItems_cons vs hv.2.1
    have hfirst := value_dumps v fuel (',' :: (dumpItems (w :: vs) ++ ']' :: rest)) hv.1 (by
      simp only [dumpItems, List.length_append, List.length_cons] at h ⊢
      omega) (ends_cons (by decide))
    have hmore := items_dumps w vs fuel rest hv.2 (by
      simp only [dumpItems, List.length_append, List.length_cons] at h ⊢
      omega)
    rw [hc] at hfirst hmore
    rw [dumpItems, List.append_assoc, List.cons_append, hc]
    · exact items_more hfirst hspace hmore
    · exact fun heq => nomatch heq

theorem fields_dumps : ∀ (k : PyString) (v : Value) (fs : List (PyString × Value)) (fuel : Nat)
    (read : List (PyString × Value)) (rest : List Char),
    ExactFields ((k, v) :: fs) → ((read ++ (k, v) :: fs).map Prod.fst).Nodup →
    2 * (dumpFields ((k, v) :: fs) ++ '}' :: rest).length + 1 < fuel →
    fields fuel read (dumpFields ((k, v) :: fs) ++ '}' :: rest) =
      some (read ++ (k, v) :: fs, rest)
  | k, v, fs, 0, read, rest, _, _, h => by omega
  | k, v, [], fuel + 1, read, rest, hv, hnodup, h => by
    obtain ⟨c, tail, hc, hspace, _⟩ := dumps_cons hv.2.1
    have hfirst := value_dumps v fuel ('}' :: rest) hv.2.1 (by
      simp only [dumpFields, List.length_append, List.length_cons] at h ⊢
      omega) (ends_cons (by decide))
    have hkey : k ∉ read.map Prod.fst := by
      simp only [List.map_append, List.map_cons] at hnodup
      exact fun hk => (List.nodup_append.mp hnodup).2.2 k hk k (.head _) rfl
    simp only [dumpFields, List.append_assoc, List.cons_append]
    rw [hc, List.cons_append] at hfirst ⊢
    rw [fields_last hv.1 read hspace hfirst, put_append v hkey]
  | k, v, (k', v') :: fs, fuel + 1, read, rest, hv, hnodup, h => by
    obtain ⟨c, tail, hc, hspace, _⟩ := dumps_cons hv.2.1
    obtain ⟨tail', hc'⟩ := dumpFields_cons (k', v') fs
    have hfirst := value_dumps v fuel (',' :: (dumpFields ((k', v') :: fs) ++ '}' :: rest))
      hv.2.1 (by
        simp only [dumpFields, List.length_append, List.length_cons] at h ⊢
        omega) (ends_cons (by decide))
    have hkey : k ∉ read.map Prod.fst := by
      simp only [List.map_append, List.map_cons] at hnodup
      exact fun hk => (List.nodup_append.mp hnodup).2.2 k hk k (.head _) rfl
    have hmore := fields_dumps k' v' fs fuel (read ++ [(k, v)]) rest hv.2.2 (by
      rw [List.append_assoc]
      exact hnodup) (by
        simp only [dumpFields, List.length_append, List.length_cons] at h ⊢
        omega)
    have hskip : skip (dumpFields ((k', v') :: fs) ++ '}' :: rest) =
        dumpFields ((k', v') :: fs) ++ '}' :: rest := by
      rw [hc']
      exact skip_cons rfl _
    rw [dumpFields]
    · simp only [List.append_assoc, List.cons_append]
      rw [hc, List.cons_append] at hfirst ⊢
      rw [fields_more hv.1 read hspace hfirst, hskip, put_append v hkey, hmore, List.append_assoc]
      rfl
    · exact fun heq => nomatch heq

end

/-- What `json.dumps` writes, `json.loads` reads as the value it was. -/
theorem loads_dumps {v : Value} (h : Exact v) : loads (dumps v) = some v := by
  obtain ⟨c, tail, hc, hspace, _⟩ := dumps_cons h
  have hread := value_dumps v (2 * (dumps v).length + 1) [] h (by simp) nofun
  rw [List.append_nil] at hread
  rw [loads, hc, skip_cons hspace, ← hc, hread]
  rfl

/-! What `json.dumps` writes is ASCII. -/

def IsAscii (c : Char) : Prop := 0 < c.toNat ∧ c.toNat < 128

theorem ascii_hexChar : ∀ d < 16, IsAscii (hexChar d) := by
  unfold IsAscii
  decide

theorem ascii_unicodeEscape (n : Nat) : ∀ c ∈ unicodeEscape n, IsAscii c := by
  have hdigit : ∀ m : Nat, IsAscii (hexChar (m % 16)) := fun m =>
    ascii_hexChar _ (Nat.mod_lt _ (by decide))
  simp only [unicodeEscape, List.forall_mem_cons]
  exact ⟨by unfold IsAscii; decide, by unfold IsAscii; decide, hdigit _, hdigit _, hdigit _,
    hdigit _, nofun⟩

theorem ascii_ofNat : ∀ n < 128, 0 < n → IsAscii (Char.ofNat n) := by
  unfold IsAscii
  decide

theorem ascii_escape (n : Nat) : ∀ c ∈ escape n, IsAscii c := by
  have hpair : ∀ c d : Char, IsAscii c → IsAscii d → ∀ e ∈ [c, d], IsAscii e := by
    simp +contextual
  unfold escape
  split_ifs with _ _ _ _ _ _ _ hplain
  all_goals first
    | exact hpair _ _ (by unfold IsAscii; decide) (by unfold IsAscii; decide)
    | exact ascii_unicodeEscape n
    | skip
  · intro c hc
    rw [List.mem_singleton] at hc
    subst hc
    exact ascii_ofNat n (by omega) (by omega)
  · intro c hc
    rw [List.mem_append] at hc
    exact hc.elim (ascii_unicodeEscape _ c) (ascii_unicodeEscape _ c)

theorem ascii_quote (s : PyString) : ∀ c ∈ quote s, IsAscii c := by
  have hquote : IsAscii '"' := by unfold IsAscii; decide
  intro c hc
  simp only [quote, List.mem_append, List.mem_cons, List.not_mem_nil, or_false,
    List.mem_flatMap] at hc
  obtain (rfl | ⟨n, -, hc⟩) | rfl := hc
  · exact hquote
  · exact ascii_escape n c hc
  · exact hquote

theorem ascii_decimal (n : Nat) : ∀ c ∈ decimal n, IsAscii c := by
  intro c hc
  have hdigit := isDigit_decimal n c hc
  simp only [isDigit, decide_eq_true_eq] at hdigit
  exact ⟨by omega, by omega⟩

/-- A text between two characters that is ASCII but for what stands between. -/
theorem ascii_between {first last : Char} {text : List Char} (hfirst : IsAscii first)
    (hlast : IsAscii last) (h : ∀ c ∈ text, IsAscii c) :
    ∀ c ∈ first :: text ++ [last], IsAscii c := by
  intro c hc
  simp only [List.mem_append, List.mem_cons, List.not_mem_nil, or_false] at hc
  obtain (rfl | hc) | rfl := hc
  · exact hfirst
  · exact h c hc
  · exact hlast

theorem ascii_joined {mark : Char} {front back : List Char} (hmark : IsAscii mark)
    (hfront : ∀ c ∈ front, IsAscii c) (hback : ∀ c ∈ back, IsAscii c) :
    ∀ c ∈ front ++ mark :: back, IsAscii c := by
  intro c hc
  simp only [List.mem_append, List.mem_cons] at hc
  obtain hc | rfl | hc := hc
  · exact hfront c hc
  · exact hmark
  · exact hback c hc

theorem ascii_marks : IsAscii ':' ∧ IsAscii ',' ∧ IsAscii '-' ∧ IsAscii '[' ∧ IsAscii ']' ∧
    IsAscii '\x7b' ∧ IsAscii '\x7d' ∧ (∀ c ∈ "null".toList, IsAscii c) ∧
      (∀ c ∈ "true".toList, IsAscii c) ∧ ∀ c ∈ "false".toList, IsAscii c := by
  have hchars : IsAscii ':' ∧ IsAscii ',' ∧ IsAscii '-' ∧ IsAscii '[' ∧ IsAscii ']' ∧
      IsAscii '\x7b' ∧ IsAscii '\x7d' := by
    unfold IsAscii
    decide
  obtain ⟨hcolon, hcomma, hminus, hopen, hclose, hleft, hright⟩ := hchars
  unfold IsAscii at *
  exact ⟨hcolon, hcomma, hminus, hopen, hclose, hleft, hright, List.all_iff_forall_prop.1 rfl,
    List.all_iff_forall_prop.1 rfl, List.all_iff_forall_prop.1 rfl⟩

mutual

theorem ascii_dumps : ∀ v : Value, Exact v → ∀ c ∈ dumps v, IsAscii c
  | .null, _ => ascii_marks.2.2.2.2.2.2.2.1
  | .bool true, _ => ascii_marks.2.2.2.2.2.2.2.2.1
  | .bool false, _ => ascii_marks.2.2.2.2.2.2.2.2.2
  | .int n, _ => by
    rw [dumps]
    split
    · exact List.forall_mem_cons.2 ⟨ascii_marks.2.2.1, ascii_decimal _⟩
    · exact ascii_decimal _
  | .str s, _ => ascii_quote s
  | .arr vs, h =>
    ascii_between ascii_marks.2.2.2.1 ascii_marks.2.2.2.2.1 (ascii_dumpItems vs h)
  | .obj fs, h =>
    ascii_between ascii_marks.2.2.2.2.2.1 ascii_marks.2.2.2.2.2.2.1 (ascii_dumpFields fs h.2)

theorem ascii_dumpItems : ∀ vs : List Value, ExactItems vs → ∀ c ∈ dumpItems vs, IsAscii c
  | [], _ => nofun
  | [v], h => ascii_dumps v h.1
  | v :: w :: vs, h =>
    ascii_joined ascii_marks.2.1 (ascii_dumps v h.1) (ascii_dumpItems (w :: vs) h.2)

theorem ascii_dumpFields :
    ∀ fs : List (PyString × Value), ExactFields fs → ∀ c ∈ dumpFields fs, IsAscii c
  | [], _ => nofun
  | [(k, v)], h => ascii_joined ascii_marks.1 (ascii_quote k) (ascii_dumps v h.2.1)
  | (k, v) :: f :: fs, h =>
    ascii_joined ascii_marks.2.1 (ascii_joined ascii_marks.1 (ascii_quote k)
      (ascii_dumps v h.2.1)) (ascii_dumpFields (f :: fs) h.2.2)

end

theorem length_escape {n : Nat} (h : n < 0x10000) : (escape n).length ≤ 6 := by
  unfold escape
  split_ifs
  all_goals simp [unicodeEscape]

theorem length_quote {s : PyString} (h : ∀ n ∈ s, n < 0x10000) :
    (quote s).length ≤ 6 * s.length + 2 := by
  have hescaped : (s.flatMap escape).length ≤ 6 * s.length := by
    induction s with
    | nil => simp
    | cons n s ih =>
      have hn := length_escape (h n List.mem_cons_self)
      have hs := ih fun m hm => h m (List.mem_cons_of_mem n hm)
      simp only [List.flatMap_cons, List.length_append, List.length_cons]
      omega
  simp only [quote, List.length_append, List.length_cons, List.length_nil]
  omega

end Fairy.Lib.JsonText
