import Mathlib.Data.List.Basic
import Mathlib.Data.List.DropRight

namespace Fairy.Lib.Base64

/-- The character that stands for a value below 64. -/
def encodeDigit (n : Nat) : Char :=
  if n < 26 then Char.ofNat (n + 65)
  else if n < 52 then Char.ofNat (n + 71)
  else if n < 62 then Char.ofNat (n - 4)
  else if n = 62 then '+'
  else '/'

/-- The value of a character of the alphabet, which is given by its code point. -/
def decodeDigit (c : Nat) : Option Nat :=
  if 65 ≤ c ∧ c ≤ 90 then some (c - 65)
  else if 97 ≤ c ∧ c ≤ 122 then some (c - 71)
  else if 48 ≤ c ∧ c ≤ 57 then some (c + 4)
  else if c = 43 then some 62
  else if c = 47 then some 63
  else none

/-- `base64.b64encode`. -/
def b64encode : List UInt8 → List Char
  | [] => []
  | [a] => [encodeDigit (a.toNat / 4), encodeDigit (a.toNat % 4 * 16), '=', '=']
  | [a, b] =>
    [encodeDigit (a.toNat / 4), encodeDigit (a.toNat % 4 * 16 + b.toNat / 16),
      encodeDigit (b.toNat % 16 * 4), '=']
  | a :: b :: c :: rest =>
    encodeDigit (a.toNat / 4) :: encodeDigit (a.toNat % 4 * 16 + b.toNat / 16) ::
      encodeDigit (b.toNat % 16 * 4 + c.toNat / 64) :: encodeDigit (c.toNat % 64) ::
        b64encode rest

/-- The scan of `binascii.a2b_base64(strict_mode=True)`, from a place in a group of four
characters. `left` holds the bits of the last character that no byte has taken yet. -/
def decodeFrom (quad left pads : Nat) (padded : Bool) : List Nat → Option (List UInt8)
  | [] => if quad = 0 then some [] else none
  | c :: rest =>
    if c = 61 then
      if 2 ≤ quad ∧ 4 ≤ quad + (pads + 1) then if rest = [] then some [] else none
      else decodeFrom quad left (if 2 ≤ quad then pads + 1 else pads) true rest
    else
      match decodeDigit c with
      | none => none
      | some d =>
        if padded then none
        else
          match quad with
          | 0 => decodeFrom 1 d 0 false rest
          | 1 => (decodeFrom 2 (d % 16) 0 false rest).map (UInt8.ofNat (left * 4 + d / 16) :: ·)
          | 2 => (decodeFrom 3 (d % 4) 0 false rest).map (UInt8.ofNat (left * 16 + d / 4) :: ·)
          | _ => (decodeFrom 0 0 0 false rest).map (UInt8.ofNat (left * 64 + d) :: ·)

/-- `base64.b64decode(s, validate=True)`. -/
def b64decode (s : List Nat) : Option (List UInt8) :=
  if s.head? = some 61 then none else decodeFrom 0 0 0 false s

theorem decodeDigit_encodeDigit : ∀ n < 64,
    (encodeDigit n).toNat ≠ 61 ∧ decodeDigit (encodeDigit n).toNat = some n := by
  decide

section Digits

variable {left pads n : Nat} {rest : List Nat}

/-- A value of the alphabet, at each of the four places of its group. -/
def takeDigit (quad left n : Nat) (rest : List Nat) : Option (List UInt8) :=
  match quad with
  | 0 => decodeFrom 1 n 0 false rest
  | 1 => (decodeFrom 2 (n % 16) 0 false rest).map (UInt8.ofNat (left * 4 + n / 16) :: ·)
  | 2 => (decodeFrom 3 (n % 4) 0 false rest).map (UInt8.ofNat (left * 16 + n / 4) :: ·)
  | _ => (decodeFrom 0 0 0 false rest).map (UInt8.ofNat (left * 64 + n) :: ·)

theorem decodeFrom_digit (quad : Nat) (h : n < 64) :
    decodeFrom quad left pads false ((encodeDigit n).toNat :: rest) =
      takeDigit quad left n rest := by
  obtain ⟨hne, hdigit⟩ := decodeDigit_encodeDigit n h
  simp only [decodeFrom, if_neg hne, hdigit, Bool.false_eq_true, if_false]
  rfl

theorem decodeFrom_zero (h : n < 64) :
    decodeFrom 0 left pads false ((encodeDigit n).toNat :: rest) =
      decodeFrom 1 n 0 false rest := decodeFrom_digit 0 h

theorem decodeFrom_one (h : n < 64) :
    decodeFrom 1 left pads false ((encodeDigit n).toNat :: rest) =
      (decodeFrom 2 (n % 16) 0 false rest).map (UInt8.ofNat (left * 4 + n / 16) :: ·) :=
  decodeFrom_digit 1 h

theorem decodeFrom_two (h : n < 64) :
    decodeFrom 2 left pads false ((encodeDigit n).toNat :: rest) =
      (decodeFrom 3 (n % 4) 0 false rest).map (UInt8.ofNat (left * 16 + n / 4) :: ·) :=
  decodeFrom_digit 2 h

theorem decodeFrom_three (h : n < 64) :
    decodeFrom 3 left pads false ((encodeDigit n).toNat :: rest) =
      (decodeFrom 0 0 0 false rest).map (UInt8.ofNat (left * 64 + n) :: ·) :=
  decodeFrom_digit 3 h

end Digits

/-- The first two characters of a group give its first byte back. -/
theorem first_byte (a : UInt8) (k : Nat) (hk : k < 16) :
    UInt8.ofNat (a.toNat / 4 * 4 + (a.toNat % 4 * 16 + k) / 16) = a := by
  have h : a.toNat / 4 * 4 + (a.toNat % 4 * 16 + k) / 16 = a.toNat := by omega
  rw [h, UInt8.ofNat_toNat]

theorem second_byte (b : UInt8) (j k : Nat) (hk : k < 4) :
    UInt8.ofNat ((j * 16 + b.toNat / 16) % 16 * 16 + (b.toNat % 16 * 4 + k) / 4) = b := by
  have hb := b.toNat_lt
  have h : (j * 16 + b.toNat / 16) % 16 * 16 + (b.toNat % 16 * 4 + k) / 4 = b.toNat := by omega
  rw [h, UInt8.ofNat_toNat]

theorem third_byte (c : UInt8) (j : Nat) :
    UInt8.ofNat ((j * 4 + c.toNat / 64) % 4 * 64 + c.toNat % 64) = c := by
  have hc := c.toNat_lt
  have h : (j * 4 + c.toNat / 64) % 4 * 64 + c.toNat % 64 = c.toNat := by omega
  rw [h, UInt8.ofNat_toNat]

theorem decodeFrom_encode (bytes : List UInt8) :
    decodeFrom 0 0 0 false ((b64encode bytes).map Char.toNat) = some bytes := by
  fun_induction b64encode bytes with
  | case1 => rfl
  | case2 a =>
    have ha := a.toNat_lt
    have h := first_byte a 0 (by omega)
    simp only [List.map_cons, List.map_nil]
    rw [decodeFrom_zero (by omega), decodeFrom_one (by omega)]
    simpa [decodeFrom] using h
  | case3 a b =>
    have ha := a.toNat_lt
    have hb := b.toNat_lt
    have h := second_byte b (a.toNat % 4) 0 (by omega)
    simp only [List.map_cons, List.map_nil]
    rw [decodeFrom_zero (by omega), decodeFrom_one (by omega), decodeFrom_two (by omega),
      first_byte a _ (by omega)]
    rw [Nat.add_zero] at h
    rw [h]
    rfl
  | case4 a b c rest ih =>
    have ha := a.toNat_lt
    have hb := b.toNat_lt
    have hc := c.toNat_lt
    simp only [List.map_cons]
    rw [decodeFrom_zero (by omega), decodeFrom_one (by omega), decodeFrom_two (by omega),
      decodeFrom_three (by omega), ih, first_byte a _ (by omega),
      second_byte b _ _ (by omega), third_byte c]
    rfl

theorem b64decode_b64encode (bytes : List UInt8) :
    b64decode ((b64encode bytes).map Char.toNat) = some bytes := by
  have hpad : ((b64encode bytes).map Char.toNat).head? ≠ some 61 := by
    have hdigit : ∀ a : UInt8, (encodeDigit (a.toNat / 4)).toNat ≠ 61 := fun a =>
      (decodeDigit_encodeDigit _ (by have ha := a.toNat_lt; omega)).1
    fun_cases b64encode bytes <;> simp [hdigit]
  rw [b64decode, if_neg hpad, decodeFrom_encode]

theorem length_decodeFrom {quad left pads : Nat} {padded : Bool} {s : List Nat}
    {bytes : List UInt8} (h : decodeFrom quad left pads padded s = some bytes) :
    bytes.length ≤ s.length := by
  induction s generalizing quad left pads padded bytes with
  | nil =>
    simp only [decodeFrom, Option.ite_none_right_eq_some, Option.some.injEq] at h
    simp [← h.2]
  | cons c rest ih =>
    simp only [decodeFrom] at h
    split at h
    · split at h
      · simp only [Option.ite_none_right_eq_some, Option.some.injEq] at h
        simp [← h.2]
      · exact Nat.le_succ_of_le (ih h)
    · split at h
      · cases h
      · split at h
        · cases h
        · split at h
          · exact Nat.le_succ_of_le (ih h)
          all_goals
            obtain ⟨tail, htail, rfl⟩ := Option.map_eq_some_iff.mp h
            exact Nat.succ_le_succ (ih htail)

/-- No text stands for more bytes than it has characters. -/
theorem length_b64decode {s : List Nat} {bytes : List UInt8} (h : b64decode s = some bytes) :
    bytes.length ≤ s.length := by
  rw [b64decode] at h
  split at h
  · cases h
  · exact length_decodeFrom h

/-! The alphabet of URLs, without padding. -/

/-- `base64.urlsafe_b64encode` replaces two characters. -/
def urlsafe (c : Char) : Char := if c = '+' then '-' else if c = '/' then '_' else c

/-- `altchars=b"-_"` puts them back. -/
def standard (c : Nat) : Nat := if c = 45 then 43 else if c = 95 then 47 else c

/-- `base64.urlsafe_b64encode(bytes).rstrip(b"=")`. -/
def urlText (bytes : List UInt8) : List Nat :=
  (((b64encode bytes).map urlsafe).rdropWhile fun c => c = '=').map Char.toNat

/-- `base64.b64decode(s + "=" * (-len(s) % 4), altchars=b"-_", validate=True)`. -/
def urlBytes (s : List Nat) : Option (List UInt8) :=
  b64decode ((s ++ List.replicate ((4 - s.length % 4) % 4) 61).map standard)

theorem urlsafe_encodeDigit : ∀ n < 64,
    urlsafe (encodeDigit n) ≠ '=' ∧
      standard (urlsafe (encodeDigit n)).toNat = (encodeDigit n).toNat := by
  decide

/-- A character of a text, apart from its padding. -/
def Plain (c : Char) : Prop := urlsafe c ≠ '=' ∧ standard (urlsafe c).toNat = c.toNat

theorem plain_encodeDigit {n : Nat} (h : n < 64) : Plain (encodeDigit n) :=
  urlsafe_encodeDigit n h

theorem b64encode_padded (bytes : List UInt8) : ∃ body pads,
    b64encode bytes = body ++ List.replicate pads '=' ∧ pads < 4 ∧
      (body.length + pads) % 4 = 0 ∧ ∀ c ∈ body, Plain c := by
  fun_induction b64encode bytes with
  | case1 => exact ⟨[], 0, rfl, by omega, rfl, nofun⟩
  | case2 a =>
    have ha := a.toNat_lt
    refine ⟨[_, _], 2, rfl, by omega, by simp, ?_⟩
    simp only [List.forall_mem_cons, List.not_mem_nil, false_imp_iff, implies_true, and_true]
    exact ⟨plain_encodeDigit (by omega), plain_encodeDigit (by omega)⟩
  | case3 a b =>
    have ha := a.toNat_lt
    have hb := b.toNat_lt
    refine ⟨[_, _, _], 1, rfl, by omega, by simp, ?_⟩
    simp only [List.forall_mem_cons, List.not_mem_nil, false_imp_iff, implies_true, and_true]
    exact ⟨plain_encodeDigit (by omega), plain_encodeDigit (by omega),
      plain_encodeDigit (by omega)⟩
  | case4 a b c rest ih =>
    have ha := a.toNat_lt
    have hb := b.toNat_lt
    have hc := c.toNat_lt
    obtain ⟨body, pads, heq, hpads, hlength, hplain⟩ := ih
    refine ⟨_ :: _ :: _ :: _ :: body, pads, by rw [heq]; rfl, hpads, ?_, ?_⟩
    · simp only [List.length_cons]
      omega
    · simp only [List.forall_mem_cons]
      exact ⟨plain_encodeDigit (by omega), plain_encodeDigit (by omega),
        plain_encodeDigit (by omega), plain_encodeDigit (by omega), hplain⟩

theorem rdropWhile_padded {l : List Char} (h : ∀ c ∈ l, c ≠ '=') (n : Nat) :
    (l ++ List.replicate n '=').rdropWhile (fun c => c = '=') = l := by
  induction n with
  | zero =>
    rw [List.replicate_zero, List.append_nil, List.rdropWhile_eq_self_iff]
    exact fun hl => by simpa using h _ (List.getLast_mem hl)
  | succ n ih =>
    rw [List.replicate_succ', ← List.append_assoc, List.rdropWhile_concat_pos _ _ _ (by simp)]
    exact ih

theorem urlText_eq {bytes : List UInt8} {body : List Char} {pads : Nat}
    (heq : b64encode bytes = body ++ List.replicate pads '=') (h : ∀ c ∈ body, Plain c) :
    urlText bytes = body.map fun c => (urlsafe c).toNat := by
  have hpad : urlsafe '=' = '=' := by decide
  have hbody : ∀ c ∈ body.map urlsafe, c ≠ '=' := by
    intro c hc
    obtain ⟨d, hd, rfl⟩ := List.mem_map.1 hc
    exact (h d hd).1
  rw [urlText, heq, List.map_append, List.map_replicate, hpad, rdropWhile_padded hbody,
    List.map_map]
  rfl

/-- What is written for a URL is read back as the bytes that it was. -/
theorem urlBytes_urlText (bytes : List UInt8) : urlBytes (urlText bytes) = some bytes := by
  obtain ⟨body, pads, heq, hpads, hlength, hplain⟩ := b64encode_padded bytes
  have htext := urlText_eq heq hplain
  have hmissing : (4 - (urlText bytes).length % 4) % 4 = pads := by
    rw [htext, List.length_map]
    omega
  have hrestored : (urlText bytes ++ List.replicate pads 61).map standard =
      (b64encode bytes).map Char.toNat := by
    rw [htext, heq, List.map_append, List.map_append, List.map_map, List.map_replicate,
      List.map_replicate]
    refine congrArg (· ++ List.replicate pads 61) (List.map_congr_left fun c hc => ?_)
    exact (hplain c hc).2
  rw [urlBytes, hmissing, hrestored, b64decode_b64encode]

theorem length_b64encode (bytes : List UInt8) :
    3 * (b64encode bytes).length ≤ 4 * bytes.length + 8 := by
  fun_induction b64encode bytes with
  | case4 a b c rest ih =>
    simp only [List.length_cons]
    omega
  | _ => simp

theorem length_urlText (bytes : List UInt8) :
    3 * (urlText bytes).length ≤ 4 * bytes.length + 8 := by
  obtain ⟨body, pads, heq, -, -, hplain⟩ := b64encode_padded bytes
  have hlength := length_b64encode bytes
  rw [heq, List.length_append] at hlength
  rw [urlText_eq heq hplain, List.length_map]
  omega

end Fairy.Lib.Base64
