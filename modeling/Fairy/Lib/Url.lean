import Mathlib.Data.List.TakeWhile

namespace Fairy.Lib.Url

/-- The parts of a URL that Python's `urlsplit` tells apart. -/
structure SplitResult where
  scheme : List Char
  netloc : List Char
  path : List Char
  query : List Char
  fragment : List Char
  deriving DecidableEq

/-- What stands before the first separator, and after it if there is one. -/
def partition (p : Char → Bool) (l : List Char) : List Char × Option (List Char) :=
  match l.dropWhile fun c => !p c with
  | [] => (l, none)
  | _ :: rest => (l.takeWhile fun c => !p c, some rest)

def isSchemeChar (c : Char) : Bool := c.isAlphanum ∨ c ∈ ['+', '-', '.']

/-- Leading control characters and blanks go, and so do line breaks and tabs. -/
def clean (l : List Char) : List Char :=
  (l.dropWhile fun c => c.toNat ≤ 32).filter fun c => c ∉ ['\t', '\r', '\n']

/-- The scheme in lower case, and what follows it. -/
def splitScheme (l : List Char) : List Char × List Char :=
  match partition (· = ':') l with
  | (c :: scheme, some rest) =>
    if c.isAlpha ∧ (c :: scheme).all isSchemeChar then ((c :: scheme).map Char.toLower, rest)
    else ([], l)
  | _ => ([], l)

/-- The network location, and what follows it. -/
def splitNetloc : List Char → List Char × List Char
  | '/' :: '/' :: rest =>
    (rest.takeWhile fun c => c ∉ ['/', '?', '#'], rest.dropWhile fun c => c ∉ ['/', '?', '#'])
  | l => ([], l)

def urlsplit (url : String) : SplitResult :=
  let (scheme, rest) := splitScheme (clean url.toList)
  let (netloc, rest) := splitNetloc rest
  let (rest, fragment) := partition (· = '#') rest
  let (path, query) := partition (· = '?') rest
  { scheme, netloc, path, query := query.getD [], fragment := fragment.getD [] }

namespace SplitResult

variable (r : SplitResult)

/-- What stands after the last `@`. -/
def hostinfo : List Char := (r.netloc.reverse.takeWhile (· ≠ '@')).reverse

def hasUserinfo : Bool := r.netloc.contains '@'

def hostname : Option (List Char) :=
  let host :=
    match partition (· = '[') r.hostinfo with
    | (_, some bracketed) => (partition (· = ']') bracketed).1
    | (l, none) => (partition (· = ':') l).1
  if host = [] then none else some (host.map Char.toLower)

/-- The text of the port; `none` also stands for a port that is no number up to 65535, where the
source raises. -/
def port : Option Nat :=
  let text :=
    match partition (· = '[') r.hostinfo with
    | (_, some bracketed) =>
      (partition (· = ':') ((partition (· = ']') bracketed).2.getD [])).2.getD []
    | (l, none) => (partition (· = ':') l).2.getD []
  if text = [] ∨ ¬ text.all Char.isDigit then none
  else
    let value := text.foldl (fun n c => 10 * n + (c.toNat - '0'.toNat)) 0
    if value ≤ 65535 then some value else none

end SplitResult

theorem partition_of_not_mem {p : Char → Bool} {l : List Char} (h : ∀ c ∈ l, p c = false) :
    partition p l = (l, none) := by
  have hdrop : (l.dropWhile fun c => !p c) = [] :=
    List.dropWhile_eq_nil_iff.mpr fun c hc => by simp [h c hc]
  simp only [partition, hdrop]

theorem partition_append {p : Char → Bool} {l rest : List Char} {c : Char}
    (h : ∀ d ∈ l, p d = false) (hc : p c = true) : partition p (l ++ c :: rest) = (l, some rest) := by
  have hl : ∀ d ∈ l, (!p d) = true := fun d hd => by simp [h d hd]
  have hdrop : ((l ++ c :: rest).dropWhile fun c => !p c) = c :: rest := by
    rw [List.dropWhile_append_of_pos hl, List.dropWhile_cons_of_neg (by simp [hc])]
  have htake : ((l ++ c :: rest).takeWhile fun c => !p c) = l := by
    rw [List.takeWhile_append_of_pos hl, List.takeWhile_cons_of_neg (by simp [hc]),
      List.append_nil]
  simp only [partition, hdrop, htake]

theorem clean_of_printable {l : List Char} (h : ∀ c ∈ l, 32 < c.toNat) : clean l = l := by
  have hdrop : (l.dropWhile fun c => c.toNat ≤ 32) = l := by
    cases l with
    | nil => rfl
    | cons c l =>
      have hc := h c List.mem_cons_self
      exact List.dropWhile_cons_of_neg (by simpa using hc)
  rw [clean, hdrop, List.filter_eq_self]
  intro c hc
  have hprintable := h c hc
  simp only [List.mem_cons, List.not_mem_nil, or_false, not_or, decide_eq_true_eq]
  refine ⟨?_, ?_, ?_⟩ <;> rintro rfl <;> exact absurd hprintable (by decide)

theorem clean_of_first {c : Char} {l : List Char} (hc : 32 < c.toNat)
    (h : ∀ d ∈ c :: l, d ∉ ['\t', '\r', '\n']) : clean (c :: l) = c :: l := by
  rw [clean, List.dropWhile_cons_of_neg (by simpa using hc), List.filter_eq_self]
  exact fun d hd => decide_eq_true (h d hd)

/-- A URL of a scheme, a host and a path splits into what it is put together from. -/
theorem urlsplit_join {s : Char} {scheme netloc path : List Char} (hs : s.isAlpha = true)
    (hscheme : ∀ c ∈ s :: scheme, isSchemeChar c = true ∧ c ≠ ':' ∧ c.toLower = c)
    (hnetloc : ∀ c ∈ netloc, c ∉ ['/', '?', '#']) (hpath : ∀ c ∈ path, c ∉ ['?', '#'])
    (hclean : clean (s :: scheme ++ ':' :: '/' :: '/' :: (netloc ++ '/' :: path)) =
      s :: scheme ++ ':' :: '/' :: '/' :: (netloc ++ '/' :: path)) :
    urlsplit (String.ofList (s :: scheme ++ ':' :: '/' :: '/' :: (netloc ++ '/' :: path))) =
      ⟨s :: scheme, netloc, '/' :: path, [], []⟩ := by
  have hlower : (s :: scheme).map Char.toLower = s :: scheme :=
    (List.map_congr_left fun c hc => (hscheme c hc).2.2).trans (List.map_id' _)
  have hsplit : splitScheme (s :: scheme ++ ':' :: '/' :: '/' :: (netloc ++ '/' :: path)) =
      (s :: scheme, '/' :: '/' :: (netloc ++ '/' :: path)) := by
    have hp : partition (· = ':') (s :: scheme ++ ':' :: '/' :: '/' :: (netloc ++ '/' :: path)) =
        (s :: scheme, some ('/' :: '/' :: (netloc ++ '/' :: path))) :=
      partition_append (fun c hc => by simpa using (hscheme c hc).2.1) (by decide)
    simp only [splitScheme, hp]
    rw [if_pos ⟨hs, List.all_eq_true.mpr fun c hc => (hscheme c hc).1⟩, hlower]
  have hkept : ∀ c ∈ netloc, decide (c ∉ ['/', '?', '#']) = true := fun c hc =>
    decide_eq_true (hnetloc c hc)
  have hnetloc : splitNetloc ('/' :: '/' :: (netloc ++ '/' :: path)) = (netloc, '/' :: path) := by
    rw [splitNetloc, List.takeWhile_append_of_pos hkept, List.dropWhile_append_of_pos hkept,
      List.takeWhile_cons_of_neg (by decide), List.dropWhile_cons_of_neg (by decide),
      List.append_nil]
  have hfragment : partition (· = '#') ('/' :: path) = ('/' :: path, none) := by
    refine partition_of_not_mem fun c hc => ?_
    obtain rfl | hc := List.mem_cons.mp hc
    · decide
    · have := hpath c hc
      simp_all
  have hquery : partition (· = '?') ('/' :: path) = ('/' :: path, none) := by
    refine partition_of_not_mem fun c hc => ?_
    obtain rfl | hc := List.mem_cons.mp hc
    · decide
    · have := hpath c hc
      simp_all
  simp only [urlsplit, String.toList_ofList, hclean, hsplit, hnetloc, hfragment, hquery,
    Option.getD_none]

theorem urlsplit_eq {s : Char} {scheme netloc path : List Char} (hs : s.isAlpha = true)
    (hscheme : ∀ c ∈ s :: scheme, isSchemeChar c = true ∧ c ≠ ':' ∧ c.toLower = c)
    (hnetloc : ∀ c ∈ netloc, c ∉ ['/', '?', '#']) (hpath : ∀ c ∈ path, c ∉ ['?', '#'])
    (hprintable : ∀ c ∈ s :: scheme ++ ':' :: '/' :: '/' :: (netloc ++ '/' :: path),
      32 < c.toNat) :
    urlsplit (String.ofList (s :: scheme ++ ':' :: '/' :: '/' :: (netloc ++ '/' :: path))) =
      ⟨s :: scheme, netloc, '/' :: path, [], []⟩ :=
  urlsplit_join hs hscheme hnetloc hpath (clean_of_printable hprintable)

end Fairy.Lib.Url
