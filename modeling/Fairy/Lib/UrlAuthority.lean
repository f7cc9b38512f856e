import Fairy.Lib.Url
import Mathlib.Data.List.Basic

namespace Fairy.Lib.Url

/-- What stands after the last `@`. -/
def afterUser (netloc : List Char) : List Char := (netloc.reverse.takeWhile (· ≠ '@')).reverse

/-- The user and the password. -/
def userinfo (netloc : List Char) : List Char × List Char :=
  let user := ((netloc.reverse.dropWhile (· ≠ '@')).drop 1).reverse
  ((partition (· = ':') user).1, (partition (· = ':') user).2.getD [])

/-- `_hostinfo`: the host and the port, as they stand. -/
def hostPort (netloc : List Char) : List Char × List Char :=
  match partition (· = '[') (afterUser netloc) with
  | (_, some bracketed) =>
    ((partition (· = ']') bracketed).1,
      (partition (· = ':') ((partition (· = ']') bracketed).2.getD [])).2.getD [])
  | (_, none) =>
    ((partition (· = ':') (afterUser netloc)).1,
      (partition (· = ':') (afterUser netloc)).2.getD [])

/-- The check of the brackets in `urlsplit`; `addressOk` is that of an address between them. -/
def bracketsOk (addressOk : List Char → Bool) (netloc : List Char) : Bool :=
  if netloc.contains '[' && netloc.contains ']' then
    match partition (· = '[') (afterUser netloc) with
    | (before, some bracketed) =>
      let rest := (partition (· = ']') bracketed).2.getD []
      before.isEmpty && (rest.isEmpty || rest.head? = some ':') &&
        addressOk (partition (· = ']') bracketed).1
    | (_, none) => addressOk (partition (· = ':') (afterUser netloc)).1
  else !netloc.contains '[' && !netloc.contains ']'

/-- A text of digits up to 65535; `none` where the source raises. -/
def readPort (text : List Char) : Option Nat :=
  if text.all Char.isDigit ∧ Nat.ofDigitChars 10 text 0 ≤ 65535 then
    some (Nat.ofDigitChars 10 text 0)
  else none

variable {l rest x y : List Char} {p : Char → Bool} {n : Nat}

theorem partition_fst_sublist : (partition p l).1 <+: l := by
  unfold partition
  split
  · exact List.prefix_refl l
  · exact List.takeWhile_prefix _

theorem mem_of_mem_partition_snd {c : Char} (h : c ∈ (partition p l).2.getD []) : c ∈ l := by
  unfold partition at h
  split at h
  · exact absurd h List.not_mem_nil
  · rename_i d tail hdrop
    have hmem : c ∈ l.dropWhile fun c => !p c := hdrop ▸ List.mem_cons_of_mem d h
    exact (List.dropWhile_sublist _).subset hmem

theorem partition_none (h : (partition p l).2 = none) : ∀ c ∈ l, p c = false := by
  unfold partition at h
  split at h
  · rename_i hdrop
    intro c hc
    simpa using List.dropWhile_eq_nil_iff.mp hdrop c hc
  · cases h

theorem partition_some (h : partition p l = (x, some y)) : ∃ c, p c = true ∧ l = x ++ c :: y := by
  unfold partition at h
  split at h
  · cases h
  · rename_i c rest hdrop
    cases h
    refine ⟨c, ?_, ?_⟩
    · have hhead := List.head_dropWhile_not (fun c => !p c) (l := l) (by rw [hdrop]; simp)
      simpa [hdrop] using hhead
    · rw [← hdrop]
      exact (List.takeWhile_append_dropWhile).symm

theorem afterUser_of_not_mem (h : '@' ∉ l) : afterUser l = l := by
  have hall : l.reverse.takeWhile (· ≠ '@') = l.reverse :=
    List.takeWhile_eq_self_iff.mpr fun c hc => by
      rw [decide_eq_true_eq]
      rintro rfl
      exact h (List.mem_reverse.mp hc)
  rw [afterUser, hall, List.reverse_reverse]

theorem not_mem_afterUser : '@' ∉ afterUser l := by
  intro h
  have hkept := List.mem_takeWhile_imp (List.mem_reverse.mp h)
  simp at hkept

theorem mem_of_mem_afterUser {c : Char} (h : c ∈ afterUser l) : c ∈ l :=
  List.mem_reverse.mp ((List.takeWhile_prefix _).subset (List.mem_reverse.mp h))

theorem userinfo_of_not_mem (h : '@' ∉ l) : userinfo l = ([], []) := by
  have hnone : l.reverse.dropWhile (· ≠ '@') = [] :=
    List.dropWhile_eq_nil_iff.mpr fun c hc => by
      rw [decide_eq_true_eq]
      rintro rfl
      exact h (List.mem_reverse.mp hc)
  simp only [userinfo, hnone]
  rfl

/-- Whatever the host is made of stands in the network location. -/
theorem mem_of_mem_host {c : Char} (h : c ∈ (hostPort l).1) : c ∈ l ∧ c ≠ '@' := by
  have hinfo : c ∈ afterUser l := by
    unfold hostPort at h
    split at h
    · rename_i _ bracketed hbracket
      refine mem_of_mem_partition_snd (p := (· = '[')) ?_
      rw [hbracket]
      exact partition_fst_sublist.subset h
    · exact partition_fst_sublist.subset h
  refine ⟨mem_of_mem_afterUser hinfo, ?_⟩
  rintro rfl
  exact not_mem_afterUser hinfo

section Plain

variable (hat : '@' ∉ l) (hbracket : '[' ∉ l)

include hat hbracket

theorem hostPort_plain :
    hostPort l = ((partition (· = ':') l).1, (partition (· = ':') l).2.getD []) := by
  have hnone : partition (· = '[') l = (l, none) :=
    partition_of_not_mem fun c hc => by
      rw [decide_eq_false_iff_not]
      rintro rfl
      exact hbracket hc
  rw [hostPort, afterUser_of_not_mem hat, hnone]

theorem hostPort_of_not_mem (hcolon : ':' ∉ l) : hostPort l = (l, []) := by
  rw [hostPort_plain hat hbracket, partition_of_not_mem fun c hc => by
    rw [decide_eq_false_iff_not]
    rintro rfl
    exact hcolon hc]
  rfl

end Plain

theorem hostPort_append (hat : '@' ∉ x ++ ':' :: y) (hbracket : '[' ∉ x ++ ':' :: y)
    (hcolon : ':' ∉ x) : hostPort (x ++ ':' :: y) = (x, y) := by
  rw [hostPort_plain hat hbracket, partition_append (fun c hc => ?_) (by decide)]
  · rfl
  · rw [decide_eq_false_iff_not]
    rintro rfl
    exact hcolon hc

theorem bracketsOk_of_not_mem {addressOk : List Char → Bool} (h : '[' ∉ l) (h' : ']' ∉ l) :
    bracketsOk addressOk l = true := by
  have hopen : l.contains '[' = false := by simpa using h
  have hclose : l.contains ']' = false := by simpa using h'
  rw [bracketsOk, hopen, hclose]
  rfl

theorem readPort_digits (h : n ≤ 65535) : readPort (Nat.toDigits 10 n) = some n := by
  have hdigits : (Nat.toDigits 10 n).all Char.isDigit = true :=
    List.all_eq_true.mpr fun c hc => Nat.isDigit_of_mem_toDigits (by omega) (by omega) hc
  rw [readPort, Nat.ofDigitChars_ten_toDigits, if_pos ⟨hdigits, h⟩]

theorem readPort_some (h : readPort l = some n) : l.all Char.isDigit = true ∧ n ≤ 65535 := by
  unfold readPort at h
  split at h
  · rename_i hport
    cases h
    exact hport
  · cases h

section Split

theorem mem_clean {c : Char} (h : c ∈ clean l) : c ∈ l ∧ c ∉ ['\t', '\r', '\n'] := by
  obtain ⟨hmem, hkept⟩ := List.mem_filter.mp h
  exact ⟨(List.dropWhile_sublist _).subset hmem, of_decide_eq_true hkept⟩

theorem mem_splitScheme {c : Char} (h : c ∈ (splitScheme l).2) : c ∈ l := by
  unfold splitScheme at h
  split at h
  · rename_i d scheme tail hpart
    split at h
    · refine mem_of_mem_partition_snd (p := (· = ':')) ?_
      rw [hpart]
      exact h
    · exact h
  · exact h

theorem splitNetloc_cases (l : List Char) :
    (∃ rest, l = '/' :: '/' :: rest ∧ splitNetloc l =
      (rest.takeWhile fun c => c ∉ ['/', '?', '#'], rest.dropWhile fun c => c ∉ ['/', '?', '#'])) ∨
      splitNetloc l = ([], l) := by
  unfold splitNetloc
  split
  · exact .inl ⟨_, rfl, rfl⟩
  · exact .inr rfl

/-- What stands in a network location ends none and is no line break or tab. -/
theorem mem_netloc {url : String} {c : Char} (h : c ∈ (urlsplit url).netloc) :
    c ∉ ['/', '?', '#'] ∧ c ∉ ['\t', '\r', '\n'] := by
  have hmem : c ∈ (splitNetloc (splitScheme (clean url.toList)).2).1 := h
  obtain ⟨rest, hrest, hsplit⟩ | hsplit := splitNetloc_cases (splitScheme (clean url.toList)).2
  · rw [hsplit] at hmem
    have hkept : decide (c ∉ ['/', '?', '#']) = true :=
      List.mem_takeWhile_imp (p := fun c => decide (c ∉ ['/', '?', '#'])) hmem
    refine ⟨of_decide_eq_true hkept, ?_⟩
    have hin : c ∈ (splitScheme (clean url.toList)).2 := by
      rw [hrest]
      exact List.mem_cons_of_mem _ (List.mem_cons_of_mem _ ((List.takeWhile_prefix _).subset hmem))
    exact (mem_clean (mem_splitScheme hin)).2
  · rw [hsplit] at hmem
    exact absurd hmem List.not_mem_nil

theorem path_comes_first (url : String) :
    (urlsplit url).path <+: (splitNetloc (splitScheme (clean url.toList)).2).2 :=
  partition_fst_sublist.trans partition_fst_sublist

theorem mem_path {url : String} {c : Char} (h : c ∈ (urlsplit url).path) :
    c ∉ ['\t', '\r', '\n'] := by
  have hmem := (path_comes_first url).subset h
  have hin : c ∈ (splitScheme (clean url.toList)).2 := by
    obtain ⟨rest, hrest, hsplit⟩ | hsplit := splitNetloc_cases (splitScheme (clean url.toList)).2
    · rw [hsplit] at hmem
      rw [hrest]
      exact List.mem_cons_of_mem _ (List.mem_cons_of_mem _ ((List.dropWhile_sublist _).subset hmem))
    · rwa [hsplit] at hmem
  exact (mem_clean (mem_splitScheme hin)).2

theorem not_mem_partition_fst {c : Char} (h : c ∈ (partition p l).1) : p c = false := by
  unfold partition at h
  split at h
  · rename_i hdrop
    simpa using List.dropWhile_eq_nil_iff.mp hdrop c h
  · simpa using List.mem_takeWhile_imp h

theorem mem_path_ends {url : String} {c : Char} (h : c ∈ (urlsplit url).path) :
    c ∉ ['?', '#'] := by
  have hquery : decide (c = '?') = false := not_mem_partition_fst (p := (· = '?')) h
  have hfragment : decide (c = '#') = false :=
    not_mem_partition_fst (p := (· = '#')) (partition_fst_sublist.subset h)
  simpa using ⟨of_decide_eq_false hquery, of_decide_eq_false hfragment⟩

/-- After a network location a path begins with a slash. -/
theorem path_head {url : String} (hnetloc : (urlsplit url).netloc ≠ []) :
    (urlsplit url).path = [] ∨ (urlsplit url).path.head? = some '/' := by
  have hprefix := path_comes_first url
  have hne : (splitNetloc (splitScheme (clean url.toList)).2).1 ≠ [] := hnetloc
  obtain ⟨rest, _, hsplit⟩ | hsplit := splitNetloc_cases (splitScheme (clean url.toList)).2
  · rw [hsplit] at hprefix
    cases hpath : (urlsplit url).path with
    | nil => exact .inl rfl
    | cons c tail =>
      refine .inr ?_
      rw [hpath] at hprefix
      obtain ⟨more, hmore⟩ := hprefix
      have hends := List.head?_dropWhile_not (fun c => decide (c ∉ ['/', '?', '#'])) rest
      rw [show rest.dropWhile (fun c => decide (c ∉ ['/', '?', '#'])) = c :: tail ++ more from
        hmore.symm] at hends
      have hmem : c ∈ (urlsplit url).path := by
        rw [hpath]
        exact List.mem_cons_self
      have hc := mem_path_ends hmem
      simp at hends hc ⊢
      grind
  · rw [hsplit] at hne
    exact absurd rfl hne

end Split

end Fairy.Lib.Url
