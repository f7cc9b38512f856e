import Fairy.Assistant.EvidenceFields

namespace Fairy.Assistant

open Fairy.Lib
open PosixPath (names asPosix isAbsolute Plain)

/-- The last name of the path does not end in a blank. -/
def StablePath (value : String) : Prop :=
  ∀ name ∈ (names (Text.strip (slashed value))).getLast?, ∀ c ∈ name.toList.getLast?,
    Text.isSpace c = false

/-- What `_relative_path` asks of a text. -/
structure CanonicalPath (text : String) : Prop where
  nonempty : text ≠ ""
  short : text.toList.length ≤ 1024
  relative : isAbsolute text = false
  here : ¬ ['.', '/'] <+: text.toList
  above : ∀ part ∈ names text, part ≠ ".."

theorem relativePath_ok_iff {value w : String} :
    relativePath value = .ok w ↔
      CanonicalPath (Text.strip (slashed value)) ∧ w = asPosix (names (Text.strip (slashed value))) := by
  unfold relativePath
  generalize Text.strip (slashed value) = text
  simp only [check_bind_ok_iff, not_or, Nat.not_lt, Bool.not_eq_true]
  constructor
  · rintro ⟨⟨hne, hlength, habsolute, hdot, hparts⟩, h⟩
    exact ⟨⟨hne, hlength, habsolute, hdot, fun part hp he => hparts ⟨part, hp, he⟩⟩, (pure_ok h).symm⟩
  · rintro ⟨⟨hne, hlength, habsolute, hdot, hparts⟩, hw⟩
    refine ⟨⟨hne, hlength, habsolute, hdot, fun ⟨part, hp, he⟩ => hparts part hp he⟩, ?_⟩
    rw [hw]
    rfl

section Slashed

variable {value w : String}

theorem not_mem_slashed : '\\' ∉ (slashed value).toList := by
  rw [slashed, String.toList_ofList]
  intro h
  obtain ⟨c, _, hc⟩ := List.mem_map.mp h
  split at hc
  · cases hc
  · rename_i hne
    exact hne hc

theorem slashed_eq_self (h : '\\' ∉ w.toList) : slashed w = w := by
  have hmap : w.toList.map (fun c => if c = '\\' then '/' else c) = w.toList := by
    refine (List.map_congr_left fun c hc => ?_).trans (List.map_id w.toList)
    refine if_neg fun he => h ?_
    rwa [he] at hc
  rw [slashed, hmap, String.ofList_toList]

theorem mem_stripChars {c : Char} {l : List Char} (h : c ∈ Text.stripChars l) : c ∈ l := by
  rw [Text.stripChars, List.mem_reverse] at h
  have h := (List.dropWhile_sublist _).subset h
  exact (List.dropWhile_sublist _).subset (List.mem_reverse.mp h)

end Slashed

section Names

variable {text : String}

/-- A relative text that does not begin with the directory itself begins with its first name. -/
theorem head_asPosix_names (hne : names text ≠ []) (habsolute : isAbsolute text = false)
    (hdot : ¬ ['.', '/'] <+: text.toList) : (asPosix (names text)).toList.head? = text.toList.head? := by
  obtain ⟨first, rest, hsplit⟩ := List.exists_cons_of_ne_nil (List.splitOn_ne_nil '/' text.toList)
  have htext : ['/'].intercalate (first :: rest) = text.toList := by
    rw [← hsplit]
    exact List.intercalate_splitOn '/'
  have hempty : text.toList ≠ [] := by
    intro hnil
    refine hne ?_
    rw [names, hnil]
    decide +kernel
  have hnonempty : first ≠ [] := by
    rintro rfl
    cases rest with
    | nil => exact hempty htext.symm
    | cons second rest =>
      rw [List.intercalate_cons_cons] at htext
      rw [isAbsolute, ← htext] at habsolute
      cases habsolute
  have hhere : first ≠ ['.'] := by
    rintro rfl
    cases rest with
    | nil =>
      rw [List.intercalate_singleton] at htext
      refine hne ?_
      rw [names, ← htext]
      decide +kernel
    | cons second rest =>
      rw [List.intercalate_cons_cons] at htext
      exact hdot ⟨_, htext⟩
  have hkept : names text = String.ofList first ::
      (rest.map String.ofList).filter fun name => name ≠ "" ∧ name ≠ "." := by
    rw [names, hsplit, List.map_cons, List.filter_cons_of_pos]
    refine decide_eq_true ⟨fun he => hnonempty ?_, fun he => hhere ?_⟩
    · exact String.ofList_injective he
    · exact String.ofList_injective he
  rw [PosixPath.toList_asPosix hne, ← htext, Text.head?_intercalate hnonempty, hkept, List.map_cons,
    Text.head?_intercalate (by rw [String.toList_ofList]; exact hnonempty), String.toList_ofList]

end Names

/-- `_relative_path` accepts its own output and leaves it as it is just for a stable path. -/
theorem relativePath_idem_iff {value w : String} (h : relativePath value = .ok w) :
    relativePath w = .ok w ↔ StablePath value := by
  obtain ⟨⟨hne, hlength, habsolute, hdot, hparts⟩, hw⟩ := relativePath_ok_iff.mp h
  have hslash : '\\' ∉ (Text.strip (slashed value)).toList := by
    rw [Text.strip, String.toList_ofList]
    exact fun hmem => not_mem_slashed (mem_stripChars hmem)
  have hstart : ∀ c ∈ (Text.strip (slashed value)).toList.head?, Text.isSpace c = false := by
    rw [Text.strip, String.toList_ofList]
    exact Text.head_stripChars
  rw [StablePath]
  generalize Text.strip (slashed value) = text at *
  have hplain : ∀ name ∈ names text, Plain name := fun name hname =>
    PosixPath.plain_of_mem_names hname (hparts name hname)
  by_cases hnil : names text = []
  · rw [hnil] at hw
    rw [hnil, hw]
    exact iff_of_true (by decide +kernel) fun _ hname => by cases hname
  have hwlist : w.toList = ['/'].intercalate ((names text).map String.toList) := by
    rw [hw, PosixPath.toList_asPosix hnil]
  have hnonempty : ∀ l ∈ (names text).map String.toList, l ≠ [] := by
    intro l hl he
    obtain ⟨name, hname, rfl⟩ := List.mem_map.mp hl
    exact (hplain name hname).nonempty (String.toList_injective he)
  have hlast : w.toList.getLast? = (names text).getLast?.bind fun name => name.toList.getLast? := by
    rw [hwlist, Text.getLast?_intercalate hnonempty, List.getLast?_map]
    cases (names text).getLast? <;> rfl
  have hwslash : '\\' ∉ w.toList := by
    intro hmem
    rw [hwlist] at hmem
    obtain hc | ⟨l, hl, hc⟩ := Text.mem_intercalate hmem
    · cases hc
    · obtain ⟨name, hname, rfl⟩ := List.mem_map.mp hl
      exact hslash (PosixPath.mem_of_mem_names hname hc)
  have hwhead : w.toList.head? = text.toList.head? := by
    rw [hw]
    exact head_asPosix_names hnil habsolute hdot
  have hwne : w ≠ "" := by
    rintro rfl
    exact hne (String.toList_injective (List.head?_eq_none_iff.mp hwhead.symm))
  have hnames : names w = names text := hw ▸ PosixPath.names_asPosix hplain
  have hstable : (∀ name ∈ (names text).getLast?, ∀ c ∈ name.toList.getLast?,
      Text.isSpace c = false) ↔ Text.rstripChars w.toList = w.toList := by
    rw [Text.rstripChars_eq_self_iff, hlast]
    constructor
    · intro hs c hc
      obtain ⟨name, hname, hc⟩ := Option.bind_eq_some_iff.mp hc
      exact hs name hname c hc
    · intro hs name hname c hc
      exact hs c (Option.bind_eq_some_iff.mpr ⟨name, hname, hc⟩)
  have hstrip : (Text.strip (slashed w)).toList = Text.rstripChars w.toList := by
    rw [slashed_eq_self hwslash, Text.strip, String.toList_ofList]
    cases hl : w.toList with
    | nil => rfl
    | cons c l => exact Text.stripChars_cons (hstart c (by rw [← hwhead, hl]; rfl))
  rw [hstable, relativePath_ok_iff]
  constructor
  · rintro ⟨hcanonical, hsame⟩
    have hshorter := PosixPath.length_asPosix_names hcanonical.nonempty
    rw [← hsame, hstrip] at hshorter
    exact (Text.rstripChars_prefix w.toList).eq_of_length_le hshorter
  · intro hsame
    rw [hsame] at hstrip
    rw [String.toList_injective hstrip, hnames]
    refine ⟨⟨hwne, ?_, ?_, ?_, hnames.symm ▸ hparts⟩, hw⟩
    · refine le_trans ?_ hlength
      rw [hw]
      exact PosixPath.length_asPosix_names hne
    · rw [isAbsolute, hwhead]
      exact habsolute
    · rintro ⟨rest, hrest⟩
      have hsplit := PosixPath.splitOn_asPosix hplain hnil
      rw [← hw, ← hrest] at hsplit
      have hnot : '/' ∉ ['.'] := by decide
      have hfirst : (['.', '/'] ++ rest).splitOn '/' = ['.'] :: rest.splitOn '/' :=
        List.splitOn_append_cons_self_of_not_mem hnot rest
      rw [hfirst] at hsplit
      have hmem : ['.'] ∈ (names text).map String.toList := hsplit ▸ List.mem_cons_self
      obtain ⟨name, hname, he⟩ := List.mem_map.mp hmem
      exact (hplain name hname).here (String.toList_injective he)

end Fairy.Assistant
