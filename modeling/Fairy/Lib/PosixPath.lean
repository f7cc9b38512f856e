import Fairy.Lib.FileTree
import Fairy.Lib.Words

namespace Fairy.Lib.PosixPath

/-- The names of a text, without the empty ones and those of the directory itself. -/
def names (text : String) : List String :=
  ((text.toList.splitOn '/').map String.ofList).filter fun name => name ≠ "" ∧ name ≠ "."

def isAbsolute (text : String) : Bool := text.toList.head? = some '/'

/-- The text of a relative path. -/
def asPosix (names : List String) : String :=
  if names = [] then "." else String.ofList (['/'].intercalate (names.map String.toList))

/-- A text joined to a path: an absolute one takes its place. -/
def join (path : List String) (text : String) : List String :=
  if isAbsolute text then names text else path ++ names text

/-- A text that is one name, and not that of the directory above. -/
structure Plain (name : String) : Prop where
  nonempty : name ≠ ""
  here : name ≠ "."
  above : name ≠ ".."
  whole : '/' ∉ name.toList

instance : DecidablePred Plain := fun name =>
  decidable_of_iff (name ≠ "" ∧ name ≠ "." ∧ name ≠ ".." ∧ '/' ∉ name.toList)
    ⟨fun ⟨a, b, c, d⟩ => ⟨a, b, c, d⟩, fun ⟨a, b, c, d⟩ => ⟨a, b, c, d⟩⟩

def step (path : List String) (name : String) : List String :=
  if name = ".." then path.dropLast else path ++ [name]

/-- Where a path leads to when all of it stands. -/
def settle (path : List String) : List String := path.foldl step []

variable {name text : String} {path rest p : List String}

theorem names_of_plain (h : Plain name) : names name = [name] := by
  have hsplit : name.toList.splitOn '/' = [name.toList] := List.splitOn_eq_singleton h.whole
  rw [names, hsplit, List.map_singleton, String.ofList_toList, List.filter_singleton]
  simp [h.nonempty, h.here]

theorem not_isAbsolute_of_plain (h : Plain name) : isAbsolute name = false := by
  rw [isAbsolute, decide_eq_false_iff_not]
  intro hhead
  exact h.whole (List.mem_of_head? hhead)

theorem join_of_plain (h : Plain name) : join path name = path ++ [name] := by
  rw [join, not_isAbsolute_of_plain h, names_of_plain h]
  rfl

theorem not_mem_of_mem_splitOn {c : Char} {l part : List Char} (h : part ∈ l.splitOn c) :
    c ∉ part := by
  intro hc
  rw [List.splitOn_eq_splitOnP] at h
  simpa using Text.separator_free h c hc

theorem plain_of_mem_names (h : name ∈ names text) (habove : name ≠ "..") : Plain name := by
  rw [names, List.mem_filter, List.mem_map] at h
  obtain ⟨⟨part, hpart, rfl⟩, hname⟩ := h
  rw [decide_eq_true_eq] at hname
  refine ⟨hname.1, hname.2, habove, ?_⟩
  rw [String.toList_ofList]
  exact fun hslash => not_mem_of_mem_splitOn hpart hslash

theorem split_join (text : String) :
    ['/'].intercalate (text.toList.splitOn '/') = text.toList := List.intercalate_splitOn '/'

theorem toList_asPosix {parts : List String} (hne : parts ≠ []) :
    (asPosix parts).toList = ['/'].intercalate (parts.map String.toList) := by
  rw [asPosix, if_neg hne, String.toList_ofList]

theorem splitOn_asPosix {parts : List String} (h : ∀ name ∈ parts, Plain name) (hne : parts ≠ []) :
    (asPosix parts).toList.splitOn '/' = parts.map String.toList := by
  rw [toList_asPosix hne]
  refine List.splitOn_intercalate '/' (fun l hl => ?_) (by simpa using hne)
  obtain ⟨name, hname, rfl⟩ := List.mem_map.mp hl
  exact (h name hname).whole

theorem names_asPosix {parts : List String} (h : ∀ name ∈ parts, Plain name) :
    names (asPosix parts) = parts := by
  by_cases hne : parts = []
  · rw [hne]
    decide +kernel
  · rw [names, splitOn_asPosix h hne, List.map_map]
    have hid : String.ofList ∘ String.toList = id := by
      funext name
      exact String.ofList_toList
    rw [hid, List.map_id, List.filter_eq_self]
    intro name hname
    exact decide_eq_true ⟨(h name hname).nonempty, (h name hname).here⟩

/-- Writing down the names of a text makes it no longer. -/
theorem length_asPosix_names (hne : text ≠ "") :
    (asPosix (names text)).toList.length ≤ text.toList.length := by
  by_cases hnil : names text = []
  · have hpos : text.toList ≠ [] := fun h => hne (String.toList_injective h)
    rw [hnil]
    exact List.length_pos_iff.mpr hpos
  · rw [toList_asPosix hnil, names]
    conv_rhs => rw [← split_join text]
    refine Text.length_intercalate_le ?_
    have hsub := (List.filter_sublist (l := (text.toList.splitOn '/').map String.ofList)
      (p := fun name => decide (name ≠ "" ∧ name ≠ "."))).map String.toList
    rwa [List.map_map, show String.toList ∘ String.ofList = id from
      funext fun l => String.toList_ofList, List.map_id] at hsub

theorem mem_of_mem_names {c : Char} (h : name ∈ names text) (hc : c ∈ name.toList) :
    c ∈ text.toList := by
  rw [names, List.mem_filter, List.mem_map] at h
  obtain ⟨⟨part, hpart, rfl⟩, _⟩ := h
  rw [String.toList_ofList] at hc
  rw [← split_join text]
  exact Text.mem_intercalate_of_mem hpart hc

theorem step_of_ne (h : name ≠ "..") : step path name = path ++ [name] := if_neg h

theorem foldl_step (h : ∀ c ∈ rest, c ≠ "..") : rest.foldl step path = path ++ rest := by
  induction rest generalizing path with
  | nil => exact (List.append_nil path).symm
  | cons c rest ih =>
    rw [List.forall_mem_cons] at h
    rw [List.foldl_cons, step_of_ne h.1, ih h.2, List.append_assoc, List.singleton_append]

theorem settle_of_plain (h : ∀ c ∈ path, Plain c) : settle path = path :=
  foldl_step fun c hc => (h c hc).above

/-- What is left of a path are names of it. -/
theorem mem_settle (h : name ∈ settle path) : name ∈ path ∧ name ≠ ".." := by
  have hloop : ∀ l start : List String, (∀ c ∈ start, c ∈ path ∧ c ≠ "..") → (∀ c ∈ l, c ∈ path) →
      ∀ c ∈ l.foldl step start, c ∈ path ∧ c ≠ ".." := by
    intro l
    induction l with
    | nil => exact fun _ hs _ => hs
    | cons d l ih =>
      intro start hs hl
      rw [List.forall_mem_cons] at hl
      refine ih _ (fun c hc => ?_) hl.2
      unfold step at hc
      split at hc
      · exact hs c (List.mem_of_mem_dropLast hc)
      · rename_i hd
        obtain hc | hc := List.mem_append.mp hc
        · exact hs c hc
        · rw [List.mem_singleton.mp hc]
          exact ⟨hl.1, hd⟩
  exact hloop path [] (fun _ hc => absurd hc List.not_mem_nil) (fun _ hc => hc) name h

section Resolve

universe v

variable {β : Type v} {t : FileTree String β}

/-- The path that a call reaches: each name but the last must be that of a directory. -/
def resolve (t : FileTree String β) :
    List String → List String → Except (FileError String) (List String)
  | path, [] => .ok path
  | path, name :: rest =>
    match t.node path with
    | none => .error (.notFound path)
    | some (.file _) => .error (.noDirectory path)
    | some .directory => resolve t (step path name) rest

theorem resolve_ok (h : resolve t path rest = .ok p) : p = rest.foldl step path := by
  induction rest generalizing path with
  | nil =>
    cases h
    rfl
  | cons name rest ih =>
    unfold resolve at h
    split at h
    · cases h
    · cases h
    · exact ih h

theorem resolve_settle (h : resolve t [] path = .ok p) : p = settle path := resolve_ok h

end Resolve

example : names "/a//./b/../c" = ["a", "b", "..", "c"] := by decide +kernel

end Fairy.Lib.PosixPath
