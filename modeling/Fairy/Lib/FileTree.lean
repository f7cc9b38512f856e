import Mathlib.Data.Finmap
import Mathlib.Data.List.Infix

namespace Fairy.Lib

universe u v

/-- What stands at a path. -/
inductive Node (β : Type v)
  | file (content : β)
  | directory
  deriving DecidableEq

/-- Why a file system call fails. -/
inductive FileError (α : Type u)
  | alreadyExists (path : List α)
  | notFound (path : List α)
  | isADirectory (path : List α)
  /-- What should be the directory of the path is none. -/
  | noDirectory (path : List α)
  /-- The program itself raises. -/
  | raised (message : String)
  deriving DecidableEq

/-- A tree of files and directories by their paths. An entry other than the root stands
in a directory. -/
structure FileTree (α : Type u) (β : Type v) [DecidableEq α] where
  entries : Finmap fun _ : List α => Node β
  root : entries.lookup [] = some .directory
  nested : ∀ p n, entries.lookup p = some n → p ≠ [] →
    entries.lookup p.dropLast = some .directory

namespace FileTree

variable {α : Type u} {β : Type v} [DecidableEq α] {t u : FileTree α β} {p q : List α} {c : β}

def node (t : FileTree α β) (p : List α) : Option (Node β) := t.entries.lookup p

/-- The contents of the files, by their paths. -/
def files (t : FileTree α β) (p : List α) : Option β :=
  match t.node p with
  | some (.file c) => some c
  | _ => none

def IsDirectory (t : FileTree α β) (p : List α) : Prop := t.node p = some .directory

instance [DecidableEq β] (t : FileTree α β) : DecidablePred t.IsDirectory :=
  fun _ => inferInstanceAs (Decidable (_ = _))

/-- The tree without a file. -/
def empty : FileTree α β where
  entries := Finmap.singleton [] .directory
  root := Finmap.lookup_singleton_eq
  nested p n h hp := by
    have hm := Finmap.mem_of_lookup_eq_some h
    exact absurd ((Finmap.mem_singleton _ _ _).mp hm) hp

theorem isDirectory_root (t : FileTree α β) : t.IsDirectory [] := t.root

theorem isDirectory_dropLast {n : Node β} (h : t.node p = some n) : t.IsDirectory p.dropLast := by
  by_cases hp : p = []
  · subst hp
    exact t.root
  · exact t.nested p n h hp

theorem files_eq_some : t.files p = some c ↔ t.node p = some (.file c) := by
  unfold files
  cases h : t.node p with
  | none => simp
  | some n => cases n <;> simp

theorem files_eq_none : t.files p = none ↔ ∀ c, t.node p ≠ some (.file c) := by
  unfold files
  cases h : t.node p with
  | none => simp
  | some n => cases n <;> simp

theorem IsDirectory.files (h : t.IsDirectory p) : t.files p = none := by
  rw [files_eq_none, h]
  simp

theorem not_isDirectory_of_files (h : t.files p = some c) : ¬ t.IsDirectory p := by
  intro hd
  rw [hd.files] at h
  cases h

theorem files_congr (h : t.node p = u.node p) : t.files p = u.files p := by
  unfold files
  rw [h]

/-- Whatever stands above an entry is a directory. -/
theorem isDirectory_of_prefix {n : Node β} (h : t.node p = some n) (hq : q <+: p) (hne : q ≠ p) :
    t.IsDirectory q := by
  obtain ⟨r, rfl⟩ := hq
  induction r using List.reverseRecOn generalizing n with
  | nil => exact absurd (List.append_nil q).symm hne
  | append_singleton r a ih =>
    have hd : t.IsDirectory (q ++ r) := by
      have hlast := isDirectory_dropLast h
      rwa [← List.append_assoc, List.dropLast_concat] at hlast
    by_cases hr : r = []
    · simpa [hr] using hd
    · exact ih hd (by simpa using hr)

/-- The paths of the directories that an entry needs, from the top down. -/
def ancestors (p : List α) : List (List α) := p.inits.filter fun q => q ≠ [] ∧ q ≠ p

theorem mem_ancestors : q ∈ ancestors p ↔ q <+: p ∧ q ≠ [] ∧ q ≠ p := by
  simp [ancestors]

theorem isDirectory_of_ancestor {n : Node β} (h : t.node p = some n) (hq : q ∈ ancestors p) :
    t.IsDirectory q := by
  obtain ⟨hp, _, hne⟩ := mem_ancestors.mp hq
  exact isDirectory_of_prefix h hp hne

section Calls

variable [DecidableEq β]

/-- `mkdir` of one directory. -/
def mkdir (p : List α) (t : FileTree α β) : Except (FileError α) (FileTree α β) :=
  if hp : t.node p ≠ none then .error (.alreadyExists p)
  else if hd : t.IsDirectory p.dropLast then .ok
    { entries := t.entries.insert p .directory
      root := by
        have hne : [] ≠ p := by
          rintro rfl
          exact hp (by rw [node, t.root]; simp)
        rw [Finmap.lookup_insert_of_ne _ hne]
        exact t.root
      nested := by
        intro q n hq hne
        by_cases hqp : q.dropLast = p
        · rw [hqp, Finmap.lookup_insert]
        rw [Finmap.lookup_insert_of_ne _ hqp]
        by_cases hq' : q = p
        · exact hq' ▸ hd
        · rw [Finmap.lookup_insert_of_ne _ hq'] at hq
          exact t.nested q n hq hne }
  else .error (.noDirectory p)

/-- A staged file is moved to a path, over the file that may stand there. -/
def replace (p : List α) (c : β) (t : FileTree α β) : Except (FileError α) (FileTree α β) :=
  if hp : t.IsDirectory p then .error (.isADirectory p)
  else if hd : t.IsDirectory p.dropLast then .ok
    { entries := t.entries.insert p (.file c)
      root := by
        have hne : [] ≠ p := by
          rintro rfl
          exact hp t.root
        rw [Finmap.lookup_insert_of_ne _ hne]
        exact t.root
      nested := by
        intro q n hq hne
        have hold : t.IsDirectory q.dropLast := by
          by_cases hq' : q = p
          · exact hq' ▸ hd
          · rw [Finmap.lookup_insert_of_ne _ hq'] at hq
            exact t.nested q n hq hne
        have hqp : q.dropLast ≠ p := fun he => hp (he ▸ hold)
        rw [Finmap.lookup_insert_of_ne _ hqp]
        exact hold }
  else .error (.noDirectory p)

/-- The file at a path is removed. -/
def unlink (p : List α) (t : FileTree α β) : Except (FileError α) (FileTree α β) :=
  if t.node p = none then .error (.notFound p)
  else if hp : t.IsDirectory p then .error (.isADirectory p)
  else .ok
    { entries := t.entries.erase p
      root := by
        have hne : [] ≠ p := by
          rintro rfl
          exact hp t.root
        rw [Finmap.lookup_erase_ne hne]
        exact t.root
      nested := by
        intro q n hq hne
        have hq' : q ≠ p := by
          rintro rfl
          rw [Finmap.lookup_erase] at hq
          cases hq
        rw [Finmap.lookup_erase_ne hq'] at hq
        have hold : t.IsDirectory q.dropLast := t.nested q n hq hne
        have hqp : q.dropLast ≠ p := fun he => hp (he ▸ hold)
        rw [Finmap.lookup_erase_ne hqp]
        exact hold }

theorem mkdir_ok (h : t.mkdir p = .ok u) :
    t.node p = none ∧ ∀ q, u.node q = if q = p then some .directory else t.node q := by
  unfold mkdir at h
  split at h
  · cases h
  rename_i hp
  split at h
  · cases h
    refine ⟨not_not.mp hp, fun q => ?_⟩
    by_cases hq : q = p
    · subst hq
      simp [node]
    · simp [node, hq]
  · cases h

theorem replace_ok (h : t.replace p c = .ok u) :
    ¬ t.IsDirectory p ∧ ∀ q, u.node q = if q = p then some (.file c) else t.node q := by
  unfold replace at h
  split at h
  · cases h
  rename_i hp
  split at h
  · cases h
    refine ⟨hp, fun q => ?_⟩
    by_cases hq : q = p
    · subst hq
      simp [node]
    · simp [node, hq]
  · cases h

theorem unlink_ok (h : t.unlink p = .ok u) :
    ¬ t.IsDirectory p ∧ ∀ q, u.node q = if q = p then none else t.node q := by
  unfold unlink at h
  split at h
  · cases h
  split at h
  · cases h
  rename_i hp
  cases h
  refine ⟨hp, fun q => ?_⟩
  by_cases hq : q = p
  · subst hq
    simp [node]
  · simp [node, hq, Finmap.lookup_erase_ne hq]

theorem replace_total (c : β) (hp : ¬ t.IsDirectory p) (hd : t.IsDirectory p.dropLast) :
    ∃ u, t.replace p c = .ok u := by
  unfold replace
  rw [dif_neg hp, dif_pos hd]
  exact ⟨_, rfl⟩

theorem unlink_total (hn : t.node p ≠ none) (hp : ¬ t.IsDirectory p) : ∃ u, t.unlink p = .ok u := by
  unfold unlink
  rw [if_neg hn, dif_neg hp]
  exact ⟨_, rfl⟩

end Calls

section Trees

/-- A tree from the paths that it has and what stands at them. -/
def ofNode (keys : Finset (List α)) (node : List α → Option (Node β))
    (hkeys : ∀ p, (node p).isSome ↔ p ∈ keys) (hroot : node [] = some .directory)
    (hnested : ∀ p n, node p = some n → p ≠ [] → node p.dropLast = some .directory) :
    FileTree α β where
  entries := Finmap.keysLookupEquiv.symm ⟨(keys, node), hkeys⟩
  root := (Finmap.keysLookupEquiv_symm_apply_lookup _ _).trans hroot
  nested := by simpa only [Finmap.keysLookupEquiv_symm_apply_lookup] using hnested

@[simp] theorem node_ofNode {keys : Finset (List α)} {node : List α → Option (Node β)}
    {hkeys : ∀ p, (node p).isSome ↔ p ∈ keys} {hroot : node [] = some .directory}
    {hnested : ∀ p n, node p = some n → p ≠ [] → node p.dropLast = some .directory} :
    (ofNode keys node hkeys hroot hnested).node p = node p :=
  Finmap.keysLookupEquiv_symm_apply_lookup _ _

theorem node_isSome : (t.node p).isSome ↔ p ∈ t.entries.keys := by
  rw [node, Finmap.lookup_isSome, Finmap.mem_keys]

/-- Nothing stands under a path at which nothing stands. -/
theorem node_eq_none_of_prefix (h : t.node p = none) (hq : p <+: q) : t.node q = none := by
  by_cases hne : p = q
  · rwa [← hne]
  · cases hn : t.node q with
    | none => rfl
    | some n =>
      have hd := isDirectory_of_prefix hn hq hne
      rw [IsDirectory, h] at hd
      cases hd

omit [DecidableEq α] in
theorem prefix_dropLast (h : p <+: q) (hne : p ≠ q) : p <+: q.dropLast := by
  obtain ⟨r, rfl⟩ := h
  have hr : r ≠ [] := by
    rintro rfl
    exact hne (List.append_nil p).symm
  rw [List.dropLast_append_of_ne_nil hr]
  exact List.prefix_append _ _

omit [DecidableEq α] in
theorem prefix_of_dropLast (h : p <+: q.dropLast) : p <+: q := h.trans (List.dropLast_prefix q)

/-- What stands at a path and under it is removed. -/
def rmtree (p : List α) (hp : p ≠ []) (t : FileTree α β) : FileTree α β :=
  ofNode (t.entries.keys.filter fun q => ¬ p <+: q) (fun q => if p <+: q then none else t.node q)
    (fun q => by
      by_cases hq : p <+: q
      · simp [hq]
      · simp [hq, node_isSome])
    (by
      rw [if_neg fun h => hp (List.prefix_nil.mp h)]
      exact t.root)
    (fun q n hn hq => by
      by_cases hpq : p <+: q
      · rw [if_pos hpq] at hn
        cases hn
      · rw [if_neg hpq] at hn
        rw [if_neg fun h => hpq (prefix_of_dropLast h)]
        exact t.nested q n hn hq)

@[simp] theorem node_rmtree {hp : p ≠ []} :
    (t.rmtree p hp).node q = if p <+: q then none else t.node q := node_ofNode

/-- What a path holds when what stands at `p` has been moved to the free path `q`. -/
def movedNode (t : FileTree α β) (p q r : List α) : Option (Node β) :=
  if q <+: r then t.node (p ++ r.drop q.length) else if p <+: r then none else t.node r

/-- A directory is moved, with all that stands under it, to a free path. -/
def rename [DecidableEq β] (p q : List α) (t : FileTree α β) : Except (FileError α) (FileTree α β) :=
  if t.node p = none then .error (.notFound p)
  else if hq : t.node q ≠ none then .error (.alreadyExists q)
  else if hpq : p <+: q then .error (.noDirectory q)
  else if hd : t.IsDirectory q.dropLast then .ok <|
    ofNode
      (t.entries.keys.filter (fun r => ¬ p <+: r) ∪
        (t.entries.keys.filter (fun r => p <+: r)).image fun r => q ++ r.drop p.length)
      (t.movedNode p q)
      (fun r => by
        simp only [Finset.mem_union, Finset.mem_filter, Finset.mem_image, ← node_isSome]
        by_cases hqr : q <+: r
        · obtain ⟨x, rfl⟩ := hqr
          have hfree : t.node (q ++ x) = none :=
            node_eq_none_of_prefix (not_not.mp hq) (List.prefix_append q x)
          rw [movedNode, if_pos (List.prefix_append q x), List.drop_left, hfree]
          constructor
          · intro hx
            exact .inr ⟨p ++ x, ⟨hx, List.prefix_append p x⟩, by rw [List.drop_left]⟩
          · rintro (⟨hnone, _⟩ | ⟨_, ⟨hr, y, rfl⟩, he⟩)
            · cases hnone
            · rw [List.drop_left] at he
              rwa [← List.append_cancel_left he]
        · rw [movedNode, if_neg hqr]
          have hother : ¬ ∃ r', ((t.node r').isSome = true ∧ p <+: r') ∧
              q ++ r'.drop p.length = r := by
            rintro ⟨r', _, rfl⟩
            exact hqr (List.prefix_append _ _)
          rw [or_iff_left hother]
          by_cases hpr : p <+: r
          · simp [hpr]
          · simp [hpr])
      (by
        have hne : ¬ q <+: [] := by
          intro h
          rw [List.prefix_nil.mp h] at hq
          exact hq (by rw [node, t.root]; exact Option.some_ne_none _)
        have hne' : ¬ p <+: [] := by
          intro h
          rw [List.prefix_nil.mp h] at hpq
          exact hpq (List.nil_prefix)
        rw [movedNode, if_neg hne, if_neg hne']
        exact t.root)
      (fun r n hn hr => by
        by_cases hqr : q <+: r
        · rw [movedNode, if_pos hqr] at hn
          by_cases he : q = r
          · subst he
            have hnq : ¬ q <+: q.dropLast := fun h => by
              have hlen := h.length_le
              rw [List.length_dropLast] at hlen
              have hpos := List.length_pos_of_ne_nil hr
              omega
            rw [movedNode, if_neg hnq, if_neg fun h => hpq (prefix_of_dropLast h)]
            exact hd
          · obtain ⟨x, rfl⟩ := hqr
            have hx : x ≠ [] := by
              rintro rfl
              exact he (List.append_nil q).symm
            rw [List.drop_left] at hn
            rw [List.dropLast_append_of_ne_nil hx, movedNode, if_pos (List.prefix_append _ _),
              List.drop_left]
            have hlast := t.nested (p ++ x) n hn (by simp [hx])
            rwa [List.dropLast_append_of_ne_nil hx] at hlast
        · rw [movedNode, if_neg hqr] at hn
          by_cases hpr : p <+: r
          · rw [if_pos hpr] at hn
            cases hn
          · rw [if_neg hpr] at hn
            rw [movedNode, if_neg fun h => hqr (prefix_of_dropLast h),
              if_neg fun h => hpr (prefix_of_dropLast h)]
            exact t.nested r n hn hr)
  else .error (.noDirectory q)

theorem rename_ok [DecidableEq β] (h : t.rename p q = .ok u) :
    t.node q = none ∧ ∀ r, u.node r =
      if q <+: r then t.node (p ++ r.drop q.length) else if p <+: r then none else t.node r := by
  unfold rename at h
  split at h
  · cases h
  split at h
  · cases h
  rename_i hq
  split at h
  · cases h
  split at h
  · cases h
    exact ⟨not_not.mp hq, fun r => node_ofNode⟩
  · cases h

end Trees

end FileTree

end Fairy.Lib
