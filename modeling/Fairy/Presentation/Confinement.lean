import Fairy.Presentation.Packs
import Fairy.Lib.Fallible

namespace Fairy.Presentation

open Fairy.Lib
open PosixPath (Plain)

section Tree

variable {β : Type} {t u : PackTree β} {path above d st : List String} {c : β}
  {fails : Nat → Bool} {P : PackDisk β → Prop}

/-- A call keeps what it keeps of the tree when it succeeds. -/
theorem keeps_call {Q : PackTree β → Prop} {f : PackTree β → Except (FileError String) (PackTree β)}
    (h : ∀ t u, Q t → f t = .ok u → Q u) : Keeps (fun s => Q s.tree) (call fails f) := by
  intro s hs
  rw [call, exec_effect]
  split
  · exact hs
  · split
    · rename_i tree htree
      exact h _ _ hs htree
    · exact hs

theorem ends_call {Q R E : PackTree β → Prop}
    {f : PackTree β → Except (FileError String) (PackTree β)}
    (h : ∀ t u, Q t → f t = .ok u → R u) (hraised : ∀ t, Q t → E t) :
    Ends (fun s => Q s.tree) (call fails f) (fun _ s => R s.tree) fun s => E s.tree := by
  intro s hs
  rw [call, exec_effect]
  split
  · refine ⟨fun _ _ he => (by cases he), fun _ _ he => ?_⟩
    cases he
    exact hraised _ hs
  · split
    · rename_i tree htree
      refine ⟨fun _ _ he => ?_, fun _ _ he => (by cases he)⟩
      cases he
      exact h _ _ hs htree
    · refine ⟨fun _ _ he => (by cases he), fun _ _ he => ?_⟩
      cases he
      exact hraised _ hs

theorem ends_atPath {Q R E : PackTree β → Prop}
    {f : List String → PackTree β → Except (FileError String) (PackTree β)}
    (h : ∀ t u p, Q t → PosixPath.resolve t [] path = .ok p → f p t = .ok u → R u)
    (hraised : ∀ t, Q t → E t) :
    Ends (fun s => Q s.tree) (atPath fails path f) (fun _ s => R s.tree) fun s => E s.tree := by
  refine ends_call (fun t u ht hu => ?_) hraised
  obtain ⟨p, hp, hu⟩ := bind_ok hu
  exact h t u p ht hp hu

/-- Outside `st` the tree is what it was, but for directories above `above` and itself. -/
def Spares (t₀ : PackTree β) (st above : List String) (t : PackTree β) : Prop :=
  ∀ q, ¬ st <+: q → t.node q = t₀.node q ∨
    t₀.node q = none ∧ t.node q = some .directory ∧ q <+: above

variable {t₀ : PackTree β}

theorem Spares.refl : Spares t₀ st above t₀ := fun _ _ => .inl rfl

/-- What is free outside `st` was free. -/
theorem Spares.free (h : Spares t₀ st above t) {q : List String} (hst : ¬ st <+: q)
    (hq : t.node q = none) : t₀.node q = none := by
  obtain hsame | ⟨hfree, _⟩ := h q hst
  · rw [← hsame, hq]
  · exact hfree

theorem Spares.files (h : Spares t₀ st above t) {q : List String} (hst : ¬ st <+: q) :
    t.files q = t₀.files q := by
  obtain hsame | ⟨hfree, hdir, _⟩ := h q hst
  · exact FileTree.files_congr hsame
  · rw [FileTree.IsDirectory.files hdir, FileTree.files_eq_none.mpr fun c hc => by
      rw [hfree] at hc; cases hc]

/-- What is kept while the content of a pack is laid out in `d`. -/
def Held (t₀ : PackTree β) (st above d : List String) (t : PackTree β) : Prop :=
  Spares t₀ st above t ∧ t.IsDirectory d

theorem resolve_plain (hplain : ∀ name ∈ path, name ≠ "..") {p : List String}
    (h : PosixPath.resolve t [] path = .ok p) : p = path :=
  (PosixPath.resolve_ok h).trans (PosixPath.foldl_step hplain)

theorem keeps_look {f : PackTree β → Bool} : Keeps P (look f) := fun _ hs => hs

variable [DecidableEq β]

theorem held_mkdir (hpath : st <+: path ∨ path <+: above) (h : Held t₀ st above d t)
    (hmkdir : t.mkdir path = .ok u) : Held t₀ st above d u := by
  obtain ⟨hfree, hnode⟩ := FileTree.mkdir_ok hmkdir
  refine ⟨fun q hst => ?_, ?_⟩
  · rw [hnode]
    by_cases hq : q = path
    · subst hq
      rw [if_pos rfl]
      exact .inr ⟨h.1.free hst hfree, rfl, hpath.resolve_left hst⟩
    · rw [if_neg hq]
      exact h.1 q hst
  · have hne : d ≠ path := by
      rintro rfl
      rw [h.2] at hfree
      cases hfree
    rw [FileTree.IsDirectory, hnode, if_neg hne]
    exact h.2

theorem held_replace (hpath : st <+: path) (h : Held t₀ st above d t)
    (hreplace : t.replace path c = .ok u) : Held t₀ st above d u := by
  obtain ⟨hdir, hnode⟩ := FileTree.replace_ok hreplace
  refine ⟨fun q hst => ?_, ?_⟩
  · have hne : q ≠ path := by
      rintro rfl
      exact hst hpath
    rw [hnode, if_neg hne]
    exact h.1 q hst
  · have hne : d ≠ path := by
      rintro rfl
      exact hdir h.2
    rw [FileTree.IsDirectory, hnode, if_neg hne]
    exact h.2

omit [DecidableEq β] in
/-- A call at a path of plain names. -/
theorem held_atPath {f : List String → PackTree β → Except (FileError String) (PackTree β)}
    (hplain : ∀ name ∈ path, name ≠ "..")
    (h : ∀ t u, Held t₀ st above d t → f path t = .ok u → Held t₀ st above d u) :
    Keeps (fun s => Held t₀ st above d s.tree) (atPath fails path f) := by
  refine keeps_call fun t u ht hu => ?_
  obtain ⟨p, hp, hu⟩ := bind_ok hu
  rw [resolve_plain hplain hp] at hu
  exact h t u ht hu

theorem keeps_mkdir (hplain : ∀ name ∈ path, name ≠ "..") (hpath : st <+: path ∨ path <+: above) :
    Keeps (fun s => Held t₀ st above d s.tree) (mkdir fails path : PackProgram β Unit) :=
  held_atPath hplain fun _ _ ht hu => held_mkdir hpath ht hu

theorem keeps_writeBytes (hplain : ∀ name ∈ path, name ≠ "..") (hpath : st <+: path) :
    Keeps (fun s => Held t₀ st above d s.tree) (writeBytes fails path c) :=
  held_atPath hplain fun _ _ ht hu => held_replace hpath ht hu

theorem keeps_writeNew (hplain : ∀ name ∈ path, name ≠ "..") (hpath : st <+: path) :
    Keeps (fun s => Held t₀ st above d s.tree) (writeNew fails path c) := by
  refine held_atPath hplain fun t u ht hu => ?_
  split at hu
  · exact held_replace hpath ht hu
  · cases hu

theorem keeps_existOk {e : PackError} : Keeps P (existOk path e) := by
  refine Keeps.bind keeps_look fun found => ?_
  cases found
  · exact Keeps.throw _
  · exact Keeps.pure _

/-- `mkdir(parents=True)` makes directories above the path and the path. -/
theorem keeps_makedirs {names : List String} (hplain : ∀ name ∈ names, name ≠ "..")
    (hpath : ∀ q, q <+: names.reverse → st <+: q ∨ q <+: above) :
    Keeps (fun s => Held t₀ st above d s.tree) (makedirs fails names : PackProgram β Unit) := by
  induction names with
  | nil => exact Keeps.pure _
  | cons name rest ih =>
    have hrest := ih (fun c hc => hplain c (List.mem_cons_of_mem _ hc)) fun q hq => by
      refine hpath q (hq.trans ?_)
      rw [List.reverse_cons]
      exact List.prefix_append _ _
    have hself : Keeps (fun s => Held t₀ st above d s.tree)
        (mkdir fails (name :: rest).reverse : PackProgram β Unit) :=
      keeps_mkdir (fun c hc => hplain c (List.mem_reverse.mp hc)) (hpath _ (List.prefix_refl _))
    refine Keeps.catching hself fun e => ?_
    split
    · refine hrest.bind fun _ => Keeps.catching hself fun e => ?_
      split
      · exact Keeps.throw _
      · exact keeps_existOk
    · exact keeps_existOk

theorem safeRelative_ok {value : String} {parts : List String} (h : safeRelative value = .ok parts) :
    ∀ name ∈ parts, name ≠ ".." := by
  simp only [safeRelative] at h
  split at h
  · cases h
  · rename_i hsafe
    split at h
    · cases h
    · cases h
      rintro name hname rfl
      exact hsafe (.inr (.inr hname))

section Extract

variable {target : List String} (hplain : ∀ name ∈ target, name ≠ "..") (hst : st <+: target)
  (habove : ∀ q, q <+: st → q = st ∨ q <+: above)

include hplain hst habove

omit hplain in
/-- What stands above a path of the target is the target or above all of it. -/
theorem prefix_target {rest q : List String} (h : q <+: target ++ rest) :
    st <+: q ∨ q <+: above := by
  obtain hq | hq := List.prefix_or_prefix_of_prefix h (hst.trans (List.prefix_append target rest))
  · obtain rfl | hq := habove q hq
    · exact .inl (List.prefix_refl q)
    · exact .inr hq
  · exact .inl hq

theorem keeps_extractMember (total : Nat) (info : ZipInfo β) :
    Keeps (fun s => Held t₀ st above d s.tree) (extractMember fails target total info) := by
  unfold extractMember
  split
  · exact Keeps.throw _
  · rename_i relative hrelative
    have hnames : ∀ name ∈ target ++ relative, name ≠ ".." := fun name hname =>
      (List.mem_append.mp hname).elim (hplain name) (safeRelative_ok hrelative name)
    have hmakedirs : ∀ path, path <+: target ++ relative →
        Keeps (fun s => Held t₀ st above d s.tree) (makedirs fails path.reverse) := by
      intro path hpath
      refine keeps_makedirs (fun name hname => hnames name ?_) fun q hq => ?_
      · exact hpath.subset (List.mem_reverse.mp hname)
      · rw [List.reverse_reverse] at hq
        exact prefix_target hst habove (hq.trans hpath)
    split
    · exact Keeps.throw _
    split
    · exact (hmakedirs _ (List.prefix_refl _)).bind fun _ => Keeps.pure _
    split
    · exact Keeps.throw _
    split
    · exact Keeps.throw _
    split
    · exact Keeps.throw _
    refine (hmakedirs _ (List.dropLast_prefix _)).bind fun _ => ?_
    cases info.data with
    | none => exact Keeps.bind (Keeps.throw _) fun _ => Keeps.pure _
    | some content =>
      exact Keeps.bind (keeps_writeNew hnames (hst.trans (List.prefix_append _ _))) fun _ =>
        Keeps.pure _

theorem keeps_extractPayload (archive : List (ZipInfo β)) :
    Keeps (fun s => Held t₀ st above d s.tree) (extractPayload fails archive target) := by
  unfold extractPayload
  have hloop : Keeps (fun s => Held t₀ st above d s.tree)
      (archive.foldlM (extractMember fails target) 0) :=
    Keeps.foldlM (keeps_extractMember hplain hst habove) archive 0
  split
  · exact Keeps.bind (Keeps.throw _) fun _ => hloop.bind fun _ => Keeps.pure _
  · exact hloop.bind fun _ => Keeps.pure _

end Extract

end Tree

namespace RendererPackInstaller

variable {β Key : Type} {h : RendererPackInstaller β Key} {t u : PackTree β} {id version : String}
  {c : PackCall β}

/-- Where the target of an installation stands. -/
def location (h : RendererPackInstaller β Key) (id version : String) : List String :=
  PosixPath.settle (h.target id version)

theorem target_of_plain (hid : Plain id) (hversion : Plain version) :
    h.target id version = h.root ++ [id, version] := by
  rw [target, PosixPath.join_of_plain hid, PosixPath.join_of_plain hversion, List.append_assoc]
  rfl

theorem location_of_plain (hid : Plain id) (hversion : Plain version) :
    h.location id version = h.root ++ [id, version] := by
  rw [location, target_of_plain hid hversion, PosixPath.settle_of_plain]
  intro name hname
  obtain hname | hname := List.mem_append.mp hname
  · exact h.rootPlain name hname
  · obtain rfl | hname := List.mem_cons.mp hname
    · exact hid
    · rw [List.mem_singleton.mp hname]
      exact hversion

theorem staging_plain (c : PackCall β) : ∀ name ∈ h.staging c.suffix, name ≠ ".." := by
  intro name hname
  obtain hname | hname := List.mem_append.mp hname
  · exact (h.rootPlain name hname).above
  · rw [List.mem_singleton.mp hname]
    intro habove
    have hfirst := congrArg (fun s => s.toList.head?) habove
    simp at hfirst

variable [DecidableEq β] {t₀ : PackTree β}

/-- The content has been moved from the staging directory to a free place. -/
def Moved (t₀ : PackTree β) (st above extracted place : List String) (u : PackTree β) : Prop :=
  ∃ t, Held t₀ st above extracted t ∧ t.node place = none ∧ ∀ r, u.node r =
    if place <+: r then t.node (extracted ++ r.drop place.length)
    else if extracted <+: r then none else t.node r

section Unpack

variable (c : PackCall β)

omit [DecidableEq β] in
theorem above_staging : ∀ q, q <+: h.staging c.suffix →
    q = h.staging c.suffix ∨ q <+: h.root ++ [id] := by
  intro q hq
  obtain hq | hq := List.prefix_concat_iff.mp hq
  · exact .inl hq
  · exact .inr (hq.trans (List.prefix_append _ _))

theorem ends_settleTarget (manifest : RendererPackManifest) (manifestBytes : β)
    (hid : Plain manifest.id) (hversion : Plain manifest.version) :
    Ends (fun s => Held t₀ (h.staging c.suffix) (h.root ++ [manifest.id])
        (h.staging c.suffix ++ ["content"]) s.tree)
      (h.settleTarget c manifest manifestBytes (h.staging c.suffix ++ ["content"]))
      (fun _ s => Spares t₀ (h.staging c.suffix) (h.root ++ [manifest.id]) s.tree ∨
        Moved t₀ (h.staging c.suffix) (h.root ++ [manifest.id]) (h.staging c.suffix ++ ["content"])
          (h.root ++ [manifest.id, manifest.version]) s.tree)
      fun s => Spares t₀ (h.staging c.suffix) (h.root ++ [manifest.id]) s.tree := by
  have htarget := target_of_plain (h := h) hid hversion
  have hparent : (h.target manifest.id manifest.version).dropLast = h.root ++ [manifest.id] := by
    rw [htarget, List.dropLast_append_of_ne_nil (List.cons_ne_nil _ _)]
    rfl
  have hparentPlain : ∀ name ∈ (h.root ++ [manifest.id]).reverse, name ≠ ".." := by
    intro name hname
    obtain hname | hname := List.mem_append.mp (List.mem_reverse.mp hname)
    · exact (h.rootPlain name hname).above
    · exact List.mem_singleton.mp hname ▸ hid.above
  unfold settleTarget
  simp only [hparent]
  refine Ends.bind (Ends.of_keeps (keeps_makedirs hparentPlain fun q hq => .inr ?_)
    fun _ hs => hs.1) fun _ => Ends.bind (Ends.of_keeps keeps_look fun _ hs => hs.1) fun found => ?_
  · rwa [List.reverse_reverse] at hq
  cases found
  · have hmove : Ends (fun s => Held t₀ (h.staging c.suffix) (h.root ++ [manifest.id])
          (h.staging c.suffix ++ ["content"]) s.tree)
        (moveTree c.fails (h.staging c.suffix ++ ["content"])
          (h.target manifest.id manifest.version))
        (fun _ s => Moved t₀ (h.staging c.suffix) (h.root ++ [manifest.id])
          (h.staging c.suffix ++ ["content"]) (h.root ++ [manifest.id, manifest.version]) s.tree)
        fun s => Spares t₀ (h.staging c.suffix) (h.root ++ [manifest.id]) s.tree := by
      refine ends_atPath (fun t u p ht hp hu => ?_) fun _ ht => ht.1
      obtain ⟨q, hq, hu⟩ := bind_ok hu
      rw [htarget] at hp
      rw [resolve_plain (fun name hname => ?_) hp, resolve_plain (fun name hname => ?_) hq] at hu
      · obtain ⟨hfree, hnode⟩ := FileTree.rename_ok hu
        exact ⟨t, ht, hfree, hnode⟩
      · obtain hname | hname := List.mem_append.mp hname
        · exact staging_plain c name hname
        · rw [List.mem_singleton.mp hname]
          decide
      · obtain hname | hname := List.mem_append.mp hname
        · exact (h.rootPlain name hname).above
        · obtain rfl | hname := List.mem_cons.mp hname
          · exact hid.above
          · exact List.mem_singleton.mp hname ▸ hversion.above
    exact Ends.bind hmove fun _ => Ends.pure fun _ hs => .inr hs
  · refine Ends.bind (Ends.of_keeps keeps_look fun _ hs => hs.1) fun same => ?_
    cases same
    · exact Ends.throw fun _ hs => hs.1
    · exact Ends.pure fun _ hs => .inl hs.1

omit [DecidableEq β] in
theorem keeps_checkAuthenticode {P : PackDisk β → Prop} (extracted : List String) :
    Keeps P (h.checkAuthenticode extracted) := by
  intro s hs
  rw [checkAuthenticode, exec_effect]
  split <;> split <;> exact hs

theorem ends_unpack (manifest : RendererPackManifest) (manifestBytes payload : β)
    (hid : Plain manifest.id) (hversion : Plain manifest.version) :
    Ends (fun s => Held t₀ (h.staging c.suffix) (h.root ++ [manifest.id]) (h.staging c.suffix)
        s.tree)
      (h.unpack c manifest manifestBytes payload)
      (fun _ s => Spares t₀ (h.staging c.suffix) (h.root ++ [manifest.id]) s.tree ∨
        Moved t₀ (h.staging c.suffix) (h.root ++ [manifest.id]) (h.staging c.suffix ++ ["content"])
          (h.root ++ [manifest.id, manifest.version]) s.tree)
      fun s => Spares t₀ (h.staging c.suffix) (h.root ++ [manifest.id]) s.tree := by
  have hplain : ∀ name ∈ h.staging c.suffix ++ ["content"], name ≠ ".." := by
    intro name hname
    obtain hname | hname := List.mem_append.mp hname
    · exact staging_plain c name hname
    · rw [List.mem_singleton.mp hname]
      decide
  have hmkdir : Ends (fun s => Held t₀ (h.staging c.suffix) (h.root ++ [manifest.id])
        (h.staging c.suffix) s.tree)
      (mkdir c.fails (h.staging c.suffix ++ ["content"]))
      (fun _ s => Held t₀ (h.staging c.suffix) (h.root ++ [manifest.id])
        (h.staging c.suffix ++ ["content"]) s.tree)
      fun s => Spares t₀ (h.staging c.suffix) (h.root ++ [manifest.id]) s.tree := by
    refine ends_atPath (fun t u p ht hp hu => ?_) fun _ ht => ht.1
    rw [resolve_plain hplain hp] at hu
    refine ⟨(held_mkdir (.inl (List.prefix_append _ _)) ht hu).1, ?_⟩
    rw [FileTree.IsDirectory, (FileTree.mkdir_ok hu).2, if_pos rfl]
  unfold unpack
  refine Ends.bind (Ends.of_keeps (keeps_writeBytes (fun name hname => ?_)
    (List.prefix_append _ _)) fun _ hs => hs.1) fun _ => Ends.bind hmkdir fun _ => ?_
  · obtain hname | hname := List.mem_append.mp hname
    · exact staging_plain c name hname
    · rw [List.mem_singleton.mp hname]
      decide
  cases h.openZip payload with
  | none => exact Ends.throw_bind fun _ hs => hs.1
  | some archive =>
    refine Ends.bind (Ends.of_keeps (keeps_extractPayload hplain (List.prefix_append _ _)
      (above_staging c) archive) fun _ hs => hs.1) fun _ =>
      Ends.bind (Ends.of_keeps keeps_look fun _ hs => hs.1) fun found => ?_
    cases found
    · exact Ends.throw fun _ hs => hs.1
    · refine Ends.bind (Ends.of_keeps (keeps_checkAuthenticode _) fun _ hs => hs.1) fun _ =>
        Ends.bind (Ends.of_keeps (keeps_writeBytes (fun name hname => ?_) ?_) fun _ hs => hs.1)
          fun _ => ends_settleTarget c manifest manifestBytes hid hversion
      · obtain hname | hname := List.mem_append.mp hname
        · exact hplain name hname
        · rw [List.mem_singleton.mp hname]
          decide
      · exact (List.prefix_append _ _).trans (List.prefix_append _ _)

end Unpack

/-- The target is inside the root and apart from that of every other pack. -/
structure Separate (h : RendererPackInstaller β Key) (id version : String) : Prop where
  inside : h.root <+: h.location id version ∧ h.location id version ≠ h.root
  apart : ∀ id' version', Plain id' → Plain version' → (id', version') ≠ (id, version) →
    ¬ h.location id version <+: h.location id' version' ∧
      ¬ h.location id' version' <+: h.location id version

/-- What one installation may do: the files that it leaves stand strictly inside the target, no
other pack is touched and nothing at all when it raises. -/
structure Spared (h : RendererPackInstaller β Key) (id version : String) (t u : PackTree β)
    (r : Except PackError InstalledRendererPack) : Prop where
  files : ∀ p, u.files p ≠ t.files p →
    h.location id version <+: p ∧ p ≠ h.location id version ∧ t.files p = none
  others : ∀ id' version', Plain id' → Plain version' → (id', version') ≠ (id, version) →
    ∀ p, h.location id' version' <+: p → u.node p = t.node p
  raised : ∀ e, r = .error e → u.files = t.files ∧ ∀ id' version', Plain id' → Plain version' →
    ∀ p, h.location id' version' <+: p → u.node p = t.node p

omit [DecidableEq β] in
theorem Spared.of_eq {r : Except PackError InstalledRendererPack} :
    h.Spared id version t t r :=
  ⟨fun _ hp => absurd rfl hp, fun _ _ _ _ _ _ _ => rfl,
    fun _ _ => ⟨rfl, fun _ _ _ _ _ _ => rfl⟩⟩

/-- Every installation of a pack of this id and version is confined. -/
def Confined (h : RendererPackInstaller β Key) (id version : String) : Prop :=
  h.Separate id version ∧ ∀ (c : PackCall β) bundle manifest (t : PackTree β) calls,
    c.bundle = some bundle → h.verified bundle = .ok manifest → manifest.id = id →
      manifest.version = version →
        h.Spared id version t (exec (h.verifyAndInstall c) ⟨t, calls⟩).2.tree
          (exec (h.verifyAndInstall c) ⟨t, calls⟩).1

section Locations

omit [DecidableEq β]

theorem separate_of_plain (hid : Plain id) (hversion : Plain version) : h.Separate id version := by
  refine ⟨?_, fun id' version' hid' hversion' hne => ?_⟩
  · rw [location_of_plain hid hversion]
    refine ⟨List.prefix_append _ _, fun he => ?_⟩
    exact absurd (List.append_right_eq_self.mp he) (List.cons_ne_nil _ _)
  · have hapart : ∀ a b a' b' : String, (a', b') ≠ (a, b) →
        ¬ h.root ++ [a, b] <+: h.root ++ [a', b'] := by
      intro a b a' b' hne hprefix
      have heq := (List.prefix_append_right_inj _).mp hprefix
      have hsame := heq.eq_of_length rfl
      cases hsame
      exact hne rfl
    rw [location_of_plain hid hversion, location_of_plain hid' hversion']
    exact ⟨hapart _ _ _ _ hne, hapart _ _ _ _ hne.symm⟩

/-- Whatever is left of a target is a name. -/
theorem plain_of_mem_location (id version : String) {name : String}
    (hname : name ∈ h.location id version) : Plain name := by
  obtain ⟨hmem, habove⟩ := PosixPath.mem_settle hname
  have hjoin : ∀ path text, (∀ c ∈ path, c ≠ ".." → Plain c) →
      ∀ c ∈ PosixPath.join path text, c ≠ ".." → Plain c := by
    intro path text hpath c hc hne
    unfold PosixPath.join at hc
    split at hc
    · exact PosixPath.plain_of_mem_names hc hne
    · exact (List.mem_append.mp hc).elim (fun hc => hpath c hc hne)
        fun hc => PosixPath.plain_of_mem_names hc hne
  exact hjoin _ _ (hjoin _ _ fun c hc _ => h.rootPlain c hc) name hmem habove

/-- A target that is apart from those of all plain names is made of two plain names. -/
theorem plain_of_separate (hs : h.Separate id version) : Plain id ∧ Plain version := by
  by_contra hnot
  have hother : ∀ id' version', Plain id' → Plain version' → (id', version') ≠ (id, version) := by
    rintro id' version' hid' hversion' he
    cases he
    exact hnot ⟨hid', hversion'⟩
  obtain ⟨⟨rest, hrest⟩, hne⟩ := hs.inside
  have hplain : ∀ name ∈ rest, Plain name := by
    intro name hname
    refine plain_of_mem_location (h := h) id version ?_
    rw [← hrest]
    exact List.mem_append_right _ hname
  have hx : Plain "x" := by decide
  cases rest with
  | nil => exact hne (by rw [← hrest, List.append_nil])
  | cons a rest =>
    have ha := hplain a List.mem_cons_self
    cases rest with
    | nil =>
      refine (hs.apart a "x" ha hx (hother a "x" ha hx)).1 ?_
      rw [← hrest, location_of_plain ha hx]
      exact ⟨["x"], by simp⟩
    | cons b rest =>
      have hb := hplain b (List.mem_cons_of_mem _ List.mem_cons_self)
      refine (hs.apart a b ha hb (hother a b ha hb)).2 ?_
      rw [← hrest, location_of_plain ha hb]
      exact ⟨rest, by simp⟩

end Locations

section Install

variable {st place extracted : List String}

omit [DecidableEq β] in
/-- A pack directory is not above the one of an id. -/
theorem not_prefix_of_location {p : List String} {id' version' : String} (hid' : Plain id')
    (hversion' : Plain version') (hp : h.location id' version' <+: p) :
    ¬ p <+: h.root ++ [id] := by
  intro hprefix
  have hlen := (hp.trans hprefix).length_le
  rw [location_of_plain hid' hversion'] at hlen
  simp at hlen

omit [DecidableEq β] in
/-- The staging directory goes, and nothing else has happened. -/
theorem Spares.spared {r : Except PackError InstalledRendererPack} (hst : st ≠ [])
    (hfresh : ∀ p, st <+: p → t₀.node p = none) (hu : Spares t₀ st (h.root ++ [id]) u) :
    h.Spared id version t₀ (u.rmtree st hst) r := by
  have hnode : ∀ p, (u.rmtree st hst).node p = t₀.node p ∨
      t₀.node p = none ∧ (u.rmtree st hst).node p = some .directory ∧ p <+: h.root ++ [id] := by
    intro p
    rw [FileTree.node_rmtree]
    by_cases hp : st <+: p
    · rw [if_pos hp, hfresh p hp]
      exact .inl rfl
    · rw [if_neg hp]
      exact hu p hp
  have hfiles : (u.rmtree st hst).files = t₀.files := by
    funext p
    obtain hsame | ⟨hfree, hdir, _⟩ := hnode p
    · exact FileTree.files_congr hsame
    · rw [FileTree.IsDirectory.files hdir, FileTree.files_eq_none.mpr fun c hc => by
        rw [hfree] at hc; cases hc]
  have hpacks : ∀ id' version', Plain id' → Plain version' →
      ∀ p, h.location id' version' <+: p → (u.rmtree st hst).node p = t₀.node p := by
    intro id' version' hid' hversion' p hp
    obtain hsame | ⟨_, _, habove⟩ := hnode p
    · exact hsame
    · exact absurd habove (not_prefix_of_location hid' hversion' hp)
  exact ⟨fun p hp => absurd (congrFun hfiles p) hp,
    fun id' version' hid' hversion' _ => hpacks id' version' hid' hversion',
    fun _ _ => ⟨hfiles, hpacks⟩⟩

omit [DecidableEq β] in
/-- The content has taken its place, and the rest of the staging directory goes. -/
theorem Moved.spared {installed : InstalledRendererPack} (hst : st ≠ []) (hid : Plain id)
    (hversion : Plain version) (hextracted : st <+: extracted)
    (hfresh : ∀ p, st <+: p → t₀.node p = none)
    (hu : Moved t₀ st (h.root ++ [id]) extracted (h.root ++ [id, version]) u) :
    h.Spared id version t₀ (u.rmtree st hst) (.ok installed) := by
  obtain ⟨t, ⟨hspares, hdir⟩, hplace, hnode⟩ := hu
  have hlocation := location_of_plain (h := h) hid hversion
  have hout : ∀ p, ¬ h.location id version <+: p → (u.rmtree st hst).node p = t₀.node p ∨
      t₀.node p = none ∧ (u.rmtree st hst).node p = some .directory ∧ p <+: h.root ++ [id] := by
    intro p hp
    rw [FileTree.node_rmtree]
    by_cases hstp : st <+: p
    · rw [if_pos hstp, hfresh p hstp]
      exact .inl rfl
    · rw [if_neg hstp, hnode, if_neg (hlocation ▸ hp),
        if_neg fun hex => hstp (hextracted.trans hex)]
      exact hspares p hstp
  have hfree : ∀ p, h.location id version <+: p → t₀.node p = none := by
    intro p hp
    by_cases hstp : st <+: p
    · exact hfresh p hstp
    · exact hspares.free hstp (FileTree.node_eq_none_of_prefix hplace (hlocation ▸ hp))
  refine ⟨fun p hp => ?_, fun id' version' hid' hversion' hne p hp => ?_, fun e he => by cases he⟩
  · have hnone : ∀ q, t₀.node q = none → t₀.files q = none := fun q hq =>
      FileTree.files_eq_none.mpr fun c hc => by rw [hq] at hc; cases hc
    by_cases hin : h.location id version <+: p
    · refine ⟨hin, ?_, hnone p (hfree p hin)⟩
      rintro rfl
      refine hp ?_
      rw [hnone _ (hfree _ hin), FileTree.files_eq_none]
      intro c
      rw [FileTree.node_rmtree]
      by_cases hstp : st <+: h.location id version
      · rw [if_pos hstp]
        exact fun he => by cases he
      · rw [if_neg hstp, hnode, if_pos (hlocation ▸ List.prefix_refl _), hlocation, List.drop_length,
          List.append_nil, hdir]
        exact fun he => by cases he
    · obtain hsame | ⟨hfree', hdir', _⟩ := hout p hin
      · exact absurd (FileTree.files_congr hsame) hp
      · exact absurd ((FileTree.IsDirectory.files hdir').trans (hnone p hfree').symm) hp
  · have hout' : ¬ h.location id version <+: p := by
      intro hin
      obtain hle | hle := List.prefix_or_prefix_of_prefix hin hp
      · exact ((separate_of_plain hid hversion).apart id' version' hid' hversion' hne).1 hle
      · exact ((separate_of_plain hid hversion).apart id' version' hid' hversion' hne).2 hle
    obtain hsame | ⟨_, _, habove⟩ := hout p hout'
    · exact hsame
    · exact absurd habove (not_prefix_of_location hid' hversion' hp)

/-- An installation of a pack whose id and version are plain names is confined. -/
theorem spared_of_plain (c : PackCall β) {bundle : RendererPackBundle β}
    {manifest : RendererPackManifest} (t : PackTree β) (calls : Nat)
    (hbundle : c.bundle = some bundle) (hverified : h.verified bundle = .ok manifest)
    (hid : Plain manifest.id) (hversion : Plain manifest.version) :
    h.Spared manifest.id manifest.version t (exec (h.verifyAndInstall c) ⟨t, calls⟩).2.tree
      (exec (h.verifyAndInstall c) ⟨t, calls⟩).1 := by
  unfold verifyAndInstall
  split
  · exact Spared.of_eq
  · simp only [hbundle, hverified]
    have hmkdir : Ends (fun s => s.tree = t) (mkdir c.fails (h.staging c.suffix))
        (fun _ s => t.node (h.staging c.suffix) = none ∧
          Held t (h.staging c.suffix) (h.root ++ [manifest.id]) (h.staging c.suffix) s.tree)
        fun s => s.tree = t := by
      refine ends_atPath (Q := (· = t)) (E := (· = t)) (R := fun u =>
        t.node (h.staging c.suffix) = none ∧
          Held t (h.staging c.suffix) (h.root ++ [manifest.id]) (h.staging c.suffix) u)
        (fun v u p hv hp hu => ?_) fun _ hv => hv
      obtain rfl := hv
      rw [resolve_plain (staging_plain c) hp] at hu
      obtain ⟨hfree, hnode⟩ := FileTree.mkdir_ok hu
      refine ⟨hfree, fun q hq => .inl ?_, ?_⟩
      · have hne : q ≠ h.staging c.suffix := by
          rintro rfl
          exact hq (List.prefix_refl _)
        rw [hnode, if_neg hne]
      · rw [FileTree.IsDirectory, hnode, if_pos rfl]
    obtain ⟨hok, herror⟩ := hmkdir ⟨t, calls⟩ rfl
    cases hexec : exec (mkdir c.fails (h.staging c.suffix)) (⟨t, calls⟩ : PackDisk β) with
    | mk result s =>
      cases result with
      | error e =>
        rw [exec_bind_error hexec, herror e s hexec]
        exact Spared.of_eq
      | ok _ =>
        obtain ⟨hfree, hheld⟩ := hok () s hexec
        have hfresh : ∀ p, h.staging c.suffix <+: p → t.node p = none := fun p hp =>
          FileTree.node_eq_none_of_prefix hfree hp
        obtain ⟨hok, herror⟩ := ends_unpack c manifest (bundle.read "manifest.json")
          (bundle.read "payload.zip") hid hversion s hheld
        rw [exec_bind_ok hexec, afterwards, exec_effect]
        cases hunpack : exec (h.unpack c manifest (bundle.read "manifest.json")
            (bundle.read "payload.zip")) s with
        | mk result u =>
          cases result with
          | error e => exact Spares.spared (h.staging_ne_nil _) hfresh (herror e u hunpack)
          | ok installed =>
            obtain hspares | hmoved := hok installed u hunpack
            · exact Spares.spared (h.staging_ne_nil _) hfresh hspares
            · exact Moved.spared (h.staging_ne_nil _) hid hversion (List.prefix_append _ _) hfresh hmoved

end Install

/-- Installations are confined just when the id and the version of the pack are plain names. -/
theorem installation_confined_iff (h : RendererPackInstaller β Key) (id version : String) :
    h.Confined id version ↔ Plain id ∧ Plain version := by
  constructor
  · exact fun hconfined => plain_of_separate hconfined.1
  · rintro ⟨hid, hversion⟩
    refine ⟨separate_of_plain hid hversion, ?_⟩
    rintro c bundle manifest t calls hbundle hverified rfl rfl
    exact spared_of_plain c t calls hbundle hverified hid hversion

section Escape

/-- An installer of packs whose bytes are read as they are. -/
def plainInstaller : RendererPackInstaller Json Unit where
  root := ["srv", "packs"]
  rootPlain := by decide
  trustedKeys := fun _ => some ()
  authenticode := none
  loads := some
  str := fun
    | .str s => s
    | _ => ""
  otherFields := fun _ => .ok ()
  verify := fun _ _ _ => true
  sha256 := fun _ => String.ofList (List.replicate 64 '0')
  openZip := fun _ => some [⟨"run", 0, 1, 0, some (.int 1)⟩]

def digest : Json := .str (String.ofList (List.replicate 64 '0'))

/-- The bundle of a pack with one file. -/
def packOf (id version : String) : RendererPackBundle Json where
  namelist := bundleFiles
  read := fun
    | "metadata.json" =>
      .obj [("key_id", .str "k"), ("manifest_sha256", digest), ("payload_sha256", digest)]
    | "manifest.json" =>
      .obj [("id", .str id), ("version", .str version), ("sandbox", .str "native_restricted"),
        ("entrypoint", .str "run"), ("payload_sha256", digest)]
    | _ => .null

def packCall (id version : String) : PackCall Json :=
  ⟨true, some (packOf id version), "t", by decide, fun _ => false⟩

/-- The root, and nothing in it. -/
def packDisk : PackDisk Json :=
  ⟨(((FileTree.empty : PackTree Json).mkdir ["srv"]).bind
    fun t => t.mkdir ["srv", "packs"]).toOption.getD FileTree.empty, 0⟩

/-- A pack whose id leads out of the root is installed there. -/
theorem parent_pack_escapes :
    (plainInstaller.verified (packOf ".." "x")).map (fun m => (m.id, m.version)) = .ok ("..", "x") ∧
      ¬ plainInstaller.root <+: ["srv", "x", "run"] ∧
      packDisk.tree.files ["srv", "x", "run"] = none ∧
      (exec (plainInstaller.verifyAndInstall (packCall ".." "x")) packDisk).2.tree.files
        ["srv", "x", "run"] = some (.int 1) := by
  decide +kernel

example : (exec (plainInstaller.verifyAndInstall (packCall "a" "1")) packDisk).2.tree.files
    ["srv", "packs", "a", "1", "run"] = some (.int 1) := by decide +kernel

end Escape

end RendererPackInstaller

end Fairy.Presentation
