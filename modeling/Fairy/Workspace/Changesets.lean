import Fairy.Workspace.FileTransaction

namespace Fairy.Workspace

open Fairy.Lib

namespace WorkspaceFileMutation

/-- What a mutation makes of the files. -/
def effect (m : WorkspaceFileMutation) (f : Files) : Files :=
  match m.operation with
  | .upsert | .create | .update =>
    match m.content with
    | none => f
    | some content => Function.update f m.path.parts (some content)
  | .delete => Function.update f m.path.parts none
  | .rename =>
    match m.destinationPath with
    | none => f
    | some destination =>
      Function.update (Function.update f destination.parts (f m.path.parts)) m.path.parts none

/-- The content that a mutation overwrites or drops. -/
def dropped (m : WorkspaceFileMutation) (f : Files) : Option Bytes :=
  match m.operation with
  | .rename => m.destinationPath.bind fun destination => f destination.parts
  | _ => f m.path.parts

end WorkspaceFileMutation

section Meaning

variable (sha256 : Bytes → String)

/-- The file at a path has a content with the hash. -/
def Finds (f : Files) (path : WorkspacePath) (hash : String) : Prop :=
  ∃ content, f path.parts = some content ∧ sha256 content = hash

/-- What a mutation requires of the files that it meets. -/
def WorkspaceFileMutation.Precondition (m : WorkspaceFileMutation) (f : Files) : Prop :=
  match m.operation with
  | .create => f m.path.parts = none
  | .upsert => ∀ hash, m.expectedHash = some hash → Finds sha256 f m.path hash
  | .update | .delete => ∃ hash, m.expectedHash = some hash ∧ Finds sha256 f m.path hash
  | .rename => (∃ hash, m.expectedHash = some hash ∧ Finds sha256 f m.path hash) ∧
      ∀ destination, m.destinationPath = some destination → f destination.parts = none

/-- What a mutation overwrites or drops has the hash that it names. An upsert without
a hash names nothing: it asks for whatever it finds to be overwritten. -/
def WorkspaceFileMutation.LosesNothing (m : WorkspaceFileMutation) (f : Files) : Prop :=
  ∀ content, m.dropped f = some content → m.expectedHash = some (sha256 content) ∨
    (m.operation = .upsert ∧ m.expectedHash = none)

/-- The mutations are performed one after the other, each where its precondition holds. -/
def Sequential : List WorkspaceFileMutation → Files → Files → Prop
  | [], f, f' => f' = f
  | m :: ms, f, f' => m.Precondition sha256 f ∧ m.LosesNothing sha256 f ∧
      Sequential ms (m.effect f) f'

/-- What the earlier mutations of a list left at a path: nothing if none of them touched
it, and otherwise the hash of its content, or that it is gone. -/
abbrev Left := List String → Option (Option String)

/-- The path is untouched or gone. -/
def Left.Free (k : Left) (path : WorkspacePath) : Prop :=
  k path.parts = none ∨ k path.parts = some none

/-- What a mutation leaves at its paths. -/
def WorkspaceFileMutation.leaves (m : WorkspaceFileMutation) (k : Left) : Left :=
  match m.operation with
  | .upsert | .create | .update =>
    match m.content with
    | none => k
    | some content => Function.update k m.path.parts (some (some (sha256 content)))
  | .delete => Function.update k m.path.parts (some none)
  | .rename =>
    match m.destinationPath with
    | none => k
    | some destination =>
      Function.update (Function.update k destination.parts (some m.expectedHash))
        m.path.parts (some none)

/-- What the earlier mutations left suits the mutation: where one of them touched its path,
the path is gone for a create, and has the expected hash for the others; where one of
them touched the destination of a rename, it is gone. The local worker checks no hash
of an upsert, so there the first files must have it. -/
def WorkspaceFileMutation.Suits (m : WorkspaceFileMutation) (side : Provisioner) (f₀ : Files)
    (k : Left) : Prop :=
  match m.operation with
  | .create => k.Free m.path
  | .upsert => ∀ hash, m.expectedHash = some hash → k m.path.parts = some (some hash) ∨
      (k m.path.parts = none ∧ (side = .localWorker → Finds sha256 f₀ m.path hash))
  | .update | .delete => k m.path.parts = none ∨ k m.path.parts = some m.expectedHash
  | .rename => (k m.path.parts = none ∨ k m.path.parts = some m.expectedHash) ∧
      ∀ destination, m.destinationPath = some destination → k.Free destination

/-- Each mutation of the list is suited by what the earlier ones left. -/
def Consistent (side : Provisioner) (f₀ : Files) : List WorkspaceFileMutation → Left → Prop
  | [], _ => True
  | m :: ms, k => m.Suits sha256 side f₀ k ∧ Consistent side f₀ ms (m.leaves sha256 k)

end Meaning

section Performed

variable {side : Provisioner} {t u : Tree} {m : WorkspaceFileMutation}
  {ms : List WorkspaceFileMutation}

theorem discard_files {p : List String} (h : (FileCall.discard p).run t = .ok u) :
    u.files = Function.update t.files p none := by
  have hp : u.files p = none := by
    simp only [FileCall.run] at h
    split at h
    · rename_i hn
      cases h
      rw [FileTree.files_eq_none, hn]
      simp
    · rw [FileTree.files_eq_none, (FileTree.unlink_ok h).2, if_pos rfl]
      simp
  funext q
  by_cases hq : q = p
  · rw [hq, Function.update_self, hp]
  · rw [Function.update_of_ne hq]
    exact FileCall.run_files h fun he => hq (Option.some.inj he).symm

theorem unlink_files {p : List String} (h : (FileCall.unlink p).run t = .ok u) :
    u.files = Function.update t.files p none := by
  funext q
  by_cases hq : q = p
  · rw [hq, Function.update_self, FileTree.files_eq_none, (FileTree.unlink_ok h).2, if_pos rfl]
    simp
  · rw [Function.update_of_ne hq]
    exact FileCall.run_files h fun he => hq (Option.some.inj he).symm

theorem copy_files {source p : List String} (h : (FileCall.copy source p).run t = .ok u) :
    u.files = Function.update t.files p (t.files source) := by
  funext q
  by_cases hq : q = p
  · simp only [FileCall.run] at h
    split at h
    · cases h
    · rename_i c hc
      rw [hq, Function.update_self, hc, FileTree.files_eq_some, (FileTree.replace_ok h).2,
        if_pos rfl]
  · rw [Function.update_of_ne hq]
    exact FileCall.run_files h fun he => hq (Option.some.inj he).symm

theorem move_files {r : List String → FileCall String Bytes} {source destination : WorkspacePath}
    (hr : ∀ t u : Tree, (r source.parts).run t = .ok u →
      u.files = Function.update t.files source.parts none)
    (h : FileCall.runAll t (WorkspaceFileMutation.makeParents destination ++
      [.copy source.parts destination.parts, r source.parts]) = .ok u) :
    u.files = Function.update (Function.update t.files destination.parts (t.files source.parts))
      source.parts none := by
  obtain ⟨v, hv, h⟩ := FileCall.runAll_append_ok h
  obtain ⟨w, hw, h⟩ := FileCall.runAll_cons_ok h
  obtain ⟨x, hx, h⟩ := FileCall.runAll_cons_ok h
  cases h
  rw [hr w u hx, copy_files hw, FileCall.runAll_ensureDirectory_files hv]

theorem write_files (hop : m.operation = .upsert ∨ m.operation = .create ∨ m.operation = .update)
    (h : FileCall.runAll t (m.writeCalls side) = .ok u) : u.files = m.effect t.files := by
  have heffect : ∀ content, m.content = some content →
      m.effect t.files = Function.update t.files m.path.parts (some content) := by
    intro content hc
    obtain hop | hop | hop := hop <;> simp [WorkspaceFileMutation.effect, hop, hc]
  cases side with
  | filesystem =>
    simp only [WorkspaceFileMutation.writeCalls] at h
    split at h
    · cases h
    · rename_i content hc
      split at h
      · cases h
      · rw [heffect content hc, FileCall.runAll_write_files h]
  | localWorker =>
    simp only [WorkspaceFileMutation.writeCalls] at h
    split at h
    · cases h
    · rename_i content hc
      rw [heffect content hc, FileCall.runAll_write_files h]

/-- The calls of a mutation have its effect. -/
theorem calls_files (h : FileCall.runAll t (m.calls side) = .ok u) :
    u.files = m.effect t.files := by
  cases hop : m.operation with
  | upsert => exact write_files (.inl hop) (by simpa [WorkspaceFileMutation.calls, hop] using h)
  | create =>
    exact write_files (.inr (.inl hop)) (by simpa [WorkspaceFileMutation.calls, hop] using h)
  | update =>
    exact write_files (.inr (.inr hop)) (by simpa [WorkspaceFileMutation.calls, hop] using h)
  | delete =>
    cases side with
    | filesystem =>
      simp only [WorkspaceFileMutation.calls, hop] at h
      obtain ⟨v, hv, h⟩ := FileCall.runAll_cons_ok h
      cases h
      simp [WorkspaceFileMutation.effect, hop, discard_files hv]
    | localWorker =>
      simp only [WorkspaceFileMutation.calls, hop] at h
      obtain ⟨v, hv, h⟩ := FileCall.runAll_cons_ok h
      cases h
      simp [WorkspaceFileMutation.effect, hop, unlink_files hv]
  | rename =>
    cases side with
    | filesystem =>
      simp only [WorkspaceFileMutation.calls, hop] at h
      split at h
      · cases h
      rename_i destination hd
      obtain ⟨v, hv, hrest⟩ := FileCall.runAll_cons_ok h
      simp only [FileCall.run] at hv
      split at hv
      · cases hv
      cases hv
      simp only [WorkspaceFileMutation.effect, hop, hd]
      exact move_files (r := .discard) (fun _ _ => discard_files) hrest
    | localWorker =>
      simp only [WorkspaceFileMutation.calls, hop] at h
      split at h
      · cases h
      rename_i destination hd
      simp only [WorkspaceFileMutation.effect, hop, hd]
      exact move_files (r := .unlink) (fun _ _ => unlink_files) h

/-- The calls of a changeset have the effects of its mutations, one after the other. -/
theorem changesetCalls_files (h : FileCall.runAll t (changesetCalls side ms) = .ok u) :
    u.files = ms.foldl (fun f m => m.effect f) t.files := by
  induction ms generalizing t with
  | nil =>
    cases h
    rfl
  | cons m ms ih =>
    obtain ⟨v, hv, h⟩ := FileCall.runAll_append_ok h
    rw [ih h, calls_files hv]
    rfl

end Performed

section Sequence

variable {sha256 : Bytes → String} {side : Provisioner} {t : Tree} {m : WorkspaceFileMutation}
  {ms : List WorkspaceFileMutation} {f f' f₀ : Files} {k : Left}

theorem Sequential.result (h : Sequential sha256 ms f f') :
    f' = ms.foldl (fun f m => m.effect f) f := by
  induction ms generalizing f with
  | nil => exact h
  | cons m ms ih => exact ih h.2.2

theorem requireHash_ok {path : WorkspacePath} {expected : Option String}
    (h : WorkspaceFileMutation.requireHash sha256 path.text (f path.parts) expected = .ok ()) :
    ∃ hash, expected = some hash ∧ Finds sha256 f path hash := by
  unfold WorkspaceFileMutation.requireHash at h
  split at h
  · cases h
  rename_i content hc
  split at h
  · cases h
  rename_i he
  exact ⟨sha256 content, not_not.mp he, content, hc, rfl⟩

theorem matchHash_ok {path : WorkspacePath} {expected : Option String}
    (h : WorkspaceFileMutation.matchHash sha256 path.text (f path.parts) expected = .ok ()) :
    ∃ hash, expected = some hash ∧ Finds sha256 f path hash := by
  unfold WorkspaceFileMutation.matchHash at h
  split at h
  · cases h
  · cases h
  rename_i content hash hc
  split at h
  · cases h
  rename_i he
  exact ⟨hash, rfl, content, hc, not_not.mp he⟩

theorem files_of_free {p : List String} (h : t.node p = none) : t.files p = none := by
  rw [FileTree.files_eq_none, h]
  simp

/-- The checks are the precondition in the first files, but for an upsert of the local
worker. -/
theorem check_ok (h : m.check sha256 t side = .ok ()) :
    (side = .localWorker ∧ m.operation = .upsert) ∨ m.Precondition sha256 t.files := by
  cases side with
  | filesystem =>
    refine .inr ?_
    simp only [WorkspaceFileMutation.check] at h
    split at h
    · cases h
    · cases h
    simp only [WorkspaceFileMutation.validateCurrent] at h
    unfold WorkspaceFileMutation.Precondition
    cases hop : m.operation with
    | create =>
      simp only [hop] at h ⊢
      split at h
      · cases h
      · rename_i hn
        exact not_not.mp hn
    | upsert =>
      simp only [hop] at h ⊢
      intro hash hh
      rw [if_pos (by simp [hh])] at h
      obtain ⟨hash', he, hf⟩ := requireHash_ok h
      rwa [← Option.some.inj (hh.symm.trans he)] at hf
    | update =>
      simp only [hop] at h ⊢
      split at h
      · cases h
      · rename_i hr
        exact requireHash_ok hr
    | delete =>
      simp only [hop] at h ⊢
      split at h
      · cases h
      · rename_i hr
        exact requireHash_ok hr
    | rename =>
      simp only [hop] at h ⊢
      split at h
      · cases h
      rename_i hr
      split at h
      · cases h
      rename_i hfree
      refine ⟨requireHash_ok hr, fun destination hd => files_of_free ?_⟩
      simpa [hd] using hfree
  | localWorker =>
    simp only [WorkspaceFileMutation.check, WorkspaceFileMutation.validateMutation] at h
    unfold WorkspaceFileMutation.Precondition
    cases hop : m.operation with
    | create =>
      refine .inr ?_
      simp only [hop] at h ⊢
      split at h
      · cases h
      · rename_i hn
        exact not_not.mp hn
    | upsert => exact .inl ⟨rfl, rfl⟩
    | update =>
      refine .inr ?_
      simp only [hop] at h ⊢
      exact matchHash_ok h
    | delete =>
      refine .inr ?_
      simp only [hop] at h ⊢
      exact matchHash_ok h
    | rename =>
      refine .inr ?_
      simp only [hop] at h ⊢
      split at h
      · cases h
      · cases h
      rename_i destination hr hd
      split at h
      · cases h
      rename_i hfree
      refine ⟨matchHash_ok hr, fun destination' hd' => files_of_free ?_⟩
      obtain rfl := Option.some.inj (hd.symm.trans hd')
      simpa using hfree

theorem checkChangeset_ok (h : checkChangeset sha256 side t ms = .ok ()) :
    ∀ m ∈ ms, m.check sha256 t side = .ok () := by
  induction ms with
  | nil => exact fun m hm => absurd hm List.not_mem_nil
  | cons m ms ih =>
    simp only [checkChangeset] at h
    split at h
    · cases h
    rename_i hm
    intro x hx
    obtain rfl | hx := List.mem_cons.mp hx
    · exact hm
    · exact ih h x hx

/-- The files are the first ones where nothing was left, and what was left elsewhere. -/
def Tracks (sha256 : Bytes → String) (k : Left) (f₀ f : Files) : Prop :=
  ∀ p, match k p with
    | none => f p = f₀ p
    | some none => f p = none
    | some (some hash) => ∃ content, f p = some content ∧ sha256 content = hash

theorem Tracks.update (h : Tracks sha256 k f₀ f) (p : List String) {x : Option Bytes}
    {y : Option String} (hxy : x.map sha256 = y) :
    Tracks sha256 (Function.update k p (some y)) f₀ (Function.update f p x) := by
  intro q
  by_cases hq : q = p
  · subst hq
    rw [Function.update_self, Function.update_self]
    cases x with
    | none =>
      subst hxy
      rfl
    | some content =>
      subst hxy
      exact ⟨content, rfl, rfl⟩
  · rw [Function.update_of_ne hq, Function.update_of_ne hq]
    exact h q

/-- What a mutation leaves is what it makes of the files, if its precondition holds. -/
theorem Tracks.effect (h : Tracks sha256 k f₀ f) (hm : m.Precondition sha256 f) :
    Tracks sha256 (m.leaves sha256 k) f₀ (m.effect f) := by
  have hwrite : ∀ content : Option Bytes, Tracks sha256
      (match content with
        | none => k
        | some content => Function.update k m.path.parts (some (some (sha256 content)))) f₀
      (match content with
        | none => f
        | some content => Function.update f m.path.parts (some content)) := by
    intro content
    cases content with
    | none => exact h
    | some content => exact h.update m.path.parts rfl
  unfold WorkspaceFileMutation.Precondition at hm
  unfold WorkspaceFileMutation.leaves WorkspaceFileMutation.effect
  cases hop : m.operation with
  | upsert => exact hwrite m.content
  | create => exact hwrite m.content
  | update => exact hwrite m.content
  | delete => exact h.update m.path.parts rfl
  | rename =>
    simp only [hop] at hm ⊢
    obtain ⟨⟨hash, hh, content, hc, hs⟩, _⟩ := hm
    cases m.destinationPath with
    | none => exact h
    | some destination =>
      refine (h.update destination.parts ?_).update m.path.parts rfl
      rw [hc, hh, ← hs]
      rfl

/-- A path is free of a file just when it is left so, if it was in the first files. -/
theorem Tracks.free_iff (h : Tracks sha256 k f₀ f) {path : WorkspacePath}
    (h₀ : f₀ path.parts = none) : f path.parts = none ↔ k.Free path := by
  have hp := h path.parts
  unfold Left.Free
  cases hk : k path.parts with
  | none =>
    rw [hk] at hp
    simp [hp, h₀]
  | some left =>
    rw [hk] at hp
    cases left with
    | none => simp [hp]
    | some hash =>
      obtain ⟨content, hc, _⟩ := hp
      simp [hc]

/-- A file is found just when it is left with the hash or not touched at all. -/
theorem Tracks.finds_iff (h : Tracks sha256 k f₀ f) {path : WorkspacePath} {hash : String} :
    Finds sha256 f path hash ↔ k path.parts = some (some hash) ∨
      (k path.parts = none ∧ Finds sha256 f₀ path hash) := by
  have hp := h path.parts
  unfold Finds
  cases hk : k path.parts with
  | none =>
    rw [hk] at hp
    simp [hp]
  | some left =>
    rw [hk] at hp
    cases left with
    | none => simp [hp]
    | some hash' =>
      obtain ⟨content, hc, rfl⟩ := hp
      simp [hc]

/-- What the first files and the earlier mutations say of a precondition. -/
theorem precondition_iff (h : Tracks sha256 k f₀ f)
    (h₀ : (side = .localWorker ∧ m.operation = .upsert) ∨ m.Precondition sha256 f₀) :
    m.Precondition sha256 f ↔ m.Suits sha256 side f₀ k := by
  have hnamed : (∃ hash, m.expectedHash = some hash ∧ Finds sha256 f₀ m.path hash) →
      ((∃ hash, m.expectedHash = some hash ∧ Finds sha256 f m.path hash) ↔
        k m.path.parts = none ∨ k m.path.parts = some m.expectedHash) := by
    rintro ⟨hash, hh, hf⟩
    simp only [hh, h.finds_iff, Option.some.injEq, exists_eq_left', hf, and_true]
    exact or_comm
  unfold WorkspaceFileMutation.Precondition at h₀ ⊢
  unfold WorkspaceFileMutation.Suits
  cases hop : m.operation with
  | create =>
    simp only [hop, reduceCtorEq, and_false, false_or] at h₀ ⊢
    exact h.free_iff h₀
  | upsert =>
    simp only [hop, and_true] at h₀ ⊢
    refine forall₂_congr fun hash hh => ?_
    rw [h.finds_iff]
    refine or_congr_right (and_congr_right fun _ => ?_)
    obtain rfl | h₀ := h₀
    · simp
    · simp [h₀ hash hh]
  | update =>
    simp only [hop, reduceCtorEq, and_false, false_or] at h₀ ⊢
    exact hnamed h₀
  | delete =>
    simp only [hop, reduceCtorEq, and_false, false_or] at h₀ ⊢
    exact hnamed h₀
  | rename =>
    simp only [hop, reduceCtorEq, and_false, false_or] at h₀ ⊢
    refine and_congr (hnamed h₀.1) (forall₂_congr fun destination hd => ?_)
    exact h.free_iff (h₀.2 destination hd)

/-- A mutation whose precondition holds loses nothing that it does not name. -/
theorem losesNothing (h : m.Precondition sha256 f) : m.LosesNothing sha256 f := by
  intro content hc
  unfold WorkspaceFileMutation.Precondition at h
  unfold WorkspaceFileMutation.dropped at hc
  have hnamed : (∃ hash, m.expectedHash = some hash ∧ Finds sha256 f m.path hash) →
      f m.path.parts = some content → m.expectedHash = some (sha256 content) := by
    rintro ⟨hash, hh, c, hf, hs⟩ hcontent
    obtain rfl := Option.some.inj (hf.symm.trans hcontent)
    rw [hh, hs]
  cases hop : m.operation with
  | create =>
    simp only [hop] at h hc
    rw [h] at hc
    cases hc
  | upsert =>
    simp only [hop] at h hc
    cases he : m.expectedHash with
    | none => exact .inr ⟨rfl, rfl⟩
    | some hash =>
      refine .inl ?_
      rw [← he]
      exact hnamed ⟨hash, he, h hash he⟩ hc
  | update =>
    simp only [hop] at h hc
    exact .inl (hnamed h hc)
  | delete =>
    simp only [hop] at h hc
    exact .inl (hnamed h hc)
  | rename =>
    simp only [hop] at h hc
    obtain ⟨destination, hd, hcontent⟩ := Option.bind_eq_some_iff.mp hc
    rw [h.2 destination hd] at hcontent
    cases hcontent

theorem sequential_iff (h : Tracks sha256 k f₀ f) (h₀ : ∀ m ∈ ms,
    (side = .localWorker ∧ m.operation = .upsert) ∨ m.Precondition sha256 f₀) :
    Sequential sha256 ms f (ms.foldl (fun f m => m.effect f) f) ↔
      Consistent sha256 side f₀ ms k := by
  induction ms generalizing f k with
  | nil => exact ⟨fun _ => trivial, fun _ => rfl⟩
  | cons m ms ih =>
    have hm : m.Precondition sha256 f ↔ m.Suits sha256 side f₀ k :=
      precondition_iff h (h₀ m List.mem_cons_self)
    have hms : ∀ x ∈ ms, _ := fun x hx => h₀ x (List.mem_cons_of_mem _ hx)
    constructor
    · rintro ⟨hp, _, hrest⟩
      exact ⟨hm.mp hp, (ih (h.effect hp) hms).mp hrest⟩
    · rintro ⟨hs, hrest⟩
      have hp := hm.mpr hs
      exact ⟨hp, losesNothing hp, (ih (h.effect hp) hms).mpr hrest⟩

theorem applyChangeset_ok {v : VersionStore}
    (h : VersionStore.applyChangeset sha256 side ⟨t, none⟩ ms = .ok v) :
    checkChangeset sha256 side t ms = .ok () ∧
      FileCall.runAll t (changesetCalls side ms) = .ok v.tree := by
  simp only [VersionStore.applyChangeset, VersionStore.recover] at h
  split at h
  · cases h
  · cases h
  rename_i hcheck _
  split at h
  · cases h
  · rename_i hrun
    cases h
    exact ⟨hcheck, hrun⟩

/-- A changeset that is applied means its mutations one after the other just when each is
suited by what the earlier ones left. -/
theorem changeset_sequential_iff {v : VersionStore}
    (h : VersionStore.applyChangeset sha256 side ⟨t, none⟩ ms = .ok v) :
    Sequential sha256 ms t.files v.tree.files ↔
      Consistent sha256 side t.files ms fun _ => none := by
  obtain ⟨hcheck, hrun⟩ := applyChangeset_ok h
  rw [changesetCalls_files hrun]
  exact sequential_iff (fun _ => rfl) fun m hm => check_ok (checkChangeset_ok hcheck m hm)

end Sequence

section Lists

theorem applied_of_isSome {v : VersionStore} {ms : List WorkspaceFileMutation}
    {side : Provisioner}
    (h : (v.applyChangeset knownDigests side ms).toOption.isSome = true) :
    ∃ w, v.applyChangeset knownDigests side ms = .ok w := by
  cases hv : v.applyChangeset knownDigests side ms with
  | error e =>
    rw [hv] at h
    cases h
  | ok w => exact ⟨w, rfl⟩

def fileX : VersionStore := ⟨treeOf [(["a"], [120])], none⟩

/-- A file is moved away and written anew. -/
def movedAnew : List WorkspaceFileMutation :=
  [renameTo pathA pathC [120], upsertOf pathA [121] none]

theorem changeset_sequential_moved :
    ∃ v, fileX.applyChangeset knownDigests .filesystem movedAnew = .ok v ∧
      Sequential knownDigests movedAnew fileX.tree.files v.tree.files := by
  obtain ⟨v, hv⟩ : ∃ v, fileX.applyChangeset knownDigests .filesystem movedAnew = .ok v :=
    applied_of_isSome (by decide +kernel)
  refine ⟨v, hv, (changeset_sequential_iff hv).mpr ⟨⟨.inl rfl, ?_⟩, ?_, trivial⟩⟩
  · intro destination hd
    exact .inl rfl
  · intro hash hh
    cases hh

/-- Two files are renamed to one name. -/
def renamedTogether : List WorkspaceFileMutation :=
  [renameTo pathA pathC [120], renameTo pathB pathC [121]]

def filesXY : VersionStore := ⟨treeOf [(["a"], [120]), (["b"], [121])], none⟩

/-- An upsert whose expected hash is not the one of the file. -/
def staleUpsert : List WorkspaceFileMutation :=
  [upsertOf pathA [121] (some (knownDigests [121]))]

theorem changeset_not_sequential :
    -- the second rename overwrites what the first one has moved
    (∃ v, filesXY.applyChangeset knownDigests .filesystem renamedTogether = .ok v ∧
      ¬ Sequential knownDigests renamedTogether filesXY.tree.files v.tree.files) ∧
    (filesXY.applyChangeset knownDigests .filesystem renamedTogether).toOption.map
        (fun v => [["a"], ["b"], ["c"]].map v.tree.files) = some [none, none, some [121]] ∧
    -- the local worker does not check the hash
    (∃ v, fileX.applyChangeset knownDigests .localWorker staleUpsert = .ok v ∧
      ¬ Sequential knownDigests staleUpsert fileX.tree.files v.tree.files) := by
  refine ⟨?_, by decide +kernel, ?_⟩
  · obtain ⟨v, hv⟩ : ∃ v, filesXY.applyChangeset knownDigests .filesystem renamedTogether = .ok v :=
      applied_of_isSome (by decide +kernel)
    refine ⟨v, hv, ?_⟩
    rintro ⟨_, _, ⟨_, hfree⟩, _⟩
    have hc := hfree pathC rfl
    have hfound : (renameTo pathA pathC [120]).effect filesXY.tree.files pathC.parts =
        some [120] := by
      decide +kernel
    rw [hfound] at hc
    cases hc
  · obtain ⟨v, hv⟩ : ∃ v, fileX.applyChangeset knownDigests .localWorker staleUpsert = .ok v :=
      applied_of_isSome (by decide +kernel)
    refine ⟨v, hv, ?_⟩
    rintro ⟨hp, _⟩
    obtain ⟨content, hc, hs⟩ := hp _ rfl
    have hx : fileX.tree.files pathA.parts = some [120] := by decide +kernel
    obtain rfl := Option.some.inj (hx.symm.trans hc)
    revert hs
    decide +kernel

end Lists

end Fairy.Workspace
