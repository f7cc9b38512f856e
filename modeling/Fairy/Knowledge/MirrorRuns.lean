import Fairy.Knowledge.Mirrored

namespace Fairy.Knowledge

open Fairy.Lib

/-- The calls that write to the items of a source or to the source itself. -/
inductive KnowledgeAct (x : ContentHashing)
  | saveSource (source : KnowledgeSource)
  | synchronize (source : KnowledgeSource) (entries : List (KnowledgeIngestItem x)) (now : Time)
      (newId : Nat → Uuid) (clock : Nat → Time)

namespace KnowledgeStore

variable {x : ContentHashing} {s t : KnowledgeStore} {source : KnowledgeSource}
  {entries : List (KnowledgeIngestItem x)} {now : Time} {newId : Nat → Uuid} {clock : Nat → Time}
  {delta : KnowledgeSyncDelta} {entry : KnowledgeIngestItem x} {item : KnowledgeItem}

/-- The tables after a call; a call that raises is rolled back. -/
def after (s : KnowledgeStore) : KnowledgeAct x → KnowledgeStore
  | .saveSource source => { s with source := some source }
  | .synchronize source entries now newId clock =>
    match s.synchronize source entries now newId clock with
    | .ok (t, _) => t
    | .error _ => s

/-- The tables that a history of calls can leave behind. -/
def Reachable (x : ContentHashing) (s : KnowledgeStore) : Prop :=
  Run (fun s (act : KnowledgeAct x) t => t = s.after act) (fun _ _ => True) empty s

theorem after_synchronize (h : s.synchronize source entries now newId clock = .ok (t, delta)) :
    s.after (.synchronize source entries now newId clock) = t := by
  rw [after, h]

theorem Sound.after (h : s.Sound) (act : KnowledgeAct x) : (s.after act).Sound := by
  cases act with
  | saveSource source =>
    refine ⟨h.paths, fun item hi => ?_, h.numbered, h.distinct, h.owned⟩
    obtain ⟨r, hr, hrest⟩ := h.current item hi
    exact ⟨r, ⟨hr.mem, hr.id⟩, hrest⟩
  | synchronize source entries now newId clock =>
    cases hcall : s.synchronize source entries now newId clock with
    | error e =>
      rw [KnowledgeStore.after, hcall]
      exact h
    | ok result =>
      rw [after_synchronize hcall]
      exact (synchronize_synced h hcall).sound

theorem Reachable.sound (h : s.Reachable x) : s.Sound := by
  refine Run.invariant (I := Sound) (fun s act t hs _ ht => ?_) h sound_empty
  rw [ht]
  exact hs.after act

/-- The live items are the entries. -/
structure Mirrors (t : KnowledgeStore) (entries : List (KnowledgeIngestItem x)) : Prop where
  entry : ∀ e ∈ entries, ∃ item r, t.Current item r ∧ r.relativePath = e.relativePath ∧
    r.contentHash = e.contentHash ∧ ∀ other, (other ∈ t.items ∧ other.tombstonedAt = none ∧
      other.relativePath = e.relativePath) ↔ other = item
  live : ∀ item ∈ t.items, item.tombstonedAt = none → ∃ e ∈ entries,
    e.relativePath = item.relativePath ∧
      ∀ e' ∈ entries, e'.relativePath = item.relativePath → e' = e

/-- The revisions of each item are numbered from one to its current revision. -/
structure Numbered (t : KnowledgeStore) : Prop where
  all : ∀ item ∈ t.items, ∀ n, (∃ r ∈ t.revisions, r.itemId = item.id ∧ r.revision = n) ↔
    1 ≤ n ∧ n ≤ item.currentRevision
  once : ∀ r ∈ t.revisions, ∀ r' ∈ t.revisions, r.itemId = r'.itemId →
    r.revision = r'.revision → r = r'

/-- No revision is written for an entry whose item already has its content. -/
def SparesUnchanged (s t : KnowledgeStore) (entries : List (KnowledgeIngestItem x))
    (delta : KnowledgeSyncDelta) : Prop :=
  t.revisions.rows = s.revisions.rows ++ delta.createdRevisions ∧
    ∀ e ∈ entries, ∀ item ∈ s.items, item.relativePath = e.relativePath →
      s.HasHash item e.contentHash →
        ∀ r ∈ delta.createdRevisions, r.relativePath ≠ e.relativePath

/-- The same entries come in once more. -/
def RepeatsNothing (t : KnowledgeStore) (source : KnowledgeSource)
    (entries : List (KnowledgeIngestItem x)) : Prop :=
  ∀ again : KnowledgeSource, source.syncCursor ≤ again.syncCursor → ∀ now newId clock,
    ∃ u, t.synchronize again entries now newId clock = .ok (u, ⟨[], []⟩)

/-- The entry has the content of exactly one live item whose path has disappeared. -/
structure Renames (s : KnowledgeStore) (entries : List (KnowledgeIngestItem x))
    (entry : KnowledgeIngestItem x) (item : KnowledgeItem) : Prop where
  mem : item ∈ s.items
  live : item.tombstonedAt = none
  gone : item.relativePath ∉ entries.map (·.relativePath)
  hash : s.HasHash item entry.contentHash
  only : ∀ other ∈ s.items, other.tombstonedAt = none →
    other.relativePath ∉ entries.map (·.relativePath) → s.HasHash other entry.contentHash →
      other = item

/-- An entry that has been renamed stands for the item that it was. -/
def KeepsIdentity (s t : KnowledgeStore) (entries : List (KnowledgeIngestItem x)) : Prop :=
  ∀ e ∈ entries, ∀ item, s.Renames entries e item →
    ∃ item' ∈ t.items, item'.id = item.id ∧ item'.relativePath = e.relativePath

/-- What is renamed comes to a path that no item has had, is the only one of the removed items
with its content, buried ones included, and is the content of no other entry. -/
def RenamesAlone (s : KnowledgeStore) (entries : List (KnowledgeIngestItem x)) : Prop :=
  ∀ e ∈ entries, ∀ item, s.Renames entries e item →
    (∀ a ∈ s.items, a.relativePath ≠ e.relativePath) ∧
    (∀ a ∈ s.items, a.relativePath ∉ entries.map (·.relativePath) →
      s.HasHash a e.contentHash → a = item) ∧
    ∀ e' ∈ entries, e'.contentHash = e.contentHash → e'.relativePath = e.relativePath

namespace Synced

variable {c : SyncContext}

theorem mirrors (h : s.Synced t source entries c delta)
    (hdistinct : (entries.map (·.relativePath)).Nodup) : t.Mirrors entries := by
  refine ⟨fun e he => ?_, fun item hi hlive => ?_⟩
  · obtain ⟨item, hi, hpath, hlive, ⟨r, hr, hhash⟩, _⟩ := h.settled e he
    obtain ⟨r', hr', _, _, hr'path⟩ := h.sound.current item hi
    obtain rfl := hr.eq hr'
    refine ⟨item, r, hr, hr'path.trans hpath, hhash, fun other => ⟨?_, ?_⟩⟩
    · rintro ⟨ho, _, hopath⟩
      exact h.sound.eq_of_path ho hi (hopath.trans hpath.symm)
    · rintro rfl
      exact ⟨hi, hlive, hpath⟩
  · obtain ⟨e, he, hpath⟩ := h.live item hi hlive
    exact ⟨e, he, hpath, fun e' he' hpath' =>
      List.inj_on_of_nodup_map hdistinct he' he (hpath'.trans hpath.symm)⟩

theorem numbered (h : s.Synced t source entries c delta) : t.Numbered :=
  ⟨h.sound.numbered, h.sound.distinct⟩

theorem spares (h : s.Synced t source entries c delta)
    (hdistinct : (entries.map (·.relativePath)).Nodup) : s.SparesUnchanged t entries delta := by
  refine ⟨h.revisions, fun e he item hi hpath hhash r hr hsame => ?_⟩
  obtain ⟨e', he', hr', hnone⟩ := h.created r hr
  obtain rfl := List.inj_on_of_nodup_map hdistinct he' he (hr'.symm.trans hsame)
  exact hnone item hi hpath hhash

theorem repeats (h : s.Synced t source entries c delta) (hcursor : 1 ≤ source.syncCursor)
    (hdistinct : (entries.map (·.relativePath)).Nodup) : t.RepeatsNothing source entries := by
  intro again hagain now newId clock
  obtain ⟨persisted, hsource, hpersisted⟩ := h.cursor
  refine ⟨_, synchronize_settled h.sound (Nat.le_trans hcursor hagain) hdistinct hsource
    (hpersisted ▸ hagain) (fun e he => ?_) h.live⟩
  obtain ⟨item, hi, hpath, hlive, hhash, _⟩ := h.settled e he
  exact ⟨item, hi, hpath, hlive, hhash⟩

/-- Every rename keeps the identity of its item just when each of them stands alone. -/
theorem keeps_iff (h : s.Synced t source entries c delta) (hread : c.read = s)
    (hpaths : c.paths = entries.map (·.relativePath)) (hs : s.Sound) :
    s.KeepsIdentity t entries ↔ s.RenamesAlone entries := by
  have hcandidates : ∀ {e item}, s.Renames entries e item →
      (c.read.renameCandidates c.paths e.contentHash = [item] ↔ ∀ a ∈ s.items,
        a.relativePath ∉ entries.map (·.relativePath) → s.HasHash a e.contentHash → a = item) := by
    intro e item hrename
    rw [hread, hpaths]
    have hmem : ∀ a, a ∈ s.renameCandidates (entries.map (·.relativePath)) e.contentHash ↔
        (a ∈ s.items ∧ a.relativePath ∉ entries.map (·.relativePath)) ∧
          s.HasHash a e.contentHash := fun a => hs.mem_renameCandidates
    constructor
    · intro hone a ha hgone hhash
      have := (hmem a).mpr ⟨⟨ha, hgone⟩, hhash⟩
      rwa [hone, List.mem_singleton] at this
    · intro hall
      have hnodup : (s.renameCandidates (entries.map (·.relativePath)) e.contentHash).Nodup :=
        ((List.Nodup.of_map _ s.items.nodup).filter _).filter _
      refine List.Perm.eq_singleton ((List.perm_ext_iff_of_nodup hnodup
        (List.nodup_singleton _)).mpr fun a => ?_)
      rw [hmem, List.mem_singleton]
      constructor
      · rintro ⟨⟨ha, hgone⟩, hhash⟩
        exact hall a ha hgone hhash
      · rintro rfl
        exact ⟨⟨hrename.mem, hrename.gone⟩, hrename.hash⟩
  constructor
  · intro hkeeps e he item hrename
    obtain ⟨item', hi', hid, hpath⟩ := hkeeps e he item hrename
    obtain ⟨placed, hplaced, hplacedPath, _, _, hidentity⟩ := h.settled e he
    obtain rfl := h.sound.eq_of_path hplaced hi' (hplacedPath.trans hpath.symm)
    have hunknown : ∀ a ∈ s.items, a.relativePath ≠ e.relativePath := by
      intro a ha hsame
      have hida := hidentity.known a (hread ▸ ha) hsame
      obtain rfl := Table.eq_of_key ha hrename.mem (hida.symm.trans hid)
      exact hrename.gone (hsame ▸ List.mem_map_of_mem he)
    have honly : ∀ e' ∈ entries, e'.contentHash = e.contentHash →
        e'.relativePath = e.relativePath := by
      intro e' he' hhash
      obtain ⟨item'', hi'', hid', hpath'⟩ := hkeeps e' he' item
        ⟨hrename.mem, hrename.live, hrename.gone, hhash ▸ hrename.hash, hhash ▸ hrename.only⟩
      rw [← hpath', ← hpath, Table.eq_of_key hi'' hi' (hid'.trans hid.symm)]
    have hone := (hidentity.renamed (hread ▸ hunknown) honly item (hread ▸ hrename.mem)).mp hid
    exact ⟨hunknown, (hcandidates hrename).mp hone, honly⟩
  · intro halone e he item hrename
    obtain ⟨hunknown, hremoved, honly⟩ := halone e he item hrename
    obtain ⟨placed, hplaced, hpath, _, _, hidentity⟩ := h.settled e he
    exact ⟨placed, hplaced, (hidentity.renamed (hread ▸ hunknown) honly item
      (hread ▸ hrename.mem)).mpr ((hcandidates hrename).mpr hremoved), hpath⟩

end Synced

/-- The ids that a call draws are those of no row. -/
def DrawsFresh (s : KnowledgeStore) (newId : Nat → Uuid) : Prop :=
  Function.Injective newId ∧ (∀ item ∈ s.items, ∀ n, item.id ≠ newId n) ∧
    ∀ r ∈ s.revisions, ∀ n, r.id ≠ newId n

/-- A call on the entries of distinct paths leaves a mirror of them that the same call would not
change, and it keeps the identity of what was renamed just when each rename stands alone. -/
theorem synchronize_mirrors (source : KnowledgeSource) (entries : List (KnowledgeIngestItem x))
    (now : Time) (newId : Nat → Uuid) (clock : Nat → Time) (h : s.Reachable x)
    (hcursor : 1 ≤ source.syncCursor) (hdistinct : (entries.map (·.relativePath)).Nodup)
    {persisted : KnowledgeSource} (hsource : s.source = some persisted)
    (hbehind : persisted.syncCursor ≤ source.syncCursor) :
    (s.DrawsFresh newId → ∃ result, s.synchronize source entries now newId clock = .ok result) ∧
      ∀ t delta, s.synchronize source entries now newId clock = .ok (t, delta) →
        t.Mirrors entries ∧ t.Numbered ∧ s.SparesUnchanged t entries delta ∧
          t.RepeatsNothing source entries ∧
          (s.KeepsIdentity t entries ↔ s.RenamesAlone entries) := by
  refine ⟨fun ⟨hinj, hitems, hrevisions⟩ => ?_, fun t delta hcall => ?_⟩
  · have htotal : ∃ t delta, s.synchronize source entries now newId clock = .ok (t, delta) :=
      synchronize_total h.sound hcursor hdistinct hsource hbehind hinj hitems hrevisions
    obtain ⟨t, delta, hcall⟩ := htotal
    exact ⟨(t, delta), hcall⟩
  · have hsynced := synchronize_synced h.sound hcall
    exact ⟨hsynced.mirrors hdistinct, hsynced.numbered, hsynced.spares hdistinct,
      hsynced.repeats hcursor hdistinct, hsynced.keeps_iff rfl rfl h.sound⟩

section Vault

/-- A hashing that tells any two contents apart. -/
def plainHashing : ContentHashing := ⟨id, fun _ _ _ _ _ _ _ _ _ _ => ""⟩

def vault : KnowledgeSource := ⟨0, "Vault", "vault", .ready, 1, 1, 0⟩

/-- A note with its path and its content. -/
def note (path content : String) : KnowledgeIngestItem plainHashing :=
  ⟨path, path, "note", content, content, [], .null, .null, rfl⟩

/-- The ids that the calls draw from a number on. -/
def ids (start : Nat) (n : Nat) : Uuid := start + n

/-- One call on the notes. -/
def sweep (notes : List (KnowledgeIngestItem plainHashing)) (start : Nat) :
    KnowledgeAct plainHashing :=
  .synchronize vault notes 0 (ids start) fun _ => 0

/-- A note has been deleted, and another one has come to have its content. -/
def twins : List (KnowledgeAct plainHashing) :=
  [.saveSource vault, sweep [note "a" "A"] 0, sweep [] 10, sweep [note "b" "B"] 20,
    sweep [note "b" "A"] 30]

def twinStore : KnowledgeStore := twins.foldl after empty

/-- The note that takes its content to a new path. -/
def renamed : List (KnowledgeIngestItem plainHashing) := [note "c" "A"]

/-- The live item of the note that is renamed. -/
def liveTwin : KnowledgeItem := ⟨20, "b", some 30, 2, none, 0, 0⟩

theorem liveTwin_renames : twinStore.Renames renamed (note "c" "A") liveTwin where
  mem := by
    have hmem : liveTwin ∈ twinStore.items.rows := by decide +kernel
    exact hmem
  live := rfl
  gone := by decide +kernel
  hash := by
    have hrow : ∃ r ∈ twinStore.revisions.rows,
        liveTwin.currentRevisionId = some r.id ∧ r.contentHash = "A" := by decide +kernel
    obtain ⟨r, hr, hid, hhash⟩ := hrow
    exact ⟨r, ⟨hr, hid⟩, hhash⟩
  only := by
    have honly : ∀ other ∈ twinStore.items.rows, other.tombstonedAt = none → other = liveTwin := by
      decide +kernel
    exact fun other ho hlive _ _ => honly other ho hlive

/-- The deleted note keeps the renamed one from being known again. -/
theorem renamed_beside_a_deleted_twin :
    twinStore.Reachable plainHashing ∧ ∃ t delta,
      twinStore.synchronize vault renamed 0 (ids 40) (fun _ => 0) = .ok (t, delta) ∧
        ¬ twinStore.KeepsIdentity t renamed := by
  refine ⟨Run.foldl (by decide +kernel), ?_⟩
  have hok : (twinStore.synchronize vault renamed 0 (ids 40) fun _ => 0).isOk := by decide +kernel
  cases hcall : twinStore.synchronize vault renamed 0 (ids 40) fun _ => 0 with
  | error e =>
    rw [hcall] at hok
    cases hok
  | ok result =>
    refine ⟨result.1, result.2, rfl, fun hkeeps => ?_⟩
    obtain ⟨item, hi, hid, hpath⟩ := hkeeps (note "c" "A") (List.mem_singleton_self _) liveTwin
      liveTwin_renames
    rw [← after_synchronize hcall] at hi
    have hlost : ∀ item ∈ (twinStore.after
        (.synchronize vault renamed 0 (ids 40) fun _ => 0)).items.rows,
        item.relativePath = "c" → item.id ≠ 20 := by decide +kernel
    exact hlost item hi hpath hid

/-- One note, which is then renamed. -/
def oneStore : KnowledgeStore :=
  [.saveSource vault, sweep [note "a" "A"] 0].foldl after empty

theorem synchronize_mirrors_renamed :
    ∃ t delta, oneStore.synchronize vault renamed 0 (ids 40) (fun _ => 0) = .ok (t, delta) ∧
      t.Mirrors renamed ∧ t.Numbered ∧ t.RepeatsNothing vault renamed := by
  have hreachable : oneStore.Reachable plainHashing := Run.foldl (by decide +kernel)
  have hsource : oneStore.source = some vault := by decide +kernel
  have hitems : ∀ item ∈ oneStore.items.rows, item.id < 40 := by decide +kernel
  have hrevisions : ∀ r ∈ oneStore.revisions.rows, r.id < 40 := by decide +kernel
  have hfresh : oneStore.DrawsFresh (ids 40) := by
    refine ⟨fun a b hsame => Nat.add_left_cancel hsame, fun item hi n hid => ?_,
      fun r hr n hid => ?_⟩
    · exact absurd (hitems item hi) (Nat.not_lt.mpr (hid ▸ Nat.le_add_right 40 n))
    · exact absurd (hrevisions r hr) (Nat.not_lt.mpr (hid ▸ Nat.le_add_right 40 n))
  have hmirrors := synchronize_mirrors vault renamed 0 (ids 40) (fun _ => 0) hreachable
    (by decide) (by decide +kernel) hsource (by decide)
  obtain ⟨⟨t, delta⟩, hcall⟩ := hmirrors.1 hfresh
  obtain ⟨hlive, hnumbered, _, hrepeats, _⟩ := hmirrors.2 t delta hcall
  exact ⟨t, delta, hcall, hlive, hnumbered, hrepeats⟩

end Vault

end KnowledgeStore

end Fairy.Knowledge
