import Fairy.Knowledge.Synchronize
import Fairy.Lib.Run

namespace Fairy.Knowledge

open Fairy.Lib

namespace KnowledgeStore

variable {s t u : KnowledgeStore} {item row : KnowledgeItem} {r : KnowledgeRevision} {id : Uuid}
  {path hash : String}

/-- The current revision of an item. -/
structure Current (s : KnowledgeStore) (item : KnowledgeItem) (r : KnowledgeRevision) : Prop where
  mem : r ∈ s.revisions
  id : item.currentRevisionId = some r.id

/-- The content of the current revision of an item has this hash. -/
def HasHash (s : KnowledgeStore) (item : KnowledgeItem) (hash : String) : Prop :=
  ∃ r, s.Current item r ∧ r.contentHash = hash

/-- Each item stands at a path of its own and at the last of its revisions. -/
structure Sound (s : KnowledgeStore) : Prop where
  paths : (s.items.rows.map (·.relativePath)).Nodup
  current : ∀ item ∈ s.items, ∃ r, s.Current item r ∧ r.itemId = item.id ∧
    r.revision = item.currentRevision ∧ r.relativePath = item.relativePath
  numbered : ∀ item ∈ s.items, ∀ n, (∃ r ∈ s.revisions, r.itemId = item.id ∧ r.revision = n) ↔
    1 ≤ n ∧ n ≤ item.currentRevision
  distinct : ∀ r ∈ s.revisions, ∀ r' ∈ s.revisions, r.itemId = r'.itemId →
    r.revision = r'.revision → r = r'
  owned : ∀ r ∈ s.revisions, ∃ item ∈ s.items, item.id = r.itemId

theorem sound_empty : empty.Sound :=
  ⟨List.nodup_nil, fun _ h => absurd h (Table.not_mem_empty _),
    fun _ h => absurd h (Table.not_mem_empty _), fun _ h => absurd h (Table.not_mem_empty _),
    fun _ h => absurd h (Table.not_mem_empty _)⟩

theorem Current.eq {r' : KnowledgeRevision} (h : s.Current item r) (h' : s.Current item r') :
    r = r' :=
  Table.eq_of_key h.mem h'.mem (Option.some.inj (h.id.symm.trans h'.id))

theorem Sound.eq_of_path (h : s.Sound) {other : KnowledgeItem} (hi : item ∈ s.items)
    (ho : other ∈ s.items) (hp : item.relativePath = other.relativePath) : item = other :=
  List.inj_on_of_nodup_map h.paths hi ho hp

section Write

theorem insertItem_ok (h : s.insertItem item = .ok t) :
    t.items.rows = s.items.rows ++ [item] ∧ (∀ other ∈ s.items, other.id ≠ item.id) ∧
      (∀ other ∈ s.items, other.relativePath ≠ item.relativePath) ∧
      t.revisions = s.revisions ∧ t.source = s.source := by
  unfold insertItem at h
  split at h
  · cases h
  · rename_i hpath
    split at h
    · cases h
    · rename_i hrows
      cases h
      obtain ⟨hrows, _, _, hfresh⟩ := Table.insertAll_eq_some hrows
      refine ⟨hrows, hfresh item (List.mem_singleton_self item), fun other ho he => ?_, rfl, rfl⟩
      exact hpath ⟨other, ho, he⟩

theorem updateItem_ok {f : KnowledgeItem → KnowledgeItem} {hf : ∀ item, (f item).id = item.id}
    (hrow : row ∈ s.items) (h : s.updateItem row.id f hf = .ok t) :
    Table.Replaces s.items t.items row (f row) ∧ (t.items.rows.map (·.relativePath)).Nodup ∧
      t.revisions = s.revisions ∧ t.source = s.source := by
  simp only [updateItem] at h
  split at h
  · rename_i hpaths
    cases h
    exact ⟨Table.replaces_update rfl hrow rfl (fun _ _ h => h) (hf row), hpaths, rfl, rfl⟩
  · cases h

theorem insertRevision_ok (h : s.insertRevision r = .ok t) :
    t.revisions.rows = s.revisions.rows ++ [r] ∧ t.items = s.items ∧ t.source = s.source := by
  unfold insertRevision at h
  split at h
  · cases h
  · split at h
    · cases h
    · rename_i hrows
      cases h
      exact ⟨(Table.insertAll_eq_some hrows).1, rfl, rfl⟩

end Write

section Read

theorem byPath_some (h : s.byPath path = some item) :
    item ∈ s.items ∧ item.relativePath = path := by
  refine ⟨List.mem_of_find?_eq_some h, ?_⟩
  simpa using List.find?_some h

theorem byPath_none (h : s.byPath path = none) : ∀ other ∈ s.items, other.relativePath ≠ path := by
  intro other ho
  simpa using List.find?_eq_none.mp h other ho

/-- The map of the current revisions gives the current revision of an item. -/
theorem Sound.revisionByItem (h : s.Sound) (hi : item ∈ s.items) :
    ∃ r, s.Current item r ∧ r.relativePath = item.relativePath ∧
      s.revisionByItem item.id = some r := by
  obtain ⟨r, hr, hitem, _, hpath⟩ := h.current item hi
  have hmem : ∀ r', r' ∈ s.currentRevisionRows.filter (fun revision => revision.itemId = item.id) ↔
      r' = r := by
    intro r'
    simp only [currentRevisionRows, List.mem_filter, List.any_eq_true, decide_eq_true_eq]
    constructor
    · rintro ⟨⟨hr', owner, howner, hid⟩, hr'item⟩
      obtain ⟨r'', hr'', howned, _, _⟩ := h.current owner howner
      obtain rfl := Current.eq ⟨hr', hid⟩ hr''
      obtain rfl := Table.eq_of_key howner hi (howned.symm.trans hr'item)
      exact Current.eq hr'' hr
    · rintro rfl
      exact ⟨⟨hr.mem, item, hi, hr.id⟩, hitem⟩
  refine ⟨r, hr, hpath, ?_⟩
  rw [KnowledgeStore.revisionByItem, List.getLast?_eq_some_getLast
    (List.ne_nil_of_mem ((hmem r).mpr rfl))]
  exact congrArg some ((hmem _).mp (List.getLast_mem _))

theorem Sound.hasHash_iff (h : s.Sound) (hi : item ∈ s.items) :
    (s.revisionByItem item.id).any (·.contentHash = hash) = true ↔ s.HasHash item hash := by
  obtain ⟨r, hr, _, hread⟩ := h.revisionByItem hi
  rw [hread, Option.any_some, decide_eq_true_eq]
  exact ⟨fun hhash => ⟨r, hr, hhash⟩, fun ⟨r', hr', hhash⟩ => hr.eq hr' ▸ hhash⟩

/-- An id that no item has is the id of no revision's item. -/
theorem Sound.revisionByItem_none (h : s.Sound) (hid : ∀ item ∈ s.items, item.id ≠ id) :
    s.revisionByItem id = none := by
  rw [KnowledgeStore.revisionByItem, List.getLast?_eq_none_iff, List.filter_eq_nil_iff]
  intro r hr hitem
  obtain ⟨item, hi, howner⟩ := h.owned r (List.mem_filter.mp hr).1
  exact hid item hi (howner.trans (by simpa using hitem))

theorem mem_removed {paths : List String} :
    item ∈ s.removed paths ↔ item ∈ s.items ∧ item.relativePath ∉ paths := by
  simp [removed, Table.mem_iff]

theorem Sound.mem_renameCandidates (h : s.Sound) {paths : List String} :
    item ∈ s.renameCandidates paths hash ↔
      (item ∈ s.items ∧ item.relativePath ∉ paths) ∧ s.HasHash item hash := by
  rw [renameCandidates, List.mem_filter, mem_removed]
  exact and_congr_right fun hi => h.hasHash_iff hi.1

end Read

/-- The item of an entry after its turn, and the revisions that were written for it. -/
structure Settles {x : ContentHashing} (entry : KnowledgeIngestItem x) (paths : List String)
    (s t : KnowledgeStore) (item : KnowledgeItem) (new : List KnowledgeRevision) : Prop where
  path : item.relativePath = entry.relativePath
  live : item.tombstonedAt = none
  items : ∀ other, other ∈ t.items ↔ other = item ∨ other ∈ s.items ∧ other.id ≠ item.id
  unique : (t.items.rows.map (·.relativePath)).Nodup
  revisions : t.revisions.rows = s.revisions.rows ++ new
  source : t.source = s.source
  before : ∀ other ∈ s.items, other.id = item.id →
    other.relativePath = entry.relativePath ∨ other.relativePath ∉ paths
  written : ∀ r ∈ new, r.relativePath = entry.relativePath
  history :
    (new = [] ∧ ∃ a ∈ s.items, a.id = item.id ∧ a.currentRevision = item.currentRevision ∧
      a.currentRevisionId = item.currentRevisionId ∧ a.relativePath = item.relativePath ∧
      s.HasHash a entry.contentHash) ∨
    ∃ r, new = [r] ∧ r.itemId = item.id ∧ item.currentRevisionId = some r.id ∧
      r.revision = item.currentRevision ∧ r.relativePath = item.relativePath ∧
      r.contentHash = entry.contentHash ∧
      ((∃ a ∈ s.items, a.id = item.id ∧ r.revision = a.currentRevision + 1) ∨
        (∀ a ∈ s.items, a.id ≠ item.id) ∧ r.revision = 1)

namespace Settles

variable {x : ContentHashing} {entry : KnowledgeIngestItem x} {paths : List String}
  {new : List KnowledgeRevision}

theorem mem (h : Settles entry paths s t item new) : item ∈ t.items := (h.items item).mpr (.inl rfl)

theorem mem_revisions (h : Settles entry paths s t item new) :
    r ∈ t.revisions ↔ r ∈ s.revisions ∨ r ∈ new := by
  rw [Table.mem_iff, h.revisions, List.mem_append]
  rfl

theorem hasHash_mono (h : Settles entry paths s t item new) {other : KnowledgeItem}
    (ho : s.HasHash other hash) : t.HasHash other hash := by
  obtain ⟨r, hr, hhash⟩ := ho
  exact ⟨r, ⟨h.mem_revisions.mpr (.inl hr.mem), hr.id⟩, hhash⟩

/-- The item stands at the content of the entry. -/
theorem hasHash (h : Settles entry paths s t item new) : t.HasHash item entry.contentHash := by
  obtain ⟨_, a, _, _, _, hcurrent, _, r, hr, hhash⟩ | ⟨r, rfl, _, hcurrent, _, _, hhash, _⟩ :=
    h.history
  · exact ⟨r, ⟨h.mem_revisions.mpr (.inl hr.mem), hcurrent ▸ hr.id⟩, hhash⟩
  · exact ⟨r, ⟨h.mem_revisions.mpr (.inr (List.mem_singleton_self r)), hcurrent⟩, hhash⟩

/-- An item of another id has no new revision. -/
theorem owner_of_new (h : Settles entry paths s t item new) (hr : r ∈ new) :
    r.itemId = item.id := by
  obtain ⟨rfl, _⟩ | ⟨r', rfl, howner, _⟩ := h.history
  · exact absurd hr List.not_mem_nil
  · rw [List.mem_singleton.mp hr]
    exact howner

theorem sound (hs : s.Sound) (h : Settles entry paths s t item new) : t.Sound := by
  have hkept : ∀ {other}, other ∈ s.items → other.id ≠ item.id → ∀ r, r ∈ t.revisions →
      r.itemId = other.id → r ∈ s.revisions := by
    intro other _ hne r hr hitem
    obtain hr | hr := h.mem_revisions.mp hr
    · exact hr
    · exact absurd (hitem.symm.trans (h.owner_of_new hr)) hne
  refine ⟨h.unique, fun other ho => ?_, fun other ho n => ?_, fun r hr r' hr' hitem hnumber => ?_,
    fun r hr => ?_⟩
  · obtain rfl | ⟨ho, _⟩ := (h.items other).mp ho
    · obtain ⟨_, a, ha, hid, hnumber, hcurrent, hpath, _⟩ |
        ⟨r, rfl, howner, hcurrent, hnumber, hpath, _⟩ := h.history
      · obtain ⟨r, hr, howner, hrevision, hrpath⟩ := hs.current a ha
        exact ⟨r, ⟨h.mem_revisions.mpr (.inl hr.mem), hcurrent ▸ hr.id⟩, howner.trans hid,
          hrevision.trans hnumber, hrpath.trans hpath⟩
      · exact ⟨r, ⟨h.mem_revisions.mpr (.inr (List.mem_singleton_self r)), hcurrent⟩, howner,
          hnumber, hpath⟩
    · obtain ⟨r, hr, hrest⟩ := hs.current other ho
      exact ⟨r, ⟨h.mem_revisions.mpr (.inl hr.mem), hr.id⟩, hrest⟩
  · obtain rfl | ⟨ho, hne⟩ := (h.items other).mp ho
    · obtain ⟨rfl, a, ha, hid, hnumber, _⟩ |
        ⟨r, rfl, howner, _, hnumber, _, _, hprior⟩ := h.history
      · rw [← hnumber, ← hs.numbered a ha, hid]
        simp [h.mem_revisions]
      · have hnew : (∃ r' ∈ t.revisions, r'.itemId = other.id ∧ r'.revision = n) ↔
            (∃ r' ∈ s.revisions, r'.itemId = other.id ∧ r'.revision = n) ∨ r.revision = n := by
          simp only [h.mem_revisions, List.mem_singleton, or_and_right, exists_or]
          exact or_congr_right ⟨fun ⟨_, hr', _, hn⟩ => hr' ▸ hn, fun hn => ⟨r, rfl, howner, hn⟩⟩
        rw [hnew, ← hnumber]
        obtain ⟨a, ha, hid, hnext⟩ | ⟨hfresh, hone⟩ := hprior
        · rw [← hid, hs.numbered a ha, hnext]
          omega
        · have hnone : ¬ ∃ r' ∈ s.revisions, r'.itemId = other.id ∧ r'.revision = n := by
            rintro ⟨r', hr', hr'item, _⟩
            obtain ⟨a, ha, hid⟩ := hs.owned r' hr'
            exact hfresh a ha (hid.trans hr'item)
          rw [or_iff_right hnone, hone]
          omega
    · rw [← hs.numbered other ho]
      constructor
      · rintro ⟨r, hr, hitem, hn⟩
        exact ⟨r, hkept ho hne r hr hitem, hitem, hn⟩
      · rintro ⟨r, hr, hitem, hn⟩
        exact ⟨r, h.mem_revisions.mpr (.inl hr), hitem, hn⟩
  · obtain ⟨rfl, _⟩ | ⟨new, rfl, howner, _, _, _, _, hprior⟩ := h.history
    · exact hs.distinct r (by simpa [h.mem_revisions] using hr) r'
        (by simpa [h.mem_revisions] using hr') hitem hnumber
    · -- the new revision has a number that none of its item's has
      have hnext : ∀ old ∈ s.revisions, old.itemId = new.itemId → old.revision ≠ new.revision := by
        intro old hold hsame he
        obtain ⟨a, ha, hid, hnext⟩ | ⟨hfresh, _⟩ := hprior
        · have hle := ((hs.numbered a ha old.revision).mp
            ⟨old, hold, hsame.trans (howner.trans hid.symm), rfl⟩).2
          omega
        · obtain ⟨a, ha, hid⟩ := hs.owned old hold
          exact hfresh a ha (hid.trans (hsame.trans howner))
      rw [h.mem_revisions, List.mem_singleton] at hr hr'
      obtain hr | rfl := hr <;> obtain hr' | rfl := hr'
      · exact hs.distinct r hr r' hr' hitem hnumber
      · exact absurd hnumber (hnext r hr hitem)
      · exact absurd hnumber.symm (hnext r' hr' hitem.symm)
      · rfl
  · obtain hr | hr := h.mem_revisions.mp hr
    · obtain ⟨owner, howner, hid⟩ := hs.owned r hr
      by_cases hsame : owner.id = item.id
      · exact ⟨item, h.mem, hsame.symm.trans hid⟩
      · exact ⟨owner, (h.items owner).mpr (.inr ⟨howner, hsame⟩), hid⟩
    · exact ⟨item, h.mem, (h.owner_of_new hr).symm⟩

/-- No id is lost. -/
theorem ids (h : Settles entry paths s t item new) {other : KnowledgeItem} (ho : other ∈ s.items) :
    ∃ other' ∈ t.items, other'.id = other.id := by
  by_cases hid : other.id = item.id
  · exact ⟨item, h.mem, hid.symm⟩
  · exact ⟨other, (h.items other).mpr (.inr ⟨ho, hid⟩), rfl⟩

end Settles

/-- A new revision of an item that stands open for the entry. -/
theorem settles_revised {x : ContentHashing} {entry : KnowledgeIngestItem x} {paths : List String}
    {v : KnowledgeStore} {now : Time}
    {hf : ∀ item : KnowledgeItem, (item.revised r now).id = item.id}
    (hopen : ∀ other, other ∈ u.items ↔ other = row ∨ other ∈ s.items ∧ other.id ≠ row.id)
    (hrevisions : u.revisions = s.revisions) (hsource : u.source = s.source)
    (hbefore : ∀ other ∈ s.items, other.id = row.id →
      other.relativePath = entry.relativePath ∨ other.relativePath ∉ paths)
    (howner : r.itemId = row.id) (hpath : r.relativePath = entry.relativePath)
    (hhash : r.contentHash = entry.contentHash)
    (hprior : (∃ a ∈ s.items, a.id = row.id ∧ r.revision = a.currentRevision + 1) ∨
      (∀ a ∈ s.items, a.id ≠ row.id) ∧ r.revision = 1)
    (hinsert : u.insertRevision r = .ok v)
    (hupdate : v.updateItem row.id (·.revised r now) hf = .ok t) :
    Settles entry paths s t (row.revised r now) [r] := by
  obtain ⟨hrows, hitems, hsame⟩ := insertRevision_ok hinsert
  have hrow : row ∈ v.items := hitems ▸ (hopen row).mpr (.inl rfl)
  obtain ⟨hreplaces, hunique, hkept, hsource'⟩ := updateItem_ok hrow hupdate
  refine ⟨hpath, rfl, fun other => ?_, hunique, ?_, hsource'.trans (hsame.trans hsource), hbefore,
    fun r' hr' => List.mem_singleton.mp hr' ▸ hpath,
    .inr ⟨r, rfl, howner, rfl, rfl, rfl, hhash, hprior⟩⟩
  · rw [hreplaces.2.2, hitems, hopen]
    constructor
    · rintro (hnew | ⟨rfl | hold, hne⟩)
      · exact .inl hnew
      · exact absurd rfl hne
      · exact .inr hold
    · rintro (hnew | hold)
      · exact .inl hnew
      · exact .inr ⟨.inr hold, hold.2⟩
  · rw [hkept, hrows, hrevisions]

end KnowledgeStore

namespace SyncContext

open KnowledgeStore (Settles Sound HasHash)

variable {x : ContentHashing} {c : SyncContext} {σ τ : SyncState} {entry : KnowledgeIngestItem x}
  {entries done : List (KnowledgeIngestItem x)} {item : KnowledgeItem}
  {new : List KnowledgeRevision}

/-- Which item an entry has got, as far as its content is that of no other entry. -/
structure Identity (c : SyncContext) (entries : List (KnowledgeIngestItem x))
    (entry : KnowledgeIngestItem x) (item : KnowledgeItem) : Prop where
  known : ∀ a ∈ c.read.items, a.relativePath = entry.relativePath → item.id = a.id
  renamed : (∀ a ∈ c.read.items, a.relativePath ≠ entry.relativePath) →
    (∀ other ∈ entries, other.contentHash = entry.contentHash →
      other.relativePath = entry.relativePath) →
    ∀ a ∈ c.read.items,
      (item.id = a.id ↔ c.read.renameCandidates c.paths entry.contentHash = [a])

/-- What holds when the entries of `done` have had their turn. -/
structure Progress (c : SyncContext) (entries done : List (KnowledgeIngestItem x))
    (σ : SyncState) : Prop where
  sound : σ.store.Sound
  source : σ.store.source = c.read.source
  revisions : σ.store.revisions.rows = c.read.revisions.rows ++ σ.created
  settled : ∀ e ∈ done, ∃ item ∈ σ.store.items, item.relativePath = e.relativePath ∧
    item.tombstonedAt = none ∧ σ.store.HasHash item e.contentHash ∧ c.Identity entries e item
  origin : ∀ item ∈ σ.store.items,
    (item ∈ c.read.items ∧ (∀ e ∈ done, e.relativePath ≠ item.relativePath) ∧
      item.id ∉ σ.consumed) ∨ ∃ e ∈ done, e.relativePath = item.relativePath
  waiting : ∀ item ∈ c.read.items, (∀ e ∈ done, e.relativePath ≠ item.relativePath) →
    item.id ∉ σ.consumed → item ∈ σ.store.items
  ids : ∀ item ∈ c.read.items, ∃ item' ∈ σ.store.items, item'.id = item.id
  consumed : ∀ id ∈ σ.consumed, ∃ e ∈ done,
    ∃ row ∈ c.read.renameCandidates c.paths e.contentHash, row.id = id
  created : ∀ r ∈ σ.created, ∃ e ∈ done, r.relativePath = e.relativePath ∧
    ∀ a ∈ c.read.items, a.relativePath = e.relativePath → ¬ c.read.HasHash a e.contentHash

/-- What the turn of an entry does. -/
structure Turn (c : SyncContext) (entry : KnowledgeIngestItem x) (σ τ : SyncState)
    (item : KnowledgeItem) (new : List KnowledgeRevision) : Prop where
  settles : Settles entry c.paths σ.store τ.store item new
  created : τ.created = σ.created ++ new
  consumed : τ.consumed = σ.consumed ∨ τ.consumed = σ.consumed ++ [item.id] ∧
    ∃ row ∈ c.read.renameCandidates c.paths entry.contentHash, row.id = item.id
  known : ∀ a ∈ c.read.items, a.relativePath = entry.relativePath → item.id = a.id
  renamed : (∀ a ∈ c.read.items, a.relativePath ≠ entry.relativePath) → ∀ a ∈ c.read.items,
    (item.id = a.id ↔ (c.read.renameCandidates c.paths entry.contentHash).filter
      (·.id ∉ σ.consumed) = [a])
  taken : ∀ a ∈ c.read.items, item.id = a.id →
    a.relativePath = entry.relativePath ∨ a.id ∈ τ.consumed
  unchanged : ∀ a ∈ c.read.items, a.relativePath = entry.relativePath →
    c.read.HasHash a entry.contentHash → new = []

/-- A revision for an item that is not unchanged. -/
theorem record_revised (h : c.record entry item σ = .ok τ) (hnot : ¬ c.Unchanged entry item) :
    ∃ r v, r.itemId = item.id ∧ r.revision = item.currentRevision + 1 ∧
      r.relativePath = entry.relativePath ∧ r.contentHash = entry.contentHash ∧
      σ.store.insertRevision r = .ok v ∧
      v.updateItem item.id (·.revised r c.now) (fun _ => rfl) = .ok τ.store ∧
      τ.created = σ.created ++ [r] ∧ τ.consumed = σ.consumed := by
  simp only [record, if_neg hnot] at h
  obtain ⟨v, hinsert, h⟩ := bind_ok h
  obtain ⟨store, hupdate, h⟩ := bind_ok h
  obtain rfl := pure_ok h
  exact ⟨_, v, rfl, rfl, rfl, entry.hashed.symm, hinsert, hupdate, rfl, rfl⟩

section Waiting

/-- A removed item that no entry has consumed is still in the store. -/
theorem Progress.removed_mem (hp : c.Progress entries done σ)
    (hdone : ∀ e ∈ done, e.relativePath ∈ c.paths) (hi : item ∈ c.read.items)
    (hpath : item.relativePath ∉ c.paths) (hid : item.id ∉ σ.consumed) : item ∈ σ.store.items :=
  hp.waiting item hi (fun e he hsame => hpath (hsame ▸ hdone e he)) hid

/-- The item at a path that is yet to come has not been consumed. -/
theorem Progress.known_mem (hp : c.Progress entries done σ) (hread : c.read.Sound)
    (hdone : ∀ e ∈ done, e.relativePath ≠ item.relativePath) (hi : item ∈ c.read.items)
    (hin : item.relativePath ∈ c.paths) : item ∈ σ.store.items := by
  refine hp.waiting item hi hdone fun hid => ?_
  obtain ⟨e, _, row, hrow, hrowId⟩ := hp.consumed item.id hid
  obtain ⟨⟨hmem, hgone⟩, _⟩ := hread.mem_renameCandidates.mp hrow
  rw [Table.eq_of_key hmem hi hrowId] at hgone
  exact hgone hin

/-- What an item of the read had as its current revision, it has. -/
theorem Progress.hasHash (hp : c.Progress entries done σ) {hash : String}
    (h : c.read.HasHash item hash) : σ.store.HasHash item hash := by
  obtain ⟨r, hr, hhash⟩ := h
  refine ⟨r, ⟨?_, hr.id⟩, hhash⟩
  rw [Table.mem_iff, hp.revisions]
  exact List.mem_append_left _ hr.mem

end Waiting

section Turn

variable (hread : c.read.Sound) (hin : entry.relativePath ∈ c.paths)
  (hdone : ∀ e ∈ done, e.relativePath ∈ c.paths ∧ e.relativePath ≠ entry.relativePath)
  (hp : c.Progress entries done σ)

include hread hin hdone hp

theorem turn_known {a : KnowledgeItem} (hknown : c.read.byPath entry.relativePath = some a)
    (h : c.record entry a σ = .ok τ) : ∃ item new, c.Turn entry σ τ item new := by
  obtain ⟨ha, hpath⟩ := KnowledgeStore.byPath_some hknown
  have hmem := hp.known_mem hread (fun e he => hpath ▸ (hdone e he).2) ha (hpath ▸ hin)
  have hbefore : ∀ other ∈ σ.store.items, other.id = a.id →
      other.relativePath = entry.relativePath ∨ other.relativePath ∉ c.paths := by
    intro other ho hid
    rw [Table.eq_of_key ho hmem hid]
    exact .inl hpath
  have hself : ∀ b ∈ c.read.items, b.relativePath = entry.relativePath → a.id = b.id := by
    intro b hb hbpath
    rw [hread.eq_of_path ha hb (hpath.trans hbpath.symm)]
  have hsame : ∀ b ∈ c.read.items, a.id = b.id → b.relativePath = entry.relativePath := by
    intro b hb hid
    rw [← Table.eq_of_key ha hb hid]
    exact hpath
  have hnever : ¬ ∀ b ∈ c.read.items, b.relativePath ≠ entry.relativePath := fun hall =>
    hall a ha hpath
  obtain ⟨r, hr, hrpath, hrow⟩ := hread.revisionByItem ha
  by_cases hunchanged : c.Unchanged entry a
  · have hhash : c.read.HasHash a entry.contentHash := by
      obtain ⟨previous, hprevious, hhash, _⟩ := hunchanged
      rw [hrow] at hprevious
      cases hprevious
      exact ⟨r, hr, hhash⟩
    have hhistory := hp.hasHash hhash
    simp only [record, if_pos hunchanged] at h
    split at h
    · obtain ⟨store, hupdate, h⟩ := bind_ok h
      obtain rfl := pure_ok h
      obtain ⟨hreplaces, hunique, hkept, hsource⟩ := KnowledgeStore.updateItem_ok hmem hupdate
      refine ⟨a.revived c.now, [], ⟨hpath, rfl, hreplaces.2.2, hunique, ?_, hsource, hbefore,
        fun _ hr => absurd hr List.not_mem_nil, .inl ⟨rfl, a, hmem, rfl, rfl, rfl, rfl, hhistory⟩⟩,
        (List.append_nil _).symm, .inl rfl, hself, fun hall => absurd hall hnever,
        fun b hb hid => .inl (hsame b hb hid), fun _ _ _ _ => rfl⟩
      rw [hkept, List.append_nil]
    · rename_i hlive
      cases h
      exact ⟨a, [], ⟨hpath, not_not.mp hlive, (Table.replaces_self hmem).2.2, hp.sound.paths,
        (List.append_nil _).symm, rfl, hbefore, fun _ hr => absurd hr List.not_mem_nil,
        .inl ⟨rfl, a, hmem, rfl, rfl, rfl, rfl, hhistory⟩⟩, (List.append_nil _).symm, .inl rfl,
        hself, fun hall => absurd hall hnever, fun b hb hid => .inl (hsame b hb hid),
        fun _ _ _ _ => rfl⟩
  · obtain ⟨r', v, howner, hnumber, hr'path, hr'hash, hinsert, hupdate, hcreated, hconsumed⟩ :=
      record_revised h hunchanged
    refine ⟨a.revised r' c.now, [r'], ?_, hcreated, .inl hconsumed, hself,
      fun hall => absurd hall hnever, fun b hb hid => .inl (hsame b hb hid), ?_⟩
    · exact KnowledgeStore.settles_revised (Table.replaces_self hmem).2.2 rfl rfl hbefore howner
        hr'path hr'hash (.inl ⟨a, hmem, rfl, hnumber⟩) hinsert hupdate
    · intro b hb hbpath hhash
      refine absurd ?_ hunchanged
      obtain rfl := hread.eq_of_path ha hb (hpath.trans hbpath.symm)
      obtain ⟨r'', hr'', hr''hash⟩ := hhash
      exact ⟨r, hrow, hr.eq hr'' ▸ hr''hash, hrpath.trans hpath⟩

theorem turn_renamed {a : KnowledgeItem} {u : KnowledgeStore}
    (hunknown : ∀ b ∈ c.read.items, b.relativePath ≠ entry.relativePath)
    (hcandidates : (c.read.renameCandidates c.paths entry.contentHash).filter
      (·.id ∉ σ.consumed) = [a])
    (hmove : σ.store.updateItem a.id (·.moved entry.relativePath c.now) (fun _ => rfl) = .ok u)
    (h : c.record entry a { σ with store := u, consumed := σ.consumed ++ [a.id] } = .ok τ) :
    ∃ item new, c.Turn entry σ τ item new := by
  have hfirst : a ∈ (c.read.renameCandidates c.paths entry.contentHash).filter
      (·.id ∉ σ.consumed) := hcandidates ▸ List.mem_singleton_self a
  obtain ⟨hcandidate, hfree⟩ := List.mem_filter.mp hfirst
  obtain ⟨⟨ha, hgone⟩, _⟩ := hread.mem_renameCandidates.mp hcandidate
  have hmem := hp.removed_mem (fun e he => (hdone e he).1) ha hgone (by simpa using hfree)
  have hnot : ¬ c.Unchanged entry a := by
    rintro ⟨previous, hprevious, _, hpath⟩
    obtain ⟨r, _, hrpath, hrow⟩ := hread.revisionByItem ha
    rw [hrow] at hprevious
    cases hprevious
    exact hgone (hrpath ▸ hpath ▸ hin)
  obtain ⟨hreplaces, _, hkept, hsource⟩ := KnowledgeStore.updateItem_ok hmem hmove
  obtain ⟨r, v, howner, hnumber, hrpath, hrhash, hinsert, hupdate, hcreated, hconsumed⟩ :=
    record_revised h hnot
  refine ⟨(a.moved entry.relativePath c.now).revised r c.now, [r], ?_, hcreated,
    .inr ⟨hconsumed, a, hcandidate, rfl⟩, fun b hb hpath => absurd hpath (hunknown b hb),
    fun _ b hb => ?_, fun b hb hid => .inr ?_, fun b hb hpath => absurd hpath (hunknown b hb)⟩
  · refine KnowledgeStore.settles_revised hreplaces.2.2 hkept hsource (fun other ho hid => ?_)
      howner hrpath hrhash (.inl ⟨a, hmem, rfl, hnumber⟩) hinsert hupdate
    rw [Table.eq_of_key ho hmem hid]
    exact .inr hgone
  · rw [hcandidates]
    constructor
    · intro hid
      rw [Table.eq_of_key ha hb hid]
    · intro hsame
      rw [(List.cons.inj hsame).1]
      rfl
  · rw [hconsumed, ← show a.id = b.id from hid]
    exact List.mem_append_right _ (List.mem_singleton_self _)

omit hin hdone in
theorem turn_fresh {a : KnowledgeItem} {u : KnowledgeStore} {next : Nat}
    (hunknown : ∀ b ∈ c.read.items, b.relativePath ≠ entry.relativePath)
    (hcandidates : ∀ b, (c.read.renameCandidates c.paths entry.contentHash).filter
      (·.id ∉ σ.consumed) ≠ [b])
    (hnew : a.currentRevision = 0) (hinsertItem : σ.store.insertItem a = .ok u)
    (h : c.record entry a { σ with store := u, next := next } = .ok τ) :
    ∃ item new, c.Turn entry σ τ item new := by
  obtain ⟨hrows, hfresh, _, hkept, hsource⟩ := KnowledgeStore.insertItem_ok hinsertItem
  have hunread : ∀ b ∈ c.read.items, a.id ≠ b.id := by
    intro b hb hid
    obtain ⟨b', hb', hb'id⟩ := hp.ids b hb
    exact hfresh b' hb' (hb'id.trans hid.symm)
  have hnot : ¬ c.Unchanged entry a := by
    rintro ⟨previous, hprevious, _⟩
    rw [hread.revisionByItem_none fun b hb => (hunread b hb).symm] at hprevious
    cases hprevious
  obtain ⟨r, v, howner, hnumber, hrpath, hrhash, hinsert, hupdate, hcreated, hconsumed⟩ :=
    record_revised h hnot
  refine ⟨a.revised r c.now, [r], ?_, hcreated, .inl hconsumed,
    fun b hb hpath => absurd hpath (hunknown b hb),
    fun _ b hb => iff_of_false (hunread b hb) (hcandidates b),
    fun b hb hid => absurd hid (hunread b hb), fun b hb hpath => absurd hpath (hunknown b hb)⟩
  refine KnowledgeStore.settles_revised (fun other => ?_) hkept hsource
    (fun other ho hid => absurd hid (hfresh other ho)) howner hrpath hrhash
    (.inr ⟨hfresh, by omega⟩) hinsert hupdate
  rw [Table.mem_iff, hrows, List.mem_append, List.mem_singleton]
  constructor
  · rintro (ho | rfl)
    · exact .inr ⟨ho, hfresh other ho⟩
    · exact .inl rfl
  · rintro (rfl | ⟨ho, _⟩)
    · exact .inr rfl
    · exact .inl ho

/-- Every turn of the loop is one of these. -/
theorem step_turn (h : c.step σ entry = .ok τ) : ∃ item new, c.Turn entry σ τ item new := by
  simp only [step] at h
  obtain ⟨⟨a, σ'⟩, hplace, h⟩ := bind_ok h
  unfold place at hplace
  split at hplace
  · rename_i hknown
    cases hplace
    exact turn_known hread hin hdone hp hknown h
  · rename_i hnone
    have hunknown := KnowledgeStore.byPath_none hnone
    split at hplace
    · rename_i hcandidates
      obtain ⟨u, hmove, hplace⟩ := bind_ok hplace
      cases pure_ok hplace
      exact turn_renamed hread hin hdone hp hunknown hcandidates hmove h
    · rename_i hcandidates
      obtain ⟨u, hinsert, hplace⟩ := bind_ok hplace
      cases pure_ok hplace
      exact turn_fresh hread hp hunknown hcandidates rfl hinsert h

/-- The invariant of the loop over the entries. -/
theorem Progress.turn (hsub : ∀ e ∈ done, e ∈ entries) (h : c.Turn entry σ τ item new) :
    c.Progress entries (done ++ [entry]) τ := by
  have hmem : ∀ {e}, e ∈ done ++ [entry] ↔ e ∈ done ∨ e = entry := by
    intro e
    rw [List.mem_append, List.mem_singleton]
  have hold : ∀ id ∈ σ.consumed, id ∈ τ.consumed := by
    intro id hid
    obtain hsame | ⟨hnext, _⟩ := h.consumed
    · exact hsame ▸ hid
    · rw [hnext]
      exact List.mem_append_left _ hid
  have hsound := h.settles.sound hp.sound
  refine ⟨hsound, h.settles.source.trans hp.source, ?_, fun e he => ?_, fun other ho => ?_,
    fun a ha hpath hid => ?_, fun a ha => ?_, fun id hid => ?_, fun r hr => ?_⟩
  · rw [h.settles.revisions, hp.revisions, h.created, List.append_assoc]
  · obtain he | rfl := hmem.mp he
    · obtain ⟨settled, hsettled, hpath, hlive, hhash, hidentity⟩ := hp.settled e he
      refine ⟨settled, (h.settles.items settled).mpr (.inr ⟨hsettled, fun hid => ?_⟩), hpath, hlive,
        h.settles.hasHash_mono hhash, hidentity⟩
      obtain hsame | hgone := h.settles.before settled hsettled hid
      · exact (hdone e he).2 (hpath.symm.trans hsame)
      · exact hgone (hpath ▸ (hdone e he).1)
    · refine ⟨item, h.settles.mem, h.settles.path, h.settles.live, h.settles.hasHash, h.known,
        fun hunknown honly a ha => ?_⟩
      rw [h.renamed hunknown a ha, List.filter_eq_self.mpr]
      -- an earlier entry that consumed a candidate would have the content of this one
      intro row hrow
      rw [decide_eq_true_eq]
      intro hid
      obtain ⟨e, he, first, hfirst, hsame⟩ := hp.consumed row.id hid
      obtain ⟨⟨hi, _⟩, r, hr, hhash⟩ := hread.mem_renameCandidates.mp hrow
      obtain ⟨⟨hi', _⟩, r', hr', hhash'⟩ := hread.mem_renameCandidates.mp hfirst
      obtain rfl := Table.eq_of_key hi' hi hsame
      obtain rfl := hr.eq hr'
      exact (hdone e he).2 (honly e (hsub e he) (hhash'.symm.trans hhash))
  · obtain rfl | ⟨ho', hne⟩ := (h.settles.items other).mp ho
    · exact .inr ⟨entry, hmem.mpr (.inr rfl), h.settles.path.symm⟩
    · obtain ⟨hi, hfree, hid⟩ | ⟨e, he, hpath⟩ := hp.origin other ho'
      · refine .inl ⟨hi, fun e he hpath => ?_, fun hid' => ?_⟩
        · obtain he | rfl := hmem.mp he
          · exact hfree e he hpath
          · exact hne (congrArg _ (hsound.eq_of_path ho h.settles.mem
              (hpath.symm.trans h.settles.path.symm)))
        · obtain hsame | ⟨hnext, _⟩ := h.consumed
          · exact hid (hsame ▸ hid')
          · rw [hnext, List.mem_append, List.mem_singleton] at hid'
            exact hid'.elim hid hne
      · exact .inr ⟨e, hmem.mpr (.inl he), hpath⟩
  · have ha' := hp.waiting a ha (fun e he => hpath e (hmem.mpr (.inl he)))
      fun hid' => hid (hold _ hid')
    refine (h.settles.items a).mpr (.inr ⟨ha', fun hsame => ?_⟩)
    obtain hsame | htaken := h.taken a ha hsame.symm
    · exact hpath entry (hmem.mpr (.inr rfl)) hsame.symm
    · exact hid htaken
  · obtain ⟨a', ha', hid⟩ := hp.ids a ha
    obtain ⟨a'', ha'', hid'⟩ := h.settles.ids ha'
    exact ⟨a'', ha'', hid'.trans hid⟩
  · have hkept : id ∈ σ.consumed → ∃ e ∈ done ++ [entry],
        ∃ row ∈ c.read.renameCandidates c.paths e.contentHash, row.id = id := by
      intro hid
      obtain ⟨e, he, hrow⟩ := hp.consumed id hid
      exact ⟨e, hmem.mpr (.inl he), hrow⟩
    obtain hsame | ⟨hnext, hrow⟩ := h.consumed
    · exact hkept (hsame ▸ hid)
    · rw [hnext, List.mem_append, List.mem_singleton] at hid
      obtain hid | rfl := hid
      · exact hkept hid
      · exact ⟨entry, hmem.mpr (.inr rfl), hrow⟩
  · rw [h.created, List.mem_append] at hr
    obtain hr | hr := hr
    · obtain ⟨e, he, hrest⟩ := hp.created r hr
      exact ⟨e, hmem.mpr (.inl he), hrest⟩
    · refine ⟨entry, hmem.mpr (.inr rfl), h.settles.written r hr, fun a ha hpath hhash => ?_⟩
      rw [h.unchanged a ha hpath hhash] at hr
      exact List.not_mem_nil hr

end Turn

end SyncContext

end Fairy.Knowledge
