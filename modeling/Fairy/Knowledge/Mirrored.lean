import Fairy.Knowledge.Mirror
import Fairy.Lib.Fallible

namespace Fairy.Knowledge

open Fairy.Lib

namespace KnowledgeStore

variable {s t u : KnowledgeStore} {item row new : KnowledgeItem} {path hash : String}

/-- A change to an item that leaves it where it is and at its revision. -/
theorem Sound.replaced (h : s.Sound) (hreplaces : Table.Replaces s.items t.items row new)
    (hpath : new.relativePath = row.relativePath)
    (hid : new.currentRevisionId = row.currentRevisionId)
    (hnumber : new.currentRevision = row.currentRevision)
    (hunique : (t.items.rows.map (·.relativePath)).Nodup) (hrevisions : t.revisions = s.revisions) :
    t.Sound := by
  have hold : ∀ item ∈ t.items, ∃ old ∈ s.items, old.id = item.id ∧
      old.relativePath = item.relativePath ∧ old.currentRevisionId = item.currentRevisionId ∧
      old.currentRevision = item.currentRevision := by
    intro item hi
    obtain rfl | ⟨hi, _⟩ := hreplaces.cases hi
    · exact ⟨row, hreplaces.1, hreplaces.2.1.symm, hpath.symm, hid.symm, hnumber.symm⟩
    · exact ⟨item, hi, rfl, rfl, rfl, rfl⟩
  refine ⟨hunique, fun item hi => ?_, fun item hi n => ?_, hrevisions ▸ h.distinct, fun r hr => ?_⟩
  · obtain ⟨old, ho, hsame, hp, hc, hn⟩ := hold item hi
    obtain ⟨r, hr, howner, hrn, hrp⟩ := h.current old ho
    exact ⟨r, ⟨hrevisions ▸ hr.mem, hc ▸ hr.id⟩, howner.trans hsame, hrn.trans hn, hrp.trans hp⟩
  · obtain ⟨old, ho, hsame, _, _, hn⟩ := hold item hi
    rw [hrevisions, ← hsame, ← hn]
    exact h.numbered old ho n
  · obtain ⟨owner, howner, hsame⟩ := h.owned r (hrevisions ▸ hr)
    obtain ⟨owner', howner', hsame'⟩ := hreplaces.key_mem howner
    exact ⟨owner', howner', hsame'.trans hsame⟩

/-- What has become of the items when those of `rows` are buried. -/
structure Buried (s t : KnowledgeStore) (now : Time) (rows : List KnowledgeItem) : Prop where
  sound : t.Sound
  revisions : t.revisions = s.revisions
  source : t.source = s.source
  items : ∀ item, item ∈ t.items ↔
    (∃ row ∈ rows, item = row.buried now) ∨ item ∈ s.items ∧ ∀ row ∈ rows, row.id ≠ item.id

theorem Sound.buried_nil (h : s.Sound) {now : Time} : s.Buried s now [] :=
  ⟨h, rfl, rfl, fun _ => by simp⟩

section Write

/-- An item may take a path that no other item has. -/
theorem updateItem_total (f : KnowledgeItem → KnowledgeItem)
    (hf : ∀ item, (f item).id = item.id) (hunique : (s.items.rows.map (·.relativePath)).Nodup)
    (hrow : row ∈ s.items)
    (hpath : ∀ other ∈ s.items, other.relativePath = (f row).relativePath → other = row) :
    ∃ t, s.updateItem row.id f hf = .ok t := by
  refine ⟨_, if_pos ?_⟩
  rw [Table.rows_update, List.map_map]
  refine List.Nodup.map_on (fun a ha b hb hsame => ?_) (List.Nodup.of_map _ hunique)
  have hmoved : ∀ other ∈ s.items, other.id = row.id → other = row := fun other ho hid =>
    Table.eq_of_key ho hrow hid
  simp only [Function.comp_apply] at hsame
  by_cases hida : a.id = row.id <;> by_cases hidb : b.id = row.id
  · exact (hmoved a ha hida).trans (hmoved b hb hidb).symm
  · rw [if_pos hida, if_neg hidb, hmoved a ha hida] at hsame
    exact absurd (congrArg _ (hpath b hb hsame.symm)) hidb
  · rw [if_neg hida, if_pos hidb, hmoved b hb hidb] at hsame
    exact absurd (congrArg _ (hpath a ha hsame)) hida
  · rw [if_neg hida, if_neg hidb] at hsame
    exact List.inj_on_of_nodup_map hunique ha hb hsame

/-- An update that leaves every item where it is does not clash. -/
theorem updateItem_kept (f : KnowledgeItem → KnowledgeItem)
    (hf : ∀ item, (f item).id = item.id) (hunique : (s.items.rows.map (·.relativePath)).Nodup)
    (hpath : ∀ item, (f item).relativePath = item.relativePath) (id : Uuid) :
    ∃ t, s.updateItem id f hf = .ok t ∧ (t.items.rows.map (·.relativePath)).Nodup := by
  have hkept : ((s.items.update (fun item => item.id = id) f hf).rows.map (·.relativePath)) =
      s.items.rows.map (·.relativePath) := by
    rw [Table.rows_update, List.map_map]
    refine List.map_congr_left fun item _ => ?_
    by_cases hid : item.id = id
    · rw [Function.comp_apply, if_pos hid, hpath]
    · rw [Function.comp_apply, if_neg hid]
  refine ⟨_, if_pos ?_, ?_⟩
  · rwa [hkept]
  · rwa [hkept]

theorem insertItem_total (item : KnowledgeItem)
    (hpath : ∀ other ∈ s.items, other.relativePath ≠ item.relativePath)
    (hid : ∀ other ∈ s.items, other.id ≠ item.id) : ∃ t, s.insertItem item = .ok t := by
  obtain ⟨items, hitems⟩ := Table.insertAll_isSome (t := s.items) (l := [item])
    (List.nodup_singleton _) (fun _ _ => trivial) fun a ha b hb => by
      rw [List.mem_singleton.mp ha]
      exact hid b hb
  have hnone : ¬ ∃ other ∈ s.items.rows, other.relativePath = item.relativePath :=
    fun ⟨other, ho, hsame⟩ => hpath other ho hsame
  refine ⟨{ s with items }, ?_⟩
  rw [insertItem, if_neg hnone, hitems]

theorem insertRevision_total (revision : KnowledgeRevision)
    (hnumber : ∀ r ∈ s.revisions, r.itemId = revision.itemId → r.revision ≠ revision.revision)
    (hid : ∀ r ∈ s.revisions, r.id ≠ revision.id) : ∃ t, s.insertRevision revision = .ok t := by
  obtain ⟨revisions, hrevisions⟩ := Table.insertAll_isSome (t := s.revisions) (l := [revision])
    (List.nodup_singleton _) (fun _ _ => trivial) fun a ha b hb => by
      rw [List.mem_singleton.mp ha]
      exact hid b hb
  have hnone : ¬ ∃ other ∈ s.revisions.rows, other.itemId = revision.itemId ∧
      other.revision = revision.revision := fun ⟨r, hr, hitem, hsame⟩ => hnumber r hr hitem hsame
  refine ⟨{ s with revisions }, ?_⟩
  rw [insertRevision, if_neg hnone, hrevisions]

end Write

end KnowledgeStore

namespace SyncContext

open KnowledgeStore (Buried Sound HasHash)

variable {x : ContentHashing} {c : SyncContext} {σ τ : SyncState} {s t u : KnowledgeStore}
  {entry : KnowledgeIngestItem x} {entries done rest : List (KnowledgeIngestItem x)}
  {item row : KnowledgeItem} {rows : List KnowledgeItem}

section Entries

/-- Nothing has happened before the first turn. -/
theorem Progress.start (hread : c.read.Sound) : c.Progress entries [] ⟨c.read, [], [], 0⟩ where
  sound := hread
  source := rfl
  revisions := (List.append_nil _).symm
  settled := fun _ h => absurd h List.not_mem_nil
  origin := fun _ h => .inl ⟨h, fun _ h => absurd h List.not_mem_nil, List.not_mem_nil⟩
  waiting := fun _ h _ _ => h
  ids := fun item h => ⟨item, h, rfl⟩
  consumed := fun _ h => absurd h List.not_mem_nil
  created := fun _ h => absurd h List.not_mem_nil

/-- What is known of an entry when its turn comes. -/
theorem turn_of_split (hpaths : c.paths = entries.map (·.relativePath))
    (hdistinct : (entries.map (·.relativePath)).Nodup) {sorted : List (KnowledgeIngestItem x)}
    (hperm : sorted.Perm entries) (hsplit : sorted = done ++ entry :: rest) :
    entry.relativePath ∈ c.paths ∧ (∀ e ∈ done, e ∈ entries) ∧
      ∀ e ∈ done, e.relativePath ∈ c.paths ∧ e.relativePath ≠ entry.relativePath := by
  have hnodup : (sorted.map (·.relativePath)).Nodup := (hperm.map _).nodup_iff.mpr hdistinct
  rw [hsplit] at hperm hnodup
  rw [List.map_append, List.nodup_append'] at hnodup
  have hmem : ∀ e ∈ done, e ∈ entries := fun e he =>
    hperm.mem_iff.mp (List.mem_append_left _ he)
  refine ⟨?_, hmem, fun e he => ⟨?_, fun hsame => ?_⟩⟩
  · rw [hpaths]
    exact List.mem_map_of_mem (hperm.mem_iff.mp (List.mem_append_right _ List.mem_cons_self))
  · rw [hpaths]
    exact List.mem_map_of_mem (hmem e he)
  · refine hnodup.2.2 (List.mem_map_of_mem he) ?_
    rw [hsame]
    exact List.mem_map_of_mem List.mem_cons_self

/-- The loop gives each entry its turn. -/
theorem Progress.loop (hread : c.read.Sound) (hpaths : c.paths = entries.map (·.relativePath))
    (hdistinct : (entries.map (·.relativePath)).Nodup) {sorted : List (KnowledgeIngestItem x)}
    (hperm : sorted.Perm entries) (h : sorted.foldlM c.step ⟨c.read, [], [], 0⟩ = .ok τ) :
    c.Progress entries sorted τ := by
  suffices hloop : ∃ done, sorted = done ++ [] ∧ c.Progress entries done τ by
    obtain ⟨done, hsplit, hp⟩ := hloop
    rwa [hsplit, List.append_nil]
  refine foldlM_rule (I := fun rest σ => ∃ done, sorted = done ++ rest ∧ c.Progress entries done σ)
    (fun entry rest σ σ' hi hstep => ?_) h ⟨[], rfl, .start hread⟩
  obtain ⟨done, hsplit, hp⟩ := hi
  obtain ⟨hin, hmem, hdone⟩ := turn_of_split hpaths hdistinct hperm hsplit
  obtain ⟨item, new, hturn⟩ := step_turn hread hin hdone hp hstep
  refine ⟨done ++ [entry], ?_, hp.turn hread hin hdone hmem hturn⟩
  rw [hsplit, List.append_assoc, List.singleton_append]

end Entries

section Burial

theorem Buried.step {now : Time} (hb : s.Buried t now rows) (hrow : row ∈ s.items)
    (hfresh : ∀ other ∈ rows, other.id ≠ row.id)
    {hf : ∀ item : KnowledgeItem, (item.buried now).id = item.id}
    (h : t.updateItem row.id (·.buried now) hf = .ok u) : s.Buried u now (rows ++ [row]) := by
  have hmem : row ∈ t.items := (hb.items row).mpr (.inr ⟨hrow, hfresh⟩)
  obtain ⟨hreplaces, hunique, hrevisions, hsource⟩ := KnowledgeStore.updateItem_ok hmem h
  refine ⟨hb.sound.replaced hreplaces rfl rfl rfl hunique hrevisions,
    hrevisions.trans hb.revisions, hsource.trans hb.source, fun item => ?_⟩
  rw [hreplaces.2.2, hb.items]
  simp only [List.mem_append, List.mem_singleton]
  constructor
  · rintro (rfl | ⟨⟨other, ho, rfl⟩ | ⟨hi, hothers⟩, hne⟩)
    · exact .inl ⟨row, .inr rfl, rfl⟩
    · exact .inl ⟨other, .inl ho, rfl⟩
    · refine .inr ⟨hi, ?_⟩
      rintro other (ho | rfl)
      · exact hothers other ho
      · exact Ne.symm hne
  · rintro (⟨other, ho | rfl, rfl⟩ | ⟨hi, hothers⟩)
    · exact .inr ⟨.inl ⟨other, ho, rfl⟩, hfresh other ho⟩
    · exact .inl rfl
    · exact .inr ⟨.inr ⟨hi, fun other ho => hothers other (.inl ho)⟩,
        Ne.symm (hothers row (.inr rfl))⟩

/-- The second loop buries every row that it is given. -/
theorem bury_loop (hs : s.Sound) (hmem : ∀ row ∈ rows, row ∈ s.items)
    (hdistinct : (rows.map (·.id)).Nodup) (h : rows.foldlM c.bury s = .ok t) :
    s.Buried t c.now rows := by
  suffices hloop : ∃ done, rows = done ++ [] ∧ s.Buried t c.now done by
    obtain ⟨done, hsplit, hb⟩ := hloop
    rwa [hsplit, List.append_nil]
  refine foldlM_rule (I := fun rest t => ∃ done, rows = done ++ rest ∧ s.Buried t c.now done)
    (fun row rest t t' hi hstep => ?_) h ⟨[], rfl, hs.buried_nil⟩
  obtain ⟨done, hsplit, hb⟩ := hi
  have hrow : row ∈ s.items := by
    refine hmem row ?_
    rw [hsplit]
    exact List.mem_append_right _ List.mem_cons_self
  refine ⟨done ++ [row], by rw [hsplit, List.append_assoc, List.singleton_append],
    Buried.step hb hrow (fun other ho hsame => ?_) hstep⟩
  rw [hsplit, List.map_append, List.nodup_append'] at hdistinct
  refine hdistinct.2.2 (List.mem_map_of_mem ho) ?_
  rw [hsame]
  exact List.mem_map_of_mem List.mem_cons_self

theorem mem_buriable : item ∈ c.buriable σ ↔ (item ∈ c.read.items ∧ item.relativePath ∉ c.paths) ∧
    item.id ∉ σ.consumed ∧ item.tombstonedAt = none := by
  rw [buriable, List.mem_filter, KnowledgeStore.mem_removed, decide_eq_true_eq]

theorem buriable_distinct : ((c.buriable σ).map (·.id)).Nodup :=
  c.read.items.nodup.sublist ((List.filter_sublist.trans List.filter_sublist).map _)

end Burial

section Total

/-- The ids that are yet to be drawn are those of no row. -/
structure Fresh (c : SyncContext) (σ : SyncState) : Prop where
  items : ∀ item ∈ σ.store.items, ∀ n, σ.next ≤ n → item.id ≠ c.newId n
  revisions : ∀ r ∈ σ.store.revisions, ∀ n, σ.next ≤ n → r.id ≠ c.newId n

/-- What an update of items leaves of the ids. -/
theorem Fresh.updated (hf : c.Fresh σ) {id : Uuid} {f : KnowledgeItem → KnowledgeItem}
    {hid : ∀ item, (f item).id = item.id} (h : σ.store.updateItem id f hid = .ok u) :
    c.Fresh { σ with store := u } := by
  simp only [KnowledgeStore.updateItem] at h
  split at h
  · cases h
    refine ⟨fun item hi n hn => ?_, hf.revisions⟩
    obtain ⟨old, ho, rfl⟩ := (Table.mem_update rfl).mp hi
    have hsame : (if old.id = id then f old else old).id = old.id := by
      by_cases hc : old.id = id
      · rw [if_pos hc, hid]
      · rw [if_neg hc]
    rw [hsame]
    exact hf.items old ho n hn
  · cases h

theorem Fresh.place (hinj : Function.Injective c.newId) (hf : c.Fresh σ)
    (h : c.place entry σ = .ok (item, τ)) : c.Fresh τ := by
  unfold SyncContext.place at h
  split at h
  · cases h
    exact hf
  · split at h
    · obtain ⟨u, hmove, h⟩ := bind_ok h
      cases pure_ok h
      exact ⟨(hf.updated hmove).items, (hf.updated hmove).revisions⟩
    · obtain ⟨u, hinsert, h⟩ := bind_ok h
      cases pure_ok h
      obtain ⟨hrows, _, _, hrevisions, _⟩ := KnowledgeStore.insertItem_ok hinsert
      refine ⟨fun other ho n hn => ?_, fun r hr n hn => ?_⟩
      · rw [Table.mem_of_rows_append hrows, List.mem_singleton] at ho
        obtain ho | rfl := ho
        · exact hf.items other ho n (Nat.le_of_succ_le hn)
        · exact fun hsame => Nat.not_succ_le_self _ (hinj hsame ▸ hn)
      · exact hf.revisions r (hrevisions ▸ hr) n (Nat.le_of_succ_le hn)

theorem Fresh.record (hinj : Function.Injective c.newId) (hf : c.Fresh σ)
    (h : c.record entry item σ = .ok τ) : c.Fresh τ := by
  unfold SyncContext.record at h
  split at h
  · split at h
    · obtain ⟨u, hupdate, h⟩ := bind_ok h
      cases pure_ok h
      exact hf.updated hupdate
    · cases h
      exact hf
  · obtain ⟨v, hinsert, h⟩ := bind_ok h
    obtain ⟨u, hupdate, h⟩ := bind_ok h
    cases pure_ok h
    obtain ⟨hrows, hitems, _⟩ := KnowledgeStore.insertRevision_ok hinsert
    have hv : c.Fresh ⟨v, σ.consumed, σ.created, σ.next + 1⟩ := by
      refine ⟨fun other ho n hn => hf.items other (hitems ▸ ho) n (Nat.le_of_succ_le hn),
        fun r hr n hn => ?_⟩
      rw [Table.mem_of_rows_append hrows, List.mem_singleton] at hr
      obtain hr | rfl := hr
      · exact hf.revisions r hr n (Nat.le_of_succ_le hn)
      · exact fun hsame => Nat.not_succ_le_self _ (hinj hsame ▸ hn)
    exact ⟨(hv.updated hupdate).items, (hv.updated hupdate).revisions⟩

/-- The item that an entry has been given stands ready for its revision. -/
structure Ready (entry : KnowledgeIngestItem x) (σ : SyncState) (item : KnowledgeItem) : Prop where
  unique : (σ.store.items.rows.map (·.relativePath)).Nodup
  held : ∃ row ∈ σ.store.items, row.id = item.id ∧ row.relativePath = entry.relativePath
  below : ∀ r ∈ σ.store.revisions, r.itemId = item.id → r.revision ≤ item.currentRevision

theorem Ready.record (hr : Ready entry σ item) (hf : c.Fresh σ) :
    ∃ τ, c.record entry item σ = .ok τ := by
  obtain ⟨row, hrow, hid, hpath⟩ := hr.held
  by_cases hunchanged : c.Unchanged entry item
  · by_cases hbone : item.tombstonedAt ≠ none
    · obtain ⟨u, hu, _⟩ := KnowledgeStore.updateItem_kept (·.revived c.now) (fun _ => rfl)
        hr.unique (fun _ => rfl) item.id
      refine ⟨{ σ with store := u }, ?_⟩
      rw [SyncContext.record, if_pos hunchanged, if_pos hbone, hu]
      rfl
    · refine ⟨σ, ?_⟩
      rw [SyncContext.record, if_pos hunchanged, if_neg hbone]
  · obtain ⟨v, hv⟩ := KnowledgeStore.insertRevision_total (s := σ.store)
      (KnowledgeRevision.create x (c.newId σ.next) item.id (item.currentRevision + 1)
        entry c.sourceCursor (c.clock σ.next))
      (fun r hmem howner => Nat.ne_of_lt (Nat.lt_succ_of_le (hr.below r hmem howner)))
      (fun r hmem => hf.revisions r hmem σ.next (Nat.le_refl _))
    obtain ⟨_, hitems, _⟩ := KnowledgeStore.insertRevision_ok hv
    obtain ⟨u, hu⟩ := KnowledgeStore.updateItem_total (s := v)
      (·.revised (KnowledgeRevision.create x (c.newId σ.next) item.id
        (item.currentRevision + 1) entry c.sourceCursor (c.clock σ.next)) c.now)
      (fun _ => rfl) (hitems ▸ hr.unique) (hitems ▸ hrow) fun other ho hsame => by
        rw [hitems] at ho
        exact List.inj_on_of_nodup_map hr.unique ho hrow (hsame.trans hpath.symm)
    rw [hid] at hu
    rw [SyncContext.record, if_neg hunchanged]
    simp only [hv, ok_bind, hu]
    exact ⟨_, rfl⟩

/-- No turn raises while the ids are fresh. -/
theorem Progress.step_total (hread : c.read.Sound) (hin : entry.relativePath ∈ c.paths)
    (hdone : ∀ e ∈ done, e.relativePath ∈ c.paths ∧ e.relativePath ≠ entry.relativePath)
    (hp : c.Progress entries done σ) (hinj : Function.Injective c.newId) (hf : c.Fresh σ) :
    ∃ τ, c.step σ entry = .ok τ := by
  suffices hplace : ∃ item τ, c.place entry σ = .ok (item, τ) ∧ Ready entry τ item by
    obtain ⟨item, τ, hplace, hready⟩ := hplace
    obtain ⟨υ, hrecord⟩ := hready.record (hf.place hinj hplace)
    refine ⟨υ, ?_⟩
    rw [SyncContext.step, hplace]
    exact hrecord
  have hbelow : ∀ a ∈ σ.store.items, ∀ r ∈ σ.store.revisions, r.itemId = a.id →
      r.revision ≤ a.currentRevision := fun a ha r hr howner =>
    ((hp.sound.numbered a ha r.revision).mp ⟨r, hr, howner, rfl⟩).2
  unfold SyncContext.place
  split
  · rename_i a hknown
    obtain ⟨ha, hpath⟩ := KnowledgeStore.byPath_some hknown
    have hmem := hp.known_mem hread (fun e he => hpath ▸ (hdone e he).2) ha (hpath ▸ hin)
    exact ⟨a, σ, rfl, hp.sound.paths, ⟨a, hmem, rfl, hpath⟩, hbelow a hmem⟩
  · rename_i hnone
    have hfree : ∀ other ∈ σ.store.items, other.relativePath ≠ entry.relativePath := by
      intro other ho hsame
      obtain ⟨hi, _⟩ | ⟨e, he, hpath⟩ := hp.origin other ho
      · exact KnowledgeStore.byPath_none hnone other hi hsame
      · exact (hdone e he).2 (hpath.trans hsame)
    split
    · rename_i a hcandidates
      have hfirst : a ∈ (c.read.renameCandidates c.paths entry.contentHash).filter
          (·.id ∉ σ.consumed) := hcandidates ▸ List.mem_singleton_self a
      obtain ⟨hcandidate, hunused⟩ := List.mem_filter.mp hfirst
      obtain ⟨⟨ha, hgone⟩, _⟩ := hread.mem_renameCandidates.mp hcandidate
      have hmem := hp.removed_mem (fun e he => (hdone e he).1) ha hgone (by simpa using hunused)
      obtain ⟨u, hu⟩ := KnowledgeStore.updateItem_total (·.moved entry.relativePath c.now)
        (fun _ => rfl) hp.sound.paths hmem fun other ho hsame => absurd hsame (hfree other ho)
      obtain ⟨hreplaces, hunique, hrevisions, _⟩ := KnowledgeStore.updateItem_ok hmem hu
      refine ⟨a, { σ with store := u, consumed := σ.consumed ++ [a.id] }, ?_, hunique,
        ⟨_, hreplaces.mem, rfl, rfl⟩, fun r hr => hbelow a hmem r (hrevisions ▸ hr)⟩
      rw [hu]
      rfl
    · have hid : ∀ other ∈ σ.store.items, other.id ≠ c.newId σ.next := fun other ho =>
        hf.items other ho σ.next (Nat.le_refl _)
      obtain ⟨u, hu⟩ := KnowledgeStore.insertItem_total (s := σ.store)
        ⟨c.newId σ.next, entry.relativePath, none, 0, none, c.now, c.now⟩ hfree hid
      obtain ⟨hrows, _, _, hrevisions, _⟩ := KnowledgeStore.insertItem_ok hu
      refine ⟨⟨c.newId σ.next, entry.relativePath, none, 0, none, c.now, c.now⟩,
        { σ with store := u, next := σ.next + 1 }, ?_, ?_,
        ⟨_, (Table.mem_of_rows_append hrows).mpr (.inr (List.mem_singleton_self _)), rfl, rfl⟩,
        fun r hr howner => ?_⟩
      · simp only [hu]
        rfl
      · rw [hrows, List.map_append, List.nodup_append']
        refine ⟨hp.sound.paths, List.nodup_singleton _, fun path hpath hnew => ?_⟩
        obtain ⟨other, ho, rfl⟩ := List.mem_map.mp hpath
        exact hfree other ho (List.mem_singleton.mp hnew)
      · obtain ⟨owner, howned, hsame⟩ := hp.sound.owned r (hrevisions ▸ hr)
        exact absurd (hsame.trans howner) (hid owner howned)

/-- Neither loop raises while the ids are fresh. -/
theorem Progress.loop_total (hread : c.read.Sound)
    (hpaths : c.paths = entries.map (·.relativePath))
    (hdistinct : (entries.map (·.relativePath)).Nodup) {sorted : List (KnowledgeIngestItem x)}
    (hperm : sorted.Perm entries) (hinj : Function.Injective c.newId)
    (hfresh : c.Fresh ⟨c.read, [], [], 0⟩) :
    ∃ τ, sorted.foldlM c.step ⟨c.read, [], [], 0⟩ = .ok τ := by
  obtain ⟨τ, h, _⟩ := foldlM_total (f := c.step)
    (I := fun rest σ => (∃ done, sorted = done ++ rest ∧ c.Progress entries done σ) ∧ c.Fresh σ)
    (fun entry rest σ hi => by
      obtain ⟨⟨done, hsplit, hp⟩, hf⟩ := hi
      obtain ⟨hin, hmem, hdone⟩ := turn_of_split hpaths hdistinct hperm hsplit
      obtain ⟨τ, hstep⟩ := hp.step_total hread hin hdone hinj hf
      obtain ⟨item, new, hturn⟩ := step_turn hread hin hdone hp hstep
      obtain ⟨⟨placed, υ⟩, hplace, hrecord⟩ := bind_ok hstep
      refine ⟨τ, hstep, ⟨done ++ [entry], ?_, hp.turn hread hin hdone hmem hturn⟩,
        (hf.place hinj hplace).record hinj hrecord⟩
      rw [hsplit, List.append_assoc, List.singleton_append])
    ⟨⟨[], rfl, .start hread⟩, hfresh⟩
  exact ⟨τ, h⟩

theorem bury_total (rows : List KnowledgeItem)
    (hunique : (s.items.rows.map (·.relativePath)).Nodup) :
    ∃ t, rows.foldlM c.bury s = .ok t := by
  obtain ⟨t, h, _⟩ := foldlM_total (f := c.bury) (l := rows)
    (I := fun _ t => (t.items.rows.map (·.relativePath)).Nodup) (fun row _ t hi => by
      exact KnowledgeStore.updateItem_kept (·.buried c.now) (fun _ => rfl) hi (fun _ => rfl)
        row.id) hunique
  exact ⟨t, h⟩

end Total

end SyncContext

namespace KnowledgeStore

variable {s t : KnowledgeStore} {x : ContentHashing} {source : KnowledgeSource}
  {entries : List (KnowledgeIngestItem x)} {now : Time} {newId : Nat → Uuid}
  {clock : Nat → Time} {delta : KnowledgeSyncDelta}

/-- What a call has at hand. -/
def context (s : KnowledgeStore) (source : KnowledgeSource) (entries : List (KnowledgeIngestItem x))
    (now : Time) (newId : Nat → Uuid) (clock : Nat → Time) : SyncContext :=
  ⟨s, entries.map (·.relativePath), source.syncCursor, now, newId, clock⟩

theorem synchronize_ok (h : s.synchronize source entries now newId clock = .ok (t, delta)) :
    1 ≤ source.syncCursor ∧ (entries.map (·.relativePath)).Nodup ∧
      (∃ persisted, s.source = some persisted ∧ persisted.syncCursor ≤ source.syncCursor) ∧
      ∃ σ u, (entries.mergeSort fun a b => a.relativePath ≤ b.relativePath).foldlM
          (s.context source entries now newId clock).step ⟨s, [], [], 0⟩ = .ok σ ∧
        ((s.context source entries now newId clock).buriable σ).foldlM
          (s.context source entries now newId clock).bury σ.store = .ok u ∧
        t = u.updateSource source ∧ delta = ⟨σ.created,
          ((s.context source entries now newId clock).buriable σ).map (·.id)⟩ := by
  simp only [synchronize, ↓check_bind_ok_iff] at h
  obtain ⟨hcursor, hdistinct, h⟩ := h
  obtain ⟨_, hcheck, h⟩ := bind_ok h
  obtain ⟨σ, hloop, h⟩ := bind_ok h
  obtain ⟨u, hbury, h⟩ := bind_ok h
  cases pure_ok h
  refine ⟨Nat.not_lt.mp hcursor, not_not.mp hdistinct, ?_, σ, u, hloop, hbury, rfl, rfl⟩
  unfold checkCursor at hcheck
  split at hcheck
  · cases hcheck
  · rename_i persisted hsource
    refine ⟨persisted, hsource, ?_⟩
    split at hcheck
    · cases hcheck
    · rename_i hbehind
      exact Nat.not_lt.mp hbehind

theorem synchronize_of {σ : SyncState} {u : KnowledgeStore} {persisted : KnowledgeSource}
    (hcursor : 1 ≤ source.syncCursor) (hdistinct : (entries.map (·.relativePath)).Nodup)
    (hsource : s.source = some persisted) (hbehind : persisted.syncCursor ≤ source.syncCursor)
    (hloop : (entries.mergeSort fun a b => a.relativePath ≤ b.relativePath).foldlM
      (s.context source entries now newId clock).step ⟨s, [], [], 0⟩ = .ok σ)
    (hbury : ((s.context source entries now newId clock).buriable σ).foldlM
      (s.context source entries now newId clock).bury σ.store = .ok u) :
    s.synchronize source entries now newId clock = .ok (u.updateSource source, ⟨σ.created,
      ((s.context source entries now newId clock).buriable σ).map (·.id)⟩) := by
  have hcheck : s.checkCursor source = .ok () := by
    rw [checkCursor, hsource]
    exact if_neg (Nat.not_lt.mpr hbehind)
  simp only [synchronize, ↓check_bind_ok_iff]
  refine ⟨Nat.not_lt.mpr hcursor, not_not.mpr hdistinct, ?_⟩
  simp only [context] at hloop hbury ⊢
  rw [hcheck, ok_bind, hloop, ok_bind, hbury]
  rfl

theorem Sound.updateSource (h : s.Sound) : (s.updateSource source).Sound where
  paths := h.paths
  current := fun item hi => by
    obtain ⟨r, hr, hrest⟩ := h.current item hi
    exact ⟨r, ⟨hr.mem, hr.id⟩, hrest⟩
  numbered := h.numbered
  distinct := h.distinct
  owned := h.owned

/-- What a call leaves behind. -/
structure Synced (s t : KnowledgeStore) (source : KnowledgeSource)
    (entries : List (KnowledgeIngestItem x)) (c : SyncContext) (delta : KnowledgeSyncDelta) :
    Prop where
  sound : t.Sound
  revisions : t.revisions.rows = s.revisions.rows ++ delta.createdRevisions
  live : ∀ item ∈ t.items, item.tombstonedAt = none →
    ∃ e ∈ entries, e.relativePath = item.relativePath
  settled : ∀ e ∈ entries, ∃ item ∈ t.items, item.relativePath = e.relativePath ∧
    item.tombstonedAt = none ∧ t.HasHash item e.contentHash ∧ c.Identity entries e item
  created : ∀ r ∈ delta.createdRevisions, ∃ e ∈ entries, r.relativePath = e.relativePath ∧
    ∀ a ∈ s.items, a.relativePath = e.relativePath → ¬ s.HasHash a e.contentHash
  cursor : ∃ persisted, t.source = some persisted ∧ persisted.syncCursor = source.syncCursor

theorem synchronize_synced (hs : s.Sound)
    (h : s.synchronize source entries now newId clock = .ok (t, delta)) :
    s.Synced t source entries (s.context source entries now newId clock) delta := by
  obtain ⟨_, hdistinct, ⟨persisted, hpersisted, _⟩, σ, u, hloop, hbury, rfl, rfl⟩ :=
    synchronize_ok h
  have hperm := List.mergeSort_perm entries fun a b => decide (a.relativePath ≤ b.relativePath)
  have hp := SyncContext.Progress.loop (c := s.context source entries now newId clock) hs rfl
    hdistinct hperm hloop
  have hdone : ∀ {e}, e ∈ entries.mergeSort (fun a b => decide (a.relativePath ≤ b.relativePath)) ↔
      e ∈ entries := hperm.mem_iff
  have hin : ∀ e ∈ entries.mergeSort (fun a b => decide (a.relativePath ≤ b.relativePath)),
      e.relativePath ∈ entries.map (·.relativePath) := fun e he =>
    List.mem_map_of_mem (hdone.mp he)
  have hrows : ∀ row ∈ (s.context source entries now newId clock).buriable σ,
      row ∈ σ.store.items := by
    intro row hrow
    obtain ⟨⟨hmem, hgone⟩, hfree, _⟩ := SyncContext.mem_buriable.mp hrow
    exact hp.removed_mem hin hmem hgone hfree
  have hb := SyncContext.bury_loop hp.sound hrows SyncContext.buriable_distinct hbury
  have hrevisions : (u.updateSource source).revisions = σ.store.revisions := hb.revisions
  refine ⟨hb.sound.updateSource, ?_, fun item hi hlive => ?_, fun e he => ?_, fun r hr => ?_, ?_⟩
  · rw [hrevisions, hp.revisions]
    rfl
  · obtain ⟨row, _, rfl⟩ | ⟨hi, hothers⟩ := (hb.items item).mp hi
    · cases hlive
    · obtain ⟨hread, hfree, hid⟩ | ⟨e, he, hpath⟩ := hp.origin item hi
      · -- an item that no entry has claimed would have been buried
        have hgone : item.relativePath ∉ entries.map (·.relativePath) := by
          intro hmem
          obtain ⟨e, he, hpath⟩ := List.mem_map.mp hmem
          exact hfree e (hdone.mpr he) hpath
        exact absurd rfl (hothers item (SyncContext.mem_buriable.mpr
          ⟨⟨hread, hgone⟩, hid, hlive⟩))
      · exact ⟨e, hdone.mp he, hpath⟩
  · obtain ⟨item, hi, hpath, hlive, ⟨r, hr, hhash⟩, hidentity⟩ := hp.settled e (hdone.mpr he)
    refine ⟨item, (hb.items item).mpr (.inr ⟨hi, fun row hrow hid => ?_⟩), hpath, hlive,
      ⟨r, ⟨hrevisions ▸ hr.mem, hr.id⟩, hhash⟩, hidentity⟩
    obtain ⟨⟨_, hgone⟩, _⟩ := SyncContext.mem_buriable.mp hrow
    obtain rfl := Table.eq_of_key (hrows row hrow) hi hid
    exact hgone (hpath ▸ List.mem_map_of_mem he)
  · obtain ⟨e, he, hrest⟩ := hp.created r hr
    exact ⟨e, hdone.mp he, hrest⟩
  · have hsource : u.source = some persisted := (hb.source.trans hp.source).trans hpersisted
    have hupdated := congrArg (Option.map fun persisted : KnowledgeSource =>
      { persisted with
        status := source.status, revision := source.revision, syncCursor := source.syncCursor
        displayName := source.displayName, displayPath := source.displayPath
        updatedAt := source.updatedAt }) hsource
    exact ⟨_, hupdated, rfl⟩

/-- A call that finds each entry in its place changes no item. -/
theorem synchronize_settled {persisted : KnowledgeSource} (ht : t.Sound)
    (hcursor : 1 ≤ source.syncCursor) (hdistinct : (entries.map (·.relativePath)).Nodup)
    (hsource : t.source = some persisted) (hbehind : persisted.syncCursor ≤ source.syncCursor)
    (hsettled : ∀ e ∈ entries, ∃ item ∈ t.items, item.relativePath = e.relativePath ∧
      item.tombstonedAt = none ∧ t.HasHash item e.contentHash)
    (hlive : ∀ item ∈ t.items, item.tombstonedAt = none →
      ∃ e ∈ entries, e.relativePath = item.relativePath) :
    t.synchronize source entries now newId clock = .ok (t.updateSource source, ⟨[], []⟩) := by
  have hstep : ∀ e ∈ entries, (t.context source entries now newId clock).step ⟨t, [], [], 0⟩ e =
      .ok ⟨t, [], [], 0⟩ := by
    intro e he
    obtain ⟨item, hi, hpath, hbone, hhash⟩ := hsettled e he
    have hfound : t.byPath e.relativePath = some item := by
      cases hfind : t.byPath e.relativePath with
      | none => exact absurd hpath (byPath_none hfind item hi)
      | some other =>
        obtain ⟨ho, hsame⟩ := byPath_some hfind
        rw [ht.eq_of_path ho hi (hsame.trans hpath.symm)]
    obtain ⟨r, hr, hrpath, hrow⟩ := ht.revisionByItem hi
    obtain ⟨r', hr', hr'hash⟩ := hhash
    have hunchanged : (t.context source entries now newId clock).Unchanged e item :=
      ⟨r, hrow, hr.eq hr' ▸ hr'hash, hrpath.trans hpath⟩
    have hplace : (t.context source entries now newId clock).place e ⟨t, [], [], 0⟩ =
        .ok (item, ⟨t, [], [], 0⟩) := by
      simp only [SyncContext.place, context, hfound]
    have hrecord : (t.context source entries now newId clock).record e item ⟨t, [], [], 0⟩ =
        .ok ⟨t, [], [], 0⟩ := by
      rw [SyncContext.record, if_pos hunchanged, if_neg (not_not.mpr hbone)]
    rw [SyncContext.step, hplace]
    exact hrecord
  have hnone : (t.context source entries now newId clock).buriable ⟨t, [], [], 0⟩ = [] := by
    refine List.eq_nil_iff_forall_not_mem.mpr fun item hi => ?_
    obtain ⟨⟨hmem, hgone⟩, _, hbone⟩ := SyncContext.mem_buriable.mp hi
    obtain ⟨e, he, hpath⟩ := hlive item hmem hbone
    exact hgone (hpath ▸ List.mem_map_of_mem he)
  have hloop : ∀ l : List (KnowledgeIngestItem x), (∀ e ∈ l, e ∈ entries) →
      l.foldlM (t.context source entries now newId clock).step ⟨t, [], [], 0⟩ =
        .ok ⟨t, [], [], 0⟩ := by
    intro l hl
    induction l with
    | nil => rfl
    | cons e l ih =>
      rw [List.forall_mem_cons] at hl
      rw [List.foldlM_cons, hstep e hl.1, ok_bind, ih hl.2]
  rw [synchronize_of hcursor hdistinct hsource hbehind
    (hloop _ fun e he => (List.mergeSort_perm entries _).mem_iff.mp he) (by rw [hnone]; rfl), hnone]
  rfl

/-- A call with fresh ids at a cursor that has not moved backwards does not raise. -/
theorem synchronize_total {persisted : KnowledgeSource} (hs : s.Sound)
    (hcursor : 1 ≤ source.syncCursor) (hdistinct : (entries.map (·.relativePath)).Nodup)
    (hsource : s.source = some persisted) (hbehind : persisted.syncCursor ≤ source.syncCursor)
    (hinj : Function.Injective newId) (hitems : ∀ item ∈ s.items, ∀ n, item.id ≠ newId n)
    (hrevisions : ∀ r ∈ s.revisions, ∀ n, r.id ≠ newId n) :
    ∃ t delta, s.synchronize source entries now newId clock = .ok (t, delta) := by
  have hperm := List.mergeSort_perm entries fun a b => decide (a.relativePath ≤ b.relativePath)
  obtain ⟨σ, hloop⟩ := SyncContext.Progress.loop_total
    (c := s.context source entries now newId clock) hs rfl hdistinct hperm hinj
    ⟨fun item hi n _ => hitems item hi n, fun r hr n _ => hrevisions r hr n⟩
  have hp := SyncContext.Progress.loop (c := s.context source entries now newId clock) hs rfl
    hdistinct hperm hloop
  obtain ⟨u, hbury⟩ := SyncContext.bury_total (c := s.context source entries now newId clock)
    ((s.context source entries now newId clock).buriable σ) hp.sound.paths
  exact ⟨_, _, synchronize_of hcursor hdistinct hsource hbehind hloop hbury⟩

end KnowledgeStore

end Fairy.Knowledge
