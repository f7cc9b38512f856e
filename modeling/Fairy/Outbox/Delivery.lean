import Fairy.Lib.Chronicle
import Fairy.Outbox.Worker

namespace Fairy.Outbox

open Fairy.Lib

/-- What must have happened before an event: a claim is the first with its fence and comes
before any publication of the item, a handler returns for a claim, and only the holder of the
latest claim publishes, once its handler has returned. -/
def Justifies (before : List OutboxEvent) : OutboxEvent → Prop
  | .claimed c => (∀ d, .claimed d ∈ before → d.id = c.id → d.leaseFence < c.leaseFence) ∧
      ∀ d, .published d ∈ before → d.id ≠ c.id
  | .returned item => .claimed item ∈ before
  | .published item => .returned item ∈ before ∧
      (∀ c, .claimed c ∈ before → c.id = item.id → c.leaseFence ≤ item.leaseFence) ∧
      ∀ d, .published d ∈ before → d.id ≠ item.id

/-- The outbox agrees with the latest instant of the database and with what has happened. -/
structure Agrees (outbox : OutboxTable) (clock : Time) (log : List OutboxEvent) : Prop where
  available : ∀ a ∈ outbox, a.availableAt ≤ clock
  fenced : ∀ c, .claimed c ∈ log → ∃ a ∈ outbox, a.id = c.id ∧ c.leaseFence ≤ a.leaseFence
  marked : ∀ c, .published c ∈ log → ∃ a ∈ outbox, a.id = c.id ∧ a.publishedAt ≠ none
  settled : ∀ a ∈ outbox, a.publishedAt ≠ none → a.leaseOwner = none ∧
    ∃ c, .published c ∈ log ∧ c.id = a.id
  justified : Justified Justifies log

/-- What no later act takes back from an item. -/
structure OutboxRow.Keeps (a b : OutboxRow) : Prop where
  id : b.id = a.id
  event : b.tenantId = a.tenantId ∧ b.eventId = a.eventId ∧ b.topic = a.topic ∧
    b.payload = a.payload ∧ b.availableAt = a.availableAt
  published : a.publishedAt ≠ none → b.publishedAt = a.publishedAt

variable {t u : OutboxTable} {log : List OutboxEvent} {a b c : OutboxRow} {item : OutboxItem}
variable {now clock : Time} {ownerId : String}

namespace OutboxRow.Keeps

theorem refl (a : OutboxRow) : a.Keeps a := ⟨rfl, ⟨rfl, rfl, rfl, rfl, rfl⟩, fun _ => rfl⟩

theorem trans (h : a.Keeps b) (h' : b.Keeps c) : a.Keeps c := by
  refine ⟨h'.id.trans h.id, ?_, fun hp => ?_⟩
  · obtain ⟨h1, h2, h3, h4, h5⟩ := h.event
    obtain ⟨h1', h2', h3', h4', h5'⟩ := h'.event
    exact ⟨h1'.trans h1, h2'.trans h2, h3'.trans h3, h4'.trans h4, h5'.trans h5⟩
  · have hb := h.published hp
    rw [h'.published (by rwa [hb]), hb]

end OutboxRow.Keeps

/-- Every item of the first outbox is still in the second. -/
def Kept (t u : OutboxTable) : Prop := ∀ a ∈ t, ∃ b ∈ u, a.Keeps b

theorem Kept.refl (t : OutboxTable) : Kept t t := fun a ha => ⟨a, ha, .refl a⟩

theorem Kept.trans {v : OutboxTable} (h : Kept t u) (h' : Kept u v) : Kept t v := by
  intro a ha
  obtain ⟨b, hb, hab⟩ := h a ha
  obtain ⟨c, hc, hbc⟩ := h' b hb
  exact ⟨c, hc, hab.trans hbc⟩

theorem Kept.of_replaces (h : Table.Replaces t u a b) (hk : a.Keeps b) : Kept t u := by
  intro c hc
  by_cases hid : c.id = a.id
  · obtain rfl := Table.eq_of_key hc h.1 hid
    exact ⟨b, h.mem, hk⟩
  · exact ⟨c, h.mem_other hc hid, .refl c⟩

namespace Agrees

theorem empty : Agrees .empty 0 [] where
  available _ h := absurd h (Table.not_mem_empty _)
  fenced _ h := absurd h List.not_mem_nil
  marked _ h := absurd h List.not_mem_nil
  settled _ h := absurd h (Table.not_mem_empty _)
  justified := .nil

/-- A new row is unpublished, and no event is about it. -/
theorem appended (h : Agrees t clock log) {row : OutboxRow} (hrow : row.publishedAt = none)
    (hnow : row.availableAt ≤ clock)
    (hrows : u.rows = t.rows ++ [row]) : Agrees u clock log := by
  have hmem : ∀ {b}, b ∈ u ↔ b ∈ t ∨ b = row := by
    intro b
    rw [Table.mem_of_rows_append hrows, List.mem_singleton]
  refine ⟨fun b hb => ?_, fun c hc => ?_, fun c hc => ?_, fun b hb hp => ?_, h.justified⟩
  · obtain hb | rfl := hmem.mp hb
    · exact h.available b hb
    · exact hnow
  · obtain ⟨a, ha, hrest⟩ := h.fenced c hc
    exact ⟨a, hmem.mpr (.inl ha), hrest⟩
  · obtain ⟨a, ha, hrest⟩ := h.marked c hc
    exact ⟨a, hmem.mpr (.inl ha), hrest⟩
  · obtain hb | rfl := hmem.mp hb
    · exact h.settled b hb hp
    · exact absurd hrow hp

theorem returned (h : Agrees t clock log) (hc : .claimed item ∈ log) :
    Agrees t clock (log ++ [.returned item]) where
  available := h.available
  fenced c hmem := h.fenced c (by simpa using hmem)
  marked c hmem := h.marked c (by simpa using hmem)
  settled a ha hp := by
    obtain ⟨hnone, c, hmem, hid⟩ := h.settled a ha hp
    exact ⟨hnone, c, List.mem_append_left _ hmem, hid⟩
  justified := h.justified.snoc hc

theorem claimed (h : Agrees t clock log) (hb : b = a.claimedBy ownerId now)
    (hopen : a.publishedAt = none) (hr : Table.Replaces t u a b) :
    Agrees u clock (log ++ [.claimed (b.toItem ownerId now)]) := by
  obtain rfl := hb
  refine ⟨fun d hd => ?_, fun c hc => ?_, fun c hc => ?_, fun d hd hp => ?_,
    h.justified.snoc ⟨?_, ?_⟩⟩
  · obtain rfl | ⟨hd, _⟩ := hr.cases hd
    · exact h.available a hr.1
    · exact h.available d hd
  · obtain hc | hc := List.mem_append.mp hc
    · obtain ⟨d, hd, hid, hle⟩ := h.fenced c hc
      by_cases hk : d.id = a.id
      · obtain rfl := Table.eq_of_key hd hr.1 hk
        exact ⟨_, hr.mem, hid, Nat.le_succ_of_le hle⟩
      · exact ⟨d, hr.mem_other hd hk, hid, hle⟩
    · obtain rfl := OutboxEvent.claimed.inj (List.mem_singleton.mp hc)
      exact ⟨_, hr.mem, rfl, Nat.le_refl _⟩
  · obtain ⟨d, hd, hid, hp⟩ := h.marked c (by simpa using hc)
    refine ⟨d, hr.mem_other hd fun hk => hp ?_, hid, hp⟩
    rw [Table.eq_of_key hd hr.1 hk, hopen]
  · obtain rfl | ⟨hd, _⟩ := hr.cases hd
    · exact absurd hopen hp
    · obtain ⟨hnone, c, hmem, hid⟩ := h.settled d hd hp
      exact ⟨hnone, c, List.mem_append_left _ hmem, hid⟩
  · intro d hd hid
    obtain ⟨e, he, heid, hle⟩ := h.fenced d hd
    obtain rfl := Table.eq_of_key he hr.1 (heid.trans hid)
    exact Nat.lt_succ_of_le hle
  · intro d hd hid
    obtain ⟨e, he, heid, hp⟩ := h.marked d hd
    obtain rfl := Table.eq_of_key he hr.1 (heid.trans hid)
    exact hp hopen

theorem unpublished (h : Agrees t clock log) (hheld : item.Held ownerId a) (ha : a ∈ t) :
    a.publishedAt = none := by
  by_contra hp
  exact absurd (hheld.2.2.1.symm.trans (h.settled a ha hp).1) nofun

theorem published (h : Agrees t clock log) (hheld : item.Held ownerId a) (hreturned : .returned item ∈ log)
    (hr : Table.Replaces t u a (a.publishedAs now)) : Agrees u clock (log ++ [.published item]) := by
  have hopen := h.unpublished hheld hr.1
  refine ⟨fun d hd => ?_, fun c hc => ?_, fun c hc => ?_, fun d hd hp => ?_,
    h.justified.snoc ⟨hreturned, ?_, ?_⟩⟩
  · obtain rfl | ⟨hd, _⟩ := hr.cases hd
    · exact h.available a hr.1
    · exact h.available d hd
  · obtain ⟨d, hd, hid, hle⟩ := h.fenced c (by simpa using hc)
    by_cases hk : d.id = a.id
    · obtain rfl := Table.eq_of_key hd hr.1 hk
      exact ⟨_, hr.mem, hid, hle⟩
    · exact ⟨d, hr.mem_other hd hk, hid, hle⟩
  · obtain hc | hc := List.mem_append.mp hc
    · obtain ⟨d, hd, hid, hp⟩ := h.marked c hc
      refine ⟨d, hr.mem_other hd fun hk => hp ?_, hid, hp⟩
      rw [Table.eq_of_key hd hr.1 hk, hopen]
    · obtain rfl := OutboxEvent.published.inj (List.mem_singleton.mp hc)
      exact ⟨_, hr.mem, hheld.2.1, nofun⟩
  · obtain rfl | ⟨hd, _⟩ := hr.cases hd
    · exact ⟨rfl, item, by simp, hheld.2.1.symm⟩
    · obtain ⟨hnone, c, hmem, hid⟩ := h.settled d hd hp
      exact ⟨hnone, c, List.mem_append_left _ hmem, hid⟩
  · intro c hc hid
    obtain ⟨e, he, heid, hle⟩ := h.fenced c hc
    obtain rfl := Table.eq_of_key he hr.1 (heid.trans (hid.trans hheld.2.1.symm))
    exact Nat.le_trans hle (Nat.le_of_eq hheld.2.2.2)
  · intro d hd hid
    obtain ⟨e, he, heid, hp⟩ := h.marked d hd
    obtain rfl := Table.eq_of_key he hr.1 (heid.trans (hid.trans hheld.2.1.symm))
    exact hp hopen

theorem later (h : Agrees t clock log) (hle : clock ≤ now) : Agrees t now log :=
  { h with available := fun a ha => Nat.le_trans (h.available a ha) hle }

end Agrees

section Statements

variable {items rows : List OutboxItem}

/-- What `claim_outbox` keeps while it runs through the rows that it has selected. -/
structure Claiming (t : OutboxTable) (clock : Time) (log : List OutboxEvent)
    (rest : List OutboxRow) (s : OutboxTable × List OutboxItem) : Prop where
  agrees : Agrees s.1 clock (log ++ s.2.map .claimed)
  kept : Kept t s.1
  left : ∀ a ∈ rest, a ∈ s.1 ∧ a.publishedAt = none
  nodup : (rest.map OutboxRow.id).Nodup

theorem Claiming.next {rest : List OutboxRow} {s : OutboxTable × List OutboxItem}
    (h : Claiming t clock log (a :: rest) s) :
    Claiming t clock log rest (OutboxTable.claimRow ownerId now s a) := by
  obtain ⟨hmem, hopen⟩ := h.left a List.mem_cons_self
  have hr : Table.Replaces s.1 (OutboxTable.claimRow ownerId now s a).1 a
      (a.claimedBy ownerId now) :=
    Table.replaces_update rfl hmem ⟨rfl, rfl, rfl⟩ (fun b _ hb => hb.2.1) rfl
  obtain ⟨hne, hnodup⟩ := List.nodup_cons.mp h.nodup
  refine ⟨?_, h.kept.trans (.of_replaces hr ⟨rfl, ⟨rfl, rfl, rfl, rfl, rfl⟩, fun _ => rfl⟩),
    fun b hb => ?_, hnodup⟩
  · have hc := h.agrees.claimed rfl hopen hr
    simpa [OutboxTable.claimRow] using hc
  · obtain ⟨hbmem, hbopen⟩ := h.left b (List.mem_cons_of_mem _ hb)
    refine ⟨hr.mem_other hbmem fun hid => hne ?_, hbopen⟩
    exact List.mem_map.mpr ⟨b, hb, hid⟩

theorem claimable_nodup {batchSize : Nat} {locked : List Nat} :
    ((t.claimable now batchSize locked).map OutboxRow.id).Nodup :=
  nodup_map_batch (t.nodup.sublist (List.filter_sublist.map _))

theorem claimOutbox_agrees {workerNow : Time} {batchSize leaseSeconds : Nat} {locked : List Nat}
    (h : Agrees t clock log)
    (hok : t.claimOutbox now workerNow ownerId batchSize leaseSeconds locked = .ok (u, items)) :
    Agrees u clock (log ++ items.map .claimed) ∧ Kept t u := by
  simp only [OutboxTable.claimOutbox] at hok
  split at hok
  · cases hok
  · split at hok
    · cases hok
    · obtain hu := Except.ok.inj hok
      have hend := foldl_rule (I := Claiming t clock log) (fun a l s hs => hs.next)
        (f := OutboxTable.claimRow ownerId (workerNow + leaseSeconds))
        (l := t.claimable now batchSize locked) (b := (t, [])) ⟨by simpa using h, .refl t,
          fun a ha => ?_, claimable_nodup⟩
      · rw [hu] at hend
        exact ⟨hend.agrees, hend.kept⟩
      · obtain ⟨hmem, hclaimable, _⟩ := Table.mem_select.mp (mem_of_mem_batch ha)
        exact ⟨hmem, hclaimable.1⟩

/-- What `mark_outbox_published` keeps while it runs through its items. -/
structure Publishing (t : OutboxTable) (clock : Time) (log : List OutboxEvent)
    (rest : List OutboxItem) (s : OutboxTable × List OutboxItem) : Prop where
  agrees : Agrees s.1 clock (log ++ s.2.map .published)
  kept : Kept t s.1
  left : ∀ item ∈ rest, .returned item ∈ log

theorem Publishing.next {rest : List OutboxItem} {s : OutboxTable × List OutboxItem}
    (h : Publishing t clock log (item :: rest) s) :
    Publishing t clock log rest (OutboxTable.publishItem now ownerId s item) := by
  have hrest : ∀ item ∈ rest, .returned item ∈ log :=
    fun i hi => h.left i (List.mem_cons_of_mem _ hi)
  by_cases hheld : ∃ a ∈ s.1.rows, item.Held ownerId a
  · obtain ⟨a, ha, hp⟩ := hheld
    have hr : Table.Replaces s.1 (OutboxTable.publishItem now ownerId s item).1 a
        (a.publishedAs now) :=
      Table.replaces_update rfl ha hp (fun b _ hb => hb.2.1.trans hp.2.1.symm) rfl
    have hreturned : .returned item ∈ log ++ s.2.map .published :=
      List.mem_append_left _ (h.left item List.mem_cons_self)
    have hopen := h.agrees.unpublished hp ha
    refine ⟨?_, h.kept.trans (.of_replaces hr ⟨rfl, ⟨rfl, rfl, rfl, rfl, rfl⟩,
      fun hne => absurd hopen hne⟩), hrest⟩
    have hpub := h.agrees.published hp hreturned hr
    have hlog : (OutboxTable.publishItem now ownerId s item).2 = s.2 ++ [item] :=
      if_pos ⟨a, ha, hp⟩
    rwa [hlog, List.map_append, ← List.append_assoc]
  · have hsame : OutboxTable.publishItem now ownerId s item = s := by
      have hupdate : s.1.update (item.Held ownerId) (OutboxRow.publishedAs now) = s.1 :=
        Table.update_eq_self fun a ha hp => hheld ⟨a, ha, hp⟩
      rw [OutboxTable.publishItem, if_neg hheld, hupdate]
    rw [hsame]
    exact ⟨h.agrees, h.kept, hrest⟩

theorem markOutboxPublished_agrees (now : Time) (ownerId : String) (h : Agrees t clock log)
    (hreturned : ∀ item ∈ items, .returned item ∈ log) :
    Agrees (t.markOutboxPublished now ownerId items).1 clock
        (log ++ (t.markOutboxPublished now ownerId items).2.map .published) ∧
      Kept t (t.markOutboxPublished now ownerId items).1 := by
  have hend := foldl_rule (I := Publishing t clock log) (fun a l s hs => hs.next)
    (f := OutboxTable.publishItem now ownerId) (l := items) (b := (t, []))
    ⟨by simpa using h, .refl t, hreturned⟩
  exact ⟨hend.agrees, hend.kept⟩

end Statements

/-- A cycle holds items that were claimed, and sets aside those whose handler returned. -/
def WorkerCycle.Agrees (log : List OutboxEvent) (c : WorkerCycle) : Prop :=
  (∀ item ∈ c.pending, .claimed item ∈ log) ∧ ∀ item ∈ c.successful, .returned item ∈ log

theorem WorkerCycle.Agrees.mono {c : WorkerCycle} {l : List OutboxEvent} (h : c.Agrees log) :
    c.Agrees (log ++ l) :=
  ⟨fun i hi => List.mem_append_left _ (h.1 i hi), fun i hi => List.mem_append_left _ (h.2 i hi)⟩

namespace World

structure Sound (w : World) : Prop where
  agrees : Agrees w.outbox w.clock w.log
  cycles : ∀ c ∈ w.cycles, c.Agrees w.log

variable {w w' : World} {act : OutboxAct} {row : OutboxRow} {cycle : Nat}

theorem sound_initial : initial.Sound := ⟨.empty, fun _ h => absurd h List.not_mem_nil⟩

/-- A step that is sound and loses nothing. -/
structure Advances (w w' : World) : Prop where
  sound : w'.Sound
  kept : Kept w.outbox w'.outbox

theorem Sound.advances_self (h : w.Sound) : Advances w w := ⟨h, .refl _⟩

theorem Sound.append (h : w.Sound) (hrow : row.publishedAt = none) (hnow : row.availableAt ≤ now) :
    Advances w (w.append now row) := by
  have hlater := h.agrees.later (Nat.le_max_left w.clock now)
  obtain ⟨_, hsame⟩ | ⟨_, hrows⟩ := Table.insertUnless_cases w.outbox
    (fun b => b.id = row.id ∨ b.tenantId = row.tenantId ∧ b.eventId = row.eventId) row
    (fun _ h => .inl h) trivial
  · refine ⟨⟨?_, h.cycles⟩, ?_⟩
    · simpa only [World.append, OutboxTable.append, hsame] using hlater
    · simpa only [World.append, OutboxTable.append, hsame] using .refl _
  · refine ⟨⟨hlater.appended hrow (Nat.le_trans hnow (Nat.le_max_right _ _)) hrows, h.cycles⟩,
      fun a ha => ⟨a, ?_, .refl a⟩⟩
    exact (Table.mem_of_rows_append hrows).mpr (.inl ha)

theorem Sound.claim {workerNow : Time} {worker : OutboxWorker} {locked : List Nat} (h : w.Sound) :
    Advances w (w.claim now workerNow worker locked) := by
  simp only [World.claim]
  split
  · rename_i outbox items hok
    have hlater := h.agrees.later (Nat.le_max_left w.clock now)
    obtain ⟨hagrees, hkept⟩ := claimOutbox_agrees hlater hok
    refine ⟨⟨hagrees, fun c hc => ?_⟩, hkept⟩
    obtain hc | hc := List.mem_append.mp hc
    · exact (h.cycles c hc).mono
    · obtain rfl := List.mem_singleton.mp hc
      refine ⟨fun i hi => List.mem_append_right _ (List.mem_map_of_mem hi), ?_⟩
      exact fun i hi => absurd hi List.not_mem_nil
  · exact h.advances_self

theorem Sound.handle {outcome : HandlerOutcome} (h : w.Sound) :
    Advances w (w.handle cycle outcome) := by
  simp only [World.handle]
  split
  · rename_i c hget
    obtain ⟨hpending, hsuccessful⟩ := h.cycles c (List.mem_of_getElem? hget)
    split
    · rename_i item rest hrest
      rw [hrest] at hpending
      have hitem := hpending item List.mem_cons_self
      refine ⟨⟨?_, fun d hd => ?_⟩, .refl _⟩
      · dsimp only
        split
        · exact h.agrees.returned hitem
        · rw [List.append_nil]
          exact h.agrees
      · obtain hd | rfl := List.mem_or_eq_of_mem_set hd
        · exact (h.cycles d hd).mono
        · have hrest : ∀ i ∈ rest, ∀ l, .claimed i ∈ w.log ++ l := fun i hi l =>
            List.mem_append_left _ (hpending i (List.mem_cons_of_mem _ hi))
          simp only [WorkerCycle.handled]
          split
          · refine ⟨fun i hi => hrest i hi _, fun i hi => ?_⟩
            obtain hi | hi := List.mem_append.mp hi
            · exact List.mem_append_left _ (hsuccessful i hi)
            · rw [List.mem_singleton.mp hi]
              exact List.mem_append_right _ List.mem_cons_self
          · exact ⟨fun i hi => hrest i hi _, fun i hi => List.mem_append_left _ (hsuccessful i hi)⟩
    · exact h.advances_self
  · exact h.advances_self

theorem Sound.markPublished (h : w.Sound) : Advances w (w.markPublished now cycle) := by
  simp only [World.markPublished]
  split
  · rename_i c hget
    split
    · have hlater := h.agrees.later (Nat.le_max_left w.clock now)
      obtain ⟨hagrees, hkept⟩ := markOutboxPublished_agrees now c.worker.ownerId hlater
        (h.cycles c (List.mem_of_getElem? hget)).2
      exact ⟨⟨hagrees, fun d hd => (h.cycles d (List.mem_of_mem_eraseIdx hd)).mono⟩, hkept⟩
    · exact h.advances_self
  · exact h.advances_self

theorem Sound.after (h : w.Sound) : Advances w (w.after act) := by
  cases act with
  | append => exact h.append rfl (Nat.le_refl _)
  | claim => exact h.claim
  | handle => exact h.handle
  | markPublished => exact h.markPublished
  | crash cycle =>
    exact ⟨⟨h.agrees, fun c hc => h.cycles c (List.mem_of_mem_eraseIdx hc)⟩, .refl _⟩

theorem Sound.step (h : w.Sound) (hs : Step w act w') : Advances w w' := by
  rw [hs]
  exact h.after

theorem Sound.run (h : w.Sound) (hr : Run Step (fun _ _ => True) w w') : w'.Sound :=
  hr.invariant (fun _ _ _ ha _ hs => (ha.step hs).sound) h

theorem Sound.keeps (h : w.Sound) (hr : Run Step (fun _ _ => True) w w') :
    Kept w.outbox w'.outbox :=
  hr.history (I := Sound) (R := fun w w' => Kept w.outbox w'.outbox) (fun _ => .refl _)
    (fun _ _ _ => Kept.trans) (fun _ _ _ ha _ hs => (ha.step hs).sound)
    (fun _ _ _ ha _ hs => (ha.step hs).kept) h

end World

/-- A claim with room in its batch hands out every claimable row that nobody has locked. -/
theorem claimOutbox_hands_out {workerNow : Time} {batchSize leaseSeconds : Nat}
    {locked : List Nat} (ha : a ∈ t) (hclaimable : a.Claimable now) (hfree : a.id ∉ locked)
    (hlease : 0 < leaseSeconds)
    (hbatch : (t.rows.filter fun b => b.Claimable now ∧ b.id < a.id).length < batchSize) :
    ∃ u items, t.claimOutbox now workerNow ownerId batchSize leaseSeconds locked = .ok (u, items) ∧
      ∃ item ∈ items, item.id = a.id ∧ item.leaseFence = a.leaseFence + 1 := by
  have hsorts : Sorts (byKey OutboxRow.id)
      (t.select fun a => a.Claimable now ∧ a.id ∉ locked) :=
    sorts_byKey (t.nodup.sublist (List.filter_sublist.map _))
  have hrank : rank (byKey OutboxRow.id) (t.select fun a => a.Claimable now ∧ a.id ∉ locked) a <
      batchSize := by
    refine Nat.lt_of_le_of_lt ?_ hbatch
    rw [rank, Table.select, List.countP_filter, List.countP_eq_length_filter]
    refine (List.monotone_filter_right t.rows fun b hb => ?_).length_le
    simp only [byKey, Bool.and_eq_true, Bool.not_eq_true', decide_eq_false_iff_not,
      decide_eq_true_eq] at hb ⊢
    exact ⟨hb.2.1, Nat.lt_of_not_le hb.1⟩
  have hmem : a ∈ t.claimable now batchSize locked :=
    (mem_batch hsorts).mpr ⟨Table.mem_select.mpr ⟨ha, hclaimable, hfree⟩, hrank⟩
  have hvalid : ¬ batchSize < 1 := by omega
  refine ⟨_, _, by rw [OutboxTable.claimOutbox, if_neg (by omega), if_neg hvalid], ?_⟩
  have hitems : ∀ (rows : List OutboxRow) (s : OutboxTable × List OutboxItem),
      (rows.foldl (OutboxTable.claimRow ownerId (workerNow + leaseSeconds)) s).2 =
        s.2 ++ rows.map fun a => (a.claimedBy ownerId (workerNow + leaseSeconds)).toItem ownerId
          (workerNow + leaseSeconds) := by
    intro rows
    induction rows with
    | nil => simp
    | cons b rows ih => simp [ih, OutboxTable.claimRow]
  rw [hitems]
  exact ⟨_, List.mem_append_right _ (List.mem_map_of_mem hmem), rfl, rfl⟩

/-- At least once, and nothing is lost or retired early, in every order of the acts. A
publication sets `published_at`: its holder has the latest claim and has seen the handler
return, and no claim comes after it. -/
structure DeliversAtLeastOnce (w : World) : Prop where
  published : ∀ a ∈ w.outbox, a.publishedAt ≠ none → ∃ item, .published item ∈ w.log ∧ item.id = a.id
  holder : ∀ before item rest, w.log = before ++ .published item :: rest →
    List.Sublist [.claimed item, .returned item] before ∧
      (∀ c, .claimed c ∈ before → c.id = item.id → c.leaseFence ≤ item.leaseFence) ∧
      ∀ c, .claimed c ∈ rest → c.id ≠ item.id
  fences : ∀ c d, List.Sublist [.claimed c, .claimed d] w.log → c.id = d.id →
    c.leaseFence < d.leaseFence
  claimable : ∀ now, w.clock ≤ now → ∀ a ∈ w.outbox, a.publishedAt = none →
    (∀ t ∈ a.leaseExpiresAt, t ≤ now) → ∀ workerNow ownerId batchSize leaseSeconds locked,
      a.id ∉ locked → 0 < leaseSeconds →
      (w.outbox.rows.filter fun b => b.Claimable now ∧ b.id < a.id).length < batchSize →
      ∃ u items, w.outbox.claimOutbox now workerNow ownerId batchSize leaseSeconds locked =
        .ok (u, items) ∧ ∃ item ∈ items, item.id = a.id ∧ item.leaseFence = a.leaseFence + 1
  kept : ∀ w', Run World.Step (fun _ _ => True) w w' → ∀ a ∈ w.outbox, ∃ b ∈ w'.outbox, a.Keeps b

theorem Agrees.holder (h : Agrees t clock log) {before rest : List OutboxEvent}
    (hsplit : log = before ++ .published item :: rest) :
    List.Sublist [.claimed item, .returned item] before ∧
      (∀ c, .claimed c ∈ before → c.id = item.id → c.leaseFence ≤ item.leaseFence) ∧
      ∀ c, .claimed c ∈ rest → c.id ≠ item.id := by
  obtain ⟨hreturned, hlatest, _⟩ := h.justified before _ rest hsplit
  refine ⟨?_, hlatest, fun c hc hid => ?_⟩
  · obtain ⟨l₁, l₂, rfl⟩ := List.append_of_mem hreturned
    have hclaimed : .claimed item ∈ l₁ :=
      h.justified l₁ (.returned item) (l₂ ++ .published item :: rest) (by simp [hsplit])
    exact (List.singleton_sublist.mpr hclaimed).append
      (List.singleton_sublist.mpr List.mem_cons_self)
  · obtain ⟨l₁, l₂, rfl⟩ := List.append_of_mem hc
    obtain ⟨_, hnone⟩ := h.justified (before ++ .published item :: l₁) (.claimed c) l₂
      (by simp [hsplit])
    exact hnone item (by simp) hid.symm

theorem outbox_delivers_at_least_once {w : World}
    (h : Run World.Step (fun _ _ => True) .initial w) : DeliversAtLeastOnce w := by
  have hs := World.sound_initial.run h
  refine ⟨fun a ha hp => (hs.agrees.settled a ha hp).2, fun before item rest => hs.agrees.holder,
    fun c d hsub hid => ?_, fun now hnow a ha hopen hlapsed workerNow ownerId batchSize
      leaseSeconds locked hfree hlease hbatch => ?_, fun w' => hs.keeps⟩
  · obtain ⟨before, hc, hd⟩ := hs.agrees.justified.of_sublist hsub
    exact hd.1 c hc hid
  · have havailable := Nat.le_trans (hs.agrees.available a ha) hnow
    exact claimOutbox_hands_out ha ⟨hopen, havailable, hlapsed⟩ hfree hlease hbatch

def eventWorker (ownerId : String) : OutboxWorker := ⟨ownerId, ["domain.events"], 10, 30⟩

/-- The first worker stalls in its handler, the second one publishes, and the first returns. -/
def stalledHandler : List OutboxAct :=
  [.append 1 1 "tenant" "event" "domain.events" .null, .claim 2 2 (eventWorker "first") [],
    .claim 40 40 (eventWorker "second") [], .handle 1 .returned, .markPublished 41 1,
    .handle 0 .returned, .markPublished 50 0, .claim 90 90 (eventWorker "first") []]

theorem outbox_delivers_at_least_once_stalled :
    (stalledHandler.foldl World.after .initial).outbox.rows.map (·.publishedAt) = [some 41] ∧
      DeliversAtLeastOnce (stalledHandler.foldl World.after .initial) :=
  ⟨by decide +kernel, outbox_delivers_at_least_once (Run.foldl (by decide +kernel))⟩

end Fairy.Outbox
