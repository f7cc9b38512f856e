import Fairy.Lib.Run
import Fairy.Memory.ProjectionEffects

namespace Fairy.Memory

open Fairy.Lib
open Fairy.Commanding (Uuid Time LedgerEvent)

namespace MemoryStore

variable {x : Hashing} {s t : MemoryStore} {d : MemorySearchDocument}
variable {documents : List MemorySearchDocument} {acts : List MemoryAct}

/-- What the checkpoint of the active generation claims to have projected. -/
def projectedCursor (s : MemoryStore) : Option Nat :=
  (s.checkpoints.find? 1).map (·.projectedWatermarkCursor)

theorem currentCursor_append {event : LedgerEvent}
    (h : t.events.rows = s.events.rows ++ [event]) :
    t.currentCursor = max s.currentCursor event.cursor := by
  simp only [currentCursor, h, List.map_append, List.map_cons, List.map_nil, List.foldr_append]
  induction s.events.rows with
  | nil => simp
  | cons e rows ih => rw [List.map_cons, List.foldr_cons, ih, List.foldr_cons, Nat.max_assoc]

theorem removeSources_eq (s view : MemoryStore) : ∃ table,
    s.removeSources view = { s with documents := table } ∧
      ∀ d, d ∈ table ↔ d ∈ s.documents ∧ ¬ Sourced view d := by
  refine ⟨_, rfl, fun d => ?_⟩
  simp only [Table.mem_delete, removeDocuments, Sourced, List.mem_map, not_or, and_assoc]
  rfl

theorem upsertDocument_spec (hinj : ∀ e ∈ s.documents, e.key = d.key → e = d) :
    ∃ table, s.upsertDocument d = .ok { s with documents := table } ∧
      ∀ e, e ∈ table ↔ e ∈ s.documents ∨ e = d := by
  have hmem : ∀ e, e ∈ s.documents.upsert d trivial ↔ e ∈ s.documents ∨ e = d := by
    intro e
    rw [Table.mem_upsert]
    constructor
    · rintro (rfl | ⟨he, _⟩)
      · exact .inr rfl
      · exact .inl he
    · rintro (he | rfl)
      · by_cases hkey : e.key = d.key
        · exact .inl (hinj e he hkey)
        · exact .inr ⟨he, hkey⟩
      · exact .inl rfl
  refine ⟨_, ?_, hmem⟩
  simp only [upsertDocument]
  cases hfind : s.documents.find? d.key with
  | none => rfl
  | some stored =>
    obtain ⟨hstored, hkey⟩ := Table.find?_eq_some.mp hfind
    obtain rfl := hinj stored hstored hkey
    exact if_pos (.inr ⟨rfl, rfl⟩)

theorem upsertDocuments_spec
    (hinj : ∀ a b, a ∈ s.documents ∨ a ∈ documents → b ∈ documents → a.key = b.key → a = b) :
    ∃ table, s.upsertDocuments documents = .ok { s with documents := table } ∧
      ∀ e, e ∈ table ↔ e ∈ s.documents ∨ e ∈ documents := by
  induction documents generalizing s with
  | nil => exact ⟨s.documents, rfl, fun e => by simp⟩
  | cons d documents ih =>
    obtain ⟨table, hd, htable⟩ := upsertDocument_spec (s := s) (d := d) fun e he hkey =>
      hinj e d (.inl he) List.mem_cons_self hkey
    obtain ⟨table', hrest, htable'⟩ := ih (s := { s with documents := table })
      fun a b ha hb hkey => by
        refine hinj a b ?_ (List.mem_cons_of_mem d hb) hkey
        obtain ha | ha := ha
        · obtain ha | rfl := (htable a).mp ha
          · exact .inl ha
          · exact .inr List.mem_cons_self
        · exact .inr (List.mem_cons_of_mem d ha)
    refine ⟨table', ?_, fun e => ?_⟩
    · rw [upsertDocuments, List.foldlM_cons, hd]
      exact hrest
    · rw [htable', htable, List.mem_cons, or_assoc]

theorem advanceCheckpoint_eq (s : MemoryStore) (cursor : Nat) : ∃ table health,
    s.advanceCheckpoint 1 cursor = ({ s with checkpoints := table }, health) ∧
      health.generation = 1 ∧
      (table.find? 1).map (·.projectedWatermarkCursor) =
        some (max (s.projectedCursor.getD 0) cursor) := by
  refine ⟨_, _, rfl, rfl, ?_⟩
  simp only [projectedCursor]
  cases hfind : s.checkpoints.find? 1 with
  | none =>
    have hrow : (s.checkpoints.upsert ⟨1, cursor, cursor, .ready, none⟩ trivial).find? 1 =
        some ⟨1, cursor, cursor, .ready, none⟩ := Table.find?_upsert
    simp only [hrow, Option.map_some, Option.map_none, Option.getD_none, Nat.zero_max]
  | some stored =>
    have hrow : (s.checkpoints.upsert ⟨1, max stored.sourceWatermarkCursor cursor,
        max stored.projectedWatermarkCursor cursor, .ready, none⟩ trivial).find? 1 =
        some ⟨1, max stored.sourceWatermarkCursor cursor,
          max stored.projectedWatermarkCursor cursor, .ready, none⟩ := Table.find?_upsert
    simp only [hrow, Option.map_some, Option.getD_some]

/-- The documents that a refresh leaves are those that it has computed, when every document that
it has found has its source in what it has read. -/
theorem completeRefresh_spec {p : ContentScan} {view : MemoryStore} {at' : Time} {cursor : Nat}
    {event : LedgerEvent} (hderive : deriveDocuments x p view 1 at' = .ok documents)
    (hsourced : ∀ d ∈ s.documents, Sourced view d)
    (h : s.completeRefresh view documents cursor event = .ok t) :
    (t.observations = s.observations ∧ t.claims = s.claims ∧ t.revisions = s.revisions ∧
      t.tombstones = s.tombstones) ∧ t.events.rows = s.events.rows ++ [event] ∧
      (∀ d, d ∈ t.documents ↔ d ∈ documents) ∧
      t.projectedCursor =
        some (max (max (s.projectedCursor.getD 0) cursor) t.currentCursor) := by
  obtain ⟨removed, hremoved, hleft⟩ := removeSources_eq s view
  have hnone : ∀ d, d ∉ removed := fun d hd => ((hleft d).mp hd).2 (hsourced d ((hleft d).mp hd).1)
  have hinj : ∀ a b, a ∈ removed ∨ a ∈ documents → b ∈ documents → a.key = b.key → a = b :=
    fun a b ha hb hkey => eq_of_key_derived hderive (ha.resolve_left (hnone a)) hb hkey
  obtain ⟨table, hupserted, htable⟩ := upsertDocuments_spec (s := { s with documents := removed })
    hinj
  simp only [completeRefresh, hremoved, hupserted, ok_bind] at h
  obtain ⟨checkpoints, health, hadvanced, hgeneration, hprojected⟩ :=
    advanceCheckpoint_eq { s with documents := table } cursor
  rw [hadvanced] at h
  obtain ⟨recorded, hrecorded, h⟩ := bind_ok h
  simp only [recordEvent] at hrecorded
  split at hrecorded
  · cases hrecorded
  rename_i events hevents
  cases hrecorded
  obtain ⟨checkpoints', _, hadvanced', _, hprojected'⟩ := advanceCheckpoint_eq
    { s with documents := table, checkpoints := checkpoints, events := events }
    (currentCursor { s with documents := table, checkpoints := checkpoints, events := events })
  rw [hgeneration, hadvanced'] at h
  obtain rfl := pure_ok h
  refine ⟨⟨rfl, rfl, rfl, rfl⟩, (Table.insertAll_eq_some hevents).1, fun d => ?_, ?_⟩
  · rw [htable]
    exact or_iff_right (hnone d)
  · refine hprojected'.trans ?_
    congr 2
    simp only [projectedCursor, hprojected, Option.getD_some]

theorem purgeContent_spec (s : MemoryStore) (purge : ContentPurge) :
    (s.purgeContent purge).events = s.events ∧
      (s.purgeContent purge).checkpoints = s.checkpoints ∧
      (∀ d ∈ (s.purgeContent purge).documents, d ∈ s.documents) ∧
      (s.Buried → (s.purgeContent purge).Buried) := by
  have hclaims : (s.purgeContent purge).claims =
      s.claims.delete fun c => c.id ∈ s.purgedClaims purge := by
    cases purge <;> rfl
  have htombstones : (s.purgeContent purge).tombstones =
      s.tombstones.delete fun t => t.targetId ∈ s.purgedClaims purge := by
    cases purge <;> rfl
  have hobservations : ∀ o ∈ (s.purgeContent purge).observations, o ∈ s.observations := by
    intro o ho
    cases purge with
    | conversation => exact (Table.mem_delete.mp ho).1
    | project => exact ho
  refine ⟨by cases purge <;> rfl, by cases purge <;> rfl, fun d hd => ?_, fun hs row hrow => ?_⟩
  · cases purge <;> exact (Table.mem_delete.mp hd).1
  · rw [htombstones, Table.mem_delete] at hrow
    refine ⟨fun hkind => ?_, fun hkind o ho hid => ?_⟩
    · obtain ⟨c, hc, hid, hforgotten⟩ := (hs row hrow.1).1 hkind
      refine ⟨c, ?_, hid, hforgotten⟩
      rw [hclaims, Table.mem_delete]
      exact ⟨hc, hid ▸ hrow.2⟩
    · exact (hs row hrow.1).2 hkind o (hobservations o ho) hid

/-- Several writes of one transaction. -/
def performAll (x : Hashing) (s : MemoryStore) (acts : List MemoryAct) :
    Except MemoryError MemoryStore := acts.foldlM (perform x) s

/-- The identifiers that a transaction draws are new where it draws them. -/
def Drawn (x : Hashing) : MemoryStore → List MemoryAct → Prop
  | _, [] => True
  | s, act :: acts => s.Fresh act ∧ ∀ t ∈ (s.perform x act).toOption, Drawn x t acts

def decideDrawn (x : Hashing) : ∀ s acts, Decidable (Drawn x s acts)
  | _, [] => isTrue trivial
  | s, act :: acts =>
    have : Decidable (∀ t ∈ (s.perform x act).toOption, Drawn x t acts) :=
      match (s.perform x act).toOption with
      | none => isTrue fun t ht => absurd (Option.mem_def.mp ht).symm (Option.some_ne_none t)
      | some t =>
        match decideDrawn x t acts with
        | isTrue h => isTrue fun _ hu => Option.some.inj (Option.mem_def.mp hu) ▸ h
        | isFalse h => isFalse fun hall => h (hall t rfl)
    inferInstanceAs (Decidable (s.Fresh act ∧ ∀ t ∈ (s.perform x act).toOption, Drawn x t acts))

instance : Decidable (Drawn x s acts) := decideDrawn x s acts

/-- What the writes of one transaction keep. -/
theorem performAll_spec (h : s.performAll x acts = .ok t) (hburied : s.Buried)
    (hdrawn : Drawn x s acts) (hsourced : ∀ d ∈ s.documents, Sourced s d) :
    (∀ d ∈ t.documents, Sourced t d) ∧ t.Buried ∧ t.checkpoints = s.checkpoints ∧
      s.currentCursor ≤ t.currentCursor ∧
      ((∀ act ∈ acts, act.canonical = false) → Neutral s t) := by
  induction acts generalizing s with
  | nil =>
    obtain rfl := pure_ok h
    exact ⟨hsourced, hburied, rfl, Nat.le_refl _, fun _ => .refl s⟩
  | cons act acts ih =>
    rw [performAll, List.foldlM_cons] at h
    obtain ⟨u, hu, h⟩ := bind_ok h
    have hp := performed hburied hu
    have hrest : Drawn x u acts := hdrawn.2 u (by rw [hu]; rfl)
    obtain ⟨hsourced', hburied', hcheckpoints, hcursor, hneutral⟩ := ih h
      (hburied.perform hdrawn.1 hu) hrest fun d hd => sourced_kept hu (hsourced d (hp.documents d hd))
    refine ⟨hsourced', hburied', hcheckpoints.trans hp.checkpoints, ?_, fun hacts => ?_⟩
    · obtain hevents | ⟨event, _, hevents⟩ := hp.events
      · rwa [currentCursor, hevents, ← currentCursor] at hcursor
      · rw [currentCursor_append hevents] at hcursor
        omega
    · rw [List.forall_mem_cons] at hacts
      exact (Neutral.of_perform hburied hacts.1 hu).trans (hneutral hacts.2)

end MemoryStore

/-- How far a refresh has come; the rest of it is its completion. -/
inductive RefreshPhase
  | read
  | replaced (documents : List MemorySearchDocument)
  | cursorRead (documents : List MemorySearchDocument) (cursor : Nat)
  | advanced (documents : List MemorySearchDocument) (cursor : Nat)

/-- A refresh under way, with the store that it has read and the number of the memory writes
before that. Its transaction is open: what it writes is not seen before it is committed. -/
structure Refresher where
  view : MemoryStore
  readAt : Time
  seen : Nat
  phase : RefreshPhase

/-- The committed store, the refreshes under way and the number of memory writes so far. -/
structure ProjectionWorld where
  store : MemoryStore
  refreshers : Nat → Option Refresher
  writes : Nat

/-- A transaction that writes to the memory records events with it. -/
inductive ProjectionAct
  | write (event : LedgerEvent) (acts : List MemoryAct)
  | purgePayloads (before : Time) (limit : Nat)
  | deleteContent (event : LedgerEvent) (purges : List ContentPurge)
  | read (refresher : Nat) (now : Time)
  | replace (refresher : Nat)
  | readCursor (refresher : Nat)
  | advance (refresher : Nat)
  | finish (refresher : Nat) (event : LedgerEvent)
  | fail (refresher : Nat)

namespace ProjectionWorld

def initial : ProjectionWorld := ⟨.empty, fun _ => none, 0⟩

section After

variable (x : Hashing) (p : ContentScan) (w : ProjectionWorld)

/-- A transaction that raises is rolled back. -/
def commit (writes : Nat) : Except MemoryError MemoryStore → ProjectionWorld
  | .ok store => { w with store, writes := w.writes + writes }
  | .error _ => w

def set (i : Nat) (refresher : Option Refresher) : ProjectionWorld :=
  { w with refreshers := Function.update w.refreshers i refresher }

def after : ProjectionAct → ProjectionWorld
  | .write event acts =>
    w.commit (acts.countP (·.canonical)) (w.store.performAll x (.recordEvent event :: acts))
  | .purgePayloads before limit =>
    w.commit 0 (w.store.perform x (.purgeForgottenPayloads before limit))
  | .deleteContent event purges =>
    w.commit 1 ((purges.foldl MemoryStore.purgeContent w.store).recordEvent event)
  | .read i now =>
    match w.refreshers i with
    | none => w.set i (some ⟨w.store, now, w.writes, .read⟩)
    | some _ => w
  | .replace i =>
    match w.refreshers i with
    | some ⟨view, readAt, seen, .read⟩ =>
      match deriveDocuments x p view 1 readAt with
      | .ok documents => w.set i (some ⟨view, readAt, seen, .replaced documents⟩)
      | .error _ => w.set i none
    | _ => w
  | .readCursor i =>
    match w.refreshers i with
    | some ⟨view, readAt, seen, .replaced documents⟩ =>
      w.set i (some ⟨view, readAt, seen, .cursorRead documents w.store.currentCursor⟩)
    | _ => w
  | .advance i =>
    match w.refreshers i with
    | some ⟨view, readAt, seen, .cursorRead documents cursor⟩ =>
      w.set i (some ⟨view, readAt, seen, .advanced documents cursor⟩)
    | _ => w
  | .finish i event =>
    match w.refreshers i with
    | some ⟨view, _, _, .advanced documents cursor⟩ =>
      (w.set i none).commit 0 (w.store.completeRefresh view documents cursor event)
    | _ => w
  | .fail i => w.set i none

end After

def Step (x : Hashing) (p : ContentScan) (w : ProjectionWorld) (act : ProjectionAct)
    (w' : ProjectionWorld) : Prop := w' = w.after x p act

/-- No write to the memory is committed between the read of a refresh and its commit, the events of
such a write come after the committed ones, and the deletion of a conversation or a project leaves
no document of a source that it deletes. -/
def Undisturbed (x : Hashing) (w : ProjectionWorld) : ProjectionAct → Prop
  | .write event acts =>
    ((∃ act ∈ acts, act.canonical = true) → w.store.currentCursor < event.cursor) ∧
      w.store.Drawn x (.recordEvent event :: acts)
  | .deleteContent event purges =>
    w.store.currentCursor < event.cursor ∧
      ∀ d ∈ (purges.foldl MemoryStore.purgeContent w.store).documents.rows,
        Sourced (purges.foldl MemoryStore.purgeContent w.store) d
  | .finish i _ => ∀ r ∈ w.refreshers i, r.seen = w.writes
  | _ => True

instance {x : Hashing} {w : ProjectionWorld} : ∀ act, Decidable (Undisturbed x w act)
  | .write event acts => inferInstanceAs (Decidable
      (((∃ act ∈ acts, act.canonical = true) → w.store.currentCursor < event.cursor) ∧
        w.store.Drawn x (.recordEvent event :: acts)))
  | .deleteContent event purges => inferInstanceAs (Decidable
      (w.store.currentCursor < event.cursor ∧
        ∀ d ∈ (purges.foldl MemoryStore.purgeContent w.store).documents.rows,
          Sourced (purges.foldl MemoryStore.purgeContent w.store) d))
  | .finish i _ => inferInstanceAs (Decidable (∀ r ∈ w.refreshers i, r.seen = w.writes))
  | .purgePayloads .. | .read .. | .replace .. | .readCursor .. | .advance .. | .fail .. =>
    isTrue trivial

/-- The documents are those that are derived from the store. -/
def Complete (x : Hashing) (p : ContentScan) (s : MemoryStore) : Prop :=
  ∃ readAt documents, deriveDocuments x p s 1 readAt = .ok documents ∧
    ∀ d, d ∈ s.documents ↔ d ∈ documents

/-- What a refresh under way has read and computed. -/
structure Reading (x : Hashing) (p : ContentScan) (w : ProjectionWorld) (r : Refresher) : Prop where
  seen : r.seen ≤ w.writes
  view : r.seen = w.writes → Alike r.view w.store
  documents : ∀ documents, (r.phase = .replaced documents ∨
    ∃ cursor, r.phase = .cursorRead documents cursor ∨ r.phase = .advanced documents cursor) →
    deriveDocuments x p r.view 1 r.readAt = .ok documents
  cursor : ∀ documents cursor, (r.phase = .cursorRead documents cursor ∨
    r.phase = .advanced documents cursor) → cursor ≤ w.store.currentCursor

structure Sound (x : Hashing) (p : ContentScan) (w : ProjectionWorld) : Prop where
  sourced : ∀ d ∈ w.store.documents, Sourced w.store d
  buried : w.store.Buried
  projected : ∀ c, w.store.projectedCursor = some c → c ≤ w.store.currentCursor
  complete : ∀ c, w.store.projectedCursor = some c → w.store.currentCursor ≤ c →
    Complete x p w.store
  refreshers : ∀ i r, w.refreshers i = some r → Reading x p w r

section Invariant

variable {x : Hashing} {p : ContentScan} {w w' : ProjectionWorld} {act : ProjectionAct}
variable {t : MemoryStore} {n : Nat}

theorem sound_initial : Sound x p initial where
  sourced _ h := absurd h (Table.not_mem_empty _)
  buried _ h := absurd h (Table.not_mem_empty _)
  projected _ h := absurd h.symm (Option.some_ne_none _)
  complete _ h := absurd h.symm (Option.some_ne_none _)
  refreshers _ _ h := absurd h.symm (Option.some_ne_none _)

/-- A write leaves the checkpoint behind the events, or the documents as they are. -/
theorem Sound.written (h : Sound x p w) (hsourced : ∀ d ∈ t.documents, Sourced t d)
    (hburied : t.Buried) (hcheckpoints : t.checkpoints = w.store.checkpoints)
    (hcursor : w.store.currentCursor ≤ t.currentCursor)
    (hwrites : n = 0 ∧ Neutral w.store t ∨ 0 < n ∧ w.store.currentCursor < t.currentCursor) :
    Sound x p ⟨t, w.refreshers, w.writes + n⟩ := by
  have hprojected : t.projectedCursor = w.store.projectedCursor := by
    simp only [MemoryStore.projectedCursor, hcheckpoints]
  refine ⟨hsourced, hburied, fun c hc => ?_, fun c hc hle => ?_, fun i r hi => ?_⟩
  · exact Nat.le_trans (h.projected c (hprojected ▸ hc)) hcursor
  · have hbefore := h.projected c (hprojected ▸ hc)
    obtain ⟨_, hneutral⟩ | ⟨_, hlt⟩ := hwrites
    · obtain ⟨readAt, documents, hderive, hdocuments⟩ :=
        h.complete c (hprojected ▸ hc) (Nat.le_trans hcursor hle)
      exact ⟨readAt, documents, (hneutral.derive x p 1 readAt).trans hderive,
        hneutral.documents x p 1 readAt documents hderive hdocuments⟩
    · exact absurd (Nat.le_trans hle hbefore) (Nat.not_le.mpr hlt)
  · obtain ⟨hseen, hview, hdocuments, hread⟩ := h.refreshers i r hi
    refine ⟨Nat.le_trans hseen (Nat.le_add_right _ _), fun hsame => ?_, hdocuments,
      fun documents cursor hphase => Nat.le_trans (hread documents cursor hphase) hcursor⟩
    obtain ⟨rfl, hneutral⟩ | ⟨hpos, _⟩ := hwrites
    · exact (hview hsame).trans hneutral.toAlike
    · have hsame : r.seen = w.writes + n := hsame
      omega

/-- What is under way is read and computed as before. -/
theorem Sound.set {i : Nat} {refresher : Option Refresher} (h : Sound x p w)
    (hr : ∀ r, refresher = some r → Reading x p w r) : Sound x p (w.set i refresher) := by
  refine ⟨h.sourced, h.buried, h.projected, h.complete, fun j r hj => ?_⟩
  simp only [ProjectionWorld.set, Function.update_apply] at hj
  split at hj
  · obtain ⟨hseen, hview, hdocuments, hread⟩ := hr r hj
    exact ⟨hseen, hview, hdocuments, hread⟩
  · obtain ⟨hseen, hview, hdocuments, hread⟩ := h.refreshers j r hj
    exact ⟨hseen, hview, hdocuments, hread⟩

theorem Sound.deleteContent {event : LedgerEvent} {purges : List ContentPurge}
    (h : Sound x p w) (ho : Undisturbed x w (.deleteContent event purges)) :
    Sound x p (w.after x p (.deleteContent event purges)) := by
  have hpurged : (purges.foldl MemoryStore.purgeContent w.store).events = w.store.events ∧
      (purges.foldl MemoryStore.purgeContent w.store).checkpoints = w.store.checkpoints ∧
      (purges.foldl MemoryStore.purgeContent w.store).Buried := by
    refine List.foldlRecOn purges MemoryStore.purgeContent
      (motive := fun t => t.events = w.store.events ∧ t.checkpoints = w.store.checkpoints ∧
        t.Buried) ⟨rfl, rfl, h.buried⟩ fun t ht purge _ => ?_
    obtain ⟨hevents, hcheckpoints, _, hburied⟩ := t.purgeContent_spec purge
    exact ⟨hevents.trans ht.1, hcheckpoints.trans ht.2.1, hburied ht.2.2⟩
  obtain ⟨hevents, hcheckpoints, hburied⟩ := hpurged
  simp only [after, commit, MemoryStore.recordEvent]
  split
  · rename_i store hstore
    split at hstore
    · cases hstore
    · rename_i events hrows
      cases hstore
      have hcursor := MemoryStore.currentCursor_append (s := w.store)
        (t := { purges.foldl MemoryStore.purgeContent w.store with events })
        ((Table.insertAll_eq_some hrows).1.trans (by rw [hevents]))
      refine h.written ho.2 hburied hcheckpoints ?_ (.inr ⟨Nat.one_pos, ?_⟩)
      · rw [hcursor]
        exact Nat.le_max_left _ _
      · rw [hcursor]
        exact Nat.lt_of_lt_of_le ho.1 (Nat.le_max_right _ _)
  · exact h

theorem Sound.write {event : LedgerEvent} {acts : List MemoryAct} (h : Sound x p w)
    (ho : Undisturbed x w (.write event acts)) :
    Sound x p (w.after x p (.write event acts)) := by
  simp only [after, commit]
  split
  · rename_i store hstore
    have hfirst := hstore
    rw [MemoryStore.performAll, List.foldlM_cons] at hfirst
    obtain ⟨recorded, hrecorded, hrest⟩ := bind_ok hfirst
    obtain ⟨hsourced, hburied, hcheckpoints, hcursor, hneutral⟩ :=
      MemoryStore.performAll_spec hstore h.buried ho.2 h.sourced
    refine h.written hsourced hburied hcheckpoints hcursor ?_
    by_cases hacts : ∀ act ∈ acts, act.canonical = false
    · refine .inl ⟨?_, hneutral (List.forall_mem_cons.mpr ⟨rfl, hacts⟩)⟩
      rw [List.countP_eq_zero]
      intro act hact
      simp [hacts act hact]
    · push Not at hacts
      obtain ⟨act, hact, hcanonical⟩ := hacts
      have hcanonical : act.canonical = true := by simpa using hcanonical
      refine .inr ⟨List.countP_pos_iff.mpr ⟨act, hact, hcanonical⟩, ?_⟩
      have hp := MemoryStore.performed h.buried hrecorded
      have hdrawn := ho.2.2 recorded (by rw [hrecorded]; rfl)
      obtain ⟨_, _, _, hlater, _⟩ := MemoryStore.performAll_spec hrest
        (h.buried.perform ho.2.1 hrecorded) hdrawn fun d hd =>
          MemoryStore.sourced_kept hrecorded (h.sourced d (hp.documents d hd))
      have hevent : recorded.currentCursor = max w.store.currentCursor event.cursor := by
        simp only [MemoryStore.perform, MemoryStore.recordEvent] at hrecorded
        split at hrecorded
        · cases hrecorded
        · rename_i events hrows
          cases hrecorded
          exact MemoryStore.currentCursor_append (Table.insertAll_eq_some hrows).1
      have hlt := ho.1 ⟨act, hact, hcanonical⟩
      omega
  · exact h

theorem Sound.purgePayloads {before : Time} {limit : Nat} (h : Sound x p w) :
    Sound x p (w.after x p (.purgePayloads before limit)) := by
  simp only [after, commit]
  split
  · rename_i store hstore
    have hp := MemoryStore.performed h.buried hstore
    have hneutral := Neutral.of_perform h.buried rfl hstore
    have hfresh : w.store.Fresh (.purgeForgottenPayloads before limit) := trivial
    refine h.written (fun d hd => ?_) (h.buried.perform hfresh hstore) hp.checkpoints ?_
      (.inl ⟨rfl, hneutral⟩)
    · exact hneutral.sourced.mpr (h.sourced d (hp.documents d hd))
    · obtain hevents | ⟨_, hact, _⟩ := hp.events
      · exact Nat.le_of_eq (by rw [MemoryStore.currentCursor, MemoryStore.currentCursor, hevents])
      · cases hact
  · exact h

/-- A refresh that no write has disturbed leaves the documents of the committed store. -/
theorem Sound.finish {i : Nat} {event : LedgerEvent} (h : Sound x p w)
    (ho : Undisturbed x w (.finish i event)) : Sound x p (w.after x p (.finish i event)) := by
  simp only [after]
  split
  · rename_i view readAt seen documents cursor hi
    have hreading := h.refreshers i _ hi
    have halike := hreading.view (ho _ hi)
    have hderive := hreading.documents documents (.inr ⟨cursor, .inr rfl⟩)
    have hcursor := hreading.cursor documents cursor (.inr rfl)
    simp only [commit]
    split
    · rename_i store hstore
      obtain ⟨⟨hobservations, hclaims, hrevisions, htombstones⟩, hevents, hdocuments,
        hprojected⟩ := MemoryStore.completeRefresh_spec hderive
          (fun d hd => halike.sourced.mp (h.sourced d hd)) hstore
      have hsame : Alike w.store store := .of_eq hobservations hclaims hrevisions
      have hlater := MemoryStore.currentCursor_append hevents
      have hbefore : w.store.projectedCursor.getD 0 ≤ w.store.currentCursor := by
        cases hnone : w.store.projectedCursor with
        | none => exact Nat.zero_le _
        | some c => exact h.projected c hnone
      refine ⟨fun d hd => ?_, ?_, fun c hc => ?_, fun _ _ _ => ?_, fun j r hj => ?_⟩
      · exact (halike.trans hsame).sourced.mpr
          (sourced_derived hderive ((hdocuments d).mp hd))
      · intro row hrow
        have hburied := h.buried row (htombstones ▸ hrow)
        simp only [MemoryStore.ForgottenClaim, hclaims, hobservations]
        exact hburied
      · rw [hprojected] at hc
        obtain rfl := Option.some.inj hc
        show max _ _ ≤ store.currentCursor
        omega
      · exact ⟨readAt, documents, ((halike.trans hsame).derive x p 1 readAt).trans hderive,
          hdocuments⟩
      · simp only [ProjectionWorld.set, Function.update_apply] at hj
        split at hj
        · cases hj
        · obtain ⟨hseen, hview, hread, hcursors⟩ := h.refreshers j r hj
          refine ⟨hseen, fun heq => (hview heq).trans hsame, hread, fun documents' cursor' hphase => ?_⟩
          have := hcursors documents' cursor' hphase
          show cursor' ≤ store.currentCursor
          omega
    · exact h.set nofun
  · exact h

theorem Sound.step (h : Sound x p w) (ho : Undisturbed x w act) (hs : Step x p w act w') :
    Sound x p w' := by
  rw [hs]
  cases act with
  | write event acts => exact h.write ho
  | purgePayloads before limit => exact h.purgePayloads
  | deleteContent event purges => exact h.deleteContent ho
  | finish i event => exact h.finish ho
  | fail i => exact h.set nofun
  | read i now =>
    simp only [after]
    split
    · refine h.set fun r hr => ?_
      obtain rfl := Option.some.inj hr
      exact ⟨Nat.le_refl _, fun _ => .refl _, by simp, by simp⟩
    · exact h
  | replace i =>
    simp only [after]
    split
    · rename_i view readAt seen hi
      obtain ⟨hseen, hview, _, _⟩ := h.refreshers i _ hi
      split
      · rename_i documents hderive
        refine h.set fun r hr => ?_
        obtain rfl := Option.some.inj hr
        exact ⟨hseen, hview, by simpa using hderive, by simp⟩
      · exact h.set nofun
    · exact h
  | readCursor i =>
    simp only [after]
    split
    · rename_i view readAt seen documents hi
      obtain ⟨hseen, hview, hderive, _⟩ := h.refreshers i _ hi
      refine h.set fun r hr => ?_
      obtain rfl := Option.some.inj hr
      have hderive := hderive documents (.inl rfl)
      exact ⟨hseen, hview, by simpa using hderive, by simp⟩
    · exact h
  | advance i =>
    simp only [after]
    split
    · rename_i view readAt seen documents cursor hi
      obtain ⟨hseen, hview, hderive, hcursor⟩ := h.refreshers i _ hi
      refine h.set fun r hr => ?_
      obtain rfl := Option.some.inj hr
      have hderive := hderive documents (.inr ⟨cursor, .inl rfl⟩)
      have hcursor := hcursor documents cursor (.inl rfl)
      exact ⟨hseen, hview, by simpa using hderive, by simpa using hcursor⟩
    · exact h

theorem Sound.run (h : Sound x p w) (hr : Run (Step x p) (Undisturbed x) w w') :
    Sound x p w' := hr.invariant (fun _ _ _ ha ho hs => ha.step ho hs) h

/-- In an undisturbed run the projection is complete whenever its health is READY. -/
theorem ready_projection_complete (h : Run (Step x p) (Undisturbed x) initial w)
    (available : Bool)
    (hready : (w.store.health available 1 w.store.currentCursor).state = .ready) :
    Complete x p w.store := by
  have hs := sound_initial.run h
  simp only [MemoryStore.health] at hready
  split at hready
  · cases hready
  split at hready
  · cases hready
  rename_i row hrow
  have hprojected : w.store.projectedCursor = some row.projectedWatermarkCursor := by
    simp only [MemoryStore.projectedCursor, hrow, Option.map_some]
  split at hready
  · cases hready
  · rename_i hfresh
    refine hs.complete row.projectedWatermarkCursor hprojected ?_
    split at hready
    · rename_i hstate
      exact Nat.not_lt.mp fun hlt => hfresh ⟨hstate, hlt⟩
    · rename_i hstate
      exact absurd hready hstate

end Invariant

/-! One observation, projected with and without being forgotten in between. -/

def ledgerEvent (cursor : Nat) : LedgerEvent :=
  { MemoryStore.userEvent with cursor, eventId := cursor }

def heardActs : List ProjectionAct :=
  [.write (ledgerEvent 1) [.appendObservation (MemoryStore.heard 6) (MemoryStore.digest 'a')],
    .read 0 0]

def refreshActs : List ProjectionAct :=
  [.replace 0, .readCursor 0, .advance 0, .finish 0 (ledgerEvent 3)]

def forgetAct : ProjectionAct :=
  .write (ledgerEvent 2) [.forget (MemoryStore.heardTombstone 6) (MemoryStore.digest 'c')]

def worldAfter (acts : List ProjectionAct) : ProjectionWorld :=
  acts.foldl (after MemoryStore.plainHashing MemoryStore.plainScan) initial

theorem ready_projection_complete_heard : Complete MemoryStore.plainHashing MemoryStore.plainScan
    (worldAfter (heardActs ++ refreshActs)).store :=
  ready_projection_complete (Run.foldl (by decide +kernel)) true (by decide +kernel)

/-- The observation was forgotten after the refresh had read it, and is found all the same. -/
theorem forgotten_projected :
    ¬ ∀ (x : Hashing) (p : ContentScan) (w : ProjectionWorld),
      Run (Step x p) (fun _ _ => True) initial w →
      (w.store.health true 1 w.store.currentCursor).state = .ready → Complete x p w.store := by
  intro hall
  have hrun : Run (Step MemoryStore.plainHashing MemoryStore.plainScan) (fun _ _ => True) initial
      (worldAfter (heardActs ++ forgetAct :: refreshActs)) := Run.foldl (by decide +kernel)
  obtain ⟨readAt, documents, hderive, hdocuments⟩ := hall _ _ _ hrun (by decide +kernel)
  have hprojected : ∃ d ∈ (worldAfter (heardActs ++ forgetAct :: refreshActs)).store.documents.rows,
      d.sourceId = 6 := by
    decide +kernel
  have hforgotten : ∀ o ∈ (worldAfter
      (heardActs ++ forgetAct :: refreshActs)).store.observations.rows, o.status = .forgotten := by
    decide +kernel
  have hclaims : (worldAfter (heardActs ++ forgetAct :: refreshActs)).store.claims.rows = [] := by
    decide +kernel
  obtain ⟨d, hd, _⟩ := hprojected
  obtain ⟨o, ho, hdocument⟩ | ⟨c, hc, _⟩ :=
    (mem_deriveDocuments hderive).mp ((hdocuments d).mp hd)
  · obtain ⟨_, _, _, hretrievable⟩ := observationDocument_spec hdocument
    rw [ContentScan.not_retrievable_of_forgotten _ (hforgotten o ho)] at hretrievable
    cases hretrievable
  · rw [Table.mem_iff, hclaims] at hc
    exact absurd hc List.not_mem_nil

end ProjectionWorld

end Fairy.Memory
