import Fairy.History.Application

namespace Fairy.History

open Fairy.Lib

variable {s t : StateStore} {now : Instant} {id expected : Nat}

/-- What no call changes of a conversation. -/
def Conversation.SameScope (c d : Conversation) : Prop :=
  c.id = d.id ∧ c.projectId = d.projectId ∧ c.workspaceType = d.workspaceType

def Conversation.deleted (c : Conversation) (now : Instant) (byProject : Bool) : Conversation :=
  { c with
    deletedAt := some now
    deletedByProjectAt := if byProject then some now else none
    pinnedAt := none
    revision := c.revision + 1 }

def Conversation.restored (c : Conversation) : Conversation :=
  { c with deletedAt := none, deletedByProjectAt := none, revision := c.revision + 1 }

def Conversation.purged (c : Conversation) (now : Instant) : Conversation :=
  { c with purgedAt := some now, title := "Deleted chat", revision := c.revision + 1 }

def Project.deleted (p : Project) (now : Instant) : Project :=
  { p with deletedAt := some now, pinnedAt := none, metadataRevision := p.metadataRevision + 1 }

def Project.restored (p : Project) : Project :=
  { p with deletedAt := none, metadataRevision := p.metadataRevision + 1 }

def Project.purged (p : Project) (now : Instant) : Project :=
  { p with
    purgedAt := some now, name := "Deleted project", metadataRevision := p.metadataRevision + 1 }

/-- A conversation as it is created. -/
structure Conversation.Live (c : Conversation) : Prop where
  deleted : c.deletedAt = none
  marked : c.deletedByProjectAt = none
  purged : c.purgedAt = none

def ValidTitle (title : String) : Prop := Text.strip title ≠ "" ∧ (Text.strip title).length ≤ 200

instance (title : String) : Decidable (ValidTitle title) :=
  inferInstanceAs (Decidable (_ ∧ _))

theorem validTitle_new : ValidTitle "New conversation" := by decide +kernel

theorem Conversation.create_eq_ok {projectId : Option Uuid} {workspaceType : WorkspaceType}
    {title : String} {c : Conversation}
    (h : Conversation.create id projectId workspaceType title = .ok c) :
    c.id = id ∧ c.projectId = projectId ∧ c.Live ∧ ValidTitle title := by
  simp only [Conversation.create] at h
  split at h
  · cases h
  split at h
  · cases h
  split at h
  · cases h
  · rename_i htitle
    cases h
    exact ⟨rfl, rfl, ⟨rfl, rfl, rfl⟩, by simpa [ValidTitle] using htitle⟩

theorem Conversation.create_total (id projectId : Uuid) {title : String}
    (h : ValidTitle title) :
    ∃ c, Conversation.create id (some projectId) .projectChat title = .ok c := by
  have htitle : ¬ (Text.strip title = "" ∨ (Text.strip title).length > 200) := by
    simpa [ValidTitle] using h
  exact ⟨_, by simp only [Conversation.create, reduceCtorEq, and_false, false_and, if_false,
    if_neg htitle]; rfl⟩

theorem Conversation.delete_eq_ok {c d : Conversation} {byProject : Bool} :
    c.delete now expected byProject = .ok d ↔ expected = c.revision ∧ c.deletedAt = none ∧
      c.purgedAt = none ∧ d = c.deleted now byProject := by
  simp only [Conversation.delete, Conversation.deleted]
  split
  · simp_all
  split
  · simp_all
  split
  · simp_all
  · simp_all [eq_comm]

theorem Conversation.restoreDeleted_eq_ok {c d : Conversation} :
    c.restoreDeleted expected = .ok d ↔ expected = c.revision ∧ c.purgedAt = none ∧
      c.deletedAt ≠ none ∧ d = c.restored := by
  simp only [Conversation.restoreDeleted, Conversation.restored]
  split
  · simp_all
  split
  · simp_all
  split
  · simp_all
  · simp_all [eq_comm]

theorem Conversation.markPurged_eq_ok {c d : Conversation} :
    c.markPurged now expected = .ok d ↔ expected = c.revision ∧ c.deletedAt ≠ none ∧
      c.purgedAt = none ∧ d = c.purged now := by
  simp only [Conversation.markPurged, Conversation.purged]
  split
  · simp_all
  split
  · simp_all
  split
  · simp_all
  · simp_all [eq_comm]

theorem Project.requireMetadataRevision_eq_ok {p : Project} :
    p.requireMetadataRevision expected = .ok () ↔ expected = p.metadataRevision := by
  simp only [Project.requireMetadataRevision]
  split <;> simp_all

theorem Project.requireRecoverable_eq_ok {p : Project} :
    p.requireRecoverable = .ok () ↔ p.purgedAt = none ∧ p.deletedAt = none := by
  simp only [Project.requireRecoverable]
  split
  · simp_all
  split <;> simp_all

theorem Project.delete_ok {p q : Project} (h : p.delete now expected = .ok q) :
    expected = p.metadataRevision ∧ p.deletedAt = none ∧ p.purgedAt = none ∧
      q = p.deleted now := by
  obtain ⟨_, hrevision, h⟩ := bind_ok h
  obtain ⟨_, hlive, h⟩ := bind_ok h
  obtain ⟨hpurged, hdeleted⟩ := Project.requireRecoverable_eq_ok.mp hlive
  exact ⟨Project.requireMetadataRevision_eq_ok.mp hrevision, hdeleted, hpurged, (pure_ok h).symm⟩

theorem Project.restoreDeleted_ok {p q : Project} (h : p.restoreDeleted expected = .ok q) :
    expected = p.metadataRevision ∧ p.deletedAt ≠ none ∧ p.purgedAt = none ∧
      q = p.restored := by
  obtain ⟨_, hrevision, h⟩ := bind_ok h
  refine ⟨Project.requireMetadataRevision_eq_ok.mp hrevision, ?_⟩
  split at h
  · cases h
  · split at h
    · cases h
    · rename_i hpurged hdeleted
      exact ⟨hdeleted, not_not.mp hpurged, (pure_ok h).symm⟩

theorem Project.markPurged_ok {p q : Project} (h : p.markPurged now expected = .ok q) :
    expected = p.metadataRevision ∧ p.deletedAt ≠ none ∧ p.purgedAt = none ∧
      q = p.purged now := by
  obtain ⟨_, hrevision, h⟩ := bind_ok h
  refine ⟨Project.requireMetadataRevision_eq_ok.mp hrevision, ?_⟩
  split at h
  · cases h
  · split at h
    · cases h
    · rename_i hdeleted hpurged
      exact ⟨hdeleted, not_not.mp hpurged, (pure_ok h).symm⟩

namespace StateStore

theorem requireProject_eq_ok {p : Project} :
    s.requireProject id = .ok p ↔ p ∈ s.projects ∧ p.id = id := by
  simp only [requireProject]
  rw [← Table.find?_eq_some]
  split <;> simp_all

theorem requireConversation_eq_ok {c : Conversation} :
    s.requireConversation id = .ok c ↔ c ∈ s.conversations ∧ c.id = id := by
  simp only [requireConversation]
  rw [← Table.find?_eq_some]
  split <;> simp_all

/-- The update writes the whole row, as the rest of it has not changed. -/
theorem updateConversationMetadata_eq {c d : Conversation} (hc : c ∈ s.conversations)
    (hd : d.SameScope c) : s.updateConversationMetadata d c.revision =
      .ok { s with conversations := s.conversations.upsert d trivial } := by
  obtain ⟨hid, hproject, htype⟩ := hd
  have hone : ∀ row ∈ s.conversations, (row.id = d.id ∧ row.revision = c.revision) ↔ row = c := by
    intro row hrow
    constructor
    · exact fun h => Table.eq_of_key hrow hc (h.1.trans hid)
    · rintro rfl
      exact ⟨hid.symm, rfl⟩
  have hany : s.conversations.rows.any fun row => row.id = d.id :=
    List.any_eq_true.mpr ⟨c, hc, by simpa using hid.symm⟩
  simp only [updateConversationMetadata]
  rw [Table.select_eq_singleton hc hone, if_pos List.length_singleton]
  congr 2
  apply Table.eq_of_rows
  simp only [Table.rows_update, Table.upsert, hany, if_true]
  refine List.map_congr_left fun row hrow => ?_
  by_cases hkey : row.id = d.id
  · obtain rfl : row = c := Table.eq_of_key hrow hc (hkey.trans hid)
    rw [if_pos ⟨hkey, rfl⟩, if_pos hkey]
    cases d
    simp_all
  · rw [if_neg fun h => hkey h.1, if_neg hkey]

theorem updateProjectMetadata_eq {p q : Project} (hp : p ∈ s.projects) (hq : q.id = p.id) :
    s.updateProjectMetadata q p.metadataRevision =
      .ok { s with projects := s.projects.upsert q trivial } := by
  have hone : ∀ row ∈ s.projects,
      (row.id = q.id ∧ row.metadataRevision = p.metadataRevision) ↔ row = p := by
    intro row hrow
    constructor
    · exact fun h => Table.eq_of_key hrow hp (h.1.trans hq)
    · rintro rfl
      exact ⟨hq.symm, rfl⟩
  have hany : s.projects.rows.any fun row => row.id = q.id :=
    List.any_eq_true.mpr ⟨p, hp, by simpa using hq.symm⟩
  simp only [updateProjectMetadata]
  rw [Table.select_eq_singleton hp hone, if_pos List.length_singleton]
  congr 2
  apply Table.eq_of_rows
  simp only [Table.rows_update, Table.upsert, hany, if_true]
  refine List.map_congr_left fun row hrow => ?_
  by_cases hkey : row.id = q.id
  · obtain rfl : row = p := Table.eq_of_key hrow hp (hkey.trans hq)
    rw [if_pos ⟨hkey, rfl⟩, if_pos hkey]
    cases q
    simp_all
  · rw [if_neg fun h => hkey h.1, if_neg hkey]

/-- What the loop over conversations does to each of them: the induction is on those that
are left, none of which an earlier turn has touched. -/
theorem forConversations_ok {f : Conversation → Option (Except HistoryError Conversation)}
    {g : Conversation → Conversation} {cs : List Conversation}
    (hnodup : (cs.map Conversation.id).Nodup) (hcs : ∀ c ∈ cs, c ∈ s.conversations)
    (hf : ∀ c ∈ cs, f c = none ∧ g c = c ∨ f c = some (.ok (g c)) ∧ (g c).SameScope c) :
    ∃ conversations : Table Conversation Conversation.id fun _ => True,
      forConversations f cs s = .ok { s with conversations } ∧
        ∀ d, d ∈ conversations ↔ ∃ c ∈ s.conversations, d = if c ∈ cs then g c else c := by
  induction cs generalizing s with
  | nil => exact ⟨s.conversations, rfl, fun d => by simp⟩
  | cons c cs ih =>
    obtain ⟨hc, hnodup⟩ := List.nodup_cons.mp hnodup
    have hother : ∀ d ∈ cs, d.id ≠ c.id := fun d hd he => hc (he ▸ List.mem_map_of_mem hd)
    have hmem : c ∈ s.conversations := hcs c List.mem_cons_self
    obtain ⟨hnone, hsame⟩ | ⟨hsome, hscope⟩ := hf c List.mem_cons_self
    · obtain ⟨t, ht, hrows⟩ := ih hnodup (fun d hd => hcs d (List.mem_cons_of_mem _ hd))
        fun d hd => hf d (List.mem_cons_of_mem _ hd)
      refine ⟨t, by simp only [forConversations, hnone, ht], fun d => ?_⟩
      rw [hrows]
      refine exists_congr fun x => and_congr_right fun _ => ?_
      by_cases hx : x = c
      · subst hx
        simp [hsame]
      · simp [hx]
    · let u : StateStore := { s with conversations := s.conversations.upsert (g c) trivial }
      have hu : ∀ d, d ∈ u.conversations ↔ d = g c ∨ d ∈ s.conversations ∧ d.id ≠ c.id := by
        intro d
        rw [← hscope.1]
        change d ∈ s.conversations.upsert (g c) trivial ↔ _
        exact Table.mem_upsert
      obtain ⟨t, ht, hrows⟩ := ih (s := u) hnodup
        (fun d hd => (hu d).mpr (.inr ⟨hcs d (List.mem_cons_of_mem _ hd), hother d hd⟩))
        fun d hd => hf d (List.mem_cons_of_mem _ hd)
      refine ⟨t, ?_, fun d => ?_⟩
      · simp only [forConversations, hsome, ok_bind]
        rw [updateConversationMetadata_eq hmem hscope]
        exact ht
      · have hchanged : g c ∉ cs := fun h => hother _ h hscope.1
        rw [hrows]
        constructor
        · rintro ⟨x, hx, rfl⟩
          obtain rfl | ⟨hx, hne⟩ := (hu x).mp hx
          · exact ⟨c, hmem, by simp [hchanged]⟩
          · have hxc : x ≠ c := fun he => hne (he ▸ rfl)
            exact ⟨x, hx, by simp [hxc]⟩
        · rintro ⟨x, hx, rfl⟩
          by_cases hxc : x = c
          · subst hxc
            exact ⟨g x, (hu _).mpr (.inl rfl), by simp [hchanged]⟩
          · have hne : x.id ≠ c.id := fun he => hxc (Table.eq_of_key hx hmem he)
            exact ⟨x, (hu _).mpr (.inr ⟨hx, hne⟩), by simp [hxc]⟩

/-- Each conversation and each project has changed by a function of its own row. -/
structure Evolves (s t : StateStore) (f : Conversation → Conversation) (g : Project → Project) :
    Prop where
  conversations : ∀ d, d ∈ t.conversations ↔ ∃ c ∈ s.conversations, d = f c
  projects : ∀ q, q ∈ t.projects ↔ ∃ p ∈ s.projects, q = g p
  tasks : t.tasks = s.tasks
  nextId : t.nextId = s.nextId

theorem mem_upsert_conversation {c d x : Conversation} (hc : c ∈ s.conversations)
    (hd : d.SameScope c) : x ∈ s.conversations.upsert d trivial ↔
      ∃ y ∈ s.conversations, x = if y = c then d else y := by
  rw [Table.mem_upsert]
  constructor
  · rintro (rfl | ⟨hx, hne⟩)
    · exact ⟨c, hc, (if_pos rfl).symm⟩
    · have hxc : x ≠ c := fun he => hne (he ▸ hd.1.symm)
      exact ⟨x, hx, (if_neg hxc).symm⟩
  · rintro ⟨y, hy, rfl⟩
    by_cases hyc : y = c
    · exact .inl (if_pos hyc)
    · rw [if_neg hyc]
      exact .inr ⟨hy, fun he => hyc (Table.eq_of_key hy hc (he.trans hd.1))⟩

theorem mem_upsert_project {p q x : Project} (hp : p ∈ s.projects) (hq : q.id = p.id) :
    x ∈ s.projects.upsert q trivial ↔ ∃ y ∈ s.projects, x = if y = p then q else y := by
  rw [Table.mem_upsert]
  constructor
  · rintro (rfl | ⟨hx, hne⟩)
    · exact ⟨p, hp, (if_pos rfl).symm⟩
    · have hxp : x ≠ p := fun he => hne (he ▸ hq.symm)
      exact ⟨x, hx, (if_neg hxp).symm⟩
  · rintro ⟨y, hy, rfl⟩
    by_cases hyp : y = p
    · exact .inl (if_pos hyp)
    · rw [if_neg hyp]
      exact .inr ⟨hy, fun he => hyp (Table.eq_of_key hy hp (he.trans hq))⟩

/-- A call that writes one conversation and an event. -/
theorem evolves_conversation {c d : Conversation} {e : DomainEvent} {u : StateStore}
    (hc : c ∈ s.conversations) (hd : d.SameScope c)
    (h : s.updateConversationMetadata d c.revision = .ok u) (ht : u.record e = t) :
    Evolves s t (fun x => if x = c then d else x) (fun p => p) := by
  rw [updateConversationMetadata_eq hc hd] at h
  cases h
  subst ht
  exact ⟨fun x => mem_upsert_conversation hc hd, fun q => by simp [record], rfl, rfl⟩

theorem deleteConversation_ok {userConfirmed : Bool}
    (h : s.deleteConversation now id expected userConfirmed = .ok t) :
    t = s ∨ ∃ c ∈ s.conversations, c.deletedAt = none ∧ c.purgedAt = none ∧
      Evolves s t (fun x => if x = c then c.deleted now false else x) (fun p => p) := by
  simp only [deleteConversation] at h
  split at h
  · cases h
  obtain ⟨c, hc, h⟩ := bind_ok h
  have hc := (requireConversation_eq_ok.mp hc).1
  split at h
  · exact .inl (pure_ok h).symm
  obtain ⟨_, _, h⟩ := bind_ok h
  obtain ⟨d, hd, h⟩ := bind_ok h
  obtain ⟨rfl, hdeleted, hpurged, rfl⟩ := Conversation.delete_eq_ok.mp hd
  obtain ⟨u, hu, h⟩ := bind_ok h
  exact .inr ⟨c, hc, hdeleted, hpurged,
    evolves_conversation hc ⟨rfl, rfl, rfl⟩ hu (pure_ok h)⟩

theorem requireProjectLive_ok {projectId : Option Uuid}
    (h : s.requireProjectLive projectId = .ok ()) {p : Project} (hp : p ∈ s.projects)
    (hid : projectId = some p.id) : p.deletedAt = none := by
  subst hid
  obtain ⟨q, hq, hlive⟩ := bind_ok h
  obtain ⟨hq, hid⟩ := requireProject_eq_ok.mp hq
  obtain rfl : q = p := Table.eq_of_key hq hp hid
  split at hlive
  · cases hlive
  · rename_i hstate
    exact not_not.mp (not_or.mp hstate).1

theorem restoreDeletedConversation_ok
    (h : s.restoreDeletedConversation id expected = .ok t) :
    t = s ∨ ∃ c ∈ s.conversations, c.deletedAt ≠ none ∧ c.purgedAt = none ∧
      (∀ p ∈ s.projects, c.projectId = some p.id → p.deletedAt = none) ∧
      Evolves s t (fun x => if x = c then c.restored else x) (fun p => p) := by
  simp only [restoreDeletedConversation] at h
  obtain ⟨c, hc, h⟩ := bind_ok h
  have hc := (requireConversation_eq_ok.mp hc).1
  split at h
  · exact .inl (pure_ok h).symm
  obtain ⟨_, hlive, h⟩ := bind_ok h
  obtain ⟨d, hd, h⟩ := bind_ok h
  obtain ⟨rfl, hpurged, hdeleted, rfl⟩ := Conversation.restoreDeleted_eq_ok.mp hd
  obtain ⟨u, hu, h⟩ := bind_ok h
  exact .inr ⟨c, hc, hdeleted, hpurged, fun p hp => requireProjectLive_ok hlive hp,
    evolves_conversation hc ⟨rfl, rfl, rfl⟩ hu (pure_ok h)⟩

theorem purgeDeletedConversation_ok {userConfirmed : Bool}
    (h : s.purgeDeletedConversation now id expected userConfirmed = .ok t) :
    t = s ∨ ∃ c ∈ s.conversations, c.deletedAt ≠ none ∧ c.purgedAt = none ∧
      Evolves s t (fun x => if x = c then c.purged now else x) (fun p => p) := by
  simp only [purgeDeletedConversation] at h
  split at h
  · cases h
  obtain ⟨c, hc, h⟩ := bind_ok h
  have hc := (requireConversation_eq_ok.mp hc).1
  split at h
  · exact .inl (pure_ok h).symm
  obtain ⟨_, _, h⟩ := bind_ok h
  split at h
  · cases h
  split at h
  · cases h
  obtain ⟨d, hd, h⟩ := bind_ok h
  obtain ⟨rfl, hdeleted, hpurged, rfl⟩ := Conversation.markPurged_eq_ok.mp hd
  obtain ⟨u, hu, h⟩ := bind_ok h
  exact .inr ⟨c, hc, hdeleted, hpurged,
    evolves_conversation hc ⟨rfl, rfl, rfl⟩ hu (pure_ok h)⟩

theorem mem_projectConversations {p : Uuid} {c : Conversation} :
    c ∈ s.projectConversations p ↔
      c ∈ s.conversations ∧ c.projectId = some p ∧ c.purgedAt = none := by
  simp only [projectConversations, Table.mem_select]

/-- A call that writes one project, its conversations in a loop, and an event. -/
theorem evolves_project {p q : Project} {e : DomainEvent} {u v : StateStore}
    {f : Conversation → Option (Except HistoryError Conversation)}
    {g : Conversation → Conversation} (hp : p ∈ s.projects) (hq : q.id = p.id)
    (hu : s.updateProjectMetadata q p.metadataRevision = .ok u)
    (hv : forConversations f (s.projectConversations p.id) u = .ok v) (ht : v.record e = t)
    (hf : ∀ c : Conversation, c.purgedAt = none →
      f c = none ∧ g c = c ∨ f c = some (.ok (g c)) ∧ (g c).SameScope c) :
    Evolves s t (fun x => if x.projectId = some p.id ∧ x.purgedAt = none then g x else x)
      (fun x => if x = p then q else x) := by
  rw [updateProjectMetadata_eq hp hq] at hu
  cases hu
  have hnodup : ((s.projectConversations p.id).map Conversation.id).Nodup :=
    s.conversations.nodup.sublist (List.filter_sublist.map _)
  obtain ⟨conversations, hv', hrows⟩ := forConversations_ok
    (s := { s with projects := s.projects.upsert q trivial }) hnodup
    (fun c hc => (mem_projectConversations.mp hc).1)
    (fun c hc => hf c (mem_projectConversations.mp hc).2.2)
  rw [hv'] at hv
  cases hv
  subst ht
  refine ⟨fun d => (hrows d).trans (exists_congr fun c => and_congr_right fun hc => ?_),
    fun x => mem_upsert_project hp hq, rfl, rfl⟩
  have hiff : c ∈ s.projectConversations p.id ↔ c.projectId = some p.id ∧ c.purgedAt = none :=
    mem_projectConversations.trans (and_iff_right hc)
  simp only [hiff]

theorem deleteProject_ok {userConfirmed : Bool}
    (h : s.deleteProject now id expected userConfirmed = .ok t) :
    (t = s ∧ ∃ p ∈ s.projects, p.id = id ∧ p.deletedAt ≠ none) ∨ ∃ p ∈ s.projects, p.id = id ∧ p.deletedAt = none ∧ p.purgedAt = none ∧
      Evolves s t
        (fun x => if x.projectId = some p.id ∧ x.purgedAt = none then
          if x.deletedAt = none then x.deleted now true else x else x)
        fun x => if x = p then p.deleted now else x := by
  simp only [deleteProject] at h
  split at h
  · cases h
  obtain ⟨p, hp, h⟩ := bind_ok h
  obtain ⟨hp, hid⟩ := requireProject_eq_ok.mp hp
  split at h
  · rename_i hreplay
    exact .inl ⟨(pure_ok h).symm, p, hp, hid, hreplay.2.1⟩
  obtain ⟨_, _, h⟩ := bind_ok h
  obtain ⟨q, hq, h⟩ := bind_ok h
  obtain ⟨_, hdeleted, hpurged, rfl⟩ := Project.delete_ok hq
  obtain ⟨u, hu, h⟩ := bind_ok h
  obtain ⟨v, hv, h⟩ := bind_ok h
  refine .inr ⟨p, hp, hid, hdeleted, hpurged,
    evolves_project hp rfl hu hv (pure_ok h) fun c hc => ?_⟩
  by_cases hlive : c.deletedAt = none
  · right
    rw [if_neg (not_not.mpr hlive), if_pos hlive]
    exact ⟨congrArg some (Conversation.delete_eq_ok.mpr ⟨rfl, hlive, hc, rfl⟩), rfl, rfl, rfl⟩
  · exact .inl ⟨if_pos hlive, if_neg hlive⟩

theorem restoreDeletedProject_ok (h : s.restoreDeletedProject id expected = .ok t) :
    (t = s ∧ ∃ p ∈ s.projects, p.id = id ∧ p.deletedAt = none) ∨ ∃ p ∈ s.projects, p.id = id ∧ p.deletedAt ≠ none ∧ p.purgedAt = none ∧
      Evolves s t
        (fun x => if x.projectId = some p.id ∧ x.purgedAt = none then
          if x.deletedAt = none ∨ x.deletedByProjectAt = none then x else x.restored else x)
        fun x => if x = p then p.restored else x := by
  simp only [restoreDeletedProject] at h
  obtain ⟨p, hp, h⟩ := bind_ok h
  obtain ⟨hp, hid⟩ := requireProject_eq_ok.mp hp
  split at h
  · rename_i hreplay
    exact .inl ⟨(pure_ok h).symm, p, hp, hid, hreplay.2.1⟩
  obtain ⟨q, hq, h⟩ := bind_ok h
  obtain ⟨_, hdeleted, hpurged, rfl⟩ := Project.restoreDeleted_ok hq
  obtain ⟨u, hu, h⟩ := bind_ok h
  obtain ⟨v, hv, h⟩ := bind_ok h
  refine .inr ⟨p, hp, hid, hdeleted, hpurged,
    evolves_project hp rfl hu hv (pure_ok h) fun c hc => ?_⟩
  by_cases hstays : c.deletedAt = none ∨ c.deletedByProjectAt = none
  · refine .inl ⟨if_pos ?_, if_pos hstays⟩
    exact hstays.imp_right .inl
  · obtain ⟨hdeleted, hby⟩ := not_or.mp hstays
    right
    rw [if_neg (by simp [hdeleted, hby, hc]), if_neg hstays]
    exact ⟨congrArg some (Conversation.restoreDeleted_eq_ok.mpr ⟨rfl, hc, hdeleted, rfl⟩),
      rfl, rfl, rfl⟩

theorem purgeDeletedProject_ok {userConfirmed : Bool}
    (h : s.purgeDeletedProject now id expected userConfirmed = .ok t) :
    t = s ∨ ∃ p ∈ s.projects, p.id = id ∧ p.deletedAt ≠ none ∧ p.purgedAt = none ∧
      Evolves s t
        (fun x => if x.projectId = some p.id ∧ x.purgedAt = none then
          if x.deletedAt = none then x else x.purged now else x)
        fun x => if x = p then p.purged now else x := by
  simp only [purgeDeletedProject] at h
  split at h
  · cases h
  obtain ⟨p, hp, h⟩ := bind_ok h
  obtain ⟨hp, hid⟩ := requireProject_eq_ok.mp hp
  split at h
  · exact .inl (pure_ok h).symm
  obtain ⟨_, _, h⟩ := bind_ok h
  split at h
  · cases h
  obtain ⟨q, hq, h⟩ := bind_ok h
  obtain ⟨_, hdeleted, hpurged, rfl⟩ := Project.markPurged_ok hq
  obtain ⟨u, hu, h⟩ := bind_ok h
  obtain ⟨v, hv, h⟩ := bind_ok h
  have hsame : u.conversations = s.conversations := by
    rw [updateProjectMetadata_eq (q := p.purged now) hp rfl] at hu
    cases hu
    rfl
  have hlist : u.projectConversations p.id = s.projectConversations p.id := by
    simp only [projectConversations, hsame]
  rw [hlist] at hv
  refine .inr ⟨p, hp, hid, hdeleted, hpurged,
    evolves_project hp rfl hu hv (pure_ok h) fun c hc => ?_⟩
  by_cases hlive : c.deletedAt = none
  · exact .inl ⟨if_pos (.inl hlive), if_pos hlive⟩
  · right
    rw [if_neg (by simp [hlive, hc]), if_neg hlive]
    exact ⟨congrArg some (Conversation.markPurged_eq_ok.mpr ⟨rfl, hlive, hc, rfl⟩), rfl, rfl, rfl⟩

/-- One conversation is new, with the next identifier. -/
structure CreatesConversation (s t : StateStore) (c : Conversation) : Prop where
  identifier : c.id = s.nextId
  live : c.Live
  conversations : t.conversations = s.conversations.upsert c trivial
  projects : t.projects = s.projects
  tasks : t.tasks = s.tasks
  moves : t.moves = s.moves
  nextId : t.nextId = s.nextId + 1

theorem saveNewConversation_ok {projectId : Option Uuid} {workspaceType : WorkspaceType}
    {title : String} (h : s.saveNewConversation projectId workspaceType title = .ok t) :
    ∃ c : Conversation, c.projectId = projectId ∧ CreatesConversation s t c := by
  obtain ⟨c, hc, h⟩ := bind_ok h
  obtain ⟨hid, hproject, hlive, _⟩ := Conversation.create_eq_ok hc
  cases pure_ok h
  exact ⟨c, hproject, hid, hlive, rfl, rfl, rfl, rfl, rfl⟩

theorem createConversation_ok {projectId : Option Uuid} {workspaceType : WorkspaceType}
    (h : s.createConversation projectId workspaceType = .ok t) :
    ∃ c, CreatesConversation s t c ∧ (c.projectId = none ∨
      workspaceType = .projectChat ∧ ∃ p ∈ s.projects, projectId = some p.id ∧
        c.projectId = some p.id) := by
  cases workspaceType with
  | chatScratch =>
    obtain ⟨c, hproject, hc⟩ := saveNewConversation_ok h
    exact ⟨c, hc, .inl hproject⟩
  | projectChat =>
    cases projectId with
    | none => cases h
    | some id =>
      obtain ⟨p, hget, hsave⟩ := bind_ok h
      obtain ⟨hp, rfl⟩ := requireProject_eq_ok.mp hget
      obtain ⟨c, hproject, hc⟩ := saveNewConversation_ok hsave
      exact ⟨c, hc, .inr ⟨rfl, p, hp, rfl, hproject⟩⟩

/-- Nothing but the project itself is asked for. -/
theorem createConversation_total {p : Project} (hp : p ∈ s.projects) :
    ∃ t c, s.createConversation (some p.id) .projectChat = .ok t ∧ c.projectId = some p.id ∧
      CreatesConversation s t c := by
  have hget : s.requireProject p.id = .ok p := requireProject_eq_ok.mpr ⟨hp, rfl⟩
  obtain ⟨c, hc⟩ := Conversation.create_total s.nextId p.id validTitle_new
  have hcreate : s.createConversation (some p.id) .projectChat = .ok { s with
      nextId := s.nextId + 1
      conversations := s.conversations.upsert c trivial } := by
    simp only [createConversation, saveNewConversation, hget, ok_bind, hc]
    rfl
  obtain ⟨hid, hproject, hlive, _⟩ := Conversation.create_eq_ok hc
  exact ⟨_, c, hcreate, hproject, hid, hlive, rfl, rfl, rfl, rfl, rfl⟩

/-- One task is new, with the next identifier and not yet done. -/
structure CreatesTask (s t : StateStore) (task : Task) : Prop where
  identifier : task.id = s.nextId
  status : task.status = .resolvingScope
  tasks : t.tasks = s.tasks.upsert task trivial
  conversations : t.conversations = s.conversations
  projects : t.projects = s.projects
  nextId : t.nextId = s.nextId + 1

theorem saveNewTask_ok {c : Conversation} {request : TaskCreate} {key : String}
    (h : s.saveNewTask c request key = .ok t) :
    ∃ task, task.conversationId = c.id ∧ CreatesTask s t task := by
  simp only [saveNewTask] at h
  split at h
  · cases h
  · cases h
    exact ⟨_, rfl, rfl, rfl, rfl, rfl, rfl, rfl⟩

/-- A request for a task that there is not yet. -/
structure AsksForTask (s : StateStore) (request : TaskCreate) : Prop where
  key : Text.strip request.idempotencyKey ≠ ""
  unused : ∀ task ∈ s.tasks, task.idempotencyKey ≠ Text.strip request.idempotencyKey
  request : Text.strip request.userRequest ≠ ""

theorem prepareTaskIntent_ok {request : TaskCreate} (h : s.prepareTaskIntent request = .ok t) :
    t = s ∨ s.AsksForTask request ∧ ∃ c ∈ s.conversations, c.id = request.conversationId ∧
      ∃ task, task.conversationId = c.id ∧ CreatesTask s t task := by
  obtain ⟨key, hkey, h⟩ := bind_ok h
  simp only [normalizeIdempotencyKey] at hkey
  split at hkey
  · cases hkey
  rename_i hne
  cases hkey
  split at h
  · obtain ⟨_, _, h⟩ := bind_ok h
    exact .inl (pure_ok h).symm
  rename_i hunused
  obtain ⟨c, hc, h⟩ := bind_ok h
  obtain ⟨hc, hid⟩ := requireConversation_eq_ok.mp hc
  have hrequest : Text.strip request.userRequest ≠ "" := by
    intro hempty
    simp [saveNewTask, hempty] at h
  exact .inr ⟨⟨hne, Table.oneOrNone_eq_none.mp hunused, hrequest⟩, c, hc, hid, saveNewTask_ok h⟩

theorem prepareTaskIntent_total {request : TaskCreate} (h : s.AsksForTask request)
    {c : Conversation} (hc : c ∈ s.conversations) (hid : c.id = request.conversationId) :
    ∃ t task, s.prepareTaskIntent request = .ok t ∧ task.conversationId = c.id ∧
      CreatesTask s t task := by
  have hkey : normalizeIdempotencyKey request.idempotencyKey =
      .ok (Text.strip request.idempotencyKey) := if_neg h.key
  have hget : s.requireConversation request.conversationId = .ok c :=
    requireConversation_eq_ok.mpr ⟨hc, hid⟩
  have hsave : ∃ t, s.saveNewTask c request (Text.strip request.idempotencyKey) = .ok t :=
    ⟨_, if_neg h.request⟩
  obtain ⟨t, ht⟩ := hsave
  obtain ⟨task, htask⟩ := saveNewTask_ok ht
  refine ⟨t, task, ?_, htask⟩
  simp only [prepareTaskIntent, hkey, ok_bind, Table.oneOrNone_eq_none.mpr h.unused, hget, ht]

theorem transitionTask_ok {status : TaskStatus} (h : s.transitionTask id status = .ok t) :
    t.conversations = s.conversations ∧ t.projects = s.projects ∧ t.nextId = s.nextId ∧
      ∀ task ∈ t.tasks, ∃ row ∈ s.tasks, row.id = task.id := by
  simp only [transitionTask] at h
  split at h
  · cases h
  split at h
  · cases h
    refine ⟨rfl, rfl, rfl, fun task htask => ?_⟩
    obtain ⟨row, hrow, rfl⟩ := List.mem_map.mp htask
    refine ⟨row, hrow, ?_⟩
    split <;> rfl
  · cases h

/-- The project comes with a conversation and a task of its own. -/
theorem createProject_ok {name : String} (h : s.createProject name = .ok t) :
    ∃ (p : Project) (c : Conversation) (task : Task), p.id = s.nextId ∧ p.deletedAt = none ∧
      p.purgedAt = none ∧ c.id = s.nextId + 1 ∧ c.Live ∧ c.projectId = some p.id ∧
      task.id = s.nextId + 2 ∧ task.conversationId = c.id ∧
      t.projects = s.projects.upsert p trivial ∧
      t.conversations = s.conversations.upsert c trivial ∧
      t.tasks = s.tasks.upsert task trivial ∧ t.nextId = s.nextId + 3 := by
  simp only [createProject] at h
  split at h
  · cases h
  split at h
  · cases h
  obtain ⟨c, hc, h⟩ := bind_ok h
  obtain ⟨hid, hproject, hlive, _⟩ := Conversation.create_eq_ok hc
  obtain ⟨task, htask, hcreates⟩ := saveNewTask_ok h
  exact ⟨_, c, task, rfl, rfl, rfl, hid, hlive, hproject, hcreates.identifier, htask,
    hcreates.projects, hcreates.conversations, hcreates.tasks, hcreates.nextId⟩

/-- A move that nothing refuses. -/
structure AsksToMove (s : StateStore) (expected : Nat) (userConfirmed : Bool)
    (idempotencyKey : String) (source : Conversation) : Prop where
  confirmed : userConfirmed = true
  key : Text.strip idempotencyKey ≠ ""
  unused : ∀ move ∈ s.moves, move.idempotencyKey ≠ Text.strip idempotencyKey
  scratch : source.workspaceType = .chatScratch
  deleted : source.deletedAt = none
  purged : source.purgedAt = none
  inactive : s.requireInactive source = .ok ()
  title : ValidTitle source.title
  unmoved : ∀ move ∈ s.moves, move.sourceConversationId ≠ source.id
  revision : expected = source.revision

/-- The conversation in the project is new, and the one that is moved is deleted. -/
structure Moves (s t : StateStore) (now : Instant) (source destination : Conversation)
    (project : Project) : Prop where
  identifier : destination.id = s.nextId
  live : destination.Live
  projectId : destination.projectId = some project.id
  conversations : ∀ d, d ∈ t.conversations ↔
    ∃ c ∈ s.conversations.upsert destination trivial,
      d = if c = source then source.deleted now false else c
  projects : t.projects = s.projects
  tasks : t.tasks = s.tasks
  nextId : t.nextId = s.nextId + 1

theorem moveToProject_ok {conversationId targetProjectId : Uuid} {userConfirmed : Bool}
    {idempotencyKey : String} (hfresh : ∀ c ∈ s.conversations, c.id < s.nextId)
    (h : s.moveToProject now conversationId targetProjectId expected userConfirmed
      idempotencyKey = .ok t) :
    t = s ∨ ∃ source ∈ s.conversations, source.id = conversationId ∧
      s.AsksToMove expected userConfirmed idempotencyKey source ∧
      ∃ p ∈ s.projects, p.id = targetProjectId ∧ ∃ destination, Moves s t now source destination p := by
  simp only [moveToProject] at h
  split at h
  · cases h
  rename_i hconfirmed
  obtain ⟨key, hkey, h⟩ := bind_ok h
  simp only [normalizeIdempotencyKey] at hkey
  split at hkey
  · cases hkey
  rename_i hne
  cases hkey
  split at h
  · split at h
    · cases h
    · exact .inl (pure_ok h).symm
  rename_i hunused
  obtain ⟨source, hsource, h⟩ := bind_ok h
  obtain ⟨hsource, hid⟩ := requireConversation_eq_ok.mp hsource
  split at h
  · cases h
  rename_i hscratch
  split at h
  · cases h
  obtain ⟨_, hinactive, h⟩ := bind_ok h
  obtain ⟨p, hp, h⟩ := bind_ok h
  obtain ⟨hp, htarget⟩ := requireProject_eq_ok.mp hp
  obtain ⟨u, hu, h⟩ := bind_ok h
  have htitle : ValidTitle source.title := by
    obtain ⟨c, hc, _⟩ := bind_ok hu
    exact (Conversation.create_eq_ok hc).2.2.2
  obtain ⟨destination, hproject, hcreates⟩ := saveNewConversation_ok hu
  obtain ⟨v, hv, h⟩ := bind_ok h
  simp only [saveConversationMove] at hv
  split at hv
  · cases hv
  rename_i hunmoved
  obtain ⟨d, hd, h⟩ := bind_ok h
  obtain ⟨rfl, hdeleted, hpurged, rfl⟩ := Conversation.delete_eq_ok.mp hd
  have hmem : source ∈ u.conversations := by
    rw [hcreates.conversations, Table.mem_upsert, hcreates.identifier]
    exact .inr ⟨hsource, Nat.ne_of_lt (hfresh source hsource)⟩
  have hmem' : source ∈ v.conversations := by
    cases hv
    exact hmem
  have hscope : (source.deleted now false).SameScope source := ⟨rfl, rfl, rfl⟩
  rw [updateConversationMetadata_eq hmem' hscope] at h
  cases hv
  cases h
  refine .inr ⟨source, hsource, hid, ⟨by simpa using hconfirmed, hne, ?_, not_not.mp hscratch,
    hdeleted, hpurged, hinactive, htitle, ?_, rfl⟩, p, hp, htarget, destination,
    hcreates.identifier, hcreates.live, hproject, fun x => ?_, hcreates.projects,
    hcreates.tasks, hcreates.nextId⟩
  · simpa using hunused
  · rw [hcreates.moves] at hunmoved
    simpa using hunmoved
  · rw [← hcreates.conversations]
    exact mem_upsert_conversation hmem hscope

variable (now) in
theorem moveToProject_total {userConfirmed : Bool} {idempotencyKey : String}
    (hfresh : ∀ c ∈ s.conversations, c.id < s.nextId) {source : Conversation}
    (hsource : source ∈ s.conversations)
    (h : s.AsksToMove expected userConfirmed idempotencyKey source) {p : Project}
    (hp : p ∈ s.projects) : ∃ t destination,
      s.moveToProject now source.id p.id expected userConfirmed idempotencyKey = .ok t ∧
        Moves s t now source destination p := by
  have hkey : normalizeIdempotencyKey idempotencyKey = .ok (Text.strip idempotencyKey) :=
    if_neg h.key
  have hunused : (s.moves.find? fun move =>
      move.idempotencyKey = Text.strip idempotencyKey) = none := by
    simpa using h.unused
  have hget : s.requireConversation source.id = .ok source :=
    requireConversation_eq_ok.mpr ⟨hsource, rfl⟩
  have hproject : s.requireProject p.id = .ok p := requireProject_eq_ok.mpr ⟨hp, rfl⟩
  obtain ⟨c, hc⟩ := Conversation.create_total s.nextId p.id h.title
  obtain ⟨hid, hprojectId, hlive, _⟩ := Conversation.create_eq_ok hc
  have hdelete : source.delete now expected false = .ok (source.deleted now false) :=
    Conversation.delete_eq_ok.mpr ⟨h.revision, h.deleted, h.purged, rfl⟩
  let u : StateStore :=
    { s with
      nextId := s.nextId + 1
      conversations := s.conversations.upsert c trivial
      moves := s.moves ++ [⟨Text.strip idempotencyKey, source.id, s.nextId, p.id⟩] }
  have hmem : source ∈ u.conversations := by
    change source ∈ s.conversations.upsert c trivial
    rw [Table.mem_upsert, hid]
    exact .inr ⟨hsource, Nat.ne_of_lt (hfresh source hsource)⟩
  have hmove : s.moveToProject now source.id p.id expected userConfirmed idempotencyKey =
      .ok { u with conversations := u.conversations.upsert (source.deleted now false) trivial } := by
    have hunmoved : ¬ (s.moves.any fun move => move.sourceConversationId = source.id) := by
      simpa using h.unmoved
    have hnew : s.saveNewConversation (some p.id) .projectChat source.title = .ok { s with
        nextId := s.nextId + 1
        conversations := s.conversations.upsert c trivial } := by
      rw [saveNewConversation, hc]
      rfl
    have hsave : StateStore.saveConversationMove { s with
        nextId := s.nextId + 1
        conversations := s.conversations.upsert c trivial }
        ⟨Text.strip idempotencyKey, source.id, s.nextId, p.id⟩ = .ok u := if_neg hunmoved
    have hupdate := updateConversationMetadata_eq (d := source.deleted now false) hmem
      ⟨rfl, rfl, rfl⟩
    rw [← h.revision] at hupdate
    simp [moveToProject, h.confirmed, hkey, ok_bind, hunused, hget, h.scratch, h.deleted,
      h.inactive, hproject, hnew, hsave, hdelete, hupdate]
  refine ⟨_, c, hmove, hid, hlive, hprojectId, fun x => mem_upsert_conversation hmem ⟨rfl, rfl, rfl⟩,
    rfl, rfl, rfl⟩

end StateStore

end Fairy.History
