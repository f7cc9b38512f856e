import Fairy.Lib.Run
import Fairy.History.Lifecycle

namespace Fairy.History

open Fairy.Lib

namespace StateStore

variable {s t : StateStore} {now : Instant} {id expected : Nat}

def HistoryStep (s : StateStore) (x : HistoryAct × Option HistoryError) (t : StateStore) : Prop :=
  t = s.after x.1 x.2

/-- Calls that go through create nothing in what is deleted. -/
def KeepsTrash (s : StateStore) (x : HistoryAct × Option HistoryError) : Prop :=
  x.2 = none → s.OutsideTrash x.1

theorem Consistent.after (hs : s.Consistent) {x : HistoryAct × Option HistoryError}
    (hx : s.KeepsTrash x) :
    (s.after x.1 x.2).Consistent ∧ s.TasksOutsideTrash (s.after x.1 x.2) := by
  obtain hsame | ⟨hrest, hok⟩ := after_cases s x.1 x.2
  · rw [hsame]
    exact ⟨hs, tasksOutsideTrash_of_eq rfl⟩
  · exact ⟨hs.perform (hx hrest) hok, hs.tasksOutsideTrash (hx hrest) hok⟩

theorem Consistent.run (hs : s.Consistent) (h : Run HistoryStep KeepsTrash s t) : t.Consistent := by
  refine h.invariant ?_ hs
  rintro s x _ hs hx rfl
  exact (hs.after hx).1

/-- A project stays in the trash, with all conversations that were in it and no others; none
of them has lost or won the mark of the project. -/
structure StaysDeleted (id : Uuid) (s t : StateStore) : Prop where
  kept : ∀ c ∈ s.conversations, ∃ d ∈ t.conversations, d.id = c.id ∧ d.projectId = c.projectId
  marks : ∀ d ∈ t.conversations, d.projectId = some id → ∃ c ∈ s.conversations, c.id = d.id ∧
    c.projectId = some id ∧ c.deletedByProjectAt = d.deletedByProjectAt ∧
      (d.purgedAt = none → c.purgedAt = none)

theorem StaysDeleted.refl (id : Uuid) (s : StateStore) : StaysDeleted id s s :=
  ⟨fun c hc => ⟨c, hc, rfl, rfl⟩, fun d hd hid => ⟨d, hd, rfl, hid, rfl, fun h => h⟩⟩

theorem StaysDeleted.trans {u : StateStore} (h : StaysDeleted id s t) (h' : StaysDeleted id t u) :
    StaysDeleted id s u where
  kept := by
    intro c hc
    obtain ⟨d, hd, hdc, hdp⟩ := h.kept c hc
    obtain ⟨e, he, hed, hep⟩ := h'.kept d hd
    exact ⟨e, he, hed.trans hdc, hep.trans hdp⟩
  marks := by
    intro e he hid
    obtain ⟨d, hd, hde, hdid, hmark, hpurged⟩ := h'.marks e he hid
    obtain ⟨c, hc, hcd, hcid, hmark', hpurged'⟩ := h.marks d hd hdid
    exact ⟨c, hc, hcd.trans hde, hcid, hmark'.trans hmark, fun hp => hpurged' (hpurged hp)⟩

/-- The project is there and deleted. -/
def Deleted (id : Uuid) (s : StateStore) : Prop := ∃ p ∈ s.projects, p.id = id ∧ p.deletedAt ≠ none

theorem Evolves.staysDeleted {f : Conversation → Conversation} {g : Project → Project}
    (h : Evolves s t f g) (hf : ∀ c, (f c).SameScope c)
    (hmark : ∀ c ∈ s.conversations, c.projectId = some id →
      (f c).deletedByProjectAt = c.deletedByProjectAt ∧ ((f c).purgedAt = none → c.purgedAt = none)) :
    StaysDeleted id s t where
  kept c hc := ⟨f c, (h.conversations _).mpr ⟨c, hc, rfl⟩, (hf c).1, (hf c).2.1⟩
  marks := by
    intro d hd hid
    obtain ⟨c, hc, rfl⟩ := (h.conversations d).mp hd
    rw [(hf c).2.1] at hid
    obtain ⟨hm, hp⟩ := hmark c hc hid
    exact ⟨c, hc, (hf c).1.symm, hid, hm.symm, hp⟩

theorem Evolves.deleted {f : Conversation → Conversation} {g : Project → Project}
    (h : Evolves s t f g) (hg : ∀ p, (g p).id = p.id)
    (hdeleted : ∀ p ∈ s.projects, p.id = id → p.deletedAt ≠ none → (g p).deletedAt ≠ none)
    (hs : Deleted id s) : Deleted id t := by
  obtain ⟨p, hp, hid, hd⟩ := hs
  exact ⟨g p, (h.projects _).mpr ⟨p, hp, rfl⟩, (hg p).trans hid, hdeleted p hp hid hd⟩

/-- A call on one conversation leaves the marks of a deleted project alone, if it keeps the
mark of the conversation or works on none that is in the project. -/
theorem Evolves.one {c d : Conversation}
    (h : Evolves s t (fun x => if x = c then d else x) fun p => p) (hd : d.SameScope c)
    (hmark : c.projectId = some id →
      d.deletedByProjectAt = c.deletedByProjectAt ∧ (d.purgedAt = none → c.purgedAt = none))
    (hs : Deleted id s) : StaysDeleted id s t ∧ Deleted id t := by
  refine ⟨h.staysDeleted (fun x => ?_) fun x _ hid => ?_,
    h.deleted (fun _ => rfl) (fun _ _ _ hd => hd) hs⟩
  · by_cases hxc : x = c
    · rw [if_pos hxc, hxc]
      exact hd
    · rw [if_neg hxc]
      exact ⟨rfl, rfl, rfl⟩
  · by_cases hxc : x = c
    · rw [if_pos hxc, hxc]
      exact hmark (hxc ▸ hid)
    · rw [if_neg hxc]
      exact ⟨rfl, fun h => h⟩

/-- A call on one project leaves the marks of a deleted project alone, if it works on another
one or keeps the marks. -/
theorem Evolves.all {f : Conversation → Conversation} {p q : Project}
    (h : Evolves s t (fun x => if x.projectId = some p.id ∧ x.purgedAt = none then f x else x)
      fun x => if x = p then q else x)
    (hf : ∀ c, (f c).SameScope c) (hq : q.id = p.id)
    (hmark : p.id = id → q.deletedAt ≠ none ∧
      ∀ c : Conversation, (f c).deletedByProjectAt = c.deletedByProjectAt)
    (hs : Deleted id s) : StaysDeleted id s t ∧ Deleted id t := by
  refine ⟨h.staysDeleted (fun x => ?_) fun x _ hid => ?_,
    h.deleted (fun x => ?_) (fun x _ hid hd => ?_) hs⟩
  · split
    · exact hf x
    · exact ⟨rfl, rfl, rfl⟩
  · split
    · rename_i hscope
      refine ⟨(hmark (Option.some.inj (hscope.1.symm.trans hid))).2 x, fun _ => hscope.2⟩
    · exact ⟨rfl, fun h => h⟩
  · split
    · rename_i hxp
      rw [hxp, hq]
    · rfl
  · split
    · rename_i hxp
      exact (hmark (hxp ▸ hid)).1
    · exact hd

theorem Deleted.conversations (hs : s.Consistent) (h : Deleted id s) :
    ∀ c ∈ s.conversations, c.projectId = some id → c.deletedAt ≠ none := by
  obtain ⟨p, hp, rfl, hd⟩ := h
  exact fun c hc hid => (hs.compatible p hp c hc hid).deleted hd

theorem CreatesConversation.staysDeleted {c : Conversation} (hs : s.Consistent)
    (h : CreatesConversation s t c) (hc : c.projectId ≠ some id) (hdeleted : Deleted id s) :
    StaysDeleted id s t ∧ Deleted id t := by
  refine ⟨⟨fun d hd => ⟨d, ?_, rfl, rfl⟩, fun d hd hid => ?_⟩, ?_⟩
  · rw [h.conversations, Table.mem_upsert, h.identifier]
    exact .inr ⟨hd, Nat.ne_of_lt (hs.freshConversation d hd)⟩
  · rw [h.conversations, Table.mem_upsert] at hd
    obtain rfl | ⟨hd, _⟩ := hd
    · exact absurd hid hc
    · exact ⟨d, hd, rfl, hid, rfl, fun h => h⟩
  · obtain ⟨p, hp, hid, hd⟩ := hdeleted
    exact ⟨p, h.projects ▸ hp, hid, hd⟩

theorem staysDeleted_of_eq (hconversations : t.conversations = s.conversations)
    (hprojects : t.projects = s.projects) (hdeleted : Deleted id s) :
    StaysDeleted id s t ∧ Deleted id t := by
  refine ⟨⟨fun d hd => ⟨d, hconversations ▸ hd, rfl, rfl⟩, fun d hd hid => ?_⟩, ?_⟩
  · exact ⟨d, hconversations ▸ hd, rfl, hid, rfl, fun h => h⟩
  · obtain ⟨p, hp, hid, hd⟩ := hdeleted
    exact ⟨p, hprojects ▸ hp, hid, hd⟩

theorem Deleted.project (h : Deleted id s) {p : Project} (hp : p ∈ s.projects) (hid : p.id = id) :
    p.deletedAt ≠ none := by
  obtain ⟨q, hq, hqid, hd⟩ := h
  rwa [Table.eq_of_key hp hq (hid.trans hqid.symm)]

theorem Deleted.createProject {name : String} (hs : s.Consistent) (hd : Deleted id s)
    (h : s.createProject name = .ok t) : StaysDeleted id s t ∧ Deleted id t := by
  obtain ⟨p, c, task, hp, _, _, hc, _, hproject, _, _, hprojects, hconversations, _⟩ :=
    createProject_ok h
  obtain ⟨q, hq, hqid, hdeleted⟩ := hd
  have hother : q.id ≠ p.id := hp ▸ Nat.ne_of_lt (hs.freshProject q hq)
  refine ⟨⟨fun d hd => ⟨d, ?_, rfl, rfl⟩, fun d hd hid => ?_⟩, q, ?_, hqid, hdeleted⟩
  · rw [hconversations, Table.mem_upsert, hc]
    exact .inr ⟨hd, Nat.ne_of_lt (Nat.lt_succ_of_lt (hs.freshConversation d hd))⟩
  · rw [hconversations, Table.mem_upsert] at hd
    obtain rfl | ⟨hd, _⟩ := hd
    · exact absurd (hqid.trans (Option.some.inj (hid.symm.trans hproject))) hother
    · exact ⟨d, hd, rfl, hid, rfl, fun h => h⟩
  · rw [hprojects, Table.mem_upsert]
    exact .inr ⟨hq, hother⟩

theorem Moves.staysDeleted {source destination : Conversation} {p : Project} (hs : s.Consistent)
    (h : Moves s t now source destination p) (hp : p ∈ s.projects) (hlive : p.deletedAt = none)
    (hmem : source ∈ s.conversations) (hsource : source.deletedAt = none) (hd : Deleted id s) :
    StaysDeleted id s t ∧ Deleted id t := by
  let u : StateStore :=
    { s with
      nextId := s.nextId + 1
      conversations := s.conversations.upsert destination trivial }
  have hother : destination.projectId ≠ some id := by
    intro hid
    exact hd.project hp (Option.some.inj (h.projectId.symm.trans hid)) hlive
  have hu : CreatesConversation s u destination := ⟨h.identifier, h.live, rfl, rfl, rfl, rfl, rfl⟩
  have hev : Evolves u t (fun x => if x = source then source.deleted now false else x)
      (fun p => p) :=
    ⟨h.conversations, fun q => by simp [h.projects, u], h.tasks, h.nextId⟩
  obtain ⟨hstays, hdu⟩ := hu.staysDeleted hs hother hd
  obtain ⟨hstays', hdt⟩ := hev.one ⟨rfl, rfl, rfl⟩
    (fun hid => absurd hsource (hd.conversations hs source hmem hid)) hdu
  exact ⟨hstays.trans hstays', hdt⟩

/-- Nothing but its own restoration touches a project in the trash and its marks. -/
theorem Deleted.perform (hs : s.Consistent) (hd : Deleted id s) {act : HistoryAct}
    (ha : s.OutsideTrash act) (hn : ∀ expected, act ≠ .restoreProject id expected)
    (h : s.perform act = .ok t) : StaysDeleted id s t ∧ Deleted id t := by
  cases act with
  | createProject name => exact hd.createProject hs h
  | createConversation projectId workspaceType =>
    obtain ⟨c, hc, hnone | ⟨rfl, p, hp, rfl, hcp⟩⟩ := createConversation_ok h
    · exact hc.staysDeleted hs (by simp [hnone]) hd
    · refine hc.staysDeleted hs (fun hid => ?_) hd
      exact hd.project hp (Option.some.inj (hcp.symm.trans hid)) (ha p hp rfl)
  | createTask request =>
    obtain rfl | ⟨_, c, _, _, task, _, hcreates⟩ := prepareTaskIntent_ok h
    · exact ⟨.refl id _, hd⟩
    · exact staysDeleted_of_eq hcreates.conversations hcreates.projects hd
  | transitionTask id status =>
    obtain ⟨hconversations, hprojects, _⟩ := transitionTask_ok h
    exact staysDeleted_of_eq hconversations hprojects hd
  | activity turns previews runtimes =>
    cases h
    exact staysDeleted_of_eq rfl rfl hd
  | moveConversation now conversationId targetProjectId expected userConfirmed key =>
    obtain rfl | ⟨source, hsource, hid, hasks, p, hp, hpid, destination, hmoves⟩ :=
      moveToProject_ok hs.freshConversation h
    · exact ⟨.refl id _, hd⟩
    · exact hmoves.staysDeleted hs hp (ha source hsource hid hasks p hp hpid) hsource
        hasks.deleted hd
  | deleteConversation now id expected userConfirmed =>
    obtain rfl | ⟨c, hc, hlive, _, h⟩ := deleteConversation_ok h
    · exact ⟨.refl _ _, hd⟩
    · exact h.one ⟨rfl, rfl, rfl⟩ (fun hid => absurd hlive (hd.conversations hs c hc hid)) hd
  | restoreConversation id expected =>
    obtain rfl | ⟨c, _, _, _, hlive, h⟩ := restoreDeletedConversation_ok h
    · exact ⟨.refl _ _, hd⟩
    · refine h.one ⟨rfl, rfl, rfl⟩ (fun hid => ?_) hd
      obtain ⟨p, hp, rfl, hdeleted⟩ := hd
      exact absurd (hlive p hp hid) hdeleted
  | purgeConversation now id expected userConfirmed =>
    obtain rfl | ⟨c, _, _, _, h⟩ := purgeDeletedConversation_ok h
    · exact ⟨.refl _ _, hd⟩
    · exact h.one ⟨rfl, rfl, rfl⟩ (fun _ => ⟨rfl, nofun⟩) hd
  | deleteProject now id expected userConfirmed =>
    obtain ⟨rfl, _⟩ | ⟨p, hp, _, hlive, _, h⟩ := deleteProject_ok h
    · exact ⟨.refl _ _, hd⟩
    · refine h.all (fun c => ?_) rfl (fun hid => absurd hlive (hd.project hp hid)) hd
      split <;> exact ⟨rfl, rfl, rfl⟩
  | restoreProject id' expected =>
    obtain ⟨rfl, _⟩ | ⟨p, _, hpid, _, _, h⟩ := restoreDeletedProject_ok h
    · exact ⟨.refl _ _, hd⟩
    · refine h.all (fun c => ?_) rfl (fun hid => ?_) hd
      · split <;> exact ⟨rfl, rfl, rfl⟩
      · exact absurd (by rw [← hpid, hid]) (hn expected)
  | purgeProject now id expected userConfirmed =>
    obtain rfl | ⟨p, _, _, hdeleted, _, h⟩ := purgeDeletedProject_ok h
    · exact ⟨.refl _ _, hd⟩
    · refine h.all (fun c => ?_) rfl (fun _ => ⟨hdeleted, fun c => ?_⟩) hd
      · split <;> exact ⟨rfl, rfl, rfl⟩
      · split <;> rfl

/-- Steps between the deletion of a project and its restoration. -/
def BeforeRestoration (id : Uuid) (s : StateStore) (x : HistoryAct × Option HistoryError) : Prop :=
  s.KeepsTrash x ∧ ∀ expected, x.1 ≠ .restoreProject id expected

theorem Deleted.run (hs : s.Consistent) (hd : Deleted id s)
    (h : Run HistoryStep (BeforeRestoration id) s t) :
    StaysDeleted id s t ∧ t.Consistent ∧ Deleted id t := by
  have hstep : ∀ a x b, a.Consistent ∧ Deleted id a → BeforeRestoration id a x →
      HistoryStep a x b → StaysDeleted id a b ∧ b.Consistent ∧ Deleted id b := by
    rintro a x b ⟨ha, hda⟩ ⟨hx, hn⟩ rfl
    refine ⟨?_, (ha.after hx).1, ?_⟩
    all_goals
      obtain hsame | ⟨hrest, hok⟩ := after_cases a x.1 x.2
    · rw [hsame]
      exact .refl id a
    · exact (hda.perform ha (hx hrest) hn hok).1
    · rwa [hsame]
    · exact (hda.perform ha (hx hrest) hn hok).2
  have hkeeps : ∀ a x b, a.Consistent ∧ Deleted id a → BeforeRestoration id a x →
      HistoryStep a x b → b.Consistent ∧ Deleted id b := fun a x b ha hx hb => (hstep a x b ha hx hb).2
  refine ⟨?_, Run.invariant (I := fun a => a.Consistent ∧ Deleted id a) hkeeps h ⟨hs, hd⟩⟩
  exact h.history (StaysDeleted.refl id) (fun _ _ _ => StaysDeleted.trans) hkeeps
    (fun a x b ha hx hb => (hstep a x b ha hx hb).1) ⟨hs, hd⟩

/-- What is promised of a project that is deleted and then restored: its conversations are
those it had, and those of them are live that were live before and that were not purged in
between. -/
structure RestoresExactly (id : Uuid) (s v : StateStore) : Prop where
  kept : ∀ c ∈ s.conversations, ∃ d ∈ v.conversations, d.id = c.id ∧ d.projectId = c.projectId
  live : ∀ d ∈ v.conversations, d.projectId = some id → ∃ c ∈ s.conversations, c.id = d.id ∧
    (d.deletedAt = none ↔ c.deletedAt = none ∧ d.purgedAt = none)

/-- The deletion of a project marks those of its conversations that were live. -/
theorem Consistent.deletes {userConfirmed : Bool} (hs : s.Consistent)
    (hlive : ∀ p ∈ s.projects, p.id = id → p.deletedAt = none)
    (h : s.deleteProject now id expected userConfirmed = .ok t) : Deleted id t ∧
      (∀ c ∈ s.conversations, ∃ d ∈ t.conversations, d.id = c.id ∧ d.projectId = c.projectId) ∧
      ∀ d ∈ t.conversations, d.projectId = some id → ∃ c ∈ s.conversations, c.id = d.id ∧
        (d.purgedAt = none → (c.deletedAt = none ↔ d.deletedByProjectAt ≠ none)) := by
  obtain ⟨_, p, hp, hid, hd⟩ | ⟨p, hp, rfl, hdeleted, _, h⟩ := deleteProject_ok h
  · exact absurd (hlive p hp hid) hd
  refine ⟨⟨p.deleted now, (h.projects _).mpr ⟨p, hp, (if_pos rfl).symm⟩, rfl, nofun⟩,
    fun c hc => ⟨_, (h.conversations _).mpr ⟨c, hc, rfl⟩, ?_⟩, fun d hd hid => ?_⟩
  · split
    · split <;> exact ⟨rfl, rfl⟩
    · exact ⟨rfl, rfl⟩
  obtain ⟨c, hc, rfl⟩ := (h.conversations d).mp hd
  refine ⟨c, hc, ?_, fun hpurged => ?_⟩
  · split
    · split <;> rfl
    · rfl
  · have hcid : c.projectId = some p.id := by
      split at hid
      · rename_i hscope
        exact hscope.1
      · exact hid
    have hcp : c.purgedAt = none := by
      split at hpurged
      · rename_i hscope
        exact hscope.2
      · exact hpurged
    rw [if_pos ⟨hcid, hcp⟩]
    by_cases hc' : c.deletedAt = none
    · rw [if_pos hc']
      exact ⟨nofun, fun _ => hc'⟩
    · rw [if_neg hc']
      exact ⟨fun hl => absurd hl hc', fun hm =>
        absurd ((hs.compatible p hp c hc hcid).unmarked hdeleted hcp) hm⟩

/-- The restoration of a project makes those of its conversations live that it had marked. -/
theorem Consistent.restores (hs : s.Consistent) (hdeleted : Deleted id s)
    (h : s.restoreDeletedProject id expected = .ok t) :
    (∀ c ∈ s.conversations, ∃ d ∈ t.conversations, d.id = c.id ∧ d.projectId = c.projectId) ∧
      ∀ d ∈ t.conversations, d.projectId = some id → ∃ c ∈ s.conversations, c.id = d.id ∧
        c.projectId = some id ∧ c.purgedAt = d.purgedAt ∧
          (d.deletedAt = none ↔ c.purgedAt = none ∧ c.deletedByProjectAt ≠ none) := by
  obtain ⟨_, p, hp, hid, hd⟩ | ⟨p, hp, rfl, _, _, h⟩ := restoreDeletedProject_ok h
  · exact absurd hd (hdeleted.project hp hid)
  refine ⟨fun c hc => ⟨_, (h.conversations _).mpr ⟨c, hc, rfl⟩, ?_⟩, fun d hd hid => ?_⟩
  · split
    · split <;> exact ⟨rfl, rfl⟩
    · exact ⟨rfl, rfl⟩
  obtain ⟨c, hc, rfl⟩ := (h.conversations d).mp hd
  have hcid : c.projectId = some p.id := by
    split at hid
    · rename_i hscope
      exact hscope.1
    · exact hid
  have hcd : c.deletedAt ≠ none := hdeleted.conversations hs c hc hcid
  refine ⟨c, hc, ?_, hcid, ?_⟩
  · split
    · split <;> rfl
    · rfl
  by_cases hcp : c.purgedAt = none
  · rw [if_pos ⟨hcid, hcp⟩]
    by_cases hmark : c.deletedByProjectAt = none
    · rw [if_pos (.inr hmark)]
      exact ⟨rfl, fun hl => absurd hl hcd, fun hm => absurd hmark hm.2⟩
    · rw [if_neg (not_or.mpr ⟨hcd, hmark⟩)]
      exact ⟨rfl, fun _ => ⟨hcp, hmark⟩, fun _ => rfl⟩
  · rw [if_neg fun hscope => hcp hscope.2]
    exact ⟨rfl, fun hl => absurd hl hcd, fun hm => absurd hm.1 hcp⟩

theorem Consistent.restoresExactly {userConfirmed : Bool} {expected' : Nat} {u v : StateStore}
    (hs : s.Consistent) (hlive : ∀ p ∈ s.projects, p.id = id → p.deletedAt = none)
    (hdelete : s.deleteProject now id expected userConfirmed = .ok t)
    (hrun : Run HistoryStep (BeforeRestoration id) t u)
    (hrestore : u.restoreDeletedProject id expected' = .ok v) : RestoresExactly id s v := by
  have ht : t.Consistent := hs.deleteProject hdelete
  obtain ⟨hdt, hkept, hmarks⟩ := hs.deletes hlive hdelete
  obtain ⟨hstays, hu, hdu⟩ := hdt.run ht hrun
  obtain ⟨hkept', hlive'⟩ := hu.restores hdu hrestore
  refine ⟨fun c hc => ?_, fun d hd hid => ?_⟩
  · obtain ⟨c₁, hc₁, hid₁, hp₁⟩ := hkept c hc
    obtain ⟨c₂, hc₂, hid₂, hp₂⟩ := hstays.kept c₁ hc₁
    obtain ⟨c₃, hc₃, hid₃, hp₃⟩ := hkept' c₂ hc₂
    exact ⟨c₃, hc₃, hid₃.trans (hid₂.trans hid₁), hp₃.trans (hp₂.trans hp₁)⟩
  · obtain ⟨c₂, hc₂, hid₂, hp₂, hpurged₂, hiff₂⟩ := hlive' d hd hid
    obtain ⟨c₁, hc₁, hid₁, hp₁, hmark₁, hpurged₁⟩ := hstays.marks c₂ hc₂ hp₂
    obtain ⟨c, hc, hidc, hiff⟩ := hmarks c₁ hc₁ hp₁
    refine ⟨c, hc, hidc.trans (hid₁.trans hid₂), ?_⟩
    rw [hiff₂, ← hpurged₂, ← hmark₁]
    constructor
    · rintro ⟨hp, hm⟩
      exact ⟨(hiff (hpurged₁ hp)).mpr hm, hp⟩
    · rintro ⟨hl, hp⟩
      exact ⟨hp, (hiff (hpurged₁ hp)).mp hl⟩

/-- In every run whose calls create nothing in what is deleted, the conversations follow their
projects into the trash, no task starts there, and a project comes back as it was. A further
call keeps this just when it creates nothing in what is deleted. -/
theorem trash_lifecycle (h : Run HistoryStep KeepsTrash initial s) :
    s.TrashKept ∧
      (∀ x, s.KeepsTrash x ↔
        (s.after x.1 x.2).TrashKept ∧ s.TasksOutsideTrash (s.after x.1 x.2)) ∧
      ∀ {now id expected userConfirmed t u expected' v},
        (∀ p ∈ s.projects, p.id = id → p.deletedAt = none) →
        s.deleteProject now id expected userConfirmed = .ok t →
        Run HistoryStep (BeforeRestoration id) t u →
        u.restoreDeletedProject id expected' = .ok v → RestoresExactly id s v := by
  have hs : s.Consistent := consistent_initial.run h
  refine ⟨hs.trashKept, fun x => ⟨fun hx => ?_, fun hkept => ?_⟩, hs.restoresExactly⟩
  · obtain ⟨hafter, htasks⟩ := hs.after hx
    exact ⟨hafter.trashKept, htasks⟩
  · intro hrest
    rw [hrest] at hkept
    exact hs.outsideTrash_of_kept hkept.1 hkept.2

/-- A call that names nothing deleted. -/
def namesLive (s : StateStore) : HistoryAct → Bool
  | .createConversation projectId .projectChat =>
    s.projects.rows.all fun p => projectId ≠ some p.id ∨ p.deletedAt = none
  | .createTask request =>
    s.conversations.rows.all fun c => c.id ≠ request.conversationId ∨ c.deletedAt = none
  | .moveConversation _ _ targetProjectId _ _ _ =>
    s.projects.rows.all fun p => p.id ≠ targetProjectId ∨ p.deletedAt = none
  | _ => true

theorem keepsTrash_of_namesLive {x : HistoryAct × Option HistoryError}
    (h : s.namesLive x.1 = true) : s.KeepsTrash x := by
  obtain ⟨act, rest⟩ := x
  rintro -
  cases act with
  | createConversation projectId workspaceType =>
    cases workspaceType with
    | chatScratch => trivial
    | projectChat =>
      intro p hp hid
      exact (of_decide_eq_true (List.all_eq_true.mp h p hp)).resolve_left (not_not.mpr hid)
  | createTask request =>
    intro _ c hc hid
    exact (of_decide_eq_true (List.all_eq_true.mp h c hc)).resolve_left (not_not.mpr hid)
  | moveConversation now conversationId targetProjectId expected userConfirmed key =>
    intro _ _ _ _ p hp hid
    exact (of_decide_eq_true (List.all_eq_true.mp h p hp)).resolve_left (not_not.mpr hid)
  | createProject | transitionTask | activity | deleteConversation | restoreConversation
  | purgeConversation | deleteProject | restoreProject | purgeProject => trivial

section Runs

def history (acts : List HistoryAct) : StateStore :=
  (acts.map fun act => (act, none)).foldl (fun s x => s.after x.1 x.2) initial

/-- A project with two conversations, of which the second one is deleted. -/
def oneDeleted : List HistoryAct :=
  [.createProject "a", .transitionTask 2 .failed, .createConversation (some 0) .projectChat,
    .deleteConversation 4 3 0 true]

theorem trash_lifecycle_restored :
    ∃ t v, (history oneDeleted).deleteProject 5 0 0 true = .ok t ∧
      t.restoreDeletedProject 0 1 = .ok v ∧ RestoresExactly 0 (history oneDeleted) v := by
  have hrun : Run HistoryStep (fun s x => s.namesLive x.1 = true) initial (history oneDeleted) :=
    Run.foldl (by decide +kernel)
  have hrun : Run HistoryStep KeepsTrash initial (history oneDeleted) :=
    hrun.mono fun s x => keepsTrash_of_namesLive
  have hok : ((history oneDeleted).deleteProject 5 0 0 true >>= fun t =>
      t.restoreDeletedProject 0 1).toOption.isSome = true := by decide +kernel
  obtain ⟨v, hv⟩ := Option.isSome_iff_exists.mp hok
  cases hboth : (history oneDeleted).deleteProject 5 0 0 true >>= fun t =>
      t.restoreDeletedProject 0 1 with
  | error e =>
    rw [hboth] at hv
    cases hv
  | ok v =>
    obtain ⟨t, ht, hv⟩ := bind_ok hboth
    have hlive : ∀ p ∈ (history oneDeleted).projects.rows, p.id = 0 → p.deletedAt = none := by
      decide +kernel
    exact ⟨t, v, ht, hv, (trash_lifecycle hrun).2.2 hlive ht .refl hv⟩

/-- A project is deleted, and then a conversation is created in it. -/
def createsInDeleted : List HistoryAct :=
  [.createProject "a", .transitionTask 2 .failed, .deleteProject 4 0 0 true,
    .createConversation (some 0) .projectChat]

/-- A project is deleted, and then a conversation is moved to it. -/
def movesIntoDeleted : List HistoryAct :=
  [.createProject "a", .transitionTask 2 .failed, .deleteProject 4 0 0 true,
    .createConversation none .chatScratch, .moveConversation 5 3 0 0 true "k"]

def someTask : TaskCreate := ⟨1, "b", .answer, .local, "k"⟩

/-- In both runs a live conversation is left in a deleted project, and a task can be created
in a deleted conversation. -/
theorem trash_lifecycle_broken :
    ¬ (history createsInDeleted).TrashKept ∧ ¬ (history movesIntoDeleted).TrashKept ∧
      ¬ TasksOutsideTrash (history (createsInDeleted.take 3))
        ((history (createsInDeleted.take 3)).after (.createTask someTask) none) := by
  have hbroken : ∀ s : StateStore, (∃ p ∈ s.projects.rows, p.deletedAt ≠ none ∧
      ∃ c ∈ s.conversations.rows, c.projectId = some p.id ∧ c.deletedAt = none) →
      ¬ s.TrashKept := by
    rintro s ⟨p, hp, hd, c, hc, hid, hlive⟩ h
    exact h.deleted p hp hd c hc hid hlive
  refine ⟨hbroken _ (by decide +kernel), hbroken _ (by decide +kernel), fun h => ?_⟩
  have hnew : ∃ task ∈ ((history (createsInDeleted.take 3)).after (.createTask someTask)
      none).tasks.rows, task.status ∉ TaskStatus.terminal ∧
        (∀ row ∈ (history (createsInDeleted.take 3)).tasks.rows, row.id ≠ task.id) ∧
        ∃ c ∈ ((history (createsInDeleted.take 3)).after (.createTask someTask)
          none).conversations.rows, c.id = task.conversationId ∧ c.deletedAt ≠ none := by
    decide +kernel
  obtain ⟨task, htask, hstatus, hfresh, c, hc, hid, hd⟩ := hnew
  exact hd (h task htask hstatus hfresh c hc hid).1

end Runs

end StateStore

end Fairy.History
