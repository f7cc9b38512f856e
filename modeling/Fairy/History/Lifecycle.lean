import Fairy.History.Trash

namespace Fairy.History

open Fairy.Lib

namespace StateStore

variable {s t : StateStore} {now : Instant} {id expected : Nat}

/-- What is promised of the trash in each state. -/
structure TrashKept (s : StateStore) : Prop where
  deleted : ∀ p ∈ s.projects, p.deletedAt ≠ none →
    ∀ c ∈ s.conversations, c.projectId = some p.id → c.deletedAt ≠ none
  purged : ∀ p ∈ s.projects, p.purgedAt ≠ none →
    ∀ c ∈ s.conversations, c.projectId = some p.id → c.purgedAt ≠ none

theorem Consistent.trashKept (hs : s.Consistent) : s.TrashKept where
  deleted p hp hd c hc hid := (hs.compatible p hp c hc hid).deleted hd
  purged p hp hd c hc hid := (hs.compatible p hp c hc hid).purged hd

/-- What is promised of a step: a new task that is not done is not in the trash. -/
def TasksOutsideTrash (s t : StateStore) : Prop :=
  ∀ task ∈ t.tasks, task.status ∉ TaskStatus.terminal → (∀ row ∈ s.tasks, row.id ≠ task.id) →
    ∀ c ∈ t.conversations, c.id = task.conversationId → c.deletedAt = none ∧ c.purgedAt = none

theorem tasksOutsideTrash_of_rows (h : ∀ task ∈ t.tasks, ∃ row ∈ s.tasks, row.id = task.id) :
    s.TasksOutsideTrash t := by
  intro task htask _ hnew
  obtain ⟨row, hrow, hid⟩ := h task htask
  exact absurd hid (hnew row hrow)

theorem tasksOutsideTrash_of_eq (h : t.tasks = s.tasks) : s.TasksOutsideTrash t :=
  tasksOutsideTrash_of_rows fun task htask => ⟨task, h ▸ htask, rfl⟩

/-- A call that creates nothing in what is deleted. -/
def OutsideTrash (s : StateStore) : HistoryAct → Prop
  | .createConversation projectId .projectChat =>
    ∀ p ∈ s.projects, projectId = some p.id → p.deletedAt = none
  | .createTask request => s.AsksForTask request →
    ∀ c ∈ s.conversations, c.id = request.conversationId → c.deletedAt = none
  | .moveConversation _ conversationId targetProjectId expected userConfirmed key =>
    ∀ source ∈ s.conversations, source.id = conversationId →
      s.AsksToMove expected userConfirmed key source →
        ∀ p ∈ s.projects, p.id = targetProjectId → p.deletedAt = none
  | _ => True

theorem Consistent.creates {c : Conversation} (hs : s.Consistent)
    (h : CreatesConversation s t c)
    (hproject : ∀ id, c.projectId = some id → ∃ p ∈ s.projects, p.id = id)
    (hlive : ∀ p ∈ s.projects, c.projectId = some p.id → p.deletedAt = none) :
    t.Consistent := by
  have hmem : ∀ d ∈ t.conversations, d = c ∨ d ∈ s.conversations := by
    intro d hd
    rw [h.conversations, Table.mem_upsert] at hd
    exact hd.imp_right And.left
  refine ⟨fun d hd => ?_, ?_, fun p hp d hd hid => ?_, fun d hd id hid => ?_, fun p hp => ?_,
    fun d hd => ?_, fun task htask => ?_⟩
  · obtain rfl | hd := hmem d hd
    · exact h.live.wellFormed
    · exact hs.wellFormed d hd
  · rw [h.projects]
    exact hs.purged
  · rw [h.projects] at hp
    obtain rfl | hd := hmem d hd
    · have hpl := hlive p hp hid
      exact ⟨fun hd => absurd hpl hd, fun hd => absurd hpl (hs.purged p hp hd),
        fun _ _ => h.live.marked⟩
    · exact hs.compatible p hp d hd hid
  · rw [h.projects]
    obtain rfl | hd := hmem d hd
    · exact hproject id hid
    · exact hs.owned d hd id hid
  · rw [h.projects] at hp
    rw [h.nextId]
    exact Nat.lt_succ_of_lt (hs.freshProject p hp)
  · rw [h.nextId]
    obtain rfl | hd := hmem d hd
    · rw [h.identifier]
      exact Nat.lt_succ_self _
    · exact Nat.lt_succ_of_lt (hs.freshConversation d hd)
  · rw [h.tasks] at htask
    rw [h.nextId]
    exact Nat.lt_succ_of_lt (hs.freshTask task htask)

theorem Consistent.createProject {name : String} (hs : s.Consistent)
    (h : s.createProject name = .ok t) : t.Consistent := by
  obtain ⟨p, c, task, hp, hdeleted, hpurged, hc, hlive, hproject, htask, _, hprojects,
    hconversations, htasks, hnext⟩ := createProject_ok h
  have hps : ∀ q ∈ t.projects, q = p ∨ q ∈ s.projects := by
    intro q hq
    rw [hprojects, Table.mem_upsert] at hq
    exact hq.imp_right And.left
  have hcs : ∀ d ∈ t.conversations, d = c ∨ d ∈ s.conversations := by
    intro d hd
    rw [hconversations, Table.mem_upsert] at hd
    exact hd.imp_right And.left
  have hmem : p ∈ t.projects := by
    rw [hprojects, Table.mem_upsert]
    exact .inl rfl
  refine ⟨fun d hd => ?_, fun q hq hd => ?_, fun q hq d hd hid => ?_, fun d hd id hid => ?_,
    fun q hq => ?_, fun d hd => ?_, fun x hx => ?_⟩
  · obtain rfl | hd := hcs d hd
    · exact hlive.wellFormed
    · exact hs.wellFormed d hd
  · obtain rfl | hq := hps q hq
    · exact absurd hpurged hd
    · exact hs.purged q hq hd
  · obtain rfl | hq := hps q hq
    · refine ⟨fun hd => absurd hdeleted hd, fun hd => absurd hpurged hd, fun _ _ => ?_⟩
      obtain rfl | hd := hcs d hd
      · exact hlive.marked
      · -- No conversation can be in the project before it is there.
        obtain ⟨r, hr, hrid⟩ := hs.owned d hd q.id hid
        exact absurd (hrid.trans hp) (Nat.ne_of_lt (hs.freshProject r hr))
    · obtain rfl | hd := hcs d hd
      · have hpq : p.id = q.id := Option.some.inj (hproject.symm.trans hid)
        exact absurd (hpq.symm.trans hp) (Nat.ne_of_lt (hs.freshProject q hq))
      · exact hs.compatible q hq d hd hid
  · obtain rfl | hd := hcs d hd
    · exact ⟨p, hmem, Option.some.inj (hproject.symm.trans hid)⟩
    · obtain ⟨q, hq, rfl⟩ := hs.owned d hd id hid
      refine ⟨q, ?_, rfl⟩
      rw [hprojects, Table.mem_upsert, hp]
      exact .inr ⟨hq, Nat.ne_of_lt (hs.freshProject q hq)⟩
  · rw [hnext]
    obtain rfl | hq := hps q hq
    · rw [hp]
      exact Nat.lt_add_of_pos_right (by decide)
    · exact Nat.lt_add_right 3 (hs.freshProject q hq)
  · rw [hnext]
    obtain rfl | hd := hcs d hd
    · rw [hc]
      exact Nat.add_lt_add_left (by decide) _
    · exact Nat.lt_add_right 3 (hs.freshConversation d hd)
  · rw [hnext]
    rw [htasks, Table.mem_upsert] at hx
    obtain rfl | ⟨hx, _⟩ := hx
    · rw [htask]
      exact Nat.add_lt_add_left (by decide) _
    · exact Nat.lt_add_right 3 (hs.freshTask x hx)

theorem Consistent.createsTask {task : Task} (hs : s.Consistent) (h : CreatesTask s t task) :
    t.Consistent := by
  refine ⟨h.conversations ▸ hs.wellFormed, h.projects ▸ hs.purged, ?_, ?_, fun p hp => ?_,
    fun c hc => ?_, fun x hx => ?_⟩
  · rw [h.projects, h.conversations]
    exact hs.compatible
  · rw [h.projects, h.conversations]
    exact hs.owned
  · rw [h.projects] at hp
    rw [h.nextId]
    exact Nat.lt_succ_of_lt (hs.freshProject p hp)
  · rw [h.conversations] at hc
    rw [h.nextId]
    exact Nat.lt_succ_of_lt (hs.freshConversation c hc)
  · rw [h.nextId]
    rw [h.tasks, Table.mem_upsert] at hx
    obtain rfl | ⟨hx, _⟩ := hx
    · rw [h.identifier]
      exact Nat.lt_succ_self _
    · exact Nat.lt_succ_of_lt (hs.freshTask x hx)

theorem Consistent.moves {source destination : Conversation} {p : Project} (hs : s.Consistent)
    (h : Moves s t now source destination p) (hp : p ∈ s.projects) (hlive : p.deletedAt = none)
    (hmem : source ∈ s.conversations) : t.Consistent := by
  let u : StateStore :=
    { s with
      nextId := s.nextId + 1
      conversations := s.conversations.upsert destination trivial }
  have hu : u.Consistent := by
    refine hs.creates ⟨h.identifier, h.live, rfl, rfl, rfl, rfl, rfl⟩ (fun id hid => ?_)
      fun q hq hid => ?_
    · exact ⟨p, hp, Option.some.inj (h.projectId.symm.trans hid)⟩
    · have hid : p.id = q.id := Option.some.inj (h.projectId.symm.trans hid)
      rwa [Table.eq_of_key hq hp hid.symm]
  have hsu : source ∈ u.conversations := by
    change source ∈ s.conversations.upsert destination trivial
    rw [Table.mem_upsert, h.identifier]
    exact .inr ⟨hmem, Nat.ne_of_lt (hs.freshConversation source hmem)⟩
  have hev : Evolves u t (fun x => if x = source then source.deleted now false else x)
      (fun p => p) :=
    ⟨h.conversations, fun q => by simp [h.projects, u], h.tasks, h.nextId⟩
  refine hu.evolves_one hev ⟨rfl, rfl, rfl⟩ ⟨nofun, nofun⟩ fun q hq hid => ⟨nofun, ?_, fun _ _ => rfl⟩
  exact (hu.compatible q hq source hsu hid).purged

theorem Consistent.transitionTask {status : TaskStatus} (hs : s.Consistent)
    (h : s.transitionTask id status = .ok t) : t.Consistent := by
  obtain ⟨hconversations, hprojects, hnext, htasks⟩ := transitionTask_ok h
  refine ⟨hconversations ▸ hs.wellFormed, hprojects ▸ hs.purged, ?_, ?_, ?_, ?_, fun x hx => ?_⟩
  · rw [hprojects, hconversations]
    exact hs.compatible
  · rw [hprojects, hconversations]
    exact hs.owned
  · rw [hprojects, hnext]
    exact hs.freshProject
  · rw [hconversations, hnext]
    exact hs.freshConversation
  · obtain ⟨row, hrow, hid⟩ := htasks x hx
    rw [hnext, ← hid]
    exact hs.freshTask row hrow

/-- Each call keeps the store consistent, if it creates nothing in what is deleted. -/
theorem Consistent.perform (hs : s.Consistent) {act : HistoryAct} (ha : s.OutsideTrash act)
    (h : s.perform act = .ok t) : t.Consistent := by
  cases act with
  | createProject name => exact hs.createProject h
  | createConversation projectId workspaceType =>
    obtain ⟨c, hc, hnone | ⟨rfl, p, hp, rfl, hcp⟩⟩ := createConversation_ok h
    · exact hs.creates hc (fun id hid => by simp [hnone] at hid)
        fun p _ hid => by simp [hnone] at hid
    · refine hs.creates hc (fun id hid => ?_) fun q hq hid => ?_
      · exact ⟨p, hp, Option.some.inj (hcp.symm.trans hid)⟩
      · exact ha q hq (hcp.symm.trans hid)
  | createTask request =>
    obtain rfl | ⟨_, c, _, _, task, _, hcreates⟩ := prepareTaskIntent_ok h
    · exact hs
    · exact hs.createsTask hcreates
  | transitionTask id status => exact hs.transitionTask h
  | activity turns previews runtimes =>
    cases h
    exact ⟨hs.wellFormed, hs.purged, hs.compatible, hs.owned, hs.freshProject,
      hs.freshConversation, hs.freshTask⟩
  | moveConversation now conversationId targetProjectId expected userConfirmed key =>
    obtain rfl | ⟨source, hsource, hid, hasks, p, hp, hpid, destination, hmoves⟩ :=
      moveToProject_ok hs.freshConversation h
    · exact hs
    · exact hs.moves hmoves hp (ha source hsource hid hasks p hp hpid) hsource
  | deleteConversation now id expected userConfirmed => exact hs.deleteConversation h
  | restoreConversation id expected => exact hs.restoreDeletedConversation h
  | purgeConversation now id expected userConfirmed => exact hs.purgeDeletedConversation h
  | deleteProject now id expected userConfirmed => exact hs.deleteProject h
  | restoreProject id expected => exact hs.restoreDeletedProject h
  | purgeProject now id expected userConfirmed => exact hs.purgeDeletedProject h

/-- No call leaves a new task that is not done in the trash, if it creates nothing there. -/
theorem Consistent.tasksOutsideTrash (hs : s.Consistent) {act : HistoryAct}
    (ha : s.OutsideTrash act) (h : s.perform act = .ok t) : s.TasksOutsideTrash t := by
  cases act with
  | createProject name =>
    obtain ⟨p, c, task, _, _, _, hc, hlive, _, _, hconversation, _, hconversations, htasks, _⟩ :=
      createProject_ok h
    intro x hx _ hnew d hd hid
    rw [htasks, Table.mem_upsert] at hx
    obtain rfl | ⟨hx, _⟩ := hx
    · rw [hconversations, Table.mem_upsert] at hd
      obtain rfl | ⟨_, hne⟩ := hd
      · exact ⟨hlive.deleted, hlive.purged⟩
      · exact absurd (hid.trans hconversation) hne
    · exact absurd rfl (hnew x hx)
  | createConversation projectId workspaceType =>
    obtain ⟨c, hc, _⟩ := createConversation_ok h
    exact tasksOutsideTrash_of_eq hc.tasks
  | createTask request =>
    obtain rfl | ⟨hasks, c, hc, hid, task, hconversation, hcreates⟩ := prepareTaskIntent_ok h
    · exact tasksOutsideTrash_of_eq rfl
    intro x hx _ hnew d hd hxd
    rw [hcreates.tasks, Table.mem_upsert] at hx
    obtain rfl | ⟨hx, _⟩ := hx
    · rw [hcreates.conversations] at hd
      obtain rfl : d = c := Table.eq_of_key hd hc (hxd.trans hconversation)
      have hlive := ha hasks d hd hid
      exact ⟨hlive, not_not.mp fun hp => (hs.wellFormed d hd).purged hp hlive⟩
    · exact absurd rfl (hnew x hx)
  | transitionTask id status => exact tasksOutsideTrash_of_rows (transitionTask_ok h).2.2.2
  | activity turns previews runtimes =>
    cases h
    exact tasksOutsideTrash_of_eq rfl
  | moveConversation now conversationId targetProjectId expected userConfirmed key =>
    obtain rfl | ⟨_, _, _, _, _, _, _, _, hmoves⟩ := moveToProject_ok hs.freshConversation h
    · exact tasksOutsideTrash_of_eq rfl
    · exact tasksOutsideTrash_of_eq hmoves.tasks
  | deleteConversation now id expected userConfirmed =>
    obtain rfl | ⟨_, _, _, _, h⟩ := deleteConversation_ok h
    · exact tasksOutsideTrash_of_eq rfl
    · exact tasksOutsideTrash_of_eq h.tasks
  | restoreConversation id expected =>
    obtain rfl | ⟨_, _, _, _, _, h⟩ := restoreDeletedConversation_ok h
    · exact tasksOutsideTrash_of_eq rfl
    · exact tasksOutsideTrash_of_eq h.tasks
  | purgeConversation now id expected userConfirmed =>
    obtain rfl | ⟨_, _, _, _, h⟩ := purgeDeletedConversation_ok h
    · exact tasksOutsideTrash_of_eq rfl
    · exact tasksOutsideTrash_of_eq h.tasks
  | deleteProject now id expected userConfirmed =>
    obtain ⟨rfl, _⟩ | ⟨_, _, _, _, _, h⟩ := deleteProject_ok h
    · exact tasksOutsideTrash_of_eq rfl
    · exact tasksOutsideTrash_of_eq h.tasks
  | restoreProject id expected =>
    obtain ⟨rfl, _⟩ | ⟨_, _, _, _, _, h⟩ := restoreDeletedProject_ok h
    · exact tasksOutsideTrash_of_eq rfl
    · exact tasksOutsideTrash_of_eq h.tasks
  | purgeProject now id expected userConfirmed =>
    obtain rfl | ⟨_, _, _, _, _, h⟩ := purgeDeletedProject_ok h
    · exact tasksOutsideTrash_of_eq rfl
    · exact tasksOutsideTrash_of_eq h.tasks

theorem after_ok {act : HistoryAct} (h : s.perform act = .ok t) : s.after act none = t := by
  simp only [after]
  rw [h]

theorem after_cases (s : StateStore) (act : HistoryAct) (rest : Option HistoryError) :
    s.after act rest = s ∨ rest = none ∧ s.perform act = .ok (s.after act rest) := by
  cases hact : s.perform act with
  | error e =>
    left
    simp only [after, hact]
  | ok t =>
    cases rest with
    | none => exact .inr ⟨rfl, by rw [after_ok hact]⟩
    | some e =>
      left
      simp only [after, hact]

/-- A call that creates something in what is deleted breaks what is promised. -/
theorem Consistent.outsideTrash_of_kept (hs : s.Consistent) {act : HistoryAct}
    (hkept : (s.after act none).TrashKept)
    (htasks : s.TasksOutsideTrash (s.after act none)) : s.OutsideTrash act := by
  cases act with
  | createConversation projectId workspaceType =>
    cases workspaceType with
    | chatScratch => trivial
    | projectChat =>
      rintro p hp rfl
      by_contra hdeleted
      obtain ⟨t, c, ht, hcp, hc⟩ := createConversation_total hp
      have hact : s.perform (.createConversation (some p.id) .projectChat) = .ok t := ht
      rw [after_ok hact] at hkept
      refine hkept.deleted p (hc.projects ▸ hp) hdeleted c ?_ hcp hc.live.deleted
      rw [hc.conversations, Table.mem_upsert]
      exact .inl rfl
  | createTask request =>
    intro hasks c hc hid
    obtain ⟨t, task, ht, hconversation, hcreates⟩ := prepareTaskIntent_total hasks hc hid
    have hact : s.perform (.createTask request) = .ok t := ht
    rw [after_ok hact] at htasks
    refine (htasks task ?_ ?_ (fun row hrow => ?_) c ?_ hconversation.symm).1
    · rw [hcreates.tasks, Table.mem_upsert]
      exact .inl rfl
    · rw [hcreates.status]
      decide
    · rw [hcreates.identifier]
      exact Nat.ne_of_lt (hs.freshTask row hrow)
    · exact hcreates.conversations ▸ hc
  | moveConversation now conversationId targetProjectId expected userConfirmed key =>
    rintro source hsource rfl hasks p hp rfl
    by_contra hdeleted
    obtain ⟨t, destination, ht, hmoves⟩ :=
      moveToProject_total now hs.freshConversation hsource hasks hp
    have hact : s.perform (.moveConversation now source.id p.id expected userConfirmed key) =
        .ok t := ht
    rw [after_ok hact] at hkept
    have hne : destination ≠ source := by
      rintro rfl
      exact absurd hmoves.identifier (Nat.ne_of_lt (hs.freshConversation _ hsource))
    refine hkept.deleted p (hmoves.projects ▸ hp) hdeleted destination ?_ hmoves.projectId
      hmoves.live.deleted
    exact (hmoves.conversations _).mpr
      ⟨destination, Table.mem_upsert.mpr (.inl rfl), (if_neg hne).symm⟩
  | createProject | transitionTask | activity | deleteConversation | restoreConversation
  | purgeConversation | deleteProject | restoreProject | purgeProject => trivial

end StateStore

end Fairy.History
