import Fairy.Lib.Run
import Fairy.History.Effects

namespace Fairy.History

open Fairy.Lib

/-- What holds of a conversation and its project. The last part is what the restoration of a
project goes by: a mark that the project left stays only on what is deleted with it. -/
structure Compatible (p : Project) (c : Conversation) : Prop where
  deleted : p.deletedAt ≠ none → c.deletedAt ≠ none
  purged : p.purgedAt ≠ none → c.purgedAt ≠ none
  unmarked : p.deletedAt = none → c.purgedAt = none → c.deletedByProjectAt = none

structure Conversation.WellFormed (c : Conversation) : Prop where
  purged : c.purgedAt ≠ none → c.deletedAt ≠ none
  marked : c.deletedByProjectAt ≠ none → c.deletedAt ≠ none

theorem Conversation.Live.wellFormed {c : Conversation} (h : c.Live) : c.WellFormed :=
  ⟨fun hp => absurd h.purged hp, fun hm => absurd h.marked hm⟩

namespace StateStore

structure Consistent (s : StateStore) : Prop where
  wellFormed : ∀ c ∈ s.conversations, c.WellFormed
  purged : ∀ p ∈ s.projects, p.purgedAt ≠ none → p.deletedAt ≠ none
  compatible : ∀ p ∈ s.projects, ∀ c ∈ s.conversations, c.projectId = some p.id → Compatible p c
  owned : ∀ c ∈ s.conversations, ∀ id, c.projectId = some id → ∃ p ∈ s.projects, p.id = id
  freshProject : ∀ p ∈ s.projects, p.id < s.nextId
  freshConversation : ∀ c ∈ s.conversations, c.id < s.nextId
  freshTask : ∀ task ∈ s.tasks, task.id < s.nextId

variable {s t : StateStore} {now : Instant} {id expected : Nat}

theorem consistent_initial : initial.Consistent := by
  refine ⟨?_, ?_, ?_, ?_, ?_, ?_, ?_⟩
  · exact fun c hc => absurd hc (Table.not_mem_empty c)
  · exact fun p hp => absurd hp (Table.not_mem_empty p)
  · exact fun p hp => absurd hp (Table.not_mem_empty p)
  · exact fun c hc => absurd hc (Table.not_mem_empty c)
  · exact fun p hp => absurd hp (Table.not_mem_empty p)
  · exact fun c hc => absurd hc (Table.not_mem_empty c)
  · exact fun task ht => absurd ht (Table.not_mem_empty task)

/-- Rows that change each by itself stay consistent where each pair of them does. -/
theorem Consistent.evolves {f : Conversation → Conversation} {g : Project → Project}
    (hs : s.Consistent) (h : Evolves s t f g) (hf : ∀ c, (f c).SameScope c)
    (hg : ∀ p, (g p).id = p.id) (hwell : ∀ c ∈ s.conversations, (f c).WellFormed)
    (hpurged : ∀ p ∈ s.projects, (g p).purgedAt ≠ none → (g p).deletedAt ≠ none)
    (hpair : ∀ p ∈ s.projects, ∀ c ∈ s.conversations, c.projectId = some p.id →
      Compatible (g p) (f c)) : t.Consistent where
  wellFormed := by
    intro d hd
    obtain ⟨c, hc, rfl⟩ := (h.conversations d).mp hd
    exact hwell c hc
  purged := by
    intro q hq
    obtain ⟨p, hp, rfl⟩ := (h.projects q).mp hq
    exact hpurged p hp
  compatible := by
    intro q hq d hd hid
    obtain ⟨p, hp, rfl⟩ := (h.projects q).mp hq
    obtain ⟨c, hc, rfl⟩ := (h.conversations d).mp hd
    rw [(hf c).2.1, hg] at hid
    exact hpair p hp c hc hid
  owned := by
    intro d hd id hid
    obtain ⟨c, hc, rfl⟩ := (h.conversations d).mp hd
    rw [(hf c).2.1] at hid
    obtain ⟨p, hp, rfl⟩ := hs.owned c hc id hid
    exact ⟨g p, (h.projects _).mpr ⟨p, hp, rfl⟩, hg p⟩
  freshProject := by
    intro q hq
    obtain ⟨p, hp, rfl⟩ := (h.projects q).mp hq
    rw [hg, h.nextId]
    exact hs.freshProject p hp
  freshConversation := by
    intro d hd
    obtain ⟨c, hc, rfl⟩ := (h.conversations d).mp hd
    rw [(hf c).1, h.nextId]
    exact hs.freshConversation c hc
  freshTask := by
    rw [h.tasks, h.nextId]
    exact hs.freshTask

/-- A call that changes one conversation. -/
theorem Consistent.evolves_one {c d : Conversation} (hs : s.Consistent)
    (h : Evolves s t (fun x => if x = c then d else x) fun p => p) (hd : d.SameScope c)
    (hwell : d.WellFormed)
    (hpair : ∀ p ∈ s.projects, c.projectId = some p.id → Compatible p d) : t.Consistent := by
  refine hs.evolves h (fun x => ?_) (fun _ => rfl) (fun x hx => ?_) hs.purged fun p hp x hx hid => ?_
  · by_cases hxc : x = c
    · rw [if_pos hxc, hxc]
      exact hd
    · rw [if_neg hxc]
      exact ⟨rfl, rfl, rfl⟩
  · by_cases hxc : x = c
    · rwa [if_pos hxc]
    · rw [if_neg hxc]
      exact hs.wellFormed x hx
  · by_cases hxc : x = c
    · rw [if_pos hxc]
      exact hpair p hp (hxc ▸ hid)
    · rw [if_neg hxc]
      exact hs.compatible p hp x hx hid

theorem Consistent.deleteConversation {userConfirmed : Bool} (hs : s.Consistent)
    (h : s.deleteConversation now id expected userConfirmed = .ok t) : t.Consistent := by
  obtain rfl | ⟨c, hc, _, hpurged, h⟩ := deleteConversation_ok h
  · exact hs
  · refine hs.evolves_one h ⟨rfl, rfl, rfl⟩ ⟨nofun, nofun⟩ fun p hp hid => ⟨nofun, ?_, fun _ _ => rfl⟩
    exact (hs.compatible p hp c hc hid).purged

theorem Consistent.restoreDeletedConversation (hs : s.Consistent)
    (h : s.restoreDeletedConversation id expected = .ok t) : t.Consistent := by
  obtain rfl | ⟨c, hc, _, hpurged, hlive, h⟩ := restoreDeletedConversation_ok h
  · exact hs
  · refine hs.evolves_one h ⟨rfl, rfl, rfl⟩ ⟨fun hp => absurd hpurged hp, fun hm => absurd rfl hm⟩
      fun p hp hid => ⟨fun hd => absurd (hlive p hp hid) hd, ?_, fun _ _ => rfl⟩
    exact fun hp' => absurd (hlive p hp hid) (hs.purged p hp hp')

theorem Consistent.purgeDeletedConversation {userConfirmed : Bool} (hs : s.Consistent)
    (h : s.purgeDeletedConversation now id expected userConfirmed = .ok t) : t.Consistent := by
  obtain rfl | ⟨c, hc, hdeleted, _, h⟩ := purgeDeletedConversation_ok h
  · exact hs
  · refine hs.evolves_one h ⟨rfl, rfl, rfl⟩ ⟨fun _ => hdeleted, fun _ => hdeleted⟩
      fun p hp hid => ⟨fun _ => hdeleted, nofun, fun _ hp' => absurd hp' nofun⟩

/-- A call that changes a project and its conversations. -/
theorem Consistent.evolves_all {f : Conversation → Conversation} {p q : Project}
    (hs : s.Consistent) (hp : p ∈ s.projects)
    (h : Evolves s t (fun x => if x.projectId = some p.id ∧ x.purgedAt = none then f x else x)
      fun x => if x = p then q else x)
    (hf : ∀ c, (f c).SameScope c) (hq : q.id = p.id)
    (hwell : ∀ c ∈ s.conversations, c.purgedAt = none → (f c).WellFormed)
    (hpurged : q.purgedAt ≠ none → q.deletedAt ≠ none)
    (hkept : ∀ c ∈ s.conversations, c.projectId = some p.id → c.purgedAt ≠ none → Compatible q c)
    (hpair : ∀ c ∈ s.conversations, c.projectId = some p.id → c.purgedAt = none →
      Compatible q (f c)) : t.Consistent := by
  refine hs.evolves h (fun x => ?_) (fun x => ?_) (fun x hx => ?_) (fun x hx => ?_)
    fun x hx c hc hid => ?_
  · split
    · exact hf x
    · exact ⟨rfl, rfl, rfl⟩
  · split
    · rename_i hxp
      rw [hxp, hq]
    · rfl
  · split
    · rename_i hscope
      exact hwell x hx hscope.2
    · exact hs.wellFormed x hx
  · split
    · exact hpurged
    · exact hs.purged x hx
  · by_cases hxp : x = p
    · subst hxp
      rw [if_pos rfl]
      by_cases hcp : c.purgedAt = none
      · rw [if_pos ⟨hid, hcp⟩]
        exact hpair c hc hid hcp
      · rw [if_neg fun hscope => hcp hscope.2]
        exact hkept c hc hid hcp
    · have hother : ¬ (c.projectId = some p.id ∧ c.purgedAt = none) := by
        rintro ⟨hscope, _⟩
        exact hxp (Table.eq_of_key hx hp (Option.some.inj (hid.symm.trans hscope)))
      rw [if_neg hxp, if_neg hother]
      exact hs.compatible x hx c hc hid

theorem Consistent.deleteProject {userConfirmed : Bool} (hs : s.Consistent)
    (h : s.deleteProject now id expected userConfirmed = .ok t) : t.Consistent := by
  obtain ⟨rfl, _⟩ | ⟨p, hp, _, _, hpurged, h⟩ := deleteProject_ok h
  · exact hs
  refine hs.evolves_all hp h (fun c => ?_) rfl (fun c hc _ => ?_) nofun (fun c hc _ hcp => ?_)
    fun c hc hid hcp => ⟨fun _ => ?_, fun hp' => absurd hpurged hp', nofun⟩
  · split <;> exact ⟨rfl, rfl, rfl⟩
  · split
    · exact ⟨nofun, nofun⟩
    · exact hs.wellFormed c hc
  · exact ⟨fun _ => (hs.wellFormed c hc).purged hcp, fun hp' => absurd hpurged hp', nofun⟩
  · split
    · exact nofun
    · assumption

theorem Consistent.restoreDeletedProject (hs : s.Consistent)
    (h : s.restoreDeletedProject id expected = .ok t) : t.Consistent := by
  obtain ⟨rfl, _⟩ | ⟨p, hp, _, _, hpurged, h⟩ := restoreDeletedProject_ok h
  · exact hs
  refine hs.evolves_all hp h (fun c => ?_) rfl (fun c hc hcp => ?_)
    (fun hp' => absurd hpurged hp') (fun c hc _ hcp => ?_)
    fun c hc hid hcp => ⟨fun hd => absurd rfl hd, fun hp' => absurd hpurged hp', fun _ _ => ?_⟩
  · split <;> exact ⟨rfl, rfl, rfl⟩
  · split
    · exact hs.wellFormed c hc
    · exact ⟨fun hp' => absurd hcp hp', fun hm => absurd rfl hm⟩
  · exact ⟨fun hd => absurd rfl hd, fun hp' => absurd hpurged hp', fun _ hc' => absurd hc' hcp⟩
  · split
    · rename_i hstays
      by_contra hm
      obtain hlive | hunmarked := hstays
      · exact (hs.wellFormed c hc).marked hm hlive
      · exact hm hunmarked
    · rfl

theorem Consistent.purgeDeletedProject {userConfirmed : Bool} (hs : s.Consistent)
    (h : s.purgeDeletedProject now id expected userConfirmed = .ok t) : t.Consistent := by
  obtain rfl | ⟨p, hp, _, hdeleted, _, h⟩ := purgeDeletedProject_ok h
  · exact hs
  have hall : ∀ c ∈ s.conversations, c.projectId = some p.id → c.deletedAt ≠ none :=
    fun c hc hid => (hs.compatible p hp c hc hid).deleted hdeleted
  refine hs.evolves_all hp h (fun c => ?_) rfl (fun c hc hcp => ?_) (fun _ => hdeleted)
    (fun c hc hid hcp => ⟨fun _ => hall c hc hid, fun _ => hcp, fun hp' => absurd hp' hdeleted⟩)
    fun c hc hid hcp => ?_
  · split <;> exact ⟨rfl, rfl, rfl⟩
  · split
    · exact hs.wellFormed c hc
    · rename_i hdeleted
      exact ⟨fun _ => hdeleted, fun _ => hdeleted⟩
  · rw [if_neg (hall c hc hid)]
    exact ⟨fun _ => hall c hc hid, nofun, fun hp' => absurd hp' hdeleted⟩

end StateStore

end Fairy.History
