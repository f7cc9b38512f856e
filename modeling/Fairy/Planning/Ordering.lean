import Fairy.Lib.Run
import Fairy.Planning.Application

namespace Fairy.Planning

open Fairy.Lib

/-- What can become of a step: once it is completed or skipped, nothing. -/
structure TaskStep.Keeps (a b : TaskStep) : Prop where
  same : a.Same b
  final : a.status.final → b = a

namespace TaskStep.Keeps

variable {a b c : TaskStep}

theorem refl (a : TaskStep) : a.Keeps a := ⟨.refl a, fun _ => rfl⟩

theorem trans (h : a.Keeps b) (h' : b.Keeps c) : a.Keeps c where
  same := h.same.trans h'.same
  final hfinal := by
    obtain rfl := h.final hfinal
    exact h'.final hfinal

end TaskStep.Keeps

/-- What a transaction may do to the store: steps are kept, and new ones are of new plans. -/
structure Evolves (s s' : PlanningStore) : Prop where
  plans : ∀ p ∈ s.plans, p ∈ s'.plans
  kept : ∀ a ∈ s.steps, ∃ b ∈ s'.steps, a.Keeps b
  origin : ∀ b ∈ s'.steps, (∃ a ∈ s.steps, a.Keeps b) ∨ ∀ p ∈ s.plans, p.id ≠ b.planId

namespace Evolves

variable {s s' s'' : PlanningStore} {a b : TaskStep}

theorem refl (s : PlanningStore) : Evolves s s :=
  ⟨fun _ h => h, fun a ha => ⟨a, ha, .refl a⟩, fun b hb => .inl ⟨b, hb, .refl b⟩⟩

theorem trans (h : Evolves s s') (h' : Evolves s' s'') : Evolves s s'' where
  plans p hp := h'.plans p (h.plans p hp)
  kept a ha := by
    obtain ⟨b, hb, hab⟩ := h.kept a ha
    obtain ⟨c, hc, hbc⟩ := h'.kept b hb
    exact ⟨c, hc, hab.trans hbc⟩
  origin c hc := by
    obtain ⟨b, hb, hbc⟩ | hnew := h'.origin c hc
    · obtain ⟨a, ha, hab⟩ | hnew := h.origin b hb
      · exact .inl ⟨a, ha, hab.trans hbc⟩
      · exact .inr fun p hp => hbc.same.planId ▸ hnew p hp
    · exact .inr fun p hp => hnew p (h.plans p hp)

/-- A step that has been read still has its row. -/
theorem row (h : Evolves s s') (ha : ∃ a ∈ s.steps, a.Same b) : ∃ a ∈ s'.steps, a.Same b := by
  obtain ⟨a, ha, hsame⟩ := ha
  obtain ⟨c, hc, hac⟩ := h.kept a ha
  exact ⟨c, hc, hac.same.symm.trans hsame⟩

theorem final (h : Evolves s s') (ha : a ∈ s.steps) (hfinal : a.status.final) : a ∈ s'.steps := by
  obtain ⟨b, hb, hab⟩ := h.kept a ha
  rwa [hab.final hfinal] at hb

end Evolves

/-- The order of the steps of each plan, in the table of the steps. -/
structure Ordered (s : PlanningStore) : Prop where
  known : ∀ a ∈ s.steps, ∃ p ∈ s.plans, p.id = a.planId
  sequences : ∀ a ∈ s.steps, ∀ b ∈ s.steps, a.planId = b.planId → a.sequence = b.sequence → a = b
  install : ∀ a ∈ s.steps, ∀ b ∈ s.steps, a.planId = b.planId → a.kind = .install →
    b.kind = .install → a = b
  batches : ∀ a ∈ s.steps, ∀ b ∈ s.steps, a.planId = b.planId → a.kind = .implement →
    b.kind = .implement → a.sequence < b.sequence → b.status.begun → a.status = .completed
  tests : ∀ a ∈ s.steps, ∀ b ∈ s.steps, a.planId = b.planId → b.kind = .test → b.status.begun →
    (a.kind = .implement → a.status = .completed) ∧ (a.kind = .install → a.status.final)

/-- What a unit of work has found out before it writes, and nobody can undo. The writes before
it in the same unit of work may skip the install step. -/
structure Licensed (s : PlanningStore) (earlier : List StepWrite) (w : StepWrite) : Prop where
  transition : w.step.status ∈ w.expectedStatus.transitions
  row : ∃ a ∈ s.steps, a.Same w.step
  batches : w.step.kind = .implement → w.step.status = .running → ∀ a ∈ s.steps,
    a.planId = w.step.planId → a.kind = .implement → a.sequence < w.step.sequence →
    a.status = .completed
  tests : w.step.kind = .test → w.step.status = .running → ∀ a ∈ s.steps,
    a.planId = w.step.planId → (a.kind = .implement → a.status = .completed) ∧
      (a.kind = .install → a.status.final ∨
        ∃ x ∈ earlier, x.step.id = a.id ∧ x.step.status = .skipped)

def Licenses (s : PlanningStore) (earlier : List StepWrite) : List StepWrite → Prop
  | [] => True
  | w :: writes => Licensed s earlier w ∧ Licenses s (earlier ++ [w]) writes

section Stability

variable {s s' : PlanningStore} {earlier writes : List StepWrite} {w : StepWrite} {a b : TaskStep}

/-- A row of a known plan comes from a row that the store had before. -/
theorem Evolves.from (h : Evolves s s') (ho : Ordered s) (ha : a ∈ s.steps) (hb : b ∈ s'.steps)
    (hplan : b.planId = a.planId) : ∃ c ∈ s.steps, c.Keeps b := by
  obtain hc | hnew := h.origin b hb
  · exact hc
  · obtain ⟨p, hp, hid⟩ := ho.known a ha
    exact absurd (hid.trans hplan.symm) (hnew p hp)

theorem Licensed.evolves (hl : Licensed s earlier w) (h : Evolves s s') (ho : Ordered s) :
    Licensed s' earlier w := by
  obtain ⟨a, ha, hsame⟩ := hl.row
  have hfrom : ∀ b ∈ s'.steps, b.planId = w.step.planId → ∃ c ∈ s.steps, c.Keeps b :=
    fun b hb hplan => h.from ho ha hb (hplan.trans hsame.planId)
  have hcompleted : ∀ b c : TaskStep, c.Keeps b → c.status = .completed →
      b.status = .completed := by
    intro b c hcb hc
    rw [hcb.final (by rw [hc]; rfl)]
    exact hc
  refine ⟨hl.transition, h.row hl.row, fun hkind hstatus b hb hplan hbkind hlt => ?_,
    fun hkind hstatus b hb hplan => ?_⟩
  · obtain ⟨c, hc, hcb⟩ := hfrom b hb hplan
    rw [hcb.same.planId] at hplan
    rw [hcb.same.kind] at hbkind
    rw [hcb.same.sequence] at hlt
    exact hcompleted b c hcb (hl.batches hkind hstatus c hc hplan hbkind hlt)
  · obtain ⟨c, hc, hcb⟩ := hfrom b hb hplan
    rw [hcb.same.planId] at hplan
    obtain ⟨himplement, hinstall⟩ := hl.tests hkind hstatus c hc hplan
    rw [hcb.same.kind, hcb.same.id]
    refine ⟨fun hc => hcompleted b c hcb (himplement hc), fun hc => ?_⟩
    obtain hfinal | hskip := hinstall hc
    · rw [hcb.final hfinal]
      exact .inl hfinal
    · exact .inr hskip

theorem Licenses.evolves (hl : Licenses s earlier writes) (h : Evolves s s') (ho : Ordered s) :
    Licenses s' earlier writes := by
  induction writes generalizing earlier with
  | nil => exact trivial
  | cons w writes ih => exact ⟨hl.1.evolves h ho, ih hl.2⟩

end Stability

section Writing

variable {s s' : PlanningStore} {earlier writes : List StepWrite} {w : StepWrite} {a b : TaskStep}

theorem Licensed.row_eq (hl : Licensed s earlier w) (ha : a ∈ s.steps) (hm : w.Matches a) :
    a.Same w.step := by
  obtain ⟨b, hb, hsame⟩ := hl.row
  obtain rfl := Table.eq_of_key ha hb (hm.1.trans hsame.id)
  exact hsame

theorem assign_same (hl : Licensed s earlier w) (ha : a ∈ s.steps) (hm : w.Matches a) :
    a.Same (w.assign a) := ⟨rfl, rfl, rfl, (hl.row_eq ha hm).kind⟩

/-- The row that a write compares with is not a final one. -/
theorem assign_keeps (hl : Licensed s earlier w) (ha : a ∈ s.steps) (hm : w.Matches a) :
    a.Keeps (w.assign a) := by
  refine ⟨assign_same hl ha hm, fun hfinal => ?_⟩
  rw [hm.2.1, TaskStepStatus.not_final hl.transition] at hfinal
  exact absurd hfinal (by simp)

theorem saveTaskStep_rows (h : s.saveTaskStep w = .ok s') :
    s'.plans = s.plans ∧ (s'.steps.rows = s.steps.rows.map fun a =>
      if w.Matches a then w.assign a else a) ∧ ∃ a ∈ s.steps, w.Matches a := by
  simp only [PlanningStore.saveTaskStep] at h
  split at h
  · rename_i hrow
    obtain rfl := pure_ok h
    exact ⟨rfl, rfl, hrow⟩
  · cases h

theorem saveTaskStep_evolves (hl : Licensed s earlier w) (h : s.saveTaskStep w = .ok s') :
    Evolves s s' := by
  obtain ⟨hplans, hrows, _⟩ := saveTaskStep_rows h
  refine ⟨fun p hp => hplans ▸ hp, fun a ha => ?_, fun b hb => ?_⟩
  · by_cases hm : w.Matches a
    · exact ⟨w.assign a, Table.mem_update_of hrows ha hm, assign_keeps hl ha hm⟩
    · exact ⟨a, Table.mem_update_of_not hrows ha hm, .refl a⟩
  · obtain ⟨a, ha, hm, rfl⟩ | ⟨hb, _⟩ := Table.update_cases hrows hb
    · exact .inl ⟨a, ha, assign_keeps hl ha hm⟩
    · exact .inl ⟨b, hb, .refl b⟩

/-- The writes before it in the unit of work have been carried out. -/
def Skipped (s : PlanningStore) (earlier : List StepWrite) : Prop :=
  ∀ x ∈ earlier, x.step.status = .skipped → ∀ a ∈ s.steps, a.id = x.step.id → a.status.final

theorem Skipped.evolves (hk : Skipped s earlier) (h : Evolves s s')
    (hrow : ∀ x ∈ earlier, ∃ a ∈ s.steps, a.Same x.step) : Skipped s' earlier := by
  intro x hx hskip b hb hid
  obtain ⟨a, ha, hsame⟩ := hrow x hx
  obtain ⟨c, hc, hac⟩ := h.kept a ha
  obtain rfl := Table.eq_of_key hb hc (hid.trans (hsame.id.trans hac.same.id.symm))
  have hfinal := hk x hx hskip a ha hsame.id.symm
  rw [hac.final hfinal]
  exact hfinal

/-- A row that a licensed write leaves begun was begun before, or has its licence. -/
theorem Ordered.saveTaskStep (ho : Ordered s) (hl : Licensed s earlier w)
    (hk : Skipped s earlier) (h : s.saveTaskStep w = .ok s') : Ordered s' := by
  have hv := saveTaskStep_evolves hl h
  obtain ⟨hplans, hrows, _⟩ := saveTaskStep_rows h
  have hcompleted : ∀ c ∈ s.steps, ∀ b, c.Keeps b → c.status = .completed →
      b.status = .completed := by
    intro c _ b hcb hc
    rw [hcb.final (by rw [hc]; rfl)]
    exact hc
  have hbefore : ∀ b ∈ s'.steps, ∃ c ∈ s.steps, c.Keeps b ∧ (b = c ∨ w.Matches c ∧
      b = w.assign c) := by
    intro b hb
    obtain ⟨c, hc, hm, rfl⟩ | ⟨hb, _⟩ := Table.update_cases hrows hb
    · exact ⟨c, hc, assign_keeps hl hc hm, .inr ⟨hm, rfl⟩⟩
    · exact ⟨b, hb, .refl b, .inl rfl⟩
  have hbegun : ∀ b c : TaskStep, (b = c ∨ w.Matches c ∧ b = w.assign c) → b.status.begun →
      c.status.begun ∨ w.Matches c ∧ w.step.status = .running := by
    rintro b c (rfl | ⟨hm, rfl⟩) hb
    · exact .inl hb
    · obtain hrunning | hexpected := TaskStepStatus.begun_of_transition hl.transition hb
      · exact .inr ⟨hm, hrunning⟩
      · exact .inl (hm.2.1 ▸ hexpected)
  refine ⟨fun b hb => ?_, fun a ha b hb hplan hsequence => ?_,
    fun a ha b hb hplan hak hbk => ?_, fun a ha b hb hplan hak hbk hlt hbb => ?_,
    fun a ha b hb hplan hbk hbb => ?_⟩
  · obtain ⟨c, hc, hcb, _⟩ := hbefore b hb
    obtain ⟨p, hp, hid⟩ := ho.known c hc
    exact ⟨p, hplans ▸ hp, hid.trans hcb.same.planId.symm⟩
  · obtain ⟨c, hc, hca, _⟩ := hbefore a ha
    obtain ⟨d, hd, hdb, _⟩ := hbefore b hb
    have hcd := ho.sequences c hc d hd
      (hca.same.planId.symm.trans (hplan.trans hdb.same.planId))
      (hca.same.sequence.symm.trans (hsequence.trans hdb.same.sequence))
    exact Table.eq_of_key ha hb (hca.same.id.trans (hcd ▸ hdb.same.id.symm))
  · obtain ⟨c, hc, hca, _⟩ := hbefore a ha
    obtain ⟨d, hd, hdb, _⟩ := hbefore b hb
    have hcd := ho.install c hc d hd
      (hca.same.planId.symm.trans (hplan.trans hdb.same.planId))
      (hca.same.kind.symm.trans hak) (hdb.same.kind.symm.trans hbk)
    exact Table.eq_of_key ha hb (hca.same.id.trans (hcd ▸ hdb.same.id.symm))
  · obtain ⟨c, hc, hca, _⟩ := hbefore a ha
    obtain ⟨d, hd, hdb, hdw⟩ := hbefore b hb
    have hcplan := hca.same.planId.symm.trans (hplan.trans hdb.same.planId)
    have hckind := hca.same.kind.symm.trans hak
    have hdkind := hdb.same.kind.symm.trans hbk
    have hcdlt : c.sequence < d.sequence := by
      rw [← hca.same.sequence, ← hdb.same.sequence]
      exact hlt
    refine hcompleted c hc a hca ?_
    obtain hd' | ⟨hm, hrunning⟩ := hbegun b d hdw hbb
    · exact ho.batches c hc d hd hcplan hckind hdkind hcdlt hd'
    · have hsame := hl.row_eq hd hm
      refine hl.batches (hsame.kind.trans hdkind) hrunning c hc (hcplan.trans hsame.planId.symm)
        hckind ?_
      rw [hsame.sequence]
      exact hcdlt
  · obtain ⟨c, hc, hca, _⟩ := hbefore a ha
    obtain ⟨d, hd, hdb, hdw⟩ := hbefore b hb
    have hcplan := hca.same.planId.symm.trans (hplan.trans hdb.same.planId)
    have hdkind := hdb.same.kind.symm.trans hbk
    rw [hca.same.kind]
    have hfinal : c.status.final → a.status.final := by
      intro hcf
      rw [hca.final hcf]
      exact hcf
    obtain hd' | ⟨hm, hrunning⟩ := hbegun b d hdw hbb
    · obtain ⟨himplement, hinstall⟩ := ho.tests c hc d hd hcplan hdkind hd'
      exact ⟨fun hk => hcompleted c hc a hca (himplement hk), fun hk => hfinal (hinstall hk)⟩
    · have hsame := hl.row_eq hd hm
      obtain ⟨himplement, hinstall⟩ := hl.tests (hsame.kind.trans hdkind) hrunning c hc
        (hcplan.trans hsame.planId.symm)
      refine ⟨fun hk => hcompleted c hc a hca (himplement hk), fun hk' => ?_⟩
      obtain hcf | ⟨x, hx, hid, hskip⟩ := hinstall hk'
      · exact hfinal hcf
      · exact hfinal (hk x hx hskip c hc hid.symm)

/-- A unit of work whose writes are licensed keeps the order. -/
theorem commit_spec (ho : Ordered s) (hl : Licenses s earlier writes) (hk : Skipped s earlier)
    (hrow : ∀ x ∈ earlier, ∃ a ∈ s.steps, a.Same x.step) (h : s.commit writes = .ok s') :
    Ordered s' ∧ Evolves s s' := by
  induction writes generalizing s earlier with
  | nil =>
    obtain rfl := pure_ok h
    exact ⟨ho, .refl s⟩
  | cons w writes ih =>
    obtain ⟨t, hsave, hrest⟩ := bind_ok h
    have hv := saveTaskStep_evolves hl.1 hsave
    have hrows := (saveTaskStep_rows hsave).2.1
    have hrow' : ∀ x ∈ earlier ++ [w], ∃ a ∈ t.steps, a.Same x.step := by
      intro x hx
      refine hv.row ?_
      obtain hx | hx := List.mem_append.mp hx
      · exact hrow x hx
      · rw [List.mem_singleton.mp hx]
        exact hl.1.row
    have hskipped : Skipped t (earlier ++ [w]) := by
      intro x hx hskip b hb hid
      obtain hx | hx := List.mem_append.mp hx
      · exact hk.evolves hv hrow x hx hskip b hb hid
      · obtain rfl := List.mem_singleton.mp hx
        obtain ⟨_, _, a, ha, hm⟩ := saveTaskStep_rows hsave
        have hassigned := Table.mem_update_of hrows ha hm
        obtain rfl := Table.eq_of_key hb hassigned (hid.trans hm.1.symm)
        exact TaskStepStatus.final_iff.mpr (.inr hskip)
    obtain ⟨ho', hv'⟩ := ih (ho.saveTaskStep hl.1 hk hsave) (hl.2.evolves hv ho) hskipped hrow'
      hrest
    exact ⟨ho', hv.trans hv'⟩

end Writing

end Fairy.Planning
