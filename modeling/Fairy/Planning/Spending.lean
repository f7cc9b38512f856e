import Fairy.Planning.Budgets

namespace Fairy.Planning

open Fairy.Lib

section Steps

variable {s s' : PlanningStore} {writes : List StepWrite} {w : StepWrite} {a b step : TaskStep}
  {planId : Uuid}

theorem commit_plans (h : s.commit writes = .ok s') : s'.plans = s.plans := by
  induction writes generalizing s with
  | nil => rw [pure_ok h]
  | cons w writes ih =>
    obtain ⟨t, hsave, h⟩ := bind_ok h
    rw [ih h, (saveTaskStep_rows hsave).1]

/-- A step that is completed or skipped is not written again. -/
theorem commit_final (hw : ∀ w ∈ writes, w.expectedStatus.final = false)
    (h : s.commit writes = .ok s') (ha : a ∈ s.steps) (hfinal : a.status.final) :
    a ∈ s'.steps := by
  induction writes generalizing s with
  | nil =>
    obtain rfl := pure_ok h
    exact ha
  | cons w writes ih =>
    obtain ⟨t, hsave, h⟩ := bind_ok h
    refine ih (fun x hx => hw x (List.mem_cons_of_mem _ hx)) h ?_
    refine Table.mem_update_of_not (saveTaskStep_rows hsave).2.1 ha fun hm => ?_
    have hexpected := hw w List.mem_cons_self
    rw [← hm.2.1, hfinal] at hexpected
    cases hexpected

/-- A step that one of the writes completes or skips is so at the end. -/
theorem commit_settles (hw : ∀ w ∈ writes, w.expectedStatus.final = false)
    (h : s.commit writes = .ok s') (hmem : w ∈ writes) (hfinal : w.step.status.final) :
    ∃ b ∈ s'.steps, b.id = w.step.id ∧ b.status.final := by
  induction writes generalizing s with
  | nil => exact absurd hmem List.not_mem_nil
  | cons v writes ih =>
    obtain ⟨t, hsave, htail⟩ := bind_ok h
    have hrest : ∀ w ∈ writes, w.expectedStatus.final = false := fun x hx =>
      hw x (List.mem_cons_of_mem _ hx)
    obtain rfl | hmem := List.mem_cons.mp hmem
    · obtain ⟨-, hrows, a, ha, hm⟩ := saveTaskStep_rows hsave
      exact ⟨w.assign a, commit_final hrest htail (Table.mem_update_of hrows ha hm) hfinal,
        hm.1, hfinal⟩
    · exact ih hrest htail hmem

/-- The status of a step is its old one, or the one that a write has given it. -/
theorem commit_status (h : s.commit writes = .ok s') (ha : a ∈ s.steps) :
    ∃ b ∈ s'.steps, b.id = a.id ∧ b.planId = a.planId ∧
      (b.status = a.status ∨ ∃ w ∈ writes, w.step.id = a.id ∧ w.step.status = b.status) := by
  induction writes generalizing s a with
  | nil =>
    obtain rfl := pure_ok h
    exact ⟨a, ha, rfl, rfl, .inl rfl⟩
  | cons w writes ih =>
    obtain ⟨t, hsave, h⟩ := bind_ok h
    have hrows := (saveTaskStep_rows hsave).2.1
    by_cases hm : w.Matches a
    · obtain ⟨b, hb, hid, hplan, hstatus⟩ := ih h (Table.mem_update_of hrows ha hm)
      refine ⟨b, hb, hid, hplan, .inr ?_⟩
      obtain hsame | ⟨x, hx, hxid, hxstatus⟩ := hstatus
      · exact ⟨w, List.mem_cons_self, hm.1.symm, hsame.symm⟩
      · exact ⟨x, List.mem_cons_of_mem _ hx, hxid, hxstatus⟩
    · obtain ⟨b, hb, hid, hplan, hstatus⟩ := ih h (Table.mem_update_of_not hrows ha hm)
      refine ⟨b, hb, hid, hplan, hstatus.imp id ?_⟩
      rintro ⟨x, hx, hxid, hxstatus⟩
      exact ⟨x, List.mem_cons_of_mem _ hx, hxid, hxstatus⟩

/-- All the steps of a plan that is known have been completed or skipped. -/
def Settled (s : PlanningStore) (planId : Uuid) : Prop :=
  ∀ a ∈ s.steps, a.planId = planId → a.status.final

theorem Settled.evolves (h : Settled s planId) (hv : Evolves s s')
    (hp : ∃ plan ∈ s.plans, plan.id = planId) : Settled s' planId := by
  obtain ⟨plan, hplan, hid⟩ := hp
  intro b hb hbid
  obtain ⟨a, ha, hab⟩ | hnew := hv.origin b hb
  · have hfinal := h a ha (hab.same.planId.symm.trans hbid)
    rw [hab.final hfinal]
    exact hfinal
  · exact absurd (hid.trans hbid.symm) (hnew plan hplan)

theorem settled_spec (h : settled (s.taskStepsForPlan planId) = true) : Settled s planId := by
  intro a ha hid
  simp only [settled, decide_eq_true_eq] at h
  have hmem := h.2 a (mem_taskStepsForPlan.mpr ⟨ha, hid⟩)
  exact TaskStepStatus.final_iff.mpr (by simpa using hmem)

/-- The checkpoint step waits for no other. -/
theorem licensed_checkpoint {now : Time} {target : TaskStepStatus} {earlier : List StepWrite}
    (hrow : ∃ a ∈ s.steps, a.Same step) (hkind : step.kind = .checkpoint)
    (h : step.move now target = .ok w) : Licensed s earlier w := by
  obtain ⟨hexpected, hstatus, hsame, hmem⟩ := move_spec h
  obtain ⟨a, ha, has⟩ := hrow
  have hcheckpoint : w.step.kind = .checkpoint := hsame.kind.trans hkind
  refine ⟨by rwa [hexpected, hstatus], ⟨a, ha, has.trans hsame⟩, fun hk => ?_, fun hk => ?_⟩
  · rw [hcheckpoint] at hk
    cases hk
  · rw [hcheckpoint] at hk
    cases hk

theorem licenses_checkpoint {now : Time}
    (h : checkpointWrites now (s.taskStepsForPlan planId) = .ok writes) :
    Licenses s [] writes := by
  simp only [checkpointWrites] at h
  split at h
  · obtain rfl := pure_ok h
    exact trivial
  · rename_i step hfound
    have hstep := (mem_taskStepsForPlan.mp (List.mem_of_find?_eq_some hfound)).1
    have hkind : step.kind = .checkpoint := by simpa using List.find?_some hfound
    split at h
    · obtain ⟨started, hstarted, h⟩ := bind_ok h
      obtain ⟨completed, hcompleted, h⟩ := bind_ok h
      obtain rfl := pure_ok h
      have hsame := (move_spec hstarted).2.2.1
      exact ⟨licensed_checkpoint ⟨step, hstep, .refl step⟩ hkind hstarted,
        licensed_checkpoint ⟨step, hstep, hsame⟩ (hsame.kind.trans hkind) hcompleted, trivial⟩
    · obtain ⟨completed, hcompleted, h⟩ := bind_ok h
      obtain rfl := pure_ok h
      exact ⟨licensed_checkpoint ⟨step, hstep, .refl step⟩ hkind hcompleted, trivial⟩
    all_goals
      obtain rfl := pure_ok h
      exact trivial

theorem Licenses.expected {earlier : List StepWrite} (h : Licenses s earlier writes) :
    ∀ w ∈ writes, w.expectedStatus.final = false := by
  induction writes generalizing earlier with
  | nil => exact fun _ hw => absurd hw List.not_mem_nil
  | cons v writes ih =>
    intro w hw
    obtain rfl | hw := List.mem_cons.mp hw
    · exact TaskStepStatus.not_final h.1.transition
    · exact ih h.2 w hw

end Steps

section Accounts

variable {planId : Uuid} {log log' : List (Uuid × PlanOp)} {u : UnitOfWork} {a b c : PlanUsage}

theorem opsOf_append : opsOf planId (log ++ log') = opsOf planId log ++ opsOf planId log' := by
  rw [opsOf, List.filter_append, List.map_append]
  rfl

theorem opsOf_eq_nil (h : ∀ e ∈ log, e.1 ≠ planId) : opsOf planId log = [] := by
  rw [opsOf, List.map_eq_nil_iff, List.filter_eq_nil_iff]
  intro e he
  simpa using h e he

theorem opsOf_entries (h : ∀ x ∈ u.usage, x.row.planId = planId) :
    opsOf planId u.entries = u.usage.map (·.op) := by
  have hall : u.entries.filter (·.1 = planId) = u.entries := by
    rw [List.filter_eq_self]
    intro e he
    obtain ⟨x, hx, rfl⟩ := List.mem_map.mp he
    simpa using h x hx
  rw [opsOf, hall, UnitOfWork.entries, List.map_map]
  rfl

/-- The row of a plan after the operations of a log. -/
structure Moved (log : List (Uuid × PlanOp)) (a b : PlanUsage) : Prop where
  row : b.planId = a.planId
  replay : planRows.replay (opsOf a.planId log) a = some b

theorem Moved.refl (a : PlanUsage) : Moved [] a a := ⟨rfl, rfl⟩

theorem Moved.trans (h : Moved log a b) (h' : Moved log' b c) : Moved (log ++ log') a c := by
  refine ⟨h'.row.trans h.row, ?_⟩
  rw [opsOf_append]
  exact Revised.replay_append h.replay (h.row ▸ h'.replay)

/-- What units of work do to the store, in whatever order they commit. -/
structure Moves (log : List (Uuid × PlanOp)) (s s' : PlanStore) : Prop where
  steps : Evolves s.planning s'.planning
  kept : ∀ a ∈ s.usage, ∃ b ∈ s'.usage, Moved log a b
  origin : ∀ b ∈ s'.usage, (∃ a ∈ s.usage, Moved log a b) ∨
    ∀ plan ∈ s.planning.plans, plan.id ≠ b.planId

variable {s s' s'' : PlanStore}

theorem Moves.refl (s : PlanStore) : Moves [] s s :=
  ⟨.refl _, fun a ha => ⟨a, ha, .refl a⟩, fun b hb => .inl ⟨b, hb, .refl b⟩⟩

theorem Moves.trans (h : Moves log s s') (h' : Moves log' s' s'') :
    Moves (log ++ log') s s'' where
  steps := h.steps.trans h'.steps
  kept a ha := by
    obtain ⟨b, hb, hab⟩ := h.kept a ha
    obtain ⟨c, hc, hbc⟩ := h'.kept b hb
    exact ⟨c, hc, hab.trans hbc⟩
  origin c hc := by
    obtain ⟨b, hb, hbc⟩ | hnew := h'.origin c hc
    · obtain ⟨a, ha, hab⟩ | hnew := h.origin b hb
      · exact .inl ⟨a, ha, hab.trans hbc⟩
      · exact .inr fun plan hplan => hbc.row ▸ hnew plan hplan
    · exact .inr fun plan hplan => hnew plan (h.steps.plans plan hplan)

/-- What a unit of work has read still holds of the rows that it has read, and its writes are
licensed. One that completes a plan has seen, or sees to it, that the steps are settled. -/
structure Ready (s : PlanStore) (u : UnitOfWork) : Prop where
  licensed : Licenses s.planning [] u.steps
  known : ∀ x ∈ u.usage, ∃ plan ∈ s.planning.plans, plan.id = x.row.planId
  held : ∃ planId, (∀ x ∈ u.usage, x.row.planId = planId) ∧
    ∀ row ∈ s.usage, row.planId = planId → planRows.Held u.usage row
  settles : ∀ x ∈ u.usage, x.row.status = .completed →
    ∀ a ∈ s.planning.steps, a.planId = x.row.planId →
      a.status.final ∨ ∃ y ∈ u.steps, y.step.id = a.id ∧ y.step.status.final

theorem Ready.moves (h : Ready s u) (ho : Ordered s.planning) (hm : Moves log s s') :
    Ready s' u := by
  obtain ⟨planId, hids, hheld⟩ := h.held
  refine ⟨h.licensed.evolves hm.steps ho, fun x hx => ?_, ⟨planId, hids, fun row hrow hid => ?_⟩,
    fun x hx hcompleted b hb hplan => ?_⟩
  · obtain ⟨plan, hplan, hid⟩ := h.known x hx
    exact ⟨plan, hm.steps.plans plan hplan, hid⟩
  · obtain ⟨a, ha, hmoved⟩ | hnew := hm.origin row hrow
    · exact (hheld a ha (hmoved.row.symm.trans hid)).replay hmoved.replay
    · cases husage : u.usage with
      | nil => exact Revised.Follows.held trivial
      | cons x l =>
        -- the plan of a write is known, so its row is not a new one
        have hx : x ∈ u.usage := husage ▸ List.mem_cons_self
        obtain ⟨plan, hplan, hpid⟩ := h.known x hx
        exact absurd (hpid.trans ((hids x hx).trans hid.symm)) (hnew plan hplan)
  · obtain ⟨a, ha, hab⟩ | hnew := hm.steps.origin b hb
    · obtain hfinal | ⟨y, hy, hid, hfinal⟩ := h.settles x hx hcompleted a ha
        (hab.same.planId.symm.trans hplan)
      · rw [hab.final hfinal]
        exact .inl hfinal
      · exact .inr ⟨y, hy, hid.trans hab.same.id.symm, hfinal⟩
    · obtain ⟨plan, hknown, hpid⟩ := h.known x hx
      exact absurd (hpid.trans hplan.symm) (hnew plan hknown)

end Accounts

section Committing

variable {s s' : PlanStore} {u : UnitOfWork} {a b : PlanUsage} {l : List UsageWrite}

theorem writes_last (h : planRows.writes l a = some b) : b = a ∨ ∃ x ∈ l, x.row = b := by
  induction l generalizing a with
  | nil => exact .inl (Option.some.inj h).symm
  | cons w l ih =>
    rw [Revised.writes_cons] at h
    obtain ⟨c, hc, h⟩ := Option.bind_eq_some_iff.mp h
    rw [Revised.write] at hc
    split at hc
    · obtain rfl := Option.some.inj hc
      obtain rfl | ⟨x, hx, hxb⟩ := ih h
      · exact .inr ⟨w, List.mem_cons_self, rfl⟩
      · exact .inr ⟨x, List.mem_cons_of_mem _ hx, hxb⟩
    · cases hc

/-- A unit of work that commits does to the plans what its operations do. -/
theorem Ready.commit (h : Ready s u) (ho : Ordered s.planning) (hc : s.commit u = .ok s') :
    s.planning.commit u.steps = .ok s'.planning ∧ Ordered s'.planning ∧ Moves u.entries s s' ∧
      ∀ b ∈ s'.usage, b ∈ s.usage ∨ ∃ x ∈ u.usage, x.row = b := by
  obtain ⟨planning, hsteps, hc⟩ := bind_ok hc
  obtain ⟨ho', hv⟩ := commit_spec ho h.licensed (fun x hx => absurd hx List.not_mem_nil)
    (fun x hx => absurd hx List.not_mem_nil) hsteps
  obtain ⟨planId, hids, hheld⟩ := h.held
  obtain ⟨hplanning, hkept, horigin⟩ := updates_rows hids hc
  have hmoved : ∀ a ∈ s.usage, ∀ b, Becomes planId (planRows.writes u.usage) a b →
      Moved u.entries a b := by
    intro a ha b hab
    refine ⟨hab.row, ?_⟩
    by_cases hid : a.planId = planId
    · rw [hid, opsOf_entries hids]
      exact (hheld a ha hid).writes (hab.written hid)
    · have hnone : opsOf a.planId u.entries = [] := by
        refine opsOf_eq_nil fun e he => ?_
        obtain ⟨x, hx, rfl⟩ := List.mem_map.mp he
        rw [hids x hx]
        exact fun heq => hid heq.symm
      rw [hnone, hab.other hid]
      rfl
  rw [hplanning]
  refine ⟨hsteps, ho', ⟨hplanning ▸ hv, fun a ha => ?_, fun b hb => ?_⟩, fun b hb => ?_⟩
  · obtain ⟨b, hb, hab⟩ := hkept a ha
    exact ⟨b, hb, hmoved a ha b hab⟩
  · obtain ⟨a, ha, hab⟩ := horigin b hb
    exact .inl ⟨a, ha, hmoved a ha b hab⟩
  · obtain ⟨a, ha, hab⟩ := horigin b hb
    by_cases hid : a.planId = planId
    · obtain rfl | hx := writes_last (hab.written hid)
      · exact .inl ha
      · exact .inr hx
    · exact .inl (hab.other hid ▸ ha)

end Committing

section Preparing

variable {s : PlanStore} {u : UnitOfWork} {now : Time} {taskId : Uuid} {ops : List PlanOp}
  {row : PlanUsage} {l : List UsageWrite} {writes : List StepWrite}

theorem ready_steps (h : Licenses s.planning [] writes) : Ready s ⟨writes, []⟩ :=
  ⟨h, fun _ hx => absurd hx List.not_mem_nil,
    ⟨0, fun _ hx => absurd hx List.not_mem_nil, fun _ _ _ => Revised.Follows.held trivial⟩,
    fun _ hx => absurd hx List.not_mem_nil⟩

/-- A unit of work that has read a plan, and completes it only once the steps are settled. -/
theorem ready_usage (hrow : s.usageForTask taskId = some row)
    (hw : Licenses s.planning [] writes) (h : usageWrites ops row = .ok l)
    (hops : ∀ op ∈ ops, ∀ p p', op.Stores p p' → p'.status = .completed →
      ∀ a ∈ s.planning.steps, a.planId = row.planId →
        a.status.final ∨ ∃ y ∈ writes, y.step.id = a.id ∧ y.step.status.final) :
    Ready s ⟨writes, l⟩ := by
  obtain ⟨hmem, plan, hplan, hid⟩ := usageForTask_spec hrow
  obtain ⟨hfollows, hof⟩ := usageWrites_spec h
  have hids : ∀ x ∈ l, x.row.planId = row.planId := fun x hx => (follows_row hfollows hx).1
  refine ⟨hw, fun x hx => ⟨plan, hplan, hid.trans (hids x hx).symm⟩,
    ⟨row.planId, hids, fun other hother heq => ?_⟩, fun x hx hcompleted a ha haplan => ?_⟩
  · obtain rfl := Table.eq_of_key hother hmem heq
    exact hfollows.held
  · obtain ⟨-, p, hstores⟩ := follows_row hfollows hx
    exact hops x.op (hof x hx) p x.row hstores hcompleted a ha (haplan.trans (hids x hx))

/-- A call leaves an active plan active. -/
theorem PlanOp.Stores.active {op : PlanOp} {p p' : PlanUsage} (h : op.Stores p p')
    (hop : ∀ status now, op ≠ .finish status now) : p'.status = .active := by
  cases op with
  | modelCall | toolCall =>
    obtain ⟨hactive, -, -, rfl⟩ := h
    exact hactive
  | upgrade =>
    obtain ⟨hactive, -, -, -, rfl⟩ := h
    exact hactive
  | finish status now => exact absurd rfl (hop status now)

theorem ready_chargeUsage (hops : ∀ op ∈ ops, ∀ status now, op ≠ .finish status now)
    (h : s.chargeUsage taskId ops = .ok u) : Ready s u := by
  simp only [PlanStore.chargeUsage] at h
  split at h
  · obtain rfl := pure_ok h
    exact ready_steps trivial
  · rename_i row hrow
    obtain ⟨l, hl, h⟩ := bind_ok h
    obtain rfl := pure_ok h
    refine ready_usage hrow trivial hl fun op hop p p' hstores hcompleted => ?_
    rw [hstores.active (hops op hop)] at hcompleted
    cases hcompleted

theorem ready_finishExecutionPlan {status : ExecutionPlanStatus}
    (h : s.finishExecutionPlan now taskId status = .ok u) : Ready s u := by
  simp only [PlanStore.finishExecutionPlan] at h
  split at h
  · obtain rfl := pure_ok h
    exact ready_steps trivial
  · rename_i row hrow
    split at h
    · obtain rfl := pure_ok h
      exact ready_steps trivial
    · rename_i hguard
      obtain ⟨l, hl, h⟩ := bind_ok h
      obtain rfl := pure_ok h
      refine ready_usage hrow trivial hl fun op hop p p' hstores hcompleted a ha hid => .inl ?_
      obtain rfl := List.mem_singleton.mp hop
      obtain ⟨-, -, rfl⟩ := hstores
      have hstatus : status = .completed := by
        cases status with
        | completed => rfl
        | active | paused | failed | cancelled => cases hcompleted
      simp only [hstatus, decide_true, Bool.true_and, Bool.or_eq_true, Bool.not_eq_true',
        not_or, Bool.not_eq_false] at hguard
      exact settled_spec hguard.2 a ha hid

theorem ready_reviewTask (h : s.reviewTask now taskId = .ok u) : Ready s u := by
  simp only [PlanStore.reviewTask] at h
  split at h
  · obtain rfl := pure_ok h
    exact ready_steps trivial
  · rename_i row hrow
    split at h
    · obtain rfl := pure_ok h
      exact ready_steps trivial
    · obtain ⟨writes, hwrites, h⟩ := bind_ok h
      obtain ⟨planning, hcommit, h⟩ := bind_ok h
      have hlicensed := licenses_checkpoint hwrites
      split at h
      · rename_i hsettled
        obtain ⟨l, hl, h⟩ := bind_ok h
        obtain rfl := pure_ok h
        refine ready_usage hrow hlicensed hl fun _ _ _ _ _ _ a ha hid => ?_
        obtain ⟨b, hb, hbid, hbplan, hstatus⟩ := commit_status hcommit ha
        have hfinal := settled_spec hsettled b hb (hbplan.trans hid)
        obtain hsame | ⟨y, hy, hyid, hystatus⟩ := hstatus
        · exact .inl (hsame ▸ hfinal)
        · exact .inr ⟨y, hy, hyid, hystatus ▸ hfinal⟩
      · obtain rfl := pure_ok h
        exact ready_steps hlicensed

theorem ready_prepare {call : PlanCall} (ho : Ordered s.planning)
    (h : s.prepare now taskId call = .ok u) : Ready s u := by
  cases call with
  | planning call =>
    obtain ⟨⟨result, writes⟩, hprepare, h⟩ := bind_ok h
    obtain rfl := pure_ok h
    exact ready_steps (licenses_prepare ho hprepare)
  | consumeModelBudget checked =>
    refine ready_chargeUsage (fun op hop => ?_) h
    rw [List.mem_singleton.mp hop]
    exact fun _ _ heq => by cases heq
  | reserveParallelToolBudget checked =>
    simp only [PlanStore.prepare] at h
    split at h
    · cases h
    · refine ready_chargeUsage (fun op hop => ?_) h
      obtain ⟨t, -, rfl⟩ := List.mem_map.mp hop
      exact fun _ _ heq => by cases heq
  | configureWorkflowBudget =>
    refine ready_chargeUsage (fun op hop => ?_) h
    rw [List.mem_singleton.mp hop]
    exact fun _ _ heq => by cases heq
  | finishExecutionPlan status => exact ready_finishExecutionPlan h
  | reviewTask => exact ready_reviewTask h

end Preparing

section Creating

variable {s s' : PlanningStore} {plan : ExecutionPlan} {steps : List TaskStep} {now : Time}
  {newPlanId : Uuid} {newId : Nat → Uuid}

/-- The columns that a plan is created with. -/
structure Fresh (plan : ExecutionPlan) : Prop where
  maxModelCalls : plan.maxModelCalls = 12
  maxToolCalls : plan.maxToolCalls = 32
  modelCalls : plan.modelCallsUsed ≤ 12
  toolCalls : plan.toolCallsUsed ≤ 32

theorem Fresh.within (h : Fresh plan) : (PlanUsage.create now plan).Within := by
  refine ⟨?_, ?_, ⟨.normal, by simp, h.maxModelCalls, h.maxToolCalls, rfl⟩, fun hpaused => ?_⟩
  · exact h.modelCalls.trans_eq h.maxModelCalls.symm
  · exact h.toolCalls.trans_eq h.maxToolCalls.symm
  · cases hpaused

theorem create_fresh {id : Uuid} {task : Task} {manifest : Manifest} {models tools : Nat}
    (h : ExecutionPlan.create now newId id task manifest models tools = .ok (plan, steps)) :
    Fresh plan := by
  simp only [ExecutionPlan.create] at h
  split at h
  · obtain ⟨normalized, _, h⟩ := bind_ok h
    split at h
    · cases h
    · rename_i hmodels
      split at h
      · cases h
      · rename_i htools
        obtain ⟨built, _, h⟩ := bind_ok h
        obtain ⟨rfl, rfl⟩ := Prod.mk.inj (pure_ok h)
        exact ⟨rfl, rfl, Nat.not_lt.mp hmodels, Nat.not_lt.mp htools⟩
  · cases h

/-- A plan that is asked for is there already, or is added. -/
theorem create_cases {task : Option Task} {request : PlanningStore.CreateInput}
    (h : s.create now newPlanId newId task request = .ok (s', plan, steps)) :
    (s' = s ∧ plan ∈ s.plans) ∨
      (s'.plans.rows = s.plans.rows ++ [plan] ∧ (∀ p ∈ s.plans, p.id ≠ plan.id) ∧ Fresh plan) := by
  simp only [PlanningStore.create] at h
  split at h
  · cases h
  · split at h
    · rename_i existing hexisting
      split at h
      · cases h
      · obtain ⟨rfl, hmade⟩ := Prod.mk.inj (pure_ok h)
        obtain ⟨rfl, -⟩ := Prod.mk.inj hmade
        exact .inl ⟨rfl, (Table.oneOrNone_eq_some hexisting).1⟩
    · obtain ⟨⟨built, builtSteps⟩, hbuilt, h⟩ := bind_ok h
      obtain ⟨saved, hsaved, h⟩ := bind_ok h
      obtain ⟨rfl, hmade⟩ := Prod.mk.inj (pure_ok h)
      obtain ⟨rfl, -⟩ := Prod.mk.inj hmade
      obtain ⟨hrows, hfresh, -⟩ := saveExecutionPlan_rows hsaved
      exact .inr ⟨hrows, hfresh, create_fresh hbuilt⟩

end Creating

namespace PlanWorld

/-- Every plan has its account: the operations that have been committed, one after another from
the plan as it was created, make its row. -/
structure Sound (w : PlanWorld) : Prop where
  ordered : Ordered w.store.planning
  charged : ∀ plan ∈ w.store.planning.plans, ∃ row ∈ w.store.usage, row.planId = plan.id
  accounts : ∀ row ∈ w.store.usage, ∃ plan ∈ w.store.planning.plans, ∃ created,
    plan.id = row.planId ∧ Fresh plan ∧
      planRows.replay (opsOf row.planId w.log) (PlanUsage.create created plan) = some row
  logged : ∀ e ∈ w.log, ∃ plan ∈ w.store.planning.plans, plan.id = e.1
  finished : ∀ row ∈ w.store.usage, row.status = .completed →
    Settled w.store.planning row.planId
  ready : ∀ u ∈ w.pending, Ready w.store u

variable {w w' : PlanWorld} {act : PlanAct} {u : UnitOfWork} {s : PlanStore}

theorem sound_initial : initial.Sound where
  ordered := World.sound_initial.ordered
  charged _ h := absurd h (Table.not_mem_empty _)
  accounts _ h := absurd h (Table.not_mem_empty _)
  logged _ h := absurd h List.not_mem_nil
  finished _ h := absurd h (Table.not_mem_empty _)
  ready _ h := absurd h List.not_mem_nil

theorem Sound.known (h : w.Sound) {row : PlanUsage} (hrow : row ∈ w.store.usage) :
    ∃ plan ∈ w.store.planning.plans, plan.id = row.planId := by
  obtain ⟨plan, hplan, _, hid, -⟩ := h.accounts row hrow
  exact ⟨plan, hplan, hid⟩

theorem Sound.create {now : Time} {newPlanId : Uuid} {newId : Nat → Uuid} {task : Option Task}
    {request : PlanningStore.CreateInput} (h : w.Sound)
    (hc : w.store.create now newPlanId newId task request = .ok s) :
    Sound { w with store := s } ∧ Moves [] w.store s := by
  obtain ⟨⟨planning, plan, steps⟩, hcreate, hc⟩ := bind_ok hc
  have hsteps : World.Sound ⟨w.store.planning, []⟩ :=
    ⟨h.ordered, fun _ hw => absurd hw List.not_mem_nil⟩
  obtain ⟨ho, hv⟩ := hsteps.create hcreate
  obtain ⟨rfl, hplan⟩ | ⟨hplans, hnew, hfresh⟩ := create_cases hcreate
  · have hthere : ∃ row ∈ w.store.usage.rows, row.planId = plan.id := h.charged plan hplan
    simp only [if_pos hthere] at hc
    obtain rfl := pure_ok hc
    exact ⟨h, .refl _⟩
  · have hnone : ¬ ∃ row ∈ w.store.usage.rows, row.planId = plan.id := by
      rintro ⟨row, hrow, hid⟩
      obtain ⟨p, hp, hpid⟩ := h.known hrow
      exact hnew p hp (hpid.trans hid)
    simp only [if_neg hnone] at hc
    split at hc
    · rename_i usage hinsert
      obtain rfl := pure_ok hc
      have hrows := (Table.insertAll_eq_some hinsert).1
      have hold : ∀ row ∈ usage, row ∈ w.store.usage ∨ row = PlanUsage.create now plan := by
        intro row hrow
        obtain hrow | hrow := (Table.mem_of_rows_append hrows).mp hrow
        · exact .inl hrow
        · exact .inr (List.mem_singleton.mp hrow)
      have hmade : plan ∈ planning.plans :=
        (Table.mem_of_rows_append hplans).mpr (.inr (List.mem_singleton_self plan))
      have hmoves : Moves [] w.store ⟨planning, usage⟩ := by
        refine ⟨hv, fun a ha => ⟨a, ?_, .refl a⟩, fun b hb => ?_⟩
        · exact (Table.mem_of_rows_append hrows).mpr (.inl ha)
        · obtain hb | rfl := hold b hb
          · exact .inl ⟨b, hb, .refl b⟩
          · exact .inr hnew
      refine ⟨⟨ho, fun p hp => ?_, fun row hrow => ?_, fun e he => ?_, fun row hrow hstatus => ?_,
        fun u hu => (h.ready u hu).moves h.ordered hmoves⟩, hmoves⟩
      · obtain hp | hp := (Table.mem_of_rows_append hplans).mp hp
        · obtain ⟨row, hrow, hid⟩ := h.charged p hp
          exact ⟨row, (Table.mem_of_rows_append hrows).mpr (.inl hrow), hid⟩
        · obtain rfl := List.mem_singleton.mp hp
          exact ⟨_, (Table.mem_of_rows_append hrows).mpr (.inr (List.mem_singleton_self _)), rfl⟩
      · obtain hrow | rfl := hold row hrow
        · obtain ⟨p, hp, hrest⟩ := h.accounts row hrow
          exact ⟨p, hv.plans p hp, hrest⟩
        · have hempty : opsOf plan.id w.log = [] := by
            refine opsOf_eq_nil fun e he => ?_
            obtain ⟨p, hp, hid⟩ := h.logged e he
            exact hid ▸ hnew p hp
          exact ⟨plan, hmade, now, rfl, hfresh, by rw [PlanUsage.create, hempty]; rfl⟩
      · obtain ⟨p, hp, hid⟩ := h.logged e he
        exact ⟨p, hv.plans p hp, hid⟩
      · obtain hrow | rfl := hold row hrow
        · exact (h.finished row hrow hstatus).evolves hv (h.known hrow)
        · cases hstatus
    · cases hc

theorem Sound.commit (h : w.Sound) (hu : u ∈ w.pending) (hc : w.store.commit u = .ok s) :
    Sound ⟨s, w.pending.erase u, w.log ++ u.entries⟩ ∧ Moves u.entries w.store s := by
  have hready := h.ready u hu
  obtain ⟨hsteps, ho, hmoves, hlast⟩ := hready.commit h.ordered hc
  have horigin : ∀ b ∈ s.usage, ∃ a ∈ w.store.usage, Moved u.entries a b := by
    intro b hb
    obtain hmoved | hnew := hmoves.origin b hb
    · exact hmoved
    · obtain hb | ⟨x, hx, rfl⟩ := hlast b hb
      · obtain ⟨plan, hplan, hid⟩ := h.known hb
        exact absurd hid (hnew plan hplan)
      · obtain ⟨plan, hplan, hid⟩ := hready.known x hx
        exact absurd hid (hnew plan hplan)
  refine ⟨⟨ho, fun plan hplan => ?_, fun b hb => ?_, fun e he => ?_, fun b hb hstatus => ?_,
    fun v hv => (h.ready v (List.mem_of_mem_erase hv)).moves h.ordered hmoves⟩, hmoves⟩
  · rw [show s.planning.plans = w.store.planning.plans from commit_plans hsteps] at hplan
    obtain ⟨a, ha, hid⟩ := h.charged plan hplan
    obtain ⟨b, hb, hab⟩ := hmoves.kept a ha
    exact ⟨b, hb, hab.row.trans hid⟩
  · obtain ⟨a, ha, hab⟩ := horigin b hb
    obtain ⟨plan, hplan, created, hid, hfresh, hreplay⟩ := h.accounts a ha
    refine ⟨plan, hmoves.steps.plans plan hplan, created, hid.trans hab.row.symm, hfresh, ?_⟩
    rw [hab.row, opsOf_append]
    exact Revised.replay_append hreplay hab.replay
  · obtain he | he := List.mem_append.mp he
    · obtain ⟨plan, hplan, hid⟩ := h.logged e he
      exact ⟨plan, hmoves.steps.plans plan hplan, hid⟩
    · obtain ⟨x, hx, rfl⟩ := List.mem_map.mp he
      obtain ⟨plan, hplan, hid⟩ := hready.known x hx
      exact ⟨plan, hmoves.steps.plans plan hplan, hid⟩
  · obtain hb | ⟨x, hx, rfl⟩ := hlast b hb
    · exact (h.finished b hb hstatus).evolves hmoves.steps (h.known hb)
    · -- the unit of work that has completed the plan
      have hexpected := hready.licensed.expected
      obtain ⟨plan, hplan, hid⟩ := hready.known x hx
      intro c hc hcid
      obtain ⟨a, ha, hac⟩ | hnew := hmoves.steps.origin c hc
      · obtain hfinal | ⟨y, hy, hyid, hfinal⟩ :=
          hready.settles x hx hstatus a ha (hac.same.planId.symm.trans hcid)
        · rw [hac.final hfinal]
          exact hfinal
        · obtain ⟨b, hb, hbid, hfinal⟩ := commit_settles hexpected hsteps hy hfinal
          obtain rfl := Table.eq_of_key hc hb
            (hac.same.id.trans (hyid.symm.trans hbid.symm))
          exact hfinal
      · exact absurd (hid.trans hcid.symm) (hnew plan hplan)

theorem Sound.step (h : w.Sound) (hs : Step w act w') :
    w'.Sound ∧ ∃ entries, Moves entries w.store w'.store := by
  rw [hs]
  cases act with
  | create now newPlanId newId task request =>
    simp only [after]
    split
    · rename_i store hcreate
      obtain ⟨hsound, hmoves⟩ := h.create hcreate
      exact ⟨hsound, [], hmoves⟩
    · exact ⟨h, [], .refl _⟩
  | prepare now taskId call =>
    simp only [after]
    split
    · rename_i u hprepare
      refine ⟨{ h with ready := fun v hv => ?_ }, [], .refl _⟩
      obtain hv | hv := List.mem_append.mp hv
      · exact h.ready v hv
      · rw [List.mem_singleton.mp hv]
        exact ready_prepare h.ordered hprepare
    · exact ⟨h, [], .refl _⟩
  | commit u =>
    simp only [after]
    split
    · rename_i hmem
      split
      · rename_i store hcommit
        obtain ⟨hsound, hmoves⟩ := h.commit hmem hcommit
        exact ⟨hsound, u.entries, hmoves⟩
      · exact ⟨{ h with ready := fun v hv => h.ready v (List.mem_of_mem_erase hv) }, [], .refl _⟩
    · exact ⟨h, [], .refl _⟩

theorem Sound.run {ok : PlanWorld → PlanAct → Prop} (h : w.Sound) (hr : Run Step ok w w') :
    w'.Sound := hr.invariant (fun _ _ _ ha _ hs => (ha.step hs).1) h

theorem Sound.moves_run {ok : PlanWorld → PlanAct → Prop} (h : w.Sound)
    (hr : Run Step ok w w') : ∃ entries, Moves entries w.store w'.store := by
  refine hr.history (I := Sound) (R := fun w w' => ∃ entries, Moves entries w.store w'.store)
    (fun w => ⟨[], .refl w.store⟩) ?_ (fun _ _ _ ha _ hs => (ha.step hs).1)
    (fun _ _ _ ha _ hs => (ha.step hs).2) h
  rintro a b c ⟨entries, hab⟩ ⟨entries', hbc⟩
  exact ⟨entries ++ entries', hab.trans hbc⟩

end PlanWorld

section Runs

variable {w : PlanWorld}

/-- For every order of the units of work: the row of a plan is what the operations that have been
committed make of the plan, one after another. So no call is lost or counted twice, and no plan
exceeds its budget. -/
theorem budgets_of_run (h : Run PlanWorld.Step (fun _ _ => True) .initial w) :
    ∀ plan ∈ w.store.planning.plans, ∃ row ∈ w.store.usage, row.planId = plan.id ∧
      (∃ created, planRows.replay (opsOf plan.id w.log) (PlanUsage.create created plan) =
        some row) ∧
      row.modelCallsUsed = plan.modelCallsUsed + (opsOf plan.id w.log).countP PlanOp.isModelCall ∧
      row.toolCallsUsed = plan.toolCallsUsed + (opsOf plan.id w.log).countP PlanOp.isToolCall ∧
      row.Within := by
  have hs := PlanWorld.sound_initial.run h
  intro plan hplan
  obtain ⟨row, hrow, hid⟩ := hs.charged plan hplan
  obtain ⟨made, hmade, created, hmid, hfresh, hreplay⟩ := hs.accounts row hrow
  obtain rfl := Table.eq_of_key hmade hplan (hmid.trans hid)
  rw [hid] at hreplay
  obtain ⟨hmodels, htools⟩ := PlanUsage.replay_used hreplay
  exact ⟨row, hrow, hid, ⟨created, hreplay⟩, hmodels, htools, hfresh.within.replay hreplay⟩

/-- For every order of the units of work: no plan that is stored is paused, one that has ended
keeps its row, and one that is completed has only steps that are completed or skipped, for good. -/
theorem endings_of_run (h : Run PlanWorld.Step (fun _ _ => True) .initial w) :
    ∀ row ∈ w.store.usage, row.status ≠ .paused ∧
      (row.status.terminal → ∀ w', Run PlanWorld.Step (fun _ _ => True) w w' →
        row ∈ w'.store.usage) ∧
      (row.status = .completed → ∀ w', Run PlanWorld.Step (fun _ _ => True) w w' →
        ∀ step ∈ w'.store.planning.steps, step.planId = row.planId →
          step.status ∈ [TaskStepStatus.completed, .skipped]) := by
  have hs := PlanWorld.sound_initial.run h
  intro row hrow
  obtain ⟨plan, hplan, created, -, hfresh, hreplay⟩ := hs.accounts row hrow
  have hkept : row.status.terminal → ∀ w', Run PlanWorld.Step (fun _ _ => True) w w' →
      row ∈ w'.store.usage := by
    intro hterminal w' hr
    obtain ⟨entries, hmoves⟩ := hs.moves_run hr
    obtain ⟨b, hb, hmoved⟩ := hmoves.kept row hrow
    rwa [PlanUsage.replay_terminal hterminal hmoved.replay] at hb
  refine ⟨(hfresh.within.replay hreplay).running, hkept, fun hcompleted w' hr step hstep hid => ?_⟩
  have hrow' := hkept (by rw [hcompleted]; rfl) w' hr
  have hfinal := (hs.run hr).finished row hrow' hcompleted step hstep hid
  simpa using TaskStepStatus.final_iff.mp hfinal

end Runs

/-- The columns of a plan that was created with one call of each kind. -/
def chargedOnce (status : ExecutionPlanStatus) (modelCalls revision : Nat) (updatedAt : Time) :
    PlanUsage :=
  { planId := 7, status, modelCallsUsed := modelCalls, toolCallsUsed := 1, revision
    createdAt := 0, updatedAt }

/-- Two units of work have read the plan as it was created; the second is late. -/
def spendingActs : List PlanAct :=
  [.create 0 7 id (some ⟨3, some 1, some 2⟩) ⟨3, twoBatches, 1, 1⟩,
    .prepare 1 3 (.consumeModelBudget 1), .prepare 2 3 (.reserveParallelToolBudget [2]),
    .commit ⟨[], [⟨.modelCall 1 1, 0, chargedOnce .active 2 1 1⟩]⟩,
    .commit ⟨[], [⟨.toolCall 2 2, 0,
      { chargedOnce .active 1 1 2 with toolCallsUsed := 2 }⟩]⟩,
    .prepare 3 3 (.finishExecutionPlan .failed),
    .commit ⟨[], [⟨.finish .failed 3, 1, chargedOnce .failed 2 2 3⟩]⟩]

def spendingRun : PlanWorld := spendingActs.foldl PlanWorld.after .initial

theorem budgets_of_late :
    spendingRun.log = [(7, .modelCall 1 1), (7, .finish .failed 3)] ∧
      ∀ plan ∈ spendingRun.store.planning.plans, ∃ row ∈ spendingRun.store.usage,
        row.planId = plan.id ∧
        (∃ created, planRows.replay (opsOf plan.id spendingRun.log)
          (PlanUsage.create created plan) = some row) ∧
        row.modelCallsUsed =
          plan.modelCallsUsed + (opsOf plan.id spendingRun.log).countP PlanOp.isModelCall ∧
        row.toolCallsUsed =
          plan.toolCallsUsed + (opsOf plan.id spendingRun.log).countP PlanOp.isToolCall ∧
        row.Within :=
  ⟨by decide +kernel, budgets_of_run (Run.foldl (by decide +kernel))⟩

theorem endings_of_failed :
    spendingRun.store.usage.rows = [chargedOnce .failed 2 2 3] ∧
      ∀ row ∈ spendingRun.store.usage, row.status ≠ .paused ∧
        (row.status.terminal → ∀ w', Run PlanWorld.Step (fun _ _ => True) spendingRun w' →
          row ∈ w'.store.usage) ∧
        (row.status = .completed → ∀ w', Run PlanWorld.Step (fun _ _ => True) spendingRun w' →
          ∀ step ∈ w'.store.planning.steps, step.planId = row.planId →
            step.status ∈ [TaskStepStatus.completed, .skipped]) :=
  ⟨by decide +kernel, endings_of_run (Run.foldl (by decide +kernel))⟩

end Fairy.Planning
