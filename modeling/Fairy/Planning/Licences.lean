import Fairy.Planning.Ordering

namespace Fairy.Planning

open Fairy.Lib

section Reading

variable {s : PlanningStore} {plan : ExecutionPlan} {now : Time} {target : TaskStepStatus}
variable {a b step : TaskStep} {w : StepWrite} {writes : List StepWrite} {result : Option TaskStep}

theorem mem_taskStepsForPlan {planId : Uuid} :
    a ∈ s.taskStepsForPlan planId ↔ a ∈ s.steps ∧ a.planId = planId := by
  simp [PlanningStore.taskStepsForPlan, Table.mem_select]

theorem taskStepsForPlan_sorted (planId : Uuid) :
    (s.taskStepsForPlan planId).Pairwise InSequence :=
  List.pairwise_insertionSort InSequence _

theorem mem_implementationSteps {steps : List TaskStep} :
    a ∈ implementationSteps steps ↔ a ∈ steps ∧ a.kind = .implement := by
  simp [implementationSteps]

/-- In a sorted list, what comes before a step stands before it. -/
theorem mem_take_of_lt {l : List TaskStep} (h : l.Pairwise InSequence)
    {i : Nat} (hb : l[i]? = some b) (ha : a ∈ l) (hlt : a.sequence < b.sequence) :
    a ∈ l.take i := by
  obtain ⟨hi, rfl⟩ := List.getElem?_eq_some_iff.mp hb
  obtain ⟨j, hj, rfl⟩ := List.mem_iff_getElem.mp ha
  have hji : j < i := by
    by_contra hle
    obtain rfl | hij := Nat.eq_or_lt_of_le (Nat.not_lt.mp hle)
    · omega
    · exact absurd hlt (Nat.not_lt.mpr (List.pairwise_iff_getElem.mp h i j hi hj hij))
  exact List.mem_take_iff_getElem.mpr ⟨j, by omega, rfl⟩

theorem move_spec {errorCode : Option String} (h : step.move now target errorCode = .ok w) :
    w.expectedStatus = step.status ∧ w.step.status = target ∧ step.Same w.step ∧
      target ∈ step.status.transitions := by
  simp only [TaskStep.move] at h
  obtain ⟨moved, hmoved, h⟩ := bind_ok h
  obtain rfl := pure_ok h
  obtain ⟨hmem, hstatus, hsame⟩ := TaskStep.transitionTo_spec hmoved
  exact ⟨rfl, hstatus, hsame, hmem⟩

/-- A step that is not started needs no licence but its transition. -/
theorem licensed_move {errorCode : Option String} {earlier : List StepWrite}
    (hstep : step ∈ s.steps) (h : step.move now target errorCode = .ok w)
    (htarget : target ≠ .running) : Licensed s earlier w := by
  obtain ⟨hexpected, hstatus, hsame, hmem⟩ := move_spec h
  refine ⟨?_, ⟨step, hstep, hsame⟩, fun _ hrunning => ?_, fun _ hrunning => ?_⟩
  · rwa [hexpected, hstatus]
  · exact absurd (hstatus.symm.trans hrunning) htarget
  · exact absurd (hstatus.symm.trans hrunning) htarget

theorem licenses_finish {errorCode : Option String} {notRunning : String} {result : TaskStep}
    (hstep : step ∈ s.steps) (h : step.finish now notRunning errorCode = .ok (result, writes)) :
    Licenses s [] writes := by
  simp only [TaskStep.finish] at h
  split at h
  · obtain ⟨-, rfl⟩ := Prod.mk.inj (pure_ok h)
    exact trivial
  · split at h
    · cases h
    · obtain ⟨w, hw, h⟩ := bind_ok h
      obtain ⟨-, rfl⟩ := Prod.mk.inj (pure_ok h)
      refine ⟨licensed_move hstep hw ?_, trivial⟩
      split <;> exact nofun

/-- What the unit of work must have seen before it starts a step. -/
theorem licenses_start {earlier : List StepWrite} {result : TaskStep} (hstep : step ∈ s.steps)
    (h : step.start now = .ok (result, writes))
    (hbatches : step.kind = .implement → ∀ a ∈ s.steps, a.planId = step.planId →
      a.kind = .implement → a.sequence < step.sequence → a.status = .completed)
    (htests : step.kind = .test → ∀ a ∈ s.steps, a.planId = step.planId →
      (a.kind = .implement → a.status = .completed) ∧ (a.kind = .install → a.status.final ∨
        ∃ x ∈ earlier, x.step.id = a.id ∧ x.step.status = .skipped)) :
    Licenses s earlier writes := by
  simp only [TaskStep.start] at h
  split at h
  · obtain ⟨-, rfl⟩ := Prod.mk.inj (pure_ok h)
    exact trivial
  · obtain ⟨w, hw, h⟩ := bind_ok h
    obtain ⟨-, rfl⟩ := Prod.mk.inj (pure_ok h)
    obtain ⟨hexpected, hstatus, hsame, hmem⟩ := move_spec hw
    refine ⟨⟨?_, ⟨step, hstep, hsame⟩, fun hkind _ => ?_, fun hkind _ => ?_⟩, trivial⟩
    · rwa [hexpected, hstatus]
    · rw [hsame.planId, hsame.sequence]
      exact hbatches (hsame.kind.symm.trans hkind)
    · rw [hsame.planId]
      exact htests (hsame.kind.symm.trans hkind)

theorem firstOfKind_spec {steps : List TaskStep} {kind : TaskStepKind}
    (h : firstOfKind steps kind = .ok step) : step ∈ steps ∧ step.kind = kind := by
  simp only [firstOfKind] at h
  split at h
  · rename_i found hfound
    obtain rfl := pure_ok h
    exact ⟨List.mem_of_find?_eq_some hfound, by simpa using List.find?_some hfound⟩
  · cases h

theorem implementationStep_spec {steps : List TaskStep} {batch : Nat}
    (h : implementationStep steps batch = .ok step) :
    (implementationSteps steps)[batch - 1]? = some step := by
  simp only [implementationStep] at h
  split at h
  · rename_i found hfound
    obtain rfl := pure_ok h
    exact hfound
  · cases h

theorem mem_of_implementationStep {batch : Nat}
    (h : implementationStep (s.taskStepsForPlan plan.id) batch = .ok step) :
    step ∈ s.steps ∧ step.planId = plan.id := by
  have hmem := List.mem_of_getElem? (implementationStep_spec h)
  exact mem_taskStepsForPlan.mp (mem_implementationSteps.mp hmem).1

theorem licenses_startFileBatch {paths : List String} {result : TaskStep}
    (h : startFileBatch now plan (s.taskStepsForPlan plan.id) paths = .ok (result, writes)) :
    Licenses s [] writes := by
  obtain ⟨batch, _, h⟩ := bind_ok h
  obtain ⟨step, hstep, h⟩ := bind_ok h
  obtain ⟨_, hinorder, h⟩ := bind_ok h
  obtain ⟨hmem, hplan⟩ := mem_of_implementationStep hstep
  have hat := implementationStep_spec hstep
  have hkind := (mem_implementationSteps.mp (List.mem_of_getElem? hat)).2
  refine licenses_start hmem h (fun _ a ha haplan hakind hlt => ?_)
    fun htest => absurd (hkind.symm.trans htest) nofun
  have hsorted : (implementationSteps (s.taskStepsForPlan plan.id)).Pairwise InSequence :=
    (taskStepsForPlan_sorted plan.id).filter _
  have hsteps : a ∈ implementationSteps (s.taskStepsForPlan plan.id) :=
    mem_implementationSteps.mpr ⟨mem_taskStepsForPlan.mpr ⟨ha, haplan.trans hplan⟩, hakind⟩
  have htake := mem_take_of_lt hsorted hat hsteps hlt
  simp only [requireInOrder] at hinorder
  split at hinorder
  · cases hinorder
  · rename_i hnone
    by_contra hne
    exact hnone ⟨a, htake, hne⟩

theorem skipInstall_spec (ho : Ordered s)
    (h : skipInstall now plan (s.taskStepsForPlan plan.id) = .ok writes) :
    Licenses s [] writes ∧ ∀ a ∈ s.steps, a.planId = plan.id → a.kind = .install →
      a.status.final ∨ ∃ x ∈ writes, x.step.id = a.id ∧ x.step.status = .skipped := by
  simp only [skipInstall] at h
  obtain ⟨install, hfirst, h⟩ := bind_ok h
  obtain ⟨hmem, hkind⟩ := firstOfKind_spec hfirst
  obtain ⟨hmem, hplan⟩ := mem_taskStepsForPlan.mp hmem
  have honly : ∀ a ∈ s.steps, a.planId = plan.id → a.kind = .install → a = install :=
    fun a ha haplan hakind => ho.install a ha install hmem (haplan.trans hplan.symm) hakind hkind
  split at h
  · obtain ⟨w, hw, h⟩ := bind_ok h
    obtain rfl := pure_ok h
    refine ⟨⟨licensed_move hmem hw nofun, trivial⟩, fun a ha haplan hakind => .inr ?_⟩
    rw [honly a ha haplan hakind]
    obtain ⟨_, hstatus, hsame, _⟩ := move_spec hw
    exact ⟨w, List.mem_singleton_self w, hsame.id, hstatus⟩
  · split at h
    · cases h
    · rename_i hfinal
      obtain rfl := pure_ok h
      refine ⟨trivial, fun a ha haplan hakind => .inl ?_⟩
      rw [honly a ha haplan hakind]
      refine TaskStepStatus.final_iff.mpr ?_
      simpa [or_iff_not_imp_left] using hfinal

theorem requireBatchesFinished_spec {steps : List TaskStep}
    (h : requireBatchesFinished steps = .ok ()) :
    ∀ a ∈ steps, a.kind = .implement → a.status = .completed := by
  simp only [requireBatchesFinished] at h
  split at h
  · cases h
  · rename_i hnone
    intro a ha hkind
    by_contra hne
    exact hnone ⟨a, ha, hkind, hne⟩

theorem requireSteps_spec {kind : TaskStepKind} (ho : Ordered s)
    (h : requireSteps now plan (s.taskStepsForPlan plan.id) kind = .ok writes) :
    Licenses s [] writes ∧ (kind = .test → ∀ a ∈ s.steps, a.planId = plan.id →
      (a.kind = .implement → a.status = .completed) ∧ (a.kind = .install → a.status.final ∨
        ∃ x ∈ writes, x.step.id = a.id ∧ x.step.status = .skipped)) := by
  cases kind with
  | install =>
    obtain ⟨_, _, h⟩ := bind_ok h
    obtain rfl := pure_ok h
    exact ⟨trivial, nofun⟩
  | test =>
    obtain ⟨skips, hskips, h⟩ := bind_ok h
    obtain ⟨_, hfinished, h⟩ := bind_ok h
    obtain rfl := pure_ok h
    obtain ⟨hlicensed, hinstall⟩ := skipInstall_spec ho hskips
    refine ⟨hlicensed, fun _ a ha haplan => ⟨?_, hinstall a ha haplan⟩⟩
    exact requireBatchesFinished_spec hfinished a (mem_taskStepsForPlan.mpr ⟨ha, haplan⟩)
  | analyze | filePlan | implement | preview | repair | summary | checkpoint =>
    obtain rfl := pure_ok h
    exact ⟨trivial, nofun⟩

theorem Licenses.append {earlier l l' : List StepWrite} (h : Licenses s earlier l)
    (h' : Licenses s (earlier ++ l) l') : Licenses s earlier (l ++ l') := by
  induction l generalizing earlier with
  | nil => simpa using h'
  | cons w l ih => exact ⟨h.1, ih h.2 (by simpa using h')⟩

theorem licenses_startStep {kind : TaskStepKind} {result : TaskStep} (ho : Ordered s)
    (h : startStep now plan (s.taskStepsForPlan plan.id) kind = .ok (result, writes)) :
    Licenses s [] writes := by
  simp only [startStep] at h
  split at h
  · rename_i step hmatches
    have hmatch : ∀ a, a ∈ s.steps → a.planId = plan.id → a.kind = kind → a = step := by
      intro a ha haplan hakind
      have hmem : a ∈ (s.taskStepsForPlan plan.id).filter (·.kind = kind) :=
        List.mem_filter.mpr ⟨mem_taskStepsForPlan.mpr ⟨ha, haplan⟩, by simpa using hakind⟩
      rw [hmatches] at hmem
      exact List.mem_singleton.mp hmem
    obtain ⟨hstep, hplan, hkind⟩ : step ∈ s.steps ∧ step.planId = plan.id ∧ step.kind = kind := by
      have hmem : step ∈ (s.taskStepsForPlan plan.id).filter (·.kind = kind) := by
        rw [hmatches]
        exact List.mem_singleton_self step
      obtain ⟨hmem, hk⟩ := List.mem_filter.mp hmem
      obtain ⟨hmem, hp⟩ := mem_taskStepsForPlan.mp hmem
      exact ⟨hmem, hp, by simpa using hk⟩
    obtain ⟨skips, hskips, h⟩ := bind_ok h
    obtain ⟨hlicensed, htests⟩ := requireSteps_spec ho hskips
    split at h
    · obtain ⟨-, rfl⟩ := Prod.mk.inj (pure_ok h)
      exact trivial
    · obtain ⟨⟨started, starts⟩, hstart, h⟩ := bind_ok h
      obtain ⟨-, rfl⟩ := Prod.mk.inj (pure_ok h)
      refine hlicensed.append (licenses_start hstep hstart
        (fun himplement a ha haplan hakind hlt => ?_) fun htest a ha haplan => ?_)
      · have hsame := hmatch a ha (haplan.trans hplan) (hakind.trans (himplement.symm.trans hkind))
        rw [hsame] at hlt
        exact absurd hlt (Nat.lt_irrefl _)
      · exact htests (hkind.symm.trans htest) a ha (haplan.trans hplan)
  · cases h

theorem licenses_skipStep {kind : TaskStepKind} {result : TaskStep}
    (h : skipStep now (s.taskStepsForPlan plan.id) kind = .ok (result, writes)) :
    Licenses s [] writes := by
  simp only [skipStep] at h
  obtain ⟨step, hfirst, h⟩ := bind_ok h
  have hstep := (mem_taskStepsForPlan.mp (firstOfKind_spec hfirst).1).1
  split at h
  · obtain ⟨-, rfl⟩ := Prod.mk.inj (pure_ok h)
    exact trivial
  · split at h
    · cases h
    · obtain ⟨w, hw, h⟩ := bind_ok h
      obtain ⟨-, rfl⟩ := Prod.mk.inj (pure_ok h)
      exact ⟨licensed_move hstep hw nofun, trivial⟩

theorem licenses_finishFileBatch {paths : List String} {errorCode : Option String}
    {result : TaskStep}
    (h : finishFileBatch now plan (s.taskStepsForPlan plan.id) paths errorCode =
      .ok (result, writes)) : Licenses s [] writes := by
  obtain ⟨batch, _, h⟩ := bind_ok h
  obtain ⟨step, hstep, h⟩ := bind_ok h
  exact licenses_finish (mem_of_implementationStep hstep).1 h

theorem licenses_finishStep {kind : TaskStepKind} {errorCode : Option String} {result : TaskStep}
    (h : finishStep now (s.taskStepsForPlan plan.id) kind errorCode = .ok (result, writes)) :
    Licenses s [] writes := by
  obtain ⟨step, hfirst, h⟩ := bind_ok h
  exact licenses_finish (mem_taskStepsForPlan.mp (firstOfKind_spec hfirst).1).1 h

/-- What a unit of work has read licenses what it is going to write. -/
theorem licenses_prepare {taskId : Uuid} {call : PlanningCall} (ho : Ordered s)
    (h : s.prepare now taskId call = .ok (result, writes)) : Licenses s [] writes := by
  simp only [PlanningStore.prepare] at h
  split at h
  · cases call with
    | startFileBatch | completeFileBatch | failFileBatch => cases h
    | startStep | completeStep | failStep | skipStep =>
      obtain ⟨-, rfl⟩ := Prod.mk.inj (pure_ok h)
      exact trivial
  · obtain ⟨⟨step, prepared⟩, hcall, h⟩ := bind_ok h
    obtain ⟨-, rfl⟩ := Prod.mk.inj (pure_ok h)
    cases call with
    | startFileBatch => exact licenses_startFileBatch hcall
    | completeFileBatch => exact licenses_finishFileBatch hcall
    | failFileBatch => exact licenses_finishFileBatch hcall
    | startStep => exact licenses_startStep ho hcall
    | completeStep => exact licenses_finishStep hcall
    | failStep => exact licenses_finishStep hcall
    | skipStep => exact licenses_skipStep hcall

end Reading

end Fairy.Planning
