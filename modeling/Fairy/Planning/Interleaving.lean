import Fairy.Planning.Licences

namespace Fairy.Planning

open Fairy.Lib

section Creating

variable {s s' : PlanningStore} {plan : ExecutionPlan} {steps : List TaskStep} {now : Time}
variable {newId : Nat → Uuid}

theorem saveExecutionPlan_rows (h : s.saveExecutionPlan plan steps = .ok s') :
    s'.plans.rows = s.plans.rows ++ [plan] ∧ (∀ p ∈ s.plans, p.id ≠ plan.id) ∧
      s'.steps.rows = s.steps.rows ++ steps ∧
      (s'.steps.rows.map fun t => (t.planId, t.sequence)).Nodup := by
  simp only [PlanningStore.saveExecutionPlan] at h
  split at h
  · cases h
  · rename_i hunique
    split at h
    · rename_i plans steps' hplans hsteps
      obtain rfl := pure_ok h
      obtain ⟨hprows, _, _, hfresh⟩ := Table.insertAll_eq_some hplans
      have hrows := (Table.insertAll_eq_some hsteps).1
      refine ⟨hprows, hfresh plan (List.mem_singleton_self plan), hrows, ?_⟩
      rw [hrows]
      exact not_not.mp (not_or.mp hunique).2
    · cases h

theorem create_parts {id : Uuid} {task : Task} {manifest : Manifest} {models tools : Nat}
    (h : ExecutionPlan.create now newId id task manifest models tools = .ok (plan, steps)) :
    ∃ manifest', buildSteps now newId plan manifest' = .ok steps := by
  simp only [ExecutionPlan.create] at h
  split at h
  · obtain ⟨normalized, _, h⟩ := bind_ok h
    split at h
    · cases h
    · split at h
      · cases h
      · obtain ⟨built, hbuilt, h⟩ := bind_ok h
        obtain ⟨rfl, rfl⟩ := Prod.mk.inj (pure_ok h)
        exact ⟨normalized, hbuilt⟩
  · cases h

theorem saveExecutionPlan_evolves (hbuilt : ∀ a ∈ steps, a.planId = plan.id)
    (h : s.saveExecutionPlan plan steps = .ok s') : Evolves s s' := by
  obtain ⟨hplans, hfresh, hsteps, _⟩ := saveExecutionPlan_rows h
  refine ⟨fun p hp => (Table.mem_of_rows_append hplans).mpr (.inl hp),
    fun a ha => ⟨a, (Table.mem_of_rows_append hsteps).mpr (.inl ha), .refl a⟩, fun b hb => ?_⟩
  obtain hb | hb := (Table.mem_of_rows_append hsteps).mp hb
  · exact .inl ⟨b, hb, .refl b⟩
  · rw [hbuilt b hb]
    exact .inr hfresh

/-- A new plan starts in order, and stands apart from the others. -/
theorem Ordered.saveExecutionPlan {manifest : Manifest} (ho : Ordered s)
    (hbuilt : buildSteps now newId plan manifest = .ok steps)
    (h : s.saveExecutionPlan plan steps = .ok s') : Ordered s' := by
  obtain ⟨hplans, hfresh, hsteps, hunique⟩ := saveExecutionPlan_rows h
  have hcases : ∀ b ∈ s'.steps, b ∈ s.steps ∨ b ∈ steps := fun b hb =>
    (Table.mem_of_rows_append hsteps).mp hb
  have hknown : ∀ b ∈ s.steps, b.planId ≠ plan.id := by
    intro b hb hid
    obtain ⟨p, hp, hpid⟩ := ho.known b hb
    exact hfresh p hp (hpid.trans hid)
  have hnew : ∀ b ∈ steps, b.planId = plan.id := fun b hb => (buildSteps_spec hbuilt hb).1
  have hpending : ∀ b ∈ steps, b.kind = .implement ∨ b.kind = .test → ¬ b.status.begun := by
    intro b hb hk hbegun
    obtain hstatus | hkind | hkind := (buildSteps_spec hbuilt hb).2
    · rw [hstatus] at hbegun
      exact absurd hbegun (by decide)
    · simp [hkind] at hk
    · simp [hkind] at hk
  have hold : ∀ a b : TaskStep, a ∈ s'.steps → b ∈ s.steps → a.planId = b.planId →
      a ∈ s.steps := by
    intro a b ha hb hplan
    obtain ha | ha := hcases a ha
    · exact ha
    · exact absurd (hplan.symm.trans (hnew a ha)) (hknown b hb)
  refine ⟨fun a ha => ?_, fun a ha b hb hplan hsequence => ?_,
    fun a ha b hb hplan hak hbk => ?_, fun a ha b hb hplan hak hbk hlt hbb => ?_,
    fun a ha b hb hplan hbk hbb => ?_⟩
  · obtain ha | ha := hcases a ha
    · obtain ⟨p, hp, hid⟩ := ho.known a ha
      exact ⟨p, (Table.mem_of_rows_append hplans).mpr (.inl hp), hid⟩
    · exact ⟨plan, (Table.mem_of_rows_append hplans).mpr (.inr (List.mem_singleton_self plan)),
        (hnew a ha).symm⟩
  · exact List.inj_on_of_nodup_map hunique ha hb (Prod.ext hplan hsequence)
  · obtain hb' | hb' := hcases b hb
    · exact ho.install a (hold a b ha hb' hplan) b hb' hplan hak hbk
    · obtain ha' | ha' := hcases a ha
      · exact absurd (hplan.trans (hnew b hb')) (hknown a ha')
      · exact buildSteps_install hbuilt ha' hb' hak hbk
  · obtain hb' | hb' := hcases b hb
    · exact ho.batches a (hold a b ha hb' hplan) b hb' hplan hak hbk hlt hbb
    · exact absurd hbb (hpending b hb' (.inl hbk))
  · obtain hb' | hb' := hcases b hb
    · exact ho.tests a (hold a b ha hb' hplan) b hb' hplan hbk hbb
    · exact absurd hbb (hpending b hb' (.inr hbk))

end Creating

/-- Any number of units of work: each reads and decides in one step, and commits in another. -/
inductive PlanningAct
  | create (now : Time) (newPlanId : Uuid) (newId : Nat → Uuid) (task : Option Task)
    (request : PlanningStore.CreateInput)
  | prepare (now : Time) (taskId : Uuid) (call : PlanningCall)
  | commit (writes : List StepWrite)

structure World where
  store : PlanningStore
  pending : List (List StepWrite)

namespace World

def initial : World := ⟨.empty, []⟩

def after (w : World) : PlanningAct → World
  | .create now newPlanId newId task request =>
    match w.store.create now newPlanId newId task request with
    | .ok (store, _) => { w with store }
    | .error _ => w
  | .prepare now taskId call =>
    match w.store.prepare now taskId call with
    | .ok (_, writes) => { w with pending := w.pending ++ [writes] }
    | .error _ => w
  | .commit writes =>
    if writes ∈ w.pending then
      let pending := w.pending.erase writes
      match w.store.commit writes with
      | .ok store => { store, pending }
      | .error _ => { w with pending }
    else w

def Step (w : World) (act : PlanningAct) (w' : World) : Prop := w' = w.after act

/-- Every unit of work, whenever it commits, has a licence for what it writes. -/
structure Sound (w : World) : Prop where
  ordered : Ordered w.store
  licensed : ∀ writes ∈ w.pending, Licenses w.store [] writes

variable {w w' : World} {act : PlanningAct}

theorem sound_initial : initial.Sound where
  ordered :=
    ⟨fun a ha => absurd ha (Table.not_mem_empty a), fun a ha => absurd ha (Table.not_mem_empty a),
      fun a ha => absurd ha (Table.not_mem_empty a), fun a ha => absurd ha (Table.not_mem_empty a),
      fun a ha => absurd ha (Table.not_mem_empty a)⟩
  licensed _ h := absurd h List.not_mem_nil

theorem Sound.evolves {store : PlanningStore} {pending : List (List StepWrite)} (h : w.Sound)
    (ho : Ordered store) (hv : Evolves w.store store)
    (hpending : ∀ writes ∈ pending, writes ∈ w.pending) : Sound ⟨store, pending⟩ :=
  ⟨ho, fun writes hw => (h.licensed writes (hpending writes hw)).evolves hv h.ordered⟩

theorem Sound.create {now : Time} {newPlanId : Uuid} {newId : Nat → Uuid} {task : Option Task}
    {request : PlanningStore.CreateInput} {store : PlanningStore} {plan : ExecutionPlan}
    {steps : List TaskStep} (h : w.Sound)
    (hcreate : w.store.create now newPlanId newId task request = .ok (store, plan, steps)) :
    Ordered store ∧ Evolves w.store store := by
  simp only [PlanningStore.create] at hcreate
  split at hcreate
  · cases hcreate
  · split at hcreate
    · split at hcreate
      · cases hcreate
      · obtain ⟨rfl, -⟩ := Prod.mk.inj (pure_ok hcreate)
        exact ⟨h.ordered, .refl _⟩
    · obtain ⟨⟨built, builtSteps⟩, hbuilt, hcreate⟩ := bind_ok hcreate
      obtain ⟨saved, hsaved, hcreate⟩ := bind_ok hcreate
      obtain ⟨rfl, -⟩ := Prod.mk.inj (pure_ok hcreate)
      obtain ⟨manifest, hsteps⟩ := create_parts hbuilt
      exact ⟨h.ordered.saveExecutionPlan hsteps hsaved,
        saveExecutionPlan_evolves (fun a ha => (buildSteps_spec hsteps ha).1) hsaved⟩

theorem Sound.step (h : w.Sound) (hs : Step w act w') : w'.Sound ∧ Evolves w.store w'.store := by
  rw [hs]
  cases act with
  | create now newPlanId newId task request =>
    simp only [after]
    split
    · rename_i store made hcreate
      obtain ⟨ho, hv⟩ := h.create hcreate
      exact ⟨h.evolves ho hv fun _ hw => hw, hv⟩
    · exact ⟨h, .refl _⟩
  | prepare now taskId call =>
    simp only [after]
    split
    · rename_i result writes hprepare
      refine ⟨⟨h.ordered, fun l hl => ?_⟩, .refl _⟩
      obtain hl | hl := List.mem_append.mp hl
      · exact h.licensed l hl
      · rw [List.mem_singleton.mp hl]
        exact licenses_prepare h.ordered hprepare
    · exact ⟨h, .refl _⟩
  | commit writes =>
    simp only [after]
    split
    · rename_i hmem
      split
      · rename_i store hcommit
        obtain ⟨ho, hv⟩ := commit_spec h.ordered (h.licensed writes hmem)
          (fun x hx => absurd hx List.not_mem_nil) (fun x hx => absurd hx List.not_mem_nil) hcommit
        exact ⟨h.evolves ho hv fun _ => List.mem_of_mem_erase, hv⟩
      · exact ⟨h.evolves h.ordered (.refl _) fun _ => List.mem_of_mem_erase, .refl _⟩
    · exact ⟨h, .refl _⟩

theorem Sound.run {ok : World → PlanningAct → Prop} (h : w.Sound) (hr : Run Step ok w w') :
    w'.Sound := hr.invariant (fun _ _ _ ha _ hs => (ha.step hs).1) h

theorem Sound.evolves_run {ok : World → PlanningAct → Prop} (h : w.Sound)
    (hr : Run Step ok w w') : Evolves w.store w'.store :=
  hr.history (I := Sound) (R := fun w w' => Evolves w.store w'.store) (fun w => .refl w.store)
    (fun _ _ _ => .trans) (fun _ _ _ ha _ hs => (ha.step hs).1)
    (fun _ _ _ ha _ hs => (ha.step hs).2) h

end World

/-- The IMPLEMENT steps of a plan, batch by batch. -/
def PlanningStore.fileBatches (s : PlanningStore) (planId : Uuid) : List TaskStep :=
  implementationSteps (s.taskStepsForPlan planId)

/-- The order of the steps, for every plan. -/
structure InOrder (s : PlanningStore) : Prop where
  batches : ∀ plan ∈ s.plans, ∀ j k : Nat, j < k → ∀ a b, (s.fileBatches plan.id)[j]? = some a →
    (s.fileBatches plan.id)[k]? = some b → b.status ∈ [TaskStepStatus.running, .completed] →
    a.status = .completed
  tests : ∀ plan ∈ s.plans, ∀ b ∈ s.taskStepsForPlan plan.id, b.kind = .test →
    b.status ∈ [TaskStepStatus.running, .completed] → ∀ a ∈ s.taskStepsForPlan plan.id,
      (a.kind = .implement → a.status = .completed) ∧
        (a.kind = .install → a.status ∈ [TaskStepStatus.completed, .skipped])

theorem begun_of_mem {status : TaskStepStatus}
    (h : status ∈ [TaskStepStatus.running, .completed]) : status.begun := by
  simp only [List.mem_cons, List.not_mem_nil, or_false] at h
  obtain rfl | rfl := h <;> rfl

/-- Earlier batches have smaller sequence numbers. -/
theorem Ordered.sequence_lt {s : PlanningStore} (ho : Ordered s) {planId : Uuid} {j k : Nat}
    {a b : TaskStep} (hjk : j < k) (ha : (s.fileBatches planId)[j]? = some a)
    (hb : (s.fileBatches planId)[k]? = some b) : a.sequence < b.sequence := by
  have hsorted : (s.fileBatches planId).Pairwise InSequence :=
    (taskStepsForPlan_sorted planId).filter _
  have hnodup : (s.fileBatches planId).Nodup := by
    have hperm := List.perm_insertionSort InSequence (s.steps.select (·.planId = planId))
    exact ((hperm.nodup_iff.mpr ((List.Nodup.of_map _ s.steps.nodup).filter _))).filter _
  obtain ⟨hj, rfl⟩ := List.getElem?_eq_some_iff.mp ha
  obtain ⟨hk, rfl⟩ := List.getElem?_eq_some_iff.mp hb
  have hle := List.pairwise_iff_getElem.mp hsorted j k hj hk hjk
  refine Nat.lt_of_le_of_ne hle fun hsequence => ?_
  have hmem : ∀ i (hi : i < (s.fileBatches planId).length),
      (s.fileBatches planId)[i] ∈ s.steps ∧ (s.fileBatches planId)[i].planId = planId :=
    fun i hi => mem_taskStepsForPlan.mp (mem_implementationSteps.mp (List.getElem_mem hi)).1
  have heq := ho.sequences _ (hmem j hj).1 _ (hmem k hk).1
    ((hmem j hj).2.trans (hmem k hk).2.symm) hsequence
  exact absurd ((hnodup.getElem_inj_iff).mp heq) (Nat.ne_of_lt hjk)

/-- For every order of the units of work: the steps run in order, and a completed step stays as
it is. -/
theorem steps_run_in_order {w : World} (h : Run World.Step (fun _ _ => True) .initial w) :
    InOrder w.store ∧ ∀ w', Run World.Step (fun _ _ => True) w w' →
      ∀ a ∈ w.store.steps, a.status = .completed → a ∈ w'.store.steps := by
  have hs := World.sound_initial.run h
  refine ⟨⟨?_, ?_⟩, fun w' hr a ha hstatus => ?_⟩
  · intro plan _ j k hjk a b ha hb hstatus
    obtain ⟨hamem, hakind⟩ := mem_implementationSteps.mp (List.mem_of_getElem? ha)
    obtain ⟨hbmem, hbkind⟩ := mem_implementationSteps.mp (List.mem_of_getElem? hb)
    obtain ⟨hamem, haplan⟩ := mem_taskStepsForPlan.mp hamem
    obtain ⟨hbmem, hbplan⟩ := mem_taskStepsForPlan.mp hbmem
    exact hs.ordered.batches a hamem b hbmem (haplan.trans hbplan.symm) hakind hbkind
      (hs.ordered.sequence_lt hjk ha hb) (begun_of_mem hstatus)
  · intro plan _ b hb hkind hstatus a ha
    obtain ⟨hb, hbplan⟩ := mem_taskStepsForPlan.mp hb
    obtain ⟨ha, haplan⟩ := mem_taskStepsForPlan.mp ha
    obtain ⟨himplement, hinstall⟩ :=
      hs.ordered.tests a ha b hb (haplan.trans hbplan.symm) hkind (begun_of_mem hstatus)
    refine ⟨himplement, fun hk => ?_⟩
    simpa using TaskStepStatus.final_iff.mp (hinstall hk)
  · exact (hs.evolves_run hr).final ha (by rw [hstatus]; rfl)

def twoBatches : Manifest :=
  ⟨[⟨"a", "model", 1, none⟩, ⟨"b", "view", 2, none⟩], [], [], []⟩

def batchStep (batch : Nat) (status : TaskStepStatus) (errorCode : Option String)
    (startedAt : Time) (completedAt : Option Time) : TaskStep :=
  { id := batch + 2, planId := 7, taskId := 3, sequence := batch + 2, kind := .implement
    title := s!"Implement file batch {batch}", status, attempts := 1, errorCode
    startedAt := some startedAt, completedAt }

/-- A unit of work that fails the first batch is late: another one has completed it. -/
def batchActs : List PlanningAct :=
  [.create 0 7 id (some ⟨3, some 1, some 2⟩) ⟨3, twoBatches, 0, 0⟩,
    .prepare 1 3 (.startFileBatch ["a"]),
    .commit [⟨batchStep 1 .running none 1 none, .pending, 0⟩],
    .prepare 2 3 (.completeFileBatch ["a"]), .prepare 2 3 (.failFileBatch ["a"] "TIMEOUT"),
    .commit [⟨batchStep 1 .completed none 1 (some 2), .running, 1⟩],
    .commit [⟨batchStep 1 .failed (some "TIMEOUT") 1 (some 2), .running, 1⟩],
    .prepare 3 3 (.startFileBatch ["b"]),
    .commit [⟨batchStep 2 .running none 3 none, .pending, 0⟩]]

def batchRun : World := batchActs.foldl World.after .initial

theorem steps_run_in_order_batches :
    (batchRun.store.fileBatches 7).map (·.status) = [.completed, .running] ∧
      (InOrder batchRun.store ∧ ∀ w', Run World.Step (fun _ _ => True) batchRun w' →
        ∀ a ∈ batchRun.store.steps, a.status = .completed → a ∈ w'.store.steps) :=
  ⟨by decide +kernel, steps_run_in_order (Run.foldl (by decide +kernel))⟩

end Fairy.Planning
