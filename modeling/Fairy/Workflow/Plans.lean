import Fairy.Workflow.Moves

namespace Fairy.Workflow

open Fairy.Lib

/-- What `validate_plan` establishes of the nodes it returns. -/
structure Validated (runId : Uuid) (revision : Nat) (nodes : List WorkflowNode)
    (edges : List WorkflowEdge) : Prop where
  nonempty : nodes ≠ []
  placed : ∀ n ∈ nodes, n.runId = runId ∧ n.planRevision = revision
  status : ∀ n ∈ nodes, n.status = .ready ∨ n.status = .pending
  linked : ∀ e ∈ edges, e.runId = runId ∧ e.planRevision = revision ∧
    (∃ m ∈ nodes, m.id = e.fromNodeId) ∧ ∃ n ∈ nodes, n.id = e.toNodeId
  ready : ∀ n ∈ nodes, n.status = .ready → ∀ e ∈ edges, e.toNodeId ≠ n.id
  pending : ∀ n ∈ nodes, n.status = .pending → ∃ e ∈ edges, e.toNodeId = n.id
  ranked : ∃ rank : Uuid → Nat, ∀ e ∈ edges, rank e.fromNodeId < rank e.toNodeId

theorem mem_incoming {edges : List WorkflowEdge} {target source : Uuid} :
    source ∈ incoming edges target ↔ ∃ e ∈ edges, e.toNodeId = target ∧ e.fromNodeId = source := by
  simp [incoming, and_assoc]

theorem mem_outgoing {edges : List WorkflowEdge} {source target : Uuid} :
    target ∈ outgoing edges source ↔ ∃ e ∈ edges, e.fromNodeId = source ∧ e.toNodeId = target := by
  simp [outgoing, and_assoc]

theorem validateEdge_ok {runId : Uuid} {revision : Nat} {byId : List Uuid} {e : WorkflowEdge}
    (h : validateEdge runId revision byId e = .ok ()) :
    e.runId = runId ∧ e.planRevision = revision ∧ e.fromNodeId ∈ byId ∧ e.toNodeId ∈ byId := by
  unfold validateEdge at h
  dsimp only at h
  split at h
  · exact absurd h throw_bind_ne
  · split at h
    · cases h
    · rename_i h1 h2
      push Not at h1 h2
      exact ⟨h1.1, h1.2, h2.1, h2.2⟩

theorem validatePlan_ok {runId : Uuid} {revision : Nat} {nodes normalized : List WorkflowNode}
    {edges : List WorkflowEdge} (h : validatePlan runId revision nodes edges = .ok normalized) :
    ∃ byId, byId = (nodes.map WorkflowNode.id).dedup ∧ nodes ≠ [] ∧ byId.length = nodes.length ∧
      (∀ n ∈ nodes, n.runId = runId ∧ n.planRevision = revision) ∧
      (∀ e ∈ edges, e.runId = runId ∧ e.planRevision = revision ∧ e.fromNodeId ∈ byId ∧
        e.toNodeId ∈ byId) ∧
      (visitedIds edges byId).length = nodes.length ∧
      normalized = nodes.map (normalizeNode (readyIds edges byId)) := by
  unfold validatePlan at h
  dsimp only at h
  split at h
  · exact absurd h throw_bind_ne
  rename_i hne
  split at h
  · exact absurd h throw_bind_ne
  rename_i hlen
  split at h
  · exact absurd h throw_bind_ne
  rename_i hplaced
  obtain ⟨_, hedges, h⟩ := bind_ok h
  split at h
  · exact absurd h throw_bind_ne
  rename_i hvisited
  push Not at hlen hplaced hvisited
  exact ⟨_, rfl, by simpa using hne, hlen, hplaced,
    fun e he => validateEdge_ok (forM_ok hedges e he), hvisited, (pure_ok h).symm⟩

theorem mem_readyIds {edges : List WorkflowEdge} {byId : List Uuid} {id : Uuid} :
    id ∈ readyIds edges byId ↔ id ∈ byId ∧ ∀ e ∈ edges, e.toNodeId ≠ id := by
  simp only [readyIds, List.mem_filter, List.isEmpty_iff, List.eq_nil_iff_forall_not_mem,
    mem_incoming, not_exists, not_and]
  exact and_congr_right fun _ =>
    ⟨fun h e he ht => h _ e he ht rfl, fun h _ e he ht => absurd ht (h e he)⟩

/-- The walk that lists every id lists it after its sources. -/
theorem ranked_of_visited {edges : List WorkflowEdge} {byId : List Uuid}
    (he : ∀ e ∈ edges, e.fromNodeId ∈ byId ∧ e.toNodeId ∈ byId)
    (hv : (visitedIds edges byId).length = byId.length) :
    ∃ rank : Uuid → Nat, ∀ e ∈ edges, rank e.fromNodeId < rank e.toNodeId := by
  have ht : ∀ v, ∀ t ∈ outgoing edges v, t ∈ byId := by
    intro v t hm
    obtain ⟨e, hem, _, rfl⟩ := mem_outgoing.mp hm
    exact (he e hem).2
  have hr : ∀ x ∈ readyIds edges byId, x ∈ byId ∧ incoming edges x = [] := by
    intro x hx
    obtain ⟨hx, hi⟩ := List.mem_filter.mp hx
    exact ⟨hx, List.isEmpty_iff.mp hi⟩
  obtain ⟨hall, hord⟩ := Kahn.visit_complete ht hr hv
  refine ⟨fun id => (visitedIds edges byId).idxOf id, fun e hem => ?_⟩
  have hin : e.fromNodeId ∈ incoming edges e.toNodeId := mem_incoming.mpr ⟨e, hem, rfl, rfl⟩
  exact (hord _ (hall _ (he e hem).2) _ hin).2

theorem validatePlan_validated {runId : Uuid} {revision : Nat}
    {nodes normalized : List WorkflowNode} {edges : List WorkflowEdge}
    (h : validatePlan runId revision nodes edges = .ok normalized) :
    Validated runId revision normalized edges := by
  obtain ⟨byId, hby, hne, hlen, hplaced, hedges, hvis, rfl⟩ := validatePlan_ok h
  have hmem : ∀ id ∈ byId, ∃ n ∈ nodes.map (normalizeNode (readyIds edges byId)), n.id = id := by
    intro id hid
    rw [hby, List.mem_dedup] at hid
    obtain ⟨m, hm, rfl⟩ := List.mem_map.mp hid
    exact ⟨_, List.mem_map_of_mem hm, rfl⟩
  have hid : ∀ m ∈ nodes, m.id ∈ byId := fun m hm =>
    hby ▸ List.mem_dedup.mpr (List.mem_map_of_mem hm)
  refine ⟨by simpa using hne, ?_, ?_, ?_, ?_, ?_, ?_⟩
  · intro n hn
    obtain ⟨m, hm, rfl⟩ := List.mem_map.mp hn
    exact hplaced m hm
  · intro n hn
    obtain ⟨m, _, rfl⟩ := List.mem_map.mp hn
    by_cases hr : m.id ∈ readyIds edges byId <;> simp [normalizeNode, hr]
  · intro e he
    obtain ⟨hrun, hrev, hf, ht⟩ := hedges e he
    exact ⟨hrun, hrev, hmem _ hf, hmem _ ht⟩
  · intro n hn hst
    obtain ⟨m, hm, rfl⟩ := List.mem_map.mp hn
    by_cases hr : m.id ∈ readyIds edges byId
    · exact (mem_readyIds.mp hr).2
    · simp [normalizeNode, hr] at hst
  · intro n hn hst
    obtain ⟨m, hm, rfl⟩ := List.mem_map.mp hn
    by_cases hr : m.id ∈ readyIds edges byId
    · simp [normalizeNode, hr] at hst
    · by_contra hx
      exact hr (mem_readyIds.mpr ⟨hid m hm, fun e he ht => hx ⟨e, he, ht⟩⟩)
  · exact ranked_of_visited (fun e he => (hedges e he).2.2) (hvis.trans hlen.symm)

section

variable {s s' : Store}

theorem insertRevision_ok {revision : WorkflowPlanRevision}
    (h : s.insertRevision revision = .ok s') : ∃ revisions, s' = { s with revisions } := by
  unfold Store.insertRevision at h
  split at h
  · cases h
    exact ⟨_, rfl⟩
  · cases h

theorem insertPlan_ok {nodes : List WorkflowNode} {edges : List WorkflowEdge}
    (h : s.insertPlan nodes edges = .ok s') :
    ∃ rows links, s' = { s with nodes := rows, edges := links } ∧
      rows.rows = s.nodes.rows ++ nodes ∧ links.rows = s.edges.rows ++ edges ∧
      ∀ n ∈ nodes, ∀ m ∈ s.nodes, m.id ≠ n.id := by
  unfold Store.insertPlan at h
  split at h
  · cases h
  split at h
  · cases h
  rename_i hn
  split at h
  · cases h
  rename_i he
  cases h
  obtain ⟨hrows, _, _, hfresh⟩ := Table.insertAll_eq_some hn
  exact ⟨_, _, rfl, hrows, (Table.insertAll_eq_some he).1, hfresh⟩

theorem insertRun_ok {run : WorkflowRun} (h : s.insertRun run = .ok s') :
    ∃ runs, s' = { s with runs } ∧ runs.rows = s.runs.rows ++ [run] ∧
      ∀ r ∈ s.runs, r.id ≠ run.id := by
  unfold Store.insertRun at h
  split at h
  · cases h
  split at h
  · cases h
  split at h
  · cases h
    obtain ⟨hrows, _, _, hfresh⟩ := Table.insertAll_eq_some ‹_›
    exact ⟨_, rfl, hrows, hfresh run (List.mem_singleton_self run)⟩
  · cases h

variable {snap : WorkflowSnapshot} {nodes : List WorkflowNode} {edges : List WorkflowEdge}

theorem create_ok {run : WorkflowRun} (h : s.create run nodes edges = .ok (snap, s')) :
    s' = s ∨ ∃ normalized, validatePlan run.id 1 nodes edges = .ok normalized ∧
      (∀ r ∈ s.runs, r.idempotencyKey ≠ run.idempotencyKey) ∧
      run.activePlanRevision = 1 ∧ run.status = .queued ∧ s'.attempts = s.attempts ∧
      s'.runs.rows = s.runs.rows ++ [run] ∧ (∀ r ∈ s.runs, r.id ≠ run.id) ∧
      s'.nodes.rows = s.nodes.rows ++ normalized ∧ s'.edges.rows = s.edges.rows ++ edges ∧
      ∀ n ∈ normalized, ∀ m ∈ s.nodes, m.id ≠ n.id := by
  unfold Store.create at h
  split at h
  · obtain ⟨_, _, h⟩ := bind_ok h
    split at h
    · exact absurd h throw_bind_ne
    · cases pure_ok h
      exact .inl rfl
  · rename_i hkey
    split at h
    · exact absurd h throw_bind_ne
    rename_i hrun
    push Not at hrun
    obtain ⟨normalized, hv, h⟩ := bind_ok h
    obtain ⟨s₁, h₁, h⟩ := bind_ok h
    obtain ⟨s₂, h₂, h⟩ := bind_ok h
    obtain ⟨s₃, h₃, h⟩ := bind_ok h
    obtain ⟨_, rfl, hruns, hnew⟩ := insertRun_ok h₁
    obtain ⟨_, rfl⟩ := insertRevision_ok h₂
    obtain ⟨_, _, rfl, hnodes, hedges, hfresh⟩ := insertPlan_ok h₃
    cases snapshot_bind_ok h
    exact .inr ⟨normalized, hv, Table.oneOrNone_eq_none.mp hkey, hrun.1, hrun.2, rfl, hruns, hnew,
      hnodes, hedges, hfresh⟩

theorem applyInstruction_frame (s : Store) (instructionId : Option Uuid) (runId : Uuid)
    {revision : Nat} (hr : 0 < revision) (now : Time) :
    ∃ instructions, s.applyInstruction instructionId runId revision hr now =
      { s with instructions } := by
  cases instructionId with
  | none => exact ⟨s.instructions, rfl⟩
  | some id => exact ⟨_, rfl⟩

theorem appendPlan_ok {runId : Uuid} {revision : Nat} {reason : WorkflowPlanReason}
    {instructionId : Option Uuid} {t : Readings}
    (h : s.appendPlan runId revision reason instructionId nodes edges t = .ok (snap, s')) :
    ∃ normalized, validatePlan runId (revision + 1) nodes edges = .ok normalized ∧
      (∃ r ∈ s.runs, r.id = runId ∧ r.status.terminal = false ∧ r.activePlanRevision = revision) ∧
      s.hasRunningAttempt runId = false ∧ s'.attempts = s.attempts ∧
      s'.runs = (s.activatePlan runId revision t.first).runs ∧
      s'.nodes.rows = (s.supersedePlan runId revision t.first).nodes.rows ++ normalized ∧
      s'.edges.rows = s.edges.rows ++ edges ∧
      ∀ n ∈ normalized, ∀ m ∈ (s.supersedePlan runId revision t.first).nodes, m.id ≠ n.id := by
  unfold Store.appendPlan at h
  obtain ⟨run, hr, h⟩ := bind_ok h
  obtain ⟨r, hm, hid, rfl⟩ := readRun_ok hr
  dsimp only at h
  split at h
  · exact absurd h throw_bind_ne
  rename_i hterm
  split at h
  · exact absurd h throw_bind_ne
  rename_i hrev
  split at h
  · exact absurd h throw_bind_ne
  rename_i hidle
  obtain ⟨normalized, hv, h⟩ := bind_ok h
  obtain ⟨s₁, h₁, h⟩ := bind_ok h
  obtain ⟨s₂, h₂, h⟩ := bind_ok h
  obtain ⟨_, rfl⟩ := insertRevision_ok h₁
  obtain ⟨_, _, rfl, hnodes, hedges, hfresh⟩ := insertPlan_ok h₂
  have hs := snapshot_bind_ok h
  obtain ⟨_, hi⟩ := applyInstruction_frame _ instructionId runId (Nat.succ_pos revision) t.first
  rw [hi] at hs
  subst hs
  refine ⟨normalized, hv, ⟨r, hm, hid, Bool.eq_false_iff.mpr hterm, not_not.mp hrev⟩,
    Bool.eq_false_iff.mpr hidle, rfl, rfl, hnodes, hedges, hfresh⟩

/-- What the budget operations may change of a run. -/
structure Rebudgeted (r r' : WorkflowRun) : Prop where
  kept : RunKept r r'
  status : r'.status = r.status
  pauseRequested : r'.pauseRequested = r.pauseRequested
  completedAt : r'.completedAt = r.completedAt
  cancellationRevision : r'.cancellationRevision = r.cancellationRevision

theorem Rebudgeted.refl (r : WorkflowRun) : Rebudgeted r r :=
  ⟨⟨rfl, rfl, le_rfl⟩, rfl, rfl, rfl, rfl⟩

theorem reserveBudget_ok {runId : Uuid} {modelRounds toolInvocations : Int} {t : Readings}
    (h : s.reserveBudget runId modelRounds toolInvocations t = .ok (snap, s')) :
    ∃ runs R, s' = { s with runs } ∧ runs.rows = s.runs.rows.map R ∧
      ∀ r ∈ s.runs, Rebudgeted r (R r) := by
  unfold Store.reserveBudget at h
  dsimp only at h
  split at h
  · exact absurd h throw_bind_ne
  obtain ⟨run, _, h⟩ := bind_ok h
  split at h
  · exact absurd h throw_bind_ne
  split at h
  · exact absurd h throw_bind_ne
  split at h
  · cases h
  · cases snapshot_bind_ok h
    refine ⟨_, _, rfl, (Table.tryUpdate_eq_some ‹_›).1, fun r _ => ?_⟩
    split
    · exact ⟨⟨rfl, rfl, le_rfl⟩, rfl, rfl, rfl, rfl⟩
    · exact .refl r

theorem upgradeBudget_ok {runId : Uuid} {budget : WorkflowBudget} {t : Readings}
    (h : s.upgradeBudget runId budget t = .ok (snap, s')) :
    ∃ runs R, s' = { s with runs } ∧ runs.rows = s.runs.rows.map R ∧
      ∀ r ∈ s.runs, Rebudgeted r (R r) := by
  unfold Store.upgradeBudget at h
  obtain ⟨run, hr, h⟩ := bind_ok h
  obtain ⟨r₀, hm, hid, rfl⟩ := readRun_ok hr
  dsimp only at h
  split at h
  · cases loadSnapshot_bind_ok h
    exact ⟨_, id, rfl, (List.map_id _).symm, fun r _ => .refl r⟩
  split at h
  · exact absurd h throw_bind_ne
  rename_i hgrow
  split at h
  · exact absurd h throw_bind_ne
  split at h
  · cases h
  · cases snapshot_bind_ok h
    refine ⟨_, _, rfl, (Table.tryUpdate_eq_some ‹_›).1, fun r hr => ?_⟩
    split
    · obtain rfl := Table.eq_of_key hm hr (hid.trans ‹r.id = runId›.symm)
      push Not at hgrow
      exact ⟨⟨rfl, rfl, hgrow.2.2.2.2.2⟩, rfl, rfl, rfl, rfl⟩
    · exact .refl r

theorem addInstruction_ok {runId newId : Uuid} {text key : String} {revision : Nat} {now : Time}
    {model : WorkflowInstruction}
    (h : s.addInstruction runId text revision key newId now = .ok (model, s')) :
    ∃ instructions, s' = { s with instructions } := by
  unfold Store.addInstruction at h
  dsimp only at h
  split at h
  · exact absurd h throw_bind_ne
  split at h
  · exact absurd h throw_bind_ne
  split at h
  · obtain ⟨_, _, h⟩ := bind_ok h
    split at h
    · exact absurd h throw_bind_ne
    · cases pure_ok h
      exact ⟨_, rfl⟩
  · obtain ⟨_, _, h⟩ := bind_ok h
    split at h
    · exact absurd h throw_bind_ne
    split at h
    · exact absurd h throw_bind_ne
    obtain ⟨_, _, h⟩ := bind_ok h
    split at h
    · cases pure_ok h
      exact ⟨_, rfl⟩
    · cases h

end

end Fairy.Workflow
