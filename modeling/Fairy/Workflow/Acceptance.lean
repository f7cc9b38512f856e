import Fairy.Workflow.Plans

namespace Fairy.Workflow

open Fairy.Lib

/-- A plan as it should be: distinct nodes of one run and revision, and edges of the same between
them without a cycle. -/
structure WellFormedPlan (runId : Uuid) (revision : Nat) (nodes : List WorkflowNode)
    (edges : List WorkflowEdge) : Prop where
  nonempty : nodes ≠ []
  distinct : (nodes.map WorkflowNode.id).Nodup
  placed : ∀ n ∈ nodes, n.runId = runId ∧ n.planRevision = revision
  linked : ∀ e ∈ edges, e.runId = runId ∧ e.planRevision = revision ∧
    (∃ m ∈ nodes, m.id = e.fromNodeId) ∧ ∃ n ∈ nodes, n.id = e.toNodeId
  acyclic : Acyclic fun a b => ∃ e ∈ edges, e.fromNodeId = a ∧ e.toNodeId = b

/-- A node as the plan takes it over: it is ready when no edge leads to it. -/
def planned (edges : List WorkflowEdge) (n : WorkflowNode) : WorkflowNode :=
  { n with status := if ∃ e ∈ edges, e.toNodeId = n.id then .pending else .ready }

variable {runId : Uuid} {revision : Nat} {nodes normalized : List WorkflowNode}
  {edges : List WorkflowEdge} {byId : List Uuid}

theorem normalizeNode_readyIds {n : WorkflowNode} (h : n.id ∈ byId) :
    normalizeNode (readyIds edges byId) n = planned edges n := by
  by_cases hready : n.id ∈ readyIds edges byId
  · have hnone : ¬ ∃ e ∈ edges, e.toNodeId = n.id := fun ⟨e, he, hto⟩ =>
      (mem_readyIds.mp hready).2 e he hto
    rw [normalizeNode, if_pos hready, planned, if_neg hnone]
  · have hsome : ∃ e ∈ edges, e.toNodeId = n.id := by
      by_contra hnone
      exact hready (mem_readyIds.mpr ⟨h, fun e he hto => hnone ⟨e, he, hto⟩⟩)
    rw [normalizeNode, if_neg hready, planned, if_pos hsome]

theorem length_filter_from_cons {v : Uuid} (hv : v ∉ byId) :
    (edges.filter fun e => e.fromNodeId ∈ v :: byId).length =
      (edges.filter fun e => e.fromNodeId = v).length +
        (edges.filter fun e => e.fromNodeId ∈ byId).length := by
  induction edges with
  | nil => rfl
  | cons e edges ih =>
    simp only [List.filter_cons, List.mem_cons] at ih ⊢
    by_cases he : e.fromNodeId = v
    · have hnot : e.fromNodeId ∉ byId := he ▸ hv
      simp only [he, hv, true_or, decide_true, decide_false, if_true, List.length_cons,
        Bool.false_eq_true, if_false, ih]
      omega
    · by_cases hmem : e.fromNodeId ∈ byId
      · simp only [he, hmem, or_true, decide_true, decide_false, if_true, List.length_cons,
          Bool.false_eq_true, if_false, ih]
        omega
      · simp only [he, hmem, or_false, decide_false, Bool.false_eq_true, if_false, ih]

/-- Each edge leaves one node. -/
theorem pending_le (h : byId.Nodup) : Kahn.pending (outgoing edges) byId [] ≤
    (edges.filter fun e => e.fromNodeId ∈ byId).length := by
  induction byId with
  | nil => exact Nat.zero_le _
  | cons v byId ih =>
    obtain ⟨hv, hrest⟩ := List.nodup_cons.mp h
    have hout : (outgoing edges v).length ≤
        (edges.filter fun e => e.fromNodeId = v).length := by
      refine (List.dedup_sublist _).length_le.trans ?_
      rw [List.length_map]
    have hsplit := @length_filter_from_cons edges byId v hv
    have hle := ih hrest
    rw [Kahn.pending, if_neg List.not_mem_nil, hsplit]
    omega

theorem visitedIds_of_acyclic (hnodup : byId.Nodup)
    (he : ∀ e ∈ edges, e.fromNodeId ∈ byId ∧ e.toNodeId ∈ byId)
    (hacyclic : Acyclic fun a b => ∃ e ∈ edges, e.fromNodeId = a ∧ e.toNodeId = b) :
    (visitedIds edges byId).length = byId.length := by
  have hwithin : ∀ x ∈ readyIds edges byId, x ∈ byId := fun x hx => (mem_readyIds.mp hx).1
  have htarget : ∀ v, ∀ t ∈ outgoing edges v, t ∈ byId := by
    intro v t ht
    obtain ⟨e, hmem, _, rfl⟩ := mem_outgoing.mp ht
    exact (he e hmem).2
  have hall : ∀ x ∈ byId, x ∈ visitedIds edges byId := by
    refine Kahn.visit_acyclic (fun x _ y hy => ?_) htarget hwithin (fun x hx hnil => ?_) ?_ ?_
    · obtain ⟨e, hmem, rfl, rfl⟩ := mem_incoming.mp hy
      exact ⟨(he e hmem).1, mem_outgoing.mpr ⟨e, hmem, rfl, rfl⟩⟩
    · exact List.mem_filter.mpr ⟨hx, List.isEmpty_iff.mpr hnil⟩
    · have hready := List.length_filter_le (fun id => (incoming edges id).isEmpty) byId
      have hpending : Kahn.pending (outgoing edges) byId [] ≤ edges.length :=
        (pending_le hnodup).trans (List.length_filter_le _ _)
      exact Nat.add_le_add hready hpending
    · intro v hv
      refine hacyclic v (Relation.TransGen.mono (fun a b hab => ?_) v v hv)
      obtain ⟨e, hmem, hto, hfrom⟩ := mem_incoming.mp hab.2
      exact ⟨e, hmem, hfrom, hto⟩
  have hready : ∀ x ∈ readyIds edges byId, x ∈ byId ∧ incoming edges x = [] := by
    intro x hx
    obtain ⟨hx, hnil⟩ := List.mem_filter.mp hx
    exact ⟨hx, List.isEmpty_iff.mp hnil⟩
  have hwalk : Kahn.Walk (incoming edges) byId [] (readyIds edges byId) :=
    ⟨List.nodup_nil, fun _ hx => absurd hx List.not_mem_nil,
      fun _ hx => absurd hx List.not_mem_nil, fun x hx => ⟨(hready x hx).1, by simp [hready x hx]⟩⟩
  obtain ⟨_, hwalk⟩ := hwalk.visit htarget (byId.length + edges.length)
  exact le_antisymm (List.subperm_of_subset hwalk.nodup hwalk.within).length_le
    (List.subperm_of_subset hnodup hall).length_le

theorem validateEdge_ok_iff {e : WorkflowEdge} :
    validateEdge runId revision byId e = .ok () ↔ e.runId = runId ∧ e.planRevision = revision ∧
      e.fromNodeId ∈ byId ∧ e.toNodeId ∈ byId := by
  refine ⟨validateEdge_ok, fun ⟨hrun, hrevision, hsource, htarget⟩ => ?_⟩
  simp [validateEdge, hrun, hrevision, hsource, htarget]
  rfl

/-- `validate_plan` accepts the well-formed plans, and no others. -/
theorem validatePlan_ok_iff :
    validatePlan runId revision nodes edges = .ok normalized ↔
      WellFormedPlan runId revision nodes edges ∧ normalized = nodes.map (planned edges) := by
  have hmem : ∀ id, id ∈ (nodes.map WorkflowNode.id).dedup ↔ ∃ n ∈ nodes, n.id = id := by
    intro id
    rw [List.mem_dedup, List.mem_map]
  have hmap : nodes.map (normalizeNode (readyIds edges (nodes.map WorkflowNode.id).dedup)) =
      nodes.map (planned edges) := List.map_congr_left fun n hn =>
    normalizeNode_readyIds ((hmem n.id).mpr ⟨n, hn, rfl⟩)
  constructor
  · intro h
    obtain ⟨byId, rfl, hne, hlength, hplaced, hedges, hvisited, rfl⟩ := validatePlan_ok h
    obtain ⟨rank, hrank⟩ := ranked_of_visited (fun e he => (hedges e he).2.2)
      (hvisited.trans hlength.symm)
    refine ⟨⟨hne, ?_, hplaced, fun e he => ?_, .of_rank rank fun a b hab => ?_⟩, hmap⟩
    · rw [← List.dedup_eq_self]
      refine (List.dedup_sublist _).eq_of_length ?_
      rw [hlength, List.length_map]
    · obtain ⟨hrun, hrevision, hsource, htarget⟩ := hedges e he
      exact ⟨hrun, hrevision, (hmem _).mp hsource, (hmem _).mp htarget⟩
    · obtain ⟨e, he, rfl, rfl⟩ := hab
      exact hrank e he
  · rintro ⟨⟨hne, hdistinct, hplaced, hlinked, hacyclic⟩, rfl⟩
    have hedges : ∀ e ∈ edges, e.fromNodeId ∈ (nodes.map WorkflowNode.id).dedup ∧
        e.toNodeId ∈ (nodes.map WorkflowNode.id).dedup := fun e he =>
      ⟨(hmem _).mpr (hlinked e he).2.2.1, (hmem _).mpr (hlinked e he).2.2.2⟩
    have hlength : (nodes.map WorkflowNode.id).dedup.length = nodes.length := by
      rw [hdistinct.dedup, List.length_map]
    have hvisited := visitedIds_of_acyclic (List.nodup_dedup _) hedges hacyclic
    have hforM : edges.forM (validateEdge runId revision (nodes.map WorkflowNode.id).dedup) =
        .ok () := by
      refine forM_ok_iff.mpr fun e he => validateEdge_ok_iff.mpr ?_
      exact ⟨(hlinked e he).1, (hlinked e he).2.1, hedges e he⟩
    have hplaced' : ¬ ∃ n ∈ nodes, n.runId ≠ runId ∨ n.planRevision ≠ revision := by
      rintro ⟨n, hn, hbad⟩
      exact hbad.elim (fun hb => hb (hplaced n hn).1) fun hb => hb (hplaced n hn).2
    rw [← hmap]
    unfold validatePlan
    refine check_bind_ok_iff.mpr ⟨by simpa using hne, check_bind_ok_iff.mpr ⟨not_not.mpr hlength,
      check_bind_ok_iff.mpr ⟨hplaced', ?_⟩⟩⟩
    rw [hforM, ok_bind]
    exact check_bind_ok_iff.mpr ⟨not_not.mpr (hvisited.trans hlength), rfl⟩

end Fairy.Workflow
