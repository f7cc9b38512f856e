import Fairy.Workflow.Absorption

namespace Fairy.Workflow

open Fairy.Lib

section Promotion

/-- What the promotion may make of a node. -/
def Promoted (now : Time) (m n : WorkflowNode) : Prop :=
  n = m ∨ (m.status = .pending ∧ n = { m with status := .ready, updatedAt := now })

/-- A predecessor of the node in its plan has not SUCCEEDED. -/
def Waits (s : Store) (runId : Uuid) (revision : Nat) (nodeId : Uuid) : Prop :=
  ∃ e ∈ s.edges, e.runId = runId ∧ e.planRevision = revision ∧ e.toNodeId = nodeId ∧
    ∃ m ∈ s.nodes, m.id = e.fromNodeId ∧ m.runId = runId ∧ m.planRevision = revision ∧
      m.status ≠ .succeeded

section

variable {s u : Store} {runId : Uuid} {revision : Nat} {now : Time}

theorem Promoted.kept {m n : WorkflowNode} (h : Promoted now m n) : NodeKept m n := by
  obtain rfl | ⟨_, rfl⟩ := h
  · exact .refl _
  · exact ⟨rfl, rfl, rfl, rfl, rfl, rfl, rfl⟩

theorem Promoted.trans {m k n : WorkflowNode} (h : Promoted now m k) (g : Promoted now k n) :
    Promoted now m n := by
  obtain rfl | ⟨hp, rfl⟩ := g
  · exact h
  · obtain rfl | ⟨_, rfl⟩ := h
    · exact .inr ⟨hp, rfl⟩
    · cases hp

theorem Promoted.succeeded_iff {m n : WorkflowNode} (h : Promoted now m n) :
    n.status = .succeeded ↔ m.status = .succeeded := by
  obtain rfl | ⟨hp, rfl⟩ := h
  · rfl
  · simp [hp]

theorem mem_sourceStatuses {target : Uuid} {st : WorkflowNodeStatus} :
    st ∈ s.sourceStatuses runId revision target ↔ ∃ e ∈ s.edges,
      (e.runId = runId ∧ e.planRevision = revision ∧ e.toNodeId = target) ∧
      ∃ m ∈ s.nodes, m.id = e.fromNodeId ∧ m.status = st := by
  simp only [Store.sourceStatuses, List.mem_filterMap, Table.mem_select, Option.map_eq_some_iff,
    Table.find?_eq_some]
  constructor
  · rintro ⟨e, ⟨he, hp⟩, m, ⟨hm, hid⟩, hst⟩
    exact ⟨e, he, hp, m, hm, hid, hst⟩
  · rintro ⟨e, he, hp, m, hm, hid, hst⟩
    exact ⟨e, ⟨he, hp⟩, m, ⟨hm, hid⟩, hst⟩

/-- What a promotion leaves of a store. -/
structure Promotes (now : Time) (s u : Store) : Prop where
  nodes : ∀ n ∈ u.nodes, ∃ m ∈ s.nodes, Promoted now m n
  keeps : ∀ m ∈ s.nodes, ∃ n ∈ u.nodes, Promoted now m n
  edges : u.edges = s.edges
  runs : u.runs = s.runs

theorem Promotes.refl (s : Store) : Promotes now s s :=
  ⟨fun n hn => ⟨n, hn, .inl rfl⟩, fun m hm => ⟨m, hm, .inl rfl⟩, rfl, rfl⟩

theorem Promotes.trans {v : Store} (h : Promotes now s u) (k : Promotes now u v) :
    Promotes now s v where
  nodes n hn := by
    obtain ⟨m, hm, hp⟩ := k.nodes n hn
    obtain ⟨l, hl, hq⟩ := h.nodes m hm
    exact ⟨l, hl, hq.trans hp⟩
  keeps l hl := by
    obtain ⟨m, hm, hq⟩ := h.keeps l hl
    obtain ⟨n, hn, hp⟩ := k.keeps m hm
    exact ⟨n, hn, hq.trans hp⟩
  edges := k.edges.trans h.edges
  runs := k.runs.trans h.runs

theorem Promotes.linked (h : Promotes now s u) (hl : Linked s) : Linked u := by
  refine hl.of_kept (fun e he => h.edges ▸ he) fun m hm => ?_
  obtain ⟨n, hn, hp⟩ := h.keeps m hm
  exact ⟨n, hn, hp.kept.id, hp.kept.runId, hp.kept.planRevision⟩

/-- A promotion makes no node SUCCEEDED, so those that wait go on waiting. -/
theorem Promotes.waits (h : Promotes now s u) {nodeId : Uuid} (hw : Waits s runId revision nodeId) :
    Waits u runId revision nodeId := by
  obtain ⟨e, he, hrun, hrev, hto, m, hm, hid, hmrun, hmrev, hst⟩ := hw
  obtain ⟨n, hn, hp⟩ := h.keeps m hm
  have k := hp.kept
  exact ⟨e, h.edges ▸ he, hrun, hrev, hto, n, hn, k.id.trans hid, k.runId.trans hmrun,
    k.planRevision.trans hmrev, fun hs => hst (hp.succeeded_iff.mp hs)⟩

theorem promoteTarget_promotes {target : Uuid} :
    Promotes now s (Store.promoteTarget runId revision now s target) := by
  unfold Store.promoteTarget
  dsimp only
  split
  · refine ⟨fun n hn => ?_, fun m hm => ?_, rfl, rfl⟩
    · obtain ⟨m, hm, hp, rfl⟩ | ⟨hn, _⟩ := Table.update_cases rfl hn
      · exact ⟨m, hm, .inr ⟨hp.2, rfl⟩⟩
      · exact ⟨n, hn, .inl rfl⟩
    · by_cases hp : m.id = target ∧ m.status = .pending
      · exact ⟨_, Table.mem_update_of rfl hm hp, .inr ⟨hp.2, rfl⟩⟩
      · exact ⟨m, Table.mem_update_of_not rfl hm hp, .inl rfl⟩
  · exact .refl s

/-- A target that stays PENDING waits for one of its predecessors. -/
theorem promoteTarget_waits (hl : Linked s) {n : WorkflowNode}
    (hn : n ∈ (Store.promoteTarget runId revision now s n.id).nodes) (hst : n.status = .pending)
    (he : ∃ e ∈ s.edges, e.runId = runId ∧ e.planRevision = revision ∧ e.toNodeId = n.id) :
    Waits s runId revision n.id := by
  obtain ⟨e, he, hplan⟩ := he
  obtain ⟨k, hk, hkid, _⟩ := hl.source e he
  have hsome : s.sourceStatuses runId revision n.id ≠ [] :=
    List.ne_nil_of_mem (mem_sourceStatuses.mpr ⟨e, he, hplan, k, hk, hkid, rfl⟩)
  unfold Store.promoteTarget at hn
  dsimp only at hn
  split at hn
  · obtain ⟨m, _, _, hnm⟩ | ⟨_, hp⟩ := Table.update_cases rfl hn
    · rw [hnm] at hst
      cases hst
    · exact absurd ⟨rfl, hst⟩ hp
  · rename_i hall
    have hx : ∃ st ∈ s.sourceStatuses runId revision n.id, st ≠ .succeeded := by
      by_contra hx
      push Not at hx
      exact hall ⟨hsome, hx⟩
    obtain ⟨st, hmem, hne⟩ := hx
    obtain ⟨d, hd, ⟨hrun, hrev, hto⟩, m, hm, hid, rfl⟩ := mem_sourceStatuses.mp hmem
    obtain ⟨l, hlm, hlid, hlrun, hlrev⟩ := hl.source d hd
    obtain rfl := Table.eq_of_key hlm hm (hlid.trans hid.symm)
    exact ⟨d, hd, hrun, hrev, hto, l, hm, hid, hlrun.trans hrun, hlrev.trans hrev, hne⟩

/-- The promotion of a plan leaves PENDING only nodes that wait. -/
theorem promoteDependents_waits (hl : Linked s) :
    Promotes now s (s.promoteDependents runId revision now) ∧
      ∀ n ∈ (s.promoteDependents runId revision now).nodes, n.status = .pending →
        (∃ e ∈ s.edges, e.runId = runId ∧ e.planRevision = revision ∧ e.toNodeId = n.id) →
        Waits (s.promoteDependents runId revision now) runId revision n.id := by
  -- the targets that are still to come may be PENDING for no reason
  let I := fun (l : List Uuid) (u : Store) => Promotes now s u ∧
    ∀ n ∈ u.nodes, n.status = .pending →
      (∃ e ∈ s.edges, e.runId = runId ∧ e.planRevision = revision ∧ e.toNodeId = n.id) →
      n.id ∈ l ∨ Waits u runId revision n.id
  have h : I [] (s.promoteDependents runId revision now) := by
    refine foldl_rule (I := I) (fun x l u hu => ?_) ⟨.refl s, ?_⟩
    · have hp : Promotes now u (Store.promoteTarget runId revision now u x) :=
        promoteTarget_promotes
      refine ⟨hu.1.trans hp, fun n hn hst he => ?_⟩
      obtain ⟨m, hm, rfl | ⟨_, rfl⟩⟩ := hp.nodes n hn
      · obtain hx | hw := hu.2 n hm hst he
        · obtain rfl | hx := List.mem_cons.mp hx
          · refine .inr (hp.waits (promoteTarget_waits (hu.1.linked hl) hn hst ?_))
            rwa [hu.1.edges]
          · exact .inl hx
        · exact .inr (hp.waits hw)
      · cases hst
    · rintro n hn hst ⟨e, he, hrun, hrev, hto⟩
      refine .inl (List.mem_dedup.mpr (List.mem_map.mpr ⟨e, ?_, hto⟩))
      exact Table.mem_select.mpr ⟨he, hrun, hrev⟩
  refine ⟨h.1, fun n hn hst he => ?_⟩
  exact (h.2 n hn hst he).resolve_left List.not_mem_nil

end

end Promotion

/-- The node belongs to the active plan of the run. -/
def WorkflowRun.Current (r : WorkflowRun) (n : WorkflowNode) : Prop :=
  n.runId = r.id ∧ n.planRevision = r.activePlanRevision

/-- A status that neither waits for a predecessor nor ends the node. -/
def WorkflowNodeStatus.underway : WorkflowNodeStatus → Bool
  | ready | running | waitingForApproval | waitingForInput => true
  | _ => false

/-- The nodes of a plan are on their way: what ended SUCCEEDED, what is PENDING
waits for a predecessor, and no node comes before itself. -/
structure Orderly (s : Store) (runId : Uuid) (revision : Nat) : Prop where
  done : ∀ n ∈ s.nodes, n.runId = runId → n.planRevision = revision →
    n.status.terminal = true → n.status = .succeeded
  blocked : ∀ n ∈ s.nodes, n.runId = runId → n.planRevision = revision →
    n.status = .pending → Waits s runId revision n.id
  ranked : ∃ rank : Uuid → Nat, ∀ e ∈ s.edges, e.runId = runId → e.planRevision = revision →
    rank e.fromNodeId < rank e.toNodeId

section

variable {s u : Store} {runId : Uuid} {revision : Nat} {now : Time}

theorem WorkflowNodeStatus.underway_iff {st : WorkflowNodeStatus} :
    st.underway = true ↔ st ≠ .pending ∧ st.terminal = false := by
  cases st <;> simp [underway, terminal]

theorem WorkflowNodeStatus.eq_ready {st : WorkflowNodeStatus} (h : st.underway = true)
    (hr : st ≠ .running) (hw : st.waiting = false) : st = .ready := by
  cases st <;> simp_all [underway, waiting]

/-- A node that has not ended has one under way at or before it. -/
theorem Orderly.underway (h : Orderly s runId revision) {n : WorkflowNode} (hn : n ∈ s.nodes)
    (hrun : n.runId = runId) (hrev : n.planRevision = revision)
    (hst : n.status.terminal = false) :
    ∃ m ∈ s.nodes, m.runId = runId ∧ m.planRevision = revision ∧ m.status.underway = true := by
  obtain ⟨rank, hrank⟩ := h.ranked
  let p := fun (n : WorkflowNode) =>
    n ∈ s.nodes ∧ n.runId = runId ∧ n.planRevision = revision ∧ n.status.terminal = false
  have hsource : ∃ m, p m ∧ m.status.underway = true := by
    refine Kahn.exists_source (fun n => rank n.id) (fun n hn => ?_) (a := n) ⟨hn, hrun, hrev, hst⟩
    obtain ⟨hn, hrun, hrev, hst⟩ := hn
    by_cases hp : n.status = .pending
    · obtain ⟨e, he, herun, herev, hto, m, hm, hid, hmrun, hmrev, hne⟩ :=
        h.blocked n hn hrun hrev hp
      refine .inr ⟨m, ⟨hm, hmrun, hmrev, Bool.eq_false_iff.mpr fun ht => ?_⟩, ?_⟩
      · exact hne (h.done m hm hmrun hmrev ht)
      · rw [hid, ← hto]
        exact hrank e he herun herev
    · exact .inl (WorkflowNodeStatus.underway_iff.mpr ⟨hp, hst⟩)
  obtain ⟨m, ⟨hm, hmrun, hmrev, _⟩, hmst⟩ := hsource
  exact ⟨m, hm, hmrun, hmrev, hmst⟩

theorem Orderly.of_same (h : Orderly s runId revision) (hN : u.nodes = s.nodes)
    (hE : u.edges = s.edges) : Orderly u runId revision := by
  obtain ⟨hdone, hblocked, hranked⟩ := h
  unfold Waits at hblocked
  rw [← hN, ← hE] at hblocked
  exact ⟨hN ▸ hdone, hblocked, hE ▸ hranked⟩

/-- Nodes that get or stay under way keep the plan orderly. -/
theorem Orderly.of_update (h : Orderly s runId revision) {p : WorkflowNode → Prop}
    [DecidablePred p] {g : WorkflowNode → WorkflowNode}
    (hN : u.nodes.rows = s.nodes.rows.map fun n => if p n then g n else n) (hE : u.edges = s.edges)
    (hk : ∀ n, (g n).id = n.id ∧ (g n).runId = n.runId ∧ (g n).planRevision = n.planRevision)
    (hg : ∀ n ∈ s.nodes, p n → (g n).status.underway = true) : Orderly u runId revision where
  done n hn hrun hrev ht := by
    obtain ⟨m, hm, hp, rfl⟩ | ⟨hn, _⟩ := Table.update_cases hN hn
    · have hx := (WorkflowNodeStatus.underway_iff.mp (hg m hm hp)).2
      exact absurd (hx.symm.trans ht) (by decide)
    · exact h.done n hn hrun hrev ht
  blocked n hn hrun hrev hst := by
    obtain ⟨m, hm, hp, rfl⟩ | ⟨hn, _⟩ := Table.update_cases hN hn
    · exact absurd hst (WorkflowNodeStatus.underway_iff.mp (hg m hm hp)).1
    · obtain ⟨e, he, herun, herev, hto, m, hm, hid, hmrun, hmrev, hne⟩ :=
        h.blocked n hn hrun hrev hst
      refine ⟨e, hE ▸ he, herun, herev, hto, ?_⟩
      by_cases hp : p m
      · obtain ⟨kid, krun, krev⟩ := hk m
        refine ⟨g m, Table.mem_update_of hN hm hp, kid.trans hid, krun.trans hmrun,
          krev.trans hmrev, fun hs => ?_⟩
        have hx := hg m hm hp
        rw [hs] at hx
        cases hx
      · exact ⟨m, Table.mem_update_of_not hN hm hp, hid, hmrun, hmrev, hne⟩
  ranked := hE ▸ h.ranked

/-- A validated plan that is inserted is orderly, and has a READY node. -/
theorem Orderly.insert {nodes normalized : List WorkflowNode} {edges : List WorkflowEdge}
    (hv : validatePlan runId revision nodes edges = .ok normalized)
    (hN : u.nodes.rows = s.nodes.rows ++ normalized) (hE : u.edges.rows = s.edges.rows ++ edges)
    (hnew : ∀ n ∈ s.nodes, n.runId = runId → n.planRevision ≠ revision) (hl : Linked s) :
    Orderly u runId revision ∧ ∃ n ∈ u.nodes, n.runId = runId ∧ n.planRevision = revision ∧
      n.status = .ready := by
  have hval := validatePlan_validated hv
  have hold : ∀ n ∈ u.nodes, n.runId = runId → n.planRevision = revision → n ∈ normalized := by
    intro n hn hrun hrev
    obtain hn | hn := (Table.mem_of_rows_append hN).mp hn
    · exact absurd hrev (hnew n hn hrun)
    · exact hn
  have hmem : ∀ n ∈ normalized, n ∈ u.nodes := fun n hn => (Table.mem_of_rows_append hN).mpr (.inr hn)
  have hord : Orderly u runId revision := by
    refine ⟨fun n hn hrun hrev ht => ?_, fun n hn hrun hrev hst => ?_, ?_⟩
    · obtain hr | hp := hval.status n (hold n hn hrun hrev)
      · rw [hr] at ht
        cases ht
      · rw [hp] at ht
        cases ht
    · obtain ⟨e, he, hto⟩ := hval.pending n (hold n hn hrun hrev) hst
      obtain ⟨herun, herev, ⟨m, hm, hid⟩, _⟩ := hval.linked e he
      obtain ⟨hmrun, hmrev⟩ := hval.placed m hm
      refine ⟨e, (Table.mem_of_rows_append hE).mpr (.inr he), herun, herev, hto, m, hmem m hm, hid,
        hmrun, hmrev, fun hs => ?_⟩
      obtain hr | hp := hval.status m hm
      · exact absurd (hr.symm.trans hs) (by decide)
      · exact absurd (hp.symm.trans hs) (by decide)
    · obtain ⟨rank, hrank⟩ := hval.ranked
      refine ⟨rank, fun e he herun herev => ?_⟩
      obtain he | he := (Table.mem_of_rows_append hE).mp he
      · obtain ⟨m, hm, _, hmrun, hmrev⟩ := hl.source e he
        exact absurd (hmrev.trans herev) (hnew m hm (hmrun.trans herun))
      · exact hrank e he
  refine ⟨hord, ?_⟩
  obtain ⟨n, hn⟩ := List.exists_mem_of_ne_nil normalized hval.nonempty
  obtain ⟨hrun, hrev⟩ := hval.placed n hn
  have hopen : n.status.terminal = false := by
    obtain hr | hp := hval.status n hn
    · rw [hr]
      rfl
    · rw [hp]
      rfl
  obtain ⟨m, hm, hmrun, hmrev, hst⟩ := hord.underway (hmem n hn) hrun hrev hopen
  refine ⟨m, hm, hmrun, hmrev, ?_⟩
  obtain hr | hp := hval.status m (hold m hm hmrun hmrev)
  · exact hr
  · rw [hp] at hst
    cases hst

/-- A completion with its promotion keeps the plan orderly. -/
theorem Orderly.complete {c : WorkflowAttemptClaim} {result : Payload} {refs : List String}
    {summary : Option String} {live : Time}
    (hl : Linked (s.completeClaim c result refs summary now live))
    (h : Orderly s runId revision) :
    Orderly ((s.completeClaim c result refs summary now live).promoteDependents runId revision now)
      runId revision := by
  obtain ⟨hp, hw⟩ : Promotes now (s.completeClaim c result refs summary now live)
      ((s.completeClaim c result refs summary now live).promoteDependents runId revision now) ∧ _ :=
    promoteDependents_waits hl
  refine ⟨fun n hn hrun hrev ht => ?_, fun n hn hrun hrev hst => ?_, ?_⟩
  · obtain ⟨m, hm, rfl | ⟨_, rfl⟩⟩ := hp.nodes n hn
    · obtain ⟨_, _, _, rfl⟩ | ⟨hm, _⟩ := Table.update_cases rfl hm
      · rfl
      · exact h.done n hm hrun hrev ht
    · cases ht
  · refine hw n hn hst ?_
    -- a node still PENDING was so before, and had an edge to wait on
    obtain ⟨m, hm, rfl | ⟨_, rfl⟩⟩ := hp.nodes n hn
    · obtain ⟨_, _, _, rfl⟩ | ⟨hm, _⟩ := Table.update_cases rfl hm
      · cases hst
      · obtain ⟨e, he, herun, herev, hto, _⟩ := h.blocked n hm hrun hrev hst
        exact ⟨e, he, herun, herev, hto⟩
    · cases hst
  · rw [hp.edges]
    exact h.ranked

end

end Fairy.Workflow
