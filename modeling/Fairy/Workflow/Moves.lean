import Mathlib.Logic.Relation
import Fairy.Workflow.Effects

namespace Fairy.Workflow

open Fairy.Lib

/-- The attempt's lease ends at an instant in `P`. -/
def WorkflowAttempt.Ends (P : Time → Prop) (a : WorkflowAttempt) : Prop :=
  ∃ u, a.leaseUntil = some u ∧ P u

/-- How nodes and attempts agree. A RUNNING attempt may outlive its node's
RUNNING status only with a lease that ends in `P`. -/
structure Leased (P : Time → Prop) (s : Store) : Prop where
  placed : ∀ a ∈ s.attempts, ∃ n ∈ s.nodes, n.id = a.nodeId ∧ n.runId = a.runId ∧
    n.planRevision = a.planRevision ∧ a.attemptNumber ≤ n.attemptCount ∧
    a.leaseFence = a.attemptNumber
  owned : ∀ n ∈ s.nodes, ∃ r ∈ s.runs, r.id = n.runId ∧ n.planRevision ≤ r.activePlanRevision
  latest : ∀ a ∈ s.attempts, ∀ n ∈ s.nodes, n.id = a.nodeId → a.status = .running →
    a.attemptNumber = n.attemptCount
  held : ∀ a ∈ s.attempts, ∀ n ∈ s.nodes, n.id = a.nodeId → a.status = .running →
    n.status = .running ∨ a.Ends P
  leased : ∀ n ∈ s.nodes, n.status = .running →
    ∃ a ∈ s.attempts, a.nodeId = n.id ∧ a.attemptNumber = n.attemptCount ∧ a.status = .running
  active : ∀ a ∈ s.attempts, a.status = .running → ∀ r ∈ s.runs, r.id = a.runId →
    a.planRevision = r.activePlanRevision
  settled : ∀ a ∈ s.attempts, ∀ n ∈ s.nodes, n.id = a.nodeId → a.status = .succeeded →
    n.status = .succeeded ∧ a.attemptNumber = n.attemptCount

namespace Leased

variable {P : Time → Prop} {s : Store}

theorem empty (P : Time → Prop) : Leased P .empty := by
  constructor <;> intro _ h <;> cases h

theorem mono {Q : Time → Prop} (h : Leased P s) (hpq : ∀ u, P u → Q u) : Leased Q s :=
  { h with
    held := fun a ha n hn hid hr =>
      (h.held a ha n hn hid hr).imp_right fun ⟨u, hu, hp⟩ => ⟨u, hu, hpq u hp⟩ }

theorem node_of (h : Leased P s) {a : WorkflowAttempt} (ha : a ∈ s.attempts) {n : WorkflowNode}
    (hn : n ∈ s.nodes) (hid : n.id = a.nodeId) : n.runId = a.runId ∧
      n.planRevision = a.planRevision ∧ a.attemptNumber ≤ n.attemptCount ∧
      a.leaseFence = a.attemptNumber := by
  obtain ⟨m, hm, hmid, hp⟩ := h.placed a ha
  obtain rfl := Table.eq_of_key hm hn (hmid.trans hid.symm)
  exact hp

/-- A node has one RUNNING attempt at most. -/
theorem unique (h : Leased P s) {a b : WorkflowAttempt} (ha : a ∈ s.attempts) (hb : b ∈ s.attempts)
    (hid : a.nodeId = b.nodeId) (har : a.status = .running) (hbr : b.status = .running) :
    a = b := by
  obtain ⟨n, hn, hna, _⟩ := h.placed a ha
  have hnum := (h.latest a ha n hn hna har).trans (h.latest b hb n hn (hna.trans hid) hbr).symm
  exact Table.eq_of_key ha hb (Prod.ext hid hnum)

end Leased

structure AttemptKept (a a' : WorkflowAttempt) : Prop where
  nodeId : a'.nodeId = a.nodeId
  attemptNumber : a'.attemptNumber = a.attemptNumber
  runId : a'.runId = a.runId
  leaseFence : a'.leaseFence = a.leaseFence
  planRevision : a'.planRevision = a.planRevision

structure NodeKept (n n' : WorkflowNode) : Prop where
  id : n'.id = n.id
  runId : n'.runId = n.runId
  planRevision : n'.planRevision = n.planRevision
  concurrencyPolicy : n'.concurrencyPolicy = n.concurrencyPolicy
  resourceKeys : n'.resourceKeys = n.resourceKeys
  maxAttempts : n'.maxAttempts = n.maxAttempts
  attemptCount : n'.attemptCount = n.attemptCount

structure RunKept (r r' : WorkflowRun) : Prop where
  id : r'.id = r.id
  activePlanRevision : r'.activePlanRevision = r.activePlanRevision
  maxParallelNodes : r.budget.maxParallelNodes ≤ r'.budget.maxParallelNodes

theorem AttemptKept.refl (a : WorkflowAttempt) : AttemptKept a a := ⟨rfl, rfl, rfl, rfl, rfl⟩

theorem NodeKept.refl (n : WorkflowNode) : NodeKept n n := ⟨rfl, rfl, rfl, rfl, rfl, rfl, rfl⟩

theorem RunKept.refl (r : WorkflowRun) : RunKept r r := ⟨rfl, rfl, le_rfl⟩

/-- A node that got past its dependencies. -/
def WorkflowNodeStatus.started : WorkflowNodeStatus → Bool
  | ready | running | waitingForApproval | waitingForInput | succeeded => true
  | _ => false

/-- Every predecessor of the node SUCCEEDED. -/
def Unblocked (s : Store) (nodeId : Uuid) : Prop :=
  ∀ e ∈ s.edges, e.toNodeId = nodeId → ∀ m ∈ s.nodes, m.id = e.fromNodeId → m.status = .succeeded

/-- A change that rewrites rows in place, none of them into a RUNNING one. -/
structure Advance (P : Time → Prop) (s s' : Store) (A : WorkflowAttempt → WorkflowAttempt)
    (N : WorkflowNode → WorkflowNode) (R : WorkflowRun → WorkflowRun) : Prop where
  attempts : s'.attempts.rows = s.attempts.rows.map A
  nodes : s'.nodes.rows = s.nodes.rows.map N
  runs : s'.runs.rows = s.runs.rows.map R
  edges : s'.edges = s.edges
  attemptKept : ∀ a ∈ s.attempts, AttemptKept a (A a)
  nodeKept : ∀ n ∈ s.nodes, NodeKept n (N n)
  runKept : ∀ r ∈ s.runs, RunKept r (R r)
  closes : ∀ a ∈ s.attempts, (A a).status = a.status ∨ a.status = .running ∧ (A a).status ≠ .running
  renews : ∀ a ∈ s.attempts, (A a).status = .running → a.Ends P → (A a).Ends P
  starts : ∀ n ∈ s.nodes, (N n).status = .running → n.status = .running
  keeps : ∀ n ∈ s.nodes, n.status = .succeeded → (N n).status = .succeeded
  held : ∀ a ∈ s.attempts, ∀ n ∈ s.nodes, n.id = a.nodeId → n.status = .running →
    (A a).status = .running → (N n).status = .running ∨ (A a).Ends P
  leased : ∀ a ∈ s.attempts, ∀ n ∈ s.nodes, n.id = a.nodeId → a.status = .running →
    (N n).status = .running → (A a).status = .running
  settled : ∀ a ∈ s.attempts, ∀ n ∈ s.nodes, n.id = a.nodeId → (A a).status = .succeeded →
    a.status = .succeeded ∨ (N n).status = .succeeded
  unblocked : ∀ n ∈ s.nodes, (N n).status.started = true →
    n.status.started = true ∨ Unblocked s n.id

namespace Advance

variable {P : Time → Prop} {s s' : Store} {A : WorkflowAttempt → WorkflowAttempt}
  {N : WorkflowNode → WorkflowNode} {R : WorkflowRun → WorkflowRun}

theorem mem_attempts (h : Advance P s s' A N R) {a' : WorkflowAttempt} :
    a' ∈ s'.attempts ↔ ∃ a ∈ s.attempts, A a = a' := Table.mem_of_rows_map h.attempts

theorem mem_nodes (h : Advance P s s' A N R) {n' : WorkflowNode} :
    n' ∈ s'.nodes ↔ ∃ n ∈ s.nodes, N n = n' := Table.mem_of_rows_map h.nodes

theorem mem_runs (h : Advance P s s' A N R) {r' : WorkflowRun} :
    r' ∈ s'.runs ↔ ∃ r ∈ s.runs, R r = r' := Table.mem_of_rows_map h.runs

theorem running (h : Advance P s s' A N R) {a : WorkflowAttempt} (ha : a ∈ s.attempts)
    (hr : (A a).status = .running) : a.status = .running :=
  (h.closes a ha).elim (fun he => he ▸ hr) And.left

theorem leasedInv (h : Advance P s s' A N R) (hs : Leased P s) : Leased P s' where
  placed := by
    intro a' ha'
    obtain ⟨a, ha, rfl⟩ := h.mem_attempts.mp ha'
    obtain ⟨n, hn, hid, hrun, hrev, hle, hf⟩ := hs.placed a ha
    have ka := h.attemptKept a ha
    have kn := h.nodeKept n hn
    refine ⟨N n, h.mem_nodes.mpr ⟨n, hn, rfl⟩, ?_, ?_, ?_, ?_, ?_⟩
    · rw [kn.id, ka.nodeId, hid]
    · rw [kn.runId, ka.runId, hrun]
    · rw [kn.planRevision, ka.planRevision, hrev]
    · rw [ka.attemptNumber, kn.attemptCount]; exact hle
    · rw [ka.leaseFence, ka.attemptNumber, hf]
  owned := by
    intro n' hn'
    obtain ⟨n, hn, rfl⟩ := h.mem_nodes.mp hn'
    obtain ⟨r, hr, hid, hle⟩ := hs.owned n hn
    have kn := h.nodeKept n hn
    have kr := h.runKept r hr
    refine ⟨R r, h.mem_runs.mpr ⟨r, hr, rfl⟩, ?_, ?_⟩
    · rw [kr.id, kn.runId, hid]
    · rw [kn.planRevision, kr.activePlanRevision]; exact hle
  latest := by
    intro a' ha' n' hn' hid hrun
    obtain ⟨a, ha, rfl⟩ := h.mem_attempts.mp ha'
    obtain ⟨n, hn, rfl⟩ := h.mem_nodes.mp hn'
    rw [(h.nodeKept n hn).id, (h.attemptKept a ha).nodeId] at hid
    rw [(h.attemptKept a ha).attemptNumber, (h.nodeKept n hn).attemptCount]
    exact hs.latest a ha n hn hid (h.running ha hrun)
  held := by
    intro a' ha' n' hn' hid hrun
    obtain ⟨a, ha, rfl⟩ := h.mem_attempts.mp ha'
    obtain ⟨n, hn, rfl⟩ := h.mem_nodes.mp hn'
    rw [(h.nodeKept n hn).id, (h.attemptKept a ha).nodeId] at hid
    rcases hs.held a ha n hn hid (h.running ha hrun) with hnr | he
    · exact h.held a ha n hn hid hnr hrun
    · exact .inr (h.renews a ha hrun he)
  leased := by
    intro n' hn' hrun
    obtain ⟨n, hn, rfl⟩ := h.mem_nodes.mp hn'
    obtain ⟨a, ha, hid, hnum, har⟩ := hs.leased n hn (h.starts n hn hrun)
    refine ⟨A a, h.mem_attempts.mpr ⟨a, ha, rfl⟩, ?_, ?_, h.leased a ha n hn hid.symm har hrun⟩
    · rw [(h.attemptKept a ha).nodeId, (h.nodeKept n hn).id, hid]
    · rw [(h.attemptKept a ha).attemptNumber, (h.nodeKept n hn).attemptCount, hnum]
  active := by
    intro a' ha' hrun r' hr' hid
    obtain ⟨a, ha, rfl⟩ := h.mem_attempts.mp ha'
    obtain ⟨r, hr, rfl⟩ := h.mem_runs.mp hr'
    rw [(h.runKept r hr).id, (h.attemptKept a ha).runId] at hid
    rw [(h.attemptKept a ha).planRevision, (h.runKept r hr).activePlanRevision]
    exact hs.active a ha (h.running ha hrun) r hr hid
  settled := by
    intro a' ha' n' hn' hid hsuc
    obtain ⟨a, ha, rfl⟩ := h.mem_attempts.mp ha'
    obtain ⟨n, hn, rfl⟩ := h.mem_nodes.mp hn'
    rw [(h.nodeKept n hn).id, (h.attemptKept a ha).nodeId] at hid
    rw [(h.attemptKept a ha).attemptNumber, (h.nodeKept n hn).attemptCount]
    rcases h.closes a ha with he | ⟨har, _⟩
    · obtain ⟨hns, hnum⟩ := hs.settled a ha n hn hid (he ▸ hsuc)
      exact ⟨h.keeps n hn hns, hnum⟩
    · refine ⟨?_, hs.latest a ha n hn hid har⟩
      rcases h.settled a ha n hn hid hsuc with has | hns
      · exact absurd (har.symm.trans has) (by decide)
      · exact hns

/-- A change that closes attempts, each with its node where that is RUNNING. -/
theorem of_close (hA : s'.attempts.rows = s.attempts.rows.map A)
    (hN : s'.nodes.rows = s.nodes.rows.map N) (hR : s'.runs.rows = s.runs.rows.map R)
    (hE : s'.edges = s.edges)
    (closes : ∀ a ∈ s.attempts, A a = a ∨
      (a.status = .running ∧ (A a).status ≠ .running ∧ AttemptKept a (A a)))
    (nodeKept : ∀ n ∈ s.nodes, NodeKept n (N n)) (runKept : ∀ r ∈ s.runs, RunKept r (R r))
    (starts : ∀ n ∈ s.nodes, (N n).status = .running → n.status = .running)
    (keeps : ∀ n ∈ s.nodes, n.status = .succeeded → (N n).status = .succeeded)
    (held : ∀ a ∈ s.attempts, ∀ n ∈ s.nodes, n.id = a.nodeId → n.status = .running →
      a.status = .running → A a = a → (N n).status = .running ∨ a.Ends P)
    (leased : ∀ a ∈ s.attempts, ∀ n ∈ s.nodes, n.id = a.nodeId → a.status = .running →
      (N n).status = .running → A a = a)
    (settled : ∀ a ∈ s.attempts, ∀ n ∈ s.nodes, n.id = a.nodeId → a.status = .running →
      (A a).status = .succeeded → (N n).status = .succeeded)
    (unblocked : ∀ n ∈ s.nodes, (N n).status.started = true →
      n.status.started = true ∨ Unblocked s n.id) : Advance P s s' A N R where
  attempts := hA
  nodes := hN
  runs := hR
  edges := hE
  attemptKept a ha := by
    rcases closes a ha with h | ⟨_, _, h⟩
    · rw [h]; exact .refl a
    · exact h
  nodeKept := nodeKept
  runKept := runKept
  closes a ha := (closes a ha).imp (congrArg _) fun h => ⟨h.1, h.2.1⟩
  renews a ha hr he := by
    rcases closes a ha with h | h
    · rwa [h]
    · exact absurd hr h.2.1
  starts := starts
  keeps := keeps
  held a ha n hn hid hnr har := by
    rcases closes a ha with h | h
    · rw [h] at har ⊢
      exact held a ha n hn hid hnr har h
    · exact absurd har h.2.1
  leased a ha n hn hid har hnr := by rw [leased a ha n hn hid har hnr, har]
  settled a ha n hn hid hsuc := by
    rcases closes a ha with h | h
    · exact .inl (h ▸ hsuc)
    · exact .inr (settled a ha n hn hid h.1 hsuc)
  unblocked := unblocked

/-- A change of nodes alone, none from or to RUNNING. -/
theorem of_nodes (hA : s'.attempts = s.attempts) (hN : s'.nodes.rows = s.nodes.rows.map N)
    (hR : s'.runs = s.runs) (hE : s'.edges = s.edges)
    (nodeKept : ∀ n ∈ s.nodes, NodeKept n (N n))
    (running : ∀ n ∈ s.nodes, (N n).status = .running ↔ n.status = .running)
    (keeps : ∀ n ∈ s.nodes, n.status = .succeeded → (N n).status = .succeeded)
    (unblocked : ∀ n ∈ s.nodes, (N n).status.started = true →
      n.status.started = true ∨ Unblocked s n.id) : Advance P s s' id N id :=
  of_close (by rw [hA, List.map_id]) hN (by rw [hR, List.map_id]) hE (fun _ _ => .inl rfl) nodeKept
    (fun r _ => .refl r) (fun n hn => (running n hn).mp) keeps
    (fun _ _ n hn _ hr _ _ => .inl ((running n hn).mpr hr)) (fun _ _ _ _ _ _ _ => rfl)
    (fun _ _ _ _ _ hr hs => absurd (hr.symm.trans hs) (by decide)) unblocked

/-- A change of runs alone. -/
theorem of_runs (hA : s'.attempts = s.attempts) (hN : s'.nodes = s.nodes)
    (hR : s'.runs.rows = s.runs.rows.map R) (hE : s'.edges = s.edges)
    (runKept : ∀ r ∈ s.runs, RunKept r (R r)) : Advance P s s' id id R :=
  of_close (by rw [hA, List.map_id]) (by rw [hN, List.map_id]) hR hE (fun _ _ => .inl rfl)
    (fun n _ => .refl n) runKept (fun _ _ => id) (fun _ _ => id) (fun _ _ _ _ _ hr _ _ => .inl hr)
    (fun _ _ _ _ _ _ _ => rfl)
    (fun _ _ _ _ _ hr hs => absurd (hr.symm.trans hs) (by decide)) (fun _ _ => .inl)

end Advance

/-- The claim of one selected row: its node becomes RUNNING and gets a new
attempt, numbered and fenced by the node's count. -/
structure Take (s s' : Store) (row : ReadyRow) (workerId : String) (leaseUntil now : Time) :
    Prop where
  attempts : s'.attempts.rows = s.attempts.rows ++ [row.attempt workerId leaseUntil now]
  nodes : s'.nodes.rows = s.nodes.rows.map fun n =>
    if row.Target n then row.claimedNode now n else n
  runs : s'.runs.rows = s.runs.rows.map fun r =>
    if row.RunTarget r then row.claimedRun now r else r
  edges : s'.edges = s.edges
  node : row.node ∈ s.nodes
  ready : row.node.status = .ready
  run : ∃ r ∈ s.runs, row.RunTarget r ∧ r.activePlanRevision = row.node.planRevision ∧
    r.pauseRequested = false ∧ r.cancellationRevision = row.run.cancellationRevision
  free : ∀ a ∈ s.attempts, a.nodeId = row.node.id → a.status ≠ .running
  room : ∀ r ∈ s.runs, r.id = row.node.runId →
    (s.activeByRun row.node.runId).length < r.budget.maxParallelNodes
  apart : conflicts row.node.concurrencyPolicy row.node.resourceKeys
    (s.activeByRun row.node.runId) = false

namespace Take

variable {P : Time → Prop} {s s' : Store} {row : ReadyRow} {workerId : String}
  {leaseUntil now : Time}

theorem mem_attempts (h : Take s s' row workerId leaseUntil now) {a : WorkflowAttempt} :
    a ∈ s'.attempts ↔ a ∈ s.attempts ∨ a = row.attempt workerId leaseUntil now := by
  rw [Table.mem_of_rows_append h.attempts, List.mem_singleton]

theorem mem_nodes (h : Take s s' row workerId leaseUntil now) {n' : WorkflowNode} :
    n' ∈ s'.nodes ↔ ∃ n ∈ s.nodes, (if row.Target n then row.claimedNode now n else n) = n' :=
  Table.mem_of_rows_map h.nodes

theorem mem_runs (h : Take s s' row workerId leaseUntil now) {r' : WorkflowRun} :
    r' ∈ s'.runs ↔ ∃ r ∈ s.runs, (if row.RunTarget r then row.claimedRun now r else r) = r' :=
  Table.mem_of_rows_map h.runs

/-- A node of the new table is the claimed one or an untouched one. -/
theorem node_cases (h : Take s s' row workerId leaseUntil now) {n : WorkflowNode} :
    n ∈ s'.nodes ↔
      n = row.claimedNode now row.node ∨ (n ∈ s.nodes ∧ n.id ≠ row.node.id) := by
  rw [h.mem_nodes]
  constructor
  · rintro ⟨m, hm, rfl⟩
    by_cases hid : m.id = row.node.id
    · obtain rfl := Table.eq_of_key hm h.node hid
      exact .inl (if_pos ⟨rfl, h.ready, rfl⟩)
    · rw [if_neg fun ht => hid ht.1]
      exact .inr ⟨hm, hid⟩
  · rintro (rfl | ⟨hn, hid⟩)
    · exact ⟨row.node, h.node, if_pos ⟨rfl, h.ready, rfl⟩⟩
    · exact ⟨n, hn, if_neg fun ht => hid ht.1⟩

theorem runKept (_ : Take s s' row workerId leaseUntil now) (r : WorkflowRun) :
    RunKept r (if row.RunTarget r then row.claimedRun now r else r) := by
  split <;> exact ⟨rfl, rfl, le_rfl⟩

theorem current (h : Take s s' row workerId leaseUntil now) {r : WorkflowRun} (hr : r ∈ s.runs)
    (hid : r.id = row.node.runId) : r.activePlanRevision = row.node.planRevision := by
  obtain ⟨r₀, hr₀, ht, hrev, _⟩ := h.run
  rwa [Table.eq_of_key hr hr₀ (hid.trans ht.1.symm)]

theorem leasedInv (h : Take s s' row workerId leaseUntil now) (hs : Leased P s) :
    Leased P s' where
  placed := by
    intro a ha
    rcases h.mem_attempts.mp ha with ha | rfl
    · obtain ⟨n, hn, hid, hrun, hrev, hle, hf⟩ := hs.placed a ha
      refine ⟨_, h.mem_nodes.mpr ⟨n, hn, rfl⟩, ?_⟩
      by_cases ht : row.Target n
      · rw [if_pos ht]
        exact ⟨hid, hrun, hrev, by have := ht.2.2; simp only [ReadyRow.claimedNode]; omega, hf⟩
      · rw [if_neg ht]
        exact ⟨hid, hrun, hrev, hle, hf⟩
    · exact ⟨_, h.node_cases.mpr (.inl rfl), rfl, rfl, rfl, le_rfl, rfl⟩
  owned := by
    intro n' hn'
    have hown : ∀ n ∈ s.nodes, ∃ r' ∈ s'.runs, r'.id = n.runId ∧
        n.planRevision ≤ r'.activePlanRevision := by
      intro n hn
      obtain ⟨r, hr, hid, hle⟩ := hs.owned n hn
      have kr := h.runKept r
      exact ⟨_, h.mem_runs.mpr ⟨r, hr, rfl⟩, kr.id.trans hid, kr.activePlanRevision ▸ hle⟩
    rcases h.node_cases.mp hn' with rfl | ⟨hn, _⟩
    · exact hown row.node h.node
    · exact hown n' hn
  latest := by
    intro a ha n' hn' hid hrun
    rcases h.node_cases.mp hn' with rfl | ⟨hn, hne⟩
    · rcases h.mem_attempts.mp ha with ha | rfl
      · exact absurd hrun (h.free a ha hid.symm)
      · rfl
    · rcases h.mem_attempts.mp ha with ha | rfl
      · exact hs.latest a ha n' hn hid hrun
      · exact absurd hid hne
  held := by
    intro a ha n' hn' hid hrun
    rcases h.node_cases.mp hn' with rfl | ⟨hn, hne⟩
    · exact .inl rfl
    · rcases h.mem_attempts.mp ha with ha | rfl
      · exact hs.held a ha n' hn hid hrun
      · exact absurd hid hne
  leased := by
    intro n' hn' hrun
    rcases h.node_cases.mp hn' with rfl | ⟨hn, hne⟩
    · exact ⟨_, h.mem_attempts.mpr (.inr rfl), rfl, rfl, rfl⟩
    · obtain ⟨a, ha, hid, hnum, har⟩ := hs.leased n' hn hrun
      exact ⟨a, h.mem_attempts.mpr (.inl ha), hid, hnum, har⟩
  active := by
    intro a ha hrun r' hr' hid
    obtain ⟨r, hr, rfl⟩ := h.mem_runs.mp hr'
    have kr := h.runKept r
    rw [kr.activePlanRevision]
    rcases h.mem_attempts.mp ha with ha | rfl
    · exact hs.active a ha hrun r hr (kr.id.symm.trans hid)
    · exact (h.current hr (kr.id.symm.trans hid)).symm
  settled := by
    intro a ha n' hn' hid hsuc
    rcases h.mem_attempts.mp ha with ha | rfl
    · rcases h.node_cases.mp hn' with rfl | ⟨hn, hne⟩
      · have hst := (hs.settled a ha row.node h.node hid hsuc).1
        exact absurd (h.ready.symm.trans hst) (by decide)
      · exact hs.settled a ha n' hn hid hsuc
    · exact absurd hsuc (by simp [ReadyRow.attempt])

end Take

/-- The insertion of a validated plan as the active one of its run. -/
structure Plan (s s' : Store) (runId : Uuid) (revision : Nat) (new : List WorkflowNode)
    (links : List WorkflowEdge) (R : WorkflowRun → WorkflowRun) (extra : List WorkflowRun) :
    Prop where
  attempts : s'.attempts.rows = s.attempts.rows
  nodes : s'.nodes.rows = s.nodes.rows ++ new
  runs : s'.runs.rows = s.runs.rows.map R ++ extra
  edges : s'.edges.rows = s.edges.rows ++ links
  nonempty : new ≠ []
  inserted : ∀ n ∈ new, n.runId = runId ∧ n.planRevision = revision ∧
    (n.status = .ready ∨ n.status = .pending)
  fresh : ∀ n ∈ new, ∀ m ∈ s.nodes, m.id ≠ n.id
  older : ∀ m ∈ s.nodes, m.runId = runId → m.planRevision < revision
  activated : ∃ r ∈ s'.runs, r.id = runId ∧ r.activePlanRevision = revision
  idle : ∀ a ∈ s.attempts, a.runId = runId → a.status ≠ .running
  untouched : ∀ r ∈ s.runs, r.id ≠ runId → R r = r
  runKept : ∀ r ∈ s.runs, (R r).id = r.id ∧ r.activePlanRevision ≤ (R r).activePlanRevision ∧
    (R r).budget = r.budget
  extraRun : ∀ r ∈ extra, r.id = runId
  linked : ∀ e ∈ links, e.runId = runId ∧ e.planRevision = revision ∧
    (∃ m ∈ new, m.id = e.fromNodeId) ∧ ∃ n ∈ new, n.id = e.toNodeId
  ready : ∀ n ∈ new, n.status = .ready → ∀ e ∈ links, e.toNodeId ≠ n.id
  pending : ∀ n ∈ new, n.status = .pending → ∃ e ∈ links, e.toNodeId = n.id
  ranked : ∃ rank : Uuid → Nat, ∀ e ∈ links, rank e.fromNodeId < rank e.toNodeId

namespace Plan

variable {P : Time → Prop} {s s' : Store} {runId : Uuid} {revision : Nat}
  {new : List WorkflowNode} {links : List WorkflowEdge} {R : WorkflowRun → WorkflowRun}
  {extra : List WorkflowRun}

theorem mem_attempts (h : Plan s s' runId revision new links R extra) {a : WorkflowAttempt} :
    a ∈ s'.attempts ↔ a ∈ s.attempts := by rw [Table.mem_iff, h.attempts, Table.mem_iff]

theorem mem_nodes (h : Plan s s' runId revision new links R extra) {n : WorkflowNode} :
    n ∈ s'.nodes ↔ n ∈ s.nodes ∨ n ∈ new := Table.mem_of_rows_append h.nodes

theorem mem_edges (h : Plan s s' runId revision new links R extra) {e : WorkflowEdge} :
    e ∈ s'.edges ↔ e ∈ s.edges ∨ e ∈ links := Table.mem_of_rows_append h.edges

theorem mem_runs (h : Plan s s' runId revision new links R extra) {r' : WorkflowRun} :
    r' ∈ s'.runs ↔ (∃ r ∈ s.runs, R r = r') ∨ r' ∈ extra := by
  rw [Table.mem_iff, h.runs, List.mem_append, List.mem_map]
  rfl

/-- Attempts belong to nodes that were there before the plan. -/
theorem old_node (h : Plan s s' runId revision new links R extra) (hs : Leased P s)
    {a : WorkflowAttempt} (ha : a ∈ s.attempts) {n : WorkflowNode} (hn : n ∈ s'.nodes)
    (hid : n.id = a.nodeId) : n ∈ s.nodes := by
  rcases h.mem_nodes.mp hn with hn | hn
  · exact hn
  · obtain ⟨m, hm, hmid, _⟩ := hs.placed a ha
    exact absurd (hmid.trans hid.symm) (h.fresh n hn m hm)

theorem leasedInv (h : Plan s s' runId revision new links R extra) (hs : Leased P s) :
    Leased P s' where
  placed := by
    intro a ha
    obtain ⟨n, hn, hp⟩ := hs.placed a (h.mem_attempts.mp ha)
    exact ⟨n, h.mem_nodes.mpr (.inl hn), hp⟩
  owned := by
    intro n hn
    rcases h.mem_nodes.mp hn with hn | hn
    · obtain ⟨r, hr, hid, hle⟩ := hs.owned n hn
      obtain ⟨kid, kact, _⟩ := h.runKept r hr
      exact ⟨R r, h.mem_runs.mpr (.inl ⟨r, hr, rfl⟩), kid.trans hid, hle.trans kact⟩
    · obtain ⟨r, hr, hid, hact⟩ := h.activated
      obtain ⟨hrun, hrev, _⟩ := h.inserted n hn
      exact ⟨r, hr, hid.trans hrun.symm, by rw [hrev, hact]⟩
  latest := by
    intro a ha n hn hid hrun
    rw [h.mem_attempts] at ha
    exact hs.latest a ha n (h.old_node hs ha hn hid) hid hrun
  held := by
    intro a ha n hn hid hrun
    rw [h.mem_attempts] at ha
    exact hs.held a ha n (h.old_node hs ha hn hid) hid hrun
  leased := by
    intro n hn hrun
    rcases h.mem_nodes.mp hn with hn | hn
    · obtain ⟨a, ha, hid, hnum, har⟩ := hs.leased n hn hrun
      exact ⟨a, h.mem_attempts.mpr ha, hid, hnum, har⟩
    · rcases (h.inserted n hn).2.2 with hst | hst <;> simp [hst] at hrun
  active := by
    intro a ha hrun r' hr' hid
    rw [h.mem_attempts] at ha
    have hne : a.runId ≠ runId := fun he => h.idle a ha he hrun
    rcases h.mem_runs.mp hr' with ⟨r, hr, rfl⟩ | hx
    · have hrid : r.id = a.runId := (h.runKept r hr).1.symm.trans hid
      rw [h.untouched r hr (hrid ▸ hne)]
      exact hs.active a ha hrun r hr hrid
    · exact absurd (hid.symm.trans (h.extraRun r' hx)) hne
  settled := by
    intro a ha n hn hid hsuc
    rw [h.mem_attempts] at ha
    exact hs.settled a ha n (h.old_node hs ha hn hid) hid hsuc

end Plan

/-- The changes a call is made of. -/
inductive Move (P : Time → Prop) (s s' : Store) : Prop
  | advance {A N R} (h : Advance P s s' A N R)
  | take {row workerId leaseUntil now} (h : Take s s' row workerId leaseUntil now)
  | plan {runId revision new links R extra} (h : Plan s s' runId revision new links R extra)

abbrev Moves (P : Time → Prop) : Store → Store → Prop := Relation.ReflTransGen (Move P)

/-- What every single change keeps, a call keeps. -/
theorem Moves.invariant {P : Time → Prop} {I : Store → Prop}
    (hk : ∀ s s', Move P s s' → I s → I s') {s s' : Store} (h : Moves P s s') (hi : I s) :
    I s' := by
  induction h with
  | refl => exact hi
  | tail _ hm ih => exact hk _ _ hm ih

theorem Move.leased {P : Time → Prop} {s s' : Store} (h : Move P s s') (hs : Leased P s) :
    Leased P s' := by
  cases h with
  | advance h => exact h.leasedInv hs
  | take h => exact h.leasedInv hs
  | plan h => exact h.leasedInv hs

theorem Moves.leased {P : Time → Prop} {s s' : Store} (h : Moves P s s') (hs : Leased P s) :
    Leased P s' :=
  h.invariant (fun _ _ => Move.leased) hs

/-- Edges join nodes of their own plan. -/
structure Linked (s : Store) : Prop where
  source : ∀ e ∈ s.edges, ∃ m ∈ s.nodes, m.id = e.fromNodeId ∧ m.runId = e.runId ∧
    m.planRevision = e.planRevision
  target : ∀ e ∈ s.edges, ∃ n ∈ s.nodes, n.id = e.toNodeId ∧ n.runId = e.runId ∧
    n.planRevision = e.planRevision

theorem Linked.empty : Linked .empty := by
  constructor <;> intro _ h <;> cases h

/-- A change that keeps nodes and adds no edge keeps the links. -/
theorem Linked.of_kept {s s' : Store} (hl : Linked s) (he : ∀ e ∈ s'.edges, e ∈ s.edges)
    (hn : ∀ n ∈ s.nodes, ∃ n' ∈ s'.nodes, n'.id = n.id ∧ n'.runId = n.runId ∧
      n'.planRevision = n.planRevision) : Linked s' where
  source e hm := by
    obtain ⟨m, hmm, hid, hrun, hrev⟩ := hl.source e (he e hm)
    obtain ⟨m', hm', kid, krun, krev⟩ := hn m hmm
    exact ⟨m', hm', kid.trans hid, krun.trans hrun, krev.trans hrev⟩
  target e hm := by
    obtain ⟨m, hmm, hid, hrun, hrev⟩ := hl.target e (he e hm)
    obtain ⟨m', hm', kid, krun, krev⟩ := hn m hmm
    exact ⟨m', hm', kid.trans hid, krun.trans hrun, krev.trans hrev⟩

theorem Move.linked {P : Time → Prop} {s s' : Store} (h : Move P s s') (hl : Linked s) :
    Linked s' := by
  cases h with
  | advance h =>
    refine hl.of_kept (fun e he => h.edges ▸ he) fun n hn => ?_
    have k := h.nodeKept n hn
    exact ⟨_, h.mem_nodes.mpr ⟨n, hn, rfl⟩, k.id, k.runId, k.planRevision⟩
  | take h =>
    refine hl.of_kept (fun e he => h.edges ▸ he) fun n hn => ?_
    refine ⟨_, h.mem_nodes.mpr ⟨n, hn, rfl⟩, ?_⟩
    split <;> exact ⟨rfl, rfl, rfl⟩
  | @plan runId revision new links R extra h =>
    have hnew : ∀ n ∈ new, n ∈ s'.nodes ∧ n.runId = runId ∧ n.planRevision = revision :=
      fun n hn => ⟨h.mem_nodes.mpr (.inr hn), (h.inserted n hn).1, (h.inserted n hn).2.1⟩
    constructor
    · intro e he
      rcases h.mem_edges.mp he with he | he
      · obtain ⟨m, hm, hid⟩ := hl.source e he
        exact ⟨m, h.mem_nodes.mpr (.inl hm), hid⟩
      · obtain ⟨hrun, hrev, ⟨m, hm, hid⟩, _⟩ := h.linked e he
        obtain ⟨hm', krun, krev⟩ := hnew m hm
        exact ⟨m, hm', hid, krun.trans hrun.symm, krev.trans hrev.symm⟩
    · intro e he
      rcases h.mem_edges.mp he with he | he
      · obtain ⟨m, hm, hid⟩ := hl.target e he
        exact ⟨m, h.mem_nodes.mpr (.inl hm), hid⟩
      · obtain ⟨hrun, hrev, _, ⟨m, hm, hid⟩⟩ := h.linked e he
        obtain ⟨hm', krun, krev⟩ := hnew m hm
        exact ⟨m, hm', hid, krun.trans hrun.symm, krev.trans hrev.symm⟩

theorem Moves.linked {P : Time → Prop} {s s' : Store} (h : Moves P s s') (hl : Linked s) :
    Linked s' :=
  h.invariant (fun _ _ => Move.linked) hl

end Fairy.Workflow
