import Fairy.Workflow.Fencing

namespace Fairy.Workflow

open Fairy.Lib

/-- All that changed belongs to the run. -/
structure Confined (id : Uuid) (s s' : Store) : Prop where
  runs : ∀ r : WorkflowRun, r.id ≠ id → (r ∈ s'.runs ↔ r ∈ s.runs)
  nodes : ∀ n : WorkflowNode, n.runId ≠ id → (n ∈ s'.nodes ↔ n ∈ s.nodes)
  attempts : ∀ a : WorkflowAttempt, a.runId ≠ id → (a ∈ s'.attempts ↔ a ∈ s.attempts)
  edges : ∀ e : WorkflowEdge, e.runId ≠ id → (e ∈ s'.edges ↔ e ∈ s.edges)

theorem Confined.refl (id : Uuid) (s : Store) : Confined id s s :=
  ⟨fun _ _ => .rfl, fun _ _ => .rfl, fun _ _ => .rfl, fun _ _ => .rfl⟩

theorem Confined.trans {id : Uuid} {s t u : Store} (h : Confined id s t) (k : Confined id t u) :
    Confined id s u :=
  ⟨fun r hr => (k.runs r hr).trans (h.runs r hr), fun n hn => (k.nodes n hn).trans (h.nodes n hn),
    fun a ha => (k.attempts a ha).trans (h.attempts a ha),
    fun e he => (k.edges e he).trans (h.edges e he)⟩

section

variable {P : Time → Prop} {s s' : Store} {id : Uuid} {now : Time}

/-- An update of the rows of one run, table by table. -/
theorem Confined.of_update {pa : WorkflowAttempt → Prop} {pn : WorkflowNode → Prop}
    {q : WorkflowRun → Prop} [DecidablePred pa] [DecidablePred pn] [DecidablePred q]
    {f : WorkflowAttempt → WorkflowAttempt} {g : WorkflowNode → WorkflowNode}
    {k : WorkflowRun → WorkflowRun}
    (hA : s'.attempts.rows = s.attempts.rows.map fun a => if pa a then f a else a)
    (hN : s'.nodes.rows = s.nodes.rows.map fun n => if pn n then g n else n)
    (hR : s'.runs.rows = s.runs.rows.map fun r => if q r then k r else r)
    (hE : s'.edges = s.edges)
    (ha : ∀ a ∈ s.attempts, pa a → a.runId = id ∧ (f a).runId = id)
    (hn : ∀ n ∈ s.nodes, pn n → n.runId = id ∧ (g n).runId = id)
    (hr : ∀ r ∈ s.runs, q r → r.id = id ∧ (k r).id = id) : Confined id s s' where
  runs r hne := Table.mem_update_other hR (q := fun r => r.id ≠ id)
    (fun r hm hp => ⟨fun h => h (hr r hm hp).1, fun h => h (hr r hm hp).2⟩) hne
  nodes n hne := Table.mem_update_other hN (q := fun n => n.runId ≠ id)
    (fun n hm hp => ⟨fun h => h (hn n hm hp).1, fun h => h (hn n hm hp).2⟩) hne
  attempts a hne := Table.mem_update_other hA (q := fun a => a.runId ≠ id)
    (fun a hm hp => ⟨fun h => h (ha a hm hp).1, fun h => h (ha a hm hp).2⟩) hne
  edges e _ := by rw [hE]

theorem Confined.of_runs {p : WorkflowRun → Prop} [DecidablePred p] {f : WorkflowRun → WorkflowRun}
    {hk : ∀ r, (f r).id = r.id} {hc : ∀ r, p r → r.check → (f r).check}
    (hp : ∀ r, p r → r.id = id) : Confined id s { s with runs := s.runs.update p f hk hc } where
  runs _ hne := Table.mem_update_other rfl (q := fun r => r.id ≠ id)
    (fun r _ h => ⟨fun hx => hx (hp r h), fun hx => hx ((hk r).trans (hp r h))⟩) hne
  nodes _ _ := .rfl
  attempts _ _ := .rfl
  edges _ _ := .rfl

theorem Confined.of_nodes {p : WorkflowNode → Prop} [DecidablePred p]
    {f : WorkflowNode → WorkflowNode} {hk : ∀ n, (f n).id = n.id}
    {hc : ∀ n, p n → n.check → (f n).check} (hf : ∀ n, (f n).runId = n.runId)
    (hp : ∀ n ∈ s.nodes, p n → n.runId = id) :
    Confined id s { s with nodes := s.nodes.update p f hk hc } where
  runs _ _ := .rfl
  nodes _ hne := Table.mem_update_other rfl (q := fun n => n.runId ≠ id)
    (fun n hm h => ⟨fun hx => hx (hp n hm h), fun hx => hx ((hf n).trans (hp n hm h))⟩) hne
  attempts _ _ := .rfl
  edges _ _ := .rfl

theorem closeOverdue_confined {r : WorkflowRun} : Confined r.id s (s.closeOverdue r now) := by
  refine .of_update rfl rfl rfl rfl ?_ ?_ ?_
  · exact fun a _ h => ⟨h.1, h.1⟩
  · exact fun n _ h => ⟨h.1, h.1⟩
  · exact fun r _ h => ⟨h.1, h.1⟩

theorem settlePause_confined : Confined id s (s.settlePause id now) := by
  unfold Store.settlePause
  split
  · exact .refl id s
  · exact .of_runs fun r h => h.1

theorem releaseRun_confined {run : WorkflowRun} {next : WorkflowNodeStatus} {errorCode : String} :
    Confined run.id s (s.releaseRun run next errorCode now) := by
  unfold Store.releaseRun
  split
  · exact .of_runs fun r h => h
  split
  · exact settlePause_confined
  · exact .of_runs fun r h => h.1

theorem release_confined {run : WorkflowRun} {node : WorkflowNode} {errorCode : String}
    (hn : node ∈ s.nodes) (hrun : node.runId = run.id) :
    Confined run.id s (s.release run node errorCode now) := by
  have hnode : Confined run.id s
      (s.releaseNode node.id (Store.releasedStatus run node) errorCode now) := by
    refine .of_nodes (fun _ => ?_) fun n hm h => ?_
    · rfl
    · rw [Table.eq_of_key hm hn h.1, hrun]
  exact hnode.trans releaseRun_confined

theorem Take.confined {row : ReadyRow} {workerId : String} {leaseUntil : Time}
    (h : Take s s' row workerId leaseUntil now) : Confined row.node.runId s s' where
  runs r hne := Table.mem_update_other h.runs (q := fun r => r.id ≠ row.node.runId)
    (fun r _ ht => ⟨fun hx => hx ht.1, fun hx => hx ht.1⟩) hne
  nodes n hne := by
    rw [h.node_cases]
    constructor
    · rintro (rfl | hn)
      · exact absurd rfl hne
      · exact hn.1
    · intro hn
      refine .inr ⟨hn, fun hid => hne ?_⟩
      rw [Table.eq_of_key hn h.node hid]
  attempts a hne := by
    rw [h.mem_attempts]
    constructor
    · rintro (ha | rfl)
      · exact ha
      · exact absurd rfl hne
    · exact .inl
  edges e _ := by rw [h.edges]

theorem renewLease_confined {c : WorkflowAttemptClaim} {leaseUntil live : Time} :
    Confined c.runId s (s.renewLease c leaseUntil live) where
  runs _ _ := .rfl
  nodes _ _ := .rfl
  attempts a hne := by
    refine Table.mem_update_other rfl (q := fun a => a.runId ≠ c.runId) ?_ hne
    exact fun a _ h => ⟨fun hx => hx h.1.2.2.1, fun hx => hx h.1.2.2.1⟩
  edges _ _ := .rfl

theorem setRunStatus_confined {status : WorkflowRunStatus} :
    Confined id s (s.setRunStatus id status now) := .of_runs fun _ h => h

theorem stampRun_confined {status : WorkflowRunStatus} :
    Confined id s (s.stampRun id status now) := .of_runs fun _ h => h

theorem pauseRun_confined : Confined id s (s.pauseRun id now) := .of_runs fun _ h => h

theorem resumeRun_confined : Confined id s (s.resumeRun id now) := .of_runs fun _ h => h

theorem wakeNodes_confined {run : WorkflowRun} : Confined run.id s (s.wakeNodes run now) := by
  unfold Store.wakeNodes
  split
  · exact .of_nodes (fun n => rfl) fun n _ h => h.1
  · exact .refl run.id s

theorem cancelRun_confined : Confined id s (s.cancelRun id now) := by
  refine .of_update rfl rfl rfl rfl ?_ ?_ ?_
  · exact fun a _ h => ⟨h.1, h.1⟩
  · exact fun n _ h => ⟨h.1, h.1⟩
  · exact fun r _ h => ⟨h, h⟩

theorem promoteDependents_confined {revision : Nat} (hl : Linked s) :
    Confined id s (s.promoteDependents id revision now) := by
  let I := fun (l : List Uuid) (u : Store) => Confined id s u ∧
    (∀ n ∈ u.nodes, n.id ∈ l → n.runId = id)
  suffices I [] (s.promoteDependents id revision now) from this.1
  refine foldl_rule (I := I) (fun x l u hu => ?_) ⟨.refl id s, fun n hn hx => ?_⟩
  · unfold Store.promoteTarget
    dsimp only
    split
    · refine ⟨hu.1.trans (.of_nodes (fun n => rfl) fun n hn h => ?_), fun n' hn' hx => ?_⟩
      · exact hu.2 n hn (h.1 ▸ List.mem_cons_self)
      · obtain ⟨n, hn, h, rfl⟩ | ⟨hn, _⟩ := Table.update_cases rfl hn'
        · exact hu.2 n hn (h.1 ▸ List.mem_cons_self)
        · exact hu.2 n' hn (List.mem_cons_of_mem x hx)
    · exact ⟨hu.1, fun n hn hx => hu.2 n hn (List.mem_cons_of_mem x hx)⟩
  · rw [List.mem_dedup, List.mem_map] at hx
    obtain ⟨e, he, hx⟩ := hx
    rw [Table.mem_select] at he
    obtain ⟨m, hm, hid, hrun, _⟩ := hl.target e he.1
    rw [← Table.eq_of_key hm hn (hid.trans hx), hrun, he.2.1]

/-- The insertion of a plan concerns its run alone. -/
theorem insert_confined {revision : Nat} {nodes normalized : List WorkflowNode}
    {edges : List WorkflowEdge} (hv : validatePlan id revision nodes edges = .ok normalized)
    (hA : s'.attempts = s.attempts) (hN : s'.nodes.rows = s.nodes.rows ++ normalized)
    (hE : s'.edges.rows = s.edges.rows ++ edges)
    (hR : ∀ r : WorkflowRun, r.id ≠ id → (r ∈ s'.runs ↔ r ∈ s.runs)) : Confined id s s' where
  runs := hR
  nodes n hne := by
    rw [Table.mem_of_rows_append hN]
    exact ⟨fun h => h.resolve_right fun hn => hne ((validatePlan_validated hv).placed n hn).1, .inl⟩
  attempts _ _ := by rw [hA]
  edges e hne := by
    rw [Table.mem_of_rows_append hE]
    exact ⟨fun h => h.resolve_right fun he => hne ((validatePlan_validated hv).linked e he).1, .inl⟩

theorem create_confined {run : WorkflowRun} {nodes normalized : List WorkflowNode}
    {edges : List WorkflowEdge} (hv : validatePlan run.id 1 nodes edges = .ok normalized)
    (hA : s'.attempts = s.attempts) (hR : s'.runs.rows = s.runs.rows ++ [run])
    (hN : s'.nodes.rows = s.nodes.rows ++ normalized)
    (hE : s'.edges.rows = s.edges.rows ++ edges) : Confined run.id s s' := by
  refine insert_confined hv hA hN hE fun r hne => ?_
  rw [Table.mem_of_rows_append hR, List.mem_singleton]
  exact ⟨fun h => h.resolve_right fun hr => hne (hr ▸ rfl), .inl⟩

theorem appendPlan_confined {revision : Nat} {nodes normalized : List WorkflowNode}
    {edges : List WorkflowEdge} (hv : validatePlan id (revision + 1) nodes edges = .ok normalized)
    (hA : s'.attempts = s.attempts) (hR : s'.runs = (s.activatePlan id revision now).runs)
    (hN : s'.nodes.rows = (s.supersedePlan id revision now).nodes.rows ++ normalized)
    (hE : s'.edges.rows = s.edges.rows ++ edges) : Confined id s s' := by
  have hsup : Confined id s (s.supersedePlan id revision now) :=
    .of_nodes (fun _ => rfl) fun n _ h => h.1
  refine hsup.trans (insert_confined hv hA hN hE fun r hne => ?_)
  rw [hR]
  exact (Confined.of_runs (s := s) fun r h => h.1).runs r hne

section Claims

variable {c : WorkflowAttemptClaim} {guard live : Time} {a : WorkflowAttempt} {n : WorkflowNode}
  {r : WorkflowRun}

/-- The node of a claim in order belongs to the claim's run. -/
theorem Claimed.node_runId (hs : Leased P s) (hc : Claimed s c guard a n r) : n.runId = c.runId :=
  (hs.node_of hc.attempt hc.node (hc.nodeId.trans hc.predicates.1.symm)).1.trans
    hc.predicates.2.2.1

/-- A settlement of the claimed attempt with its node concerns the run alone. -/
theorem Claimed.confined (hs : Leased P s) (hc : Claimed s c guard a n r)
    {f : WorkflowAttempt → WorkflowAttempt} {g : WorkflowNode → WorkflowNode}
    (hA : s'.attempts.rows =
      s.attempts.rows.map fun a => if LiveClaimPredicates c live a then f a else a)
    (hN : s'.nodes.rows = s.nodes.rows.map fun n => if RunningNode c.nodeId n then g n else n)
    (hR : s'.runs = s.runs) (hE : s'.edges = s.edges) (hf : ∀ a, (f a).runId = a.runId)
    (hg : ∀ n, (g n).runId = n.runId) : Confined c.runId s s' := by
  have hrun : ∀ m ∈ s.nodes, RunningNode c.nodeId m → m.runId = c.runId := by
    intro m hm h
    rw [Table.eq_of_key hm hc.node (h.1.trans hc.nodeId.symm), hc.node_runId hs]
  refine .of_update (q := fun _ => False) (k := fun r => r) hA hN (by simp [hR]) hE ?_ ?_ ?_
  · exact fun a _ h => ⟨h.1.2.2.1, (hf a).trans h.1.2.2.1⟩
  · exact fun m hm h => ⟨hrun m hm h, (hg m).trans (hrun m hm h)⟩
  · exact fun _ _ h => h.elim

theorem Claimed.completeClaim_confined (hs : Leased P s) (hc : Claimed s c guard a n r)
    {result : Payload} {refs : List String} {summary : Option String} :
    Confined c.runId s (s.completeClaim c result refs summary now live) :=
  hc.confined hs rfl rfl rfl rfl (fun _ => rfl) fun _ => rfl

theorem Claimed.complete_confined (hs : Leased P s) (hl : Linked s) (hc : Claimed s c guard a n r)
    {result : Payload} {refs : List String} {summary : Option String} :
    Confined c.runId s ((s.completeClaim c result refs summary now live).promoteDependents c.runId
      c.planRevision now) := by
  have hm : Moves (fun _ => True) s (s.completeClaim c result refs summary now live) :=
    hc.completeClaim_moves hs fun _ _ _ _ => trivial
  exact (hc.completeClaim_confined hs).trans (promoteDependents_confined (hm.linked hl))

theorem Claimed.retryClaim_confined (hs : Leased P s) (hc : Claimed s c guard a n r)
    {instant : Time} {errorCode : String} :
    Confined c.runId s (s.retryClaim c instant errorCode now live) := by
  apply Confined.trans _ setRunStatus_confined
  exact hc.confined hs rfl rfl rfl rfl (fun _ => rfl) fun _ => rfl

theorem Claimed.deferClaim_confined (hs : Leased P s) (hc : Claimed s c guard a n r)
    {instant : Time} {result : Payload} :
    Confined c.runId s (s.deferClaim c instant result now live) := by
  apply Confined.trans _ setRunStatus_confined
  exact hc.confined hs rfl rfl rfl rfl (fun _ => rfl) fun _ => rfl

theorem Claimed.waitClaim_confined (hs : Leased P s) (hc : Claimed s c guard a n r)
    {nodeStatus : WorkflowNodeStatus} {runStatus : WorkflowRunStatus} {result : Payload} :
    Confined c.runId s (Store.waitClaim nodeStatus runStatus s c result now live) := by
  apply Confined.trans _ setRunStatus_confined
  exact hc.confined hs rfl rfl rfl rfl (fun _ => rfl) fun _ => rfl

theorem Claimed.failClaim_confined (hs : Leased P s) (hc : Claimed s c guard a n r)
    {errorCode : String} : Confined c.runId s (s.failClaim c errorCode now live) where
  runs r hne := by
    refine Table.mem_update_other rfl (q := fun r => r.id ≠ c.runId) ?_ hne
    exact fun r _ h => ⟨fun hx => hx h, fun hx => hx h⟩
  nodes m hne := by
    refine (Table.mem_update_other rfl (q := fun m => m.runId ≠ c.runId) ?_ hne).trans
      (Table.mem_update_other rfl (q := fun m => m.runId ≠ c.runId) ?_ hne)
    · intro m hm h
      have hrun : m.runId = c.runId := by
        obtain ⟨k, hk, h', rfl⟩ | ⟨hm, _⟩ := Table.update_cases rfl hm
        · exact h'.1
        · rw [Table.eq_of_key hm hc.node (h.trans hc.nodeId.symm), hc.node_runId hs]
      exact ⟨fun hx => hx hrun, fun hx => hx hrun⟩
    · exact fun m _ h => ⟨fun hx => hx h.1, fun hx => hx h.1⟩
  attempts b hne := by
    refine (Table.mem_update_other rfl (q := fun b => b.runId ≠ c.runId) ?_ hne).trans
      (Table.mem_update_other rfl (q := fun b => b.runId ≠ c.runId) ?_ hne)
    · exact fun b _ h => ⟨fun hx => hx h.1, fun hx => hx h.1⟩
    · exact fun b _ h => ⟨fun hx => hx h.1.2.2.1, fun hx => hx h.1.2.2.1⟩
  edges _ _ := .rfl

end Claims

end

end Fairy.Workflow
