import Fairy.Workflow.Refinement

namespace Fairy.Workflow

open Fairy.Lib

section Dependencies

/-- Nodes start after their dependencies. -/
def Met (s : Store) : Prop := ∀ n ∈ s.nodes, n.status.started = true → Unblocked s n.id

section

variable {P : Time → Prop} {s s' : Store}

theorem Advance.met {A : WorkflowAttempt → WorkflowAttempt} {N : WorkflowNode → WorkflowNode}
    {R : WorkflowRun → WorkflowRun} (h : Advance P s s' A N R) (hm : Met s) : Met s' := by
  intro n' hn' hst e he hto m' hm' hid
  obtain ⟨n, hn, rfl⟩ := h.mem_nodes.mp hn'
  obtain ⟨m, hmm, rfl⟩ := h.mem_nodes.mp hm'
  have hfree : Unblocked s n.id := (h.unblocked n hn hst).elim (hm n hn) id
  rw [(h.nodeKept n hn).id] at hto
  rw [(h.nodeKept m hmm).id] at hid
  exact h.keeps m hmm (hfree e (h.edges ▸ he) hto m hmm hid)

theorem Take.met {row : ReadyRow} {workerId : String} {leaseUntil now : Time}
    (h : Take s s' row workerId leaseUntil now) (hm : Met s) : Met s' := by
  intro n' hn' hst e he hto m' hm' hid
  have hfree : Unblocked s n'.id := by
    rcases h.node_cases.mp hn' with rfl | ⟨hn, _⟩
    · exact hm row.node h.node (by rw [h.ready]; rfl)
    · exact hm n' hn hst
  rcases h.node_cases.mp hm' with rfl | ⟨hmm, _⟩
  · have := hfree e (h.edges ▸ he) hto row.node h.node hid
    exact absurd (h.ready.symm.trans this) (by decide)
  · exact hfree e (h.edges ▸ he) hto m' hmm hid

theorem Plan.met {runId : Uuid} {revision : Nat} {new : List WorkflowNode}
    {links : List WorkflowEdge} {R : WorkflowRun → WorkflowRun} {extra : List WorkflowRun}
    (h : Plan s s' runId revision new links R extra) (hl : Linked s) (hm : Met s) : Met s' := by
  intro n hn hst e he hto m hmm hid
  rcases h.mem_nodes.mp hn with hn | hn
  · -- a new edge joins new nodes, so an old node keeps its edges
    have hold : e ∈ s.edges := (h.mem_edges.mp he).resolve_right fun hx => by
      obtain ⟨_, _, _, k, hk, hkid⟩ := h.linked e hx
      exact h.fresh k hk n hn (hto.symm.trans hkid.symm)
    obtain ⟨k, hk, hkid, _⟩ := hl.source e hold
    have hmo : m ∈ s.nodes := (h.mem_nodes.mp hmm).resolve_right fun hx =>
      h.fresh m hx k hk (hkid.trans hid.symm)
    exact hm n hn hst e hold hto m hmo hid
  · -- a new node that started is READY, and no edge leads to it
    rcases h.mem_edges.mp he with he | he
    · obtain ⟨k, hk, hkid, _⟩ := hl.target e he
      exact absurd (hkid.trans hto) (h.fresh n hn k hk)
    · rcases (h.inserted n hn).2.2 with hr | hp
      · exact absurd hto (h.ready n hn hr e he)
      · rw [hp] at hst
        cases hst

theorem Move.met (h : Move P s s') (hl : Linked s) (hm : Met s) : Met s' := by
  cases h with
  | advance h => exact h.met hm
  | take h => exact h.met hm
  | plan h => exact h.met hl hm

theorem Moves.met (h : Moves P s s') (hl : Linked s) (hm : Met s) : Met s' :=
  (h.invariant (I := fun u => Linked u ∧ Met u)
    (fun _ _ hmv hu => ⟨hmv.linked hu.1, hmv.met hu.1 hu.2⟩) ⟨hl, hm⟩).2

/-- No node that SUCCEEDED loses that status. -/
def KeepsSucceeded (s s' : Store) : Prop :=
  ∀ n ∈ s.nodes, n.status = .succeeded → ∃ n' ∈ s'.nodes, n'.id = n.id ∧ n'.status = .succeeded

theorem KeepsSucceeded.refl (s : Store) : KeepsSucceeded s s := fun n hn hs => ⟨n, hn, rfl, hs⟩

theorem KeepsSucceeded.trans {u : Store} (h : KeepsSucceeded s u) (h' : KeepsSucceeded u s') :
    KeepsSucceeded s s' := by
  intro n hn hs
  obtain ⟨m, hm, hid, hst⟩ := h n hn hs
  obtain ⟨k, hk, hkid, hkst⟩ := h' m hm hst
  exact ⟨k, hk, hkid.trans hid, hkst⟩

theorem Move.keepsSucceeded (h : Move P s s') : KeepsSucceeded s s' := by
  intro n hn hs
  cases h with
  | advance h =>
    exact ⟨_, h.mem_nodes.mpr ⟨n, hn, rfl⟩, (h.nodeKept n hn).id, h.keeps n hn hs⟩
  | take h =>
    refine ⟨n, h.node_cases.mpr (.inr ⟨hn, fun hid => ?_⟩), rfl, hs⟩
    have heq := Table.eq_of_key hn h.node hid
    exact absurd ((heq ▸ h.ready).symm.trans hs) (by decide)
  | plan h => exact ⟨n, h.mem_nodes.mpr (.inl hn), rfl, hs⟩

theorem Moves.keepsSucceeded (h : Moves P s s') : KeepsSucceeded s s' := by
  induction h with
  | refl => exact .refl s
  | tail _ hm ih => exact ih.trans hm.keepsSucceeded

end

theorem Reachable.met {σ : Config} (h : Reachable AnyCall σ) : Met σ.store := by
  suffices Sound σ ∧ Met σ.store from this.2
  refine h.invariant (I := fun σ => Sound σ ∧ Met σ.store)
    (fun _ => ⟨⟨.empty _, .empty⟩, fun _ hn => absurd hn (Table.not_mem_empty _)⟩)
    fun σ call τ hs _ hstep => ?_
  exact ⟨hstep.sound hs.1, (hstep.moves hs.1).met hs.1.linked hs.2⟩

theorem Runs.keepsSucceeded {σ τ : Config} (hs : Sound σ) (h : Runs AnyCall σ τ) :
    KeepsSucceeded σ.store τ.store :=
  h.history (I := Sound) (R := fun σ τ => KeepsSucceeded σ.store τ.store) (fun _ => .refl _)
    (fun _ _ _ => .trans) (fun _ _ _ hs _ hstep => hstep.sound hs)
    (fun _ _ _ hs _ hstep => (hstep.moves hs).keepsSucceeded) hs

/-- Every predecessor the plan gives a node is there, and SUCCEEDED. -/
def PredecessorsSucceeded (s : Store) (n : WorkflowNode) : Prop :=
  ∀ e ∈ s.edges, e.runId = n.runId → e.planRevision = n.planRevision → e.toNodeId = n.id →
    ∃ m ∈ s.nodes, m.id = e.fromNodeId ∧ m.status = .succeeded

theorem Unblocked.predecessors {s : Store} (hl : Linked s) {n : WorkflowNode}
    (h : Unblocked s n.id) : PredecessorsSucceeded s n := by
  intro e he _ _ hto
  obtain ⟨m, hm, hid, _⟩ := hl.source e he
  exact ⟨m, hm, hid, h e he hto m hm hid⟩

/-- Nodes start after their dependencies, `claim_ready` hands out no other, and
what SUCCEEDED stays so. -/
theorem dependency_safety {σ : Config} (h : Reachable AnyCall σ) :
    (∀ n ∈ σ.store.nodes, n.status.started = true → PredecessorsSucceeded σ.store n) ∧
    (∀ workerId leaseUntil slots t claims s', σ.clock ≤ t.first →
      σ.store.claimReady workerId leaseUntil slots t = .ok (claims, s') →
      ∀ c ∈ claims, ∃ n ∈ s'.nodes, n.id = c.nodeId ∧ n.runId = c.runId ∧
        n.planRevision = c.planRevision ∧ PredecessorsSucceeded s' n) ∧
    ∀ τ, Runs AnyCall σ τ → KeepsSucceeded σ.store τ.store := by
  have hs := h.sound
  refine ⟨fun n hn hst => (h.met n hn hst).predecessors hs.linked, ?_,
    fun τ hr => Runs.keepsSucceeded hs hr⟩
  intro workerId leaseUntil slots t claims s' hclock hclaim c hc
  obtain ⟨hlease, u, hu, hv⟩ := claimReady_ok hclaim
  have hp : ∀ v, v ≤ σ.clock → v ≤ t.first := fun v hv => hv.trans hclock
  have hmu : Moves (fun _ => False) σ.store u := sweep_moves hs.leased hu
  have hm : Moves (fun _ => False) σ.store s' := claimReady_moves hs.leased hp hlease hu hv
  have hlu : Leased (· ≤ σ.clock) u :=
    (sweep_moves (Q := (· ≤ σ.clock)) hs.leased hu).leased hs.leased
  obtain ⟨row, hrow, rfl, hn, _⟩ := claims_issued hlu hp (reclaimExpired_swept hu) hlease hv hc
  exact ⟨_, hn, rfl, rfl, rfl,
    ((hm.met hs.linked h.met) _ hn rfl).predecessors (hm.linked hs.linked)⟩

theorem first_revision : 1 ≤ 1 := Nat.le_refl 1

theorem one_then_two : 1 ≠ 2 := Nat.ne_of_lt (Nat.lt_succ_self 1)

/-- Two nodes in a row, the first completed and the second then claimed. -/
def chainCalls : List Call :=
  [(Op.create sampleRun [sampleNode 1 .serial 1, sampleNode 2 .serial 1]
      [⟨1, 1, 1, 2, first_revision, one_then_two⟩]).at 0,
    (Op.claimReady "worker" 10 (sampleSlots 2)).at 1,
    (Op.complete (sampleClaim 1 1 10) [] [] none).at 2,
    (Op.claimReady "worker" 10 (sampleSlots 2)).at 3]

theorem dependency_safety_chain :
    (∃ n ∈ (played chainCalls).store.nodes.rows, n.id = 2 ∧ n.status = .running) ∧
      ∀ n ∈ (played chainCalls).store.nodes, n.status.started = true →
        PredecessorsSucceeded (played chainCalls).store n :=
  ⟨by decide, (dependency_safety (reachable_played (by decide))).1⟩

end Dependencies

/-- The RUNNING nodes of a run. -/
def Store.runningNodes (s : Store) (runId : Uuid) : List WorkflowNode :=
  s.nodes.select fun n => n.runId = runId ∧ n.status = .running

/-- What the concurrency policy allows of the nodes RUNNING together. -/
structure Concurrent (s : Store) : Prop where
  room : ∀ r ∈ s.runs, (s.runningNodes r.id).length ≤ r.budget.maxParallelNodes
  serial : ∀ n ∈ s.nodes, ∀ m ∈ s.nodes, n.status = .running → m.status = .running →
    n.runId = m.runId → n.concurrencyPolicy = .serial → n = m
  disjoint : ∀ n ∈ s.nodes, ∀ m ∈ s.nodes, n.status = .running → m.status = .running →
    n.runId = m.runId → n ≠ m → List.Disjoint n.resourceKeys m.resourceKeys

theorem conflicts_eq_false {policy : WorkflowConcurrencyPolicy} {keys : List String}
    {active : ActiveList} (h : conflicts policy keys active = false)
    {a : WorkflowConcurrencyPolicy × List String} (ha : a ∈ active) :
    policy ≠ .serial ∧ a.1 ≠ .serial ∧ List.Disjoint keys a.2 := by
  have hne : active.isEmpty = false := List.isEmpty_eq_false_iff_exists_mem.mpr ⟨a, ha⟩
  rw [conflicts, if_neg (by simp [hne])] at h
  split at h
  · cases h
  rename_i hp
  have hc := List.any_eq_false.mp h a ha
  rw [Bool.or_eq_true, not_or, decide_eq_true_eq] at hc
  refine ⟨hp, hc.1, fun k hk hka => hc.2 (List.any_eq_true.mpr ⟨k, hk, decide_eq_true hka⟩)⟩

section

variable {P : Time → Prop} {s s' : Store}

theorem length_activeByRun (runId : Uuid) :
    (s.activeByRun runId).length = (s.runningNodes runId).length := List.length_map _

theorem mem_runningNodes {n : WorkflowNode} {runId : Uuid} :
    n ∈ s.runningNodes runId ↔ n ∈ s.nodes ∧ n.runId = runId ∧ n.status = .running :=
  Table.mem_select

theorem mem_activeByRun {n : WorkflowNode} (hn : n ∈ s.nodes) (hr : n.status = .running) :
    (n.concurrencyPolicy, n.resourceKeys) ∈ s.activeByRun n.runId :=
  List.mem_map_of_mem (f := fun n => (n.concurrencyPolicy, n.resourceKeys))
    (Table.mem_select.mpr ⟨hn, rfl, hr⟩)

theorem Advance.runningNodes_le {A : WorkflowAttempt → WorkflowAttempt}
    {N : WorkflowNode → WorkflowNode} {R : WorkflowRun → WorkflowRun} (h : Advance P s s' A N R)
    (runId : Uuid) : (s'.runningNodes runId).length ≤ (s.runningNodes runId).length := by
  unfold Store.runningNodes Table.select
  rw [h.nodes, ← List.countP_eq_length_filter, ← List.countP_eq_length_filter, List.countP_map]
  refine List.countP_mono_left fun n hn hp => ?_
  simp only [Function.comp_apply, decide_eq_true_eq] at hp ⊢
  exact ⟨(h.nodeKept n hn).runId ▸ hp.1, h.starts n hn hp.2⟩

theorem Advance.concurrent {A : WorkflowAttempt → WorkflowAttempt}
    {N : WorkflowNode → WorkflowNode} {R : WorkflowRun → WorkflowRun} (h : Advance P s s' A N R)
    (hc : Concurrent s) : Concurrent s' where
  room := by
    intro r' hr'
    obtain ⟨r, hr, rfl⟩ := h.mem_runs.mp hr'
    have k := h.runKept r hr
    rw [k.id]
    exact ((h.runningNodes_le r.id).trans (hc.room r hr)).trans k.maxParallelNodes
  serial := by
    intro n' hn' m' hm' hnr hmr hrun hser
    obtain ⟨n, hn, rfl⟩ := h.mem_nodes.mp hn'
    obtain ⟨m, hm, rfl⟩ := h.mem_nodes.mp hm'
    have kn := h.nodeKept n hn
    have km := h.nodeKept m hm
    rw [hc.serial n hn m hm (h.starts n hn hnr) (h.starts m hm hmr)
      (kn.runId.symm.trans (hrun.trans km.runId)) (kn.concurrencyPolicy.symm.trans hser)]
  disjoint := by
    intro n' hn' m' hm' hnr hmr hrun hne
    obtain ⟨n, hn, rfl⟩ := h.mem_nodes.mp hn'
    obtain ⟨m, hm, rfl⟩ := h.mem_nodes.mp hm'
    have kn := h.nodeKept n hn
    have km := h.nodeKept m hm
    rw [kn.resourceKeys, km.resourceKeys]
    exact hc.disjoint n hn m hm (h.starts n hn hnr) (h.starts m hm hmr)
      (kn.runId.symm.trans (hrun.trans km.runId)) fun he => hne (he ▸ rfl)

/-- The claimed node gets along with every node RUNNING in its run. -/
theorem Take.apart_of {row : ReadyRow} {workerId : String} {leaseUntil now : Time}
    (h : Take s s' row workerId leaseUntil now) {m : WorkflowNode} (hm : m ∈ s.nodes)
    (hr : m.status = .running) (hrun : m.runId = row.node.runId) :
    row.node.concurrencyPolicy ≠ .serial ∧ m.concurrencyPolicy ≠ .serial ∧
      List.Disjoint row.node.resourceKeys m.resourceKeys :=
  conflicts_eq_false h.apart (hrun ▸ mem_activeByRun hm hr)

theorem Take.concurrent {row : ReadyRow} {workerId : String} {leaseUntil now : Time}
    (h : Take s s' row workerId leaseUntil now) (hc : Concurrent s) : Concurrent s' where
  room := by
    intro r' hr'
    obtain ⟨r, hr, rfl⟩ := h.mem_runs.mp hr'
    have k := h.runKept r
    have hp := (h.activeByRun_perm r.id).length_eq
    rw [length_activeByRun] at hp
    rw [k.id, hp]
    refine Nat.le_trans ?_ k.maxParallelNodes
    by_cases hid : row.node.runId = r.id
    · rw [if_pos hid, List.length_cons]
      exact hid ▸ h.room r hr hid.symm
    · rw [if_neg hid, length_activeByRun]
      exact hc.room r hr
  serial := by
    intro n hn m hm hnr hmr hrun hser
    rcases h.node_cases.mp hn with rfl | ⟨hn, _⟩ <;> rcases h.node_cases.mp hm with rfl | ⟨hm, _⟩
    · rfl
    · exact absurd hser (h.apart_of hm hmr hrun.symm).1
    · exact absurd hser (h.apart_of hn hnr hrun).2.1
    · exact hc.serial n hn m hm hnr hmr hrun hser
  disjoint := by
    intro n hn m hm hnr hmr hrun hne
    rcases h.node_cases.mp hn with rfl | ⟨hn, _⟩ <;> rcases h.node_cases.mp hm with rfl | ⟨hm, _⟩
    · exact absurd rfl hne
    · exact (h.apart_of hm hmr hrun.symm).2.2
    · exact (h.apart_of hn hnr hrun).2.2.symm
    · exact hc.disjoint n hn m hm hnr hmr hrun hne

theorem Plan.running_old {runId : Uuid} {revision : Nat} {new : List WorkflowNode}
    {links : List WorkflowEdge} {R : WorkflowRun → WorkflowRun} {extra : List WorkflowRun}
    (h : Plan s s' runId revision new links R extra) {n : WorkflowNode} (hn : n ∈ s'.nodes)
    (hr : n.status = .running) : n ∈ s.nodes := by
  refine (h.mem_nodes.mp hn).resolve_right fun hx => ?_
  rcases (h.inserted n hx).2.2 with hst | hst <;> simp [hst] at hr

theorem Plan.runningNodes {runId : Uuid} {revision : Nat} {new : List WorkflowNode}
    {links : List WorkflowEdge} {R : WorkflowRun → WorkflowRun} {extra : List WorkflowRun}
    (h : Plan s s' runId revision new links R extra) (id : Uuid) :
    s'.runningNodes id = s.runningNodes id := by
  have hnone : new.filter (fun n => decide (n.runId = id ∧ n.status = .running)) = [] := by
    refine List.filter_eq_nil_iff.mpr fun n hn hp => ?_
    rcases (h.inserted n hn).2.2 with hst | hst <;> simp [hst] at hp
  unfold Store.runningNodes Table.select
  rw [h.nodes, List.filter_append, hnone, List.append_nil]

theorem Plan.concurrent {runId : Uuid} {revision : Nat} {new : List WorkflowNode}
    {links : List WorkflowEdge} {R : WorkflowRun → WorkflowRun} {extra : List WorkflowRun}
    (h : Plan s s' runId revision new links R extra) (hs : Leased P s) (hc : Concurrent s) :
    Concurrent s' where
  room := by
    intro r' hr'
    rw [h.runningNodes]
    rcases h.mem_runs.mp hr' with ⟨r, hr, rfl⟩ | hx
    · obtain ⟨kid, _, kbud⟩ := h.runKept r hr
      rw [kid, kbud]
      exact hc.room r hr
    · -- nothing runs in a run while it gets a plan
      have hnone : s.runningNodes r'.id = [] := by
        refine List.eq_nil_iff_forall_not_mem.mpr fun n hn => ?_
        obtain ⟨hn, hrun, hst⟩ := mem_runningNodes.mp hn
        obtain ⟨a, ha, hid, _, har⟩ := hs.leased n hn hst
        have harun := (hs.node_of ha hn hid.symm).1.symm.trans (hrun.trans (h.extraRun r' hx))
        exact h.idle a ha harun har
      simp [hnone]
  serial n hn m hm hnr hmr :=
    hc.serial n (h.running_old hn hnr) m (h.running_old hm hmr) hnr hmr
  disjoint n hn m hm hnr hmr :=
    hc.disjoint n (h.running_old hn hnr) m (h.running_old hm hmr) hnr hmr

theorem Moves.concurrent (h : Moves P s s') (hs : Leased P s) (hc : Concurrent s) :
    Concurrent s' := by
  refine (h.invariant (I := fun u => Leased P u ∧ Concurrent u) (fun u v hm hu => ?_) ⟨hs, hc⟩).2
  refine ⟨hm.leased hu.1, ?_⟩
  cases hm with
  | advance h => exact h.concurrent hu.2
  | take h => exact h.concurrent hu.2
  | plan h => exact h.concurrent hu.1 hu.2

end

theorem Reachable.concurrent {σ : Config} (h : Reachable AnyCall σ) : Concurrent σ.store := by
  suffices Sound σ ∧ Concurrent σ.store from this.2
  refine h.invariant (I := fun σ => Sound σ ∧ Concurrent σ.store)
    (fun _ => ⟨⟨.empty _, .empty⟩, ?_⟩)
    fun σ call τ hs _ hstep => ⟨hstep.sound hs.1, ?_⟩
  · exact ⟨fun _ hr => absurd hr (Table.not_mem_empty _),
      fun _ hn => absurd hn (Table.not_mem_empty _), fun _ hn => absurd hn (Table.not_mem_empty _)⟩
  · have hle := (Op.horizon_le call.op call.readings).1
    exact (hstep.moves hs.1).concurrent
      (hs.1.leased.mono fun u hu => (hu.trans hstep.1).trans hle) hs.2

/-- The claim is on a node that was READY and available, in the active plan of
a run that was QUEUED or RUNNING and not paused. -/
def Claimable (s : Store) (now : Time) (c : WorkflowAttemptClaim) : Prop :=
  ∃ n ∈ s.nodes, n.id = c.nodeId ∧ n.runId = c.runId ∧ n.planRevision = c.planRevision ∧
    n.status = .ready ∧ n.availableAt ≤ now ∧
    ∃ r ∈ s.runs, r.id = n.runId ∧ r.activePlanRevision = n.planRevision ∧
      (r.status = .queued ∨ r.status = .running) ∧ r.pauseRequested = false

/-- Whatever `claim_ready` is asked, the nodes it leaves RUNNING respect the
concurrency policy, and it answers with at most `limit` claims on as many
claimable nodes, as the rows stand once the deadlines and leases that are due
have been enforced. -/
theorem concurrency_policy {σ : Config} (h : Reachable AnyCall σ) (workerId : String)
    (leaseUntil : Time) (slots : Slots) (t : Readings) (ht : σ.clock ≤ t.first) :
    Concurrent ((Op.claimReady workerId leaseUntil slots).after t σ.store) ∧
    ∀ claims s', σ.store.claimReady workerId leaseUntil slots t = .ok (claims, s') →
      claims.length ≤ slots.limit ∧ (claims.map WorkflowAttemptClaim.nodeId).Nodup ∧
      ∃ u, (σ.store.expireOverdue t.first).reclaimExpired t.first = .ok u ∧
        ∀ c ∈ claims, Claimable u t.first c := by
  refine ⟨?_, fun claims s' hclaim => ?_⟩
  · have hstep : Step σ ⟨.claimReady workerId leaseUntil slots, t⟩ _ := ⟨ht, rfl⟩
    exact (h.runs (.single trivial hstep)).concurrent
  obtain ⟨hlease, u, hu, hv⟩ := claimReady_ok hclaim
  have hs := h.sound.leased
  have hsu : Leased (· ≤ σ.clock) u := (sweep_moves (Q := (· ≤ σ.clock)) hs hu).leased hs
  obtain ⟨_, hclaims⟩ := claims_rule (I := fun _ _ => True) hsu (fun v hv => hv.trans ht)
    (reclaimExpired_swept hu) hlease (fun _ _ _ _ _ _ _ _ _ => trivial) hv trivial
  refine ⟨?_, ?_, u, hu, fun c hc => ?_⟩
  · rw [hclaims, List.length_map]
    exact Store.selectRows_length
  · rw [hclaims, List.map_map]
    exact Store.selectRows_nodup _ _ _
  · rw [hclaims] at hc
    obtain ⟨row, hrow, rfl⟩ := List.mem_map.mp hc
    obtain ⟨hn, hr, hid, hrev, hready, hav, hst, hpause⟩ :=
      Store.mem_readyRows.mp (Store.mem_readyRows_of_selected hrow)
    exact ⟨row.node, hn, rfl, rfl, rfl, hready, hav, row.run, hr, hid, hrev, hst, hpause⟩

/-- Two readers of one run and a node that runs alone. -/
def readerCalls : List Call :=
  [(Op.create sampleRun
      [sampleNode 1 .parallelRead 1, sampleNode 2 .parallelRead 1, sampleNode 3 .serial 1] []).at 0]

theorem concurrency_policy_readers :
    (((Op.claimReady "worker" 10 (sampleSlots 3)).after (.instant 1)
      (played readerCalls).store).runningNodes 1).length = 2 ∧
    Concurrent ((Op.claimReady "worker" 10 (sampleSlots 3)).after (.instant 1)
      (played readerCalls).store) :=
  ⟨by decide, (concurrency_policy (reachable_played (by decide)) "worker" 10 (sampleSlots 3)
    (.instant 1) (by decide)).1⟩

end Fairy.Workflow
