import Fairy.Workflow.Plans
import Fairy.Workflow.Selection

namespace Fairy.Workflow

open Fairy.Lib

section

variable {P Q : Time → Prop} {s s' : Store}

theorem Moves.of_update_runs {p : WorkflowRun → Prop} [DecidablePred p]
    {f : WorkflowRun → WorkflowRun} {hk : ∀ r, (f r).id = r.id}
    {hc : ∀ r, p r → r.check → (f r).check} (hf : ∀ r, p r → RunKept r (f r)) :
    Moves Q s { s with runs := s.runs.update p f hk hc } := by
  refine .single (.advance (.of_runs rfl rfl rfl rfl fun r _ => ?_))
  split
  · exact hf r ‹_›
  · exact .refl r

theorem stampRun_moves {runId : Uuid} {status : WorkflowRunStatus} {now : Time} :
    Moves Q s (s.stampRun runId status now) := Moves.of_update_runs fun _ _ => ⟨rfl, rfl, le_rfl⟩

theorem setRunStatus_moves {runId : Uuid} {status : WorkflowRunStatus} {now : Time} :
    Moves Q s (s.setRunStatus runId status now) :=
  Moves.of_update_runs fun _ _ => ⟨rfl, rfl, le_rfl⟩

theorem pauseRun_moves {runId : Uuid} {now : Time} : Moves Q s (s.pauseRun runId now) :=
  Moves.of_update_runs fun _ _ => ⟨rfl, rfl, le_rfl⟩

theorem resumeRun_moves {runId : Uuid} {now : Time} : Moves Q s (s.resumeRun runId now) :=
  Moves.of_update_runs fun _ _ => ⟨rfl, rfl, le_rfl⟩

theorem settlePause_moves {runId : Uuid} {now : Time} : Moves Q s (s.settlePause runId now) := by
  unfold Store.settlePause
  split
  · exact .refl
  · exact Moves.of_update_runs fun _ _ => ⟨rfl, rfl, le_rfl⟩

theorem releaseRun_moves {run : WorkflowRun} {next : WorkflowNodeStatus} {errorCode : String}
    {now : Time} : Moves Q s (s.releaseRun run next errorCode now) := by
  unfold Store.releaseRun
  split
  · exact Moves.of_update_runs fun _ _ => ⟨rfl, rfl, le_rfl⟩
  split
  · exact settlePause_moves
  · exact Moves.of_update_runs fun _ _ => ⟨rfl, rfl, le_rfl⟩

theorem wakeNodes_moves {run : WorkflowRun} {now : Time} : Moves Q s (s.wakeNodes run now) := by
  unfold Store.wakeNodes
  split
  · refine .single (.advance (.of_nodes rfl rfl rfl rfl ?_ ?_ ?_ ?_))
    · intro n _
      split <;> exact ⟨rfl, rfl, rfl, rfl, rfl, rfl, rfl⟩
    · intro n _
      split
      · rename_i h
        exact ⟨nofun, fun hr => by simp [hr, WorkflowNodeStatus.waiting] at h⟩
      · rfl
    · intro n _ hs
      rwa [if_neg fun h => by simp [hs, WorkflowNodeStatus.waiting] at h]
    · -- a waiting node got past its dependencies before it waited
      intro n _ hs
      split at hs
      · rename_i h
        refine .inl ?_
        cases hn : n.status <;> simp_all [WorkflowNodeStatus.waiting, WorkflowNodeStatus.started]
      · exact .inl hs
  · exact .refl

/-- The promotion of a target whose sources all SUCCEEDED unblocks it. -/
theorem promoteTarget_moves {runId : Uuid} {revision : Nat} {now : Time} {target : Uuid}
    (hl : Linked s) (ht : ∃ e ∈ s.edges, e.runId = runId ∧ e.planRevision = revision ∧
      e.toNodeId = target) : Moves Q s (Store.promoteTarget runId revision now s target) := by
  unfold Store.promoteTarget
  dsimp only
  split
  · rename_i hst
    refine .single (.advance (.of_nodes rfl rfl rfl rfl ?_ ?_ ?_ ?_))
    · intro n _
      split <;> exact ⟨rfl, rfl, rfl, rfl, rfl, rfl, rfl⟩
    · intro n _
      split
      · rename_i hn
        simp [hn.2]
      · rfl
    · intro n _ hsuc
      rwa [if_neg fun hn => by simp [hn.2] at hsuc]
    · intro n _ hstart
      split at hstart
      · rename_i hn
        refine .inr fun e he hto m hm hid => hst.2 _ (List.mem_filterMap.mpr ⟨e, ?_, ?_⟩)
        · -- every edge into the target is of the target's own plan
          obtain ⟨e₀, he₀, hrun, hrev, hto₀⟩ := ht
          obtain ⟨k, hk, hkid, hkrun, hkrev⟩ := hl.target e he
          obtain ⟨k₀, hk₀, hkid₀, hkrun₀, hkrev₀⟩ := hl.target e₀ he₀
          obtain rfl := Table.eq_of_key hk hk₀
            (hkid.trans (hto.trans (hn.1.trans (hto₀.symm.trans hkid₀.symm))))
          exact Table.mem_select.mpr ⟨he, hkrun.symm.trans (hkrun₀.trans hrun),
            hkrev.symm.trans (hkrev₀.trans hrev), hto.trans hn.1⟩
        · rw [Table.find?_eq_some.mpr ⟨hm, hid⟩]
          rfl
      · exact .inl hstart
  · exact .refl

theorem promoteDependents_moves {runId : Uuid} {revision : Nat} {now : Time} (hl : Linked s) :
    Moves Q s (s.promoteDependents runId revision now) := by
  let I := fun (l : List Uuid) (u : Store) => Moves Q s u ∧
    ∀ x ∈ l, ∃ e ∈ u.edges, e.runId = runId ∧ e.planRevision = revision ∧ e.toNodeId = x
  suffices I [] (s.promoteDependents runId revision now) from this.1
  refine foldl_rule (I := I) (fun x l u hu => ?_) ⟨.refl, fun x hx => ?_⟩
  · have hm : Moves Q u (Store.promoteTarget runId revision now u x) :=
      promoteTarget_moves (hu.1.linked hl) (hu.2 x List.mem_cons_self)
    have he : (Store.promoteTarget runId revision now u x).edges = u.edges := by
      unfold Store.promoteTarget
      dsimp only
      split <;> rfl
    exact ⟨hu.1.trans hm, fun y hy => he ▸ hu.2 y (List.mem_cons_of_mem x hy)⟩
  · rw [List.mem_dedup, List.mem_map] at hx
    obtain ⟨e, he, rfl⟩ := hx
    rw [Table.mem_select] at he
    exact ⟨e, he.1, he.2.1, he.2.2, rfl⟩

/-- The closing of one attempt with its node. The attempt may escape only with
a lease that ends in `Q`. -/
theorem Moves.of_close_one (hs : Leased P s) {b : WorkflowAttempt} (hb : b ∈ s.attempts)
    (hbr : b.status = .running) {p : WorkflowAttempt → Prop} [DecidablePred p]
    {f : WorkflowAttempt → WorkflowAttempt} {g : WorkflowNode → WorkflowNode}
    (hA : s'.attempts.rows = s.attempts.rows.map fun a => if p a then f a else a)
    (hN : s'.nodes.rows = s.nodes.rows.map fun n => if RunningNode b.nodeId n then g n else n)
    (hR : s'.runs = s.runs) (hE : s'.edges = s.edges)
    (hp : ∀ a ∈ s.attempts, p a → a = b) (hq : ¬ p b → b.Ends Q)
    (hf : ∀ a, AttemptKept a (f a) ∧ (f a).status ≠ .running)
    (hg : ∀ n, NodeKept n (g n) ∧ (g n).status ≠ .running)
    (hsuc : (f b).status = .succeeded →
      (∀ n ∈ s.nodes, n.id = b.nodeId → n.status = .running) ∧ ∀ n, (g n).status = .succeeded) :
    Moves Q s s' := by
  have hstay : ∀ a ∈ s.attempts, a.nodeId = b.nodeId → a.status = .running → a = b :=
    fun a ha hid har => hs.unique ha hb hid har hbr
  have hR' : s'.runs.rows = s.runs.rows.map id := by rw [hR, List.map_id]
  refine .single (.advance (.of_close hA hN hR' hE ?_ ?_ (fun r _ => .refl r) ?_ ?_ ?_ ?_ ?_ ?_))
  · intro a ha
    by_cases hpa : p a
    · obtain rfl := hp a ha hpa
      simp only [if_pos hpa]
      exact .inr ⟨hbr, (hf a).2, (hf a).1⟩
    · exact .inl (if_neg hpa)
  · intro n _
    split
    · exact (hg n).1
    · exact .refl n
  · intro n _ hr
    split at hr
    · exact absurd hr (hg n).2
    · exact hr
  · intro n _ hns
    rwa [if_neg fun hn => absurd (hn.2.symm.trans hns) (by decide)]
  · intro a ha n hn hid hnr har hA'
    by_cases hnb : n.id = b.nodeId
    · obtain rfl := hstay a ha (hid.symm.trans hnb) har
      refine .inr (hq fun hpa => (hf a).2 ?_)
      rw [if_pos hpa] at hA'
      rw [hA', har]
    · rw [if_neg fun hx => hnb hx.1]
      exact .inl hnr
  · intro a ha n hn hid har hnr
    refine if_neg fun hpa => ?_
    obtain rfl := hp a ha hpa
    by_cases hnrun : n.status = .running
    · rw [if_pos ⟨hid, hnrun⟩] at hnr
      exact (hg n).2 hnr
    · rw [if_neg fun hx => hnrun hx.2] at hnr
      exact hnrun hnr
  · intro a ha n hn hid har hsa
    by_cases hpa : p a
    · obtain rfl := hp a ha hpa
      rw [if_pos hpa] at hsa
      obtain ⟨hrun, hgs⟩ := hsuc hsa
      rw [if_pos ⟨hid, hrun n hn hid⟩]
      exact hgs n
    · rw [if_neg hpa] at hsa
      exact absurd (har.symm.trans hsa) (by decide)
  · intro n _ hst
    split at hst
    · rename_i hn
      exact .inl (by rw [hn.2]; rfl)
    · exact .inl hst

/-- A settlement of the claimed attempt with its node. It leaves the attempt
RUNNING only when its lease ends between the two readings. -/
theorem Claimed.settle_moves {c : WorkflowAttemptClaim} {guard live : Time} {a : WorkflowAttempt}
    {n : WorkflowNode} {r : WorkflowRun} (hs : Leased P s) (hc : Claimed s c guard a n r)
    {f : WorkflowAttempt → WorkflowAttempt} {g : WorkflowNode → WorkflowNode}
    (hA : s'.attempts.rows =
      s.attempts.rows.map fun a => if LiveClaimPredicates c live a then f a else a)
    (hN : s'.nodes.rows = s.nodes.rows.map fun n => if RunningNode c.nodeId n then g n else n)
    (hR : s'.runs = s.runs) (hE : s'.edges = s.edges)
    (hq : ∀ u, a.leaseUntil = some u → guard < u → u ≤ live → Q u)
    (hf : ∀ a, AttemptKept a (f a) ∧ (f a).status ≠ .running)
    (hg : ∀ n, NodeKept n (g n) ∧ (g n).status ≠ .running)
    (hsuc : (f a).status = .succeeded → ∀ n, (g n).status = .succeeded) : Moves Q s s' := by
  have hid : a.nodeId = c.nodeId := hc.predicates.1
  refine Moves.of_close_one hs hc.attempt hc.predicates.running hA (hid ▸ hN) hR hE ?_ ?_ hf hg ?_
  · intro b hb hp
    exact hs.unique hb hc.attempt (hp.1.1.trans hid.symm) hp.1.running hc.predicates.running
  · intro hp
    obtain ⟨u, hu, hlt⟩ := live_iff.mp hc.live
    refine ⟨u, hu, hq u hu hlt (Nat.le_of_not_lt fun hl => hp ⟨hc.predicates, ?_⟩)⟩
    exact live_iff.mpr ⟨u, hu, hl⟩
  · intro hfs
    refine ⟨fun m hm hmid => ?_, hsuc hfs⟩
    obtain rfl := Table.eq_of_key hm hc.node (hmid.trans (hid.trans hc.nodeId.symm))
    exact hc.nodeRunning

/-- The closing of a whole run: its RUNNING attempts, but for one whose lease
ends in `Q`, and its unfinished nodes. -/
theorem Moves.of_close_run (hs : Leased P s) (runId : Uuid) {A : WorkflowAttempt → WorkflowAttempt}
    {N : WorkflowNode → WorkflowNode} {R : WorkflowRun → WorkflowRun}
    (hA : s'.attempts.rows = s.attempts.rows.map A) (hN : s'.nodes.rows = s.nodes.rows.map N)
    (hR : s'.runs.rows = s.runs.rows.map R) (hE : s'.edges = s.edges)
    (hclose : ∀ a ∈ s.attempts, A a = a ∨ (a.runId = runId ∧ a.status = .running ∧
      AttemptKept a (A a) ∧ (A a).status ≠ .running ∧ (A a).status ≠ .succeeded))
    (hopen : ∀ a ∈ s.attempts, a.runId = runId → a.status = .running → A a = a → a.Ends Q)
    (hnode : ∀ n ∈ s.nodes, NodeKept n (N n) ∧ (n.runId ≠ runId → N n = n) ∧
      (n.runId = runId → (N n).status = n.status ∧ n.status ≠ .running ∨
        n.status ≠ .succeeded ∧ (N n).status.started = false))
    (hrun : ∀ r ∈ s.runs, RunKept r (R r)) : Moves Q s s' := by
  have hout : ∀ n ∈ s.nodes, (N n).status = .running → n.runId ≠ runId := by
    intro n hn hr hid
    rcases (hnode n hn).2.2 hid with ⟨he, hne⟩ | ⟨_, hst⟩
    · exact hne (he ▸ hr)
    · rw [hr] at hst
      cases hst
  refine .single (.advance (.of_close hA hN hR hE ?_ (fun n hn => (hnode n hn).1) hrun
    ?_ ?_ ?_ ?_ ?_ ?_))
  · exact fun a ha => (hclose a ha).imp_right fun h => ⟨h.2.1, h.2.2.2.1, h.2.2.1⟩
  · intro n hn hr
    rwa [(hnode n hn).2.1 (hout n hn hr)] at hr
  · intro n hn hns
    by_cases hid : n.runId = runId
    · rcases (hnode n hn).2.2 hid with ⟨he, _⟩ | ⟨hne, _⟩
      · rw [he, hns]
      · exact absurd hns hne
    · rw [(hnode n hn).2.1 hid, hns]
  · intro a ha n hn hid hnr har hA'
    have hrun' := (hs.node_of ha hn hid).1
    by_cases hr : a.runId = runId
    · exact .inr (hopen a ha hr har hA')
    · rw [(hnode n hn).2.1 (hrun'.trans_ne hr)]
      exact .inl hnr
  · intro a ha n hn hid _ hnr
    rcases hclose a ha with h | h
    · exact h
    · exact absurd ((hs.node_of ha hn hid).1.trans h.1) (hout n hn hnr)
  · intro a ha n hn _ har hsa
    rcases hclose a ha with h | h
    · exact absurd (har.symm.trans (h ▸ hsa)) (by decide)
    · exact absurd hsa h.2.2.2.2
  · intro n hn hst
    by_cases hid : n.runId = runId
    · rcases (hnode n hn).2.2 hid with ⟨he, _⟩ | ⟨_, hf⟩
      · exact .inl (he ▸ hst)
      · rw [hf] at hst
        cases hst
    · rw [(hnode n hn).2.1 hid] at hst
      exact .inl hst

theorem cancelRun_moves (hs : Leased P s) {runId : Uuid} {now : Time} :
    Moves Q s (s.cancelRun runId now) := by
  refine Moves.of_close_run hs runId rfl rfl rfl rfl ?_ ?_ ?_ ?_
  · intro a _
    split
    · rename_i h
      exact .inr ⟨h.1, h.2.1, ⟨rfl, rfl, rfl, rfl, rfl⟩, nofun, nofun⟩
    · exact .inl rfl
  · intro a _ hr har hA
    rw [if_pos ⟨hr, har, nofun⟩] at hA
    have hst := congrArg WorkflowAttempt.status hA
    exact absurd (hst.trans har) nofun
  · intro n _
    split
    · rename_i h
      exact ⟨⟨rfl, rfl, rfl, rfl, rfl, rfl, rfl⟩, fun hne => absurd h.1 hne,
        fun _ => .inr ⟨fun hs => by simp [hs, WorkflowNodeStatus.terminal] at h, rfl⟩⟩
    · rename_i h
      refine ⟨.refl n, fun _ => rfl, fun hid => .inl ⟨rfl, fun hr => h ⟨hid, by rw [hr]; rfl⟩⟩⟩
  · intro r _
    split <;> exact ⟨rfl, rfl, le_rfl⟩

theorem closeOverdue_moves (hs : Leased P s) {run : WorkflowRun} {now : Time} :
    Moves Q s (s.closeOverdue run now) := by
  refine Moves.of_close_run hs run.id rfl rfl rfl rfl ?_ ?_ ?_ ?_
  · intro a _
    split
    · rename_i h
      exact .inr ⟨h.1, h.2, ⟨rfl, rfl, rfl, rfl, rfl⟩, nofun, nofun⟩
    · exact .inl rfl
  · intro a _ hr har hA
    rw [if_pos ⟨hr, har⟩] at hA
    have hst := congrArg WorkflowAttempt.status hA
    exact absurd (hst.trans har) nofun
  · intro n _
    split
    · rename_i h
      exact ⟨⟨rfl, rfl, rfl, rfl, rfl, rfl, rfl⟩, fun hne => absurd h.1 hne,
        fun _ => .inr ⟨fun hs => by simp [hs, WorkflowNodeStatus.terminal] at h, rfl⟩⟩
    · rename_i h
      refine ⟨.refl n, fun _ => rfl, fun hid => .inl ⟨rfl, fun hr => h ⟨hid, by rw [hr]; rfl⟩⟩⟩
  · intro r _
    split <;> exact ⟨rfl, rfl, le_rfl⟩

theorem Claimed.failClaim_moves {c : WorkflowAttemptClaim} {guard now live : Time}
    {a : WorkflowAttempt} {n : WorkflowNode} {r : WorkflowRun} (hs : Leased P s)
    (hc : Claimed s c guard a n r) {errorCode : String}
    (hq : ∀ u, a.leaseUntil = some u → guard < u → u ≤ live → Q u) :
    Moves Q s (s.failClaim c errorCode now live) := by
  have hid : a.nodeId = c.nodeId := hc.predicates.1
  have hrun : a.runId = c.runId := hc.predicates.2.2.1
  have hnode : n.runId = c.runId :=
    (hs.node_of hc.attempt hc.node (hc.nodeId.trans hid.symm)).1.trans hrun
  refine Moves.of_close_run hs c.runId List.map_map List.map_map rfl rfl ?_ ?_ ?_ ?_
  · intro b hb
    by_cases hlive : LiveClaimPredicates c live b
    · refine .inr ⟨hlive.1.2.2.1, hlive.1.running, ?_⟩
      simp only [Function.comp_apply, if_pos hlive]
      rw [if_neg fun h => absurd h.2.1 nofun]
      exact ⟨⟨rfl, rfl, rfl, rfl, rfl⟩, nofun, nofun⟩
    · simp only [Function.comp_apply, if_neg hlive]
      split
      · rename_i h
        exact .inr ⟨h.1, h.2.1, ⟨rfl, rfl, rfl, rfl, rfl⟩, nofun, nofun⟩
      · exact .inl rfl
  · intro b hb hbrun hbr hA
    have hst := congrArg WorkflowAttempt.status hA
    by_cases hlive : LiveClaimPredicates c live b
    · simp only [Function.comp_apply, if_pos hlive] at hst
      rw [if_neg fun h => absurd h.2.1 nofun] at hst
      exact absurd (hst.trans hbr) nofun
    · simp only [Function.comp_apply, if_neg hlive] at hst
      split at hst
      · exact absurd (hst.trans hbr) nofun
      · rename_i h
        have hbid : b.nodeId = c.nodeId := by
          by_contra hne
          exact h ⟨hbrun, hbr, fun he => hne (Option.some.inj he)⟩
        obtain rfl := hs.unique hb hc.attempt (hbid.trans hid.symm) hbr hc.predicates.running
        obtain ⟨u, hu, hlt⟩ := live_iff.mp hc.live
        refine ⟨u, hu, hq u hu hlt (Nat.le_of_not_lt fun hl => hlive ⟨hc.predicates, ?_⟩)⟩
        exact live_iff.mpr ⟨u, hu, hl⟩
  · intro m hm
    by_cases hmid : m.id = c.nodeId
    · obtain rfl := Table.eq_of_key hm hc.node (hmid.trans hc.nodeId.symm)
      have hw : m.runId = c.runId ∧ (m.status = .pending ∨ m.status = .ready ∨
          m.status = .running ∨ m.status.waiting = true) :=
        ⟨hnode, .inr (.inr (.inl hc.nodeRunning))⟩
      simp only [Function.comp_apply, if_pos hw, if_pos hmid]
      exact ⟨⟨rfl, rfl, rfl, rfl, rfl, rfl, rfl⟩, fun hne => absurd hnode hne,
        fun _ => .inr ⟨fun h => absurd (hc.nodeRunning.symm.trans h) (by decide), rfl⟩⟩
    · by_cases hw : m.runId = c.runId ∧ (m.status = .pending ∨ m.status = .ready ∨
          m.status = .running ∨ m.status.waiting = true)
      · simp only [Function.comp_apply, if_pos hw, if_neg hmid]
        refine ⟨⟨rfl, rfl, rfl, rfl, rfl, rfl, rfl⟩, fun hne => absurd hw.1 hne,
          fun _ => .inr ⟨fun h => ?_, rfl⟩⟩
        simp [h, WorkflowNodeStatus.waiting] at hw
      · simp only [Function.comp_apply, if_neg hw, if_neg hmid]
        exact ⟨.refl m, fun _ => trivial,
          fun hr => .inl ⟨trivial, fun h => hw ⟨hr, .inr (.inr (.inl h))⟩⟩⟩
  · intro m _
    split <;> exact ⟨rfl, rfl, le_rfl⟩

theorem Claimed.completeClaim_moves {c : WorkflowAttemptClaim} {guard now live : Time}
    {a : WorkflowAttempt} {n : WorkflowNode} {r : WorkflowRun} (hs : Leased P s)
    (hc : Claimed s c guard a n r) {result : Payload} {refs : List String} {summary : Option String}
    (hq : ∀ u, a.leaseUntil = some u → guard < u → u ≤ live → Q u) :
    Moves Q s (s.completeClaim c result refs summary now live) :=
  hc.settle_moves hs rfl rfl rfl rfl hq (fun _ => ⟨⟨rfl, rfl, rfl, rfl, rfl⟩, nofun⟩)
    (fun _ => ⟨⟨rfl, rfl, rfl, rfl, rfl, rfl, rfl⟩, nofun⟩) fun _ _ => rfl

theorem Claimed.complete_moves {c : WorkflowAttemptClaim} {guard now live : Time}
    {a : WorkflowAttempt} {n : WorkflowNode} {r : WorkflowRun} (hs : Leased P s) (hl : Linked s)
    (hc : Claimed s c guard a n r) {result : Payload} {refs : List String} {summary : Option String}
    (hq : ∀ u, a.leaseUntil = some u → guard < u → u ≤ live → Q u) :
    Moves Q s ((s.completeClaim c result refs summary now live).promoteDependents c.runId
      c.planRevision now) := by
  have hm : Moves Q s (s.completeClaim c result refs summary now live) :=
    hc.completeClaim_moves hs hq
  exact hm.trans (promoteDependents_moves (hm.linked hl))

theorem Claimed.retryClaim_moves {c : WorkflowAttemptClaim} {guard instant now live : Time}
    {a : WorkflowAttempt} {n : WorkflowNode} {r : WorkflowRun} (hs : Leased P s)
    (hc : Claimed s c guard a n r) {errorCode : String}
    (hq : ∀ u, a.leaseUntil = some u → guard < u → u ≤ live → Q u) :
    Moves Q s (s.retryClaim c instant errorCode now live) := by
  have hm : Moves Q s { s.settleAttempt c errorCode now live with
      nodes := (s.retryClaim c instant errorCode now live).nodes } :=
    hc.settle_moves hs rfl rfl rfl rfl hq (fun _ => ⟨⟨rfl, rfl, rfl, rfl, rfl⟩, nofun⟩)
      (fun _ => ⟨⟨rfl, rfl, rfl, rfl, rfl, rfl, rfl⟩, nofun⟩) nofun
  exact hm.trans setRunStatus_moves

theorem Claimed.deferClaim_moves {c : WorkflowAttemptClaim} {guard instant now live : Time}
    {a : WorkflowAttempt} {n : WorkflowNode} {r : WorkflowRun} (hs : Leased P s)
    (hc : Claimed s c guard a n r) {result : Payload}
    (hq : ∀ u, a.leaseUntil = some u → guard < u → u ≤ live → Q u) :
    Moves Q s (s.deferClaim c instant result now live) := by
  have hm : Moves Q s { s.suspendAttempt c result now live with
      nodes := (s.deferClaim c instant result now live).nodes } :=
    hc.settle_moves hs rfl rfl rfl rfl hq (fun _ => ⟨⟨rfl, rfl, rfl, rfl, rfl⟩, nofun⟩)
      (fun _ => ⟨⟨rfl, rfl, rfl, rfl, rfl, rfl, rfl⟩, nofun⟩) nofun
  exact hm.trans setRunStatus_moves

theorem Claimed.waitClaim_moves {c : WorkflowAttemptClaim} {guard now live : Time}
    {a : WorkflowAttempt} {n : WorkflowNode} {r : WorkflowRun} (hs : Leased P s)
    (hc : Claimed s c guard a n r) {nodeStatus : WorkflowNodeStatus}
    (hw : nodeStatus ≠ .running) {runStatus : WorkflowRunStatus} {result : Payload}
    (hq : ∀ u, a.leaseUntil = some u → guard < u → u ≤ live → Q u) :
    Moves Q s (Store.waitClaim nodeStatus runStatus s c result now live) := by
  have hm : Moves Q s { s.suspendAttempt c result now live with
      nodes := (Store.waitClaim nodeStatus runStatus s c result now live).nodes } :=
    hc.settle_moves hs rfl rfl rfl rfl hq (fun _ => ⟨⟨rfl, rfl, rfl, rfl, rfl⟩, nofun⟩)
      (fun _ => ⟨⟨rfl, rfl, rfl, rfl, rfl, rfl, rfl⟩, hw⟩) nofun
  exact hm.trans setRunStatus_moves

theorem releasedStatus_ne {run : WorkflowRun} {node : WorkflowNode} :
    Store.releasedStatus run node ≠ .running := by
  unfold Store.releasedStatus
  split
  · exact nofun
  split <;> exact nofun

/-- The closing of a lost attempt, with the release of its node and its run. -/
theorem release_moves (hs : Leased P s) {b : WorkflowAttempt} (hb : b ∈ s.attempts)
    (hbr : b.status = .running) {p : WorkflowAttempt → Prop} [DecidablePred p]
    {f : WorkflowAttempt → WorkflowAttempt} {u : Store} {run : WorkflowRun} {node : WorkflowNode}
    {errorCode : String} {now : Time}
    (hA : u.attempts.rows = s.attempts.rows.map fun a => if p a then f a else a)
    (hN : u.nodes = s.nodes) (hR : u.runs = s.runs) (hE : u.edges = s.edges)
    (hnode : node.id = b.nodeId) (hp : ∀ a ∈ s.attempts, p a ↔ a = b)
    (hf : ∀ a, AttemptKept a (f a) ∧ (f a).status = .abandoned) :
    Moves Q s (u.release run node errorCode now) := by
  have hclose :
      Moves Q s (u.releaseNode node.id (Store.releasedStatus run node) errorCode now) := by
    refine Moves.of_close_one hs hb hbr hA
      (g := (·.released (Store.releasedStatus run node) errorCode now)) ?_ hR hE
      (fun a ha => (hp a ha).mp) (fun h => absurd ((hp b hb).mpr rfl) h)
      (fun a => ⟨(hf a).1, (hf a).2 ▸ nofun⟩)
      (fun n => ⟨⟨rfl, rfl, rfl, rfl, rfl, rfl, rfl⟩, releasedStatus_ne⟩)
      fun h => absurd ((hf b).2.symm.trans h) (by decide)
    rw [← hN, ← hnode]
    rfl
  exact hclose.trans releaseRun_moves

theorem abandon_moves (hs : Leased P s) {c : WorkflowAttemptClaim} {b : WorkflowAttempt}
    (hb : b ∈ s.attempts) (hp : ClaimPredicates c b) {run : WorkflowRun} {node : WorkflowNode}
    (hnode : node.id = c.nodeId) {now : Time} :
    Moves Q s ((s.abandonAttempt c now).release run node "WORKER_INTERRUPTED" now) := by
  refine release_moves hs hb hp.running rfl rfl rfl rfl (hnode.trans hp.1.symm) (fun a ha => ?_)
    fun _ => ⟨⟨rfl, rfl, rfl, rfl, rfl⟩, rfl⟩
  constructor
  · exact fun h => Table.eq_of_key ha hb (Prod.ext (h.1.trans hp.1.symm) (h.2.1.trans hp.2.1.symm))
  · rintro rfl
    exact hp

end

end Fairy.Workflow
