import Fairy.Workflow.Orderly

namespace Fairy.Workflow

open Fairy.Lib

/-- Where an unfinished run stands: its plan is orderly, and its status says how
it goes on. -/
structure Alive (s : Store) (r : WorkflowRun) : Prop where
  orderly : Orderly s r.id r.activePlanRevision
  queued : r.status = .queued → ∃ n ∈ s.nodes, r.Current n ∧ n.status = .ready
  running : r.status = .running → s.hasRunningAttempt r.id = true
  waiting : r.status = .waitingForApproval ∨ r.status = .waitingForInput →
    ∃ n ∈ s.nodes, r.Current n ∧ n.status.waiting = true

/-- Every unfinished run can go on. -/
def Flowing (s : Store) : Prop := ∀ r ∈ s.runs, r.status.terminal = false → Alive s r

section

variable {P : Time → Prop} {s s' u : Store} {id : Uuid} {now : Time} {r : WorkflowRun}

theorem Alive.of_queued (hst : r.status = .queued) (ho : Orderly s r.id r.activePlanRevision)
    (hn : ∃ n ∈ s.nodes, r.Current n ∧ n.status = .ready) : Alive s r :=
  ⟨ho, fun _ => hn, by simp [hst], by simp [hst]⟩

theorem Alive.of_running (hst : r.status = .running) (ho : Orderly s r.id r.activePlanRevision)
    (ha : s.hasRunningAttempt r.id = true) : Alive s r :=
  ⟨ho, by simp [hst], fun _ => ha, by simp [hst]⟩

theorem Alive.of_waiting (hst : r.status = .waitingForApproval ∨ r.status = .waitingForInput)
    (ho : Orderly s r.id r.activePlanRevision)
    (hn : ∃ n ∈ s.nodes, r.Current n ∧ n.status.waiting = true) : Alive s r := by
  refine ⟨ho, fun h => ?_, fun h => ?_, fun _ => hn⟩
  · simp [h] at hst
  · simp [h] at hst

theorem Alive.of_paused (hst : r.status = .paused) (ho : Orderly s r.id r.activePlanRevision) :
    Alive s r :=
  ⟨ho, by simp [hst], by simp [hst], by simp [hst]⟩

theorem Orderly.of_confined {revision : Nat} {runId : Uuid} (h : Orderly s runId revision)
    (hc : Confined id s s') (hne : runId ≠ id) : Orderly s' runId revision where
  done n hn hrun := h.done n ((hc.nodes n (hrun.trans_ne hne)).mp hn) hrun
  blocked n hn hrun hrev hst := by
    obtain ⟨e, he, herun, herev, hto, m, hm, hid, hmrun, hm'⟩ :=
      h.blocked n ((hc.nodes n (hrun.trans_ne hne)).mp hn) hrun hrev hst
    exact ⟨e, (hc.edges e (herun.trans_ne hne)).mpr he, herun, herev, hto, m,
      (hc.nodes m (hmrun.trans_ne hne)).mpr hm, hid, hmrun, hm'⟩
  ranked := by
    obtain ⟨rank, hrank⟩ := h.ranked
    exact ⟨rank, fun e he herun => hrank e ((hc.edges e (herun.trans_ne hne)).mp he) herun⟩

theorem Alive.of_confined (h : Alive s r) (hc : Confined id s s') (hne : r.id ≠ id) :
    Alive s' r where
  orderly := h.orderly.of_confined hc hne
  queued hst := by
    obtain ⟨n, hn, hcur, hnst⟩ := h.queued hst
    exact ⟨n, (hc.nodes n (hcur.1.trans_ne hne)).mpr hn, hcur, hnst⟩
  running hst := by
    rw [hc.hasRunningAttempt hne]
    exact h.running hst
  waiting hst := by
    obtain ⟨n, hn, hcur, hnst⟩ := h.waiting hst
    exact ⟨n, (hc.nodes n (hcur.1.trans_ne hne)).mpr hn, hcur, hnst⟩

/-- A change to one run leaves the others as they were. -/
theorem Flowing.of_confined (h : Flowing s) (hc : Confined id s s')
    (hr : ∀ r ∈ s'.runs, r.id = id → r.status.terminal = false → Alive s' r) : Flowing s' := by
  intro r hrs ht
  by_cases hid : r.id = id
  · exact hr r hrs hid ht
  · exact (h r ((hc.runs r hid).mp hrs) ht).of_confined hc hid

/-- A run that ends needs nothing to go on. -/
theorem Flowing.of_ended (h : Flowing s) (hc : Confined id s s')
    (hr : ∀ r ∈ s'.runs, r.id = id → r.status.terminal = true) : Flowing s' := by
  refine h.of_confined hc fun r hrs hid ht => ?_
  rw [hr r hrs hid] at ht
  cases ht

theorem Alive.of_same (h : Alive s r) (hN : s'.nodes = s.nodes) (hE : s'.edges = s.edges)
    (hA : ∀ runId, s'.hasRunningAttempt runId = s.hasRunningAttempt runId) : Alive s' r :=
  ⟨h.orderly.of_same hN hE, hN ▸ h.queued, fun hst => (hA r.id).trans (h.running hst),
    hN ▸ h.waiting⟩

theorem Alive.of_kept (h : Alive s r) {q : WorkflowRun} (hk : RunKept r q)
    (hst : q.status = r.status) : Alive s q where
  orderly := by
    rw [hk.id, hk.activePlanRevision]
    exact h.orderly
  queued hq := by
    obtain ⟨n, hn, hcur, hnst⟩ := h.queued (hst ▸ hq)
    exact ⟨n, hn, ⟨hcur.1.trans hk.id.symm, hcur.2.trans hk.activePlanRevision.symm⟩, hnst⟩
  running hq := by
    rw [hk.id]
    exact h.running (hst ▸ hq)
  waiting hq := by
    obtain ⟨n, hn, hcur, hnst⟩ := h.waiting (hst ▸ hq)
    exact ⟨n, hn, ⟨hcur.1.trans hk.id.symm, hcur.2.trans hk.activePlanRevision.symm⟩, hnst⟩

theorem Flowing.of_same (h : Flowing s) (hR : s'.runs = s.runs) (hN : s'.nodes = s.nodes)
    (hE : s'.edges = s.edges)
    (hA : ∀ runId, s'.hasRunningAttempt runId = s.hasRunningAttempt runId) : Flowing s' :=
  fun r hr ht => (h r (hR ▸ hr) ht).of_same hN hE hA

theorem Flowing.closeOverdue (h : Flowing s) : Flowing (s.closeOverdue r now) := by
  refine h.of_confined closeOverdue_confined fun q hq hid ht => ?_
  obtain ⟨_, _, _, rfl⟩ | ⟨_, hp⟩ := Table.update_cases rfl hq
  · cases ht
  · exact absurd ⟨hid, ht⟩ hp

/-- The node of a lost attempt is READY again, unless its run ends. -/
theorem Flowing.release (h : Flowing s) (hs : Leased (fun _ => False) s) {b : WorkflowAttempt}
    (hd : Dropped s u b) {node : WorkflowNode} {errorCode : String} (hn : node ∈ s.nodes)
    (hnid : node.id = b.nodeId) (hr : r ∈ s.runs) (hid : r.id = b.runId) :
    Flowing (u.release r node errorCode now) := by
  obtain ⟨hrun, hrev, _⟩ := hs.node_of hd.attempt hn hnid
  have hc : Confined r.id s (u.release r node errorCode now) :=
    (hid ▸ hd.confined).trans (release_confined (hd.nodes ▸ hn) (hrun.trans hid.symm))
  have hnrun : node.status = .running :=
    (hs.held b hd.attempt node hn hnid hd.running).resolve_right fun ⟨_, _, hf⟩ => hf
  have hcur : r.Current node :=
    ⟨hrun.trans hid.symm, hrev.trans (hs.active b hd.attempt hd.running r hr hid)⟩
  have hN : (u.release r node errorCode now).nodes.rows = s.nodes.rows.map fun n =>
      if RunningNode node.id n then
        n.released (Store.releasedStatus r node) errorCode now else n := by
    rw [release_nodes, ← hd.nodes]
    rfl
  have hready : r.status.terminal = false → node.attemptCount < node.maxAttempts →
      Orderly (u.release r node errorCode now) r.id r.activePlanRevision ∧
        ∃ n ∈ (u.release r node errorCode now).nodes, r.Current n ∧ n.status = .ready := by
    intro ht hx
    have hnext : Store.releasedStatus r node = .ready := by simp [Store.releasedStatus, ht, hx]
    rw [hnext] at hN
    refine ⟨(h r hr ht).orderly.of_update hN (release_edges.trans hd.edges)
      (fun _ => ⟨rfl, rfl, rfl⟩) fun _ _ _ => rfl, ?_⟩
    exact ⟨_, Table.mem_update_of hN hn ⟨rfl, hnrun⟩, hcur, rfl⟩
  refine h.of_confined hc fun q hq hqid hqt => ?_
  cases release_runs (hd.runs ▸ hr) hq hqid with
  | ended ht => exact absurd (ht.symm.trans hqt) (by decide)
  | failed => cases hqt
  | busy ht hx hp hb =>
    obtain ⟨ho, hready⟩ := hready ht hx
    refine ⟨ho, fun _ => hready, fun _ => ?_, fun hst => ?_⟩
    · unfold Store.hasRunningAttempt at hb ⊢
      rwa [release_attempts]
    · obtain ⟨m, hm, hmcur, hw⟩ := (h r hr ht).waiting hst
      refine ⟨m, Table.mem_update_of_not hN hm fun hp => ?_, hmcur, hw⟩
      rw [hp.2] at hw
      cases hw
  | paused ht hx => exact .of_paused rfl (hready ht hx).1
  | queued ht hx => exact .of_queued rfl (hready ht hx).1 (hready ht hx).2

theorem Flowing.take {row : ReadyRow} {workerId : String} {leaseUntil : Time} (h : Flowing s)
    (htake : Take s s' row workerId leaseUntil now) : Flowing s' := by
  refine h.of_confined htake.confined fun q hq hid _ => ?_
  obtain ⟨r₀, hr₀, ht₀, hrev₀, _⟩ := htake.run
  obtain ⟨k, hk, ht, rfl⟩ | ⟨hq, hne⟩ := Table.update_cases htake.runs hq
  · have hopen : k.status.terminal = false := by
      obtain hst | hst := ht.2 <;> rw [hst] <;> rfl
    refine .of_running rfl ?_ (hasRunningAttempt_iff.mpr ?_)
    · exact (h k hk hopen).orderly.of_update htake.nodes htake.edges (fun _ => ⟨rfl, rfl, rfl⟩)
        fun _ _ _ => rfl
    · exact ⟨_, htake.mem_attempts.mpr (.inr rfl), hid.symm, rfl⟩
  · rw [Table.eq_of_key hq hr₀ (hid.trans ht₀.1.symm)] at hne
    exact absurd ht₀ hne

section Claims

variable {c : WorkflowAttemptClaim} {guard live : Time} {a : WorkflowAttempt} {n : WorkflowNode}

/-- The node of a claim in order is one of the active plan. -/
theorem Claimed.current (hs : Leased P s) (hc : Claimed s c guard a n r) {q : WorkflowRun}
    (hq : q ∈ s.runs) (hid : q.id = c.runId) : q.Current n := by
  have harun : q.id = a.runId := hid.trans hc.predicates.2.2.1.symm
  have hrev := (hs.node_of hc.attempt hc.node (hc.nodeId.trans hc.predicates.1.symm)).2.1
  exact ⟨(hc.node_runId hs).trans hid.symm,
    hrev.trans (hs.active a hc.attempt hc.predicates.running q hq harun)⟩

/-- The settlements that write the status of the run outright leave their node
as the status says. -/
theorem Flowing.settle (h : Flowing s) (hs : Leased P s) (hc : Claimed s c guard a n r)
    (hopen : ∀ q ∈ s.runs, q.id = c.runId → q.status.terminal = false)
    (hconf : Confined c.runId s s') {status : WorkflowRunStatus} {next : WorkflowNodeStatus}
    {g : WorkflowNode → WorkflowNode}
    (hN : s'.nodes.rows = s.nodes.rows.map fun n => if RunningNode c.nodeId n then g n else n)
    (hR : s'.runs.rows = s.runs.rows.map fun r =>
      if r.id = c.runId then { r with status, updatedAt := now } else r)
    (hE : s'.edges = s.edges)
    (hk : ∀ n, (g n).id = n.id ∧ (g n).runId = n.runId ∧ (g n).planRevision = n.planRevision)
    (hg : ∀ n, (g n).status = next)
    (hnext : (status = .queued ∧ next = .ready) ∨
      ((status = .waitingForApproval ∨ status = .waitingForInput) ∧ next.waiting = true)) :
    Flowing s' := by
  refine h.of_confined hconf fun q hq hid _ => ?_
  obtain ⟨k, hk', hkid, rfl⟩ | ⟨_, hne⟩ := Table.update_cases hR hq
  · have hunder : next.underway = true := by
      obtain ⟨_, rfl⟩ | ⟨_, hw⟩ := hnext
      · rfl
      · cases next <;> first | rfl | cases hw
    have ho : Orderly s' k.id k.activePlanRevision :=
      (h k hk' (hopen k hk' hkid)).orderly.of_update hN hE hk fun m _ _ => (hg m).symm ▸ hunder
    obtain ⟨_, krun, krev⟩ := hk n
    obtain ⟨hrun, hrev⟩ := hc.current hs hk' hkid
    have hmem : g n ∈ s'.nodes := Table.mem_update_of hN hc.node ⟨hc.nodeId, hc.nodeRunning⟩
    obtain ⟨rfl, rfl⟩ | ⟨hst, hw⟩ := hnext
    · exact .of_queued rfl ho ⟨g n, hmem, ⟨krun.trans hrun, krev.trans hrev⟩, hg n⟩
    · exact .of_waiting hst ho ⟨g n, hmem, ⟨krun.trans hrun, krev.trans hrev⟩, (hg n).symm ▸ hw⟩
  · exact absurd hid hne

end Claims

theorem mem_activeStatuses {st : WorkflowNodeStatus} :
    st ∈ (s.nodes.select fun n => n.runId = r.id ∧
      n.planRevision = r.activePlanRevision).map WorkflowNode.status ↔
    ∃ n ∈ s.nodes, r.Current n ∧ n.status = st := by
  simp only [List.mem_map, Table.mem_select, WorkflowRun.Current, and_assoc]

/-- What `_settle_run` finds of the active nodes, by the status it answers. -/
theorem settledStatus_cases (hsome : ∃ n ∈ s.nodes, r.Current n) :
    ((s.settledStatus r).terminal = true ∨ s.settledStatus r = .paused) ∨
    (s.settledStatus r = .running ∧ ∃ n ∈ s.nodes, r.Current n ∧ n.status = .running) ∨
    ((s.settledStatus r = .waitingForApproval ∨ s.settledStatus r = .waitingForInput) ∧
      ∃ n ∈ s.nodes, r.Current n ∧ n.status.waiting = true) ∨
    (s.settledStatus r = .queued ∧ (∃ n ∈ s.nodes, r.Current n ∧ n.status.terminal = false) ∧
      ∀ n ∈ s.nodes, r.Current n → n.status ≠ .running ∧ n.status.waiting = false) := by
  obtain ⟨k, hk, hkcur⟩ := hsome
  have hne : (s.nodes.select fun n => n.runId = r.id ∧
      n.planRevision = r.activePlanRevision).map WorkflowNode.status ≠ [] :=
    List.ne_nil_of_mem (mem_activeStatuses.mpr ⟨k, hk, hkcur, rfl⟩)
  unfold Store.settledStatus
  dsimp only
  split
  · exact .inl (.inr rfl)
  split
  · refine .inl (.inl ?_)
    split
    · rfl
    split <;> rfl
  rename_i hopen
  split
  · exact .inr (.inl ⟨rfl, mem_activeStatuses.mp ‹_›⟩)
  rename_i hrun
  split
  · obtain ⟨n, hn, hcur, hst⟩ := mem_activeStatuses.mp ‹_›
    exact .inr (.inr (.inl ⟨.inl rfl, n, hn, hcur, by rw [hst]; rfl⟩))
  rename_i happroval
  split
  · obtain ⟨n, hn, hcur, hst⟩ := mem_activeStatuses.mp ‹_›
    exact .inr (.inr (.inl ⟨.inr rfl, n, hn, hcur, by rw [hst]; rfl⟩))
  rename_i hinput
  refine .inr (.inr (.inr ⟨rfl, ?_, fun n hn hcur => ⟨fun hst => ?_, ?_⟩⟩))
  · have hx : ¬ ∀ st ∈ (s.nodes.select fun n => n.runId = r.id ∧
        n.planRevision = r.activePlanRevision).map WorkflowNode.status, st.terminal = true :=
      fun h => hopen ⟨hne, h⟩
    push Not at hx
    obtain ⟨st, hmem, hst⟩ := hx
    obtain ⟨n, hn, hcur, rfl⟩ := mem_activeStatuses.mp hmem
    exact ⟨n, hn, hcur, by simpa using hst⟩
  · exact hrun (mem_activeStatuses.mpr ⟨n, hn, hcur, hst⟩)
  · cases hst : n.status with
    | waitingForApproval => exact absurd (mem_activeStatuses.mpr ⟨n, hn, hcur, hst⟩) happroval
    | waitingForInput => exact absurd (mem_activeStatuses.mpr ⟨n, hn, hcur, hst⟩) hinput
    | _ => rfl

/-- `_settle_run` answers a status the run can go on from. -/
theorem Flowing.stampRun (h : Flowing s) (hc : Confined id s u) (hu : Leased P u)
    (hr : r ∈ u.runs) (hid : r.id = id) (ho : Orderly u r.id r.activePlanRevision)
    (hsome : ∃ n ∈ u.nodes, r.Current n) :
    Flowing (u.stampRun id (u.settledStatus r) now) := by
  refine h.of_confined (hc.trans stampRun_confined) fun q hq hqid hqt => ?_
  obtain ⟨k, hk, hkid, rfl⟩ | ⟨_, hne⟩ := Table.update_cases rfl hq
  · obtain rfl := Table.eq_of_key hk hr (hkid.trans hid.symm)
    have ho' : Orderly (u.stampRun id (u.settledStatus k) now) k.id k.activePlanRevision :=
      ho.of_same rfl rfl
    obtain (ht | hp) | ⟨hst, n, hn, hcur, hnst⟩ | ⟨hst, hw⟩ | ⟨hst, ⟨n, hn, hcur, hnt⟩, hquiet⟩ :=
      settledStatus_cases hsome
    · exact absurd (ht.symm.trans hqt) (by decide)
    · exact .of_paused hp ho'
    · refine .of_running hst ho' (hasRunningAttempt_iff.mpr ?_)
      obtain ⟨a, ha, haid, _, har⟩ := hu.leased n hn hnst
      have hrun := (hu.node_of ha hn haid.symm).1
      exact ⟨a, ha, hrun.symm.trans hcur.1, har⟩
    · exact .of_waiting hst ho' hw
    · refine .of_queued hst ho' ?_
      -- what is under way and neither RUNNING nor waiting is READY
      obtain ⟨m, hm, hmrun, hmrev, hunder⟩ := ho.underway hn hcur.1 hcur.2 hnt
      obtain ⟨hnr, hnw⟩ := hquiet m hm ⟨hmrun, hmrev⟩
      exact ⟨m, hm, ⟨hmrun, hmrev⟩, WorkflowNodeStatus.eq_ready hunder hnr hnw⟩
  · exact absurd hqid hne

/-- `complete` leaves the plan orderly, and a status the run can go on from. -/
theorem Flowing.complete {c : WorkflowAttemptClaim} {guard live : Time} {a : WorkflowAttempt}
    {n : WorkflowNode} {q : WorkflowRun} (h : Flowing s) (hs : Leased P s) (hl : Linked s)
    (hc : Claimed s c guard a n q)
    (hopen : ∀ q ∈ s.runs, q.id = c.runId → q.status.terminal = false)
    {result : Payload} {refs : List String} {summary : Option String}
    (hu : u = (s.completeClaim c result refs summary now live).promoteDependents c.runId
      c.planRevision now) (hr : r ∈ u.runs) (hid : r.id = c.runId) :
    Flowing (u.stampRun c.runId (u.settledStatus r) now) := by
  have hm : Moves (fun _ => True) s (s.completeClaim c result refs summary now live) :=
    hc.completeClaim_moves hs fun _ _ _ _ => trivial
  have hlu : Leased (fun _ => True) u := by
    have hmu : Moves (fun _ => True) s u := hu ▸ hc.complete_moves hs hl fun _ _ _ _ => trivial
    exact hmu.leased (hs.mono fun _ _ => trivial)
  have hp : Promotes now (s.completeClaim c result refs summary now live) u :=
    hu ▸ (promoteDependents_waits (hm.linked hl)).1
  have hrs : r ∈ s.runs := hp.runs ▸ hr
  have hcur := hc.current hs hrs hid
  have hrev : c.planRevision = r.activePlanRevision :=
    hc.predicates.2.2.2.2.2.2.2.symm.trans
      (hs.active a hc.attempt hc.predicates.running r hrs (hid.trans hc.predicates.2.2.1.symm))
  refine h.stampRun (hu ▸ hc.complete_confined hs hl) hlu hr hid ?_ ?_
  · have ho := (h r hrs (hopen r hrs hid)).orderly
    rw [hu, ← hid, hrev]
    exact ho.complete (hm.linked hl)
  · have hn : ∃ m ∈ (s.completeClaim c result refs summary now live).nodes, r.Current m :=
      ⟨_, Table.mem_update_of rfl hc.node ⟨hc.nodeId, hc.nodeRunning⟩, hcur⟩
    obtain ⟨m, hmm, hmcur⟩ := hn
    obtain ⟨k, hk, hmk⟩ := hp.keeps m hmm
    exact ⟨k, hk, hmk.kept.runId.trans hmcur.1, hmk.kept.planRevision.trans hmcur.2⟩

theorem Flowing.failClaim {c : WorkflowAttemptClaim} {guard live : Time} {a : WorkflowAttempt}
    {n : WorkflowNode} {errorCode : String} (h : Flowing s) (hs : Leased P s)
    (hc : Claimed s c guard a n r) : Flowing (s.failClaim c errorCode now live) := by
  refine h.of_ended (hc.failClaim_confined hs) fun q hq hid => ?_
  obtain ⟨_, _, _, rfl⟩ | ⟨_, hne⟩ := Table.update_cases rfl hq
  · rfl
  · exact absurd hid hne

theorem Flowing.pauseRun (h : Flowing s) (hopen : ∀ q ∈ s.runs, q.id = id →
    q.status.terminal = false) : Flowing (s.pauseRun id now) := by
  refine h.of_confined pauseRun_confined fun q hq hid _ => ?_
  obtain ⟨k, hk, hkid, rfl⟩ | ⟨_, hne⟩ := Table.update_cases rfl hq
  · have ho : Orderly (s.pauseRun id now) k.id k.activePlanRevision :=
      (h k hk (hopen k hk hkid)).orderly.of_same rfl rfl
    cases hb : s.hasRunningAttempt id with
    | true => exact .of_running (by simp) ho (hkid ▸ hb)
    | false => exact .of_paused (by simp) ho
  · exact absurd hid hne

/-- The run is not resumed from PAUSED with nothing left to start. -/
def Resumable (s : Store) (runId : Uuid) : Prop :=
  ∀ r ∈ s.runs, r.id = runId → r.status = .paused → s.hasRunningAttempt runId = false →
    ∃ n ∈ s.nodes, r.Current n ∧ n.status = .ready

/-- What `resume` leaves of an unfinished run: a READY node, or an attempt that
is RUNNING. -/
theorem resume_alive (h : Flowing s) (hr : r ∈ s.runs) (hid : r.id = id)
    (ht : r.status.terminal = false) (hok : Resumable s id) :
    Orderly ((s.wakeNodes r now).resumeRun id now) r.id r.activePlanRevision ∧
      (s.hasRunningAttempt id = false →
        ∃ n ∈ ((s.wakeNodes r now).resumeRun id now).nodes, r.Current n ∧ n.status = .ready) := by
  have ha := h r hr ht
  by_cases hw : r.status = .waitingForApproval ∨ r.status = .waitingForInput
  · have hN : ((s.wakeNodes r now).resumeRun id now).nodes.rows = s.nodes.rows.map fun n =>
        if n.runId = r.id ∧ n.planRevision = r.activePlanRevision ∧ n.status.waiting = true then
          { n with status := .ready, updatedAt := now } else n := by
      unfold Store.wakeNodes
      rw [if_pos hw]
      rfl
    have hE : ((s.wakeNodes r now).resumeRun id now).edges = s.edges := by
      unfold Store.wakeNodes
      rw [if_pos hw]
      rfl
    refine ⟨ha.orderly.of_update hN hE (fun _ => ⟨rfl, rfl, rfl⟩) fun _ _ _ => rfl, fun _ => ?_⟩
    obtain ⟨n, hn, hcur, hnw⟩ := ha.waiting hw
    exact ⟨_, Table.mem_update_of hN hn ⟨hcur.1, hcur.2, hnw⟩, hcur, rfl⟩
  · have hsame : s.wakeNodes r now = s := by
      unfold Store.wakeNodes
      rw [if_neg hw]
    rw [hsame]
    refine ⟨ha.orderly.of_same rfl rfl, fun hidle => ?_⟩
    obtain ⟨hwa, hwi⟩ := not_or.mp hw
    cases hst : r.status with
    | queued => exact ha.queued hst
    | paused => exact hok r hr hid hst hidle
    | running =>
      have hbusy := ha.running hst
      rw [hid, hidle] at hbusy
      cases hbusy
    | waitingForApproval => exact absurd hst hwa
    | waitingForInput => exact absurd hst hwi
    | completed | failed | cancelled =>
      rw [hst] at ht
      cases ht

theorem Flowing.resume (h : Flowing s) (hr : r ∈ s.runs) (hid : r.id = id)
    (ht : r.status.terminal = false) (hok : Resumable s id) :
    Flowing ((s.wakeNodes r now).resumeRun id now) := by
  have hc : Confined id s ((s.wakeNodes r now).resumeRun id now) :=
    (hid ▸ wakeNodes_confined).trans resumeRun_confined
  refine h.of_confined hc fun q hq hqid _ => ?_
  obtain ⟨ho, hready⟩ :
      Orderly ((s.wakeNodes r now).resumeRun id now) r.id r.activePlanRevision ∧ _ :=
    resume_alive h hr hid ht hok
  have hbusy : ∀ runId, (s.wakeNodes r now).hasRunningAttempt runId = s.hasRunningAttempt runId := by
    intro runId
    unfold Store.hasRunningAttempt
    rw [wakeNodes_attempts]
  obtain ⟨k, hk, hkid, rfl⟩ | ⟨_, hne⟩ := Table.update_cases rfl hq
  · rw [wakeNodes_runs] at hk
    obtain rfl := Table.eq_of_key hk hr (hkid.trans hid.symm)
    cases hb : s.hasRunningAttempt id with
    | true =>
      refine .of_running (by simp [hbusy, hb]) ho ?_
      exact (hbusy k.id).trans (hkid ▸ hb)
    | false => exact .of_queued (by simp [hbusy, hb]) ho (hready hb)
  · exact absurd hqid hne

end

end Fairy.Workflow
