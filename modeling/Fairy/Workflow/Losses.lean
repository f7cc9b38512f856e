import Fairy.Workflow.Isolation

namespace Fairy.Workflow

open Fairy.Lib

/-- The lost attempt `b` is closed and nothing else changed. -/
structure Dropped (s u : Store) (b : WorkflowAttempt) : Prop where
  attempt : b ∈ s.attempts
  running : b.status = .running
  attempts : ∀ a : WorkflowAttempt, a.status = .running → (a ∈ u.attempts ↔ a ∈ s.attempts ∧ a ≠ b)
  nodes : u.nodes = s.nodes
  runs : u.runs = s.runs
  edges : u.edges = s.edges
  confined : Confined b.runId s u

/-- What becomes of the run of a lost attempt. -/
inductive Released (s : Store) (run : WorkflowRun) (node : WorkflowNode) (errorCode : String)
    (now : Time) : WorkflowRun → Prop
  | ended (ht : run.status.terminal = true) : Released s run node errorCode now run
  | failed (ht : run.status.terminal = false) (hx : node.maxAttempts ≤ node.attemptCount) :
      Released s run node errorCode now
        { run with status := .failed, errorCode := some errorCode, updatedAt := now,
                   completedAt := some now }
  | busy (ht : run.status.terminal = false) (hx : node.attemptCount < node.maxAttempts)
      (hp : run.pauseRequested = true) (hb : s.hasRunningAttempt run.id = true) :
      Released s run node errorCode now run
  | paused (ht : run.status.terminal = false) (hx : node.attemptCount < node.maxAttempts)
      (hp : run.pauseRequested = true) (hb : s.hasRunningAttempt run.id = false) :
      Released s run node errorCode now { run with status := .paused, updatedAt := now }
  | queued (ht : run.status.terminal = false) (hx : node.attemptCount < node.maxAttempts)
      (hp : run.pauseRequested = false) :
      Released s run node errorCode now { run with status := .queued, updatedAt := now }

section

variable {s u : Store} {b : WorkflowAttempt} {now : Time}

theorem hasRunningAttempt_iff {runId : Uuid} : s.hasRunningAttempt runId = true ↔
    ∃ a ∈ s.attempts, a.runId = runId ∧ a.status = .running := by
  simp [Store.hasRunningAttempt, Table.mem_iff]

theorem hasRunningAttempt_false {runId : Uuid} : s.hasRunningAttempt runId = false ↔
    ∀ a ∈ s.attempts, a.runId = runId → a.status ≠ .running := by
  simp [Store.hasRunningAttempt, Table.mem_iff]

/-- An update that closes the RUNNING attempt `b` alone drops it. -/
theorem Dropped.of_update {p : WorkflowAttempt → Prop} [DecidablePred p]
    {f : WorkflowAttempt → WorkflowAttempt} (hb : b ∈ s.attempts) (hbr : b.status = .running)
    (hA : u.attempts.rows = s.attempts.rows.map fun a => if p a then f a else a)
    (hp : ∀ a ∈ s.attempts, p a ↔ a = b) (hf : (f b).status ≠ .running)
    (hrun : (f b).runId = b.runId) (hN : u.nodes = s.nodes) (hR : u.runs = s.runs)
    (hE : u.edges = s.edges) : Dropped s u b where
  attempt := hb
  running := hbr
  attempts a har := by
    constructor
    · intro ha
      obtain ⟨x, hx, hpx, rfl⟩ | ⟨ha, hpa⟩ := Table.update_cases hA ha
      · rw [(hp x hx).mp hpx] at har
        exact absurd har hf
      · exact ⟨ha, fun he => hpa ((hp a ha).mpr he)⟩
    · rintro ⟨ha, hne⟩
      exact Table.mem_update_of_not hA ha fun hpa => hne ((hp a ha).mp hpa)
  nodes := hN
  runs := hR
  edges := hE
  confined := by
    refine ⟨fun r _ => by rw [hR], fun n _ => by rw [hN], fun a hne => ?_, fun e _ => by rw [hE]⟩
    refine Table.mem_update_other hA (q := fun a => a.runId ≠ b.runId) (fun a ha hpa => ?_) hne
    rw [(hp a ha).mp hpa]
    exact ⟨fun hx => hx rfl, fun hx => hx hrun⟩

theorem closeExpired_dropped (hb : b ∈ s.attempts) (hbr : b.status = .running) :
    Dropped s (s.closeExpired b now) b :=
  .of_update hb hbr rfl (fun _ ha => closes_self hb hbr ha) nofun rfl rfl rfl rfl

theorem abandonAttempt_dropped {c : WorkflowAttemptClaim} (hb : b ∈ s.attempts)
    (hp : ClaimPredicates c b) : Dropped s (s.abandonAttempt c now) b := by
  refine .of_update hb hp.running rfl (fun a ha => ?_) nofun rfl rfl rfl rfl
  constructor
  · exact fun h => Table.eq_of_key ha hb (h.key_eq hp)
  · rintro rfl
    exact hp

theorem Dropped.hasRunningAttempt (h : Dropped s u b) {runId : Uuid} (hne : runId ≠ b.runId) :
    u.hasRunningAttempt runId = s.hasRunningAttempt runId := by
  rw [Bool.eq_iff_iff, hasRunningAttempt_iff, hasRunningAttempt_iff]
  constructor
  · rintro ⟨a, ha, hid, har⟩
    exact ⟨a, ((h.attempts a har).mp ha).1, hid, har⟩
  · rintro ⟨a, ha, hid, har⟩
    exact ⟨a, (h.attempts a har).mpr ⟨ha, fun he => hne (hid.symm.trans (he ▸ rfl))⟩, hid, har⟩

variable {run : WorkflowRun} {node : WorkflowNode} {errorCode : String}

theorem release_nodes : (s.release run node errorCode now).nodes =
    (s.releaseNode node.id (Store.releasedStatus run node) errorCode now).nodes := by
  unfold Store.release Store.releaseRun Store.settlePause
  split
  · rfl
  split
  · split <;> rfl
  · rfl

theorem release_edges : (s.release run node errorCode now).edges = s.edges := by
  unfold Store.release Store.releaseRun Store.settlePause
  split
  · rfl
  split
  · split <;> rfl
  · rfl

theorem release_keeps {r : WorkflowRun} (hr : r ∈ s.runs) :
    ∃ q ∈ (s.release run node errorCode now).runs, q.id = r.id := by
  unfold Store.release Store.releaseRun Store.settlePause
  split
  · exact Table.key_mem_update rfl (by exact fun _ => rfl) hr
  split
  · split
    · exact ⟨r, hr, rfl⟩
    · exact Table.key_mem_update rfl (by exact fun _ => rfl) hr
  · exact Table.key_mem_update rfl (by exact fun _ => rfl) hr

/-- The row the run of a lost attempt has after its release. -/
theorem release_runs (hr : run ∈ s.runs) {r : WorkflowRun}
    (h : r ∈ (s.release run node errorCode now).runs) (hid : r.id = run.id) :
    Released s run node errorCode now r := by
  have hself : ∀ q ∈ s.runs, q.id = run.id → q = run := fun q hq he => Table.eq_of_key hq hr he
  unfold Store.release Store.releaseRun Store.releasedStatus at h
  by_cases ht : run.status.terminal = true
  · simp only [ht, if_true, reduceCtorEq, if_false] at h
    split at h
    · unfold Store.settlePause at h
      split at h
      · rw [hself r h hid]
        exact .ended ht
      · obtain ⟨q, hq, hp, rfl⟩ | ⟨h, _⟩ := Table.update_cases rfl h
        · rw [hself q hq hp.1, ht] at hp
          cases hp.2.2
        · rw [hself r h hid]
          exact .ended ht
    · obtain ⟨q, hq, hp, rfl⟩ | ⟨h, _⟩ := Table.update_cases rfl h
      · rw [hself q hq hp.1, ht] at hp
        cases hp.2
      · rw [hself r h hid]
        exact .ended ht
  have hf := Bool.eq_false_iff.mpr ht
  by_cases hx : node.attemptCount < node.maxAttempts
  · simp only [hf, hx, if_true, reduceCtorEq, if_false, Bool.false_eq_true] at h
    split at h
    · rename_i hp
      unfold Store.settlePause at h
      split at h
      · rename_i hb
        rw [hself r h hid]
        exact .busy hf hx hp hb
      · rename_i hb
        obtain ⟨q, hq, hpq, rfl⟩ | ⟨h, hpr⟩ := Table.update_cases rfl h
        · rw [hself q hq hpq.1]
          exact .paused hf hx hp (Bool.eq_false_iff.mpr hb)
        · rw [hself r h hid] at hpr
          exact absurd ⟨rfl, hp, hf⟩ hpr
    · rename_i hp
      obtain ⟨q, hq, hpq, rfl⟩ | ⟨h, hpr⟩ := Table.update_cases rfl h
      · rw [hself q hq hpq.1]
        exact .queued hf hx (Bool.eq_false_iff.mpr hp)
      · rw [hself r h hid] at hpr
        exact absurd ⟨rfl, hf⟩ hpr
  · simp only [hf, hx, if_true, if_false, Bool.false_eq_true] at h
    obtain ⟨q, hq, hpq, rfl⟩ | ⟨h, hpr⟩ := Table.update_cases rfl h
    · rw [hself q hq hpq]
      exact .failed hf (Nat.le_of_not_lt hx)
    · exact absurd hid hpr

end

/-- What is left of the rows when overdue runs are closed and lost attempts are
dropped. -/
structure Remains (s u : Store) : Prop where
  runs : ∀ r ∈ u.runs, ∃ q ∈ s.runs, q.id = r.id ∧ q.createdAt = r.createdAt ∧
    q.budget = r.budget ∧ (r.status.terminal = false → q.status.terminal = false)
  nodes : ∀ n ∈ u.nodes, ∃ m ∈ s.nodes, m.id = n.id ∧ m.attemptCount = n.attemptCount ∧
    m.maxAttempts = n.maxAttempts
  attempts : ∀ a ∈ u.attempts, a.status = .running → a ∈ s.attempts

theorem Remains.refl (s : Store) : Remains s s :=
  ⟨fun r hr => ⟨r, hr, rfl, rfl, rfl, id⟩, fun n hn => ⟨n, hn, rfl, rfl, rfl⟩, fun _ ha _ => ha⟩

theorem Remains.trans {s t u : Store} (h : Remains s t) (k : Remains t u) : Remains s u where
  runs r hr := by
    obtain ⟨q, hq, hid, hat, hbud, hst⟩ := k.runs r hr
    obtain ⟨p, hp, hid', hat', hbud', hst'⟩ := h.runs q hq
    exact ⟨p, hp, hid'.trans hid, hat'.trans hat, hbud'.trans hbud, fun hf => hst' (hst hf)⟩
  nodes n hn := by
    obtain ⟨m, hm, hid, hcount, hmax⟩ := k.nodes n hn
    obtain ⟨l, hl, hid', hcount', hmax'⟩ := h.nodes m hm
    exact ⟨l, hl, hid'.trans hid, hcount'.trans hcount, hmax'.trans hmax⟩
  attempts a ha har := h.attempts a (k.attempts a ha har) har

section

variable {s u : Store} {b : WorkflowAttempt} {now : Time}

theorem closeOverdue_remains {r : WorkflowRun} : Remains s (s.closeOverdue r now) where
  runs q hq := by
    obtain ⟨k, hk, hp, rfl⟩ | ⟨hq, _⟩ := Table.update_cases rfl hq
    · exact ⟨k, hk, rfl, rfl, rfl, nofun⟩
    · exact ⟨q, hq, rfl, rfl, rfl, id⟩
  nodes n hn := by
    obtain ⟨m, hm, _, rfl⟩ | ⟨hn, _⟩ := Table.update_cases rfl hn
    · exact ⟨m, hm, rfl, rfl, rfl⟩
    · exact ⟨n, hn, rfl, rfl, rfl⟩
  attempts a ha har := by
    obtain ⟨_, _, _, rfl⟩ | ⟨ha, _⟩ := Table.update_cases rfl ha
    · cases har
    · exact ha

theorem Dropped.remains {run : WorkflowRun} {node : WorkflowNode} {errorCode : String}
    (h : Dropped s u b) (hn : node ∈ s.nodes) (hrun : node.runId = run.id) (hr : run ∈ s.runs) :
    Remains s (u.release run node errorCode now) where
  runs r hm := by
    by_cases hid : r.id = run.id
    · cases release_runs (h.runs ▸ hr) hm hid with
      | ended => exact ⟨run, hr, rfl, rfl, rfl, id⟩
      | failed ht => exact ⟨run, hr, rfl, rfl, rfl, nofun⟩
      | busy => exact ⟨run, hr, rfl, rfl, rfl, id⟩
      | paused ht => exact ⟨run, hr, rfl, rfl, rfl, fun _ => ht⟩
      | queued ht => exact ⟨run, hr, rfl, rfl, rfl, fun _ => ht⟩
    · rw [(release_confined (h.nodes ▸ hn) hrun).runs r hid, h.runs] at hm
      exact ⟨r, hm, rfl, rfl, rfl, id⟩
  nodes n hm := by
    rw [release_nodes] at hm
    obtain ⟨m, hmm, _, rfl⟩ | ⟨hm, _⟩ := Table.update_cases rfl hm
    · exact ⟨m, h.nodes ▸ hmm, rfl, rfl, rfl⟩
    · exact ⟨n, h.nodes ▸ hm, rfl, rfl, rfl⟩
  attempts a ha har := by
    rw [release_attempts] at ha
    exact ((h.attempts a har).mp ha).1

/-- The rule of the sweep `claim_ready` begins with: overdue runs are closed, then
lost attempts are dropped and released. -/
theorem sweep_rule {P : Time → Prop} {I : Store → Prop} {v : Store} (hs : Leased P s)
    (hclose : ∀ u, ∀ r ∈ u.runs, r.status.terminal = false → r.overdue now → Leased P u → I u →
      I (u.closeOverdue r now))
    (hlose : ∀ u w b, Dropped u w b → b.expired now = true → ∀ n ∈ u.nodes, n.id = b.nodeId →
      n.runId = b.runId → ∀ r ∈ u.runs, r.id = b.runId →
      (r.status.terminal = false → ¬ r.overdue now) → Leased P u → Remains s u → I u →
        I (w.release r n "WORKER_LEASE_EXPIRED" now))
    (hv : (s.expireOverdue now).reclaimExpired now = .ok v) (hi : I s) :
    I v ∧ Remains s v ∧ (∀ r ∈ v.runs, r.status.terminal = false → ¬ r.overdue now) ∧
      Swept now v := by
  let J := fun (u : Store) => Leased P u ∧ Remains s u ∧ I u
  let K := fun (u : Store) =>
    J u ∧ ∀ r ∈ u.runs, r.status.terminal = false → ¬ r.overdue now
  have hexp : K (s.expireOverdue now) := by
    refine expireOverdue_rule (I := J) ?_ ⟨hs, .refl s, hi⟩
    rintro u r hr hrt ho ⟨hu, hm, hI⟩
    exact ⟨(closeOverdue_moves (Q := P) hu).leased hu, hm.trans closeOverdue_remains,
      hclose u r hr hrt ho hu hI⟩
  suffices K v ∧ Swept now v from ⟨this.1.1.2.2, this.1.1.2.1, this.1.2, this.2⟩
  refine reclaimExpired_rule (I := K) ?_ hv hexp
  rintro u b hb hbr hbe n hn hid r hr hrid ⟨⟨hu, hm, hI⟩, hdue⟩
  have hd : Dropped u (u.closeExpired b now) b := closeExpired_dropped hb hbr
  have hrun := (hu.node_of hb hn hid).1
  have hmu : Remains u ((u.closeExpired b now).release r n "WORKER_LEASE_EXPIRED" now) :=
    hd.remains hn (hrun.trans hrid.symm) hr
  refine ⟨⟨(reclaim_moves (Q := P) hu hb hbr hid).leased hu, hm.trans hmu,
    hlose u _ b hd hbe n hn hid hrun r hr hrid (hdue r hr) hu hm hI⟩, fun q hq hqt ho => ?_⟩
  obtain ⟨k, hk, _, hat, hbud, hst⟩ := hmu.runs q hq
  unfold WorkflowRun.overdue at ho
  rw [← hat, ← hbud] at ho
  exact hdue k hk (hst hqt) ho

end

end Fairy.Workflow
