import Fairy.Lib.Fallible
import Fairy.Workflow.Machine

namespace Fairy.Workflow

open Fairy.Lib

theorem snapshot_bind_ok {s : Store} {runId : Uuid} {snap : WorkflowSnapshot} {s' : Store}
    (h : (do return (← s.snapshot runId, s)) = Except.ok (snap, s')) : s' = s := by
  obtain ⟨_, _, h⟩ := bind_ok h
  cases pure_ok h
  rfl

theorem loadSnapshot_bind_ok {s : Store} {run : WorkflowRun} {snap : WorkflowSnapshot} {s' : Store}
    (h : (do return (← s.loadSnapshot run, s)) = Except.ok (snap, s')) : s' = s := by
  obtain ⟨_, _, h⟩ := bind_ok h
  cases pure_ok h
  rfl

/-- What `run_from_row` may change of a row. -/
def readRow (r : WorkflowRun) : WorkflowRun :=
  { r with errorCode := r.errorCode.filter (· ≠ "") }

theorem postInit_ok {r r' : WorkflowRun} (h : r.postInit = .ok r') : r' = r := by
  unfold WorkflowRun.postInit at h
  repeat' split at h
  all_goals first
    | exact absurd h throw_bind_ne
    | exact (pure_ok h).symm

theorem readRun_ok {s : Store} {runId : Uuid} {run : WorkflowRun} (h : s.readRun runId = .ok run) :
    ∃ r ∈ s.runs, r.id = runId ∧ run = readRow r := by
  obtain ⟨row, hl, hp⟩ := bind_ok h
  unfold Store.lockedRun at hl
  split at hl
  · cases hl
    obtain ⟨hm, hid⟩ := Table.find?_eq_some.mp ‹_›
    exact ⟨row, hm, hid, postInit_ok hp⟩
  · cases hl

/-- `_require_claim` found the claim in order: its attempt is RUNNING under the
claim's lease and fence, its node is RUNNING and its run was not cancelled. -/
structure Claimed (s : Store) (c : WorkflowAttemptClaim) (now : Time) (a : WorkflowAttempt)
    (n : WorkflowNode) (r : WorkflowRun) : Prop where
  attempt : a ∈ s.attempts
  predicates : ClaimPredicates c a
  node : n ∈ s.nodes
  nodeId : n.id = c.nodeId
  nodeRunning : n.status = .running
  run : r ∈ s.runs
  runId : r.id = n.runId
  live : a.live now = true
  fence : r.cancellationRevision = c.cancellationRevision

theorem live_iff {a : WorkflowAttempt} {now : Time} :
    a.live now = true ↔ ∃ u, a.leaseUntil = some u ∧ now < u := by
  cases h : a.leaseUntil <;> simp [WorkflowAttempt.live, h]

theorem expired_iff {a : WorkflowAttempt} {now : Time} :
    a.expired now = true ↔ ∃ u, a.leaseUntil = some u ∧ u ≤ now := by
  cases h : a.leaseUntil <;> simp [WorkflowAttempt.expired, h]

theorem requireClaim_ok {s : Store} {c : WorkflowAttemptClaim} {now : Time} {n : WorkflowNode}
    (h : s.requireClaim c now = .ok n) : ∃ a r, Claimed s c now a n r := by
  unfold Store.requireClaim at h
  split at h
  · cases h
  · rename_i a m r hrow
    split at h
    · cases h
    · rename_i hg
      cases h
      simp only [Store.claimedRow, Option.bind_eq_bind, Option.bind_eq_some_iff] at hrow
      obtain ⟨a', ha, n', hn, r', hr, heq⟩ := hrow
      cases heq
      obtain ⟨ham, hap⟩ := Table.oneOrNone_eq_some ha
      obtain ⟨hnm, hnid⟩ := Table.find?_eq_some.mp hn
      obtain ⟨hrm, hrid⟩ := Table.find?_eq_some.mp hr
      push Not at hg
      obtain ⟨hrun, hlease, hexp, hfence⟩ := hg
      obtain ⟨u, hu⟩ := Option.ne_none_iff_exists'.mp hlease
      refine ⟨a, r, ham, hap, hnm, hnid.trans hap.1, hrun, hrm, hrid, ?_, hfence⟩
      refine live_iff.mpr ⟨u, hu, ?_⟩
      by_contra hle
      exact hexp (expired_iff.mpr ⟨u, hu, Nat.le_of_not_lt hle⟩)

section

variable {s s' : Store} {c : WorkflowAttemptClaim} {t : Readings} {snap : WorkflowSnapshot}

theorem settleRun_ok {runId : Uuid} {now : Time} (h : s.settleRun runId now = .ok s') :
    ∃ r ∈ s.runs, r.id = runId ∧ s' = s.stampRun runId (s.settledStatus r) now := by
  obtain ⟨run, hr, h⟩ := bind_ok h
  obtain ⟨r, hm, hid, rfl⟩ := readRun_ok hr
  exact ⟨r, hm, hid, (pure_ok h).symm⟩

theorem complete_ok {result : Payload} {refs : List String} {summary : Option String}
    (h : s.complete c result refs summary t = .ok (snap, s')) :
    (∃ a n r, Claimed s c t.first a n r) ∧
      ∃ u, u = (s.completeClaim c result refs summary t.first t.second).promoteDependents c.runId
          c.planRevision t.first ∧
        ∃ r ∈ u.runs, r.id = c.runId ∧ s' = u.stampRun c.runId (u.settledStatus r) t.first := by
  obtain ⟨n, hn, h⟩ := bind_ok h
  obtain ⟨a, r, hc⟩ := requireClaim_ok hn
  obtain ⟨u, hu, h⟩ := bind_ok h
  cases snapshot_bind_ok h
  exact ⟨⟨a, n, r, hc⟩, _, rfl, settleRun_ok hu⟩

theorem fail_ok {errorCode : String} (h : s.fail c errorCode t = .ok (snap, s')) :
    (∃ a n r, Claimed s c t.first a n r) ∧ s' = s.failClaim c errorCode t.first t.second := by
  obtain ⟨n, hn, h⟩ := bind_ok h
  obtain ⟨a, r, hc⟩ := requireClaim_ok hn
  exact ⟨⟨a, n, r, hc⟩, snapshot_bind_ok h⟩

theorem retry_ok {availableAt : Time} {errorCode : String}
    (h : s.retry c availableAt errorCode t = .ok (snap, s')) :
    (∃ a n r instant, Claimed s c t.first a n r ∧ n.attemptCount < n.maxAttempts ∧
      s' = s.retryClaim c instant errorCode t.first t.second) ∨
    ∃ a n r, Claimed s c t.second a n r ∧ n.maxAttempts ≤ n.attemptCount ∧
      s' = s.failClaim c errorCode t.second t.third := by
  obtain ⟨n, hn, h⟩ := bind_ok h
  obtain ⟨a, r, hc⟩ := requireClaim_ok hn
  split at h
  · obtain ⟨⟨a', n', r', hc'⟩, rfl⟩ := fail_ok h
    obtain rfl := Table.eq_of_key hc.node hc'.node (hc.nodeId.trans hc'.nodeId.symm)
    exact .inr ⟨a', n, r', hc', ‹_›, rfl⟩
  · exact .inl ⟨a, n, r, _, hc, Nat.lt_of_not_le ‹_›, snapshot_bind_ok h⟩

theorem defer_ok {availableAt : Time} {result : Payload}
    (h : s.defer c availableAt result t = .ok (snap, s')) :
    (∃ a n r, Claimed s c t.first a n r ∧ n.attemptCount < n.maxAttempts ∧
      s' = s.deferClaim c availableAt result t.first t.second) ∨
    ∃ a n r, Claimed s c t.second a n r ∧ n.maxAttempts ≤ n.attemptCount ∧
      s' = s.failClaim c "WORKFLOW_WAIT_BUDGET_EXHAUSTED" t.second t.third := by
  unfold Store.defer at h
  split at h
  · exact absurd h throw_bind_ne
  obtain ⟨n, hn, h⟩ := bind_ok h
  obtain ⟨a, r, hc⟩ := requireClaim_ok hn
  split at h
  · obtain ⟨⟨a', n', r', hc'⟩, rfl⟩ := fail_ok h
    obtain rfl := Table.eq_of_key hc.node hc'.node (hc.nodeId.trans hc'.nodeId.symm)
    exact .inr ⟨a', n, r', hc', ‹_›, rfl⟩
  · exact .inl ⟨a, n, r, hc, Nat.lt_of_not_le ‹_›, snapshot_bind_ok h⟩

theorem waitFor_ok {nodeStatus : WorkflowNodeStatus} {runStatus : WorkflowRunStatus}
    {result : Payload} (h : Store.waitFor nodeStatus runStatus s c result t = .ok (snap, s')) :
    (∃ a n r, Claimed s c t.first a n r) ∧
      s' = Store.waitClaim nodeStatus runStatus s c result t.first t.second := by
  obtain ⟨n, hn, h⟩ := bind_ok h
  obtain ⟨a, r, hc⟩ := requireClaim_ok hn
  exact ⟨⟨a, n, r, hc⟩, snapshot_bind_ok h⟩

theorem abandon_ok {flag : Bool} (h : s.abandon c t = .ok (flag, s')) :
    (flag = false ∧ s' = s ∧ ∀ a ∈ s.attempts, ¬ ClaimPredicates c a) ∨
      (flag = true ∧ ∃ a ∈ s.attempts, ClaimPredicates c a ∧ ∃ n ∈ s.nodes, n.id = c.nodeId ∧
        ∃ r ∈ s.runs, r.id = c.runId ∧
          s' = (s.abandonAttempt c t.first).release r n "WORKER_INTERRUPTED" t.first) := by
  unfold Store.abandon at h
  split at h
  · cases h
    exact .inl ⟨rfl, rfl, Table.oneOrNone_eq_none.mp ‹_›⟩
  · rename_i a ha
    obtain ⟨ham, hap⟩ := Table.oneOrNone_eq_some ha
    split at h
    · rename_i n r hn hr
      cases h
      obtain ⟨hnm, hnid⟩ := Table.find?_eq_some.mp hn
      obtain ⟨hrm, hrid⟩ := Table.find?_eq_some.mp hr
      exact .inr ⟨rfl, a, ham, hap, n, hnm, hnid, r, hrm, hrid, rfl⟩
    · cases h

theorem requestPause_ok {runId : Uuid} (h : s.requestPause runId t = .ok (snap, s')) :
    ∃ r ∈ s.runs, r.id = runId ∧
      ((r.status.terminal = true ∧ s' = s) ∨
        (r.status.terminal = false ∧ s' = s.pauseRun runId t.first)) := by
  obtain ⟨run, hr, h⟩ := bind_ok h
  obtain ⟨r, hm, hid, rfl⟩ := readRun_ok hr
  refine ⟨r, hm, hid, ?_⟩
  split at h
  · exact .inl ⟨‹_›, loadSnapshot_bind_ok h⟩
  · exact .inr ⟨Bool.eq_false_iff.mpr ‹_›, snapshot_bind_ok h⟩

theorem resume_ok {runId : Uuid} (h : s.resume runId t = .ok (snap, s')) :
    ∃ r ∈ s.runs, r.id = runId ∧
      ((r.status.terminal = true ∧ s' = s) ∨
        (r.status.terminal = false ∧ s' = (s.wakeNodes r t.first).resumeRun runId t.first)) := by
  obtain ⟨run, hr, h⟩ := bind_ok h
  obtain ⟨r, hm, hid, rfl⟩ := readRun_ok hr
  refine ⟨r, hm, hid, ?_⟩
  split at h
  · exact .inl ⟨‹_›, loadSnapshot_bind_ok h⟩
  · exact .inr ⟨Bool.eq_false_iff.mpr ‹_›, snapshot_bind_ok h⟩

theorem cancel_ok {runId : Uuid} (h : s.cancel runId t = .ok (snap, s')) :
    ∃ r ∈ s.runs, r.id = runId ∧
      ((r.status.terminal = true ∧ s' = s) ∨
        (r.status.terminal = false ∧ s' = s.cancelRun runId t.first)) := by
  obtain ⟨run, hr, h⟩ := bind_ok h
  obtain ⟨r, hm, hid, rfl⟩ := readRun_ok hr
  refine ⟨r, hm, hid, ?_⟩
  split at h
  · exact .inl ⟨‹_›, loadSnapshot_bind_ok h⟩
  · exact .inr ⟨Bool.eq_false_iff.mpr ‹_›, snapshot_bind_ok h⟩

theorem renew_ok {leaseUntil : Time} {flag : Bool}
    (h : s.renew c leaseUntil t = .ok (flag, s')) :
    t.first < leaseUntil ∧ s' = (s.expireOverdue t.first).renewLease c leaseUntil t.second ∧
      (flag = true ↔ ((s.expireOverdue t.first).attempts.select
        (LiveClaimPredicates c t.second)).length = 1) := by
  unfold Store.renew at h
  split at h
  · exact absurd h throw_bind_ne
  · cases pure_ok h
    exact ⟨Nat.lt_of_not_le ‹_›, rfl, beq_iff_eq⟩

end

end Fairy.Workflow
