import Fairy.Workflow.Plans

namespace Fairy.Workflow

open Fairy.Lib

theorem reply_ok {α β : Type} {x : Except WorkflowError (α × Store)} {f : α → β} {b : β}
    {s' : Store} (h : x.map (Prod.map f id) = .ok (b, s')) : ∃ a, x = .ok (a, s') := by
  cases x with
  | error e => cases h
  | ok a =>
    cases h
    exact ⟨a.1, rfl⟩

/-- The rows a call that answers leaves, one case for each thing a call can do. -/
inductive Outcome (t : Readings) (s : Store) : Op → Store → Prop
  | unchanged (op : Op) : Outcome t s op s
  | create {run nodes edges normalized} {s' : Store}
      (hv : validatePlan run.id 1 nodes edges = .ok normalized)
      (hkey : ∀ r ∈ s.runs, r.idempotencyKey ≠ run.idempotencyKey)
      (hrev : run.activePlanRevision = 1) (hst : run.status = .queued)
      (hA : s'.attempts = s.attempts) (hR : s'.runs.rows = s.runs.rows ++ [run])
      (hnew : ∀ r ∈ s.runs, r.id ≠ run.id) (hN : s'.nodes.rows = s.nodes.rows ++ normalized)
      (hE : s'.edges.rows = s.edges.rows ++ edges)
      (hfresh : ∀ n ∈ normalized, ∀ m ∈ s.nodes, m.id ≠ n.id) :
      Outcome t s (.create run nodes edges) s'
  | appendPlan {runId revision reason instructionId nodes edges normalized r} {s' : Store}
      (hv : validatePlan runId (revision + 1) nodes edges = .ok normalized)
      (hr : r ∈ s.runs) (hid : r.id = runId) (hst : r.status.terminal = false)
      (hrev : r.activePlanRevision = revision) (hidle : s.hasRunningAttempt runId = false)
      (hA : s'.attempts = s.attempts) (hR : s'.runs = (s.activatePlan runId revision t.first).runs)
      (hN : s'.nodes.rows = (s.supersedePlan runId revision t.first).nodes.rows ++ normalized)
      (hE : s'.edges.rows = s.edges.rows ++ edges)
      (hfresh : ∀ n ∈ normalized, ∀ m ∈ (s.supersedePlan runId revision t.first).nodes,
        m.id ≠ n.id) :
      Outcome t s (.appendPlan runId revision reason instructionId nodes edges) s'
  | claimReady {workerId leaseUntil slots claims u s'} (hlease : t.first < leaseUntil)
      (hu : (s.expireOverdue t.first).reclaimExpired t.first = .ok u)
      (hc : (u.selectRows slots t.first).foldlM
        (Store.claimRow workerId leaseUntil t.first) (u, []) = .ok (s', claims)) :
      Outcome t s (.claimReady workerId leaseUntil slots) s'
  | renew {c leaseUntil} (hlease : t.first < leaseUntil) :
      Outcome t s (.renew c leaseUntil)
        ((s.expireOverdue t.first).renewLease c leaseUntil t.second)
  | complete {c result refs summary a n r r' u} (hc : Claimed s c t.first a n r)
      (hu : u = (s.completeClaim c result refs summary t.first t.second).promoteDependents c.runId
        c.planRevision t.first) (hr : r' ∈ u.runs) (hid : r'.id = c.runId) :
      Outcome t s (.complete c result refs summary)
        (u.stampRun c.runId (u.settledStatus r') t.first)
  | retry {c availableAt instant errorCode a n r} (hc : Claimed s c t.first a n r)
      (hn : n.attemptCount < n.maxAttempts) :
      Outcome t s (.retry c availableAt errorCode)
        (s.retryClaim c instant errorCode t.first t.second)
  | retryFail {c availableAt errorCode a n r} (hc : Claimed s c t.second a n r)
      (hn : n.maxAttempts ≤ n.attemptCount) :
      Outcome t s (.retry c availableAt errorCode) (s.failClaim c errorCode t.second t.third)
  | defer {c availableAt result a n r} (hc : Claimed s c t.first a n r)
      (hn : n.attemptCount < n.maxAttempts) :
      Outcome t s (.defer c availableAt result)
        (s.deferClaim c availableAt result t.first t.second)
  | deferFail {c availableAt result a n r} (hc : Claimed s c t.second a n r)
      (hn : n.maxAttempts ≤ n.attemptCount) :
      Outcome t s (.defer c availableAt result)
        (s.failClaim c "WORKFLOW_WAIT_BUDGET_EXHAUSTED" t.second t.third)
  | waitForApproval {c result a n r} (hc : Claimed s c t.first a n r) :
      Outcome t s (.waitForApproval c result)
        (Store.waitClaim .waitingForApproval .waitingForApproval s c result t.first t.second)
  | waitForInput {c result a n r} (hc : Claimed s c t.first a n r) :
      Outcome t s (.waitForInput c result)
        (Store.waitClaim .waitingForInput .waitingForInput s c result t.first t.second)
  | fail {c errorCode a n r} (hc : Claimed s c t.first a n r) :
      Outcome t s (.fail c errorCode) (s.failClaim c errorCode t.first t.second)
  | abandon {c a n r} (ha : a ∈ s.attempts) (hp : ClaimPredicates c a) (hn : n ∈ s.nodes)
      (hnid : n.id = c.nodeId) (hr : r ∈ s.runs) (hid : r.id = c.runId) :
      Outcome t s (.abandon c)
        ((s.abandonAttempt c t.first).release r n "WORKER_INTERRUPTED" t.first)
  | requestPause {runId r} (hr : r ∈ s.runs) (hid : r.id = runId)
      (hst : r.status.terminal = false) :
      Outcome t s (.requestPause runId) (s.pauseRun runId t.first)
  | resume {runId r} (hr : r ∈ s.runs) (hid : r.id = runId) (hst : r.status.terminal = false) :
      Outcome t s (.resume runId) ((s.wakeNodes r t.first).resumeRun runId t.first)
  | cancel {runId r} (hr : r ∈ s.runs) (hid : r.id = runId) (hst : r.status.terminal = false) :
      Outcome t s (.cancel runId) (s.cancelRun runId t.first)
  | rebudget {op runs R} (hR : runs.rows = s.runs.rows.map R)
      (hk : ∀ r ∈ s.runs, Rebudgeted r (R r)) : Outcome t s op { s with runs }
  | instruct {op instructions} : Outcome t s op { s with instructions }

section

variable {s s' : Store} {t : Readings} {reply : Reply}

theorem claimReady_ok {workerId : String} {leaseUntil : Time} {slots : Slots}
    {claims : List WorkflowAttemptClaim}
    (h : s.claimReady workerId leaseUntil slots t = .ok (claims, s')) :
    t.first < leaseUntil ∧ ∃ u, (s.expireOverdue t.first).reclaimExpired t.first = .ok u ∧
      (u.selectRows slots t.first).foldlM (Store.claimRow workerId leaseUntil t.first) (u, []) =
        .ok (s', claims) := by
  unfold Store.claimReady at h
  dsimp only at h
  split at h
  · exact absurd h throw_bind_ne
  rename_i hg
  push Not at hg
  obtain ⟨u, hu, h⟩ := bind_ok h
  obtain ⟨⟨v, cl⟩, hv, h⟩ := bind_ok h
  cases pure_ok h
  exact ⟨hg.2.2, u, hu, hv⟩

/-- What a call that answers can have done. -/
theorem Op.outcome {op : Op} (h : op.exec t s = .ok (reply, s')) : Outcome t s op s' := by
  cases op with
  | create run nodes edges =>
    obtain ⟨_, h⟩ := reply_ok h
    rcases create_ok h with rfl | ⟨normalized, hv, hkey, hrev, hst, hA, hR, hnew, hN, hE, hfresh⟩
    · exact .unchanged _
    · exact .create hv hkey hrev hst hA hR hnew hN hE hfresh
  | appendPlan runId revision reason instructionId nodes edges =>
    obtain ⟨_, h⟩ := reply_ok h
    obtain ⟨_, hv, ⟨r, hr, hid, hst, hrev⟩, hidle, hA, hR, hN, hE, hfresh⟩ := appendPlan_ok h
    exact .appendPlan hv hr hid hst hrev hidle hA hR hN hE hfresh
  | claimReady workerId leaseUntil slots =>
    obtain ⟨_, h⟩ := reply_ok h
    obtain ⟨hlease, u, hu, hc⟩ := claimReady_ok h
    exact .claimReady hlease hu hc
  | renew c leaseUntil =>
    obtain ⟨_, h⟩ := reply_ok h
    obtain ⟨hlease, rfl, _⟩ := renew_ok h
    exact .renew hlease
  | complete c result refs summary =>
    obtain ⟨_, h⟩ := reply_ok h
    obtain ⟨⟨a, n, r, hc⟩, u, hu, r', hr, hid, rfl⟩ := complete_ok h
    exact .complete hc hu hr hid
  | retry c availableAt errorCode =>
    obtain ⟨_, h⟩ := reply_ok h
    rcases retry_ok h with ⟨a, n, r, instant, hc, hn, rfl⟩ | ⟨a, n, r, hc, hn, rfl⟩
    · exact .retry hc hn
    · exact .retryFail hc hn
  | defer c availableAt result =>
    obtain ⟨_, h⟩ := reply_ok h
    rcases defer_ok h with ⟨a, n, r, hc, hn, rfl⟩ | ⟨a, n, r, hc, hn, rfl⟩
    · exact .defer hc hn
    · exact .deferFail hc hn
  | waitForApproval c result =>
    obtain ⟨_, h⟩ := reply_ok h
    obtain ⟨⟨a, n, r, hc⟩, rfl⟩ := waitFor_ok h
    exact .waitForApproval hc
  | waitForInput c result =>
    obtain ⟨_, h⟩ := reply_ok h
    obtain ⟨⟨a, n, r, hc⟩, rfl⟩ := waitFor_ok h
    exact .waitForInput hc
  | fail c errorCode =>
    obtain ⟨_, h⟩ := reply_ok h
    obtain ⟨⟨a, n, r, hc⟩, rfl⟩ := fail_ok h
    exact .fail hc
  | abandon c =>
    obtain ⟨_, h⟩ := reply_ok h
    rcases abandon_ok h with ⟨_, rfl, _⟩ | ⟨_, a, ha, hp, n, hn, hnid, r, hr, hid, rfl⟩
    · exact .unchanged _
    · exact .abandon ha hp hn hnid hr hid
  | requestPause runId =>
    obtain ⟨_, h⟩ := reply_ok h
    obtain ⟨r, hr, hid, ⟨_, rfl⟩ | ⟨hst, rfl⟩⟩ := requestPause_ok h
    · exact .unchanged _
    · exact .requestPause hr hid hst
  | resume runId =>
    obtain ⟨_, h⟩ := reply_ok h
    obtain ⟨r, hr, hid, ⟨_, rfl⟩ | ⟨hst, rfl⟩⟩ := resume_ok h
    · exact .unchanged _
    · exact .resume hr hid hst
  | cancel runId =>
    obtain ⟨_, h⟩ := reply_ok h
    obtain ⟨r, hr, hid, ⟨_, rfl⟩ | ⟨hst, rfl⟩⟩ := cancel_ok h
    · exact .unchanged _
    · exact .cancel hr hid hst
  | reserveBudget runId modelRounds toolInvocations =>
    obtain ⟨_, h⟩ := reply_ok h
    obtain ⟨runs, R, rfl, hR, hk⟩ := reserveBudget_ok h
    exact .rebudget hR hk
  | upgradeBudget runId budget =>
    obtain ⟨_, h⟩ := reply_ok h
    obtain ⟨runs, R, rfl, hR, hk⟩ := upgradeBudget_ok h
    exact .rebudget hR hk
  | addInstruction runId instruction revision key newId =>
    obtain ⟨_, h⟩ := reply_ok h
    obtain ⟨_, rfl⟩ := addInstruction_ok h
    exact .instruct

end

end Fairy.Workflow
