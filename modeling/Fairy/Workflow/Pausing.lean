import Fairy.Workflow.AttemptBudget

namespace Fairy.Workflow

open Fairy.Lib

/-- A run is PAUSED only on request, and a request takes effect once no attempt
of the run is RUNNING. -/
def PauseSettled (s : Store) (r : WorkflowRun) : Prop :=
  (r.status = .paused → r.pauseRequested = true) ∧
    (r.pauseRequested = true → r.status.terminal = false → s.hasRunningAttempt r.id = false →
      r.status = .paused)

def PauseHonoured (s : Store) : Prop := ∀ r ∈ s.runs, PauseSettled s r

section

variable {P : Time → Prop} {s s' : Store} {id : Uuid} {now : Time} {r : WorkflowRun}

theorem Confined.hasRunningAttempt (h : Confined id s s') {runId : Uuid} (hne : runId ≠ id) :
    s'.hasRunningAttempt runId = s.hasRunningAttempt runId := by
  rw [Bool.eq_iff_iff, hasRunningAttempt_iff, hasRunningAttempt_iff]
  constructor
  · rintro ⟨a, ha, hid, har⟩
    exact ⟨a, (h.attempts a (hid.trans_ne hne)).mp ha, hid, har⟩
  · rintro ⟨a, ha, hid, har⟩
    exact ⟨a, (h.attempts a (hid.trans_ne hne)).mpr ha, hid, har⟩

/-- A change to one run leaves the others as settled as they were. -/
theorem PauseHonoured.of_confined (h : PauseHonoured s) (hc : Confined id s s')
    (hr : ∀ r ∈ s'.runs, r.id = id → PauseSettled s' r) : PauseHonoured s' := by
  intro r hrs
  by_cases hid : r.id = id
  · exact hr r hrs hid
  · have hold := h r ((hc.runs r hid).mp hrs)
    unfold PauseSettled
    rw [hc.hasRunningAttempt hid]
    exact hold

theorem PauseSettled.of_terminal (hp : r.status ≠ .paused) (ht : r.status.terminal = true) :
    PauseSettled s r :=
  ⟨fun h => absurd h hp, fun _ hf => absurd (ht.symm.trans hf) (by decide)⟩

theorem PauseSettled.of_unrequested (hp : r.status ≠ .paused) (hf : r.pauseRequested = false) :
    PauseSettled s r :=
  ⟨fun h => absurd h hp, fun h => absurd (hf.symm.trans h) (by decide)⟩

theorem PauseHonoured.closeOverdue (h : PauseHonoured s) :
    PauseHonoured (s.closeOverdue r now) := by
  refine h.of_confined closeOverdue_confined fun q hq hid => ?_
  obtain ⟨q, _, _, rfl⟩ | ⟨hq, hp⟩ := Table.update_cases rfl hq
  · exact .of_terminal nofun rfl
  · refine ⟨(h q hq).1, fun _ hf => absurd ⟨hid, hf⟩ hp⟩

theorem PauseHonoured.release (h : PauseHonoured s) {u : Store} {b : WorkflowAttempt}
    (hd : Dropped s u b) {node : WorkflowNode} {errorCode : String} (hn : node ∈ s.nodes)
    (hrun : node.runId = r.id) (hr : r ∈ s.runs) (hid : r.id = b.runId) :
    PauseHonoured (u.release r node errorCode now) := by
  have hru : r ∈ u.runs := hd.runs ▸ hr
  have hc : Confined r.id s (u.release r node errorCode now) :=
    (hid ▸ hd.confined).trans (release_confined (hd.nodes ▸ hn) hrun)
  refine h.of_confined hc fun q hq hqid => ?_
  have hbusy : (u.release r node errorCode now).hasRunningAttempt q.id =
      u.hasRunningAttempt q.id := by
    unfold Store.hasRunningAttempt
    rw [release_attempts]
  cases release_runs hru hq hqid with
  | ended ht => exact ⟨(h r hr).1, fun _ hf => absurd (ht.symm.trans hf) (by decide)⟩
  | failed => exact .of_terminal nofun rfl
  | busy ht hx hp hb =>
    refine ⟨(h r hr).1, fun _ _ hidle => ?_⟩
    rw [hbusy, hb] at hidle
    cases hidle
  | paused ht hx hp => exact ⟨fun _ => hp, fun _ _ _ => rfl⟩
  | queued ht hx hp => exact .of_unrequested nofun hp

theorem PauseHonoured.take {row : ReadyRow} {workerId : String} {leaseUntil : Time}
    (h : PauseHonoured s) (htake : Take s s' row workerId leaseUntil now) : PauseHonoured s' := by
  refine h.of_confined htake.confined fun q hq hid => ?_
  obtain ⟨r₀, hr₀, ht₀, _, hp₀, _⟩ := htake.run
  obtain ⟨k, hk, ht, rfl⟩ | ⟨hq, hne⟩ := Table.update_cases htake.runs hq
  · rw [Table.eq_of_key hk hr₀ (ht.1.trans ht₀.1.symm)]
    exact .of_unrequested nofun hp₀
  · rw [Table.eq_of_key hq hr₀ (hid.trans ht₀.1.symm)] at hne
    exact absurd ht₀ hne

/-- Changes that keep runs and the RUNNING status of attempts. -/
theorem PauseHonoured.of_same (h : PauseHonoured s) (hR : s'.runs = s.runs)
    (hA : ∀ runId, s'.hasRunningAttempt runId = s.hasRunningAttempt runId) : PauseHonoured s' := by
  intro r hr
  rw [hR] at hr
  unfold PauseSettled
  rw [hA]
  exact h r hr

theorem renewLease_running {c : WorkflowAttemptClaim} {leaseUntil live : Time} {runId : Uuid} :
    (s.renewLease c leaseUntil live).hasRunningAttempt runId = s.hasRunningAttempt runId := by
  rw [Bool.eq_iff_iff, hasRunningAttempt_iff, hasRunningAttempt_iff]
  constructor
  · rintro ⟨a, ha, hid, har⟩
    obtain ⟨b, hb, _, rfl⟩ | ⟨ha, _⟩ := Table.update_cases rfl ha
    · exact ⟨b, hb, hid, har⟩
    · exact ⟨a, ha, hid, har⟩
  · rintro ⟨a, ha, hid, har⟩
    by_cases hl : LiveClaimPredicates c live a
    · exact ⟨_, Table.mem_update_of rfl ha hl, hid, har⟩
    · exact ⟨a, Table.mem_update_of_not rfl ha hl, hid, har⟩

theorem settledStatus_paused : s.settledStatus r = .paused ↔
    r.pauseRequested = true ∧ s.hasRunningAttempt r.id = false := by
  unfold Store.settledStatus
  dsimp only
  split
  · simp_all
  · rename_i h
    simp only [h, iff_false]
    split
    · split
      · simp
      split <;> simp
    split
    · simp
    split
    · simp
    split <;> simp

/-- The run `complete` settles is PAUSED just when it should be. -/
theorem PauseHonoured.stampRun (h : PauseHonoured s) {u : Store} (hc : Confined id s u)
    (hr : r ∈ u.runs) (hid : r.id = id) :
    PauseHonoured (u.stampRun id (u.settledStatus r) now) := by
  refine h.of_confined (hc.trans stampRun_confined) fun q hq hqid => ?_
  obtain ⟨k, hk, hkid, rfl⟩ | ⟨hq, hne⟩ := Table.update_cases rfl hq
  · obtain rfl := Table.eq_of_key hk hr (hkid.trans hid.symm)
    exact ⟨fun hp => (settledStatus_paused.mp hp).1,
      fun hp _ hb => settledStatus_paused.mpr ⟨hp, hb⟩⟩
  · exact absurd hqid hne

/-- A status written whatever the pause flag says is right while another
attempt of the run is RUNNING. -/
theorem PauseHonoured.settle (h : PauseHonoured s) (hc : Confined id s s')
    {status : WorkflowRunStatus} (hR : s'.runs.rows =
      s.runs.rows.map fun r => if r.id = id then { r with status, updatedAt := now } else r)
    (hst : status ≠ .paused)
    (hok : ∀ r ∈ s.runs, r.id = id → r.pauseRequested = true → s'.hasRunningAttempt id = true) :
    PauseHonoured s' := by
  refine h.of_confined hc fun q hq hid => ?_
  obtain ⟨k, hk, hkid, rfl⟩ | ⟨hq, hne⟩ := Table.update_cases hR hq
  · refine ⟨fun hp => absurd hp hst, fun hp _ hb => ?_⟩
    have hbusy := hok k hk hkid hp
    rw [← hkid] at hbusy
    exact absurd (hbusy.symm.trans hb) (by decide)
  · exact absurd hid hne

/-- The settlement at the claim does not close the last RUNNING attempt of a run
that is asked to pause. -/
def LeavesRunning (s : Store) (c : WorkflowAttemptClaim) (live : Time) : Prop :=
  ∀ a ∈ s.attempts, LiveClaimPredicates c live a → ∀ r ∈ s.runs, r.id = c.runId →
    r.pauseRequested = true →
    ∃ b ∈ s.attempts, b.runId = c.runId ∧ b.status = .running ∧ b ≠ a

/-- New runs are not asked to pause, and the settlements that write the status
of the run outright leave another attempt RUNNING in a run that is. -/
def Op.Parks (t : Readings) (s : Store) : Op → Prop
  | create run _ _ =>
    (∃ r ∈ s.runs, r.idempotencyKey = run.idempotencyKey) ∨ run.pauseRequested = false
  | retry c _ _ | defer c _ _ => ¬ Exhausted s c → LeavesRunning s c t.second
  | waitForApproval c _ | waitForInput c _ => LeavesRunning s c t.second
  | _ => True

theorem Claimed.leaves {c : WorkflowAttemptClaim} {guard live : Time} {a : WorkflowAttempt}
    {n : WorkflowNode} {u : Store} (hc : Claimed s c guard a n r)
    {f : WorkflowAttempt → WorkflowAttempt} (hA : u.attempts.rows =
      s.attempts.rows.map fun a => if LiveClaimPredicates c live a then f a else a)
    (hok : LeavesRunning s c live) :
    ∀ r ∈ s.runs, r.id = c.runId → r.pauseRequested = true →
      u.hasRunningAttempt c.runId = true := by
  intro q hq hid hp
  rw [hasRunningAttempt_iff]
  by_cases hl : LiveClaimPredicates c live a
  · obtain ⟨b, hb, hbrun, hbr, hne⟩ := hok a hc.attempt hl q hq hid hp
    refine ⟨b, Table.mem_update_of_not hA hb fun hx => hne ?_, hbrun, hbr⟩
    exact Table.eq_of_key hb hc.attempt (hx.1.key_eq hc.predicates)
  · -- the update missed the attempt, which stays RUNNING
    exact ⟨a, Table.mem_update_of_not hA hc.attempt hl, hc.predicates.2.2.1, hc.predicates.running⟩

theorem PauseHonoured.failClaim (h : PauseHonoured s) (hs : Leased P s) {c : WorkflowAttemptClaim}
    {guard live : Time} {a : WorkflowAttempt} {n : WorkflowNode} {errorCode : String}
    (hc : Claimed s c guard a n r) : PauseHonoured (s.failClaim c errorCode now live) := by
  refine h.of_confined (hc.failClaim_confined hs) fun q hq hid => ?_
  obtain ⟨k, hk, _, rfl⟩ | ⟨_, hne⟩ := Table.update_cases rfl hq
  · exact .of_terminal nofun rfl
  · exact absurd hid hne

theorem PauseHonoured.cancelRun (h : PauseHonoured s) : PauseHonoured (s.cancelRun id now) := by
  refine h.of_confined cancelRun_confined fun q hq hid => ?_
  obtain ⟨k, hk, _, rfl⟩ | ⟨_, hne⟩ := Table.update_cases rfl hq
  · exact .of_terminal nofun rfl
  · exact absurd hid hne

theorem PauseHonoured.pauseRun (h : PauseHonoured s) : PauseHonoured (s.pauseRun id now) := by
  refine h.of_confined pauseRun_confined fun q hq hid => ?_
  obtain ⟨k, hk, hkid, rfl⟩ | ⟨_, hne⟩ := Table.update_cases rfl hq
  · refine ⟨fun _ => rfl, fun _ _ hb => ?_⟩
    change s.hasRunningAttempt k.id = false at hb
    rw [hkid] at hb
    simp [hb]
  · exact absurd hid hne

theorem PauseHonoured.resumeRun (h : PauseHonoured s) : PauseHonoured (s.resumeRun id now) := by
  refine h.of_confined resumeRun_confined fun q hq hid => ?_
  obtain ⟨k, hk, hkid, rfl⟩ | ⟨_, hne⟩ := Table.update_cases rfl hq
  · refine .of_unrequested ?_ rfl
    dsimp only
    split <;> simp
  · exact absurd hid hne

theorem wakeNodes_attempts {run : WorkflowRun} :
    (s.wakeNodes run now).attempts = s.attempts := by
  unfold Store.wakeNodes
  split <;> rfl

theorem wakeNodes_runs {run : WorkflowRun} : (s.wakeNodes run now).runs = s.runs := by
  unfold Store.wakeNodes
  split <;> rfl

theorem Outcome.pauseHonoured {t : Readings} {op : Op} (hs : Leased P s) (hl : Linked s)
    (hp : ∀ u, P u → u ≤ t.first) (hok : op.Parks t s) (h : Outcome t s op s')
    (hh : PauseHonoured s) : PauseHonoured s' := by
  cases h with
  | unchanged => exact hh
  | @create run nodes edges normalized _ hv hkey hrev hst hA hR =>
    intro r hr
    have hidle : ∀ id, s'.hasRunningAttempt id = s.hasRunningAttempt id := by
      intro id
      unfold Store.hasRunningAttempt
      rw [hA]
    obtain hr | hr := (Table.mem_of_rows_append hR).mp hr
    · unfold PauseSettled
      rw [hidle]
      exact hh r hr
    · rw [List.mem_singleton.mp hr]
      refine .of_unrequested (by simp [hst]) (hok.resolve_left ?_)
      rintro ⟨q, hq, hid⟩
      exact hkey q hq hid
  | appendPlan hv hr hid hst hrev hidle hA hR =>
    intro q hq
    rw [hR] at hq
    obtain ⟨k, hk, _, rfl⟩ | ⟨hq, _⟩ := Table.update_cases rfl hq
    · exact .of_unrequested nofun rfl
    · unfold PauseSettled Store.hasRunningAttempt
      rw [hA]
      exact hh q hq
  | @claimReady workerId leaseUntil slots claims u _ hlease hu hc =>
    have hswept : PauseHonoured u := by
      refine (sweep_rule hs (fun _ _ _ _ _ _ h => h.closeOverdue) ?_ hu hh).1
      intro v w b hd _ n hn _ hrun r hr hrid _ _ _ hI
      exact hI.release hd hn (hrun.trans hrid.symm) hr hrid
    refine (claims_rule (I := fun v _ => PauseHonoured v) ((sweep_moves (Q := P) hs hu).leased hs)
      hp (reclaimExpired_swept hu) hlease ?_ hc hswept).1
    exact fun v v' _ row _ _ htake _ hv => hv.take htake
  | renew =>
    have hx : PauseHonoured (s.expireOverdue t.first) :=
      (expireOverdue_rule (I := PauseHonoured) (fun _ _ _ _ _ h => h.closeOverdue) hh).1
    exact hx.of_same rfl fun _ => renewLease_running
  | complete hc hu hr hid =>
    subst hu
    exact hh.stampRun (hc.complete_confined hs hl) hr hid
  | retry hc hn =>
    exact hh.settle (hc.retryClaim_confined hs) rfl nofun
      (hc.leaves rfl (hok (hc.not_exhausted hn)))
  | defer hc hn =>
    exact hh.settle (hc.deferClaim_confined hs) rfl nofun
      (hc.leaves rfl (hok (hc.not_exhausted hn)))
  | retryFail hc => exact hh.failClaim hs hc
  | deferFail hc => exact hh.failClaim hs hc
  | fail hc => exact hh.failClaim hs hc
  | waitForApproval hc =>
    exact hh.settle (hc.waitClaim_confined hs) rfl nofun (hc.leaves rfl hok)
  | waitForInput hc =>
    exact hh.settle (hc.waitClaim_confined hs) rfl nofun (hc.leaves rfl hok)
  | @abandon c a n r ha hpr hn hnid hr hid =>
    have hd : Dropped s (s.abandonAttempt c t.first) a := abandonAttempt_dropped ha hpr
    refine hh.release hd hn ?_ hr (hid.trans hpr.2.2.1.symm)
    exact (hs.node_of ha hn (hnid.trans hpr.1.symm)).1.trans (hpr.2.2.1.trans hid.symm)
  | requestPause => exact hh.pauseRun
  | resume =>
    refine (hh.of_same wakeNodes_runs fun runId => ?_).resumeRun
    unfold Store.hasRunningAttempt
    rw [wakeNodes_attempts]
  | cancel => exact hh.cancelRun
  | rebudget hR hk =>
    intro r hr
    obtain ⟨q, hq, rfl⟩ := (Table.mem_of_rows_map hR).mp hr
    have hb := hk q hq
    have hold := hh q hq
    unfold PauseSettled
    rw [hb.status, hb.pauseRequested, hb.kept.id]
    exact hold
  | instruct => exact hh.of_same rfl fun _ => rfl

end

instance (s : Store) (c : WorkflowAttemptClaim) (live : Time) : Decidable (LeavesRunning s c live) :=
  inferInstanceAs (Decidable (∀ a ∈ s.attempts.rows, _ → ∀ r ∈ s.runs.rows, _ → _ →
    ∃ b ∈ s.attempts.rows, _ ∧ _ ∧ b ≠ a))

instance (t : Readings) (s : Store) : ∀ op : Op, Decidable (op.Parks t s)
  | .create run _ _ => inferInstanceAs
    (Decidable ((∃ r ∈ s.runs.rows, r.idempotencyKey = run.idempotencyKey) ∨ _))
  | .retry _ _ _ | .defer _ _ _ => inferInstanceAs (Decidable (_ → _))
  | .waitForApproval _ _ | .waitForInput _ _ => inferInstanceAs (Decidable (LeavesRunning _ _ _))
  | .appendPlan _ _ _ _ _ _ | .claimReady _ _ _ | .renew _ _ | .complete _ _ _ _ | .fail _ _
  | .abandon _ | .requestPause _ | .resume _ | .cancel _ | .reserveBudget _ _ _
  | .upgradeBudget _ _ | .addInstruction _ _ _ _ _ => .isTrue trivial

/-- A call that does not write over the pause a run is asked for. -/
def Parking (σ : Config) (call : Call) : Prop := call.op.Parks call.readings σ.store

instance (σ : Config) (call : Call) : Decidable (Parking σ call) :=
  inferInstanceAs (Decidable (Op.Parks _ _ _))

/-- A run that is asked to pause is PAUSED once its last attempt has ended, and
no other run is. -/
theorem pause_honoured {σ : Config} (h : Reachable Parking σ) : PauseHonoured σ.store := by
  suffices Sound σ ∧ PauseHonoured σ.store from this.2
  refine h.invariant (I := fun σ => Sound σ ∧ PauseHonoured σ.store)
    (fun _ => ⟨⟨.empty _, .empty⟩, fun _ hr => absurd hr (Table.not_mem_empty _)⟩)
    fun σ call τ hs hok hstep => ⟨hstep.sound hs.1, ?_⟩
  exact hstep.outcome.pauseHonoured hs.1.leased hs.1.linked (fun _ hu => hu.trans hstep.1) hok hs.2

/-- A run asked to pause while its only attempt is under way. -/
def pausingCalls : List Call :=
  [(Op.create sampleRun [sampleNode 1 .serial 2] []).at 0,
    (Op.claimReady "worker" 10 (sampleSlots 1)).at 1,
    (Op.requestPause 1).at 2]

/-- The attempt is abandoned, which looks at the flag. -/
def abandonedCalls : List Call := pausingCalls ++ [(Op.abandon (sampleClaim 1 1 10)).at 3]

/-- The attempt is retried, which does not. -/
def retriedCalls : List Call := pausingCalls ++ [(Op.retry (sampleClaim 1 1 10) 4 "E").at 3]

theorem pause_honoured_abandoned : PauseHonoured (played abandonedCalls).store :=
  pause_honoured (reachable_played (by decide))

theorem pause_overwritten : Reachable AnyCall (played retriedCalls) ∧
    ¬ PauseHonoured (played retriedCalls).store := by
  refine ⟨reachable_played (by decide), fun h => ?_⟩
  have hr : ∃ r ∈ (played retriedCalls).store.runs.rows, r.pauseRequested = true ∧
      r.status = .queued ∧ (played retriedCalls).store.hasRunningAttempt r.id = false := by
    decide
  obtain ⟨r, hr, hp, hst, hidle⟩ := hr
  have hpaused := (h r hr).2 hp (by rw [hst]; rfl) hidle
  exact absurd (hst.symm.trans hpaused) (by decide)

end Fairy.Workflow
