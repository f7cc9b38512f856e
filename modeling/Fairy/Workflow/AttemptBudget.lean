import Fairy.Workflow.Losses

namespace Fairy.Workflow

open Fairy.Lib

/-- A node that is READY, or may become so by a promotion, has attempts left. -/
def Budgeted (s : Store) : Prop :=
  ∀ n ∈ s.nodes, n.status = .ready ∨ n.status = .pending → n.attemptCount < n.maxAttempts

section

variable {P : Time → Prop} {s s' : Store} {now : Time}

theorem Budgeted.of_update {p : WorkflowNode → Prop} [DecidablePred p]
    {g : WorkflowNode → WorkflowNode} (h : Budgeted s)
    (hN : s'.nodes.rows = s.nodes.rows.map fun n => if p n then g n else n)
    (hg : ∀ n ∈ s.nodes, p n → (g n).status = .ready ∨ (g n).status = .pending →
      (g n).attemptCount < (g n).maxAttempts) : Budgeted s' := by
  intro n' hn' hst
  obtain ⟨n, hn, hp, rfl⟩ | ⟨hn, _⟩ := Table.update_cases hN hn'
  · exact hg n hn hp hst
  · exact h n' hn hst

/-- Nodes that leave the two statuses need no budget. -/
theorem Budgeted.of_stop {p : WorkflowNode → Prop} [DecidablePred p]
    {g : WorkflowNode → WorkflowNode} (h : Budgeted s)
    (hN : s'.nodes.rows = s.nodes.rows.map fun n => if p n then g n else n)
    (hg : ∀ n, (g n).status ≠ .ready ∧ (g n).status ≠ .pending) : Budgeted s' := by
  apply h.of_update hN
  intro n _ _ hst
  exact absurd hst (not_or.mpr (hg n))

theorem Budgeted.of_nodes (h : Budgeted s) (hN : s'.nodes = s.nodes) : Budgeted s' := by
  intro n hn
  rw [hN] at hn
  exact h n hn

theorem Budgeted.closeOverdue (h : Budgeted s) {r : WorkflowRun} :
    Budgeted (s.closeOverdue r now) := h.of_stop rfl fun _ => ⟨nofun, nofun⟩

/-- A lost node becomes READY only while it has attempts left. -/
theorem Budgeted.release (h : Budgeted s) {run : WorkflowRun} {node : WorkflowNode}
    {errorCode : String} (hn : node ∈ s.nodes) :
    Budgeted (s.release run node errorCode now) := by
  refine h.of_update (congrArg Table.rows release_nodes) fun n hm hp hst => ?_
  obtain rfl := Table.eq_of_key hm hn hp.1
  change Store.releasedStatus run n = .ready ∨ Store.releasedStatus run n = .pending at hst
  unfold Store.releasedStatus at hst
  split at hst
  · simp at hst
  · split at hst
    · assumption
    · simp at hst

theorem Budgeted.promoteDependents (h : Budgeted s) {runId : Uuid} {revision : Nat} :
    Budgeted (s.promoteDependents runId revision now) := by
  refine foldl_rule (I := fun _ u => Budgeted u) (fun x l u hu => ?_) h
  unfold Store.promoteTarget
  dsimp only
  split
  · exact hu.of_update rfl fun n hn hp _ => hu n hn (.inr hp.2)
  · exact hu

theorem Budgeted.insert {nodes normalized : List WorkflowNode} {edges : List WorkflowEdge}
    {runId : Uuid} {revision : Nat} (h : Budgeted s)
    (hv : validatePlan runId revision nodes edges = .ok normalized)
    (hN : s'.nodes.rows = s.nodes.rows ++ normalized)
    (hspare : ∀ n ∈ nodes, n.attemptCount < n.maxAttempts) : Budgeted s' := by
  intro n hn hst
  obtain hn | hn := (Table.mem_of_rows_append hN).mp hn
  · exact h n hn hst
  · obtain ⟨_, _, _, _, _, _, _, rfl⟩ := validatePlan_ok hv
    obtain ⟨m, hm, rfl⟩ := List.mem_map.mp hn
    exact hspare m hm

/-- A resumed waiting node has attempts left. -/
def Wakeable (s : Store) (runId : Uuid) : Prop :=
  ∀ r ∈ s.runs, r.id = runId → r.status = .waitingForApproval ∨ r.status = .waitingForInput →
    ∀ n ∈ s.nodes, n.runId = runId → n.planRevision = r.activePlanRevision →
      n.status.waiting = true → n.attemptCount < n.maxAttempts

/-- New plans bring nodes with attempts left, and `resume` wakes no others. -/
def Op.Spares (s : Store) : Op → Prop
  | create run nodes _ => (∃ r ∈ s.runs, r.idempotencyKey = run.idempotencyKey) ∨
      ∀ n ∈ nodes, n.attemptCount < n.maxAttempts
  | appendPlan _ _ _ _ nodes _ => ∀ n ∈ nodes, n.attemptCount < n.maxAttempts
  | resume runId => Wakeable s runId
  | _ => True

theorem Budgeted.failClaim (h : Budgeted s) {c : WorkflowAttemptClaim} {errorCode : String}
    {live : Time} : Budgeted (s.failClaim c errorCode now live) := by
  intro n hn hst
  obtain ⟨m, _, _, rfl⟩ | ⟨hn, _⟩ := Table.update_cases rfl hn
  · simp at hst
  obtain ⟨m, _, _, rfl⟩ | ⟨hn, _⟩ := Table.update_cases rfl hn
  · simp at hst
  · exact h n hn hst

instance (s : Store) (runId : Uuid) : Decidable (Wakeable s runId) :=
  inferInstanceAs (Decidable (∀ r ∈ s.runs.rows, _ → _ → ∀ n ∈ s.nodes.rows, _))

instance (s : Store) : ∀ op : Op, Decidable (op.Spares s)
  | .create run nodes _ => inferInstanceAs
    (Decidable ((∃ r ∈ s.runs.rows, r.idempotencyKey = run.idempotencyKey) ∨ ∀ n ∈ nodes, _))
  | .appendPlan _ _ _ _ nodes _ => inferInstanceAs (Decidable (∀ n ∈ nodes, _))
  | .resume runId => inferInstanceAs (Decidable (Wakeable s runId))
  | .claimReady _ _ _ | .renew _ _ | .complete _ _ _ _ | .retry _ _ _ | .defer _ _ _
  | .waitForApproval _ _ | .waitForInput _ _ | .fail _ _ | .abandon _ | .requestPause _ | .cancel _
  | .reserveBudget _ _ _ | .upgradeBudget _ _ | .addInstruction _ _ _ _ _ => .isTrue trivial

theorem Budgeted.wakeNodes (h : Budgeted s) {r : WorkflowRun} (hr : r ∈ s.runs)
    (hw : Wakeable s r.id) : Budgeted (s.wakeNodes r now) := by
  unfold Store.wakeNodes
  split
  · rename_i hst
    exact h.of_update rfl fun n hn hp _ => hw r hr rfl hst n hn hp.1 hp.2.1 hp.2.2
  · exact h

theorem Budgeted.sweep {u : Store} (hs : Leased P s) (h : Budgeted s)
    (hu : (s.expireOverdue now).reclaimExpired now = .ok u) : Budgeted u := by
  refine (sweep_rule hs (fun _ _ _ _ _ _ h => h.closeOverdue) ?_ hu h).1
  intro v w b hd _ n hn _ _ r _ _ _ _ _ hv
  exact (hv.of_nodes hd.nodes).release (hd.nodes ▸ hn)

theorem Budgeted.claimReady {u : Store} {workerId : String} {leaseUntil : Time} {slots : Slots}
    {claims : List WorkflowAttemptClaim} (hs : Leased P s) (hp : ∀ u, P u → u ≤ now)
    (hlease : now < leaseUntil) (hu : (s.expireOverdue now).reclaimExpired now = .ok u)
    (hc : (u.selectRows slots now).foldlM (Store.claimRow workerId leaseUntil now) (u, []) =
      .ok (s', claims)) (h : Budgeted s) : Budgeted s' := by
  refine (claims_rule (I := fun v _ => Budgeted v) ((sweep_moves (Q := P) hs hu).leased hs) hp
    (reclaimExpired_swept hu) hlease ?_ hc (h.sweep hs hu)).1
  exact fun v v' _ row _ _ htake _ hv => hv.of_stop htake.nodes fun _ => ⟨nofun, nofun⟩

/-- With attempts left on every READY node `claim_ready` does not raise. -/
theorem Budgeted.claimReady_total {t : Readings} (hs : Leased P s) (hp : ∀ u, P u → u ≤ t.first)
    (h : Budgeted s) {workerId : String} {leaseUntil : Time} {slots : Slots}
    (hg : ¬ (Text.blank workerId ∨ slots.limit < 1 ∨ leaseUntil ≤ t.first)) :
    ∃ claims s', s.claimReady workerId leaseUntil slots t = .ok (claims, s') := by
  have hx : Leased P (s.expireOverdue t.first) := (expireOverdue_moves (Q := P) hs).leased hs
  obtain ⟨u, hu⟩ : ∃ u, (s.expireOverdue t.first).reclaimExpired t.first = .ok u :=
    reclaimExpired_total hx
  have hspare : ∀ row ∈ u.selectRows slots t.first,
      row.node.attemptCount < row.node.maxAttempts := by
    intro row hrow
    obtain ⟨hn, _, _, _, hready, _⟩ :=
      Store.mem_readyRows.mp (Store.mem_readyRows_of_selected hrow)
    exact h.sweep hs hu row.node hn (.inl hready)
  have hlease : t.first < leaseUntil := Nat.lt_of_not_le fun hle => hg (.inr (.inr hle))
  obtain ⟨⟨s', claims⟩, hc⟩ : ∃ acc, (u.selectRows slots t.first).foldlM
      (Store.claimRow workerId leaseUntil t.first) (u, []) = .ok acc :=
    claims_total ((sweep_moves (Q := P) hs hu).leased hs) hp (reclaimExpired_swept hu) hlease hspare
  refine ⟨claims, s', ?_⟩
  unfold Store.claimReady
  dsimp only
  rw [if_neg hg, hu, ok_bind, hc]
  rfl

/-- What a call does to the attempt budgets, one case for each kind of call. -/
theorem Outcome.budgeted {t : Readings} {op : Op} (hs : Leased P s) (hp : ∀ u, P u → u ≤ t.first)
    (hok : op.Spares s) (h : Outcome t s op s') (hb : Budgeted s) :
    Budgeted s' := by
  cases h with
  | unchanged => exact hb
  | create hv hkey hrev hst hA hR hnew hN =>
    refine hb.insert hv hN (hok.resolve_left ?_)
    rintro ⟨r, hr, hid⟩
    exact hkey r hr hid
  | appendPlan hv hr hid hst hrev hidle hA hR hN =>
    refine Budgeted.insert ?_ hv hN hok
    exact hb.of_stop rfl fun _ => ⟨nofun, nofun⟩
  | claimReady hlease hu hc => exact hb.claimReady hs hp hlease hu hc
  | renew =>
    have hx : Budgeted (s.expireOverdue t.first) :=
      (expireOverdue_rule (I := Budgeted) (fun _ _ _ _ _ h => h.closeOverdue) hb).1
    exact hx.of_nodes rfl
  | @complete c result refs summary _ _ _ _ _ hc hu =>
    subst hu
    have hx : Budgeted (s.completeClaim c result refs summary t.first t.second) :=
      hb.of_stop rfl fun _ => ⟨nofun, nofun⟩
    exact hx.promoteDependents.of_nodes rfl
  | retry hc hn =>
    refine hb.of_update rfl fun m hm hp _ => ?_
    rwa [Table.eq_of_key hm hc.node (hp.1.trans hc.nodeId.symm)]
  | defer hc hn =>
    refine hb.of_update rfl fun m hm hp _ => ?_
    rwa [Table.eq_of_key hm hc.node (hp.1.trans hc.nodeId.symm)]
  | retryFail => exact hb.failClaim
  | deferFail => exact hb.failClaim
  | fail => exact hb.failClaim
  | waitForApproval => exact hb.of_stop rfl fun _ => ⟨nofun, nofun⟩
  | waitForInput => exact hb.of_stop rfl fun _ => ⟨nofun, nofun⟩
  | @abandon c a _ _ ha hp hn hnid hr hid =>
    have hd : Dropped s (s.abandonAttempt c t.first) a := abandonAttempt_dropped ha hp
    exact (hb.of_nodes hd.nodes).release (hd.nodes ▸ hn)
  | requestPause => exact hb.of_nodes rfl
  | resume hr hid hst =>
    subst hid
    exact (hb.wakeNodes hr hok).of_nodes rfl
  | cancel => exact hb.of_stop rfl fun _ => ⟨nofun, nofun⟩
  | rebudget => exact hb.of_nodes rfl
  | instruct => exact hb.of_nodes rfl

end

/-- A call that hands out no node without attempts left. -/
def Spending (σ : Config) (call : Call) : Prop := call.op.Spares σ.store

theorem Reachable.budgeted {σ : Config} (h : Reachable Spending σ) : Budgeted σ.store := by
  suffices Sound σ ∧ Budgeted σ.store from this.2
  refine h.invariant (I := fun σ => Sound σ ∧ Budgeted σ.store)
    (fun _ => ⟨⟨.empty _, .empty⟩, fun _ hn => absurd hn (Table.not_mem_empty _)⟩)
    fun σ call τ hs hok hstep => ?_
  exact ⟨hstep.sound hs.1, hstep.outcome.budgeted hs.1.leased (fun _ hu => hu.trans hstep.1) hok hs.2⟩

/-- The attempt budget holds while new plans bring nodes with attempts left and
`resume` wakes no others; then `claim_ready` never breaks the counters. -/
theorem attempt_budget {σ : Config} (h : Reachable Spending σ) :
    (∀ n ∈ σ.store.nodes, n.attemptCount ≤ n.maxAttempts ∧
      (n.status = .ready → n.attemptCount < n.maxAttempts)) ∧
    ∀ workerId leaseUntil slots t, σ.clock ≤ t.first →
      ¬ (Text.blank workerId ∨ slots.limit < 1 ∨ leaseUntil ≤ t.first) →
      ∃ claims s', σ.store.claimReady workerId leaseUntil slots t = .ok (claims, s') := by
  refine ⟨fun n hn => ⟨(Table.check_of_mem hn).2.2.2, fun hst => h.budgeted n hn (.inl hst)⟩, ?_⟩
  intro workerId leaseUntil slots t hclock hg
  exact h.budgeted.claimReady_total h.sound.leased (fun _ hu => hu.trans hclock) hg

instance (σ : Config) (call : Call) : Decidable (Spending σ call) :=
  inferInstanceAs (Decidable (call.op.Spares σ.store))

theorem attempt_budget_claimed : ∃ claims s', (played claimedCalls).store.claimReady "worker" 20
    (sampleSlots 1) (.instant 11) = .ok (claims, s') :=
  (attempt_budget (σ := played claimedCalls) (reachable_played (by decide))).2 "worker" 20
    (sampleSlots 1) (.instant 11) (by decide) (by decide)

/-- A node that waits in its only attempt, and is resumed. -/
def wokenCalls : List Call :=
  [(Op.create sampleRun [sampleNode 1 .serial 1] []).at 0,
    (Op.claimReady "worker" 10 (sampleSlots 1)).at 1,
    (Op.waitForApproval (sampleClaim 1 1 10) []).at 2,
    (Op.resume 1).at 3]

/-- The resumed node is READY with its attempts used up, and `claim_ready` raises. -/
theorem attempt_budget_overdrawn : Reachable AnyCall (played wokenCalls) ∧
    (∃ n ∈ (played wokenCalls).store.nodes, n.status = .ready ∧ ¬ n.attemptCount < n.maxAttempts) ∧
    (played wokenCalls).store.claimReady "worker" 20 (sampleSlots 1) (.instant 4) =
      .error (.integrityError "ck_core_workflow_nodes_counters") := by
  refine ⟨reachable_played (by decide), ?_, rfl⟩
  have hn : ∃ n ∈ (played wokenCalls).store.nodes.rows,
      n.status = .ready ∧ ¬ n.attemptCount < n.maxAttempts := by decide
  exact hn

end Fairy.Workflow
