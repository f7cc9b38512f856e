import Fairy.Workflow.Claiming

namespace Fairy.Workflow

open Fairy.Lib

section Loops

variable {P Q : Time → Prop} {s s' : Store} {now : Time}

theorem expireOverdue_moves (hs : Leased P s) : Moves Q s (s.expireOverdue now) := by
  refine (expireOverdue_rule (I := fun u => Leased P u ∧ Moves Q s u) ?_ ⟨hs, .refl⟩).1.2
  rintro u r _ _ _ ⟨hu, hm⟩
  exact ⟨(closeOverdue_moves (Q := P) hu).leased hu, hm.trans (closeOverdue_moves hu)⟩

theorem reclaim_moves (hs : Leased P s) {b : WorkflowAttempt} (hb : b ∈ s.attempts)
    (hbr : b.status = .running) {n : WorkflowNode} (hn : n.id = b.nodeId) {r : WorkflowRun} :
    Moves Q s ((s.closeExpired b now).release r n "WORKER_LEASE_EXPIRED" now) :=
  release_moves hs hb hbr rfl rfl rfl rfl hn (fun _ => closes_self hb hbr)
    fun _ => ⟨⟨rfl, rfl, rfl, rfl, rfl⟩, rfl⟩

theorem reclaimExpired_moves (hs : Leased P s) (h : s.reclaimExpired now = .ok s') :
    Moves Q s s' := by
  refine (reclaimExpired_rule (I := fun u => Leased P u ∧ Moves Q s u) ?_ h ⟨hs, .refl⟩).1.2
  rintro u b hb hbr _ n _ hn r _ _ ⟨hu, hm⟩
  exact ⟨(reclaim_moves (Q := P) hu hb hbr hn).leased hu, hm.trans (reclaim_moves hu hb hbr hn)⟩

/-- The reclaim finds the node and the run of every lost attempt. -/
theorem reclaimExpired_total (hs : Leased P s) : ∃ u, s.reclaimExpired now = .ok u := by
  let J := fun (l : List WorkflowAttempt) (u : Store) => Leased P u ∧
    (∀ a ∈ l, a ∈ u.attempts ∧ a.status = .running) ∧ (l.map WorkflowAttempt.key).Nodup
  have h := foldlM_total (I := J) (f := Store.reclaimAttempt now) ?_
    (l := s.attempts.select fun a => a.status = .running ∧ a.expired now = true) (b := s)
    ⟨hs, fun a ha => ?_, s.attempts.nodup.sublist (List.filter_sublist.map _)⟩
  · exact h.imp fun _ ho => ho.1
  · rintro x l u ⟨hu, hl, hn⟩
    obtain ⟨hx, hxr⟩ := hl x List.mem_cons_self
    obtain ⟨n, hnm, hnid, hrun, _⟩ := hu.placed x hx
    obtain ⟨r, hrm, hrid, _⟩ := hu.owned n hnm
    rw [List.map_cons, List.nodup_cons] at hn
    refine ⟨(u.closeExpired x now).release r n "WORKER_LEASE_EXPIRED" now, ?_,
      (reclaim_moves (Q := P) hu hx hxr hnid).leased hu, fun a ha => ?_, hn.2⟩
    · unfold Store.reclaimAttempt
      rw [Table.find?_eq_some.mpr ⟨hnm, hnid⟩, Table.find?_eq_some.mpr ⟨hrm, hrid.trans hrun⟩]
    · obtain ⟨hau, har⟩ := hl a (List.mem_cons_of_mem x ha)
      rw [release_attempts]
      refine ⟨Table.mem_update_of_not rfl hau fun h => hn.1 ?_, har⟩
      exact (closes_self hx hxr hau).mp h ▸ List.mem_map_of_mem ha
  · exact ⟨(Table.mem_select.mp ha).1, (Table.mem_select.mp ha).2.1⟩

end Loops

section ClaimReady

variable {P Q : Time → Prop} {s s' u : Store} {workerId : String} {leaseUntil now : Time}
  {slots : Slots} {claims : List WorkflowAttemptClaim}

theorem sweep_moves (hs : Leased P s) (hu : (s.expireOverdue now).reclaimExpired now = .ok u) :
    Moves Q s u :=
  (expireOverdue_moves hs).trans
    (reclaimExpired_moves ((expireOverdue_moves (Q := P) hs).leased hs) hu)

/-- The reclaim leaves no RUNNING attempt without a lease. -/
theorem reclaimExpired_swept (hu : s.reclaimExpired now = .ok u) : Swept now u :=
  (reclaimExpired_rule (I := fun _ => True) (fun _ _ _ _ _ _ _ _ _ _ _ _ => trivial) hu trivial).2

theorem claimReady_moves (hs : Leased P s) (hp : ∀ u, P u → u ≤ now) (hlease : now < leaseUntil)
    (hu : (s.expireOverdue now).reclaimExpired now = .ok u)
    (hc : (u.selectRows slots now).foldlM (Store.claimRow workerId leaseUntil now) (u, []) =
      .ok (s', claims)) : Moves Q s s' := by
  have hsu : Leased P u := (sweep_moves (Q := P) hs hu).leased hs
  refine (claims_rule (I := fun v _ => Moves Q s v) hsu hp (reclaimExpired_swept hu) hlease ?_ hc
    (sweep_moves hs hu)).1
  exact fun v v' cl row _ _ htake _ hv => hv.tail (.take htake)

end ClaimReady

section Plans

variable {P Q : Time → Prop} {s s' : Store} {now : Time} {nodes normalized : List WorkflowNode}
  {edges : List WorkflowEdge}

theorem create_moves (hs : Leased P s) {run : WorkflowRun}
    (hv : validatePlan run.id 1 nodes edges = .ok normalized) (hrev : run.activePlanRevision = 1)
    (hA : s'.attempts = s.attempts) (hR : s'.runs.rows = s.runs.rows ++ [run])
    (hnew : ∀ r ∈ s.runs, r.id ≠ run.id) (hN : s'.nodes.rows = s.nodes.rows ++ normalized)
    (hE : s'.edges.rows = s.edges.rows ++ edges)
    (hfresh : ∀ n ∈ normalized, ∀ m ∈ s.nodes, m.id ≠ n.id) : Moves Q s s' := by
  have hplan := validatePlan_validated hv
  -- a run that was not there has neither nodes nor attempts
  have hnone : ∀ n ∈ s.nodes, n.runId ≠ run.id := by
    intro n hn he
    obtain ⟨r, hr, hid, _⟩ := hs.owned n hn
    exact hnew r hr (hid.trans he)
  have hmove : Plan s s' run.id 1 normalized edges id [run] := {
    attempts := by rw [hA]
    nodes := hN
    runs := by rw [hR, List.map_id]
    edges := hE
    nonempty := hplan.nonempty
    inserted := fun n hn => ⟨(hplan.placed n hn).1, (hplan.placed n hn).2, hplan.status n hn⟩
    fresh := hfresh
    older := fun m hm he => absurd he (hnone m hm)
    activated := ⟨run, by rw [Table.mem_iff, hR]; simp, rfl, hrev⟩
    idle := fun a ha he => by
      obtain ⟨n, hn, _, hrun, _⟩ := hs.placed a ha
      exact absurd (hrun.trans he) (hnone n hn)
    untouched := fun _ _ _ => rfl
    runKept := fun _ _ => ⟨rfl, le_rfl, rfl⟩
    extraRun := fun r hr => by rw [List.mem_singleton.mp hr]
    linked := hplan.linked
    ready := hplan.ready
    pending := hplan.pending
    ranked := hplan.ranked }
  exact .single (.plan hmove)

theorem supersedePlan_moves {runId : Uuid} {revision : Nat} :
    Moves Q s (s.supersedePlan runId revision now) := by
  refine .single (.advance (.of_nodes rfl rfl rfl rfl ?_ ?_ ?_ ?_))
  · intro n _
    split <;> exact ⟨rfl, rfl, rfl, rfl, rfl, rfl, rfl⟩
  · intro n _
    split
    · rename_i h
      exact ⟨nofun, fun hr => by simp [hr, WorkflowNodeStatus.waiting] at h⟩
    · rfl
  · intro n _ hs
    rwa [if_neg fun h => by simp [hs, WorkflowNodeStatus.waiting] at h]
  · intro n _ hs
    split at hs
    · cases hs
    · exact .inl hs

theorem appendPlan_moves (hs : Leased P s) {runId : Uuid} {revision : Nat} {r : WorkflowRun}
    (hv : validatePlan runId (revision + 1) nodes edges = .ok normalized)
    (hr : r ∈ s.runs) (hid : r.id = runId) (hrev : r.activePlanRevision = revision)
    (hidle : s.hasRunningAttempt runId = false)
    (hA : s'.attempts = s.attempts) (hR : s'.runs = (s.activatePlan runId revision now).runs)
    (hN : s'.nodes.rows = (s.supersedePlan runId revision now).nodes.rows ++ normalized)
    (hE : s'.edges.rows = s.edges.rows ++ edges)
    (hfresh : ∀ n ∈ normalized, ∀ m ∈ (s.supersedePlan runId revision now).nodes, m.id ≠ n.id) :
    Moves Q s s' := by
  have hplan := validatePlan_validated hv
  have hu : Leased P (s.supersedePlan runId revision now) := supersedePlan_moves.leased hs
  have hact : r.activated revision now ∈ s'.runs := by
    rw [hR]
    exact Table.mem_update_of (u := (s.activatePlan runId revision now).runs) rfl hr ⟨hid, hrev⟩
  have hmove : Plan (s.supersedePlan runId revision now) s' runId (revision + 1) normalized edges
      (fun q => if q.id = runId ∧ q.activePlanRevision = revision then q.activated revision now
        else q) [] := {
    attempts := by rw [hA]; rfl
    nodes := hN
    runs := by rw [hR, List.append_nil]; rfl
    edges := hE
    nonempty := hplan.nonempty
    inserted := fun n hn => ⟨(hplan.placed n hn).1, (hplan.placed n hn).2, hplan.status n hn⟩
    fresh := hfresh
    older := fun m hm he => by
      obtain ⟨q, hq, hqid, hle⟩ := hu.owned m hm
      obtain rfl := Table.eq_of_key hq hr (hqid.trans (he.trans hid.symm))
      exact Nat.lt_succ_of_le (hrev ▸ hle)
    activated := ⟨r.activated revision now, hact, hid, by rw [← hrev]; rfl⟩
    idle := fun a ha he har => by
      have hbusy : s.hasRunningAttempt runId = true :=
        List.any_eq_true.mpr ⟨a, ha, by simp [he, har]⟩
      rw [hidle] at hbusy
      cases hbusy
    untouched := fun q _ hne => if_neg fun hq => hne hq.1
    runKept := fun q _ => by
      split
      · rename_i hq
        exact ⟨rfl, hq.2 ▸ Nat.le_succ _, rfl⟩
      · exact ⟨rfl, le_rfl, rfl⟩
    extraRun := fun _ hq => absurd hq List.not_mem_nil
    linked := hplan.linked
    ready := hplan.ready
    pending := hplan.pending
    ranked := hplan.ranked }
  exact supersedePlan_moves.tail (.plan hmove)

end Plans

section Operations

variable {P Q : Time → Prop} {s s' : Store} {t : Readings}

theorem renewLease_moves {c : WorkflowAttemptClaim} {leaseUntil live : Time}
    (hq : ∀ u, Q u → u ≤ live) : Moves Q s (s.renewLease c leaseUntil live) := by
  have hmove : Advance Q s (s.renewLease c leaseUntil live)
      (fun a =>
        if LiveClaimPredicates c live a then { a with leaseUntil := some leaseUntil } else a)
      id id := {
    attempts := rfl
    nodes := (List.map_id _).symm
    runs := (List.map_id _).symm
    edges := rfl
    attemptKept := fun a _ => by split <;> exact ⟨rfl, rfl, rfl, rfl, rfl⟩
    nodeKept := fun n _ => .refl n
    runKept := fun r _ => .refl r
    closes := fun a _ => by split <;> exact .inl rfl
    renews := fun a _ _ he => by
      split
      · rename_i hl
        obtain ⟨u, hu, hqu⟩ := he
        obtain ⟨v, hv, hlt⟩ := live_iff.mp hl.2
        rw [hu] at hv
        cases hv
        exact absurd (hq u hqu) (Nat.not_le.mpr hlt)
      · exact he
    starts := fun _ _ => id
    keeps := fun _ _ => id
    held := fun _ _ _ _ _ hr _ => .inl hr
    leased := fun a _ _ _ _ har _ => by split <;> exact har
    settled := fun a _ _ _ _ hsa => by split at hsa <;> exact .inl hsa
    unblocked := fun _ _ => .inl }
  exact .single (.advance hmove)

/-- The attempts of the node of a claim are used up. -/
def Exhausted (s : Store) (c : WorkflowAttemptClaim) : Prop :=
  ∃ n ∈ s.nodes, n.id = c.nodeId ∧ n.maxAttempts ≤ n.attemptCount

theorem Claimed.not_exhausted {c : WorkflowAttemptClaim} {now : Time} {a : WorkflowAttempt}
    {n : WorkflowNode} {r : WorkflowRun} (hc : Claimed s c now a n r)
    (hn : n.attemptCount < n.maxAttempts) : ¬ Exhausted s c := by
  rintro ⟨m, hm, hid, hx⟩
  obtain rfl := Table.eq_of_key hm hc.node (hid.trans hc.nodeId.symm)
  exact absurd hn (Nat.not_lt.mpr hx)

/-- If the lease of the claimed attempt ends between two readings of the
clock, the first excluded, it ends in `Q`. -/
def EndsIn (Q : Time → Prop) (s : Store) (c : WorkflowAttemptClaim) (guard live : Time) : Prop :=
  ∀ a ∈ s.attempts, ClaimPredicates c a → ∀ u, a.leaseUntil = some u → guard < u → u ≤ live → Q u

instance (s : Store) (c : WorkflowAttemptClaim) : Decidable (Exhausted s c) :=
  inferInstanceAs (Decidable (∃ n ∈ s.nodes.rows, _ ∧ _))

instance (s : Store) (c : WorkflowAttemptClaim) (guard live : Time) :
    Decidable (EndsIn (fun _ => False) s c guard live) :=
  inferInstanceAs (Decidable (∀ a ∈ s.attempts.rows, ClaimPredicates c a →
    ∀ u ∈ a.leaseUntil, guard < u → u ≤ live → False))

/-- How the readings of a call bear on the lease of the attempt it claims: the
guard reads the clock, and the update of the attempt reads it again. -/
def Op.Within (Q : Time → Prop) (t : Readings) (s : Store) : Op → Prop
  | complete c _ _ _ | fail c _ | waitForApproval c _ | waitForInput c _ =>
    EndsIn Q s c t.first t.second
  | retry c _ _ | defer c _ _ =>
    (¬ Exhausted s c → EndsIn Q s c t.first t.second) ∧
      (Exhausted s c → EndsIn Q s c t.second t.third)
  | renew _ _ => ∀ u, Q u → u ≤ t.second
  | _ => True

theorem rebudget_moves {runs : Table WorkflowRun WorkflowRun.id WorkflowRun.check}
    {R : WorkflowRun → WorkflowRun} (hR : runs.rows = s.runs.rows.map R)
    (hk : ∀ r ∈ s.runs, Rebudgeted r (R r)) : Moves Q s { s with runs } :=
  .single (.advance (.of_runs rfl rfl hR rfl fun r hr => (hk r hr).kept))

/-- Every call that answers is made of moves. -/
theorem Outcome.moves (hs : Leased P s) (hl : Linked s) (hp : ∀ u, P u → u ≤ t.first) {op : Op}
    (hq : op.Within Q t s) (h : Outcome t s op s') : Moves Q s s' := by
  cases h with
  | unchanged => exact .refl
  | create hv _ hrev hst hA hR hnew hN hE hfresh =>
    exact create_moves hs hv hrev hA hR hnew hN hE hfresh
  | appendPlan hv hr hid hst hrev hidle hA hR hN hE hfresh =>
    exact appendPlan_moves hs hv hr hid hrev hidle hA hR hN hE hfresh
  | claimReady hlease hu hc => exact claimReady_moves hs hp hlease hu hc
  | renew => exact (expireOverdue_moves hs).trans (renewLease_moves hq)
  | complete hc hu =>
    subst hu
    exact (hc.complete_moves hs hl (hq _ hc.attempt hc.predicates)).trans stampRun_moves
  | retry hc hn =>
    exact hc.retryClaim_moves hs (hq.1 (hc.not_exhausted hn) _ hc.attempt hc.predicates)
  | retryFail hc hn =>
    exact hc.failClaim_moves hs (hq.2 ⟨_, hc.node, hc.nodeId, hn⟩ _ hc.attempt hc.predicates)
  | defer hc hn =>
    exact hc.deferClaim_moves hs (hq.1 (hc.not_exhausted hn) _ hc.attempt hc.predicates)
  | deferFail hc hn =>
    exact hc.failClaim_moves hs (hq.2 ⟨_, hc.node, hc.nodeId, hn⟩ _ hc.attempt hc.predicates)
  | waitForApproval hc => exact hc.waitClaim_moves hs (by decide) (hq _ hc.attempt hc.predicates)
  | waitForInput hc => exact hc.waitClaim_moves hs (by decide) (hq _ hc.attempt hc.predicates)
  | fail hc => exact hc.failClaim_moves hs (hq _ hc.attempt hc.predicates)
  | abandon ha hpr hn hnid => exact abandon_moves hs ha hpr hnid
  | requestPause => exact pauseRun_moves
  | resume => exact wakeNodes_moves.trans resumeRun_moves
  | cancel => exact cancelRun_moves hs
  | rebudget hR hk => exact rebudget_moves hR hk
  | instruct =>
    exact .single (.advance (.of_runs rfl rfl (List.map_id _).symm rfl fun r _ => .refl r))

end Operations

section Reachability

/-- The last reading up to which a call may leave a lease behind. -/
def Op.horizon (t : Readings) : Op → Time
  | renew _ _ => t.second
  | _ => t.third

theorem Op.horizon_le (op : Op) (t : Readings) :
    t.first ≤ op.horizon t ∧ op.horizon t ≤ t.third := by
  cases op with
  | renew => exact ⟨t.le_second, t.le_third⟩
  | _ => exact ⟨t.le_second.trans t.le_third, le_rfl⟩

theorem Op.within_horizon (op : Op) (t : Readings) (s : Store) :
    op.Within (· ≤ op.horizon t) t s := by
  have hle : ∀ {c : WorkflowAttemptClaim} {guard live : Time}, live ≤ t.third →
      EndsIn (· ≤ t.third) s c guard live :=
    fun hl a _ _ u _ _ hu => hu.trans hl
  cases op with
  | complete | fail | waitForApproval | waitForInput => exact hle t.le_third
  | retry | defer => exact ⟨fun _ => hle t.le_third, fun _ => hle le_rfl⟩
  | renew => exact fun _ hu => hu
  | _ => trivial

/-- What holds in every state reached from the empty store: a RUNNING attempt
without its RUNNING node has lost its lease by now. -/
structure Sound (σ : Config) : Prop where
  leased : Leased (· ≤ σ.clock) σ.store
  linked : Linked σ.store

variable {σ τ : Config} {call : Call}

theorem Step.outcome (h : Step σ call τ) :
    Outcome call.readings σ.store call.op τ.store := by
  obtain ⟨_, rfl⟩ := h
  unfold Config.after Op.after
  dsimp only
  split
  · rename_i hx
    exact Op.outcome hx
  · exact .unchanged _

theorem Step.moves (h : Step σ call τ) (hs : Sound σ) :
    Moves (· ≤ call.op.horizon call.readings) σ.store τ.store :=
  h.outcome.moves hs.leased hs.linked (fun _ hu => hu.trans h.1) (Op.within_horizon _ _ _)

theorem Step.sound (h : Step σ call τ) (hs : Sound σ) : Sound τ := by
  obtain ⟨hf, hl⟩ := Op.horizon_le call.op call.readings
  have hs' := hs.leased.mono fun u hu => (hu.trans h.1).trans hf
  have hclock : call.readings.third = τ.clock := by rw [h.2]; rfl
  exact ⟨((h.moves hs).leased hs').mono fun u hu => hclock ▸ hu.trans hl,
    (h.moves hs).linked hs.linked⟩

theorem Reachable.sound {ok : Config → Call → Prop} (h : Reachable ok σ) : Sound σ :=
  h.invariant (fun _ => ⟨.empty _, .empty⟩) fun _ _ _ hs _ hstep => hstep.sound hs

/-- No claim's lease ends between the reading its guard takes and the one the
update of its attempt takes. -/
def Steady (σ : Config) (call : Call) : Prop :=
  call.op.Within (fun _ => False) call.readings σ.store

instance (t : Readings) (s : Store) : ∀ op : Op, Decidable (op.Within (fun _ => False) t s)
  | .complete _ _ _ _ | .fail _ _ | .waitForApproval _ _ | .waitForInput _ _ =>
    inferInstanceAs (Decidable (EndsIn _ _ _ _ _))
  | .retry _ _ _ | .defer _ _ _ => inferInstanceAs (Decidable (_ ∧ _))
  | .renew _ _ => .isTrue fun _ => False.elim
  | .create _ _ _ | .appendPlan _ _ _ _ _ _ | .claimReady _ _ _ | .abandon _ | .requestPause _
  | .resume _ | .cancel _ | .reserveBudget _ _ _ | .upgradeBudget _ _ | .addInstruction _ _ _ _ _ =>
    .isTrue trivial

instance (σ : Config) (call : Call) : Decidable (Steady σ call) :=
  inferInstanceAs (Decidable (Op.Within _ _ _ _))

/-- Where no lease ends within a call, attempts and nodes agree exactly. -/
theorem Reachable.exact (h : Reachable Steady σ) : Leased (fun _ => False) σ.store := by
  suffices Leased (fun _ => False) σ.store ∧ Linked σ.store from this.1
  refine h.invariant (I := fun σ => Leased (fun _ => False) σ.store ∧ Linked σ.store)
    (fun _ => ⟨.empty _, .empty⟩) fun σ call τ hs hok hstep => ?_
  have hm := hstep.outcome.moves hs.1 hs.2 (fun _ hu => hu.elim) hok
  exact ⟨hm.leased hs.1, hm.linked hs.2⟩

end Reachability

end Fairy.Workflow
