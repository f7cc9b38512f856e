import Fairy.Workflow.Concurrency

namespace Fairy.Workflow

open Fairy.Lib

/-- The attempt the claim names left RUNNING, and so did its node. -/
def SettledTogether (c : WorkflowAttemptClaim) (s s' : Store) : Prop :=
  (∃ a ∈ s.attempts, ClaimPredicates c a ∧
    ∃ a' ∈ s'.attempts, a'.key = a.key ∧ a'.status ≠ .running) ∧
  ∃ n ∈ s.nodes, RunningNode c.nodeId n ∧ ∃ n' ∈ s'.nodes, n'.id = n.id ∧ n'.status ≠ .running

/-- The calls that settle the attempt of a claim. -/
def Op.Settles (c : WorkflowAttemptClaim) : Op → Prop
  | complete d _ _ _ | retry d _ _ | defer d _ _ | fail d _ | waitForApproval d _
  | waitForInput d _ => d = c
  | _ => False

section

variable {s s' : Store} {c : WorkflowAttemptClaim} {guard live now : Time} {a : WorkflowAttempt}
  {n : WorkflowNode} {r : WorkflowRun}

theorem ClaimPredicates.key_eq {b : WorkflowAttempt} (ha : ClaimPredicates c a)
    (hb : ClaimPredicates c b) : a.key = b.key :=
  Prod.ext (ha.1.trans hb.1.symm) (ha.2.1.trans hb.2.1.symm)

/-- The update of the attempt succeeds just when the lease outlives the second
reading of the clock. -/
theorem Claimed.endsIn_iff (hc : Claimed s c guard a n r) :
    EndsIn (fun _ => False) s c guard live ↔ a.live live = true := by
  obtain ⟨u, hu, hlt⟩ := live_iff.mp hc.live
  constructor
  · exact fun h => live_iff.mpr ⟨u, hu, Nat.lt_of_not_le (h a hc.attempt hc.predicates u hu hlt)⟩
  · intro h b hb hp v hv _ hle
    obtain rfl := Table.eq_of_key hb hc.attempt (hp.key_eq hc.predicates)
    obtain ⟨w, hw, hlw⟩ := live_iff.mp h
    rw [hv] at hw
    cases hw
    exact absurd hlw (Nat.not_lt.mpr hle)

theorem Claimed.together_iff (hc : Claimed s c guard a n r) {f : WorkflowAttempt → WorkflowAttempt}
    (hA : s'.attempts.rows = s.attempts.rows.map f)
    (hkey : ∀ b ∈ s.attempts, (f b).key = b.key)
    (hclose : a.live live = true → (f a).status ≠ .running)
    (hstay : a.live live ≠ true → (f a).status = .running)
    (hnode : ∃ n' ∈ s'.nodes, n'.id = c.nodeId ∧ n'.status ≠ .running) :
    SettledTogether c s s' ↔ EndsIn (fun _ => False) s c guard live := by
  rw [hc.endsIn_iff]
  obtain ⟨n', hn', hid, hst⟩ := hnode
  constructor
  · rintro ⟨⟨b, hb, hp, b', hb', hk, hne⟩, _⟩
    obtain rfl := Table.eq_of_key hb hc.attempt (hp.key_eq hc.predicates)
    obtain ⟨d, hd, rfl⟩ := (Table.mem_of_rows_map hA).mp hb'
    obtain rfl := Table.eq_of_key hd hc.attempt ((hkey d hd).symm.trans hk)
    by_contra hl
    exact hne (hstay hl)
  · intro hl
    exact ⟨⟨a, hc.attempt, hc.predicates, f a, (Table.mem_of_rows_map hA).mpr ⟨a, hc.attempt, rfl⟩,
        hkey a hc.attempt, hclose hl⟩,
      n, hc.node, ⟨hc.nodeId, hc.nodeRunning⟩, n', hn', hid.trans hc.nodeId.symm, hst⟩

/-- The settlements that write the attempt once. -/
theorem Claimed.settle_iff (hc : Claimed s c guard a n r) {f : WorkflowAttempt → WorkflowAttempt}
    (hA : s'.attempts.rows = s.attempts.rows.map fun b =>
      if LiveClaimPredicates c live b then f b else b)
    (hf : ∀ b, (f b).key = b.key ∧ (f b).status ≠ .running)
    (hnode : ∃ n' ∈ s'.nodes, n'.id = c.nodeId ∧ n'.status ≠ .running) :
    SettledTogether c s s' ↔ EndsIn (fun _ => False) s c guard live := by
  refine hc.together_iff hA (fun b _ => ?_) (fun hl => ?_) (fun hl => ?_) hnode
  · split
    · exact (hf b).1
    · rfl
  · rw [if_pos ⟨hc.predicates, hl⟩]
    exact (hf a).2
  · rw [if_neg fun h => hl h.2]
    exact hc.predicates.running

theorem Claimed.node_updated (hc : Claimed s c guard a n r) {g : WorkflowNode → WorkflowNode}
    (hN : s'.nodes.rows = s.nodes.rows.map fun m => if RunningNode c.nodeId m then g m else m)
    (hg : (g n).id = n.id ∧ (g n).status ≠ .running) :
    ∃ n' ∈ s'.nodes, n'.id = c.nodeId ∧ n'.status ≠ .running :=
  ⟨g n, Table.mem_update_of hN hc.node ⟨hc.nodeId, hc.nodeRunning⟩, hg.1.trans hc.nodeId, hg.2⟩

theorem promoteDependents_attempts {runId : Uuid} {revision : Nat} :
    (s.promoteDependents runId revision now).attempts = s.attempts := by
  refine foldl_rule (I := fun _ (u : Store) => u.attempts = s.attempts) (fun x l u hu => ?_) rfl
  unfold Store.promoteTarget
  dsimp only
  split <;> exact hu

theorem promoteDependents_keep {runId : Uuid} {revision : Nat} {m : WorkflowNode}
    (hm : m ∈ s.nodes) (hst : m.status ≠ .pending) :
    m ∈ (s.promoteDependents runId revision now).nodes := by
  refine foldl_rule (I := fun _ (u : Store) => m ∈ u.nodes) (fun x l u hu => ?_) hm
  unfold Store.promoteTarget
  dsimp only
  split
  · exact Table.mem_update_of_not rfl hu fun h => hst h.2
  · exact hu

theorem Claimed.fail_iff (hc : Claimed s c guard a n r) {errorCode : String} :
    SettledTogether c s (s.failClaim c errorCode now live) ↔
      EndsIn (fun _ => False) s c guard live := by
  have hnode : ∃ n' ∈ (s.failClaim c errorCode now live).nodes,
      n'.id = c.nodeId ∧ n'.status ≠ .running := by
    refine ⟨_, (Table.mem_of_rows_map List.map_map).mpr ⟨n, hc.node, rfl⟩, ?_⟩
    have hid := hc.nodeId
    simp only [Function.comp_apply]
    split <;> exact ⟨by simp [hid], by simp⟩
  refine hc.together_iff List.map_map (fun b _ => ?_) (fun hl => ?_) (fun hl => ?_) hnode
  · simp only [Function.comp_apply]
    split <;> split <;> rfl
  · have hlive : LiveClaimPredicates c live a := ⟨hc.predicates, hl⟩
    simp only [Function.comp_apply, if_pos hlive]
    rw [if_neg fun h => absurd h.2.1 nofun]
    exact nofun
  · have hlive : ¬ LiveClaimPredicates c live a := fun h => hl h.2
    simp only [Function.comp_apply, if_neg hlive]
    rw [if_neg fun h => h.2.2 (congrArg some hc.predicates.1)]
    exact hc.predicates.running

theorem Claimed.complete_iff (hc : Claimed s c guard a n r) {result : Payload} {refs : List String}
    {summary : Option String} {runId : Uuid} {status : WorkflowRunStatus} :
    SettledTogether c s (((s.completeClaim c result refs summary now live).promoteDependents c.runId
        c.planRevision now).stampRun runId status now) ↔
      EndsIn (fun _ => False) s c guard live := by
  have hdone : ∃ n' ∈ (s.completeClaim c result refs summary now live).nodes,
      n'.id = c.nodeId ∧ n'.status = .succeeded :=
    ⟨_, Table.mem_update_of rfl hc.node ⟨hc.nodeId, hc.nodeRunning⟩, hc.nodeId, rfl⟩
  refine hc.settle_iff (f := fun b =>
    { b.release .succeeded now with result := some result, evidenceRefs := refs }) ?_
    (fun b => ⟨rfl, nofun⟩) ?_
  · exact congrArg Table.rows promoteDependents_attempts
  · obtain ⟨n', hn', hid, hst⟩ := hdone
    exact ⟨n', promoteDependents_keep hn' (hst ▸ nofun), hid, hst ▸ nofun⟩

/-- A settlement that answers settles the attempt with its node if and only if
the lease does not end between the two readings. -/
theorem Op.settles_iff {op : Op} {t : Readings} {reply : Reply} (hop : op.Settles c)
    (h : op.exec t s = .ok (reply, s')) :
    SettledTogether c s s' ↔ op.Within (fun _ => False) t s := by
  cases op with
  | complete d result refs summary =>
    cases hop
    obtain ⟨_, h⟩ := reply_ok h
    obtain ⟨⟨a, n, r, hc⟩, u, rfl, r', _, _, rfl⟩ := complete_ok h
    exact hc.complete_iff
  | retry d availableAt errorCode =>
    cases hop
    obtain ⟨_, h⟩ := reply_ok h
    rcases retry_ok h with ⟨a, n, r, instant, hc, hn, rfl⟩ | ⟨a, n, r, hc, hn, rfl⟩
    · refine Iff.trans (hc.settle_iff rfl (fun _ => ⟨rfl, nofun⟩)
        (hc.node_updated rfl ⟨rfl, nofun⟩)) ?_
      exact ⟨fun h => ⟨fun _ => h, fun hx => absurd hx (hc.not_exhausted hn)⟩,
        fun h => h.1 (hc.not_exhausted hn)⟩
    · have hx : Exhausted s c := ⟨n, hc.node, hc.nodeId, hn⟩
      rw [hc.fail_iff]
      exact ⟨fun h => ⟨fun hnx => absurd hx hnx, fun _ => h⟩, fun h => h.2 hx⟩
  | defer d availableAt result =>
    cases hop
    obtain ⟨_, h⟩ := reply_ok h
    rcases defer_ok h with ⟨a, n, r, hc, hn, rfl⟩ | ⟨a, n, r, hc, hn, rfl⟩
    · refine Iff.trans (hc.settle_iff rfl (fun _ => ⟨rfl, nofun⟩)
        (hc.node_updated rfl ⟨rfl, nofun⟩)) ?_
      exact ⟨fun h => ⟨fun _ => h, fun hx => absurd hx (hc.not_exhausted hn)⟩,
        fun h => h.1 (hc.not_exhausted hn)⟩
    · have hx : Exhausted s c := ⟨n, hc.node, hc.nodeId, hn⟩
      rw [hc.fail_iff]
      exact ⟨fun h => ⟨fun hnx => absurd hx hnx, fun _ => h⟩, fun h => h.2 hx⟩
  | waitForApproval d result =>
    cases hop
    obtain ⟨_, h⟩ := reply_ok h
    obtain ⟨⟨a, n, r, hc⟩, rfl⟩ := waitFor_ok h
    exact hc.settle_iff rfl (fun _ => ⟨rfl, nofun⟩) (hc.node_updated rfl ⟨rfl, nofun⟩)
  | waitForInput d result =>
    cases hop
    obtain ⟨_, h⟩ := reply_ok h
    obtain ⟨⟨a, n, r, hc⟩, rfl⟩ := waitFor_ok h
    exact hc.settle_iff rfl (fun _ => ⟨rfl, nofun⟩) (hc.node_updated rfl ⟨rfl, nofun⟩)
  | fail d errorCode =>
    cases hop
    obtain ⟨_, h⟩ := reply_ok h
    obtain ⟨⟨a, n, r, hc⟩, rfl⟩ := fail_ok h
    exact hc.fail_iff
  | _ => exact hop.elim

end

/-- A node is RUNNING just when exactly one of its attempts is, and that one
carries the node's count as its number and its fence. -/
def Agreement (s : Store) : Prop :=
  ∀ n ∈ s.nodes,
    (n.status = .running ↔ ∃! a, a ∈ s.attempts ∧ a.nodeId = n.id ∧ a.status = .running) ∧
    ∀ a ∈ s.attempts, a.nodeId = n.id → a.status = .running →
      a.attemptNumber = n.attemptCount ∧ a.leaseFence = n.attemptCount

theorem Leased.agreement {s : Store} (h : Leased (fun _ => False) s) : Agreement s := by
  intro n hn
  refine ⟨⟨fun hr => ?_, fun ⟨a, ⟨ha, hid, har⟩, _⟩ => ?_⟩, fun a ha hid har => ?_⟩
  · obtain ⟨a, ha, hid, _, har⟩ := h.leased n hn hr
    exact ⟨a, ⟨ha, hid, har⟩, fun b ⟨hb, hbid, hbr⟩ => h.unique hb ha (hbid.trans hid.symm) hbr har⟩
  · exact (h.held a ha n hn hid.symm har).resolve_right fun ⟨_, _, hf⟩ => hf
  · have hnum := h.latest a ha n hn hid.symm har
    exact ⟨hnum, (h.node_of ha hn hid.symm).2.2.2.trans hnum⟩

/-- A settlement that raises changes nothing. One that answers settles the
attempt together with its node if and only if the attempt's lease does not end
between the reading of the guard and the reading of the update; where that never
happens, RUNNING nodes and RUNNING attempts agree in every state. -/
theorem settlement_all_or_nothing (s : Store) (c : WorkflowAttemptClaim) (op : Op) (t : Readings)
    (σ : Config) :
    (op.Settles c →
      (∀ e, op.exec t s = .error e → op.after t s = s) ∧
      ∀ reply s', op.exec t s = .ok (reply, s') →
        (SettledTogether c s s' ↔ op.Within (fun _ => False) t s)) ∧
    (Reachable Steady σ → Agreement σ.store) := by
  refine ⟨fun hop => ⟨fun e h => ?_, fun reply s' h => Op.settles_iff hop h⟩,
    fun h => h.exact.agreement⟩
  unfold Op.after
  rw [h]

/-- One claimed node, about to be completed. -/
def claimedCalls : List Call :=
  [(Op.create sampleRun [sampleNode 1 .serial 1] []).at 0,
    (Op.claimReady "worker" 10 (sampleSlots 1)).at 1]

/-- A completion whose guard still finds the lease that its update misses. -/
def tornCalls : List Call :=
  claimedCalls ++
    [⟨.complete (sampleClaim 1 1 10) [] [] none, ⟨9, 10, 10, by decide, by decide⟩⟩]

theorem settlement_agreement_claimed : Agreement (played claimedCalls).store :=
  (settlement_all_or_nothing .empty (sampleClaim 1 1 10) (.claimReady "worker" 10 (sampleSlots 1))
    (.instant 0) _).2 (reachable_played (by decide))

/-- The node SUCCEEDED, its attempt is still RUNNING. -/
theorem settlement_torn : Reachable AnyCall (played tornCalls) ∧
    ¬ Agreement (played tornCalls).store := by
  refine ⟨reachable_played (by decide), fun h => ?_⟩
  have hn : ∃ n ∈ (played tornCalls).store.nodes.rows, n.id = 1 ∧ n.status = .succeeded := by decide
  have ha : ∃ a ∈ (played tornCalls).store.attempts.rows, a.nodeId = 1 ∧ a.status = .running ∧
      ∀ b ∈ (played tornCalls).store.attempts.rows, b.nodeId = 1 → b = a := by decide
  obtain ⟨n, hn, hid, hst⟩ := hn
  obtain ⟨a, ha, haid, har, hone⟩ := ha
  have hrun := (h n hn).1.mpr ⟨a, ⟨ha, haid.trans hid.symm, har⟩,
    fun b ⟨hb, hbid, _⟩ => hone b hb (hbid.trans hid)⟩
  exact absurd (hst.symm.trans hrun) (by decide)

end Fairy.Workflow
