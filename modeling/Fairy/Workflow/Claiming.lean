import Fairy.Workflow.Calls
import Fairy.Workflow.Outcomes

namespace Fairy.Workflow

open Fairy.Lib

section Expiry

variable {s : Store} {now : Time}

/-- The rule of `_expire_overdue`: each overdue run is closed as its row stands,
and none is left behind. -/
theorem expireOverdue_rule {I : Store → Prop}
    (hk : ∀ u, ∀ r ∈ u.runs, r.status.terminal = false → r.overdue now → I u →
      I (u.closeOverdue r now)) (hi : I s) :
    I (s.expireOverdue now) ∧
      ∀ r ∈ (s.expireOverdue now).runs, r.status.terminal = false → ¬ r.overdue now := by
  let J := fun (l : List WorkflowRun) (u : Store) => I u ∧
    (∀ r ∈ l, r ∈ u.runs ∧ r.status.terminal = false) ∧ (l.map WorkflowRun.id).Nodup ∧
    ∀ r ∈ u.runs, r.status.terminal = false → r.overdue now → r ∈ l
  suffices J [] (s.expireOverdue now) from
    ⟨this.1, fun r hr ht ho => absurd (this.2.2.2 r hr ht ho) List.not_mem_nil⟩
  refine foldl_rule (I := J) ?_ ⟨hi, fun r hr => Table.mem_select.mp hr, ?_, ?_⟩
  · rintro x l u ⟨hI, hl, hn, hall⟩
    obtain ⟨hx, hxt⟩ := hl x List.mem_cons_self
    rw [List.map_cons, List.nodup_cons] at hn
    have hne : ∀ r ∈ l, r.id ≠ x.id := fun r hr he => hn.1 (he ▸ List.mem_map_of_mem hr)
    unfold Store.expireRun
    split
    · rename_i hox
      refine ⟨hk u x hx hxt hox hI, fun r hr => ?_, hn.2, fun r' hr' ht ho => ?_⟩
      · obtain ⟨hru, hrt⟩ := hl r (List.mem_cons_of_mem x hr)
        exact ⟨Table.mem_update_of_not rfl hru fun h => hne r hr h.1, hrt⟩
      · rcases Table.update_cases rfl hr' with ⟨r, _, _, rfl⟩ | ⟨hr, hrx⟩
        · cases ht
        · exact (List.mem_cons.mp (hall r' hr ht ho)).resolve_left fun he => hrx ⟨he ▸ rfl, ht⟩
    · rename_i hox
      refine ⟨hI, fun r hr => hl r (List.mem_cons_of_mem x hr), hn.2, fun r hr ht ho => ?_⟩
      rcases List.mem_cons.mp (hall r hr ht ho) with rfl | hm
      · exact absurd ho hox
      · exact hm
  · exact s.runs.nodup.sublist (List.filter_sublist.map _)
  · exact fun r hr ht _ => Table.mem_select.mpr ⟨hr, ht⟩

theorem release_attempts {run : WorkflowRun} {node : WorkflowNode} {errorCode : String} :
    (s.release run node errorCode now).attempts = s.attempts := by
  unfold Store.release Store.releaseRun Store.settlePause
  split
  · rfl
  split
  · split <;> rfl
  · rfl

/-- The only attempt the reclaim of `b` rewrites is `b`. -/
theorem closes_self {b : WorkflowAttempt} (hb : b ∈ s.attempts) (hbr : b.status = .running)
    {a : WorkflowAttempt} (ha : a ∈ s.attempts) :
    (a.nodeId = b.nodeId ∧ a.attemptNumber = b.attemptNumber ∧ a.status = .running ∧
      a.leaseFence = b.leaseFence) ↔ a = b := by
  constructor
  · exact fun h => Table.eq_of_key ha hb (Prod.ext h.1 h.2.1)
  · rintro rfl
    exact ⟨rfl, rfl, hbr, rfl⟩

theorem reclaimAttempt_ok {b : WorkflowAttempt} {s' : Store}
    (h : Store.reclaimAttempt now s b = .ok s') : ∃ n ∈ s.nodes, n.id = b.nodeId ∧
      ∃ r ∈ s.runs, r.id = b.runId ∧
        s' = (s.closeExpired b now).release r n "WORKER_LEASE_EXPIRED" now := by
  unfold Store.reclaimAttempt at h
  split at h
  · rename_i n r hn hr
    cases h
    obtain ⟨hnm, hnid⟩ := Table.find?_eq_some.mp hn
    obtain ⟨hrm, hrid⟩ := Table.find?_eq_some.mp hr
    exact ⟨n, hnm, hnid, r, hrm, hrid, rfl⟩
  · cases h

/-- The rule of `_reclaim_expired`: each lost attempt is closed and its node
released as the rows stand, and no lost attempt is left behind. -/
theorem reclaimExpired_rule {I : Store → Prop}
    (hk : ∀ u, ∀ b ∈ u.attempts, b.status = .running → b.expired now = true →
      ∀ n ∈ u.nodes, n.id = b.nodeId → ∀ r ∈ u.runs, r.id = b.runId → I u →
        I ((u.closeExpired b now).release r n "WORKER_LEASE_EXPIRED" now))
    {s' : Store} (h : s.reclaimExpired now = .ok s') (hi : I s) :
    I s' ∧ ∀ a ∈ s'.attempts, a.status = .running → a.live now = true := by
  let J := fun (l : List WorkflowAttempt) (u : Store) => I u ∧
    (∀ a ∈ l, a ∈ u.attempts ∧ a.status = .running ∧ a.expired now = true) ∧
    (l.map WorkflowAttempt.key).Nodup ∧
    ∀ a ∈ u.attempts, a.status = .running → a.live now = true ∨ a ∈ l
  suffices J [] s' from
    ⟨this.1, fun a ha hr => (this.2.2.2 a ha hr).resolve_right List.not_mem_nil⟩
  refine foldlM_rule (I := J) ?_ h ⟨hi, fun a ha => Table.mem_select.mp ha, ?_, ?_⟩
  · rintro x l u u' ⟨hI, hl, hn, hall⟩ hstep
    obtain ⟨hx, hxr, hxe⟩ := hl x List.mem_cons_self
    obtain ⟨n, hnm, hnid, r, hrm, hrid, rfl⟩ := reclaimAttempt_ok hstep
    rw [List.map_cons, List.nodup_cons] at hn
    have hne : ∀ a ∈ l, a ≠ x := fun a ha he => hn.1 (he ▸ List.mem_map_of_mem ha)
    refine ⟨hk u x hx hxr hxe n hnm hnid r hrm hrid hI, fun a ha => ?_, hn.2, fun a' ha' hr' => ?_⟩
    · obtain ⟨hau, har⟩ := hl a (List.mem_cons_of_mem x ha)
      rw [release_attempts]
      exact ⟨Table.mem_update_of_not rfl hau fun h => hne a ha ((closes_self hx hxr hau).mp h), har⟩
    · rw [release_attempts] at ha'
      rcases Table.update_cases rfl ha' with ⟨a, _, _, rfl⟩ | ⟨ha, hax⟩
      · cases hr'
      · refine (hall a' ha hr').imp_right fun hm =>
          (List.mem_cons.mp hm).resolve_left fun he => hax ?_
        exact (closes_self hx hxr ha).mpr he
  · exact s.attempts.nodup.sublist (List.filter_sublist.map _)
  · intro a ha hr
    obtain ⟨u, hu⟩ := WorkflowAttempt.leaseUntil_of_running (Table.check_of_mem ha) hr
    by_cases hle : u ≤ now
    · exact .inr (Table.mem_select.mpr ⟨ha, hr, expired_iff.mpr ⟨u, hu, hle⟩⟩)
    · exact .inl (live_iff.mpr ⟨u, hu, Nat.lt_of_not_le hle⟩)

end Expiry

section Claims

/-- The active list asks no more of a run than the other does. -/
def Fewer (x y : ActiveList) : Prop := x.length ≤ y.length ∧ ∀ a ∈ x, a ∈ y

theorem Fewer.snoc {x y : ActiveList} (h : Fewer x y)
    (a : WorkflowConcurrencyPolicy × List String) : Fewer (a :: x) (y ++ [a]) := by
  refine ⟨by simpa using h.1, fun b hb => ?_⟩
  rcases List.mem_cons.mp hb with rfl | hb
  · simp
  · exact List.mem_append_left _ (h.2 b hb)

theorem Fewer.conflicts {x y : ActiveList} (h : Fewer x y) {policy : WorkflowConcurrencyPolicy}
    {keys : List String} (hy : conflicts policy keys y = false) :
    Fairy.Workflow.conflicts policy keys x = false := by
  cases x with
  | nil => rfl
  | cons a x =>
    cases y with
    | nil => simp [Fewer] at h
    | cons b y =>
      simp only [Workflow.conflicts, List.isEmpty_cons, Bool.false_eq_true, if_false] at hy ⊢
      split at hy
      · cases hy
      · rename_i hp
        rw [if_neg hp]
        rw [List.any_eq_false] at hy ⊢
        exact fun z hz => hy z (h.2 z hz)

/-- What the claim of a picked row relies on when its turn comes. -/
structure Upcoming (u : Store) (row : ReadyRow) : Prop where
  node : row.node ∈ u.nodes
  ready : row.node.status = .ready
  run : ∃ r ∈ u.runs, row.RunTarget r ∧ r.activePlanRevision = row.node.planRevision ∧
    r.pauseRequested = false ∧ r.cancellationRevision = row.run.cancellationRevision ∧
    r.budget = row.run.budget

variable {P : Time → Prop} {s u : Store} {row : ReadyRow} {workerId : String}
  {leaseUntil now : Time} {claims : List WorkflowAttemptClaim}

theorem Upcoming.target (h : Upcoming u row) {n : WorkflowNode} (hn : n ∈ u.nodes) :
    row.Target n ↔ n = row.node := by
  constructor
  · exact fun ht => Table.eq_of_key hn h.node ht.1
  · rintro rfl
    exact ⟨rfl, h.ready, rfl⟩

/-- A node with attempts to spare is claimed. -/
theorem Upcoming.claimRow_ok (h : Upcoming u row) (hs : Leased P u)
    (hspare : row.node.attemptCount < row.node.maxAttempts) : ∃ u',
      Store.claimRow workerId leaseUntil now (u, claims) row =
        .ok (u', claims ++ [row.claim workerId leaseUntil]) ∧
      (u'.attempts.rows = u.attempts.rows ++ [row.attempt workerId leaseUntil now] ∧
        (u'.nodes.rows = u.nodes.rows.map fun n =>
          if row.Target n then row.claimedNode now n else n) ∧
        (u'.runs.rows = u.runs.rows.map fun r =>
          if row.RunTarget r then row.claimedRun now r else r) ∧ u'.edges = u.edges) := by
  obtain ⟨hrev, hpay, hmax, _⟩ := Table.check_of_mem h.node
  have hupdate : ∃ nodes, u.nodes.tryUpdate row.Target (row.claimedNode now) = some nodes := by
    refine Option.ne_none_iff_exists'.mp fun hnone => ?_
    obtain ⟨n, hn, ht, hbad⟩ := Table.tryUpdate_eq_none.mp hnone
    obtain rfl := (h.target hn).mp ht
    exact hbad ⟨hrev, hpay, hmax, hspare⟩
  have hinsert : ∃ attempts, u.attempts.insertAll [row.attempt workerId leaseUntil now] =
      some attempts := by
    refine Table.insertAll_isSome (List.nodup_singleton _) (fun a ha => ?_) fun a ha b hb he => ?_
    · obtain rfl := List.mem_singleton.mp ha
      exact ⟨⟨Nat.succ_pos _, Nat.succ_pos _, hrev⟩, .inl ⟨rfl, rfl, rfl⟩⟩
    · -- the node's attempts are numbered up to its count
      obtain rfl := List.mem_singleton.mp ha
      obtain ⟨_, _, hle, _⟩ := hs.node_of hb h.node (congrArg Prod.fst he).symm
      have : b.attemptNumber = row.node.attemptCount + 1 := congrArg Prod.snd he
      omega
  obtain ⟨nodes, hn⟩ := hupdate
  obtain ⟨attempts, ha⟩ := hinsert
  have hsel := Table.select_eq_singleton h.node fun n hn => h.target hn
  refine ⟨{ u with
    nodes, attempts, runs := u.runs.update row.RunTarget (row.claimedRun now) }, ?_,
    (Table.insertAll_eq_some ha).1, (Table.tryUpdate_eq_some hn).1, rfl, rfl⟩
  unfold Store.claimRow
  simp only [hsel, hn, ha, List.length_singleton, ne_eq, not_true_eq_false, if_false]

/-- A node whose attempts are used up breaks the whole transaction. -/
theorem Upcoming.claimRow_error (h : Upcoming u row)
    (hused : row.node.maxAttempts ≤ row.node.attemptCount) :
    Store.claimRow workerId leaseUntil now (u, claims) row =
      .error (.integrityError "ck_core_workflow_nodes_counters") := by
  have hsel := Table.select_eq_singleton h.node fun n hn => h.target hn
  have hnone : u.nodes.tryUpdate row.Target (row.claimedNode now) = none := by
    refine Table.tryUpdate_eq_none.mpr ⟨row.node, h.node, ⟨rfl, h.ready, rfl⟩, fun hc => ?_⟩
    have : row.node.attemptCount + 1 ≤ row.node.maxAttempts := hc.2.2.2
    omega
  unfold Store.claimRow
  simp only [hsel, hnone, List.length_singleton, ne_eq, not_true_eq_false, if_false]

/-- The claim of a row adds one entry to the active list of its run. -/
theorem Take.activeByRun_perm {s' : Store} (h : Take s s' row workerId leaseUntil now)
    (runId : Uuid) : (s'.activeByRun runId).Perm (if row.node.runId = runId then
      (row.node.concurrencyPolicy, row.node.resourceKeys) :: s.activeByRun runId
      else s.activeByRun runId) := by
  obtain ⟨l₁, l₂, hrows⟩ := List.append_of_mem h.node
  have hkey := s.nodes.nodup
  rw [hrows, List.map_append, List.map_cons, List.nodup_middle, List.nodup_cons] at hkey
  have hne : ∀ n ∈ l₁ ++ l₂, ¬ row.Target n := fun n hn ht =>
    hkey.1 (ht.1 ▸ List.map_append ▸ List.mem_map_of_mem hn)
  have hkeep : ∀ l : List WorkflowNode, l ⊆ l₁ ++ l₂ →
      l.map (fun n => if row.Target n then row.claimedNode now n else n) = l := by
    intro l hl
    conv_rhs => rw [← List.map_id l]
    exact List.map_congr_left fun n hn => if_neg (hne n (hl hn))
  have hrows' : s'.nodes.rows = l₁ ++ row.claimedNode now row.node :: l₂ := by
    rw [h.nodes, hrows, List.map_append, List.map_cons, if_pos ⟨rfl, h.ready, rfl⟩,
      hkeep l₁ (List.subset_append_left _ _), hkeep l₂ (List.subset_append_right _ _)]
  unfold Store.activeByRun Table.select
  rw [hrows, hrows']
  by_cases hrun : row.node.runId = runId
  · simp [hrun, h.ready, ReadyRow.claimedNode]
  · simp [hrun, ReadyRow.claimedNode]

/-- No RUNNING attempt has lost its lease. -/
def Swept (now : Time) (s : Store) : Prop :=
  ∀ a ∈ s.attempts, a.status = .running → a.live now = true

theorem Swept.not_running (hs : Leased P s) (hp : ∀ u, P u → u ≤ now) (hsw : Swept now s)
    {n : WorkflowNode} (hn : n ∈ s.nodes) (hst : n.status ≠ .running) :
    ∀ a ∈ s.attempts, a.nodeId = n.id → a.status ≠ .running := by
  intro a ha hid har
  rcases hs.held a ha n hn hid.symm har with hr | ⟨u, hu, hpu⟩
  · exact hst hr
  · obtain ⟨v, hv, hlt⟩ := live_iff.mp (hsw a ha har)
    rw [hu] at hv
    cases hv
    exact absurd hlt (Nat.not_lt.mpr (hp u hpu))

theorem Take.upcoming {s' : Store} (h : Take s s' row workerId leaseUntil now) {x : ReadyRow}
    (hx : Upcoming s x) (hne : x.node.id ≠ row.node.id) : Upcoming s' x := by
  refine ⟨h.node_cases.mpr (.inr ⟨hx.node, hne⟩), hx.ready, ?_⟩
  obtain ⟨r, hr, ht, hrest⟩ := hx.run
  by_cases hrt : row.RunTarget r
  · exact ⟨row.claimedRun now r, Table.mem_update_of h.runs hr hrt, ⟨ht.1, .inr rfl⟩, hrest⟩
  · exact ⟨r, Table.mem_update_of_not h.runs hr hrt, ht, hrest⟩

/-- Where the claims of `claim_ready` stand when the rows of `l` are still to be
claimed. -/
structure Underway (P : Time → Prop) (s : Store) (slots : Slots) (workerId : String)
    (leaseUntil now : Time) (l : List ReadyRow) (acc : Store × List WorkflowAttemptClaim) :
    Prop where
  leased : Leased P acc.1
  swept : Swept now acc.1
  upcoming : ∀ row ∈ l, Upcoming acc.1 row
  taken : ∃ pre, s.selectRows slots now = pre ++ l ∧
    acc.2 = pre.map (·.claim workerId leaseUntil) ∧
    ∀ runId, Fewer (acc.1.activeByRun runId) (s.activeByRun runId ++ picked pre runId)

variable {slots : Slots}

theorem Underway.start (hs : Leased P s) (hsw : Swept now s) :
    Underway P s slots workerId leaseUntil now (s.selectRows slots now) (s, []) where
  leased := hs
  swept := hsw
  upcoming row hrow := by
    obtain ⟨hn, hr, hid, hrev, hready, _, hst, hpause⟩ :=
      Store.mem_readyRows.mp (Store.mem_readyRows_of_selected hrow)
    exact ⟨hn, hready, row.run, hr, ⟨hid, hst⟩, hrev, hpause, rfl, rfl⟩
  taken := by
    refine ⟨[], rfl, rfl, fun runId => ?_⟩
    exact ⟨Nat.le_of_eq (by simp [picked]), fun a ha => List.mem_append_left _ ha⟩

/-- A row with attempts to spare is claimed when its turn comes. -/
theorem Underway.next {l : List ReadyRow} (hp : ∀ u, P u → u ≤ now) (hlease : now < leaseUntil)
    (h : Underway P s slots workerId leaseUntil now (row :: l) (u, claims))
    (hspare : row.node.attemptCount < row.node.maxAttempts) : ∃ u',
      Store.claimRow workerId leaseUntil now (u, claims) row =
        .ok (u', claims ++ [row.claim workerId leaseUntil]) ∧
      Take u u' row workerId leaseUntil now ∧
      Underway P s slots workerId leaseUntil now l
        (u', claims ++ [row.claim workerId leaseUntil]) := by
  have hrow := h.upcoming row List.mem_cons_self
  obtain ⟨pre, hpre, hcl, hfew⟩ := h.taken
  obtain ⟨u', hok, hA, hN, hR, hE⟩ := hrow.claimRow_ok h.leased hspare
  obtain ⟨r₀, hr₀, ht₀, hrev₀, hpause₀, hcancel₀, hbud₀⟩ := hrow.run
  obtain ⟨hroom, hapart⟩ := s.selectRows_fits pre row l hpre
  have hfree := h.swept.not_running h.leased hp hrow.node (hrow.ready ▸ nofun)
  have htake : Take u u' row workerId leaseUntil now := by
    refine ⟨hA, hN, hR, hE, hrow.node, hrow.ready, ⟨r₀, hr₀, ht₀, hrev₀, hpause₀, hcancel₀⟩,
      hfree, fun r hr hid => ?_, (hfew _).conflicts hapart⟩
    obtain rfl := Table.eq_of_key hr hr₀ (hid.trans ht₀.1.symm)
    exact hbud₀ ▸ Nat.lt_of_le_of_lt (hfew _).1 hroom
  have hdist : ∀ x ∈ l, x.node.id ≠ row.node.id := by
    have hn := s.selectRows_nodup slots now
    rw [hpre, List.map_append, List.map_cons] at hn
    have hc := (List.nodup_cons.mp hn.of_append_right).1
    exact fun x hx he => hc (he ▸ List.mem_map_of_mem hx)
  refine ⟨u', hok, htake, htake.leasedInv h.leased, fun a ha har => ?_,
    fun x hx => htake.upcoming (h.upcoming x (List.mem_cons_of_mem _ hx)) (hdist x hx),
    pre ++ [row], by simp [hpre], by simpa using hcl, fun runId => ?_⟩
  · obtain ha | rfl := htake.mem_attempts.mp ha
    · exact h.swept a ha har
    · exact live_iff.mpr ⟨leaseUntil, rfl, hlease⟩
  · have hperm := htake.activeByRun_perm runId
    rw [picked_snoc]
    by_cases hrun : row.node.runId = runId
    · rw [if_pos hrun] at hperm ⊢
      rw [← List.append_assoc]
      have := (hfew runId).snoc (row.node.concurrencyPolicy, row.node.resourceKeys)
      exact ⟨hperm.length_eq ▸ this.1, fun a ha => this.2 a (hperm.subset ha)⟩
    · rw [if_neg hrun] at hperm ⊢
      rw [List.append_nil]
      exact ⟨hperm.length_eq ▸ (hfew runId).1, fun a ha => (hfew runId).2 a (hperm.subset ha)⟩

/-- The rule of the claims `claim_ready` makes: the picked rows are claimed one
after the other, none is passed over. -/
theorem claims_rule {I : Store → List WorkflowAttemptClaim → Prop}
    (hs : Leased P s) (hp : ∀ u, P u → u ≤ now) (hsw : Swept now s) (hlease : now < leaseUntil)
    (hk : ∀ u u' cl, ∀ row ∈ s.selectRows slots now, row.node.attemptCount < row.node.maxAttempts →
      Take u u' row workerId leaseUntil now → Leased P u → I u cl →
      I u' (cl ++ [row.claim workerId leaseUntil]))
    {s' : Store} (h : (s.selectRows slots now).foldlM (Store.claimRow workerId leaseUntil now)
      (s, []) = .ok (s', claims)) (hi : I s []) :
    I s' claims ∧ claims = (s.selectRows slots now).map (·.claim workerId leaseUntil) := by
  let J := fun (l : List ReadyRow) (acc : Store × List WorkflowAttemptClaim) =>
    I acc.1 acc.2 ∧ Underway P s slots workerId leaseUntil now l acc
  suffices J [] (s', claims) by
    obtain ⟨hI, hu⟩ := this
    obtain ⟨pre, hpre, hcl, _⟩ := hu.taken
    rw [List.append_nil] at hpre
    exact ⟨hI, hpre ▸ hcl⟩
  refine foldlM_rule (I := J) ?_ h ⟨hi, .start hs hsw⟩
  rintro row l ⟨u, cl⟩ acc ⟨hI, hu⟩ hstep
  obtain ⟨pre, hpre, _⟩ := hu.taken
  have hmem : row ∈ s.selectRows slots now := hpre ▸ List.mem_append_right _ List.mem_cons_self
  have hspare : row.node.attemptCount < row.node.maxAttempts := by
    by_contra hx
    rw [(hu.upcoming row List.mem_cons_self).claimRow_error (Nat.not_lt.mp hx)] at hstep
    cases hstep
  obtain ⟨u', hok, htake, hnext⟩ := hu.next hp hlease hspare
  rw [hok] at hstep
  cases hstep
  exact ⟨hk u u' cl row hmem hspare htake hu.leased hI, hnext⟩

/-- The claims do not raise while every picked row has attempts to spare. -/
theorem claims_total (hs : Leased P s) (hp : ∀ u, P u → u ≤ now) (hsw : Swept now s)
    (hlease : now < leaseUntil)
    (hspare : ∀ row ∈ s.selectRows slots now, row.node.attemptCount < row.node.maxAttempts) :
    ∃ acc, (s.selectRows slots now).foldlM (Store.claimRow workerId leaseUntil now) (s, []) =
      .ok acc := by
  have h := foldlM_total (I := Underway P s slots workerId leaseUntil now)
    (f := Store.claimRow workerId leaseUntil now) ?_ (.start hs hsw)
  · exact h.imp fun _ ho => ho.1
  rintro row l ⟨u, cl⟩ hu
  obtain ⟨pre, hpre, _⟩ := hu.taken
  have hmem : row ∈ s.selectRows slots now := hpre ▸ List.mem_append_right _ List.mem_cons_self
  obtain ⟨u', hok, _, hnext⟩ := hu.next hp hlease (hspare row hmem)
  exact ⟨_, hok, hnext⟩

/-- A claim `claim_ready` returns leaves its node RUNNING, under a RUNNING
attempt that answers to the claim. -/
theorem claims_issued (hs : Leased P s) (hp : ∀ u, P u → u ≤ now)
    (hsw : Swept now s) (hlease : now < leaseUntil) {s' : Store}
    (h : (s.selectRows slots now).foldlM (Store.claimRow workerId leaseUntil now)
      (s, []) = .ok (s', claims)) {c : WorkflowAttemptClaim} (hc : c ∈ claims) :
    ∃ row ∈ s.selectRows slots now, c = row.claim workerId leaseUntil ∧
      row.claimedNode now row.node ∈ s'.nodes ∧
      row.attempt workerId leaseUntil now ∈ s'.attempts := by
  let I := fun (u : Store) (cl : List WorkflowAttemptClaim) => ∀ c ∈ cl,
    ∃ row ∈ s.selectRows slots now, c = row.claim workerId leaseUntil ∧
      row.claimedNode now row.node ∈ u.nodes ∧ row.attempt workerId leaseUntil now ∈ u.attempts
  refine (claims_rule (I := I) hs hp hsw hlease ?_ h fun _ hx => absurd hx List.not_mem_nil).1 c hc
  intro u u' cl row hrow _ htake _ hI c hc
  rcases List.mem_append.mp hc with hc | hc
  · obtain ⟨x, hx, he, hn, ha⟩ := hI c hc
    refine ⟨x, hx, he, htake.node_cases.mpr (.inr ⟨hn, fun hid => ?_⟩),
      htake.mem_attempts.mpr (.inl ha)⟩
    have heq := Table.eq_of_key hn htake.node hid
    exact absurd (heq ▸ htake.ready : (x.claimedNode now x.node).status = .ready) nofun
  · rw [List.mem_singleton.mp hc]
    exact ⟨row, hrow, rfl, htake.node_cases.mpr (.inl rfl), htake.mem_attempts.mpr (.inr rfl)⟩

end Claims

end Fairy.Workflow
