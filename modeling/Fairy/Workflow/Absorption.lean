import Fairy.Workflow.Pausing

namespace Fairy.Workflow

open Fairy.Lib

/-- The RUNNING attempts of a terminal run have leases that end in `P`. -/
def Quiet (P : Time → Prop) (s : Store) : Prop :=
  ∀ r ∈ s.runs, r.status.terminal = true →
    ∀ a ∈ s.attempts, a.runId = r.id → a.status = .running → a.Ends P

/-- Terminal runs keep their status and their completion, and none of their
nodes is made READY or RUNNING. -/
structure Frozen (s s' : Store) : Prop where
  runs : ∀ r ∈ s.runs, r.status.terminal = true → ∃ r' ∈ s'.runs, r'.id = r.id ∧
    r'.status = r.status ∧ r'.completedAt = r.completedAt
  nodes : ∀ r ∈ s.runs, r.status.terminal = true → ∀ n' ∈ s'.nodes, n'.runId = r.id →
    n'.status = .ready ∨ n'.status = .running →
    ∃ n ∈ s.nodes, n.id = n'.id ∧ n.runId = r.id ∧ n.status = n'.status

theorem Frozen.refl (s : Store) : Frozen s s :=
  ⟨fun r hr _ => ⟨r, hr, rfl, rfl, rfl⟩, fun _ _ _ n hn hrun _ => ⟨n, hn, rfl, hrun, rfl⟩⟩

theorem Frozen.trans {s t u : Store} (h : Frozen s t) (k : Frozen t u) : Frozen s u where
  runs r hr ht := by
    obtain ⟨q, hq, hid, hst, hat⟩ := h.runs r hr ht
    obtain ⟨p, hp, hid', hst', hat'⟩ := k.runs q hq (hst ▸ ht)
    exact ⟨p, hp, hid'.trans hid, hst'.trans hst, hat'.trans hat⟩
  nodes r hr ht n hn hrun hn' := by
    obtain ⟨q, hq, hid, hst, _⟩ := h.runs r hr ht
    obtain ⟨m, hm, hmid, hmrun, hmst⟩ := k.nodes q hq (hst ▸ ht) n hn (hrun.trans hid.symm) hn'
    obtain ⟨l, hl, hlid, hlrun, hlst⟩ :=
      h.nodes r hr ht m hm (hmrun.trans hid) (hmst ▸ hn')
    exact ⟨l, hl, hlid.trans hmid, hlrun, hlst.trans hmst⟩

section

variable {P Q : Time → Prop} {s s' : Store} {id : Uuid} {now : Time} {r : WorkflowRun}

theorem Quiet.mono (h : Quiet P s) (hpq : ∀ u, P u → Q u) : Quiet Q s :=
  fun r hr ht a ha hid har => (h r hr ht a ha hid har).imp fun u hu => ⟨hu.1, hpq u hu.2⟩

/-- A change to a run that is not terminal freezes the terminal ones. -/
theorem Frozen.of_confined (hc : Confined id s s')
    (hopen : ∀ r ∈ s.runs, r.id = id → r.status.terminal = false) : Frozen s s' := by
  have hne : ∀ r ∈ s.runs, r.status.terminal = true → r.id ≠ id := by
    intro r hr ht hid
    rw [hopen r hr hid] at ht
    cases ht
  constructor
  · intro r hr ht
    exact ⟨r, (hc.runs r (hne r hr ht)).mpr hr, rfl, rfl, rfl⟩
  · intro r hr ht n hn hrun _
    have hnid : n.runId ≠ id := hrun ▸ hne r hr ht
    exact ⟨n, (hc.nodes n hnid).mp hn, rfl, hrun, rfl⟩

theorem Quiet.of_confined (h : Quiet P s) (hc : Confined id s s')
    (hr : ∀ r ∈ s'.runs, r.id = id → r.status.terminal = true →
      ∀ a ∈ s'.attempts, a.runId = r.id → a.status = .running → a.Ends P) : Quiet P s' := by
  intro r hrs ht a ha hrun har
  by_cases hid : r.id = id
  · exact hr r hrs hid ht a ha hrun har
  · exact h r ((hc.runs r hid).mp hrs) ht a ((hc.attempts a (hrun.trans_ne hid)).mp ha) hrun har

/-- A run that is left open keeps the others quiet. -/
theorem Quiet.of_open (h : Quiet P s) (hc : Confined id s s')
    (hr : ∀ r ∈ s'.runs, r.id = id → r.status.terminal = false) : Quiet P s' := by
  apply h.of_confined hc
  intro r hrs hid ht
  rw [hr r hrs hid] at ht
  cases ht

/-- A run whose attempts are all closed is quiet. -/
theorem Quiet.of_idle (h : Quiet P s) (hc : Confined id s s')
    (ha : ∀ a ∈ s'.attempts, a.runId = id → a.status ≠ .running) : Quiet P s' := by
  apply h.of_confined hc
  intro r _ hid _ a ham hrun har
  exact absurd har (ha a ham (hrun.trans hid))

theorem Quiet.closeOverdue (h : Quiet P s) : Quiet P (s.closeOverdue r now) := by
  refine h.of_idle closeOverdue_confined fun a ha hrun har => ?_
  obtain ⟨_, _, _, rfl⟩ | ⟨_, hp⟩ := Table.update_cases rfl ha
  · cases har
  · exact hp ⟨hrun, har⟩

theorem Frozen.closeOverdue (hr : r ∈ s.runs) (ht : r.status.terminal = false) :
    Frozen s (s.closeOverdue r now) := by
  refine .of_confined closeOverdue_confined fun q hq hid => ?_
  rwa [Table.eq_of_key hq hr hid]

theorem Quiet.cancelRun (h : Quiet P s) : Quiet P (s.cancelRun id now) := by
  refine h.of_idle cancelRun_confined fun a ha hrun har => ?_
  obtain ⟨_, _, _, rfl⟩ | ⟨_, hp⟩ := Table.update_cases rfl ha
  · cases har
  · exact hp ⟨hrun, har, nofun⟩

theorem settledStatus_terminal (h : (s.settledStatus r).terminal = true) : ∀ n ∈ s.nodes,
    n.runId = r.id → n.planRevision = r.activePlanRevision → n.status.terminal = true := by
  intro n hn hrun hrev
  have hmem : n.status ∈ (s.nodes.select fun n => n.runId = r.id ∧
      n.planRevision = r.activePlanRevision).map WorkflowNode.status :=
    List.mem_map_of_mem (Table.mem_select.mpr ⟨hn, hrun, hrev⟩)
  unfold Store.settledStatus at h
  dsimp only at h
  split at h
  · cases h
  split at h
  · rename_i hall
    exact hall.2 _ hmem
  · split at h
    · cases h
    split at h
    · cases h
    split at h <;> cases h

section Release

variable {u : Store} {b : WorkflowAttempt} {node : WorkflowNode} {errorCode : String}

/-- The node of a lost attempt has no attempts left. -/
def Spent (s : Store) (b : WorkflowAttempt) : Prop :=
  ∃ n ∈ s.nodes, n.id = b.nodeId ∧ n.maxAttempts ≤ n.attemptCount

/-- The other RUNNING attempts of the run have lost their leases. -/
def Alone (s : Store) (now : Time) (b : WorkflowAttempt) : Prop :=
  ∀ a ∈ s.attempts, a.runId = b.runId → a.status = .running → a ≠ b → a.expired now = true

theorem Dropped.quiet (hd : Dropped s u b) (hn : node ∈ s.nodes) (hid : node.id = b.nodeId)
    (hrun : node.runId = r.id) (hr : r ∈ s.runs) (hrid : r.id = b.runId) (hp : ∀ u, u ≤ now → P u)
    (hok : r.status.terminal = false → Spent s b → Alone s now b) (h : Quiet P s) :
    Quiet P (u.release r node errorCode now) := by
  have hc : Confined r.id s (u.release r node errorCode now) :=
    (hrid ▸ hd.confined).trans (release_confined (hd.nodes ▸ hn) hrun)
  refine h.of_confined hc fun q hq hqid ht a ha harun har => ?_
  rw [release_attempts] at ha
  obtain ⟨has, hne⟩ := (hd.attempts a har).mp ha
  cases release_runs (hd.runs ▸ hr) hq hqid with
  | ended hrt => exact h r hr hrt a has harun har
  | failed hrt hx =>
    have hexp := hok hrt ⟨node, hn, hid, hx⟩ a has (harun.trans hrid) har hne
    exact (expired_iff.mp hexp).imp fun v hv => ⟨hv.1, hp v hv.2⟩
  | busy hrt => exact absurd (hrt.symm.trans ht) (by decide)
  | paused => cases ht
  | queued => cases ht

theorem Dropped.frozen (hd : Dropped s u b) (hn : node ∈ s.nodes) (hrun : node.runId = r.id)
    (hr : r ∈ s.runs) (hrid : r.id = b.runId) : Frozen s (u.release r node errorCode now) := by
  have hc : Confined r.id s (u.release r node errorCode now) :=
    (hrid ▸ hd.confined).trans (release_confined (hd.nodes ▸ hn) hrun)
  cases ht : r.status.terminal with
  | false =>
    refine .of_confined hc fun q hq hid => ?_
    rwa [Table.eq_of_key hq hr hid]
  | true =>
    -- nothing is written to a terminal run, and its node is CANCELLED
    have hnext : Store.releasedStatus r node = .cancelled := by simp [Store.releasedStatus, ht]
    constructor
    · intro q hq hqt
      by_cases hid : q.id = r.id
      · obtain rfl := Table.eq_of_key hq hr hid
        obtain ⟨p, hp, hpid⟩ : ∃ p ∈ (u.release q node errorCode now).runs, p.id = q.id :=
          release_keeps (hd.runs ▸ hq)
        cases release_runs (hd.runs ▸ hq) hp hpid with
        | ended => exact ⟨q, hp, rfl, rfl, rfl⟩
        | failed hrt => exact absurd (hrt.symm.trans ht) (by decide)
        | busy hrt => exact absurd (hrt.symm.trans ht) (by decide)
        | paused hrt => exact absurd (hrt.symm.trans ht) (by decide)
        | queued hrt => exact absurd (hrt.symm.trans ht) (by decide)
      · exact ⟨q, (hc.runs q hid).mpr hq, rfl, rfl, rfl⟩
    · intro q hq hqt n hn' hnrun hst
      rw [release_nodes, hnext] at hn'
      obtain ⟨m, _, _, rfl⟩ | ⟨hm, _⟩ := Table.update_cases rfl hn'
      · simp [WorkflowNode.released] at hst
      · exact ⟨n, hd.nodes ▸ hm, rfl, hnrun, rfl⟩

end Release

theorem Quiet.take {row : ReadyRow} {workerId : String} {leaseUntil : Time}
    (h : Quiet P s) (htake : Take s s' row workerId leaseUntil now) : Quiet P s' := by
  refine h.of_open htake.confined fun q hq hid => ?_
  obtain ⟨r₀, hr₀, ht₀, _⟩ := htake.run
  obtain ⟨k, _, _, rfl⟩ | ⟨hq, hne⟩ := Table.update_cases htake.runs hq
  · rfl
  · rw [Table.eq_of_key hq hr₀ (hid.trans ht₀.1.symm)] at hne
    exact absurd ht₀ hne

theorem Take.frozen {row : ReadyRow} {workerId : String} {leaseUntil : Time}
    (h : Take s s' row workerId leaseUntil now) : Frozen s s' := by
  refine .of_confined h.confined fun q hq hid => ?_
  obtain ⟨r₀, hr₀, ht₀, _⟩ := h.run
  rw [Table.eq_of_key hq hr₀ (hid.trans ht₀.1.symm)]
  obtain hst | hst := ht₀.2 <;> rw [hst] <;> rfl

/-- A renewal reaches no attempt whose lease is over. -/
theorem Quiet.renewLease {c : WorkflowAttemptClaim} {leaseUntil live : Time} (h : Quiet P s)
    (hp : ∀ u, P u → u ≤ live) : Quiet P (s.renewLease c leaseUntil live) := by
  intro r hr ht a ha hrun har
  obtain ⟨b, hb, hl, rfl⟩ | ⟨ha, _⟩ := Table.update_cases rfl ha
  · obtain ⟨u, hu, hpu⟩ := h r hr ht b hb hrun har
    obtain ⟨v, hv, hlt⟩ := live_iff.mp hl.2
    rw [hu] at hv
    cases hv
    exact absurd (hp u hpu) (Nat.not_le.mpr hlt)
  · exact h r hr ht a ha hrun har

section Settlements

variable {c : WorkflowAttemptClaim} {guard live : Time} {a : WorkflowAttempt} {n : WorkflowNode}

/-- A claim in order belongs to a run that is not terminal. -/
theorem Claimed.unfinished (hc : Claimed s c guard a n r) (hq : Quiet P s)
    (hp : ∀ u, P u → u ≤ guard) : ∀ q ∈ s.runs, q.id = c.runId → q.status.terminal = false := by
  intro q hqs hid
  by_contra hne
  have ht : q.status.terminal = true := by simpa using hne
  have harun : a.runId = q.id := hc.predicates.2.2.1.trans hid.symm
  obtain ⟨u, hu, hpu⟩ := hq q hqs ht a hc.attempt harun hc.predicates.running
  obtain ⟨v, hv, hlt⟩ := live_iff.mp hc.live
  rw [hu] at hv
  cases hv
  exact absurd (hp u hpu) (Nat.not_le.mpr hlt)

theorem Quiet.setRunStatus (h : Quiet P s) (hc : Confined id s s') {status : WorkflowRunStatus}
    (hR : s'.runs.rows =
      s.runs.rows.map fun r => if r.id = id then { r with status, updatedAt := now } else r)
    (hst : status.terminal = false) : Quiet P s' := by
  refine h.of_open hc fun q hq hid => ?_
  obtain ⟨k, _, _, rfl⟩ | ⟨_, hne⟩ := Table.update_cases hR hq
  · exact hst
  · exact absurd hid hne

/-- When every active node of the run is terminal, its RUNNING attempts have lost
their leases. -/
theorem Quiet.stampRun {u : Store} (h : Quiet P s) (hc : Confined id s u) (hu : Leased P u)
    (hr : r ∈ u.runs) (hid : r.id = id) :
    Quiet P (u.stampRun id (u.settledStatus r) now) := by
  refine h.of_confined (hc.trans stampRun_confined) fun q hq hqid ht a ha hrun har => ?_
  obtain ⟨k, hk, hkid, rfl⟩ | ⟨_, hne⟩ := Table.update_cases rfl hq
  · obtain rfl := Table.eq_of_key hk hr (hkid.trans hid.symm)
    obtain ⟨m, hm, hmid, hmrun, hmrev, _⟩ := hu.placed a ha
    have hrev := hu.active a ha har k hk hrun.symm
    have hmt : m.status.terminal = true :=
      settledStatus_terminal ht m hm (hmrun.trans hrun) (hmrev.trans hrev)
    obtain hmr | he := hu.held a ha m hm hmid har
    · rw [hmr] at hmt
      cases hmt
    · exact he
  · exact absurd hqid hne

theorem Quiet.failClaim (h : Quiet P s) (hs : Leased Q s) (hc : Claimed s c guard a n r)
    {errorCode : String}
    (hq : ∀ u, a.leaseUntil = some u → guard < u → u ≤ live → P u) :
    Quiet P (s.failClaim c errorCode now live) := by
  refine h.of_confined (hc.failClaim_confined hs) fun q _ hid _ b hb hrun hbr => ?_
  exact hc.failClaim_ends hs hq hb (hrun.trans hid) hbr

end Settlements

theorem Quiet.of_same (h : Quiet P s) (hR : s'.runs = s.runs) (hA : s'.attempts = s.attempts) :
    Quiet P s' := by
  intro r hr ht a ha
  rw [hR] at hr
  rw [hA] at ha
  exact h r hr ht a ha

theorem Frozen.of_same (hR : s'.runs = s.runs) (hN : s'.nodes = s.nodes) : Frozen s s' := by
  constructor
  · exact fun r hr _ => ⟨r, hR ▸ hr, rfl, rfl, rfl⟩
  · exact fun _ _ _ n hn hrun _ => ⟨n, hN ▸ hn, rfl, hrun, rfl⟩

/-- A run that a call looked up by its id. -/
theorem unfinished_of_mem (hr : r ∈ s.runs) (hid : r.id = id) (ht : r.status.terminal = false) :
    ∀ q ∈ s.runs, q.id = id → q.status.terminal = false := by
  intro q hq hqid
  rwa [Table.eq_of_key hq hr (hqid.trans hid.symm)]

/-- An attempt whose loss fails its run is the last of the run with a lease. -/
def Op.LosesLast (t : Readings) (s : Store) : Op → Prop
  | abandon c => ∀ b ∈ s.attempts, ClaimPredicates c b →
      (∃ r ∈ s.runs, r.id = b.runId ∧ r.status.terminal = false) → Spent s b → Alone s t.first b
  | claimReady _ _ _ => ∀ b ∈ s.attempts, b.status = .running → b.expired t.first = true →
      (∃ r ∈ s.runs, r.id = b.runId ∧ r.status.terminal = false ∧ ¬ r.overdue t.first) →
      Spent s b → Alone s t.first b
  | _ => True

theorem Remains.spent {b : WorkflowAttempt} {u : Store} (h : Remains s u) (hb : Spent u b) :
    Spent s b := by
  obtain ⟨n, hn, hid, hx⟩ := hb
  obtain ⟨m, hm, hmid, hcount, hmax⟩ := h.nodes n hn
  exact ⟨m, hm, hmid.trans hid, hcount ▸ hmax ▸ hx⟩

theorem Remains.alone {b : WorkflowAttempt} {u : Store} (h : Remains s u) (ha : Alone s now b) :
    Alone u now b :=
  fun a hau hrun har hne => ha a (h.attempts a hau har) hrun har hne

theorem Outcome.frozen {t : Readings} {op : Op} (hs : Leased P s) (hl : Linked s)
    (hp : ∀ u, P u → u ≤ t.first) (hq : Quiet (· ≤ t.first) s) (h : Outcome t s op s') :
    Frozen s s' := by
  have hle : ∀ u, u ≤ t.first → u ≤ t.second := fun u hu => hu.trans t.le_second
  cases h with
  | unchanged => exact .refl s
  | create hv hkey hrev hst hA hR hnew hN hE =>
    exact .of_confined (create_confined hv hA hR hN hE) fun r hr hid => absurd hid (hnew r hr)
  | appendPlan hv hr hid hst hrev hidle hA hR hN hE =>
    exact .of_confined (appendPlan_confined hv hA hR hN hE) (unfinished_of_mem hr hid hst)
  | @claimReady workerId leaseUntil slots claims u _ hlease hu hc =>
    have hsu : Leased P u := (sweep_moves (Q := P) hs hu).leased hs
    have hswept : Frozen s u := by
      refine (sweep_rule (I := Frozen s) hs ?_ ?_ hu (.refl s)).1
      · exact fun v r hr ht _ _ hI => hI.trans (.closeOverdue hr ht)
      · intro v w b hd _ n hn _ hrun r hr hrid _ _ _ hI
        exact hI.trans (hd.frozen hn (hrun.trans hrid.symm) hr hrid)
    refine (claims_rule (I := fun v _ => Frozen s v) hsu hp (reclaimExpired_swept hu) hlease ?_ hc
      hswept).1
    exact fun v v' _ row _ _ htake _ hI => hI.trans htake.frozen
  | renew =>
    have hx : Frozen s (s.expireOverdue t.first) :=
      (expireOverdue_rule (I := Frozen s)
        (fun v r hr ht _ hI => hI.trans (.closeOverdue hr ht)) (.refl s)).1
    exact hx.trans (.of_same rfl rfl)
  | complete hc hu =>
    subst hu
    exact .of_confined ((hc.complete_confined hs hl).trans stampRun_confined)
      (hc.unfinished hq fun _ hu => hu)
  | retry hc => exact .of_confined (hc.retryClaim_confined hs) (hc.unfinished hq fun _ hu => hu)
  | defer hc => exact .of_confined (hc.deferClaim_confined hs) (hc.unfinished hq fun _ hu => hu)
  | retryFail hc => exact .of_confined (hc.failClaim_confined hs) (hc.unfinished hq hle)
  | deferFail hc => exact .of_confined (hc.failClaim_confined hs) (hc.unfinished hq hle)
  | waitForApproval hc =>
    exact .of_confined (hc.waitClaim_confined hs) (hc.unfinished hq fun _ hu => hu)
  | waitForInput hc =>
    exact .of_confined (hc.waitClaim_confined hs) (hc.unfinished hq fun _ hu => hu)
  | fail hc => exact .of_confined (hc.failClaim_confined hs) (hc.unfinished hq fun _ hu => hu)
  | @abandon c a n r ha hpr hn hnid hr hid =>
    have hrun := (hs.node_of ha hn (hnid.trans hpr.1.symm)).1
    have hrid : r.id = a.runId := hid.trans hpr.2.2.1.symm
    exact (abandonAttempt_dropped ha hpr).frozen hn (hrun.trans hrid.symm) hr hrid
  | requestPause hr hid hst => exact .of_confined pauseRun_confined (unfinished_of_mem hr hid hst)
  | resume hr hid hst =>
    refine .of_confined ?_ (unfinished_of_mem hr hid hst)
    exact (hid ▸ wakeNodes_confined).trans resumeRun_confined
  | cancel hr hid hst => exact .of_confined cancelRun_confined (unfinished_of_mem hr hid hst)
  | rebudget hR hk =>
    constructor
    · intro r hr _
      exact ⟨_, (Table.mem_of_rows_map hR).mpr ⟨r, hr, rfl⟩, (hk r hr).kept.id, (hk r hr).status,
        (hk r hr).completedAt⟩
    · exact fun _ _ _ n hn hrun _ => ⟨n, hn, rfl, hrun, rfl⟩
  | instruct => exact .of_same rfl rfl

theorem Outcome.quiet {t : Readings} {op : Op} (hs : Leased P s) (hl : Linked s)
    (hp : ∀ u, P u → u ≤ t.first) (hok : op.LosesLast t s) (hq : Quiet (· ≤ t.first) s)
    (h : Outcome t s op s') : Quiet (· ≤ op.horizon t) s' := by
  have hle := (Op.horizon_le op t).1
  have hq' : Quiet (· ≤ op.horizon t) s := hq.mono fun u hu => hu.trans hle
  cases h with
  | unchanged => exact hq'
  | @create run nodes edges normalized _ hv hkey hrev hst hA hR hnew hN hE =>
    refine hq'.of_open (create_confined hv hA hR hN hE) fun r hr hid => ?_
    obtain hr | hr := (Table.mem_of_rows_append hR).mp hr
    · exact absurd hid (hnew r hr)
    · rw [List.mem_singleton.mp hr, hst]
      rfl
  | appendPlan hv hr hid hst hrev hidle hA hR hN hE =>
    refine hq'.of_open (appendPlan_confined hv hA hR hN hE) fun q hq hqid => ?_
    rw [hR] at hq
    obtain ⟨_, _, _, rfl⟩ | ⟨hq, hne⟩ := Table.update_cases rfl hq
    · rfl
    · rw [Table.eq_of_key hq hr (hqid.trans hid.symm)] at hne
      exact absurd ⟨hid, hrev⟩ hne
  | @claimReady workerId leaseUntil slots claims u _ hlease hu hc =>
    have hsu : Leased P u := (sweep_moves (Q := P) hs hu).leased hs
    have hswept : Quiet (· ≤ t.third) u := by
      refine (sweep_rule hs (fun _ _ _ _ _ _ hI => hI.closeOverdue) ?_ hu hq').1
      intro v w b hd hbe n hn hid hrun r hr hrid hdue _ hm hI
      refine hd.quiet hn hid (hrun.trans hrid.symm) hr hrid (fun _ hx => hx.trans hle) ?_ hI
      -- what is lost in the loop was lost when the call was made
      intro ht hspent
      obtain ⟨q, hq, hqid, hat, hbud, hqt⟩ := hm.runs r hr
      have hqdue : ¬ q.overdue t.first := by
        unfold WorkflowRun.overdue
        rw [hat, hbud]
        exact hdue ht
      exact hm.alone (hok b (hm.attempts b hd.attempt hd.running) hd.running hbe
        ⟨q, hq, hqid.trans hrid, hqt ht, hqdue⟩ (hm.spent hspent))
    refine (claims_rule (I := fun v _ => Quiet (· ≤ t.third) v) hsu hp (reclaimExpired_swept hu)
      hlease ?_ hc hswept).1
    exact fun v v' _ row _ _ htake _ hI => hI.take htake
  | renew =>
    have hx : Quiet (· ≤ t.second) (s.expireOverdue t.first) :=
      (expireOverdue_rule (I := Quiet (· ≤ t.second)) (fun _ _ _ _ _ hI => hI.closeOverdue) hq').1
    exact hx.renewLease fun _ hu => hu
  | complete hc hu hr hid =>
    have hm : Moves (· ≤ t.third) s _ := hu ▸ hc.complete_moves hs hl fun _ _ _ hv =>
      hv.trans t.le_third
    refine hq'.stampRun (hu ▸ hc.complete_confined hs hl) ?_ hr hid
    exact hm.leased (hs.mono fun u hu => (hp u hu).trans hle)
  | retry hc => exact hq'.setRunStatus (hc.retryClaim_confined hs) rfl rfl
  | defer hc => exact hq'.setRunStatus (hc.deferClaim_confined hs) rfl rfl
  | retryFail hc => exact hq'.failClaim hs hc fun _ _ _ hu => hu
  | deferFail hc => exact hq'.failClaim hs hc fun _ _ _ hu => hu
  | waitForApproval hc => exact hq'.setRunStatus (hc.waitClaim_confined hs) rfl rfl
  | waitForInput hc => exact hq'.setRunStatus (hc.waitClaim_confined hs) rfl rfl
  | fail hc => exact hq'.failClaim hs hc fun _ _ _ hu => hu.trans t.le_third
  | @abandon c a n r ha hpr hn hnid hr hid =>
    have hrun := (hs.node_of ha hn (hnid.trans hpr.1.symm)).1
    have hrid : r.id = a.runId := hid.trans hpr.2.2.1.symm
    exact (abandonAttempt_dropped ha hpr).quiet hn (hnid.trans hpr.1.symm) (hrun.trans hrid.symm) hr
      hrid (fun _ hx => hx.trans hle) (fun ht => hok a ha hpr ⟨r, hr, hrid, ht⟩) hq'
  | requestPause hr hid hst =>
    refine hq'.of_open pauseRun_confined fun q hq hqid => ?_
    obtain ⟨_, _, _, rfl⟩ | ⟨_, hne⟩ := Table.update_cases rfl hq
    · dsimp only
      split <;> rfl
    · exact absurd hqid hne
  | @resume _ r hr hid hst =>
    have hw : Quiet (· ≤ t.third) (s.wakeNodes r t.first) :=
      hq'.of_same wakeNodes_runs wakeNodes_attempts
    refine hw.of_open resumeRun_confined fun q hq hqid => ?_
    obtain ⟨_, _, _, rfl⟩ | ⟨_, hne⟩ := Table.update_cases rfl hq
    · dsimp only
      split <;> rfl
    · exact absurd hqid hne
  | cancel => exact hq'.cancelRun
  | rebudget hR hk =>
    intro r hr ht a ha hrun
    obtain ⟨q, hq, rfl⟩ := (Table.mem_of_rows_map hR).mp hr
    rw [(hk q hq).status] at ht
    rw [(hk q hq).kept.id] at hrun
    exact hq' q hq ht a ha hrun
  | instruct => exact hq'.of_same rfl rfl

end

instance (s : Store) (b : WorkflowAttempt) : Decidable (Spent s b) :=
  inferInstanceAs (Decidable (∃ n ∈ s.nodes.rows, _ ∧ _))

instance (s : Store) (now : Time) (b : WorkflowAttempt) : Decidable (Alone s now b) :=
  inferInstanceAs (Decidable (∀ a ∈ s.attempts.rows, _ → _ → a ≠ b → _))

instance (t : Readings) (s : Store) : ∀ op : Op, Decidable (op.LosesLast t s)
  | .abandon _ => inferInstanceAs (Decidable (∀ b ∈ s.attempts.rows, _ →
      (∃ r ∈ s.runs.rows, r.id = b.runId ∧ r.status.terminal = false) → _ → _))
  | .claimReady _ _ _ => inferInstanceAs (Decidable (∀ b ∈ s.attempts.rows, _ → _ →
      (∃ r ∈ s.runs.rows, r.id = b.runId ∧ r.status.terminal = false ∧ ¬ r.overdue t.first) →
      _ → _))
  | .create _ _ _ | .appendPlan _ _ _ _ _ _ | .renew _ _ | .complete _ _ _ _ | .retry _ _ _
  | .defer _ _ _ | .waitForApproval _ _ | .waitForInput _ _ | .fail _ _ | .requestPause _
  | .resume _ | .cancel _ | .reserveBudget _ _ _ | .upgradeBudget _ _
  | .addInstruction _ _ _ _ _ => .isTrue trivial

/-- A call that fails a run no other attempt of which still has a lease. -/
def LosingLast (σ : Config) (call : Call) : Prop := call.op.LosesLast call.readings σ.store

theorem Step.quiet {σ τ : Config} {call : Call} (hstep : Step σ call τ) (hs : Sound σ)
    (hok : LosingLast σ call) (hq : Quiet (· ≤ σ.clock) σ.store) :
    Quiet (· ≤ τ.clock) τ.store := by
  have hq' : Quiet (· ≤ call.readings.first) σ.store := hq.mono fun _ hu => hu.trans hstep.1
  have hclock : call.readings.third = τ.clock := by rw [hstep.2]; rfl
  refine (hstep.outcome.quiet hs.leased hs.linked (fun _ hu => hu.trans hstep.1) hok hq').mono ?_
  exact fun u hu => hclock ▸ hu.trans (Op.horizon_le _ _).2

theorem Reachable.quiet {σ : Config} (h : Reachable LosingLast σ) :
    Quiet (· ≤ σ.clock) σ.store := by
  suffices Sound σ ∧ Quiet (· ≤ σ.clock) σ.store from this.2
  refine h.invariant (I := fun σ => Sound σ ∧ Quiet (· ≤ σ.clock) σ.store)
    (fun _ => ⟨⟨.empty _, .empty⟩, fun _ hr => absurd hr (Table.not_mem_empty _)⟩)
    fun σ call τ hs hok hstep => ⟨hstep.sound hs.1, hstep.quiet hs.1 hok hs.2⟩

theorem Step.frozen {σ τ : Config} {call : Call} (hstep : Step σ call τ) (hs : Sound σ)
    (hq : Quiet (· ≤ σ.clock) σ.store) : Frozen σ.store τ.store :=
  hstep.outcome.frozen hs.leased hs.linked (fun _ hu => hu.trans hstep.1)
    (hq.mono fun _ hu => hu.trans hstep.1)

/-- Once a run is terminal it stays so, with its status and its completion, and
none of its nodes becomes READY or RUNNING. -/
theorem terminal_runs_absorbing {σ τ : Config} (h : Reachable LosingLast σ)
    (hr : Runs LosingLast σ τ) : Frozen σ.store τ.store :=
  hr.history (I := fun σ => Sound σ ∧ Quiet (· ≤ σ.clock) σ.store)
    (R := fun σ τ => Frozen σ.store τ.store) (fun _ => .refl _) (fun _ _ _ => .trans)
    (fun _ _ _ hs hok hstep => ⟨hstep.sound hs.1, hstep.quiet hs.1 hok hs.2⟩)
    (fun _ _ _ hs _ hstep => hstep.frozen hs.1 hs.2) ⟨h.sound, h.quiet⟩

instance (σ : Config) (call : Call) : Decidable (LosingLast σ call) :=
  inferInstanceAs (Decidable (Op.LosesLast _ _ _))

/-- A run that failed in its only node. -/
def failedCalls : List Call := claimedCalls ++ [(Op.fail (sampleClaim 1 1 10) "E").at 2]

theorem terminal_runs_absorbing_failed : Frozen (played failedCalls).store
    ((played failedCalls).after ((Op.claimReady "worker" 20 (sampleSlots 1)).at 3)).store :=
  terminal_runs_absorbing (reachable_played (by decide)) (.single (by decide) ⟨by decide, rfl⟩)

/-- Two attempts of one run, the first lost with its node's only try. -/
def siblingCalls : List Call :=
  [(Op.create sampleRun [sampleNode 1 .parallelRead 1, sampleNode 2 .parallelRead 2] []).at 0,
    (Op.claimReady "worker" 10 (sampleSlots 2)).at 1,
    (Op.abandon (sampleClaim 1 1 10)).at 2]

/-- The other attempt still has its lease, and its retry puts the FAILED run back
to QUEUED. -/
theorem failed_run_requeued : Reachable AnyCall (played siblingCalls) ∧
    Step (played siblingCalls) ((Op.retry (sampleClaim 2 1 10) 4 "E").at 3)
      (played (siblingCalls ++ [(Op.retry (sampleClaim 2 1 10) 4 "E").at 3])) ∧
    ¬ Frozen (played siblingCalls).store
      (played (siblingCalls ++ [(Op.retry (sampleClaim 2 1 10) 4 "E").at 3])).store := by
  refine ⟨reachable_played (by decide), ⟨by decide, rfl⟩, fun h => ?_⟩
  have hold : ∃ r ∈ (played siblingCalls).store.runs.rows, r.status = .failed := by
    decide
  have hnew : ∀ r ∈ (played (siblingCalls ++
      [(Op.retry (sampleClaim 2 1 10) 4 "E").at 3])).store.runs.rows, r.status = .queued := by
    decide
  obtain ⟨r, hr, hst⟩ := hold
  obtain ⟨q, hq, _, hqst, _⟩ := h.runs r hr (by rw [hst]; rfl)
  rw [hnew q hq, hst] at hqst
  cases hqst

end Fairy.Workflow
