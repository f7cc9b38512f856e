import Fairy.Workflow.Losses
import Fairy.Workflow.Reservation

namespace Fairy.Workflow

open Fairy.Lib

/-- A deadline has passed, or a lease is over, and the row still says otherwise. -/
def Due (now : Time) (s : Store) : Prop :=
  (∃ r ∈ s.runs, r.status.terminal = false ∧ r.overdue now) ∨
    ∃ a ∈ s.attempts, a.status = .running ∧ a.expired now = true

/-- The selection of `claim_ready` before its first row. -/
def Store.selection (s : Store) : Selection := ⟨[], false, false, s.activeByRun, [], [], false⟩

/-- A row is ready that `claim_ready` can pick as its first: its run has room for
it, and it need not leave the only free worker to a child run. -/
def Startable (s : Store) (slots : Slots) (now : Time) : Prop :=
  ∃ row ∈ s.readyRows now,
    ¬ s.selection.withheld slots row ∧ ¬ s.selection.blocked row

namespace Selection

/-- No row was picked so far. -/
structure Fresh (base : Uuid → ActiveList) (σ : Selection) : Prop where
  selected : σ.selected = []
  child : σ.selectedChild = false
  parent : σ.selectedBlockingParent = false
  active : σ.activeByRun = base
  runs : σ.selectedRunIds = []
  progress : σ.progress = false

variable {base : Uuid → ActiveList} {slots : Slots} {σ τ : Selection} {row : ReadyRow}
  {rows : List ReadyRow}

theorem Fresh.withheld_iff (h : σ.Fresh base) (k : τ.Fresh base) :
    σ.withheld slots row ↔ τ.withheld slots row := by
  unfold withheld
  rw [h.selected, h.child, h.parent, k.selected, k.child, k.parent]

theorem Fresh.blocked_iff (h : σ.Fresh base) (k : τ.Fresh base) :
    σ.blocked row ↔ τ.blocked row := by
  unfold blocked
  rw [h.active, k.active]

/-- The loop body picks its row, or passes it over because of what was picked. -/
theorem Fresh.consider (h : σ.Fresh base) (hl : 1 ≤ slots.limit) (row : ReadyRow) :
    (¬ σ.withheld slots row ∧ ¬ σ.blocked row ∧ (σ.consider slots row).selected ≠ []) ∨
      ((σ.withheld slots row ∨ σ.blocked row) ∧ (σ.consider slots row).Fresh base) := by
  have hfull : ¬ (row.node.runId ∈ σ.selectedRunIds ∨ slots.limit ≤ σ.selected.length) := by
    rw [h.runs, h.selected, List.length_nil]
    simp only [List.not_mem_nil, false_or]
    omega
  unfold Selection.consider
  dsimp only
  rw [if_neg hfull]
  by_cases hw : σ.withheld slots row
  · rw [if_pos hw]
    exact .inr ⟨.inl hw, h.selected, h.child, h.parent, h.active, h.runs, h.progress⟩
  rw [if_neg hw]
  by_cases hb : σ.blocked row
  · rw [if_pos hb]
    exact .inr ⟨.inr hb, h.selected, h.child, h.parent, h.active, h.runs, h.progress⟩
  rw [if_neg hb]
  exact .inl ⟨hw, hb, by simp⟩

/-- What was picked stays picked. -/
theorem consider_selected (h : σ.selected ≠ []) : (σ.consider slots row).selected ≠ [] := by
  unfold Selection.consider
  dsimp only
  split
  · exact h
  split
  · exact h
  split
  · exact h
  · simp

theorem foldl_selected (h : σ.selected ≠ []) :
    (rows.foldl (Selection.consider slots) σ).selected ≠ [] :=
  foldl_rule (I := fun _ (σ : Selection) => σ.selected ≠ [])
    (fun _ _ _ hσ => consider_selected hσ) h

theorem passes_selected {fuel : Nat} (h : σ.selected ≠ []) :
    (Selection.passes slots fuel σ rows).selected ≠ [] := by
  induction fuel generalizing σ rows with
  | zero => exact h
  | succ fuel ih =>
    have hp : (σ.pass slots rows).selected ≠ [] :=
      foldl_selected (σ := { σ with selectedRunIds := [], nextRemaining := [], progress := false }) h
    unfold Selection.passes
    dsimp only
    split
    · exact h
    split
    · exact ih hp
    · exact hp

theorem Fresh.foldl (h : σ.Fresh base) (hl : 1 ≤ slots.limit) (rows : List ReadyRow) :
    ((∃ row ∈ rows, ¬ σ.withheld slots row ∧ ¬ σ.blocked row) ∧
      (rows.foldl (Selection.consider slots) σ).selected ≠ []) ∨
    ((∀ row ∈ rows, σ.withheld slots row ∨ σ.blocked row) ∧
      (rows.foldl (Selection.consider slots) σ).Fresh base) := by
  induction rows generalizing σ with
  | nil => exact .inr ⟨fun _ hr => absurd hr List.not_mem_nil, h⟩
  | cons row rows ih =>
    rw [List.foldl_cons]
    obtain ⟨hw, hb, hsel⟩ | ⟨hpass, hfresh⟩ := h.consider hl row
    · exact .inl ⟨⟨row, List.mem_cons_self, hw, hb⟩, foldl_selected hsel⟩
    obtain ⟨⟨x, hx, hxw, hxb⟩, hsel⟩ | ⟨hall, hfresh'⟩ := ih hfresh
    · rw [hfresh.withheld_iff h] at hxw
      rw [hfresh.blocked_iff h] at hxb
      exact .inl ⟨⟨x, List.mem_cons_of_mem row hx, hxw, hxb⟩, hsel⟩
    · refine .inr ⟨fun x hx => ?_, hfresh'⟩
      obtain rfl | hx := List.mem_cons.mp hx
      · exact hpass
      · rw [← hfresh.withheld_iff h, ← hfresh.blocked_iff h]
        exact hall x hx

end Selection

theorem Store.selection_fresh (s : Store) : s.selection.Fresh s.activeByRun :=
  ⟨rfl, rfl, rfl, rfl, rfl, rfl⟩

/-- `claim_ready` picks a row just when there is one it can pick first. -/
theorem selectRows_ne_nil {s : Store} {slots : Slots} {now : Time} (hl : 1 ≤ slots.limit) :
    s.selectRows slots now ≠ [] ↔ Startable s slots now := by
  unfold Store.selectRows Startable
  dsimp only
  cases hrows : s.readyRows now with
  | nil => simp [Selection.passes]
  | cons row rows =>
    have hgo : ¬ (row :: rows = [] ∨ slots.limit ≤ s.selection.selected.length) := by
      simp only [Store.selection, List.length_nil]
      simp
      omega
    change (Selection.passes slots (rows.length + 1) s.selection (row :: rows)).selected ≠ [] ↔ _
    unfold Selection.passes
    dsimp only
    rw [if_neg hgo]
    obtain ⟨hx, hsel⟩ | ⟨hall, hfresh⟩ := s.selection_fresh.foldl hl (row :: rows)
    · refine ⟨fun _ => hx, fun _ => ?_⟩
      split
      · exact Selection.passes_selected hsel
      · exact hsel
    · have hp : (s.selection.pass slots (row :: rows)).progress = false := hfresh.progress
      rw [hp, if_neg (by decide)]
      constructor
      · exact fun h => absurd hfresh.selected h
      · rintro ⟨x, hx, hw, hb⟩
        exact absurd (hall x hx) (not_or.mpr ⟨hw, hb⟩)

/-- What `WorkflowNode.__post_init__` asks of a row beyond its check constraint. -/
def WorkflowNode.Legible (n : WorkflowNode) : Prop :=
  Text.blank n.nodeKey = false ∧ Text.blank n.kind = false ∧ Text.blank n.publicSummary = false ∧
    n.resourceKeys.Nodup

/-- What `WorkflowRun.__post_init__` asks of a row beyond its check constraints. -/
def WorkflowRun.Legible (r : WorkflowRun) : Prop :=
  Text.blank r.ownerKind = false ∧ Text.blank r.ownerId = false ∧
    Text.blank r.idempotencyKey = false

theorem nodeFromRow_iff {n : WorkflowNode} (hc : n.check) :
    (∃ m, nodeFromRow n = .ok m) ↔ n.Legible := by
  obtain ⟨hrev, hver, hmax, hcount⟩ := hc
  unfold nodeFromRow WorkflowNode.postInit WorkflowNode.Legible
  constructor
  · rintro ⟨m, h⟩
    dsimp only at h
    split at h
    · exact absurd h throw_bind_ne
    rename_i hid
    split at h
    · exact absurd h throw_bind_ne
    split at h
    · exact absurd h throw_bind_ne
    split at h
    · exact absurd h throw_bind_ne
    rename_i hkeys
    simp only [Bool.or_eq_true, not_or, Bool.not_eq_true] at hid
    exact ⟨hid.1.1, hid.1.2, hid.2, not_not.mp hkeys⟩
  · rintro ⟨hkey, hkind, hsum, hkeys⟩
    have hid : ¬ (Text.blank n.nodeKey || Text.blank n.kind || Text.blank n.publicSummary) = true := by
      simp [hkey, hkind, hsum]
    have hversion : ¬ (decide (n.planRevision < 1) || decide (n.payloadVersion < 1)) = true := by
      simp only [Bool.or_eq_true, decide_eq_true_eq]
      omega
    have hattempts : ¬ (decide (n.maxAttempts < 1) ||
        decide (¬ n.attemptCount ≤ n.maxAttempts)) = true := by
      simp only [Bool.or_eq_true, decide_eq_true_eq]
      omega
    dsimp only
    rw [if_neg hid, if_neg hversion, if_neg hattempts, if_neg (not_not.mpr hkeys)]
    exact ⟨_, rfl⟩

theorem runFromRow_iff {r : WorkflowRun} (hc : r.check) :
    (∃ q, runFromRow r = .ok q) ↔ r.Legible := by
  obtain ⟨hrounds, htools, hrev, hver⟩ := hc
  unfold runFromRow WorkflowRun.postInit WorkflowRun.Legible
  constructor
  · rintro ⟨q, h⟩
    dsimp only at h
    split at h
    · exact absurd h throw_bind_ne
    rename_i howner
    split at h
    · exact absurd h throw_bind_ne
    rename_i hkey
    simp only [Bool.or_eq_true, not_or, Bool.not_eq_true] at howner hkey
    exact ⟨howner.1, howner.2, hkey⟩
  · rintro ⟨hkind, hid, hkey⟩
    have howner : ¬ (Text.blank r.ownerKind || Text.blank r.ownerId) = true := by simp [hkind, hid]
    have hkey' : ¬ Text.blank r.idempotencyKey = true := by simp [hkey]
    dsimp only
    rw [if_neg howner, if_neg hkey', if_neg (Nat.not_lt.mpr hrev), if_neg (not_not.mpr hrounds),
      if_neg (not_not.mpr htools), if_neg (Nat.not_lt.mpr hver)]
    exact ⟨_, rfl⟩

/-- The rows of the run pass the checks of the records they are read into. -/
structure Readable (s : Store) (runId : Uuid) : Prop where
  run : ∃ r ∈ s.runs, r.id = runId ∧ r.Legible
  nodes : ∀ n ∈ s.nodes, n.runId = runId → n.Legible
  instructions : ∀ i ∈ s.instructions, i.runId = runId → ∃ j, i.postInit = .ok j

theorem get_readable {s : Store} {runId : Uuid} :
    (∃ snapshot, s.get runId = .ok (some snapshot)) ↔ Readable s runId := by
  constructor
  · rintro ⟨snapshot, h⟩
    unfold Store.get at h
    split at h
    · cases pure_ok h
    rename_i row hrow
    obtain ⟨hm, hid⟩ := Table.find?_eq_some.mp hrow
    obtain ⟨run, hrun, h⟩ := bind_ok h
    obtain ⟨snap, hload, _⟩ := bind_ok h
    have hrid : run.id = runId := by rw [postInit_ok hrun]; exact hid
    obtain ⟨nodes, hnodes, hload⟩ := bind_ok hload
    obtain ⟨instructions, hinstructions, _⟩ := bind_ok hload
    refine ⟨⟨row, hm, hid, (runFromRow_iff (Table.check_of_mem hm)).mp ⟨run, hrun⟩⟩, ?_, ?_⟩
    · intro n hn hnrun
      refine (nodeFromRow_iff (Table.check_of_mem hn)).mp (mapM_total_iff.mp ⟨nodes, hnodes⟩ n ?_)
      rw [List.mem_insertionSort, Table.mem_select]
      exact ⟨hn, hnrun.trans hrid.symm⟩
    · intro i hi hirun
      refine mapM_total_iff.mp ⟨instructions, hinstructions⟩ i ?_
      rw [List.mem_insertionSort, Table.mem_select]
      exact ⟨hi, hirun.trans hrid.symm⟩
  · rintro ⟨⟨r, hr, hid, hleg⟩, hn, hi⟩
    obtain ⟨q, hq⟩ := (runFromRow_iff (Table.check_of_mem hr)).mpr hleg
    have hqid : q.id = runId := by rw [postInit_ok hq]; exact hid
    have hload : ∃ snapshot, s.loadSnapshot q = .ok snapshot := by
      refine bind_total (mapM_total_iff.mpr fun n hm => ?_) fun nodes =>
        bind_total (mapM_total_iff.mpr fun i hm => ?_) fun _ => ⟨_, rfl⟩
      · rw [List.mem_insertionSort, Table.mem_select, hqid] at hm
        exact (nodeFromRow_iff (Table.check_of_mem hm.1)).mpr (hn n hm.1 hm.2)
      · rw [List.mem_insertionSort, Table.mem_select, hqid] at hm
        exact hi i hm.1 hm.2
    obtain ⟨snapshot, hload⟩ := hload
    refine ⟨snapshot, ?_⟩
    unfold Store.get
    rw [Table.find?_eq_some.mpr ⟨hr, hid⟩]
    dsimp only
    rw [hq, ok_bind, hload]
    rfl

/-- What `__post_init__` reads of nodes and runs is kept. -/
structure Unrenamed (s u : Store) : Prop where
  nodes : ∀ n ∈ u.nodes, ∃ m ∈ s.nodes, m.id = n.id ∧ m.runId = n.runId ∧ (m.Legible ↔ n.Legible)
  kept : ∀ m ∈ s.nodes, ∃ n ∈ u.nodes, n.runId = m.runId ∧ (m.Legible ↔ n.Legible)
  runs : ∀ r ∈ u.runs, ∃ q ∈ s.runs, q.id = r.id ∧ (q.Legible ↔ r.Legible)
  present : ∀ q ∈ s.runs, ∃ r ∈ u.runs, r.id = q.id ∧ (q.Legible ↔ r.Legible)
  instructions : u.instructions = s.instructions

theorem Unrenamed.readable {s u : Store} (h : Unrenamed s u) {runId : Uuid} :
    Readable u runId ↔ Readable s runId := by
  constructor
  · rintro ⟨⟨r, hr, hid, hleg⟩, hn, hi⟩
    obtain ⟨q, hq, hqid, hqr⟩ := h.runs r hr
    refine ⟨⟨q, hq, hqid.trans hid, hqr.mpr hleg⟩, fun m hm hrun => ?_, h.instructions ▸ hi⟩
    obtain ⟨n, hnu, hnrun, hmn⟩ := h.kept m hm
    exact hmn.mpr (hn n hnu (hnrun.trans hrun))
  · rintro ⟨⟨q, hq, hid, hleg⟩, hn, hi⟩
    obtain ⟨r, hr, hrid, hqr⟩ := h.present q hq
    refine ⟨⟨r, hr, hrid.trans hid, hqr.mp hleg⟩, fun n hnu hrun => ?_, h.instructions ▸ hi⟩
    obtain ⟨m, hm, _, hmrun, hmn⟩ := h.nodes n hnu
    exact hmn.mp (hn m hm (hmrun.trans hrun))

theorem Unrenamed.refl (s : Store) : Unrenamed s s :=
  ⟨fun n hn => ⟨n, hn, rfl, rfl, .rfl⟩, fun m hm => ⟨m, hm, rfl, .rfl⟩,
    fun r hr => ⟨r, hr, rfl, .rfl⟩, fun q hq => ⟨q, hq, rfl, .rfl⟩, rfl⟩

section

variable {P : Time → Prop} {s s' u : Store} {slots : Slots} {workerId : String}
  {leaseUntil now : Time} {claims : List WorkflowAttemptClaim}

theorem claims_unrenamed (h : (s.selectRows slots now).foldlM
      (Store.claimRow workerId leaseUntil now) (s, []) = .ok (s', claims)) : Unrenamed s s' := by
  refine foldlM_rule (I := fun _ (acc : Store × List WorkflowAttemptClaim) => Unrenamed s acc.1)
    ?_ h (.refl s)
  rintro row l ⟨u, cl⟩ acc hI hstep
  obtain rfl | ⟨_, hN, hR, hi⟩ := claimRow_cases hstep
  · exact hI
  refine ⟨fun n hn => ?_, fun m hm => ?_, fun r hr => ?_, fun q hq => ?_, hi.trans hI.instructions⟩
  · obtain ⟨m, hm, _, rfl⟩ | ⟨hn, _⟩ := Table.update_cases hN hn
    · exact hI.nodes m hm
    · exact hI.nodes n hn
  · obtain ⟨n, hn, hrun, hleg⟩ := hI.kept m hm
    by_cases ht : row.Target n
    · exact ⟨_, Table.mem_update_of hN hn ht, hrun, hleg⟩
    · exact ⟨n, Table.mem_update_of_not hN hn ht, hrun, hleg⟩
  · obtain ⟨q, hq, _, rfl⟩ | ⟨hr, _⟩ := Table.update_cases hR hr
    · exact hI.runs q hq
    · exact hI.runs r hr
  · obtain ⟨r, hr, hid, hleg⟩ := hI.present q hq
    by_cases ht : row.RunTarget r
    · exact ⟨_, Table.mem_update_of hR hr ht, hid, hleg⟩
    · exact ⟨r, Table.mem_update_of_not hR hr ht, hid, hleg⟩

/-- The claims go through just when every picked row has attempts to spare. -/
theorem claims_ok_iff (hs : Leased P s) (hp : ∀ u, P u → u ≤ now) (hsw : Swept now s)
    (hlease : now < leaseUntil) :
    (∃ acc, (s.selectRows slots now).foldlM (Store.claimRow workerId leaseUntil now) (s, []) =
      .ok acc) ↔ ∀ row ∈ s.selectRows slots now, row.node.attemptCount < row.node.maxAttempts := by
  refine ⟨?_, claims_total hs hp hsw hlease⟩
  rintro ⟨⟨s', claims⟩, h⟩ row hrow
  let I := fun (_ : Store) (cl : List WorkflowAttemptClaim) => ∀ c ∈ cl,
    ∃ x ∈ s.selectRows slots now, c.nodeId = x.node.id ∧ x.node.attemptCount < x.node.maxAttempts
  obtain ⟨hI, hcl⟩ : I s' claims ∧ _ := by
    refine claims_rule hs hp hsw hlease ?_ h fun _ hx => absurd hx List.not_mem_nil
    intro u u' cl x hx hspare _ _ hI c hc
    obtain hc | hc := List.mem_append.mp hc
    · exact hI c hc
    · rw [List.mem_singleton.mp hc]
      exact ⟨x, hx, rfl, hspare⟩
  obtain ⟨x, hx, hid, hspare⟩ := hI (row.claim workerId leaseUntil)
    (hcl ▸ List.mem_map_of_mem hrow)
  have hn := (Store.mem_readyRows.mp (Store.mem_readyRows_of_selected hrow)).1
  have hxn := (Store.mem_readyRows.mp (Store.mem_readyRows_of_selected hx)).1
  rwa [Table.eq_of_key hn hxn hid]

/-- After the sweep and the claims nothing is due. -/
theorem claims_not_due (hs : Leased P s) (hp : ∀ u, P u → u ≤ now) (hlease : now < leaseUntil)
    (hu : (s.expireOverdue now).reclaimExpired now = .ok u)
    (hc : (u.selectRows slots now).foldlM (Store.claimRow workerId leaseUntil now) (u, []) =
      .ok (s', claims)) : ¬ Due now s' := by
  have hdue : ∀ r ∈ u.runs, r.status.terminal = false → ¬ r.overdue now :=
    (sweep_rule (I := fun _ => True) hs (fun _ _ _ _ _ _ _ => trivial)
      (fun _ _ _ _ _ _ _ _ _ _ _ _ _ _ _ _ => trivial) hu trivial).2.2.1
  let I := fun (v : Store) (_ : List WorkflowAttemptClaim) =>
    (∀ r ∈ v.runs, r.status.terminal = false → ¬ r.overdue now) ∧ Swept now v
  obtain ⟨hruns, hswept⟩ : I s' claims := by
    refine (claims_rule ((sweep_moves (Q := P) hs hu).leased hs) hp (reclaimExpired_swept hu) hlease
      ?_ hc ⟨hdue, reclaimExpired_swept hu⟩).1
    rintro v v' cl row _ _ htake _ ⟨hr, hsw⟩
    refine ⟨fun r hrm hst => ?_, fun a ha har => ?_⟩
    · obtain ⟨q, hq, ht, rfl⟩ | ⟨hrm, _⟩ := Table.update_cases htake.runs hrm
      · refine hr q hq ?_
        obtain hqs | hqs := ht.2 <;> rw [hqs] <;> rfl
      · exact hr r hrm hst
    · obtain ha | rfl := htake.mem_attempts.mp ha
      · exact hsw a ha har
      · exact live_iff.mpr ⟨leaseUntil, rfl, hlease⟩
  rintro (⟨r, hr, hst, ho⟩ | ⟨a, ha, har, hx⟩)
  · exact hruns r hr hst ho
  · obtain ⟨v, hv, hlt⟩ := live_iff.mp (hswept a ha har)
    obtain ⟨w, hw, hle⟩ := expired_iff.mp hx
    rw [hv] at hw
    cases hw
    exact absurd hle (Nat.not_le.mpr hlt)

/-- `get` answers with every node of the run. -/
theorem get_nodes {runId : Uuid} {snapshot : WorkflowSnapshot}
    (h : s.get runId = .ok (some snapshot)) {n : WorkflowNode} (hn : n ∈ s.nodes)
    (hrun : n.runId = runId) : ∃ m ∈ snapshot.nodes, m.id = n.id := by
  unfold Store.get at h
  split at h
  · cases pure_ok h
  rename_i row hrow
  obtain ⟨run, hread, h⟩ := bind_ok h
  obtain ⟨snap, hload, h⟩ := bind_ok h
  cases pure_ok h
  have hrid : run.id = runId := by
    rw [postInit_ok hread]
    exact (Table.find?_eq_some.mp hrow).2
  obtain ⟨nodes, hnodes, hload⟩ := bind_ok hload
  obtain ⟨_, _, hload⟩ := bind_ok hload
  rw [← pure_ok hload]
  obtain ⟨m, hm, hnm⟩ := mapM_image hnodes (a := n) (by
    rw [List.mem_insertionSort, Table.mem_select]
    exact ⟨hn, hrun.trans hrid.symm⟩)
  refine ⟨m, hm, ?_⟩
  rw [nodeFromRow_ok hnm]

/-- A claim can be described just when its run can be read. -/
theorem describeClaim_iff {c : WorkflowAttemptClaim} (hr : ∃ r ∈ s.runs, r.id = c.runId)
    (hn : ∃ n ∈ s.nodes, n.id = c.nodeId ∧ n.runId = c.runId) :
    (∃ x, s.describeClaim c = .ok x) ↔ Readable s c.runId := by
  rw [← get_readable]
  unfold Store.describeClaim
  constructor
  · rintro ⟨x, h⟩
    split at h
    · cases h
    · rename_i hget
      unfold Store.get at hget
      split at hget
      · rename_i hnone
        obtain ⟨r, hr, hid⟩ := hr
        exact absurd hid (Table.find?_eq_none.mp hnone r hr)
      · obtain ⟨_, _, hget⟩ := bind_ok hget
        obtain ⟨_, _, hget⟩ := bind_ok hget
        cases pure_ok hget
    · exact ⟨_, ‹_›⟩
  · rintro ⟨snapshot, hget⟩
    obtain ⟨n, hn, hid, hrun⟩ := hn
    obtain ⟨m, hm, hmid⟩ := get_nodes hget hn hrun
    rw [hget]
    dsimp only
    split
    · rename_i hnone
      have hne := List.find?_eq_none.mp hnone m hm
      rw [hmid, hid] at hne
      simp at hne
    · exact ⟨_, rfl⟩

end

/-- The rows that stay committed after an iteration of the coordinator. -/
def Store.afterIteration (s : Store) (workerId : String) (leaseUntil : Time) (slots : Slots)
    (t : Readings) : Store :=
  match s.claimAvailable workerId leaseUntil slots t with
  | .ok (_, s') => s'
  | .error _ => s

/-- The iteration commits: `claim_ready` finds a row to claim, none of the rows it
picks is out of attempts, and their runs can be read. -/
def Commits (s : Store) (leaseUntil : Time) (slots : Slots) (now : Time) : Prop :=
  now < leaseUntil ∧ ∃ u, (s.expireOverdue now).reclaimExpired now = .ok u ∧
    Startable u slots now ∧ ∀ row ∈ u.selectRows slots now,
      row.node.attemptCount < row.node.maxAttempts ∧ Readable u row.node.runId

theorem afterIteration_committed {s s' : Store} {workerId : String} {leaseUntil : Time}
    {slots : Slots} {t : Readings} {pending : List PendingClaim}
    (h : s.claimAvailable workerId leaseUntil slots t = .ok (pending, s')) :
    s.afterIteration workerId leaseUntil slots t = s' := by
  unfold Store.afterIteration
  rw [h]

section

variable {P : Time → Prop} {s s' u : Store} {slots : Slots} {workerId : String}
  {leaseUntil : Time} {t : Readings}

/-- The claims can be described just when the runs of the picked rows can be read. -/
theorem describeClaims_iff {now : Time} {claims : List WorkflowAttemptClaim} (hs : Leased P u)
    (hp : ∀ v, P v → v ≤ now) (hsw : Swept now u) (hlease : now < leaseUntil)
    (hc : (u.selectRows slots now).foldlM (Store.claimRow workerId leaseUntil now) (u, []) =
      .ok (s', claims)) :
    (∃ pending, claims.mapM s'.describeClaim = .ok pending) ↔
      ∀ row ∈ u.selectRows slots now, Readable u row.node.runId := by
  have hcl : claims = (u.selectRows slots now).map (·.claim workerId leaseUntil) :=
    (claims_rule (I := fun _ _ => True) hs hp hsw hlease
      (fun _ _ _ _ _ _ _ _ _ => trivial) hc trivial).2
  have hname := claims_unrenamed hc
  have hrow : ∀ row ∈ u.selectRows slots now,
      ((∃ x, s'.describeClaim (row.claim workerId leaseUntil) = .ok x) ↔
        Readable u row.node.runId) := by
    intro row hrow
    have hmem : row.claim workerId leaseUntil ∈ claims := hcl ▸ List.mem_map_of_mem hrow
    obtain ⟨x, hx, he, hn, _⟩ := claims_issued hs hp hsw hlease hc hmem
    obtain ⟨_, hr, hid, _⟩ := Store.mem_readyRows.mp (Store.mem_readyRows_of_selected hrow)
    obtain ⟨r, hrs, hrid, _⟩ := hname.present row.run hr
    have hnid : row.node.id = x.node.id := congrArg WorkflowAttemptClaim.nodeId he
    have hnrun : row.node.runId = x.node.runId := congrArg WorkflowAttemptClaim.runId he
    refine Iff.trans (describeClaim_iff ⟨r, hrs, hrid.trans hid⟩ ⟨_, hn, hnid.symm, hnrun.symm⟩) ?_
    exact hname.readable
  rw [mapM_total_iff, hcl]
  constructor
  · exact fun h row hr => (hrow row hr).mp (h _ (List.mem_map_of_mem hr))
  · intro h c hc
    obtain ⟨row, hr, rfl⟩ := List.mem_map.mp hc
    exact (hrow row hr).mpr (h row hr)

/-- An iteration that answers has committed nothing, or what it swept and claimed. -/
theorem claimAvailable_cases (hs : Leased P s) (hp : ∀ u, P u → u ≤ t.first)
    (hlimit : 1 ≤ slots.limit) {pending : List PendingClaim}
    (h : s.claimAvailable workerId leaseUntil slots t = .ok (pending, s')) :
    s' = s ∨ (Commits s leaseUntil slots t.first ∧ ¬ Due t.first s') := by
  unfold Store.claimAvailable at h
  split at h
  · cases h
  rename_i claims v hclaim
  split at h
  · cases h
  rename_i xs hxs
  cases h
  by_cases hnil : claims = []
  · exact .inl (if_pos hnil)
  rw [if_neg hnil]
  obtain ⟨hlease, u, hu, hc⟩ := claimReady_ok hclaim
  have hsu : Leased P u := (sweep_moves (Q := P) hs hu).leased hs
  have hsw := reclaimExpired_swept hu
  have hcl := (claims_rule (I := fun _ _ => True) hsu hp hsw hlease
    (fun _ _ _ _ _ _ _ _ _ => trivial) hc trivial).2
  have hspare := (claims_ok_iff hsu hp hsw hlease).mp ⟨_, hc⟩
  have hread := (describeClaims_iff hsu hp hsw hlease hc).mp ⟨_, hxs⟩
  refine .inr ⟨⟨hlease, u, hu, ?_, fun row hr => ⟨hspare row hr, hread row hr⟩⟩,
    claims_not_due hs hp hlease hu hc⟩
  refine (selectRows_ne_nil hlimit).mp fun hsel => hnil ?_
  rw [hcl, hsel, List.map_nil]

/-- Where a row can be claimed the iteration commits what it swept. -/
theorem Commits.not_due (h : Commits s leaseUntil slots t.first) (hs : Leased P s)
    (hp : ∀ u, P u → u ≤ t.first) (hworker : Text.blank workerId = false)
    (hlimit : 1 ≤ slots.limit) :
    ¬ Due t.first (s.afterIteration workerId leaseUntil slots t) := by
  obtain ⟨hlease, u, hu, hstart, hrows⟩ := h
  have hsu : Leased P u := (sweep_moves (Q := P) hs hu).leased hs
  have hsw := reclaimExpired_swept hu
  obtain ⟨⟨s', claims⟩, hc⟩ : ∃ acc, (u.selectRows slots t.first).foldlM
      (Store.claimRow workerId leaseUntil t.first) (u, []) = .ok acc :=
    (claims_ok_iff hsu hp hsw hlease).mpr fun row hr => (hrows row hr).1
  have hcl := (claims_rule (I := fun _ _ => True) hsu hp hsw hlease
    (fun _ _ _ _ _ _ _ _ _ => trivial) hc trivial).2
  obtain ⟨pending, hpend⟩ := (describeClaims_iff hsu hp hsw hlease hc).mpr
    fun row hr => (hrows row hr).2
  have hclaim : s.claimReady workerId leaseUntil slots t = .ok (claims, s') := by
    have hg : ¬ (Text.blank workerId ∨ slots.limit < 1 ∨ leaseUntil ≤ t.first) := by
      rw [hworker]
      rintro (hb | hb | hb)
      · cases hb
      · omega
      · exact absurd hlease (Nat.not_lt.mpr hb)
    unfold Store.claimReady
    dsimp only
    rw [if_neg hg, hu, ok_bind, hc]
    rfl
  have hnil : claims ≠ [] := by
    rw [hcl]
    exact fun hx => (selectRows_ne_nil hlimit).mpr hstart (List.map_eq_nil_iff.mp hx)
  have havail : s.claimAvailable workerId leaseUntil slots t = .ok (pending, s') := by
    unfold Store.claimAvailable
    rw [hclaim]
    dsimp only
    rw [hpend]
    dsimp only
    rw [if_neg hnil]
  rw [afterIteration_committed havail]
  exact claims_not_due hs hp hlease hu hc

end

/-- After an iteration of the coordinator nothing is due if and only if nothing was
due before it, or it commits. -/
theorem deadlines_enforced_iff {σ : Config} (h : Reachable AnyCall σ) {workerId : String}
    {leaseUntil : Time} {slots : Slots} {t : Readings} (hclock : σ.clock ≤ t.first)
    (hworker : Text.blank workerId = false) (hlimit : 1 ≤ slots.limit) :
    ¬ Due t.first (σ.store.afterIteration workerId leaseUntil slots t) ↔
      ¬ Due t.first σ.store ∨ Commits σ.store leaseUntil slots t.first := by
  have hs := h.sound.leased
  have hp : ∀ u, u ≤ σ.clock → u ≤ t.first := fun u hu => hu.trans hclock
  constructor
  · intro hafter
    by_contra hx
    obtain ⟨hdue, hcommit⟩ := not_or.mp hx
    cases hres : σ.store.claimAvailable workerId leaseUntil slots t with
    | error e =>
      unfold Store.afterIteration at hafter
      rw [hres] at hafter
      exact hdue hafter
    | ok res =>
      obtain ⟨pending, s'⟩ := res
      rw [afterIteration_committed hres] at hafter
      obtain rfl | ⟨hc, _⟩ := claimAvailable_cases hs hp hlimit hres
      · exact hdue hafter
      · exact hcommit hc
  · rintro (hdue | hc)
    · cases hres : σ.store.claimAvailable workerId leaseUntil slots t with
      | error e =>
        unfold Store.afterIteration
        rw [hres]
        exact hdue
      | ok res =>
        obtain ⟨pending, s'⟩ := res
        rw [afterIteration_committed hres]
        obtain rfl | ⟨_, hnot⟩ := claimAvailable_cases hs hp hlimit hres
        · exact hdue
        · exact hnot
    · exact hc.not_due hs hp hworker hlimit

instance (now : Time) (s : Store) : Decidable (Due now s) :=
  inferInstanceAs (Decidable ((∃ r ∈ s.runs.rows, _ ∧ r.overdue now) ∨ ∃ a ∈ s.attempts.rows, _ ∧ _))

theorem deadlines_enforced_claimed :
    ¬ Due 2 ((played claimedCalls).store.afterIteration "worker" 12 (sampleSlots 1) (.instant 2)) :=
  (deadlines_enforced_iff (σ := played claimedCalls) (t := .instant 2) (reachable_played (by decide))
    (by decide) (by decide) (by decide)).mpr (.inl (by decide))

/-- A run whose deadline passes before any of its nodes is claimed. -/
def overdueCalls : List Call := [(Op.create sampleRun [sampleNode 1 .serial 1] []).at 0]

/-- The iteration fails the overdue run, finds nothing to claim, and rolls it back. -/
theorem deadline_rolled_back : Reachable AnyCall (played overdueCalls) ∧
    Due (seconds 1800) ((played overdueCalls).store.afterIteration "worker" (seconds 1830)
      (sampleSlots 1) (.instant (seconds 1800))) :=
  ⟨reachable_played (by decide), by decide⟩

end Fairy.Workflow
