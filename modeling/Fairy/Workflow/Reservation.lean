import Fairy.Workflow.Scheduler

namespace Fairy.Workflow

open Fairy.Lib

/-- With a blocking parent among the nodes, its root nodes leave a worker free. -/
def Reserved (kinds : List String) (maxWorkers : Nat) (l : List ActiveNode) : Prop :=
  (∃ x ∈ l, x.blocking kinds = true) → (l.filter ActiveNode.root).length ≤ maxWorkers - 1

theorem Reserved.sublist {kinds : List String} {maxWorkers : Nat} {l m : List ActiveNode}
    (h : Reserved kinds maxWorkers m) (hs : l.Sublist m) : Reserved kinds maxWorkers l := by
  rintro ⟨x, hx, hb⟩
  exact (hs.filter _).length_le.trans (h ⟨x, hs.subset hx, hb⟩)

section

variable {s s' u : Store} {workerId : String} {leaseUntil now : Time} {slots : Slots}
  {claims : List WorkflowAttemptClaim}

/-- The entry of a selected row. -/
def ReadyRow.entry (row : ReadyRow) (workerId : String) (leaseUntil : Time) : ActiveNode :=
  ⟨row.claim workerId leaseUntil, row.node.kind, row.run.parentRunId⟩

/-- Claims keep what the scheduler reads of nodes and runs. -/
structure Described (s u : Store) : Prop where
  nodes : ∀ n ∈ u.nodes, ∃ m ∈ s.nodes, m.id = n.id ∧ m.kind = n.kind
  runs : ∀ r ∈ u.runs, ∃ q ∈ s.runs, q.id = r.id ∧ q.parentRunId = r.parentRunId

theorem claimRow_cases {row : ReadyRow} {acc : Store × List WorkflowAttemptClaim}
    (h : Store.claimRow workerId leaseUntil now (u, claims) row = .ok acc) :
    acc = (u, claims) ∨ (acc.2 = claims ++ [row.claim workerId leaseUntil] ∧
      acc.1.nodes.rows = (u.nodes.rows.map fun n =>
        if row.Target n then row.claimedNode now n else n) ∧
      (acc.1.runs.rows = u.runs.rows.map fun r =>
        if row.RunTarget r then row.claimedRun now r else r) ∧
      acc.1.instructions = u.instructions) := by
  unfold Store.claimRow at h
  dsimp only at h
  split at h
  · cases h
    exact .inl rfl
  split at h
  · cases h
  rename_i hn
  split at h
  · cases h
  · cases h
    exact .inr ⟨rfl, (Table.tryUpdate_eq_some hn).1, rfl, rfl⟩

/-- The claims are those of picked rows, in their order. -/
theorem claims_listed (h : (s.selectRows slots now).foldlM
      (Store.claimRow workerId leaseUntil now) (s, []) = .ok (s', claims)) :
    Described s s' ∧ ∃ rows : List ReadyRow, rows.Sublist (s.selectRows slots now) ∧
      claims = rows.map (·.claim workerId leaseUntil) := by
  let J := fun (l : List ReadyRow) (acc : Store × List WorkflowAttemptClaim) =>
    Described s acc.1 ∧ ∃ rows, (rows ++ l).Sublist (s.selectRows slots now) ∧
      acc.2 = rows.map (·.claim workerId leaseUntil)
  have hend : J [] (s', claims) := by
    refine foldlM_rule (I := J) ?_ h ⟨⟨fun n hn => ⟨n, hn, rfl, rfl⟩, fun r hr => ⟨r, hr, rfl, rfl⟩⟩,
      [], .refl _, rfl⟩
    rintro row l ⟨u, cl⟩ acc ⟨hd, rows, hsub, rfl⟩ hstep
    obtain rfl | ⟨hcl, hN, hR, _⟩ := claimRow_cases hstep
    · exact ⟨hd, rows, (List.Sublist.append_left (List.sublist_cons_self row l) rows).trans hsub, rfl⟩
    refine ⟨⟨fun n hn => ?_, fun r hr => ?_⟩, rows ++ [row], by simpa using hsub, by simpa using hcl⟩
    · obtain ⟨m, hm, _, rfl⟩ | ⟨hn, _⟩ := Table.update_cases hN hn
      · exact hd.nodes m hm
      · exact hd.nodes n hn
    · obtain ⟨q, hq, _, rfl⟩ | ⟨hr, _⟩ := Table.update_cases hR hr
      · exact hd.runs q hq
      · exact hd.runs r hr
  obtain ⟨hd, rows, hsub, hcl⟩ := hend
  exact ⟨hd, rows, by simpa using hsub, hcl⟩

theorem nodeFromRow_ok {n m : WorkflowNode} (h : nodeFromRow n = .ok m) :
    m = { n with errorCode := n.errorCode.filter (· ≠ "") } := by
  unfold nodeFromRow WorkflowNode.postInit at h
  repeat' split at h
  all_goals first
    | exact absurd h throw_bind_ne
    | exact (pure_ok h).symm

/-- What `get` answers comes from the rows of the run. -/
theorem get_ok {runId : Uuid} {snapshot : WorkflowSnapshot}
    (h : s.get runId = .ok (some snapshot)) :
    (∃ r ∈ s.runs, r.id = runId ∧ snapshot.run = readRow r) ∧
      ∀ m ∈ snapshot.nodes, ∃ n ∈ s.nodes, n.id = m.id ∧ n.kind = m.kind := by
  unfold Store.get at h
  split at h
  · cases pure_ok h
  rename_i row hrow
  obtain ⟨hm, hid⟩ := Table.find?_eq_some.mp hrow
  obtain ⟨run, hrun, h⟩ := bind_ok h
  obtain ⟨snap, hload, h⟩ := bind_ok h
  cases pure_ok h
  obtain ⟨nodes, hnodes, hload⟩ := bind_ok hload
  obtain ⟨_, _, hload⟩ := bind_ok hload
  rw [← pure_ok hload]
  refine ⟨⟨row, hm, hid, postInit_ok hrun⟩, fun m hmem => ?_⟩
  obtain ⟨n, hn, hnm⟩ := mapM_mem hnodes hmem
  rw [nodeFromRow_ok hnm]
  rw [List.mem_insertionSort, Table.mem_select] at hn
  exact ⟨n, hn.1, rfl, rfl⟩

/-- What the scheduler reads back of a picked row is what was picked. -/
theorem describeClaim_entry {row : ReadyRow} {x : PendingClaim} (hd : Described s s')
    (hn : row.node ∈ s.nodes) (hr : row.run ∈ s.runs) (hid : row.run.id = row.node.runId)
    (h : s'.describeClaim (row.claim workerId leaseUntil) = .ok x) :
    x.entry = none ∨ x.entry = some (row.entry workerId leaseUntil) := by
  unfold Store.describeClaim at h
  split at h
  · cases h
  · cases h
    exact .inl rfl
  rename_i snapshot hget
  split at h
  · cases h
  rename_i n hfind
  cases h
  obtain ⟨⟨r, hrm, hrid, hrun⟩, hnodes⟩ := get_ok hget
  obtain ⟨m, hm, hmid, hmkind⟩ := hnodes n (List.mem_of_find?_eq_some hfind)
  obtain ⟨k, hk, hkid, hkkind⟩ := hd.nodes m hm
  obtain ⟨q, hq, hqid, hqparent⟩ := hd.runs r hrm
  have hnid : n.id = (row.claim workerId leaseUntil).nodeId := by
    simpa using List.find?_some hfind
  obtain rfl := Table.eq_of_key hk hn (hkid.trans (hmid.trans hnid))
  have hqr : q = row.run := Table.eq_of_key hq hr (hqid.trans (hrid.trans hid.symm))
  refine .inr (congrArg some ?_)
  rw [ReadyRow.entry, ← hqr, hqparent, hkkind, hmkind, hrun]
  rfl

theorem describeClaims_entries {rows : List ReadyRow} {pending : List PendingClaim}
    (hd : Described s s') (hrows : ∀ row ∈ rows, row.node ∈ s.nodes ∧ row.run ∈ s.runs ∧
      row.run.id = row.node.runId)
    (h : (rows.map (·.claim workerId leaseUntil)).mapM s'.describeClaim = .ok pending) :
    (pending.filterMap PendingClaim.entry).Sublist (rows.map (·.entry workerId leaseUntil)) := by
  induction rows generalizing pending with
  | nil =>
    rw [List.map_nil, List.mapM_nil] at h
    rw [← pure_ok h]
    exact .refl _
  | cons row rows ih =>
    rw [List.map_cons, List.mapM_cons] at h
    obtain ⟨x, hx, h⟩ := bind_ok h
    obtain ⟨xs, hxs, h⟩ := bind_ok h
    obtain ⟨hn, hr, hid⟩ := hrows row List.mem_cons_self
    have hrest := ih (fun y hy => hrows y (List.mem_cons_of_mem row hy)) hxs
    rw [← pure_ok h, List.map_cons]
    obtain hnone | hsome := describeClaim_entry hd hn hr hid hx
    · rw [List.filterMap_cons_none hnone]
      exact hrest.cons _
    · rw [List.filterMap_cons_some hsome]
      exact hrest.cons_cons _

/-- The nodes about to be registered are picked rows. -/
theorem claimAvailable_entries {pending : List PendingClaim} {t : Readings}
    (h : s.claimAvailable workerId leaseUntil slots t = .ok (pending, s')) :
    ∃ u : Store, (pending.filterMap PendingClaim.entry).Sublist
      ((u.selectRows slots t.first).map (·.entry workerId leaseUntil)) := by
  unfold Store.claimAvailable at h
  split at h
  · cases h
  rename_i claims v hclaim
  split at h
  · cases h
  rename_i xs hxs
  cases h
  obtain ⟨_, u, _, hc⟩ := claimReady_ok hclaim
  obtain ⟨hd, rows, hsub, rfl⟩ := claims_listed hc
  refine ⟨u, (describeClaims_entries hd (fun row hrow => ?_) hxs).trans (hsub.map _)⟩
  obtain ⟨hn, hr, hid, _⟩ := Store.mem_readyRows.mp (Store.mem_readyRows_of_selected (hsub.subset hrow))
  exact ⟨hn, hr, hid⟩

end

theorem ReadyRow.entry_root (row : ReadyRow) (workerId : String) (leaseUntil : Time) :
    (row.entry workerId leaseUntil).root = !row.isChild := by
  unfold ActiveNode.root entry isChild
  cases row.run.parentRunId <;> rfl

theorem ReadyRow.entry_blocking (row : ReadyRow) (workerId : String) (leaseUntil : Time)
    (slots : Slots) : (row.entry workerId leaseUntil).blocking slots.blockingParentKinds =
      row.isBlockingParent slots := by
  unfold ActiveNode.blocking isBlockingParent
  rw [entry_root]
  rfl

theorem roots_length (rows : List ReadyRow) (workerId : String) (leaseUntil : Time) :
    ((rows.map (·.entry workerId leaseUntil)).filter ActiveNode.root).length =
      (roots rows).length := by
  rw [List.filter_map, List.length_map, roots]
  congr 1
  apply List.filter_congr
  intro row _
  rw [Function.comp_apply, ReadyRow.entry_root]
  cases row.isChild <;> rfl

namespace Scheduler

/-- The slots `claim_ready` is told of leave out the workers that are busy, and
reserve one for a child while a blocking parent is active. -/
structure Offer (w : Scheduler) (slots : Slots) : Prop where
  positive : 1 ≤ slots.limit
  free : w.active.rows.length + slots.limit ≤ w.maxWorkers
  kinds : slots.blockingParentKinds = w.blockingParentKinds
  reserve : (∃ x ∈ w.active.rows, x.blocking w.blockingParentKinds = true) →
    slots.reserveChildSlot = true

/-- The reservation, for the table together with what is about to join it. -/
def Holds (w : Scheduler) : Prop :=
  match w.phase with
  | .idle => Reserved w.blockingParentKinds w.maxWorkers w.active.rows
  | .claiming slots => Reserved w.blockingParentKinds w.maxWorkers w.active.rows ∧ w.Offer slots
  | .registering pending => Reserved w.blockingParentKinds w.maxWorkers
      (w.active.rows ++ pending.filterMap PendingClaim.entry)

variable {w : Scheduler}

theorem Holds.reserved (h : w.Holds) :
    Reserved w.blockingParentKinds w.maxWorkers w.active.rows := by
  unfold Holds at h
  split at h
  · exact h
  · exact h.1
  · exact h.sublist (List.sublist_append_left _ _)

theorem Holds.look (h : w.Holds) : w.look.Holds := by
  unfold Scheduler.look
  split
  · exact h
  rename_i hcap
  refine ⟨h.reserved, Nat.pos_of_ne_zero hcap, ?_, rfl, fun hb => List.any_eq_true.mpr hb⟩
  change w.active.rows.length + w.capacity ≤ w.maxWorkers
  unfold capacity at hcap ⊢
  omega

/-- What `claim_ready` picks fits in beside what is active. -/
theorem Offer.reserved {slots : Slots} (ho : w.Offer slots)
    {u : Store} {now : Time} {workerId : String} {leaseUntil : Time} :
    Reserved w.blockingParentKinds w.maxWorkers
      (w.active.rows ++ (u.selectRows slots now).map (·.entry workerId leaseUntil)) := by
  rintro ⟨x, hx, hb⟩
  have hres : slots.reserveChildSlot = true ∨
      ∃ row ∈ u.selectRows slots now, row.isBlockingParent slots = true := by
    obtain hx | hx := List.mem_append.mp hx
    · exact .inl (ho.reserve ⟨x, hx, hb⟩)
    · obtain ⟨row, hrow, rfl⟩ := List.mem_map.mp hx
      rw [← ho.kinds, ReadyRow.entry_blocking] at hb
      exact .inr ⟨row, hrow, hb⟩
  have hpicked := Store.selectRows_reserved hres
  have hactive : (w.active.rows.filter ActiveNode.root).length ≤ w.active.rows.length :=
    List.length_filter_le _ _
  have hfree := ho.free
  have hpos := ho.positive
  rw [List.filter_append, List.length_append, roots_length]
  omega

theorem Holds.claim (h : w.Holds) {slots : Slots} (hp : w.phase = .claiming slots) {s u : Store}
    {workerId : String} {leaseUntil : Time} {t : Readings} {pending : List PendingClaim}
    (hc : s.claimAvailable workerId leaseUntil slots t = .ok (pending, u)) :
    ({ w with phase := .registering pending } : Scheduler).Holds := by
  unfold Holds at h
  rw [hp] at h
  obtain ⟨v, hsub⟩ := claimAvailable_entries hc
  exact h.2.reserved.sublist (List.Sublist.append_left hsub _)

theorem Holds.register (h : w.Holds) {x : PendingClaim} {pending : List PendingClaim}
    (hp : w.phase = .registering (x :: pending)) (submission : Submission) :
    (w.register submission x pending).Holds := by
  have hidle := h.reserved
  unfold Holds at h
  rw [hp] at h
  have hrest : Reserved w.blockingParentKinds w.maxWorkers
      (w.active.rows ++ pending.filterMap PendingClaim.entry) :=
    h.sublist (List.Sublist.append_left ((List.sublist_cons_self x pending).filterMap _) _)
  unfold Scheduler.register
  split
  · exact hrest
  · exact hidle
  · split
    · exact hrest
    · exact hidle
  · rename_i entry hx
    split
    · exact hrest
    · rename_i active hi
      have hrows := (Table.insertAll_eq_some hi).1
      change Reserved w.blockingParentKinds w.maxWorkers
        (active.rows ++ pending.filterMap PendingClaim.entry)
      rwa [hrows, List.append_assoc, List.singleton_append, ← List.filterMap_cons_some hx]

/-- A node that ends leaves the rest as it was. -/
theorem Holds.finish (h : w.Holds) {nodeId : Uuid} : (w.after (.finish nodeId)).Holds := by
  have hsub : (w.active.delete fun x => x.nodeId = nodeId).rows.Sublist w.active.rows :=
    Table.delete_sublist _ _
  unfold Holds at h ⊢
  change match w.phase with
    | .idle => Reserved _ _ (w.active.delete fun x => x.nodeId = nodeId).rows
    | .claiming slots => Reserved _ _ (w.active.delete fun x => x.nodeId = nodeId).rows ∧
        (w.after (.finish nodeId)).Offer slots
    | .registering pending => Reserved _ _
        ((w.active.delete fun x => x.nodeId = nodeId).rows ++ pending.filterMap PendingClaim.entry)
  split at h
  · exact h.sublist hsub
  · obtain ⟨hres, hpos, hfree, hkinds, hreserve⟩ := h
    refine ⟨hres.sublist hsub, hpos, ?_, hkinds, fun ⟨x, hx, hb⟩ => ?_⟩
    · exact (Nat.add_le_add_right hsub.length_le _).trans hfree
    · exact hreserve ⟨x, hsub.subset hx, hb⟩
  · exact h.sublist (List.Sublist.append_right hsub _)

theorem Holds.after (h : w.Holds) (e : Event) : (w.after e).Holds := by
  cases e with
  | look =>
    unfold Scheduler.after
    dsimp only
    split
    · exact h.look
    · exact h
  | claim s workerId leaseUntil t =>
    unfold Scheduler.after
    dsimp only
    split
    · rename_i slots hp
      split
      · exact h.claim hp ‹_›
      · exact h.reserved
    · exact h
  | register submission =>
    unfold Scheduler.after
    dsimp only
    split
    · exact h.reserved
    · exact h.register ‹_› submission
    · exact h
  | finish nodeId => exact h.finish

theorem Runs.holds {w' : Scheduler} (hr : Runs w w') (h : w.Holds) : w'.Holds := by
  refine hr.invariant (I := Holds) (fun v e v' hv _ hstep => ?_) h
  subst hstep
  exact hv.after e

theorem runs_foldl (events : List Event) : Runs w (events.foldl Scheduler.after w) := by
  induction events generalizing w with
  | nil => exact .refl
  | cons e events ih => exact (Run.single (i := e) trivial rfl).trans ih

theorem after_fixed (w : Scheduler) (e : Event) : (w.after e).maxWorkers = w.maxWorkers ∧
    (w.after e).childWaitingKinds = w.childWaitingKinds := by
  unfold Scheduler.after Scheduler.look Scheduler.register
  repeat' split
  all_goals exact ⟨rfl, rfl⟩

/-- The parameters of a scheduler never change. -/
theorem Runs.fixed {w' : Scheduler} (hr : Runs w w') :
    w'.maxWorkers = w.maxWorkers ∧ w'.childWaitingKinds = w.childWaitingKinds := by
  refine hr.invariant (I := fun v => v.maxWorkers = w.maxWorkers ∧
    v.childWaitingKinds = w.childWaitingKinds) (fun v e v' hv _ hstep => ?_) ⟨rfl, rfl⟩
  subst hstep
  exact ⟨(v.after_fixed e).1.trans hv.1, (v.after_fixed e).2.trans hv.2⟩

end Scheduler

/-- While a root node of a kind that may wait for a child run is active, the root
nodes leave one worker free, at every step of the coordinator. -/
theorem child_slot_reserved {maxWorkers : Nat} (hmax : 2 ≤ maxWorkers) {kinds : List String}
    {w : Scheduler} (h : Scheduler.Runs (.start maxWorkers kinds) w)
    (hb : ∃ x ∈ w.active, x.parentRunId = none ∧ x.kind ∈ kinds) :
    (w.active.rows.filter ActiveNode.root).length ≤ maxWorkers - 1 := by
  obtain ⟨hm, hk⟩ := h.fixed
  have hstart : (Scheduler.start maxWorkers kinds).Holds := fun ⟨x, hx, _⟩ => absurd hx List.not_mem_nil
  have hkinds : w.blockingParentKinds = kinds := by
    unfold Scheduler.blockingParentKinds
    rw [hm, hk]
    exact if_pos hmax
  have hres := (h.holds hstart).reserved
  rw [hkinds, hm] at hres
  obtain ⟨x, hx, hroot, hkind⟩ := hb
  exact hres ⟨x, hx, by simp [ActiveNode.blocking, ActiveNode.root, hroot, hkind]⟩

/-- A scheduler of two workers that is handed a node of a blocking kind. -/
def blockingEvents : List Scheduler.Event :=
  [.look,
    .claim (played [(Op.create sampleRun [sampleNode 1 .serial 1] []).at 0]).store "worker" 10
      (.instant 1),
    .register .accepted]

theorem child_slot_reserved_blocking :
    (∃ x ∈ (blockingEvents.foldl Scheduler.after (.start 2 ["step"])).active,
      x.parentRunId = none ∧ x.kind ∈ ["step"]) ∧
    ((blockingEvents.foldl Scheduler.after (.start 2 ["step"])).active.rows.filter
      ActiveNode.root).length ≤ 2 - 1 := by
  have hb : ∃ x ∈ (blockingEvents.foldl Scheduler.after (.start 2 ["step"])).active.rows,
      x.parentRunId = none ∧ x.kind ∈ ["step"] := by decide
  exact ⟨hb, child_slot_reserved (by decide) (Scheduler.runs_foldl blockingEvents) hb⟩

end Fairy.Workflow
