import Fairy.Lib.Fallible
import Fairy.Commanding.Machine

namespace Fairy.Commanding

open Fairy.Lib

namespace Ledger

variable {s : Ledger}

theorem runs_nextSequence (taskId : Uuid) : (s.nextSequence taskId).2.runs = s.runs := by
  unfold nextSequence
  cases s.sequences.find? taskId <;> rfl

/-- An event leaves the runs as they are. -/
theorem runs_recordEvent {run : CommandRun} {e : EventInput} {d : Draw} {x : LedgerEvent × Ledger}
    (h : s.recordEvent run e d = .ok x) : x.2.runs = s.runs := by
  simp only [recordEvent] at h
  split at h
  · cases h
  · split at h
    · cases h
      exact runs_nextSequence _
    · cases h

theorem find?_run {runId : Uuid} {row : CommandRun} (h : s.runs.find? runId = some row) :
    row ∈ s.runs ∧ row.id = runId := Table.find?_eq_some.mp h

/-- A selection that is not empty and keeps to one identifier holds the row read. -/
theorem selected {p : CommandRun → Prop} [DecidablePred p] {row : CommandRun}
    (hr : row ∈ s.runs) (hp : ∀ r ∈ s.runs, p r → r.id = row.id)
    (h : (s.runs.select p).length = 1) : p row := by
  obtain ⟨r, hs⟩ := List.length_eq_one_iff.mp h
  have hm : r ∈ s.runs.select p := hs ▸ List.mem_singleton_self r
  obtain ⟨hm, hpr⟩ := Table.mem_select.mp hm
  rwa [← Table.eq_of_key hm hr (hp r hm hpr)]

end Ledger

/-- The caller holds the lease of the row. -/
def LeaseHeld (r : CommandRun) (leaseOwner : Option String) (leaseFence : Option Int)
    (now : Time) : Prop :=
  leaseOwner = r.leaseOwner ∧ leaseFence = some (r.leaseFence : Int) ∧
    r.leaseUntil.any (fun u => decide (now < u)) = true

/-- What the predicates say, where they are granted. -/
theorem leasePredicates_ok {row : CommandRun} {leaseOwner : Option String}
    {leaseFence : Option Int} {now : Time} {guard : Option LeaseGuard}
    (h : leasePredicates row leaseOwner leaseFence now = .ok guard) :
    (guard = none ∧ (row.status = .running → row.leaseOwner = none)) ∨
      ∃ owner, row.leaseOwner = some owner ∧ guard = some ⟨owner, row.leaseFence, now⟩ ∧
        row.status = .running ∧ LeaseHeld row leaseOwner leaseFence now := by
  unfold leasePredicates at h
  split at h
  · rename_i hs
    split at h
    · cases h
    · cases h
      exact .inl ⟨rfl, fun hr => absurd hr hs⟩
  · rename_i hs
    split at h
    · rename_i ho
      split at h
      · cases h
      · cases h
        exact .inl ⟨rfl, fun _ => ho⟩
    · rename_i owner ho
      split at h
      · cases h
      · rename_i hm
        split at h
        · cases h
        · rename_i hl
          cases h
          push Not at hm hs
          refine .inr ⟨owner, ho, rfl, hs, hm.1.trans ho.symm, hm.2, ?_⟩
          cases hu : row.leaseUntil with
          | none => simp [hu] at hl
          | some u => simpa [hu] using hl

/-- A successful `transition` or `finish` has met the graph and the lease, and has
left the one row. -/
theorem Ledger.leave_ok {s : Ledger} {runId : Uuid} {status : CommandStatus}
    {leaseOwner : Option String} {leaseFence : Option Int} {now : Time}
    {x : CommandRun × Ledger} (h : s.leave runId status leaseOwner leaseFence now = .ok x) :
    ∃ row, row.id = runId ∧ status ∈ row.status.transitions ∧
      Table.Replaces s.runs x.2.runs row (row.left status now) ∧ x.1 = row.left status now ∧
      (row.status = .running → row.leaseOwner ≠ none →
        LeaseHeld row leaseOwner leaseFence now) := by
  unfold Ledger.leave at h
  split at h
  · cases h
  · rename_i row hrow
    obtain ⟨hm, hid⟩ := Ledger.find?_run hrow
    split at h
    · cases h
    · rename_i hst
      push Not at hst
      split at h
      · cases h
      · rename_i guard hguard
        simp only at h
        split at h
        · split at h <;> cases h
        · rename_i hlen
          push Not at hlen
          have hp := Ledger.selected hm (fun r _ hr => hr.1.trans hid.symm) hlen
          have hrep : Table.Replaces s.runs (s.runs.update (fun r : CommandRun =>
              r.id = runId ∧ r.status = row.status ∧ GuardHolds guard r) (·.left status now))
              row (row.left status now) :=
            Table.replaces_update Table.rows_update hm hp (fun b _ hb => hb.1.trans hid.symm) rfl
          split at h
          · cases h
          · rename_i updated hupd
            cases h
            obtain ⟨hu, hui⟩ := Table.find?_eq_some.mp hupd
            refine ⟨row, hid, hst, hrep, ?_, fun hr ho => ?_⟩
            · exact Table.eq_of_key hu hrep.mem (hui.trans hid.symm)
            · obtain ⟨_, hn⟩ | ⟨_, _, _, _, hheld⟩ := leasePredicates_ok hguard
              · exact absurd (hn hr) ho
              · exact hheld

/-- A successful claim has taken the row that was read. -/
theorem Ledger.take_ok {s : Ledger} {row : CommandRun} {workerId : String} {leaseUntil now : Time}
    {d : Draw} {x : CommandRun × Ledger} (hrow : row ∈ s.runs)
    (h : s.take row workerId leaseUntil now d = .ok (some x)) :
    Table.Replaces s.runs x.2.runs row (row.taken row workerId leaseUntil now) ∧
      x.1 = row.taken row workerId leaseUntil now := by
  unfold Ledger.take at h
  split at h
  · cases h
  · rename_i hlen
    push Not at hlen
    simp only at h
    have hp := Ledger.selected hrow (fun r _ hr => hr.1) hlen
    have hrep : Table.Replaces s.runs (s.runs.update (row.Claimable now)
        (·.taken row workerId leaseUntil now)) row (row.taken row workerId leaseUntil now) :=
      Table.replaces_update Table.rows_update hrow hp (fun b _ hb => hb.1) rfl
    split at h
    · cases h
    · rename_i updated hupd
      obtain ⟨hu, hui⟩ := Table.find?_eq_some.mp hupd
      obtain ⟨y, hy, he⟩ := map_ok h
      cases he
      refine ⟨?_, Table.eq_of_key hu hrep.mem hui⟩
      rw [Ledger.runs_recordEvent hy]
      exact hrep

/-- What a call may do to the runs, the claims and the runs that are ended. -/
inductive Effect (σ : Config) (call : Call) (τ : Config) : Prop
  | idle (hruns : τ.ledger.runs = σ.ledger.runs) (hclaims : τ.claims = σ.claims)
      (hfinished : τ.finished = σ.finished)
  | created (row : CommandRun) (hstatus : row.status = .created)
      (hlease : row.leaseOwner = none ∧ row.leaseUntil = none ∧ row.leaseFence = 0)
      (hrows : τ.ledger.runs.rows = σ.ledger.runs.rows ++ [row])
      (hfresh : ∀ r ∈ σ.ledger.runs, r.id ≠ row.id) (hclaims : τ.claims = σ.claims)
      (hfinished : τ.finished = σ.finished)
  | moved (row : CommandRun) (status : CommandStatus) (now : Time) (leaseOwner : Option String)
      (leaseFence : Option Int) (hcall : call = .transition row.id status leaseOwner leaseFence)
      (hedge : status ∈ row.status.transitions) (hstatus : status ≠ .running)
      (hruns : Table.Replaces σ.ledger.runs τ.ledger.runs row (row.left status now))
      (hclaims : τ.claims = σ.claims) (hfinished : τ.finished = σ.finished)
  | ended (row : CommandRun) (status : CommandStatus) (now : Time)
      (hedge : status ∈ row.status.transitions) (hstatus : status = .succeeded ∨ status = .failed)
      (hruns : Table.Replaces σ.ledger.runs τ.ledger.runs row (row.left status now))
      (hclaims : τ.claims = σ.claims) (hfinished : τ.finished = σ.finished ++ [row.id])
  | taken (row : CommandRun) (worker : String) (leaseUntil now : Time)
      (hstatus : row.status = .queued ∨ row.status = .running)
      (hruns : Table.Replaces σ.ledger.runs τ.ledger.runs row
        (row.taken row worker leaseUntil now))
      (hclaims : τ.claims = σ.claims ++ [⟨row.id, some worker, row.leaseFence + 1⟩])
      (hfinished : τ.finished = σ.finished)
  | extended (row : CommandRun) (leaseUntil now : Time) (hstatus : row.status = .running)
      (hruns : Table.Replaces σ.ledger.runs τ.ledger.runs row
        { row with leaseUntil := some leaseUntil, updatedAt := now })
      (hclaims : τ.claims = σ.claims) (hfinished : τ.finished = σ.finished)

section Effects

variable {s : Ledger} {now : Time} {d : Draw}

theorem CommandRun.expired_running {r : CommandRun} (h : r.expired now = true) :
    r.status = .running := by
  simp only [expired, Bool.and_eq_true, decide_eq_true_eq] at h
  exact h.1

theorem Ledger.claim_ok {runId : Uuid} {workerId : String} {leaseUntil : Time}
    {x : CommandRun × Ledger} (h : s.claim runId workerId leaseUntil now d = .ok x) :
    ∃ row worker, (row.status = .queued ∨ row.status = .running) ∧
      Table.Replaces s.runs x.2.runs row (row.taken row worker leaseUntil now) ∧
      x.1 = row.taken row worker leaseUntil now := by
  simp only [Ledger.claim] at h
  split at h
  · cases h
  split at h
  · cases h
  split at h
  · cases h
  rename_i row hrow
  split at h
  · cases h
  rename_i hst
  split at h
  · cases h
  · cases h
  · rename_i hx
    cases h
    have hs : row.status = .queued ∨ row.status = .running := by
      by_cases hq : row.status = .queued
      · exact .inl hq
      · exact .inr (CommandRun.expired_running (by simpa [hq] using hst))
    exact ⟨row, _, hs, Ledger.take_ok (Ledger.find?_run hrow).1 hx⟩

theorem Ledger.claimNext_ok {workerId : String} {locked : List Uuid} {leaseUntil : Time}
    {x : Option CommandRun × Ledger}
    (h : s.claimNext workerId locked leaseUntil now d = .ok x) :
    (x = (none, s)) ∨ ∃ row, (row.status = .queued ∨ row.status = .running) ∧
      Table.Replaces s.runs x.2.runs row (row.taken row workerId leaseUntil now) ∧
      x.1 = some (row.taken row workerId leaseUntil now) := by
  simp only [Ledger.claimNext] at h
  split at h
  · cases h
  split at h
  · cases h
    exact .inl rfl
  rename_i row rest hrows
  split at h
  · cases h
  · cases h
    exact .inl rfl
  · rename_i updated u hx
    cases h
    have hm : row ∈ s.claimableRuns locked now := hrows ▸ List.mem_cons_self
    rw [Ledger.claimableRuns, List.mem_insertionSort, Table.mem_select] at hm
    obtain ⟨hr, he⟩ := Ledger.take_ok hm.1 hx
    refine .inr ⟨row, ?_, hr, congrArg some he⟩
    obtain hq | he := hm.2.1
    · exact .inl hq
    · exact .inr (CommandRun.expired_running he)

/-- An update of the lease of a leased run is the update of one row, or of none. -/
theorem Ledger.lease_update {runId : Uuid} {leaseOwner : String} {leaseFence : Int}
    {p : CommandRun → Prop} [DecidablePred p] {leaseUntil : Time}
    (hp : ∀ r, p r → Leased runId leaseOwner leaseFence r)
    (u : Table CommandRun CommandRun.id fun _ => True)
    (hu : u = s.runs.update p fun r => { r with leaseUntil := some leaseUntil, updatedAt := now }) :
    u = s.runs ∨ ∃ row, row.status = .running ∧ Table.Replaces s.runs u row
      { row with leaseUntil := some leaseUntil, updatedAt := now } := by
  subst hu
  by_cases h : ∃ row ∈ s.runs, p row
  · obtain ⟨row, hm, hrow⟩ := h
    refine .inr ⟨row, (hp row hrow).2.1, ?_⟩
    exact Table.replaces_update Table.rows_update hm hrow
      (fun b _ hb => (hp b hb).1.trans (hp row hrow).1.symm) rfl
  · push Not at h
    exact .inl (Table.update_eq_self h)

theorem Ledger.renew_ok {runId : Uuid} {leaseOwner : String} {leaseFence : Int}
    {leaseUntil : Time} {x : Bool × Ledger}
    (h : s.renew runId leaseOwner leaseFence leaseUntil now = .ok x) :
    x.2.runs = s.runs ∨ ∃ row, row.status = .running ∧ Table.Replaces s.runs x.2.runs row
      { row with leaseUntil := some leaseUntil, updatedAt := now } := by
  simp only [Ledger.renew] at h
  split at h
  · cases h
  · cases h
    exact Ledger.lease_update (fun r hr => hr.1) _ rfl

theorem Ledger.abandon_runs (s : Ledger) (runId : Uuid) (leaseOwner : String) (leaseFence : Int)
    (now : Time) :
    (s.abandon runId leaseOwner leaseFence now).2.runs = s.runs ∨ ∃ row, row.status = .running ∧
      Table.Replaces s.runs (s.abandon runId leaseOwner leaseFence now).2.runs row
        { row with leaseUntil := some now, updatedAt := now } := by
  unfold Ledger.abandon
  split
  · exact .inl rfl
  · split
    · exact .inl rfl
    · exact Ledger.lease_update (fun _ hr => hr) _ rfl

/-- A successful `append_event` keeps the runs; of a leased run it is the holder's. -/
theorem Ledger.appendEvent_ok {runId : Uuid} {e : EventInput} {leaseOwner : Option String}
    {leaseFence : Option Int} {x : LedgerEvent × Ledger}
    (h : s.appendEvent runId e leaseOwner leaseFence now d = .ok x) :
    x.2.runs = s.runs ∧ ∃ row ∈ s.runs, row.id = runId ∧
      (row.status = .running → row.leaseOwner ≠ none →
        LeaseHeld row leaseOwner leaseFence now) := by
  simp only [Ledger.appendEvent] at h
  split at h
  · cases h
  rename_i row hrow
  obtain ⟨hm, hid⟩ := Ledger.find?_run hrow
  split at h
  · cases h
  · rename_i hguard
    obtain ⟨_, hn⟩ | ⟨_, _, he, _, _⟩ := leasePredicates_ok hguard
    · exact ⟨Ledger.runs_recordEvent h, row, hm, hid, fun hr ho => absurd (hn hr) ho⟩
    · cases he
  · rename_i guard hguard
    obtain ⟨he, _⟩ | ⟨_, _, _, _, hheld⟩ := leasePredicates_ok hguard
    · cases he
    split at h
    · cases h
    have hsame : (s.runs.update (fun r : CommandRun =>
        r.id = runId ∧ r.status = .running ∧ GuardHolds (some guard) r)
        fun r => { r with leaseFence := guard.leaseFence.toNat }) = s.runs := by
      refine Table.update_eq_of_fixed fun r _ hr => ?_
      have hf : (r.leaseFence : Int) = guard.leaseFence := hr.2.2.2.1
      rw [← hf, Int.toNat_natCast]
    split at h
    · cases h
    · refine ⟨?_, row, hm, hid, fun _ _ => hheld⟩
      rw [Ledger.runs_recordEvent h]
      exact hsame

theorem Ledger.createRun_ok {request : CommandRequest} {fingerprint : String} {newId : Uuid}
    {x : CommandRun × Ledger} (h : s.createRun request fingerprint newId now d = .ok x) :
    x.2.runs = s.runs ∨ x.1.status = .created ∧
      (x.1.leaseOwner = none ∧ x.1.leaseUntil = none ∧ x.1.leaseFence = 0) ∧
      x.2.runs.rows = s.runs.rows ++ [x.1] ∧ ∀ r ∈ s.runs, r.id ≠ x.1.id := by
  simp only [Ledger.createRun] at h
  split at h
  · split at h
    · cases h
    · cases h
      exact .inl rfl
  · split at h
    · cases h
    · rename_i runs hins
      obtain ⟨y, hy, he⟩ := map_ok h
      cases he
      obtain ⟨hrows, _, _, hfresh⟩ := Table.insertAll_eq_some hins
      refine .inr ⟨rfl, ⟨rfl, rfl, rfl⟩, ?_, hfresh _ List.mem_cons_self⟩
      rw [Ledger.runs_recordEvent hy]
      exact hrows

theorem Ledger.transition_ok {runId : Uuid} {status : CommandStatus} {leaseOwner : Option String}
    {leaseFence : Option Int} {x : CommandRun × Ledger}
    (h : s.transition runId status leaseOwner leaseFence now d = .ok x) :
    status ≠ .running ∧ ∃ row, row.id = runId ∧ status ∈ row.status.transitions ∧
      Table.Replaces s.runs x.2.runs row (row.left status now) ∧
      (row.status = .running → row.leaseOwner ≠ none →
        LeaseHeld row leaseOwner leaseFence now) := by
  simp only [Ledger.transition] at h
  split at h
  · cases h
  rename_i hst
  split at h
  · cases h
  · rename_i updated u hleave
    obtain ⟨y, hy, he⟩ := map_ok h
    cases he
    obtain ⟨row, hid, hedge, hrep, _, hheld⟩ := Ledger.leave_ok hleave
    refine ⟨hst, row, hid, hedge, ?_, hheld⟩
    rw [Ledger.runs_recordEvent hy]
    exact hrep

theorem Ledger.finish_ok {runId : Uuid} {status : CommandStatus} {e : EventInput}
    {leaseOwner : Option String} {leaseFence : Option Int} {d' : Draw} {x : CommandRun × Ledger}
    (h : s.finish runId status e leaseOwner leaseFence now d d' = .ok x) :
    (status = .succeeded ∨ status = .failed) ∧ ∃ row, row.id = runId ∧
      status ∈ row.status.transitions ∧
      Table.Replaces s.runs x.2.runs row (row.left status now) ∧
      (row.status = .running → row.leaseOwner ≠ none →
        LeaseHeld row leaseOwner leaseFence now) := by
  simp only [Ledger.finish] at h
  split at h
  · cases h
  rename_i hst
  split at h
  · cases h
  rename_i updated u hleave
  split at h
  · cases h
  rename_i event v hevent
  obtain ⟨y, hy, he⟩ := map_ok h
  cases he
  obtain ⟨row, hid, hedge, hrep, _, hheld⟩ := Ledger.leave_ok hleave
  refine ⟨?_, row, hid, hedge, ?_, hheld⟩
  · by_cases hs : status = .succeeded
    · exact .inl hs
    · exact .inr (by simpa [hs] using hst)
  · have hruns : v.runs = u.runs := Ledger.runs_recordEvent hevent
    rw [Ledger.runs_recordEvent hy, hruns]
    exact hrep

/-- The inversion of a step. -/
theorem effect_after (σ : Config) (call : Call) (t : Supply) :
    Effect σ call (σ.after call t) := by
  have hafter : ∀ {reply ledger}, call.exec t σ.ledger = .ok (reply, ledger) →
      σ.after call t = ⟨ledger, σ.claims ++ reply.claim?.toList,
        σ.finished ++ call.finished?.toList⟩ := by
    intro reply ledger h
    simp only [Config.after, h]
  cases he : call.exec t σ.ledger with
  | error error =>
    have : σ.after call t = σ := by simp only [Config.after, he]
    exact .idle (by rw [this]) (by rw [this]) (by rw [this])
  | ok x =>
    rw [hafter he]
    cases call with
    | createRun request fingerprint newId =>
      obtain ⟨y, hy, rfl⟩ := map_ok he
      obtain hr | ⟨hs, hl, hrows, hfresh⟩ := Ledger.createRun_ok hy
      · exact .idle hr (List.append_nil _) (List.append_nil _)
      · exact .created y.1 hs hl hrows hfresh (List.append_nil _) (List.append_nil _)
    | transition runId status leaseOwner leaseFence =>
      obtain ⟨y, hy, rfl⟩ := map_ok he
      obtain ⟨hst, row, rfl, hedge, hrep, _⟩ := Ledger.transition_ok hy
      exact .moved row status t.now leaseOwner leaseFence rfl hedge hst hrep (List.append_nil _)
        (List.append_nil _)
    | claim runId workerId leaseUntil =>
      obtain ⟨⟨z, u⟩, hy, rfl⟩ := map_ok he
      obtain ⟨row, worker, hs, hrep, rfl⟩ := Ledger.claim_ok hy
      exact .taken row worker leaseUntil t.now hs hrep rfl (List.append_nil _)
    | claimNext workerId locked leaseUntil =>
      obtain ⟨⟨z, u⟩, hy, rfl⟩ := map_ok he
      obtain hn | ⟨row, hs, hrep, rfl⟩ := Ledger.claimNext_ok hy
      · cases hn
        exact .idle rfl (List.append_nil _) (List.append_nil _)
      · exact .taken row workerId leaseUntil t.now hs hrep rfl (List.append_nil _)
    | renew runId leaseOwner leaseFence leaseUntil =>
      obtain ⟨y, hy, rfl⟩ := map_ok he
      obtain hr | ⟨row, hs, hrep⟩ := Ledger.renew_ok hy
      · exact .idle hr (List.append_nil _) (List.append_nil _)
      · exact .extended row leaseUntil t.now hs hrep (List.append_nil _) (List.append_nil _)
    | abandon runId leaseOwner leaseFence =>
      cases he
      obtain hr | ⟨row, hs, hrep⟩ :=
        Ledger.abandon_runs σ.ledger runId leaseOwner leaseFence t.now
      · exact .idle hr (List.append_nil _) (List.append_nil _)
      · exact .extended row t.now t.now hs hrep (List.append_nil _) (List.append_nil _)
    | appendEvent runId event leaseOwner leaseFence =>
      obtain ⟨y, hy, rfl⟩ := map_ok he
      exact .idle (Ledger.appendEvent_ok hy).1 (List.append_nil _) (List.append_nil _)
    | finish runId status event leaseOwner leaseFence =>
      obtain ⟨y, hy, rfl⟩ := map_ok he
      obtain ⟨hst, row, rfl, hedge, hrep, _⟩ := Ledger.finish_ok hy
      exact .ended row status t.now hedge hst hrep (List.append_nil _) rfl

/-- The lease a call names, with the run it is for. -/
def Call.lease? : Call → Option (Uuid × Option String × Option Int)
  | .transition runId _ leaseOwner leaseFence => some (runId, leaseOwner, leaseFence)
  | .appendEvent runId _ leaseOwner leaseFence => some (runId, leaseOwner, leaseFence)
  | .finish runId _ _ leaseOwner leaseFence => some (runId, leaseOwner, leaseFence)
  | _ => none

/-- A call that names a lease succeeds on a leased run only for its holder. -/
theorem exec_held {call : Call} {t : Supply} {s : Ledger} {x : Reply × Ledger} {r : CommandRun}
    {leaseOwner : Option String} {leaseFence : Option Int} (h : call.exec t s = .ok x)
    (hl : call.lease? = some (r.id, leaseOwner, leaseFence)) (hr : r ∈ s.runs)
    (hs : r.status = .running) (ho : r.leaseOwner ≠ none) :
    LeaseHeld r leaseOwner leaseFence t.now := by
  have hrow : ∀ {row : CommandRun}, row ∈ s.runs → row.id = r.id → (row.status = .running →
      row.leaseOwner ≠ none → LeaseHeld row leaseOwner leaseFence t.now) →
      LeaseHeld r leaseOwner leaseFence t.now := by
    intro row hm hid hheld
    rw [Table.eq_of_key hm hr hid] at hheld
    exact hheld hs ho
  cases call with
  | transition runId status owner fence =>
    cases hl
    obtain ⟨y, hy, _⟩ := map_ok h
    obtain ⟨_, row, hid, _, hrep, hheld⟩ := Ledger.transition_ok hy
    exact hrow hrep.1 hid hheld
  | appendEvent runId event owner fence =>
    cases hl
    obtain ⟨y, hy, _⟩ := map_ok h
    obtain ⟨_, row, hm, hid, hheld⟩ := Ledger.appendEvent_ok hy
    exact hrow hm hid hheld
  | finish runId status event owner fence =>
    cases hl
    obtain ⟨y, hy, _⟩ := map_ok h
    obtain ⟨_, row, hid, _, hrep, hheld⟩ := Ledger.finish_ok hy
    exact hrow hrep.1 hid hheld
  | createRun _ _ _ => cases hl
  | claim _ _ _ => cases hl
  | claimNext _ _ _ => cases hl
  | renew _ _ _ _ => cases hl
  | abandon _ _ _ => cases hl

end Effects

end Fairy.Commanding
