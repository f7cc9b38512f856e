import Mathlib.Algebra.Ring.Int.Defs
import Fairy.Workflow.Enforcement

namespace Fairy.Workflow

open Fairy.Lib

/-- A call of `reserve_budget`. -/
structure BudgetCall where
  runId : Uuid
  modelRounds : Int
  toolInvocations : Int
  deriving DecidableEq

/-- The call reserves something and gives nothing back. -/
def BudgetCall.Positive (c : BudgetCall) : Prop :=
  0 ≤ c.modelRounds ∧ 0 ≤ c.toolInvocations ∧ ¬ (c.modelRounds = 0 ∧ c.toolInvocations = 0)

/-- The row still has the counters `run` was read with, as the `UPDATE` asks. -/
def BudgetCall.Unmoved (c : BudgetCall) (run r : WorkflowRun) : Prop :=
  r.id = c.runId ∧ r.modelRoundsUsed = run.modelRoundsUsed ∧
    r.toolInvocationsUsed = run.toolInvocationsUsed

instance (c : BudgetCall) (run : WorkflowRun) : DecidablePred (c.Unmoved run) :=
  fun _ => inferInstanceAs (Decidable (_ ∧ _))

/-- What the `UPDATE` of `reserve_budget` sets. -/
def WorkflowRun.charged (r run : WorkflowRun) (c : BudgetCall) (now : Time) : WorkflowRun :=
  { r with modelRoundsUsed := run.modelRoundsUsed + c.modelRounds.toNat,
           toolInvocationsUsed := run.toolInvocationsUsed + c.toolInvocations.toNat,
           updatedAt := now }

namespace Store

/-- `reserve_budget` up to its `UPDATE`: the row it reads, if it goes on. -/
def readBudget (s : Store) (c : BudgetCall) : Except WorkflowError WorkflowRun := do
  if c.modelRounds < 0 ∨ c.toolInvocations < 0 ∨ (c.modelRounds = 0 ∧ c.toolInvocations = 0) then
    throw (.valueError "Workflow budget reservation must be positive")
  let run ← s.readRun c.runId
  if run.status.terminal then
    throw (.budgetExceeded "Terminal Workflow cannot reserve budget")
  if run.budget.maxModelRounds < run.modelRoundsUsed + c.modelRounds.toNat ∨
      run.budget.maxToolInvocations < run.toolInvocationsUsed + c.toolInvocations.toNat then
    throw (.budgetExceeded "Workflow execution budget is exhausted")
  return run

/-- `reserve_budget` from its `UPDATE` on. -/
def chargeBudget (s : Store) (c : BudgetCall) (run : WorkflowRun) (now : Time) :
    Except WorkflowError (WorkflowSnapshot × Store) := do
  match s.runs.tryUpdate (c.Unmoved run) (·.charged run c now) with
  | none => throw (.integrityError "ck_core_workflow_runs_budget_usage")
  | some runs =>
    let s : Store := { s with runs }
    return (← s.snapshot c.runId, s)

/-- With nothing in between, the two steps are the whole call. -/
theorem reserveBudget_steps (s : Store) (c : BudgetCall) (t : Readings) :
    s.reserveBudget c.runId c.modelRounds c.toolInvocations t =
      s.readBudget c >>= fun run => s.chargeBudget c run t.first := by
  unfold reserveBudget readBudget
  split
  · rfl
  · cases s.readRun c.runId with
    | error e => rfl
    | ok run =>
      simp only [ok_bind]
      split
      · rfl
      split
      · rfl
      · rfl

end Store

/-- The rows, the calls that stand between their two steps with the row each has
read, and the calls that have returned. A call that raised leaves no trace. -/
structure BudgetRace where
  store : Store
  reading : List (BudgetCall × WorkflowRun)
  returned : List BudgetCall

namespace BudgetRace

/-- The steps of the callers: a call starts with its read, and the `i`-th of the
calls that have read goes on to its `UPDATE`. -/
inductive Event
  | read (c : BudgetCall)
  | update (i : Nat) (now : Time)

def after (w : BudgetRace) : Event → BudgetRace
  | .read c =>
    match w.store.readBudget c with
    | .error _ => w
    | .ok run => { w with reading := w.reading ++ [(c, run)] }
  | .update i now =>
    match w.reading[i]? with
    | none => w
    | some (c, run) =>
      match w.store.chargeBudget c run now with
      | .error _ => { w with reading := w.reading.eraseIdx i }
      | .ok (_, store) =>
        { store, reading := w.reading.eraseIdx i, returned := w.returned ++ [c] }

def start (s : Store) : BudgetRace := ⟨s, [], []⟩

/-- What the calls that returned have reserved of the run. -/
def reserved (w : BudgetRace) (amount : BudgetCall → Int) (runId : Uuid) : Int :=
  ((w.returned.filter fun c => c.runId = runId).map amount).sum

/-- The `UPDATE` finds the counters its call has read, or the rows of the run
cannot be read back, so that the call raises. -/
def Undisturbed (w : BudgetRace) : Event → Prop
  | .read _ => True
  | .update i _ => ∀ c run, w.reading[i]? = some (c, run) →
      (∀ r ∈ w.store.runs, r.id = c.runId → c.Unmoved run r) ∨ ¬ Readable w.store c.runId

/-- The races in which every step that is taken is admitted by `ok`. -/
abbrev Runs (ok : BudgetRace → Event → Prop) : BudgetRace → BudgetRace → Prop :=
  Run (fun w e w' => w' = w.after e) ok

/-- No reservation is lost: the counters of every run have grown by what the
calls that returned have reserved of it. -/
def Accounted (s : Store) (w : BudgetRace) : Prop :=
  ∀ r ∈ w.store.runs, ∃ q ∈ s.runs, q.id = r.id ∧ r.budget = q.budget ∧
    (r.modelRoundsUsed : Int) = q.modelRoundsUsed + w.reserved BudgetCall.modelRounds r.id ∧
    (r.toolInvocationsUsed : Int) =
      q.toolInvocationsUsed + w.reserved BudgetCall.toolInvocations r.id

variable {s : Store} {w : BudgetRace}

theorem accounted_start (s : Store) : Accounted s (start s) := by
  intro r hr
  exact ⟨r, hr, rfl, rfl, by simp [reserved, start], by simp [reserved, start]⟩

theorem reserved_append {store : Store} {reading : List (BudgetCall × WorkflowRun)}
    (w : BudgetRace) (c : BudgetCall) (amount : BudgetCall → Int) (runId : Uuid) :
    reserved ⟨store, reading, w.returned ++ [c]⟩ amount runId =
      w.reserved amount runId + if c.runId = runId then amount c else 0 := by
  unfold reserved
  rw [List.filter_append, List.map_append, List.sum_append]
  by_cases h : c.runId = runId
  · simp [h]
  · simp [h]

/-- A call that has read is one that reserves something. -/
def Meant (w : BudgetRace) : Prop := ∀ x ∈ w.reading, x.1.Positive

theorem readBudget_positive {c : BudgetCall} {run : WorkflowRun}
    (h : s.readBudget c = .ok run) : c.Positive := by
  unfold Store.readBudget at h
  split at h
  · exact absurd h throw_bind_ne
  rename_i hn
  simp only [not_or, Int.not_lt] at hn
  exact hn

theorem Meant.after (h : w.Meant) (e : Event) : (w.after e).Meant := by
  cases e with
  | read c =>
    unfold BudgetRace.after
    dsimp only
    split
    · exact h
    · rename_i run hread
      intro x hx
      obtain hx | hx := List.mem_append.mp hx
      · exact h x hx
      · rw [List.mem_singleton.mp hx]
        exact readBudget_positive hread
  | update i now =>
    have herase : ∀ x ∈ w.reading.eraseIdx i, x.1.Positive :=
      fun x hx => h x (List.eraseIdx_subset hx)
    unfold BudgetRace.after
    dsimp only
    split
    · exact h
    · split
      · exact herase
      · exact herase

theorem chargeBudget_ok {c : BudgetCall} {run : WorkflowRun} {now : Time} {s' : Store}
    {snap : WorkflowSnapshot} (h : s.chargeBudget c run now = .ok (snap, s')) :
    s'.runs.rows = s.runs.rows.map fun r => if c.Unmoved run r then r.charged run c now else r := by
  unfold Store.chargeBudget at h
  split at h
  · cases h
  · cases snapshot_bind_ok h
    exact (Table.tryUpdate_eq_some ‹_›).1

/-- An `UPDATE` that finds no row is no error: the call goes on to its answer with
nothing written. -/
theorem chargeBudget_missed {c : BudgetCall} {run : WorkflowRun} {now : Time}
    (hmiss : ∀ r ∈ s.runs, ¬ c.Unmoved run r) :
    s.chargeBudget c run now = do return (← s.snapshot c.runId, s) := by
  unfold Store.chargeBudget
  split
  · rename_i hnone
    obtain ⟨r, hr, hp, _⟩ := Table.tryUpdate_eq_none.mp hnone
    exact absurd hp (hmiss r hr)
  · rename_i runs hsome
    have hrows : runs = s.runs := by
      apply Table.eq_of_rows
      rw [(Table.tryUpdate_eq_some hsome).1]
      conv_rhs => rw [← List.map_id s.runs.rows]
      exact List.map_congr_left fun r hr => if_neg (hmiss r hr)
    rw [hrows]

theorem snapshot_readable {runId : Uuid} :
    (∃ snap, s.snapshot runId = .ok snap) ↔ Readable s runId := by
  rw [← get_readable]
  unfold Store.snapshot
  constructor
  · rintro ⟨snap, h⟩
    obtain ⟨found, hget, h⟩ := bind_ok h
    cases found with
    | none => cases h
    | some snapshot => exact ⟨snapshot, hget⟩
  · rintro ⟨snapshot, hget⟩
    exact ⟨snapshot, by rw [hget]; rfl⟩

/-- The `UPDATE` of a call whose row has moved finds no row at all. -/
theorem missed {c : BudgetCall} {run : WorkflowRun}
    (h : ¬ ∀ r ∈ s.runs, r.id = c.runId → c.Unmoved run r) : ∀ r ∈ s.runs, ¬ c.Unmoved run r := by
  intro r hr hp
  apply h
  intro q hq hid
  rwa [Table.eq_of_key hq hr (hid.trans hp.1.symm)]

/-- A charge that meets the row as read keeps the account. -/
theorem Accounted.charge (h : Accounted s w) {c : BudgetCall} {run : WorkflowRun} {now : Time}
    {s' : Store} {snap : WorkflowSnapshot} {reading : List (BudgetCall × WorkflowRun)}
    (hc : c.Positive) (hsame : ∀ r ∈ w.store.runs, r.id = c.runId → c.Unmoved run r)
    (hok : w.store.chargeBudget c run now = .ok (snap, s')) :
    Accounted s ⟨s', reading, w.returned ++ [c]⟩ := by
  obtain ⟨hrounds, htools, _⟩ := hc
  intro r' hr'
  obtain ⟨r, hr, ⟨hid, hm, ht⟩, rfl⟩ | ⟨hr, hother⟩ := Table.update_cases (chargeBudget_ok hok) hr'
  · obtain ⟨q, hq, hqid, hbudget, hqm, hqt⟩ := h r hr
    refine ⟨q, hq, hqid, hbudget, ?_, ?_⟩
    · rw [reserved_append]
      change ((run.modelRoundsUsed + c.modelRounds.toNat : Nat) : Int) =
        _ + (w.reserved _ r.id + if c.runId = r.id then _ else _)
      rw [if_pos hid.symm]
      omega
    · rw [reserved_append]
      change ((run.toolInvocationsUsed + c.toolInvocations.toNat : Nat) : Int) =
        _ + (w.reserved _ r.id + if c.runId = r.id then _ else _)
      rw [if_pos hid.symm]
      omega
  · obtain ⟨q, hq, hqid, hbudget, hqm, hqt⟩ := h r' hr
    have hne : c.runId ≠ r'.id := fun he => hother (hsame r' hr he.symm)
    refine ⟨q, hq, hqid, hbudget, ?_, ?_⟩
    · rw [reserved_append, if_neg hne, Int.add_zero]
      exact hqm
    · rw [reserved_append, if_neg hne, Int.add_zero]
      exact hqt

/-- A step that is undisturbed keeps the account. -/
theorem Accounted.after (h : Accounted s w) (hm : w.Meant) {e : Event} (he : w.Undisturbed e) :
    Accounted s (w.after e) := by
  cases e with
  | read c =>
    unfold BudgetRace.after
    dsimp only
    split
    · exact h
    · exact h
  | update i now =>
    unfold BudgetRace.after
    dsimp only
    split
    · exact h
    rename_i c run hi
    split
    · exact h
    rename_i snap s' hok
    have hc := hm _ (List.mem_of_getElem? hi)
    by_cases hsame : ∀ r ∈ w.store.runs, r.id = c.runId → c.Unmoved run r
    · exact h.charge hc hsame hok
    · have hread := (he c run hi).resolve_left hsame
      rw [chargeBudget_missed (missed hsame)] at hok
      obtain ⟨_, hsnap, _⟩ := bind_ok hok
      exact absurd (snapshot_readable.mp ⟨_, hsnap⟩) hread

/-- A step that is disturbed is the loss of a reservation. -/
theorem Accounted.lost (h : Accounted s w) (hm : w.Meant) {e : Event} (he : ¬ w.Undisturbed e) :
    ¬ Accounted s (w.after e) := by
  cases e with
  | read c => exact absurd trivial he
  | update i now =>
    simp only [Undisturbed, not_forall, not_or, not_not] at he
    obtain ⟨c, run, hi, ⟨r, hr, hid, hmoved⟩, hread⟩ := he
    have hsame : ¬ ∀ r ∈ w.store.runs, r.id = c.runId → c.Unmoved run r :=
      fun hall => hmoved (hall r hr hid)
    obtain ⟨snap, hsnap⟩ := snapshot_readable.mpr hread
    have hafter : w.after (.update i now) =
        ⟨w.store, w.reading.eraseIdx i, w.returned ++ [c]⟩ := by
      unfold BudgetRace.after
      dsimp only
      rw [hi]
      dsimp only
      rw [chargeBudget_missed (missed hsame), hsnap]
      rfl
    rw [hafter]
    intro hlost
    obtain ⟨q, hq, hqid, _, hqm, hqt⟩ := h r hr
    obtain ⟨p, hp, hpid, _, hpm, hpt⟩ := hlost r hr
    obtain rfl := Table.eq_of_key hp hq (hpid.trans hqid.symm)
    rw [reserved_append, if_pos hid.symm] at hpm hpt
    have hc : c.Positive := hm _ (List.mem_of_getElem? hi)
    obtain ⟨_, _, hsome⟩ := hc
    apply hsome
    constructor
    · omega
    · omega

theorem Runs.accounted (h : Runs Undisturbed (start s) w) : Accounted s w ∧ w.Meant := by
  have hstart : (start s).Meant := fun x hx => absurd hx List.not_mem_nil
  refine h.invariant (I := fun w => Accounted s w ∧ w.Meant) ?_ ⟨accounted_start s, hstart⟩
  rintro v e v' ⟨hv, hm⟩ he hstep
  subst hstep
  exact ⟨hv.after hm he, hm.after e⟩

theorem runs_foldl (events : List Event) :
    Runs (fun _ _ => True) w (events.foldl BudgetRace.after w) := by
  induction events generalizing w with
  | nil => exact .refl
  | cons e events ih => exact (Run.single (i := e) trivial rfl).trans ih

end BudgetRace

open BudgetRace

/-- While every `UPDATE` finds the counters as its call has read them, what the
calls that returned have reserved is what the counters show, which stay within the
budget; the first `UPDATE` that does not, and returns, loses its reservation. -/
theorem reservations_accounted_iff {s : Store} {w : BudgetRace}
    (h : BudgetRace.Runs Undisturbed (.start s) w) :
    Accounted s w ∧
      (∀ r ∈ w.store.runs, r.modelRoundsUsed ≤ r.budget.maxModelRounds ∧
        r.toolInvocationsUsed ≤ r.budget.maxToolInvocations) ∧
      ∀ e, Accounted s (w.after e) ↔ w.Undisturbed e := by
  obtain ⟨ha, hm⟩ := h.accounted
  refine ⟨ha, fun r hr => ?_, fun e => ⟨fun hafter => ?_, fun he => ha.after hm he⟩⟩
  · obtain ⟨hrounds, htools, _⟩ := Table.check_of_mem hr
    exact ⟨hrounds, htools⟩
  · by_contra he
    exact ha.lost hm he hafter

/-- A store with one run, and a call that reserves one round of it. -/
def budgetStore : Store := (played [(Op.create sampleRun [sampleNode 1 .serial 1] []).at 0]).store

def budgetCall : BudgetCall := ⟨1, 1, 2⟩

theorem reservations_accounted_alone :
    let w := [Event.read budgetCall, .update 0 1].foldl BudgetRace.after (.start budgetStore)
    w.returned = [budgetCall] ∧ Accounted budgetStore w := by
  have hread : BudgetRace.Runs Undisturbed (.start budgetStore)
      ((BudgetRace.start budgetStore).after (.read budgetCall)) :=
    Run.single (i := Event.read budgetCall) trivial rfl
  have hfound : ((BudgetRace.start budgetStore).after (.read budgetCall)).Undisturbed
      (.update 0 1) := by
    rintro c run h
    cases h
    left
    decide
  exact ⟨by decide, (reservations_accounted_iff (hread.next hfound rfl)).1⟩

/-- Two calls that read before either writes both return, and the run shows one
reservation. -/
theorem reservation_lost :
    let w := [Event.read budgetCall, .read budgetCall, .update 0 1, .update 0 1].foldl
      BudgetRace.after (.start budgetStore)
    BudgetRace.Runs (fun _ _ => True) (.start budgetStore) w ∧
      w.returned = [budgetCall, budgetCall] ∧
      w.store.runs.rows.map (fun r => (r.modelRoundsUsed, r.toolInvocationsUsed)) = [(1, 2)] ∧
      ¬ Accounted budgetStore w := by
  refine ⟨runs_foldl _, by decide, by decide, fun h => ?_⟩
  obtain ⟨q, hq, _, _, hrounds, _⟩ := h _ List.mem_cons_self
  have hq := List.mem_singleton.mp hq
  subst hq
  revert hrounds
  decide

end Fairy.Workflow
