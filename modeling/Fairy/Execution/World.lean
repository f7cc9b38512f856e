import Fairy.Execution.Repository
import Fairy.Lib.Run

namespace Fairy.Execution

open Fairy.Lib

inductive JobEvent
  | claimed (claim : ExecutionClaim)
  | spawned (key : JobKey)
  | recorded (key : JobKey)
  deriving DecidableEq

/-- The job that an event is about. -/
def JobEvent.key : JobEvent → JobKey
  | .claimed claim => claim.job.key
  | .spawned key | .recorded key => key

/-- The calls of the application, of any number of workers and of the reconciler. A
finalization is two statements, which other calls may come between. -/
inductive JobAct
  | enqueue (now : Time) (tenantId : String) (request : SandboxRequest)
  | requestCancel (now : Time) (key : JobKey)
  | claimNext (now : Time) (ownerId : String) (leaseSeconds : Nat) (locked : List JobKey)
  | markSpawned (now : Time) (claim : ExecutionClaim)
  | markCancelled (now : Time) (claim : ExecutionClaim)
  | recordResult (now : Time) (claim : ExecutionClaim) (result : SandboxResult)
  | finalizeRead (claim : ExecutionClaim)
  | finalizeWrite (now : Time) (claim : ExecutionClaim) (status : ExecutionJobStatus)
  | markInterrupted (now : Time) (claim : ExecutionClaim)
  | reconcileExpired (now : Time)

/-- The claim that a call is made with. -/
def JobAct.claim? : JobAct → Option ExecutionClaim
  | .markSpawned _ claim | .markCancelled _ claim | .recordResult _ claim _
  | .finalizeRead claim | .finalizeWrite _ claim _ | .markInterrupted _ claim => some claim
  | .enqueue .. | .requestCancel .. | .claimNext .. | .reconcileExpired _ => none

/-- The jobs, the finalizers between their two statements, and what has happened. -/
structure World where
  jobs : Jobs
  reads : List (ExecutionClaim × ExecutionJobStatus)
  log : List JobEvent

namespace World

def initial : World := ⟨.empty, [], []⟩

/-- A call that raises changes nothing. -/
def put (w : World) (event : Option JobEvent) : Except ExecutionError Jobs → World
  | .ok jobs => { w with jobs := jobs, log := w.log ++ event.toList }
  | .error _ => w

def after (x : Digest) (w : World) : JobAct → World
  | .enqueue now tenantId request => w.put none (w.jobs.enqueue x now tenantId request)
  | .requestCancel now key => w.put none (w.jobs.requestCancel now key)
  | .claimNext now ownerId leaseSeconds locked =>
    match w.jobs.claimNext now ownerId leaseSeconds locked with
    | .ok (jobs, some claim) => w.put (some (.claimed claim)) (.ok jobs)
    | .ok (_, none) | .error _ => w
  | .markSpawned now claim =>
    w.put (some (.spawned claim.job.key)) (w.jobs.markSpawned now claim)
  | .markCancelled now claim => w.put none (w.jobs.markCancelled now claim)
  | .recordResult now claim result =>
    w.put (some (.recorded claim.job.key)) (w.jobs.recordResult now claim result)
  | .finalizeRead claim =>
    match w.jobs.finalizeRead claim with
    | .ok status => { w with reads := (claim, status) :: w.reads }
    | .error _ => w
  | .finalizeWrite now claim status =>
    if (claim, status) ∈ w.reads then
      ({ w with reads := w.reads.erase (claim, status) } : World).put none
        (w.jobs.finalizeWrite now claim status)
    else w
  | .markInterrupted now claim => w.put none (.ok (w.jobs.markInterrupted now claim))
  | .reconcileExpired now => w.put none (.ok (w.jobs.reconcileExpired now))

def Step (x : Digest) (w : World) (act : JobAct) (w' : World) : Prop := w' = w.after x act

end World

/-- What a call can make of one job, and the event that goes with it. -/
inductive Change (a : ExecutionJob) : ExecutionJob → Option JobEvent → Prop
  | cancel (now : Time) (open' : a.status.terminal = false) :
    Change a (a.cancelRequestedAt now) none
  | claim (now : Time) (ownerId : String) (leaseSeconds : Nat) (claimable : a.Claimable now) :
    Change a (a.claimedBy now ownerId leaseSeconds)
      (some (.claimed ⟨a.claimedBy now ownerId leaseSeconds, a.claimAction⟩))
  | spawn (now : Time) (timeoutSeconds : Nat) (claimed : a.status = .claimed)
      (wanted : a.cancelRequested = false) :
    Change a (a.spawnedWith now timeoutSeconds) (some (.spawned a.key))
  | cancelByWorker (now : Time) (claimed : a.status = .claimed) :
    Change a (a.cancelledByWorker now) none
  | record (now : Time) (result : SandboxResult) (running : a.status = .running) :
    Change a (a.recordedWith now result) (some (.recorded a.key))
  | finalize (now : Time) (result : SandboxResult) (recorded : a.status = .resultRecorded)
      (read : a.result = some result) :
    Change a (a.finalizedAs (terminalStatus result.status) now) none
  | interrupt (now : Time) (active : a.status = .claimed ∨ a.status = .running) :
    Change a (a.settledAs .interrupted now) none
  | expire (now : Time) (claimed : a.status = .claimed) :
    Change a (a.settledAs .cancelled now) none

/-- What a call can do to the world. -/
inductive Move (w w' : World) : Prop
  | quiet (f : ExecutionJob → ExecutionJob) (jobs : w'.jobs.rows = w.jobs.rows.map f)
      (change : ∀ a ∈ w.jobs, f a = a ∨ Change a (f a) none) (log : w'.log = w.log)
  | event (a b : ExecutionJob) (e : JobEvent) (jobs : Table.Replaces w.jobs w'.jobs a b)
      (change : Change a b (some e)) (log : w'.log = w.log ++ [e])
  | created (row : ExecutionJob) (fresh : ∀ a ∈ w.jobs, a.key ≠ row.key)
      (status : row.status = .queued) (unspawned : row.spawnedAt = none)
      (unrecorded : row.result = none) (jobs : w'.jobs.rows = w.jobs.rows ++ [row])
      (log : w'.log = w.log)

/-- A finalizer between its two statements has read the status of the recorded result. -/
def World.ReadsTrue (w : World) : Prop :=
  ∀ c status, (c, status) ∈ w.reads → ∃ a ∈ w.jobs, a.key = c.job.key ∧
    ∃ result, a.result = some result ∧ status = terminalStatus result.status

variable {x : Digest} {w w' : World} {act : JobAct} {a b : ExecutionJob} {e : Option JobEvent}

theorem Change.key (h : Change a b e) : b.key = a.key := by
  cases h with
  | cancel now _ =>
    simp only [ExecutionJob.cancelRequestedAt]
    split <;> rfl
  | claim | spawn | cancelByWorker | record | finalize | interrupt | expire => rfl

theorem move_same (w : World) : Move w w :=
  .quiet id (List.map_id _).symm (fun _ _ => .inl rfl) rfl

theorem move_update {p : ExecutionJob → Prop} [DecidablePred p] {f : ExecutionJob → ExecutionJob}
    (jobs : w'.jobs.rows = w.jobs.rows.map fun a => if p a then f a else a)
    (change : ∀ a ∈ w.jobs, p a → Change a (f a) none) (log : w'.log = w.log) : Move w w' := by
  refine .quiet _ jobs (fun a ha => ?_) log
  by_cases hp : p a
  · rw [if_pos hp]
    exact .inr (change a ha hp)
  · exact .inl (if_neg hp)

theorem move_one {p : ExecutionJob → Prop} [DecidablePred p] {f : ExecutionJob → ExecutionJob}
    {event : JobEvent} (jobs : w'.jobs.rows = w.jobs.rows.map fun a => if p a then f a else a)
    (ha : a ∈ w.jobs) (hp : p a) (single : ∀ b ∈ w.jobs, p b → b.key = a.key)
    (change : Change a (f a) (some event)) (log : w'.log = w.log ++ [event]) : Move w w' :=
  .event a (f a) event (Table.replaces_update jobs ha hp single change.key) change log

namespace World

theorem after_enqueue {now : Time} {tenantId : String} {request : SandboxRequest} :
    Move w (w.after x (.enqueue now tenantId request)) := by
  change Move w (w.put none (w.jobs.enqueue x now tenantId request))
  simp only [Jobs.enqueue]
  split
  · rename_i hnone
    have hfresh := Table.find?_eq_none.mp hnone
    refine .created (ExecutionJob.create x now tenantId request) hfresh rfl rfl rfl ?_
      (List.append_nil _)
    exact Table.insertOrIgnore_of_fresh trivial hfresh
  · split
    · exact move_same w
    · exact .quiet id (List.map_id _).symm (fun _ _ => .inl rfl) (List.append_nil _)

theorem after_requestCancel {now : Time} {key : JobKey} :
    Move w (w.after x (.requestCancel now key)) := by
  change Move w (w.put none (w.jobs.requestCancel now key))
  simp only [Jobs.requestCancel]
  split
  · exact move_same w
  · rename_i row hrow
    obtain ⟨hmem, hkey⟩ := Table.find?_eq_some.mp hrow
    split
    · exact .quiet id (List.map_id _).symm (fun _ _ => .inl rfl) (List.append_nil _)
    · rename_i hopen
      refine move_update rfl (fun a ha hp => ?_) (List.append_nil _)
      obtain rfl := Table.eq_of_key ha hmem (hp.trans hkey.symm)
      exact .cancel now (by simpa using hopen)

theorem claimNext_some {jobs : Jobs} {now : Time} {locked : List JobKey} {row : ExecutionJob}
    (h : jobs.nextClaimable now locked = some row) : row ∈ jobs ∧ row.Claimable now := by
  have hmem := List.mem_mergeSort.mp (List.mem_of_head? h)
  obtain ⟨hrow, hclaimable, _⟩ := Table.mem_select.mp hmem
  exact ⟨hrow, hclaimable⟩

theorem after_claimNext {now : Time} {ownerId : String} {leaseSeconds : Nat}
    {locked : List JobKey} :
    Move w (w.after x (.claimNext now ownerId leaseSeconds locked)) := by
  simp only [after, Jobs.claimNext]
  by_cases hinvalid : Text.strip ownerId = "" ∨ leaseSeconds < 1
  · rw [if_pos hinvalid]
    exact move_same w
  · rw [if_neg hinvalid]
    cases hnext : w.jobs.nextClaimable now locked with
    | none => exact move_same w
    | some row =>
      obtain ⟨hrow, hclaimable⟩ := claimNext_some hnext
      refine move_one rfl hrow ⟨rfl, rfl⟩ (fun b _ hb => hb.1) ?_ rfl
      exact .claim now ownerId leaseSeconds hclaimable

theorem after_markSpawned {now : Time} {claim : ExecutionClaim} :
    Move w (w.after x (.markSpawned now claim)) := by
  change Move w (w.put (some (.spawned claim.job.key)) (w.jobs.markSpawned now claim))
  simp only [Jobs.markSpawned]
  split
  · rename_i hsome
    obtain ⟨a, ha, hp⟩ := hsome
    refine move_one rfl ha hp (fun b _ hb => hb.1.1.trans hp.1.1.symm) ?_ rfl
    rw [← hp.1.1]
    exact .spawn now _ hp.1.2.1 hp.2
  · cases hread : w.jobs.cancellationRequested claim with
    | error _ => exact move_same w
    | ok requested => cases requested <;> exact move_same w

theorem requireFence_ok {jobs : Jobs} {p : ExecutionJob → Prop} [DecidablePred p]
    {message : String} (h : jobs.requireFence p message = .ok ()) : ∃ a ∈ jobs, p a := by
  simp only [Jobs.requireFence] at h
  split at h
  · assumption
  · cases h

theorem after_markCancelled {now : Time} {claim : ExecutionClaim} :
    Move w (w.after x (.markCancelled now claim)) := by
  change Move w (w.put none (w.jobs.markCancelled now claim))
  cases h : w.jobs.markCancelled now claim with
  | error _ => exact move_same w
  | ok jobs =>
    obtain ⟨_, _, h⟩ := bind_ok h
    obtain rfl := pure_ok h
    exact move_update rfl (fun a _ hp => .cancelByWorker now hp.2.1) (List.append_nil _)

theorem after_recordResult {now : Time} {claim : ExecutionClaim} {result : SandboxResult} :
    Move w (w.after x (.recordResult now claim result)) := by
  change Move w (w.put (some (.recorded claim.job.key)) (w.jobs.recordResult now claim result))
  cases h : w.jobs.recordResult now claim result with
  | error _ => exact move_same w
  | ok jobs =>
    obtain ⟨_, _, h⟩ := bind_ok h
    obtain ⟨_, _, h⟩ := bind_ok h
    obtain ⟨_, hfence, h⟩ := bind_ok h
    obtain rfl := pure_ok h
    obtain ⟨a, ha, hp⟩ := requireFence_ok hfence
    refine move_one rfl ha hp (fun b _ hb => hb.1.trans hp.1.symm) ?_ rfl
    rw [← hp.1]
    exact .record now result hp.2.1

theorem after_finalizeRead {claim : ExecutionClaim} :
    Move w (w.after x (.finalizeRead claim)) := by
  rw [after]
  split
  · exact .quiet id (List.map_id _).symm (fun _ _ => .inl rfl) rfl
  · exact move_same w

theorem after_finalizeWrite {now : Time} {claim : ExecutionClaim} {status : ExecutionJobStatus}
    (hw : w.ReadsTrue) : Move w (w.after x (.finalizeWrite now claim status)) := by
  simp only [after]
  split
  · rename_i hread
    obtain ⟨a, ha, hkey, result, hresult, rfl⟩ := hw claim status hread
    cases h : w.jobs.finalizeWrite now claim (terminalStatus result.status) with
    | error _ => exact .quiet id (List.map_id _).symm (fun _ _ => .inl rfl) rfl
    | ok jobs =>
      obtain ⟨_, _, h⟩ := bind_ok h
      obtain rfl := pure_ok h
      refine move_update rfl (fun b hb hp => ?_) (List.append_nil _)
      obtain rfl := Table.eq_of_key hb ha (hp.1.trans hkey.symm)
      exact .finalize now result hp.2.1 hresult
  · exact move_same w

theorem after_markInterrupted {now : Time} {claim : ExecutionClaim} :
    Move w (w.after x (.markInterrupted now claim)) := by
  refine move_update rfl (fun a _ hp => .interrupt now ?_) (List.append_nil _)
  exact hp.imp (fun h => h.2.1) fun h => h.2.1

theorem after_reconcileExpired {now : Time} : Move w (w.after x (.reconcileExpired now)) := by
  let interrupt (j : ExecutionJob) := if j.status = .running ∧ j.spawnedAt ≠ none ∧
    ∃ t ∈ j.leaseExpiresAt, t ≤ now then j.settledAs .interrupted now else j
  let cancel (j : ExecutionJob) := if j.status = .claimed ∧ j.spawnedAt = none ∧
    j.cancelRequested = true ∧ ∃ t ∈ j.leaseExpiresAt, t ≤ now then j.settledAs .cancelled now
    else j
  refine .quiet (cancel ∘ interrupt) ?_ (fun a _ => ?_) (List.append_nil _)
  · rw [← List.map_map]
    rfl
  simp only [Function.comp_apply, interrupt, cancel]
  by_cases hrunning : a.status = .running ∧ a.spawnedAt ≠ none ∧ ∃ t ∈ a.leaseExpiresAt, t ≤ now
  · rw [if_pos hrunning, if_neg (by simp [ExecutionJob.settledAs])]
    exact .inr (.interrupt now (.inr hrunning.1))
  · rw [if_neg hrunning]
    split
    · rename_i hclaimed
      exact .inr (.expire now hclaimed.1)
    · exact .inl rfl

theorem after_move (hw : w.ReadsTrue) : Move w (w.after x act) := by
  cases act with
  | enqueue => exact after_enqueue
  | requestCancel => exact after_requestCancel
  | claimNext => exact after_claimNext
  | markSpawned => exact after_markSpawned
  | markCancelled => exact after_markCancelled
  | recordResult => exact after_recordResult
  | finalizeRead => exact after_finalizeRead
  | finalizeWrite => exact after_finalizeWrite hw
  | markInterrupted => exact after_markInterrupted
  | reconcileExpired => exact after_reconcileExpired

end World

end Fairy.Execution
