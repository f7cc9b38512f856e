import Mathlib.Data.List.Sort
import Fairy.Commanding.Models

namespace Fairy.Commanding

open Fairy.Lib

/-- The predicates `_lease_predicates` returns for a run that is leased. -/
structure LeaseGuard where
  leaseOwner : String
  leaseFence : Int
  now : Time

/-- A row meets the lease predicates; there are none for a run that is not leased. -/
def GuardHolds (guard : Option LeaseGuard) (r : CommandRun) : Prop :=
  match guard with
  | none => True
  | some g => r.leaseOwner = some g.leaseOwner ∧ (r.leaseFence : Int) = g.leaseFence ∧
      r.leaseUntil.any fun u => decide (g.now < u)

instance (guard : Option LeaseGuard) : DecidablePred (GuardHolds guard) := fun _ => by
  unfold GuardHolds
  split <;> infer_instance

def leasePredicates (row : CommandRun) (leaseOwner : Option String) (leaseFence : Option Int)
    (now : Time) : Except LedgerError (Option LeaseGuard) :=
  if row.status ≠ .running then
    if leaseOwner.isSome ∨ leaseFence.isSome then
      .error (.workerFence "terminal command cannot use a worker lease")
    else .ok none
  else match row.leaseOwner with
    | none =>
      if leaseOwner.isSome ∨ leaseFence.isSome then
        .error (.workerFence "command run has no active worker lease")
      else .ok none
    | some owner =>
      if leaseOwner ≠ some owner ∨ leaseFence ≠ some (row.leaseFence : Int) then
        .error (.workerFence "worker lease owner or fence does not match")
      else if row.leaseUntil.all fun u => decide (u ≤ now) then
        .error (.workerFence "worker lease expired")
      else .ok (some ⟨owner, row.leaseFence, now⟩)

namespace CommandRun

/-- What `transition` and `finish` write into a run. -/
def left (r : CommandRun) (status : CommandStatus) (now : Time) : CommandRun :=
  { r with status, leaseOwner := none, leaseUntil := none, updatedAt := now }

/-- What `claim` and `claim_next` write into the run they read as `row`. -/
def taken (r row : CommandRun) (workerId : String) (leaseUntil now : Time) : CommandRun :=
  { r with status := .running, leaseOwner := some workerId, leaseUntil := some leaseUntil,
           leaseFence := row.leaseFence + 1, updatedAt := now }

/-- The lease of a running row is over. -/
def expired (r : CommandRun) (now : Time) : Bool :=
  decide (r.status = .running) && r.leaseUntil.any fun u => decide (u ≤ now)

/-- The `WHERE` clause of a claim of the run that was read as `row`. -/
def Claimable (row : CommandRun) (now : Time) (r : CommandRun) : Prop :=
  r.id = row.id ∧ r.status = row.status ∧ r.leaseFence = row.leaseFence ∧
    (row.status = .running → r.leaseUntil.any (fun u => decide (u ≤ now)) = true)

instance (row : CommandRun) (now : Time) : DecidablePred (Claimable row now) :=
  fun _ => inferInstanceAs (Decidable (_ ∧ _))

end CommandRun

namespace Ledger

/-- `on_conflict_do_update` of `task_event_sequences`, returning the new number. -/
def nextSequence (s : Ledger) (taskId : Uuid) : Nat × Ledger :=
  match s.sequences.find? taskId with
  | some row => (row.lastSequence + 1,
      { s with sequences := s.sequences.update (fun x => x.taskId = taskId)
                 fun x => { x with lastSequence := x.lastSequence + 1 } })
  | none => (1, { s with sequences := s.sequences.insertOrIgnore ⟨taskId, 1⟩ })

/-- `_append_event`, with the unique constraints of `domain_events`. -/
def recordEvent (s : Ledger) (run : CommandRun) (e : EventInput) (d : Draw) :
    Except LedgerError (LedgerEvent × Ledger) :=
  let (sequence, s) := s.nextSequence run.taskId
  let row : LedgerEvent :=
    { cursor := d.cursor, eventId := d.eventId, runId := some run.id, userId := run.actor,
      projectId := run.projectId, conversationId := some run.conversationId,
      taskId := some run.taskId, versionId := run.targetVersionId, taskSequence := some sequence,
      eventType := e.eventType, visibility := e.visibility, message := e.message,
      payload := Json.put e.payload "command_name" (.str run.commandName),
      createdAt := d.createdAt }
  if ∃ x ∈ s.events.rows, x.taskId = row.taskId ∧ x.taskSequence = row.taskSequence then
    .error (.integrityError "uq_domain_events_tenant_task_sequence")
  else match s.events.insertAll [row] with
    | some events => .ok (row, { s with events })
    | none => .error (.integrityError "uq_domain_events_tenant_event")

/-- `create_run`, with the fingerprint of its request, the id and the clock reading. -/
def createRun (s : Ledger) (request : CommandRequest) (fingerprint : String) (id : Uuid)
    (now : Time) (d : Draw) : Except LedgerError (CommandRun × Ledger) :=
  match s.runs.oneOrNone fun r => r.idempotencyKey = request.idempotencyKey with
  | some row =>
    if row.requestFingerprint ≠ fingerprint then
      .error (.idempotencyConflict
        "idempotency key was already used for a different command request")
    else .ok (row, s)
  | none =>
    let row : CommandRun :=
      { request with id, requestFingerprint := fingerprint, status := .created, leaseOwner := none,
                     leaseUntil := none, leaseFence := 0, createdAt := now, updatedAt := now }
    match s.runs.insertAll [row] with
    | none => .error (.integrityError "pk_command_runs")
    | some runs =>
      (recordEvent { s with runs } row
        { eventType := "command.created", visibility := .user,
          message := "Command created: " ++ request.commandName,
          payload := [("command_name", .str request.commandName),
            ("status", .str CommandStatus.created.value)] } d).map fun x => (row, x.2)

/-- The statements on the run that `transition` and `finish` share: the row as they
leave it. -/
def leave (s : Ledger) (runId : Uuid) (status : CommandStatus) (leaseOwner : Option String)
    (leaseFence : Option Int) (now : Time) : Except LedgerError (CommandRun × Ledger) :=
  match s.runs.find? runId with
  | none => .error (.keyError ("command run not found: " ++ toString runId))
  | some row =>
    if status ∉ row.status.transitions then
      .error (.invalidTransition ("cannot transition CommandRun from " ++ row.status.value ++
        " to " ++ status.value))
    else match leasePredicates row leaseOwner leaseFence now with
      | .error error => .error error
      | .ok guard =>
        let p := fun r : CommandRun =>
          r.id = runId ∧ r.status = row.status ∧ GuardHolds guard r
        if (s.runs.select p).length ≠ 1 then
          if row.leaseOwner.isSome then .error (.workerFence "worker lease changed or expired")
          else .error (.invalidTransition "command status changed concurrently")
        else
          let s := { s with runs := s.runs.update p (·.left status now) }
          match s.runs.find? runId with
          | none => .error .assertionError
          | some updated => .ok (updated, s)

/-- The event of a status. -/
def statusEvent (status : CommandStatus) (summary : List (String × Json)) : EventInput where
  eventType := "command." ++ status.value
  visibility := .user
  message := "Command " ++ status.value
  payload := ("status", .str status.value) :: summary

def transition (s : Ledger) (runId : Uuid) (status : CommandStatus) (leaseOwner : Option String)
    (leaseFence : Option Int) (now : Time) (d : Draw) :
    Except LedgerError (CommandRun × Ledger) :=
  if status = .running then
    .error (.invalidTransition "use claim() to enter the running state")
  else match s.leave runId status leaseOwner leaseFence now with
    | .error error => .error error
    | .ok (updated, s) =>
      (s.recordEvent updated (statusEvent status []) d).map fun x => (updated, x.2)

/-- `append_event`; its update of a leased run writes the fence the run has. -/
def appendEvent (s : Ledger) (runId : Uuid) (e : EventInput) (leaseOwner : Option String)
    (leaseFence : Option Int) (now : Time) (d : Draw) :
    Except LedgerError (LedgerEvent × Ledger) :=
  match s.runs.find? runId with
  | none => .error (.keyError ("command run not found: " ++ toString runId))
  | some run =>
    match leasePredicates run leaseOwner leaseFence now with
    | .error error => .error error
    | .ok none => s.recordEvent run e d
    | .ok (some guard) =>
      let p := fun r : CommandRun =>
        r.id = runId ∧ r.status = .running ∧ GuardHolds (some guard) r
      if (s.runs.select p).length ≠ 1 then
        .error (.workerFence "worker lease changed or expired")
      else
        let s := { s with
          runs := s.runs.update p fun r => { r with leaseFence := guard.leaseFence.toNat } }
        match s.runs.find? runId with
        | none => .error .assertionError
        | some run => s.recordEvent run e d

/-- The public summary that `finish` passes on, if it is a text. -/
def publicSummary (payload : List (String × Json)) : List (String × Json) :=
  match (Json.obj payload).field? "public_summary" with
  | some (.str summary) => [("public_summary", .str summary)]
  | _ => []

def finish (s : Ledger) (runId : Uuid) (status : CommandStatus) (e : EventInput)
    (leaseOwner : Option String) (leaseFence : Option Int) (now : Time) (d d' : Draw) :
    Except LedgerError (CommandRun × Ledger) :=
  if status ≠ .succeeded ∧ status ≠ .failed then
    .error (.valueError "finish status must be succeeded or failed")
  else match s.leave runId status leaseOwner leaseFence now with
    | .error error => .error error
    | .ok (updated, s) =>
      match s.recordEvent updated e d with
      | .error error => .error error
      | .ok (_, s) =>
        (s.recordEvent updated (statusEvent status (publicSummary e.payload)) d').map
          fun x => (updated, x.2)

/-- The event of a claim of the run that was read as `row`. -/
def claimEvent (row : CommandRun) : EventInput where
  eventType := if row.status = .running then "command.reclaimed" else "command.running"
  visibility := .user
  message := if row.status = .running then "Command reclaimed after worker interruption"
    else "Command running"
  payload := [("status", .str CommandStatus.running.value),
    ("lease_fence", .int (row.leaseFence + 1))]

/-- The update and the event that `claim` and `claim_next` share; none if the update
matches no row. -/
def take (s : Ledger) (row : CommandRun) (workerId : String) (leaseUntil now : Time) (d : Draw) :
    Except LedgerError (Option (CommandRun × Ledger)) :=
  if (s.runs.select (row.Claimable now)).length ≠ 1 then .ok none
  else
    let s := { s with
      runs := s.runs.update (row.Claimable now) (·.taken row workerId leaseUntil now) }
    match s.runs.find? row.id with
    | none => .error .assertionError
    | some updated =>
      (s.recordEvent updated (claimEvent row) d).map fun x => some (updated, x.2)

def claim (s : Ledger) (runId : Uuid) (workerId : String) (leaseUntil now : Time) (d : Draw) :
    Except LedgerError (CommandRun × Ledger) :=
  let worker := Text.strip workerId
  if worker = "" then .error (.valueError "worker_id must not be empty")
  else if leaseUntil ≤ now then .error (.valueError "lease_until must be in the future")
  else match s.runs.find? runId with
    | none => .error (.keyError ("command run not found: " ++ toString runId))
    | some row =>
      if row.status ≠ .queued ∧ row.expired now = false then
        .error (.invalidTransition ("cannot claim CommandRun from " ++ row.status.value))
      else match s.take row worker leaseUntil now d with
        | .error error => .error error
        | .ok none => .error (.invalidTransition "command claim changed concurrently")
        | .ok (some x) => .ok x

/-- The rows `claim_next` chooses from, in its order; PostgreSQL skips those that
another transaction has locked. -/
def claimableRuns (s : Ledger) (locked : List Uuid) (now : Time) : List CommandRun :=
  (s.runs.select fun r => (r.status = .queued ∨ r.expired now = true) ∧
    r.id ∉ locked).insertionSort fun a b =>
      a.createdAt < b.createdAt ∨ a.createdAt = b.createdAt ∧ a.id ≤ b.id

def claimNext (s : Ledger) (workerId : String) (locked : List Uuid) (leaseUntil now : Time)
    (d : Draw) : Except LedgerError (Option CommandRun × Ledger) :=
  if leaseUntil ≤ now then .error (.valueError "lease_until must be in the future")
  else match s.claimableRuns locked now with
    | [] => .ok (none, s)
    | row :: _ =>
      match s.take row workerId leaseUntil now d with
      | .error error => .error error
      | .ok none => .ok (none, s)
      | .ok (some (updated, s)) => .ok (some updated, s)

/-- The row is leased to the owner under the fence. -/
def Leased (runId : Uuid) (leaseOwner : String) (leaseFence : Int) (r : CommandRun) : Prop :=
  r.id = runId ∧ r.status = .running ∧ r.leaseOwner = some leaseOwner ∧
    (r.leaseFence : Int) = leaseFence

instance (runId : Uuid) (leaseOwner : String) (leaseFence : Int) :
    DecidablePred (Leased runId leaseOwner leaseFence) :=
  fun _ => inferInstanceAs (Decidable (_ ∧ _))

def abandon (s : Ledger) (runId : Uuid) (leaseOwner : String) (leaseFence : Int) (now : Time) :
    Bool × Ledger :=
  match s.runs.find? runId with
  | none => (false, s)
  | some row =>
    if ¬ Leased runId leaseOwner leaseFence row then (false, s)
    else ((s.runs.select (Leased runId leaseOwner leaseFence)).length == 1,
      { s with runs := s.runs.update (Leased runId leaseOwner leaseFence)
                 fun r => { r with leaseUntil := some now, updatedAt := now } })

def renew (s : Ledger) (runId : Uuid) (leaseOwner : String) (leaseFence : Int)
    (leaseUntil now : Time) : Except LedgerError (Bool × Ledger) :=
  if leaseUntil ≤ now then .error (.valueError "lease_until must be in the future")
  else
    let p := fun r : CommandRun => Leased runId leaseOwner leaseFence r ∧
      r.leaseUntil.any (fun u => decide (now < u)) = true
    .ok ((s.runs.select p).length == 1,
      { s with runs := s.runs.update p
                 fun r => { r with leaseUntil := some leaseUntil, updatedAt := now } })

end Ledger

end Fairy.Commanding
