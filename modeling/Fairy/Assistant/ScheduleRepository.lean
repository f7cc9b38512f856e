import Mathlib.Data.List.Sort
import Fairy.Assistant.ScheduleModels

namespace Fairy.Assistant

open Fairy.Lib

/-- The two tables as one tenant sees them. -/
structure ScheduleDatabase where
  schedules : Table AssistantSchedule AssistantSchedule.id (fun _ => True)
  occurrences : Table AssistantScheduleOccurrence AssistantScheduleOccurrence.id (fun _ => True)

/-- The unique constraints of the occurrences beside their primary key: one for each
instant, one pending, and one for each idempotency key. -/
def Clash (x o : AssistantScheduleOccurrence) : Prop :=
  x.scheduleId = o.scheduleId ∧ (x.scheduledFor = o.scheduledFor ∨
    (x.status = .pending ∧ o.status = .pending) ∨
    (x.idempotencyKey.isSome ∧ x.idempotencyKey = o.idempotencyKey))

instance (x o : AssistantScheduleOccurrence) : Decidable (Clash x o) :=
  inferInstanceAs (Decidable (_ ∧ _))

/-- Nobody holds the schedule, or the lease is over. -/
def LeaseAvailable (now : Time) (s : AssistantSchedule) : Prop :=
  s.leaseUntil.all (fun u => decide (u ≤ now)) = true

instance (now : Time) : DecidablePred (LeaseAvailable now) :=
  fun _ => inferInstanceAs (Decidable (_ = _))

/-- The lease of the row is the one of the claim. -/
def Holds (claim : AssistantScheduleClaim) (s : AssistantSchedule) : Prop :=
  s.id = claim.scheduleId ∧ s.leaseOwner = some claim.leaseOwner ∧
    s.leaseFence = claim.leaseFence

instance (claim : AssistantScheduleClaim) : DecidablePred (Holds claim) :=
  fun _ => inferInstanceAs (Decidable (_ ∧ _))

namespace ScheduleDatabase

section Schedules

/-- Some occurrence of the schedule is waiting. -/
def HasPending (db : ScheduleDatabase) (scheduleId : Uuid) : Prop :=
  ∃ o ∈ db.occurrences.rows, o.scheduleId = scheduleId ∧ o.status = .pending

instance (db : ScheduleDatabase) : DecidablePred db.HasPending :=
  fun _ => inferInstanceAs (Decidable (∃ o ∈ db.occurrences.rows, _))

def Ready (db : ScheduleDatabase) (now : Time) (s : AssistantSchedule) : Prop :=
  (s.status = .active ∧ s.nextFireAt ≤ now) ∨ db.HasPending s.id

instance (db : ScheduleDatabase) (now : Time) : DecidablePred (db.Ready now) :=
  fun _ => inferInstanceAs (Decidable (_ ∨ _))

/-- `save`: the whole row, guarded by its revision. -/
def save (db : ScheduleDatabase) (schedule : AssistantSchedule) (expectedRevision : Nat) :
    Except ScheduleError (AssistantSchedule × ScheduleDatabase) :=
  let p := fun r : AssistantSchedule => r.id = schedule.id ∧ r.activeRevision = expectedRevision
  if (db.schedules.select p).length ≠ 1 then
    .error (.valueError "Assistant schedule revision changed concurrently")
  else
    let db := { db with schedules := db.schedules.update p fun r => { schedule with id := r.id } }
    match db.schedules.find? schedule.id with
    | none => .error .assertionError
    | some persisted => .ok (persisted, db)

/-- The rows `claim_ready` goes through, without those another transaction has locked. -/
def claimableSchedules (db : ScheduleDatabase) (locked : List Uuid) (now : Time) (limit : Nat) :
    List AssistantSchedule :=
  ((db.schedules.select fun s => db.Ready now s ∧ LeaseAvailable now s ∧
    s.id ∉ locked).insertionSort fun a b => a.nextFireAt < b.nextFireAt ∨
      a.nextFireAt = b.nextFireAt ∧ (a.createdAt < b.createdAt ∨
        a.createdAt = b.createdAt ∧ a.id ≤ b.id)).take limit

/-- The update of `claim_ready` for a row that it has read. -/
def claimRow (db : ScheduleDatabase) (row : AssistantSchedule) (worker : String)
    (now leaseUntil : Time) : Option (AssistantScheduleClaim × ScheduleDatabase) :=
  let p := fun r : AssistantSchedule =>
    r.id = row.id ∧ r.leaseFence = row.leaseFence ∧ LeaseAvailable now r ∧ db.Ready now r
  if (db.schedules.select p).length ≠ 1 then none
  else some (⟨row.id, worker, row.leaseFence + 1, row.activeRevision⟩,
    { db with schedules := db.schedules.update p fun r =>
        { r with leaseOwner := some worker, leaseUntil := some leaseUntil,
                 leaseFence := row.leaseFence + 1, updatedAt := now } })

def claimRows (worker : String) (now leaseUntil : Time) :
    List AssistantSchedule → ScheduleDatabase → List AssistantScheduleClaim × ScheduleDatabase
  | [], db => ([], db)
  | row :: rows, db =>
    match db.claimRow row worker now leaseUntil with
    | none => claimRows worker now leaseUntil rows db
    | some (claim, db) =>
      let x := claimRows worker now leaseUntil rows db
      (claim :: x.1, x.2)

def claimReady (db : ScheduleDatabase) (workerId : String) (locked : List Uuid)
    (now leaseUntil : Time) (limit : Nat) :
    Except ScheduleError (List AssistantScheduleClaim × ScheduleDatabase) :=
  let worker := Text.strip workerId
  if worker = "" ∨ 128 < worker.length then
    .error (.valueError "Assistant schedule worker id is invalid")
  else if leaseUntil ≤ now then
    .error (.valueError "Assistant schedule claim lease is invalid")
  else if ¬ (1 ≤ limit ∧ limit ≤ 32) then
    .error (.valueError "Assistant schedule claim limit is invalid")
  else .ok (claimRows worker now leaseUntil (db.claimableSchedules locked now limit) db)

/-- `settle_claim`: the whole row, guarded by the lease and the revision of the claim. -/
def settleClaim (db : ScheduleDatabase) (claim : AssistantScheduleClaim)
    (schedule : AssistantSchedule) :
    Except ScheduleError (Option AssistantSchedule × ScheduleDatabase) :=
  if schedule.id ≠ claim.scheduleId then
    .error (.valueError "Assistant schedule result does not match its claim")
  else if schedule.leaseOwner ≠ none ∨ schedule.leaseUntil ≠ none then
    .error (.valueError "Settled Assistant schedule must release its lease")
  else
    let p := fun r : AssistantSchedule => Holds claim r ∧ r.activeRevision = claim.activeRevision
    if (db.schedules.select p).length ≠ 1 then .ok (none, db)
    else
      let db := { db with schedules := db.schedules.update p fun r => { schedule with id := r.id } }
      .ok (db.schedules.find? claim.scheduleId, db)

def abandonClaim (db : ScheduleDatabase) (claim : AssistantScheduleClaim) :
    Bool × ScheduleDatabase :=
  ((db.schedules.select (Holds claim)).length == 1,
    { db with schedules := db.schedules.update (Holds claim) fun r =>
        { r with leaseOwner := none, leaseUntil := none, leaseFence := claim.leaseFence + 1 } })

end Schedules

section Occurrences

def getOccurrenceByIdempotencyKey (db : ScheduleDatabase) (scheduleId : Uuid)
    (idempotencyKey : String) : Option AssistantScheduleOccurrence :=
  db.occurrences.oneOrNone fun o =>
    o.scheduleId = scheduleId ∧ o.idempotencyKey = some idempotencyKey

def getOccurrenceAt (db : ScheduleDatabase) (scheduleId : Uuid) (scheduledFor : Time) :
    Option AssistantScheduleOccurrence :=
  db.occurrences.oneOrNone fun o => o.scheduleId = scheduleId ∧ o.scheduledFor = scheduledFor

/-- `_get_occurrence_with_status`. -/
def occurrenceWithStatus (db : ScheduleDatabase) (scheduleId : Uuid)
    (statuses : List AssistantOccurrenceStatus) : Option AssistantScheduleOccurrence :=
  ((db.occurrences.select fun o => o.scheduleId = scheduleId ∧
    o.status ∈ statuses).insertionSort fun a b => b.scheduledFor < a.scheduledFor ∨
      a.scheduledFor = b.scheduledFor ∧ b.id ≤ a.id).head?

def getPendingOccurrence (db : ScheduleDatabase) (scheduleId : Uuid) :
    Option AssistantScheduleOccurrence := db.occurrenceWithStatus scheduleId [.pending]

def getActiveOccurrence (db : ScheduleDatabase) (scheduleId : Uuid) :
    Option AssistantScheduleOccurrence :=
  db.occurrenceWithStatus scheduleId [.pending, .dispatched]

/-- The `INSERT` of `create_occurrence`. -/
def insertOccurrence (db : ScheduleDatabase) (o : AssistantScheduleOccurrence) :
    Except ScheduleError (AssistantScheduleOccurrence × ScheduleDatabase) :=
  if ∃ x ∈ db.occurrences.rows, Clash x o then
    .error (.integrityError "core_assistant_schedule_occurrences")
  else match db.occurrences.insertAll [o] with
    | none => .error (.integrityError "pk_core_assistant_schedule_occurrences")
    | some occurrences => .ok (o, { db with occurrences })

def createOccurrence (db : ScheduleDatabase) (o : AssistantScheduleOccurrence) :
    Except ScheduleError (AssistantScheduleOccurrence × ScheduleDatabase) :=
  match o.idempotencyKey.bind (db.getOccurrenceByIdempotencyKey o.scheduleId) with
  | some replay => .ok (replay, db)
  | none =>
    match db.getOccurrenceAt o.scheduleId o.scheduledFor with
    | some existing => .ok (existing, db)
    | none => db.insertOccurrence o

def saveOccurrence (db : ScheduleDatabase) (o : AssistantScheduleOccurrence)
    (expectedStatus : AssistantOccurrenceStatus) :
    Except ScheduleError (AssistantScheduleOccurrence × ScheduleDatabase) :=
  let p := fun r : AssistantScheduleOccurrence =>
    r.id = o.id ∧ r.scheduleId = o.scheduleId ∧ r.status = expectedStatus
  if (db.occurrences.select p).length ≠ 1 then
    .error (.valueError "Assistant occurrence status changed concurrently")
  else if ∃ x ∈ db.occurrences.rows, x.id ≠ o.id ∧ Clash x o then
    .error (.integrityError "core_assistant_schedule_occurrences")
  else
    let db := { db with occurrences := db.occurrences.update p fun r => { o with id := r.id } }
    match db.occurrences.find? o.id with
    | none => .error .assertionError
    | some persisted => .ok (persisted, db)


end Occurrences

end ScheduleDatabase

namespace AssistantSchedule

/-- The schedule is paused at the time, if it is active. -/
def pausedBy (s : AssistantSchedule) (now : Time) : AssistantSchedule :=
  if s.status = .active then { s with status := .paused, pausedAt := some now } else s

/-- What `record_occurrence_outcome` writes into the schedule it has read. -/
def outcomeRecorded (s : AssistantSchedule) (outcome : AssistantOccurrenceStatus) (code : String)
    (now : Time) : AssistantSchedule :=
  let s := { s with updatedAt := now }
  match outcome with
  | .succeeded => { s with consecutiveFailures := 0 }
  | .failed =>
    let s := { s with consecutiveFailures := s.consecutiveFailures + 1 }
    if 3 ≤ s.consecutiveFailures ∧ s.status = .active then
      { s.pausedBy now with attentionCode := some "CONSECUTIVE_FAILURES" }
    else s
  | .attentionRequired => { s.pausedBy now with attentionCode := some code }
  | _ => s

end AssistantSchedule

/-- `record_occurrence_outcome`. -/
def ScheduleDatabase.recordOccurrenceOutcome (db : ScheduleDatabase)
    (o : AssistantScheduleOccurrence) (expectedStatus : AssistantOccurrenceStatus)
    (attentionCode : Option String) :
    Except ScheduleError (AssistantScheduleOccurrence × ScheduleDatabase) :=
  let code := Text.strip ((attentionCode.filter (· ≠ "")).getD "CONTEXT_INVALID")
  if o.status ∉ AssistantScheduleOccurrence.outcomes then
    .error (.valueError "Assistant occurrence outcome is not terminal")
  else match db.saveOccurrence o expectedStatus with
    | .error error => .error error
    | .ok (persisted, db) =>
      match db.schedules.find? o.scheduleId, o.completedAt with
      | none, _ =>
        .error (.keyError ("Assistant schedule not found: " ++ toString o.scheduleId))
      | some _, none => .error .assertionError
      | some schedule, some now =>
        if o.status = .attentionRequired ∧ (code = "" ∨ 128 < code.length) then
          .error (.valueError "Assistant schedule attention code is invalid")
        else .ok (persisted,
          { db with schedules := db.schedules.update (fun r => r.id = schedule.id) fun r =>
              { schedule.outcomeRecorded o.status code now with id := r.id } })

def tableOf {α κ : Type} [DecidableEq κ] (key : α → κ) (a : α) : Table α key fun _ => True where
  rows := [a]
  nodup := List.nodup_singleton _
  checked _ _ := trivial

def hourlyDatabase : ScheduleDatabase := ⟨tableOf AssistantSchedule.id hourly, .empty⟩

def hourlyClaim : AssistantScheduleClaim := ⟨1, "worker", 1, 1⟩

/-- The changes a user asks for. -/
inductive Change
  | update (instruction operationMode : String) (triggerKind : AssistantScheduleTriggerKind)
      (triggerRule : Json) (timezone : String) (nextFireAt : Time)
  | pause
  | resume
  | cancel
  deriving DecidableEq

section

-- `interpret_scheduled_instruction` and `validate_schedule_rule`
variable (interpret : String → Except ScheduleError Interpretation)
  (validRule : AssistantSchedule → Except ScheduleError Unit)

/-- The row that `update`, `pause`, `resume` and `cancel` build from the one they read. -/
def AssistantSchedule.changed (s : AssistantSchedule) (change : Change) (now : Time) :
    Except ScheduleError AssistantSchedule :=
  match change with
  | .pause => s.pause now none
  | .resume => s.resume s.nextFireAt now
  | .cancel => s.cancel now
  | .update instruction operationMode triggerKind triggerRule timezone nextFireAt =>
    if s.status = .completed ∨ s.status = .cancelled then
      .error (.valueError "Terminal Assistant schedule cannot be edited")
    else match interpret instruction with
      | .error error => .error error
      | .ok interpretation =>
        match AssistantSchedule.validated
          { s with instruction, operationMode, triggerKind, triggerRule, timezone, nextFireAt,
                   activeRevision := s.activeRevision + 1, attentionCode := none,
                   updatedAt := now, interpretation := some interpretation } with
        | .error error => .error error
        | .ok s => (validRule s).map fun _ => s

/-- `_require_revision`. -/
def ScheduleDatabase.requireRevision (db : ScheduleDatabase) (scheduleId : Uuid)
    (expectedRevision : Nat) : Except ScheduleError AssistantSchedule :=
  match db.schedules.find? scheduleId with
  | none => .error (.keyError ("Assistant schedule not found: " ++ toString scheduleId))
  | some s =>
    if s.activeRevision ≠ expectedRevision then
      .error (.valueError "Assistant schedule revision changed concurrently")
    else .ok s

/-- The part of a change before its `save`: the row read, and the row to be saved. -/
def ScheduleDatabase.readForChange (db : ScheduleDatabase) (scheduleId : Uuid)
    (expectedRevision : Nat) (change : Change) (now : Time) :
    Except ScheduleError (AssistantSchedule × AssistantSchedule) :=
  match db.requireRevision scheduleId expectedRevision with
  | .error error => .error error
  | .ok s => (s.changed interpret validRule change now).map fun s' => (s, s')

end

def ScheduleDatabase.runNow (db : ScheduleDatabase) (scheduleId : Uuid) (expectedRevision : Nat)
    (idempotencyKey : String) (now : Time) (newId : Uuid) :
    Except ScheduleError (AssistantScheduleOccurrence × ScheduleDatabase) :=
  match db.requireRevision scheduleId expectedRevision with
  | .error error => .error error
  | .ok s =>
    match db.getOccurrenceByIdempotencyKey s.id idempotencyKey with
    | some replay => .ok (replay, db)
    | none =>
      if (db.getActiveOccurrence s.id).isSome then
        .error (.valueError "Assistant schedule already has an active Occurrence")
      else
        let key := Text.strip idempotencyKey
        if key = "" ∨ 512 < key.length then
          .error (.valueError "Assistant occurrence idempotency key is invalid")
        else db.createOccurrence
          (.newPending newId s.id s.activeRevision now 0 (some key) now)

end Fairy.Assistant
