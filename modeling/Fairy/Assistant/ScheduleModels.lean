import Fairy.Lib.Json
import Fairy.Lib.Table
import Fairy.Lib.Text

namespace Fairy.Assistant

open Fairy.Lib

abbrev Uuid := Nat

/-- An aware UTC `datetime`, counted in some unit. -/
abbrev Time := Nat

inductive AssistantScheduleStatus
  | active | paused | completed | cancelled
  deriving DecidableEq

inductive AssistantScheduleTriggerKind
  | once | daily | weekdays | weekly | interval
  deriving DecidableEq

inductive AssistantOccurrenceStatus
  | pending | dispatched | succeeded | failed | cancelled | attentionRequired | coalesced
  deriving DecidableEq

inductive ScheduleError
  | valueError (message : String)
  | keyError (message : String)
  | integrityError (constraint : String)
  | assertionError
  deriving DecidableEq

structure AssistantScheduleClaim where
  scheduleId : Uuid
  leaseOwner : String
  leaseFence : Nat
  activeRevision : Nat
  deriving DecidableEq

/-- What `interpret_scheduled_instruction` finds in an instruction. -/
structure Interpretation where
  action : String
  publicSummary : String
  instructionSha256 : String
  deriving DecidableEq

/-- A row of `core_assistant_schedules`. -/
structure AssistantSchedule where
  id : Uuid
  conversationId : Uuid
  instruction : String
  operationMode : String
  triggerKind : AssistantScheduleTriggerKind
  triggerRule : Json
  timezone : String
  nextFireAt : Time
  status : AssistantScheduleStatus
  activeRevision : Nat
  consecutiveFailures : Nat
  idempotencyKey : String
  leaseOwner : Option String
  leaseFence : Nat
  leaseUntil : Option Time
  attentionCode : Option String
  createdAt : Time
  updatedAt : Time
  lastFireAt : Option Time
  pausedAt : Option Time
  completedAt : Option Time
  cancelledAt : Option Time
  interpretation : Option Interpretation
  deriving DecidableEq

namespace AssistantSchedule

def pause (s : AssistantSchedule) (now : Time) (attentionCode : Option String) :
    Except ScheduleError AssistantSchedule :=
  if s.status = .paused then .ok s
  else if s.status ≠ .active then
    .error (.valueError "Only an active Assistant schedule can be paused")
  else .ok { s with status := .paused, pausedAt := some now, attentionCode, leaseOwner := none,
                    leaseUntil := none, updatedAt := now }

def resume (s : AssistantSchedule) (nextFireAt now : Time) :
    Except ScheduleError AssistantSchedule :=
  if s.status ≠ .paused then
    .error (.valueError "Only a paused Assistant schedule can be resumed")
  else .ok { s with status := .active, nextFireAt, consecutiveFailures := 0, pausedAt := none,
                    attentionCode := none, updatedAt := now }

def cancel (s : AssistantSchedule) (now : Time) : Except ScheduleError AssistantSchedule :=
  if s.status = .cancelled then .ok s
  else if s.status = .completed then
    .error (.valueError "Completed Assistant schedule cannot be cancelled")
  else .ok { s with status := .cancelled, cancelledAt := some now, leaseOwner := none,
                    leaseUntil := none, updatedAt := now }

/-- The checks of `__post_init__` that a change by its user can fail, with the texts
stripped as it leaves them. -/
def validated (s : AssistantSchedule) : Except ScheduleError AssistantSchedule :=
  let instruction := Text.strip s.instruction
  let timezone := Text.strip s.timezone
  if instruction = "" ∨ 100000 < instruction.length then
    .error (.valueError "Assistant schedule instruction is invalid")
  else if timezone = "" ∨ 255 < timezone.length then
    .error (.valueError "Assistant schedule timezone is invalid")
  else if s.interpretation.any fun i => Text.blank i.publicSummary ∨
      240 < i.publicSummary.length then
    .error (.valueError "Assistant schedule interpretation summary is invalid")
  else .ok { s with instruction, timezone }

end AssistantSchedule

/-- A row of `core_assistant_schedule_occurrences`. -/
structure AssistantScheduleOccurrence where
  id : Uuid
  scheduleId : Uuid
  scheduleRevision : Nat
  scheduledFor : Time
  status : AssistantOccurrenceStatus
  coalescedCount : Nat
  turnId : Option Uuid
  workflowRunId : Option Uuid
  publicError : Option String
  createdAt : Time
  idempotencyKey : Option String
  dispatchedAt : Option Time
  completedAt : Option Time
  deriving DecidableEq

namespace AssistantScheduleOccurrence

/-- The occurrence that `pending` builds, under a new identifier. -/
def newPending (id scheduleId : Uuid) (scheduleRevision : Nat) (scheduledFor : Time)
    (coalescedCount : Nat) (idempotencyKey : Option String) (now : Time) :
    AssistantScheduleOccurrence where
  id := id
  scheduleId := scheduleId
  scheduleRevision := scheduleRevision
  scheduledFor := scheduledFor
  status := .pending
  coalescedCount := coalescedCount
  turnId := none
  workflowRunId := none
  publicError := none
  createdAt := now
  idempotencyKey := idempotencyKey
  dispatchedAt := none
  completedAt := none

def coalesce (o : AssistantScheduleOccurrence) (scheduledFor : Time) (mergedCount : Nat) :
    Except ScheduleError AssistantScheduleOccurrence :=
  if o.status ≠ .pending then
    .error (.valueError "Only a pending Assistant occurrence can be coalesced")
  else if mergedCount < 1 ∨ scheduledFor ≤ o.scheduledFor then
    .error (.valueError "Assistant occurrence coalescing input is invalid")
  else .ok { o with scheduledFor, coalescedCount := o.coalescedCount + mergedCount }

def dispatch (o : AssistantScheduleOccurrence) (turnId workflowRunId : Uuid) (now : Time) :
    Except ScheduleError AssistantScheduleOccurrence :=
  if o.status ≠ .pending then
    .error (.valueError "Only a pending Assistant occurrence can be dispatched")
  else .ok { o with status := .dispatched, turnId := some turnId,
                    workflowRunId := some workflowRunId, dispatchedAt := some now }

/-- The outcomes that `settle` and `record_occurrence_outcome` accept. -/
def outcomes : List AssistantOccurrenceStatus :=
  [.succeeded, .failed, .cancelled, .attentionRequired]

def settle (o : AssistantScheduleOccurrence) (status : AssistantOccurrenceStatus) (now : Time)
    (publicError : Option String) : Except ScheduleError AssistantScheduleOccurrence :=
  if o.status ≠ .dispatched then
    .error (.valueError "Only a dispatched Assistant occurrence can be settled")
  else if status ∉ outcomes then .error (.valueError "Assistant occurrence outcome is invalid")
  else if publicError.any fun e => 500 < e.length then
    .error (.valueError "Assistant occurrence public error is too large")
  else .ok { o with status, publicError, completedAt := some now }

end AssistantScheduleOccurrence

def hourly : AssistantSchedule where
  id := 1
  conversationId := 2
  instruction := "Check the project status"
  operationMode := "answer"
  triggerKind := .interval
  triggerRule := .obj [("amount", .int 1), ("unit", .str "hours")]
  timezone := "UTC"
  nextFireAt := 100
  status := .active
  activeRevision := 1
  consecutiveFailures := 0
  idempotencyKey := "schedule:hourly"
  leaseOwner := none
  leaseFence := 0
  leaseUntil := none
  attentionCode := none
  createdAt := 10
  updatedAt := 10
  lastFireAt := none
  pausedAt := none
  completedAt := none
  cancelledAt := none
  interpretation := none

/-- `_MAX_CATCH_UP_STEPS`. -/
def maxCatchUpSteps : Nat := 100000

/-- The part of a schedule that its instants depend on. -/
structure ScheduleRule where
  triggerKind : AssistantScheduleTriggerKind
  triggerRule : Json
  timezone : String

def AssistantSchedule.rule (s : AssistantSchedule) : ScheduleRule :=
  ⟨s.triggerKind, s.triggerRule, s.timezone⟩

structure AssistantScheduleAdvance where
  latestDueAt : Time
  nextFireAt : Option Time
  missedCount : Nat
  deriving DecidableEq

section

-- `next_schedule_instant` of a rule, after an instant
variable (next : ScheduleRule → Time → Except ScheduleError Time)

/-- The loop of `advance_due_schedule` at a due instant, with the steps that are left:
the last due instant, the one after it, and how many were due. -/
def catchUp (rule : ScheduleRule) (now : Time) :
    Nat → Time → Except ScheduleError (Time × Time × Nat)
  | 0, _ => .error (.valueError "Assistant schedule catch-up window is too large")
  | steps + 1, due =>
    match next rule due with
    | .error error => .error error
    | .ok following =>
      if following ≤ now then
        (catchUp rule now steps following).map fun x => (x.1, x.2.1, x.2.2 + 1)
      else .ok (due, following, 1)

def advanceDueSchedule (s : AssistantSchedule) (now : Time) :
    Except ScheduleError (Option AssistantScheduleAdvance) :=
  if now < s.nextFireAt then .ok none
  else if s.triggerKind = .once then
    .ok (some { latestDueAt := s.nextFireAt, nextFireAt := none, missedCount := 0 })
  else (catchUp next s.rule now maxCatchUpSteps s.nextFireAt).map fun x =>
    some { latestDueAt := x.1, nextFireAt := some x.2.1, missedCount := x.2.2 - 1 }

end

def everyHour : ScheduleRule → Time → Except ScheduleError Time := fun _ t => .ok (t + 3600)

end Fairy.Assistant
