import Fairy.Assistant.ScheduleModels
import Fairy.Assistant.ScheduleRepository

namespace Fairy.Assistant

open Fairy.Lib

/-- What the dispatcher makes of a pending occurrence: it leaves it, it binds it to a
turn, or it raises `AssistantScheduleAttentionRequired`. -/
inductive DispatchAnswer
  | kept
  | bound (turnId workflowRunId : Uuid)
  | attention (code publicError : String)

namespace AssistantSchedule

/-- The schedule after the instants of an advance. -/
def advanced (s : AssistantSchedule) (advance : Option AssistantScheduleAdvance) (now : Time) :
    AssistantSchedule :=
  match advance with
  | none => s
  | some a =>
    { s with
      nextFireAt := a.nextFireAt.getD a.latestDueAt
      lastFireAt := some a.latestDueAt
      status := if a.nextFireAt = none then .completed else s.status
      completedAt := if a.nextFireAt = none then some now else s.completedAt
      updatedAt := now }

/-- The schedule after an `AssistantScheduleAttentionRequired`. -/
def attended (s : AssistantSchedule) (code : String) (now : Time) :
    Except ScheduleError AssistantSchedule :=
  if s.status = .active then s.pause now (some code)
  else .ok { s with attentionCode := some code, updatedAt := now }

def released (s : AssistantSchedule) : AssistantSchedule :=
  { s with leaseOwner := none, leaseUntil := none }

end AssistantSchedule

/-- The occurrence is set aside with a public error. -/
def AssistantScheduleOccurrence.setAside (o : AssistantScheduleOccurrence) (publicError : String)
    (now : Time) : AssistantScheduleOccurrence :=
  { o with status := .attentionRequired, publicError := some publicError, completedAt := some now }

/-- The claim is the one the schedule was last claimed with, at its revision. -/
def Current (claim : AssistantScheduleClaim) (s : AssistantSchedule) : Prop :=
  s.leaseOwner = some claim.leaseOwner ∧ s.leaseFence = claim.leaseFence ∧
    s.activeRevision = claim.activeRevision

instance (claim : AssistantScheduleClaim) : DecidablePred (Current claim) :=
  fun _ => inferInstanceAs (Decidable (_ ∧ _))

section

variable (next : ScheduleRule → Time → Except ScheduleError Time)

/-- The advance of a claimed schedule, which only an active one makes. -/
def dueAdvance (s : AssistantSchedule) (now : Time) :
    Except ScheduleError (Option AssistantScheduleAdvance) :=
  if s.status = .active then advanceDueSchedule next s now else .ok none

/-- The pending occurrence of an advanced schedule: a new one, the waiting one with
the instants merged into it, or the waiting one as it is. -/
def ScheduleDatabase.takeInstants (db : ScheduleDatabase) (s : AssistantSchedule) (now : Time)
    (newId : Uuid) (a : AssistantScheduleAdvance) :
    Except ScheduleError (AssistantScheduleOccurrence × ScheduleDatabase) :=
  match db.getPendingOccurrence s.id with
  | none => db.createOccurrence
      (.newPending newId s.id s.activeRevision a.latestDueAt a.missedCount none now)
  | some pending =>
    if pending.scheduledFor < a.latestDueAt then
      match pending.coalesce a.latestDueAt (a.missedCount + 1) with
      | .error error => .error error
      | .ok merged => db.saveOccurrence merged .pending
    else .ok (pending, db)

/-- What `_process_claim` makes of a pending occurrence and the schedule. -/
def ScheduleDatabase.dispatchPending (db : ScheduleDatabase) (s : AssistantSchedule)
    (pending : AssistantScheduleOccurrence) (now : Time) (answer : DispatchAnswer) :
    Except ScheduleError (AssistantScheduleOccurrence × AssistantSchedule × ScheduleDatabase) :=
  match answer with
  | .kept => .ok (pending, s, db)
  | .bound turnId workflowRunId =>
    match pending.dispatch turnId workflowRunId now with
    | .error error => .error error
    | .ok dispatched => (db.saveOccurrence dispatched .pending).map fun x => (x.1, s, x.2)
  | .attention code publicError =>
    match db.saveOccurrence (pending.setAside publicError now) .pending with
    | .error error => .error error
    | .ok (_, db) =>
      (s.attended code now).map fun s => (pending.setAside publicError now, s, db)

/-- The pending occurrence after the advance, if there is one. -/
def ScheduleDatabase.pendingAfter (db : ScheduleDatabase) (s : AssistantSchedule) (now : Time)
    (newId : Uuid) (advance : Option AssistantScheduleAdvance) :
    Except ScheduleError (Option AssistantScheduleOccurrence × ScheduleDatabase) :=
  match advance with
  | none => .ok (db.getPendingOccurrence s.id, db)
  | some a => (db.takeInstants s now newId a).map fun x => (some x.1, x.2)

/-- The part of `_process_claim` before `settle_claim`: the pending occurrence, and the
schedule to be settled. -/
def ScheduleDatabase.prepareClaim (db : ScheduleDatabase) (s : AssistantSchedule) (now : Time)
    (newId : Uuid) (answer : DispatchAnswer) :
    Except ScheduleError
      (Option AssistantScheduleOccurrence × AssistantSchedule × ScheduleDatabase) :=
  match dueAdvance next s now with
  | .error error => .error error
  | .ok advance =>
    match db.pendingAfter s now newId advance with
    | .error error => .error error
    | .ok (none, db) => .ok (none, s.advanced advance now, db)
    | .ok (some pending, db) =>
      (db.dispatchPending (s.advanced advance now) pending now answer).map
        fun x => (some x.1, x.2.1, x.2.2)

/-- `_process_claim`. Where it answers `(False, None)` nothing is committed. -/
def ScheduleDatabase.processClaim (db : ScheduleDatabase) (claim : AssistantScheduleClaim)
    (now : Time) (newId : Uuid) (answer : DispatchAnswer) :
    Except ScheduleError ((Bool × Option Uuid) × ScheduleDatabase) :=
  match db.schedules.find? claim.scheduleId with
  | none => .ok ((false, none), db)
  | some s =>
    if ¬ Current claim s then .ok ((false, none), db)
    else match db.prepareClaim next s now newId answer with
      | .error error => .error error
      | .ok (pending, s, prepared) =>
        match prepared.settleClaim claim s.released with
        | .error error => .error error
        | .ok (none, _) => .ok ((false, none), db)
        | .ok (some _, settled) =>
          .ok ((true, (pending.filter fun o => o.status = .pending).map (·.id)), settled)

end

/-- `record_outcome` of an occurrence; also what `_reconcile_dispatched` does to each. -/
def ScheduleDatabase.recordOutcome (db : ScheduleDatabase) (occurrenceId : Uuid)
    (status : AssistantOccurrenceStatus) (publicError attentionCode : Option String)
    (now : Time) : Except ScheduleError (AssistantScheduleOccurrence × ScheduleDatabase) :=
  match db.occurrences.find? occurrenceId with
  | none => .error (.keyError ("Assistant occurrence not found: " ++ toString occurrenceId))
  | some o =>
    if o.status = status then .ok (o, db)
    else match o.settle status now publicError with
      | .error error => .error error
      | .ok settled => db.recordOccurrenceOutcome settled .dispatched attentionCode

/-- The dispatch of a pending occurrence by the runner: it leaves it, it binds it to a
turn, or `_record_pending_attention` sets it aside. -/
def ScheduleDatabase.dispatchOccurrence (db : ScheduleDatabase) (occurrenceId : Uuid)
    (now : Time) (answer : DispatchAnswer) : Except ScheduleError ScheduleDatabase :=
  match db.occurrences.find? occurrenceId with
  | none => .ok db
  | some o =>
    if o.status ≠ .pending then .ok db
    else match answer with
      | .kept => .ok db
      | .bound turnId workflowRunId =>
        match o.dispatch turnId workflowRunId now with
        | .error error => .error error
        | .ok dispatched => (db.saveOccurrence dispatched .pending).map Prod.snd
      | .attention code publicError =>
        match db.saveOccurrence (o.setAside publicError now) .pending with
        | .error error => .error error
        | .ok (_, db) =>
          match db.schedules.find? o.scheduleId with
          | none => .ok db
          | some s =>
            if s.status ≠ .active ∧ s.attentionCode = some code then .ok db
            else match s.attended code now with
              | .error error => .error error
              | .ok s => (db.save s s.activeRevision).map Prod.snd

end Fairy.Assistant
