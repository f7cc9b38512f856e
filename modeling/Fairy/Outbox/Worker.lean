import Fairy.Lib.Batch
import Fairy.Lib.Fallible
import Fairy.Lib.Json
import Fairy.Lib.Table
import Fairy.Lib.Run

namespace Fairy.Outbox

open Fairy.Lib

section Store

/-- An aware UTC `datetime`, in seconds. -/
abbrev Time := Nat

inductive OutboxError
  | valueError (message : String)
  deriving DecidableEq

/-- A row of `outbox`. -/
structure OutboxRow where
  tenantId : String
  id : Nat
  eventId : String
  topic : String
  payload : Json
  availableAt : Time
  publishedAt : Option Time
  attempts : Nat
  leaseOwner : Option String
  leaseExpiresAt : Option Time
  leaseFence : Nat
  deriving DecidableEq

structure OutboxItem where
  tenantId : String
  id : Nat
  eventId : String
  topic : String
  payload : Json
  attempts : Nat
  leaseOwner : String
  leaseExpiresAt : Time
  leaseFence : Nat
  deriving DecidableEq

/-- The identity column draws every id once, for all tenants together. -/
abbrev OutboxTable := Table OutboxRow OutboxRow.id fun _ => True

namespace OutboxRow

def create (now : Time) (id : Nat) (tenantId eventId topic : String) (payload : Json) :
    OutboxRow where
  tenantId := tenantId
  id := id
  eventId := eventId
  topic := topic
  payload := payload
  availableAt := now
  publishedAt := none
  attempts := 0
  leaseOwner := none
  leaseExpiresAt := none
  leaseFence := 0

/-- The predicates of `build_claim_outbox_statement`. -/
def Claimable (now : Time) (a : OutboxRow) : Prop :=
  a.publishedAt = none ∧ a.availableAt ≤ now ∧ ∀ t ∈ a.leaseExpiresAt, t ≤ now

instance (now : Time) : DecidablePred (Claimable now) := fun a =>
  inferInstanceAs (Decidable (a.publishedAt = none ∧ a.availableAt ≤ now ∧ _))

/-- The values of `claim_outbox`. -/
def claimedBy (ownerId : String) (leaseExpiresAt : Time) (a : OutboxRow) : OutboxRow :=
  { a with
    leaseOwner := some ownerId
    leaseExpiresAt := some leaseExpiresAt
    attempts := a.attempts + 1
    leaseFence := a.leaseFence + 1 }

/-- The values of `mark_outbox_published`. -/
def publishedAs (now : Time) (a : OutboxRow) : OutboxRow :=
  { a with publishedAt := some now, leaseOwner := none, leaseExpiresAt := none }

def toItem (ownerId : String) (leaseExpiresAt : Time) (a : OutboxRow) : OutboxItem where
  tenantId := a.tenantId
  id := a.id
  eventId := a.eventId
  topic := a.topic
  payload := a.payload
  attempts := a.attempts
  leaseOwner := ownerId
  leaseExpiresAt := leaseExpiresAt
  leaseFence := a.leaseFence

end OutboxRow

/-- The predicates of `mark_outbox_published`. -/
def OutboxItem.Held (ownerId : String) (item : OutboxItem) (a : OutboxRow) : Prop :=
  a.tenantId = item.tenantId ∧ a.id = item.id ∧ a.leaseOwner = some ownerId ∧
    a.leaseFence = item.leaseFence

instance (ownerId : String) (item : OutboxItem) : DecidablePred (item.Held ownerId) :=
  fun _ => inferInstanceAs (Decidable (_ ∧ _ ∧ _ ∧ _))

namespace OutboxTable

variable (outbox : OutboxTable)

/-- The insertion that goes with every event; an event has one item. -/
def append (row : OutboxRow) : OutboxTable :=
  outbox.insertUnless
    (fun b => b.id = row.id ∨ b.tenantId = row.tenantId ∧ b.eventId = row.eventId) row
    (fun _ h => .inl h) trivial

/-- `build_claim_outbox_statement`, executed: no row that another transaction has locked. -/
def claimable (now : Time) (batchSize : Nat) (locked : List Nat) : List OutboxRow :=
  batch (byKey OutboxRow.id) batchSize
    (outbox.select fun a => a.Claimable now ∧ a.id ∉ locked)

/-- The body of the loop of `claim_outbox`. -/
def claimRow (ownerId : String) (leaseExpiresAt : Time) (s : OutboxTable × List OutboxItem)
    (row : OutboxRow) : OutboxTable × List OutboxItem :=
  (s.1.update (fun a => a.tenantId = row.tenantId ∧ a.id = row.id ∧
      a.leaseFence = row.leaseFence) (OutboxRow.claimedBy ownerId leaseExpiresAt),
    s.2 ++ [(row.claimedBy ownerId leaseExpiresAt).toItem ownerId leaseExpiresAt])

/-- The statement reads the clock of the database, the lease that of the worker. -/
def claimOutbox (now workerNow : Time) (ownerId : String) (batchSize leaseSeconds : Nat)
    (locked : List Nat) : Except OutboxError (OutboxTable × List OutboxItem) :=
  if leaseSeconds < 1 then .error (.valueError "lease_seconds must be positive")
  else if batchSize < 1 then .error (.valueError "batch_size must be positive")
  else
    .ok ((outbox.claimable now batchSize locked).foldl
      (claimRow ownerId (workerNow + leaseSeconds)) (outbox, []))

/-- The body of the loop of `mark_outbox_published`; the items that a row met are counted. -/
def publishItem (now : Time) (ownerId : String) (s : OutboxTable × List OutboxItem)
    (item : OutboxItem) : OutboxTable × List OutboxItem :=
  (s.1.update (item.Held ownerId) (OutboxRow.publishedAs now),
    if ∃ a ∈ s.1.rows, item.Held ownerId a then s.2 ++ [item] else s.2)

def markOutboxPublished (now : Time) (ownerId : String) (items : List OutboxItem) :
    OutboxTable × List OutboxItem :=
  items.foldl (publishItem now ownerId) (outbox, [])

end OutboxTable

end Store

/-- An `OutboxWorker`, with the topics it has handlers for. -/
structure OutboxWorker where
  ownerId : String
  handlers : List String
  batchSize : Nat
  leaseSeconds : Nat
  deriving DecidableEq

/-- A `run_once` between its claim and its last statement. -/
structure WorkerCycle where
  worker : OutboxWorker
  pending : List OutboxItem
  successful : List OutboxItem
  deriving DecidableEq

inductive HandlerOutcome
  | returned | raised
  deriving DecidableEq

inductive OutboxEvent
  | claimed (item : OutboxItem)
  | returned (item : OutboxItem)
  | published (item : OutboxItem)
  deriving DecidableEq

/-- What the service and any number of workers do; a worker that stalls takes its time
between two acts. -/
inductive OutboxAct
  | append (now : Time) (id : Nat) (tenantId eventId topic : String) (payload : Json)
  | claim (now workerNow : Time) (worker : OutboxWorker) (locked : List Nat)
  | handle (cycle : Nat) (outcome : HandlerOutcome)
  | markPublished (now : Time) (cycle : Nat)
  | crash (cycle : Nat)

/-- The outbox, the latest instant that the database has read, the cycles under way and what
has happened. -/
structure World where
  outbox : OutboxTable
  clock : Time
  cycles : List WorkerCycle
  log : List OutboxEvent

/-- One turn of the loop of `run_once`. -/
def WorkerCycle.handled (c : WorkerCycle) (item : OutboxItem) (rest : List OutboxItem)
    (outcome : HandlerOutcome) : WorkerCycle :=
  if item.topic ∈ c.worker.handlers ∧ outcome = .returned then
    { c with pending := rest, successful := c.successful ++ [item] }
  else { c with pending := rest }

namespace World

def initial : World := ⟨.empty, 0, [], []⟩

def append (w : World) (now : Time) (row : OutboxRow) : World :=
  { w with outbox := w.outbox.append row, clock := max w.clock now }

def claim (w : World) (now workerNow : Time) (worker : OutboxWorker) (locked : List Nat) :
    World :=
  match w.outbox.claimOutbox now workerNow worker.ownerId worker.batchSize worker.leaseSeconds
      locked with
  | .ok (outbox, items) =>
    { outbox := outbox, clock := max w.clock now, cycles := w.cycles ++ [⟨worker, items, []⟩],
      log := w.log ++ items.map .claimed }
  | .error _ => w

def handle (w : World) (cycle : Nat) (outcome : HandlerOutcome) : World :=
  match w.cycles[cycle]? with
  | some c =>
    match c.pending with
    | item :: rest =>
      { w with
        cycles := w.cycles.set cycle (c.handled item rest outcome)
        log := w.log ++ if item.topic ∈ c.worker.handlers ∧ outcome = .returned
          then [.returned item] else [] }
    | [] => w
  | none => w

def markPublished (w : World) (now : Time) (cycle : Nat) : World :=
  match w.cycles[cycle]? with
  | some c =>
    match c.pending with
    | [] =>
      let (outbox, published) := w.outbox.markOutboxPublished now c.worker.ownerId c.successful
      { outbox := outbox, clock := max w.clock now, cycles := w.cycles.eraseIdx cycle,
        log := w.log ++ published.map .published }
    | _ :: _ => w
  | none => w

def after (w : World) : OutboxAct → World
  | .append now id tenantId eventId topic payload =>
    w.append now (.create now id tenantId eventId topic payload)
  | .claim now workerNow worker locked => w.claim now workerNow worker locked
  | .handle cycle outcome => w.handle cycle outcome
  | .markPublished now cycle => w.markPublished now cycle
  | .crash cycle => { w with cycles := w.cycles.eraseIdx cycle }

def Step (w : World) (act : OutboxAct) (w' : World) : Prop := w' = w.after act

end World

end Fairy.Outbox
