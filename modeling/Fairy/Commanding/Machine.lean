import Fairy.Lib.Run
import Fairy.Commanding.Ledger

namespace Fairy.Commanding

open Fairy.Lib

/-- One call of the ledger, with its arguments. -/
inductive Call
  | createRun (request : CommandRequest) (fingerprint : String) (newId : Uuid)
  | transition (runId : Uuid) (status : CommandStatus) (leaseOwner : Option String)
      (leaseFence : Option Int)
  | claim (runId : Uuid) (workerId : String) (leaseUntil : Time)
  | claimNext (workerId : String) (locked : List Uuid) (leaseUntil : Time)
  | renew (runId : Uuid) (leaseOwner : String) (leaseFence : Int) (leaseUntil : Time)
  | abandon (runId : Uuid) (leaseOwner : String) (leaseFence : Int)
  | appendEvent (runId : Uuid) (event : EventInput) (leaseOwner : Option String)
      (leaseFence : Option Int)
  | finish (runId : Uuid) (status : CommandStatus) (event : EventInput)
      (leaseOwner : Option String) (leaseFence : Option Int)

inductive Reply
  | run (run : CommandRun)
  | claimed (run : CommandRun)
  | nothing
  | flag (flag : Bool)
  | event (event : LedgerEvent)

/-- What a call takes from its surroundings: its reading of the clock, and what the
events it appends draw. -/
structure Supply where
  now : Time
  first : Draw
  second : Draw

/-- What a call answers, with the tables as it leaves them. -/
def Call.exec (call : Call) (t : Supply) (s : Ledger) : Except LedgerError (Reply × Ledger) :=
  match call with
  | createRun request fingerprint newId =>
    (s.createRun request fingerprint newId t.now t.first).map (Prod.map .run id)
  | transition runId status leaseOwner leaseFence =>
    (s.transition runId status leaseOwner leaseFence t.now t.first).map (Prod.map .run id)
  | claim runId workerId leaseUntil =>
    (s.claim runId workerId leaseUntil t.now t.first).map (Prod.map .claimed id)
  | claimNext workerId locked leaseUntil =>
    (s.claimNext workerId locked leaseUntil t.now t.first).map
      (Prod.map (fun found => (found.map Reply.claimed).getD .nothing) id)
  | renew runId leaseOwner leaseFence leaseUntil =>
    (s.renew runId leaseOwner leaseFence leaseUntil t.now).map (Prod.map .flag id)
  | abandon runId leaseOwner leaseFence =>
    .ok (Prod.map .flag id (s.abandon runId leaseOwner leaseFence t.now))
  | appendEvent runId event leaseOwner leaseFence =>
    (s.appendEvent runId event leaseOwner leaseFence t.now t.first).map (Prod.map .event id)
  | finish runId status event leaseOwner leaseFence =>
    (s.finish runId status event leaseOwner leaseFence t.now t.first t.second).map
      (Prod.map .run id)

/-- A claim that was granted: the run as it was answered. -/
structure Claim where
  runId : Uuid
  leaseOwner : Option String
  leaseFence : Nat
  deriving DecidableEq

/-- The tables, the claims granted so far and the runs that a `finish` has ended. -/
structure Config where
  ledger : Ledger
  claims : List Claim
  finished : List Uuid

/-- The claim an answer grants. -/
def Reply.claim? : Reply → Option Claim
  | .claimed r => some ⟨r.id, r.leaseOwner, r.leaseFence⟩
  | _ => none

/-- The run a call ends. -/
def Call.finished? : Call → Option Uuid
  | .finish runId _ _ _ _ => some runId
  | _ => none

/-- A call that raises is rolled back. -/
def Config.after (σ : Config) (call : Call) (t : Supply) : Config :=
  match call.exec t σ.ledger with
  | .ok (reply, ledger) =>
    ⟨ledger, σ.claims ++ reply.claim?.toList, σ.finished ++ call.finished?.toList⟩
  | .error _ => σ

/-- One call of any caller, at any reading of the clock. -/
def Step (σ : Config) (x : Call × Supply) (τ : Config) : Prop := τ = σ.after x.1 x.2

/-- Any calls, one after the other. The clock readings need not agree with the order
of the calls: a call reads the clock before it waits for the row. -/
abbrev Runs : Config → Config → Prop := Run Step fun _ _ => True

/-- The states reached from the empty ledger. -/
def Reachable (σ : Config) : Prop := Runs ⟨.empty, [], []⟩ σ

end Fairy.Commanding
