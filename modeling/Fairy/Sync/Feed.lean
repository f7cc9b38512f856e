import Fairy.Lib.Paging
import Fairy.Lib.Run
import Fairy.Sync.Models

namespace Fairy.Sync

open Fairy.Lib

/-- The reader asks for the visibility of the event. -/
def Requested (visibilities : Option (List String)) (e : SyncedEvent) : Prop :=
  visibilities.all (e.visibility ∈ ·) = true

instance (visibilities : Option (List String)) : DecidablePred (Requested visibilities) :=
  fun _ => inferInstanceAs (Decidable (_ = _))

/-- `events_after` on the rows that are visible. The store always names a limit and
the visibilities; the ledger may leave out either. -/
def eventsAfter (rows : List SyncedEvent) (cursor : Nat) (limit : Option Int)
    (visibilities : Option (List String)) : Except SyncError (List SyncedEvent) :=
  if limit.any fun n => ¬ (1 ≤ n ∧ n ≤ 2000) then
    .error (.valueError "limit must be between 1 and 2000")
  else if visibilities = some [] then .ok []
  else .ok (page SyncedEvent.cursor (Requested visibilities) cursor (limit.map Int.toNat) rows)

/-- `_resume_cursor`, with the `Last-Event-ID` as the number it is read as. -/
def resumeCursor (cursor : Nat) (lastEventId : Option Nat) : Nat :=
  match lastEventId with
  | none => cursor
  | some last => max cursor last

/-- One tenant's rows of `domain_events` that are committed, those that open
transactions have inserted, the identity column, and a reader of the feed: where it
stands and what it has been given. -/
structure Feed where
  nextCursor : Nat
  inserted : List (Nat × SyncedEvent)
  committed : List SyncedEvent
  current : Nat
  returned : List SyncedEvent

/-- Nothing is appended; the identity column starts at 1. -/
def Feed.empty : Feed := ⟨1, [], [], 0, []⟩

inductive FeedAct
  /-- An `INSERT` in a transaction, which draws a cursor. -/
  | insert (transaction : Nat) (userId : String) (fields : EventFields) (createdAt : Time)
  /-- A cursor drawn for another tenant, or by an `INSERT` that meets a conflict. -/
  | draw
  | commit (transaction : Nat)
  | rollback (transaction : Nat)
  /-- The body of the loop of `events`. -/
  | poll (limit : Option Int)
  /-- The reader comes back with the identifier of the last event it was given. -/
  | reconnect

namespace Feed

/-- The rows of a transaction that is still open. -/
def rowsOf (w : Feed) (transaction : Nat) : List SyncedEvent :=
  (w.inserted.filter fun x => x.1 = transaction).map Prod.snd

def drop (w : Feed) (transaction : Nat) : List (Nat × SyncedEvent) :=
  w.inserted.filter fun x => x.1 ≠ transaction

def after (visibilities : Option (List String)) (w : Feed) : FeedAct → Feed
  | .insert transaction userId fields createdAt =>
    { w with
      nextCursor := w.nextCursor + 1
      inserted := w.inserted ++
        [(transaction, { fields with cursor := w.nextCursor, userId, createdAt })] }
  | .draw => { w with nextCursor := w.nextCursor + 1 }
  | .commit transaction =>
    { w with inserted := w.drop transaction, committed := w.committed ++ w.rowsOf transaction }
  | .rollback transaction => { w with inserted := w.drop transaction }
  | .poll limit =>
    match eventsAfter w.committed w.current limit visibilities with
    | .ok items => { w with current := resume SyncedEvent.cursor w.current items,
                            returned := w.returned ++ items }
    | .error _ => w
  | .reconnect =>
    { w with current := resumeCursor 0 (w.returned.getLast?.map SyncedEvent.cursor) }

end Feed

/-- Any interleaving of transactions with one reader of the given visibilities. -/
def FeedStep (visibilities : Option (List String)) (w : Feed) (act : FeedAct) (w' : Feed) : Prop :=
  w' = w.after visibilities act

/-- A poll with a limit that `events_after` accepts. -/
def FeedAct.Polls (act : FeedAct) : Prop :=
  ∃ limit, act = .poll limit ∧ limit.all fun n => 1 ≤ n ∧ n ≤ 2000

/-- Every committed event of the requested visibilities is returned, once and in the
order of the cursors, and nothing else is. -/
structure Delivers {visibilities : Option (List String)} (τ : Trace (FeedStep visibilities)) :
    Prop where
  ordered : ∀ n, (τ.state n).returned.Pairwise fun a b => a.cursor < b.cursor
  sound : ∀ n, ∀ e ∈ (τ.state n).returned, e ∈ (τ.state n).committed ∧ Requested visibilities e
  eventually : ∀ n, ∀ e ∈ (τ.state n).committed, Requested visibilities e →
    ∃ m, e ∈ (τ.state m).returned

/-- No transaction commits a row of the requested visibilities that the reader has
already gone past. -/
def NeverPassed {visibilities : Option (List String)} (τ : Trace (FeedStep visibilities)) : Prop :=
  ∀ n transaction, τ.label n = .commit transaction →
    ∀ e ∈ (τ.state n).rowsOf transaction, Requested visibilities e →
      (τ.state n).current < e.cursor

end Fairy.Sync
