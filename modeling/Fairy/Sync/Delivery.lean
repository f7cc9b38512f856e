import Fairy.Sync.Feed

namespace Fairy.Sync

open Fairy.Lib

theorem eventsAfter_ok {rows items : List SyncedEvent} {cursor : Nat} {limit : Option Int}
    {visibilities : Option (List String)}
    (h : eventsAfter rows cursor limit visibilities = .ok items) :
    items = page SyncedEvent.cursor (Requested visibilities) cursor (limit.map Int.toNat) rows := by
  unfold eventsAfter at h
  split at h
  · cases h
  split at h
  · rename_i hv
    cases h
    subst hv
    exact (page_of_false fun e he => by simp [Requested] at he).symm
  · cases h
    rfl

theorem eventsAfter_total {rows : List SyncedEvent} {cursor : Nat} {limit : Option Int}
    {visibilities : Option (List String)} (h : limit.all fun n => 1 ≤ n ∧ n ≤ 2000) :
    ∃ items, eventsAfter rows cursor limit visibilities = .ok items := by
  have hl : ¬ limit.any (fun n => ¬ (1 ≤ n ∧ n ≤ 2000)) = true := by
    cases limit with
    | none => simp
    | some n => simpa using h
  rw [eventsAfter, if_neg hl]
  split <;> exact ⟨_, rfl⟩

namespace Feed

variable {visibilities : Option (List String)} {w : Feed} {act : FeedAct}

/-- The rows that have drawn a cursor and are not rolled back. -/
def rows (w : Feed) : List SyncedEvent := w.inserted.map Prod.snd ++ w.committed

/-- Cursors are drawn once, and what the reader was given is committed, asked for, in
order, and behind it. -/
structure Ok (visibilities : Option (List String)) (w : Feed) : Prop where
  below : ∀ e ∈ w.rows, e.cursor < w.nextCursor
  distinct : (w.rows.map SyncedEvent.cursor).Nodup
  sound : ∀ e ∈ w.returned, e ∈ w.committed ∧ Requested visibilities e
  ordered : w.returned.Pairwise fun a b => a.cursor < b.cursor
  behind : w.current = resume SyncedEvent.cursor 0 w.returned

theorem ok_empty : Ok visibilities .empty where
  below _ he := absurd he List.not_mem_nil
  distinct := List.nodup_nil
  sound _ he := absurd he List.not_mem_nil
  ordered := List.Pairwise.nil
  behind := rfl

namespace Ok

theorem committed_nodup (h : Ok visibilities w) : (w.committed.map SyncedEvent.cursor).Nodup := by
  have hd := h.distinct
  rw [rows, List.map_append, List.nodup_append'] at hd
  exact hd.2.1

/-- What the reader was given is behind it. -/
theorem returned_le (h : Ok visibilities w) {e : SyncedEvent} (he : e ∈ w.returned) :
    e.cursor ≤ w.current := by
  rw [h.behind]
  exact key_le_resume (h.ordered.imp Nat.le_of_lt) he

/-- A row of an open transaction is not committed. -/
theorem not_committed (h : Ok visibilities w) {transaction : Nat} {e : SyncedEvent}
    (he : e ∈ w.rowsOf transaction) : e ∉ w.committed := by
  intro hc
  have hd := h.distinct
  rw [rows, List.map_append, List.nodup_append'] at hd
  obtain ⟨x, hx, rfl⟩ := List.mem_map.mp he
  have hi := List.mem_map_of_mem (f := Prod.snd) (List.mem_of_mem_filter hx)
  exact hd.2.2 (List.mem_map_of_mem (f := SyncedEvent.cursor) hi)
    (List.mem_map_of_mem (f := SyncedEvent.cursor) hc)

end Ok

variable (visibilities) in
/-- A commit moves the rows of a transaction. -/
theorem rows_commit (w : Feed) (transaction : Nat) :
    ((w.after visibilities (.commit transaction)).rows).Perm w.rows := by
  have hp : (w.drop transaction ++ w.inserted.filter fun x => x.1 = transaction).Perm
      w.inserted := by
    have := List.filter_append_perm (fun x : Nat × SyncedEvent => decide (x.1 ≠ transaction))
      w.inserted
    simpa [drop] using this
  have hm := hp.map Prod.snd
  rw [List.map_append] at hm
  have hswap : ((w.drop transaction).map Prod.snd ++ (w.committed ++ w.rowsOf transaction)).Perm
      ((w.drop transaction).map Prod.snd ++ (w.rowsOf transaction ++ w.committed)) :=
    List.perm_append_comm.append_left _
  rw [← List.append_assoc _ (w.rowsOf transaction)] at hswap
  exact hswap.trans (hm.append_right _)

variable (visibilities) in
theorem rows_rollback (w : Feed) (transaction : Nat) :
    ((w.after visibilities (.rollback transaction)).rows).Sublist w.rows :=
  (List.filter_sublist.map _).append_right _

/-- The page the reader is given next. -/
def nextPage (visibilities : Option (List String)) (limit : Option Int) (w : Feed) :
    List SyncedEvent :=
  page SyncedEvent.cursor (Requested visibilities) w.current (limit.map Int.toNat) w.committed

def read (visibilities : Option (List String)) (limit : Option Int) (w : Feed) : Feed :=
  { w with current := resume SyncedEvent.cursor w.current (w.nextPage visibilities limit),
           returned := w.returned ++ w.nextPage visibilities limit }

variable (visibilities) in
/-- A poll reads the next page, or is refused. -/
theorem after_poll (w : Feed) (limit : Option Int) :
    w.after visibilities (.poll limit) = w ∨
      w.after visibilities (.poll limit) = w.read visibilities limit := by
  simp only [after]
  split
  · rename_i items hitems
    obtain rfl := eventsAfter_ok hitems
    exact .inr rfl
  · exact .inl rfl

theorem after_poll_of_valid (w : Feed) {limit : Option Int}
    (h : limit.all fun n => 1 ≤ n ∧ n ≤ 2000) :
    w.after visibilities (.poll limit) = w.read visibilities limit := by
  obtain ⟨items, hitems⟩ : ∃ items,
      eventsAfter w.committed w.current limit visibilities = .ok items := eventsAfter_total h
  have he := eventsAfter_ok hitems
  simp only [after, hitems, he]
  rfl

/-- A reader that comes back stands where it stood. -/
theorem Ok.after_reconnect (h : Ok visibilities w) : w.after visibilities .reconnect = w := by
  have he : resumeCursor 0 (w.returned.getLast?.map SyncedEvent.cursor) = w.current := by
    rw [h.behind]
    obtain ⟨hn, he⟩ | ⟨e, _, hl, he⟩ := resume_cases SyncedEvent.cursor 0 w.returned
    · rw [he, hn]
      rfl
    · rw [he, hl]
      exact Nat.max_eq_right (Nat.zero_le _)
  simp only [after, he]

theorem Ok.read (h : Ok visibilities w) (limit : Option Int) :
    Ok visibilities (w.read visibilities limit) where
  below := h.below
  distinct := h.distinct
  sound e he := by
    obtain he | he := List.mem_append.mp he
    · exact h.sound e he
    · exact ⟨(mem_page he).1, (mem_page he).2.2⟩
  ordered := by
    refine List.pairwise_append.mpr ⟨h.ordered, page_strict h.committed_nodup, fun a ha b hb => ?_⟩
    have ha := h.returned_le ha
    have hb := (mem_page hb).2.1
    omega
  behind := by
    simp only [Feed.read]
    conv_lhs => rw [h.behind]
    exact resume_append _ _

/-- Every step keeps the feed in order. -/
theorem Ok.after (h : Ok visibilities w) (act : FeedAct) :
    Ok visibilities (w.after visibilities act) := by
  cases act with
  | insert transaction userId fields createdAt =>
    have hrows : ∀ e ∈ (w.after visibilities (.insert transaction userId fields createdAt)).rows,
        e ∈ w.rows ∨ e.cursor = w.nextCursor := by
      intro e he
      simp only [Feed.after, rows, List.map_append, List.map_cons, List.map_nil, List.mem_append,
        List.mem_singleton] at he
      obtain (he | rfl) | he := he
      · exact .inl (List.mem_append_left _ he)
      · exact .inr rfl
      · exact .inl (List.mem_append_right _ he)
    refine ⟨fun e he => ?_, ?_, h.sound, h.ordered, h.behind⟩
    · have hlt : e.cursor < w.nextCursor + 1 := by
        obtain he | he := hrows e he
        · have := h.below e he
          omega
        · omega
      exact hlt
    · have hperm : ((w.after visibilities (.insert transaction userId fields createdAt)).rows.map
          SyncedEvent.cursor).Perm (w.nextCursor :: w.rows.map SyncedEvent.cursor) := by
        simp only [Feed.after, rows, List.map_append, List.map_cons, List.map_nil,
          List.append_assoc, List.singleton_append]
        exact List.perm_middle
      refine hperm.nodup_iff.mpr (List.nodup_cons.mpr ⟨fun hm => ?_, h.distinct⟩)
      obtain ⟨e, he, hc⟩ := List.mem_map.mp hm
      have := h.below e he
      omega
  | draw =>
    refine ⟨fun e he => ?_, h.distinct, h.sound, h.ordered, h.behind⟩
    have hlt := h.below e he
    exact Nat.lt_succ_of_lt hlt
  | commit transaction =>
    have hp := rows_commit visibilities w transaction
    refine ⟨fun e he => h.below e (hp.mem_iff.mp he), ?_, fun e he => ?_, h.ordered, h.behind⟩
    · exact (hp.map SyncedEvent.cursor).nodup_iff.mpr h.distinct
    · exact ⟨List.mem_append_left _ (h.sound e he).1, (h.sound e he).2⟩
  | rollback transaction =>
    have hs := rows_rollback visibilities w transaction
    exact ⟨fun e he => h.below e (hs.subset he), h.distinct.sublist (hs.map _), h.sound,
      h.ordered, h.behind⟩
  | poll limit =>
    obtain he | he := after_poll visibilities w limit
    · rwa [he]
    · rw [he]
      exact h.read limit
  | reconnect =>
    rw [h.after_reconnect]
    exact h

/-- The reader has been given every requested row it has gone past. -/
def CaughtUp (visibilities : Option (List String)) (w : Feed) : Prop :=
  ∀ e ∈ w.committed, Requested visibilities e → e.cursor ≤ w.current → e ∈ w.returned

theorem CaughtUp.read (h : CaughtUp visibilities w) (hok : Ok visibilities w)
    (limit : Option Int) : CaughtUp visibilities (w.read visibilities limit) := by
  intro e he hr hc
  by_cases hle : e.cursor ≤ w.current
  · exact List.mem_append_left _ (h e he hr hle)
  · exact List.mem_append_right _
      (mem_page_of_le hok.committed_nodup he hr (Nat.lt_of_not_le hle) hc)

/-- A reader that is caught up stays so, if no commit comes behind it. -/
theorem CaughtUp.after (h : CaughtUp visibilities w) (hok : Ok visibilities w) (act : FeedAct)
    (hc : ∀ transaction, act = .commit transaction → ∀ e ∈ w.rowsOf transaction,
      Requested visibilities e → w.current < e.cursor) :
    CaughtUp visibilities (w.after visibilities act) := by
  cases act with
  | insert _ _ _ _ => exact h
  | draw => exact h
  | rollback _ => exact h
  | commit transaction =>
    intro e he hr hle
    obtain he | he := List.mem_append.mp he
    · exact h e he hr hle
    · have := hc transaction rfl e he hr
      exact absurd hle (Nat.not_le_of_lt this)
  | poll limit =>
    obtain he | he := after_poll visibilities w limit
    · rwa [he]
    · rw [he]
      exact h.read hok limit
  | reconnect => rwa [hok.after_reconnect]

theorem current_le_read (w : Feed) (limit : Option Int) :
    w.current ≤ (w.read visibilities limit).current := le_resume

/-- No step takes the reader back or a committed row away. -/
theorem Ok.mono (h : Ok visibilities w) (act : FeedAct) :
    w.current ≤ (w.after visibilities act).current ∧
      (∀ e ∈ w.committed, e ∈ (w.after visibilities act).committed) ∧
      ∀ e ∈ w.returned, e ∈ (w.after visibilities act).returned := by
  cases act with
  | insert _ _ _ _ => exact ⟨le_rfl, fun _ he => he, fun _ he => he⟩
  | draw => exact ⟨le_rfl, fun _ he => he, fun _ he => he⟩
  | rollback _ => exact ⟨le_rfl, fun _ he => he, fun _ he => he⟩
  | commit _ => exact ⟨le_rfl, fun _ he => List.mem_append_left _ he, fun _ he => he⟩
  | poll limit =>
    obtain he | he := after_poll visibilities w limit
    · rw [he]
      exact ⟨le_rfl, fun _ he => he, fun _ he => he⟩
    · rw [he]
      exact ⟨current_le_read w limit, fun _ he => he, fun _ he => List.mem_append_left _ he⟩
  | reconnect =>
    rw [h.after_reconnect]
    exact ⟨le_rfl, fun _ he => he, fun _ he => he⟩

/-- A poll that is accepted takes the reader on, while a requested row is before it. -/
theorem read_moves {limit : Option Int} (hl : limit.all fun n => 1 ≤ n ∧ n ≤ 2000)
    {e : SyncedEvent} (he : e ∈ w.committed) (hr : Requested visibilities e)
    (hc : w.current < e.cursor) : w.current < (w.read visibilities limit).current := by
  have hz : limit.map Int.toNat ≠ some 0 := by
    cases limit with
    | none => simp
    | some n =>
      have hn : 1 ≤ n ∧ n ≤ 2000 := by simpa using hl
      simp only [Option.map_some, ne_eq, Option.some.injEq]
      omega
  obtain ⟨b, hb⟩ := exists_mem_page he hr hc hz
  exact lt_resume hb

/-- The reader has gone past the event without it. -/
def Missed (e : SyncedEvent) (w : Feed) : Prop := e.cursor ≤ w.current ∧ e ∉ w.returned

/-- What the reader has gone past it is never given. -/
theorem Missed.after {e : SyncedEvent} (h : Missed e w) (hok : Ok visibilities w)
    (act : FeedAct) : Missed e (w.after visibilities act) := by
  refine ⟨h.1.trans (hok.mono act).1, ?_⟩
  cases act with
  | insert _ _ _ _ => exact h.2
  | draw => exact h.2
  | rollback _ => exact h.2
  | commit _ => exact h.2
  | poll limit =>
    obtain he | he := after_poll visibilities w limit
    · rw [he]
      exact h.2
    · rw [he]
      intro hm
      obtain hm | hm := List.mem_append.mp hm
      · exact h.2 hm
      · exact absurd h.1 (Nat.not_le_of_lt (mem_page hm).2.1)
  | reconnect =>
    rw [hok.after_reconnect]
    exact h.2

end Feed

section Traces

variable {visibilities : Option (List String)} {τ : Trace (FeedStep visibilities)}

theorem ok_trace (h : τ.state 0 = .empty) (n : Nat) : (τ.state n).Ok visibilities :=
  τ.invariant (I := Feed.Ok visibilities) (fun _ act _ hi hs => hs ▸ hi.after act)
    (h ▸ Feed.ok_empty) n

theorem caughtUp_trace (h : τ.state 0 = .empty) (hp : NeverPassed τ) (n : Nat) :
    (τ.state n).CaughtUp visibilities := by
  induction n with
  | zero =>
    rw [h]
    exact fun e he => absurd he List.not_mem_nil
  | succ n ih =>
    have hs : τ.state (n + 1) = (τ.state n).after visibilities (τ.label n) := τ.next n
    rw [hs]
    exact ih.after (ok_trace h n) _ fun transaction hl => hp n transaction hl

/-- A reader that keeps polling goes past every committed row it asks for. -/
theorem eventually_passed (h : τ.state 0 = .empty) (hpoll : τ.Recurs FeedAct.Polls) {n : Nat}
    {e : SyncedEvent} (he : e ∈ (τ.state n).committed) (hr : Requested visibilities e) :
    ∃ m, n ≤ m ∧ e ∈ (τ.state m).committed ∧ e.cursor ≤ (τ.state m).current := by
  by_cases hc : e.cursor ≤ (τ.state n).current
  · exact ⟨n, le_rfl, he, hc⟩
  refine τ.leadsTo (fun w => w.Ok visibilities ∧ e ∈ w.committed ∧ w.current < e.cursor)
    (fun w => e ∈ w.committed ∧ e.cursor ≤ w.current) (fun w => e.cursor - w.current) hpoll ?_ ?_
    ⟨ok_trace h n, he, by omega⟩
  · rintro a act b ⟨hok, ha, hlt⟩ rfl
    obtain ⟨hmono, hkeep, _⟩ := hok.mono act
    by_cases hp : e.cursor ≤ (a.after visibilities act).current
    · exact .inl ⟨hkeep e ha, hp⟩
    · exact .inr ⟨⟨hok.after act, hkeep e ha, by omega⟩, by omega⟩
  · rintro a act b ⟨hok, ha, hlt⟩ ⟨limit, rfl, hl⟩ rfl
    have hmove := Feed.read_moves hl ha hr hlt
    obtain ⟨_, hkeep, _⟩ := hok.mono (.poll limit)
    rw [← Feed.after_poll_of_valid a hl] at hmove
    by_cases hp : e.cursor ≤ (a.after visibilities (.poll limit)).current
    · exact .inl ⟨hkeep e ha, hp⟩
    · exact .inr ⟨⟨hok.after _, hkeep e ha, by omega⟩, by omega⟩

/-- A row that is committed behind the reader is never returned. -/
theorem never_returned (h : τ.state 0 = .empty) {n transaction : Nat}
    {e : SyncedEvent} (he : e ∈ (τ.state n).rowsOf transaction)
    (hle : e.cursor ≤ (τ.state n).current) (m : Nat) : e ∉ (τ.state m).returned := by
  have hnow : e ∉ (τ.state n).returned := fun hm =>
    (ok_trace h n).not_committed he ((ok_trace h n).sound e hm).1
  obtain hmn | hnm := Nat.le_total m n
  · intro hm
    have hlater : (τ.state n).Ok visibilities ∧ e ∈ (τ.state n).returned :=
      τ.later (I := fun w => w.Ok visibilities ∧ e ∈ w.returned)
        (fun _ act _ hi hs => hs ▸ ⟨hi.1.after act, (hi.1.mono act).2.2 e hi.2⟩) hmn
        ⟨ok_trace h m, hm⟩
    exact hnow hlater.2
  · have hlater : (τ.state m).Ok visibilities ∧ (τ.state m).Missed e :=
      τ.later (I := fun w => w.Ok visibilities ∧ w.Missed e)
        (fun _ act _ hi hs => hs ▸ ⟨hi.1.after act, hi.2.after hi.1 act⟩) hnm
        ⟨ok_trace h n, hle, hnow⟩
    exact hlater.2.2

end Traces

theorem feed_delivers_iff {visibilities : Option (List String)}
    (τ : Trace (FeedStep visibilities)) (h : τ.state 0 = .empty)
    (hpoll : τ.Recurs FeedAct.Polls) : Delivers τ ↔ NeverPassed τ := by
  constructor
  · intro hd n transaction hl e he hr
    by_contra hlt
    have hs : τ.state (n + 1) = (τ.state n).after visibilities (.commit transaction) :=
      hl ▸ τ.next n
    have hc : e ∈ (τ.state (n + 1)).committed := hs ▸ List.mem_append_right _ he
    obtain ⟨m, hm⟩ := hd.eventually (n + 1) e hc hr
    exact never_returned h he (Nat.le_of_not_lt hlt) m hm
  · intro hp
    refine ⟨fun n => (ok_trace h n).ordered, fun n => (ok_trace h n).sound, fun n e he hr => ?_⟩
    obtain ⟨m, _, hm, hle⟩ := eventually_passed h hpoll he hr
    exact ⟨m, caughtUp_trace h hp m e hm hr hle⟩

section Schedules

def statesOf (visibilities : Option (List String)) (acts : Nat → FeedAct) : Nat → Feed
  | 0 => .empty
  | n + 1 => (statesOf visibilities acts n).after visibilities (acts n)

/-- The run of a schedule from the empty table. -/
def traceOf (visibilities : Option (List String)) (acts : Nat → FeedAct) :
    Trace (FeedStep visibilities) := ⟨statesOf visibilities acts, acts, fun _ => rfl⟩

/-- The default visibilities of the store's `events_after`. -/
def publicVisibilities : Option (List String) := some ["user", "developer"]

def noted (eventId : String) (taskId : String) : EventFields where
  eventId := eventId
  runId := none
  deviceId := "device-a"
  projectId := none
  conversationId := none
  taskId := some taskId
  versionId := none
  taskSequence := some 1
  schemaVersion := 1
  eventType := "task.noted"
  visibility := "user"
  message := "Noted"
  payload := .null

/-- One transaction, committed before the first poll. -/
def onTime : Trace (FeedStep publicVisibilities) := traceOf publicVisibilities fun
  | 0 => .insert 1 "user-a" (noted "event-a" "task-a") 10
  | 1 => .commit 1
  | _ => .poll (some 500)

theorem feed_delivers_onTime : Delivers onTime := by
  refine (feed_delivers_iff onTime rfl fun n => ⟨n + 2, by omega, some 500, rfl, by decide⟩).mpr ?_
  intro n transaction hl
  match n with
  | 0 => cases hl
  | 1 =>
    cases hl
    decide +kernel
  | n + 2 => cases hl

/-- Two transactions of different tasks: the second commits first and is read, and
the first commits behind the reader. -/
def outOfOrder : Trace (FeedStep publicVisibilities) := traceOf publicVisibilities fun
  | 0 => .insert 1 "user-a" (noted "event-a" "task-a") 10
  | 1 => .insert 2 "user-a" (noted "event-b" "task-b") 11
  | 2 => .commit 2
  | 4 => .commit 1
  | _ => .poll (some 500)

/-- The row that is committed behind the reader. -/
def lateRow : SyncedEvent :=
  { noted "event-a" "task-a" with cursor := 1, userId := "user-a", createdAt := 10 }

theorem feed_skips_late_commit :
    outOfOrder.state 0 = .empty ∧ outOfOrder.Recurs FeedAct.Polls ∧ ¬ Delivers outOfOrder := by
  refine ⟨rfl, fun n => ⟨n + 5, by omega, some 500, rfl, by decide⟩, fun hd => ?_⟩
  have hrow : lateRow ∈ (outOfOrder.state 4).rowsOf 1 := List.mem_cons_self
  have hpassed : lateRow.cursor ≤ (outOfOrder.state 4).current := by decide +kernel
  have hlate : lateRow ∈ (outOfOrder.state 5).committed :=
    List.mem_append_right _ List.mem_cons_self
  obtain ⟨m, hm⟩ := hd.eventually 5 lateRow hlate (by decide)
  exact never_returned rfl hrow hpassed m hm

end Schedules

end Fairy.Sync
