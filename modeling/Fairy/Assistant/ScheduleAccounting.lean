import Fairy.Lib.Run
import Fairy.Assistant.ScheduleEffects

namespace Fairy.Assistant

open Fairy.Lib

/-- The instants of a rule from a first one on, in their order; a one-shot rule has one. -/
inductive Instant (next : ScheduleRule → Time → Except ScheduleError Time) (rule : ScheduleRule)
    (first : Time) : Nat → Time → Prop
  | first : Instant next rule first 0 first
  | next {k : Nat} {t u : Time} (h : Instant next rule first k t)
      (hk : rule.triggerKind ≠ .once) (hu : next rule t = .ok u) : Instant next rule first (k + 1) u

section Advance

variable {next : ScheduleRule → Time → Except ScheduleError Time} {rule : ScheduleRule}
  {first now : Time}

/-- The loop goes through the instants one by one. -/
theorem catchUp_instants {steps k : Nat} {due : Time} {x : Time × Time × Nat}
    (h : catchUp next rule now steps due = .ok x) (hk : rule.triggerKind ≠ .once)
    (hi : Instant next rule first k due) :
    ∃ n, x.2.2 = n + 1 ∧ Instant next rule first (k + n) x.1 ∧
      Instant next rule first (k + n + 1) x.2.1 := by
  induction steps generalizing due k x with
  | zero => cases h
  | succ steps ih =>
    simp only [catchUp] at h
    split at h
    · cases h
    rename_i following hf
    have hn := hi.next hk hf
    split at h
    · obtain ⟨y, hy, rfl⟩ := map_ok h
      obtain ⟨n, hn, hl, hu⟩ := ih hy hn
      refine ⟨n + 1, by simp only [hn], ?_, ?_⟩
      · have he : k + (n + 1) = k + 1 + n := by omega
        rwa [he]
      · have he : k + (n + 1) + 1 = k + 1 + n + 1 := by omega
        rwa [he]
    · cases h
      exact ⟨0, rfl, hi, hn⟩

/-- An advance goes from the next instant to the last one that is due. -/
theorem advance_instants {s : AssistantSchedule} {k : Nat} {a : AssistantScheduleAdvance}
    (h : advanceDueSchedule next s now = .ok (some a))
    (hi : Instant next s.rule first k s.nextFireAt) :
    Instant next s.rule first (k + a.missedCount) a.latestDueAt ∧
      match a.nextFireAt with
      | none => s.triggerKind = .once
      | some t => Instant next s.rule first (k + a.missedCount + 1) t ∧ s.triggerKind ≠ .once := by
  unfold advanceDueSchedule at h
  split at h
  · cases h
  split at h
  · rename_i hk
    cases h
    exact ⟨hi, hk⟩
  · rename_i hk
    obtain ⟨x, hx, he⟩ := map_ok h
    cases he
    obtain ⟨n, hn, hl, hu⟩ := catchUp_instants hx hk hi
    have hm : x.2.2 - 1 = n := by omega
    simp only [hm]
    exact ⟨hl, hu, hk⟩

end Advance

/-- The instants that an occurrence stands for: its own, if the trigger created it, and
those that were merged into it. An occurrence of `run_now` has a key. -/
def AssistantScheduleOccurrence.credit (scheduleId : Uuid) (o : AssistantScheduleOccurrence) :
    Nat :=
  if o.scheduleId = scheduleId then
    if o.idempotencyKey = none then 1 + o.coalescedCount else o.coalescedCount
  else 0

/-- The instants that the occurrences of a schedule stand for. -/
def ScheduleDatabase.accounted (db : ScheduleDatabase) (scheduleId : Uuid) : Nat :=
  (db.occurrences.rows.map (·.credit scheduleId)).sum

/-- No schedule has two pending occurrences. -/
def OnePending (db : ScheduleDatabase) : Prop :=
  ∀ o ∈ db.occurrences, ∀ o' ∈ db.occurrences, o.scheduleId = o'.scheduleId →
    o.status = .pending → o'.status = .pending → o = o'

section Occurrences

variable {db : ScheduleDatabase} {o : AssistantScheduleOccurrence}

theorem onePending_replaced {db' : ScheduleDatabase} {row : AssistantScheduleOccurrence}
    (h : OnePending db) (hrep : Table.Replaces db.occurrences db'.occurrences row o)
    (hclash : ∀ y ∈ db.occurrences, y.id ≠ o.id → ¬ Clash y o) : OnePending db' := by
  have hother : ∀ y ∈ db.occurrences, y.id ≠ row.id → y.scheduleId = o.scheduleId →
      y.status = .pending → o.status ≠ .pending := by
    intro y hy hne hid hp hp'
    exact hclash y hy (fun he => hne (he.trans hrep.2.1)) ⟨hid, .inr (.inl ⟨hp, hp'⟩)⟩
  intro a ha b hb hid hpa hpb
  obtain rfl | ⟨ha, hna⟩ := hrep.cases ha <;> obtain rfl | ⟨hb, hnb⟩ := hrep.cases hb
  · rfl
  · exact absurd hpa (hother b hb hnb hid.symm hpb)
  · exact absurd hpb (hother a ha hna hid hpa)
  · exact h a ha b hb hid hpa hpb

theorem onePending_inserted {db' : ScheduleDatabase} (h : OnePending db)
    (hrows : db'.occurrences.rows = db.occurrences.rows ++ [o])
    (hclash : ∀ y ∈ db.occurrences, ¬ Clash y o) : OnePending db' := by
  have hother : ∀ y ∈ db.occurrences, y.scheduleId = o.scheduleId → y.status = .pending →
      o.status ≠ .pending := fun y hy hid hp hp' => hclash y hy ⟨hid, .inr (.inl ⟨hp, hp'⟩)⟩
  intro a ha b hb hid hpa hpb
  obtain ha | ha := (Table.mem_of_rows_append hrows).mp ha <;>
    obtain hb | hb := (Table.mem_of_rows_append hrows).mp hb
  · exact h a ha b hb hid hpa hpb
  · obtain rfl := List.mem_singleton.mp hb
    exact absurd hpb (hother a ha hid hpa)
  · obtain rfl := List.mem_singleton.mp ha
    exact absurd hpa (hother b hb hid.symm hpb)
  · rw [List.mem_singleton.mp ha, List.mem_singleton.mp hb]

/-- What an insert of an occurrence does. -/
theorem ScheduleDatabase.insertOccurrence_ok {x : AssistantScheduleOccurrence × ScheduleDatabase}
    (h : db.insertOccurrence o = .ok x) (hone : OnePending db) :
    x.1 = o ∧ o ∈ x.2.occurrences ∧ x.2.schedules = db.schedules ∧ OnePending x.2 ∧
      ∀ i, x.2.accounted i = db.accounted i + o.credit i := by
  unfold ScheduleDatabase.insertOccurrence at h
  split at h
  · cases h
  rename_i hclash
  split at h
  · cases h
  · rename_i occurrences hins
    cases h
    obtain ⟨hrows, _⟩ := Table.insertAll_eq_some hins
    refine ⟨rfl, (Table.mem_of_rows_append hrows).mpr (.inr List.mem_cons_self), rfl,
      onePending_inserted hone hrows fun y hy hc => hclash ⟨y, hy, hc⟩, fun i => ?_⟩
    simp [ScheduleDatabase.accounted, hrows]

/-- What a save of an occurrence does to the row that was read. -/
theorem ScheduleDatabase.saveOccurrence_ok {expectedStatus : AssistantOccurrenceStatus}
    {row : AssistantScheduleOccurrence} {x : AssistantScheduleOccurrence × ScheduleDatabase}
    (h : db.saveOccurrence o expectedStatus = .ok x) (hrow : row ∈ db.occurrences)
    (hid : o.id = row.id) (hone : OnePending db) :
    x.1 = o ∧ o ∈ x.2.occurrences ∧ x.2.schedules = db.schedules ∧ OnePending x.2 ∧
      ∀ i, x.2.accounted i + row.credit i = db.accounted i + o.credit i := by
  simp only [ScheduleDatabase.saveOccurrence] at h
  split at h
  · cases h
  rename_i hlen
  push Not at hlen
  split at h
  · cases h
  rename_i hclash
  obtain ⟨r, hr⟩ := List.length_eq_one_iff.mp hlen
  have hsel : r ∈ db.occurrences ∧ r.id = o.id ∧ r.scheduleId = o.scheduleId ∧
      r.status = expectedStatus := Table.mem_select.mp (hr ▸ List.mem_singleton_self r)
  obtain ⟨hm, hp⟩ := hsel
  obtain rfl := Table.eq_of_key hm hrow (hp.1.trans hid)
  have hsame : { o with id := r.id } = o := by rw [hp.1]
  have hrep : Table.Replaces db.occurrences (db.occurrences.update
      (fun r : AssistantScheduleOccurrence => r.id = o.id ∧ r.scheduleId = o.scheduleId ∧
        r.status = expectedStatus) fun r => { o with id := r.id }) r { o with id := r.id } :=
    Table.replaces_update Table.rows_update hm hp (fun b _ hb => hb.1.trans hp.1.symm) rfl
  have hsum := fun i => Table.sum_update (t := db.occurrences)
    (fun r : AssistantScheduleOccurrence => r.credit i) (f := fun r => { o with id := r.id })
    (u := db.occurrences.update (fun r : AssistantScheduleOccurrence => r.id = o.id ∧
      r.scheduleId = o.scheduleId ∧ r.status = expectedStatus) fun r => { o with id := r.id })
    Table.rows_update hm hp (fun b _ hb => hb.1.trans hp.1.symm)
  rw [hsame] at hrep
  split at h
  · cases h
  · rename_i persisted hfind
    cases h
    obtain ⟨hpm, hpid⟩ := Table.find?_eq_some.mp hfind
    refine ⟨Table.eq_of_key hpm hrep.mem hpid, hrep.mem, rfl,
      onePending_replaced hone hrep fun y hy hne hc => hclash ⟨y, hy, hne, hc⟩, fun i => ?_⟩
    have hi := hsum i
    simp only [hsame] at hi
    exact hi

end Occurrences

section Process

variable {db : ScheduleDatabase} {s s' : AssistantSchedule} {now : Time}

theorem getPendingOccurrence_some {scheduleId : Uuid} {o : AssistantScheduleOccurrence}
    (h : db.getPendingOccurrence scheduleId = some o) :
    o ∈ db.occurrences ∧ o.scheduleId = scheduleId ∧ o.status = .pending := by
  have hm := List.mem_of_mem_head? h
  rw [List.mem_insertionSort, Table.mem_select] at hm
  exact ⟨hm.1, hm.2.1, List.mem_singleton.mp hm.2.2⟩

/-- The instants of an advance find a place: no occurrence is pending and none stands at
the last of them, or one is pending that stands before it. -/
def Placed (db : ScheduleDatabase) (scheduleId : Uuid) (a : AssistantScheduleAdvance) : Prop :=
  match db.getPendingOccurrence scheduleId with
  | none => db.getOccurrenceAt scheduleId a.latestDueAt = none
  | some pending => pending.scheduledFor < a.latestDueAt

/-- Instants that find a place are counted. -/
theorem takeInstants_ok {newId : Uuid} {a : AssistantScheduleAdvance}
    {x : AssistantScheduleOccurrence × ScheduleDatabase}
    (h : db.takeInstants s now newId a = .ok x) (hp : Placed db s.id a) (hone : OnePending db) :
    x.1 ∈ x.2.occurrences ∧ x.2.schedules = db.schedules ∧ OnePending x.2 ∧
      ∀ i, x.2.accounted i = db.accounted i + if i = s.id then a.missedCount + 1 else 0 := by
  unfold ScheduleDatabase.takeInstants at h
  unfold Placed at hp
  split at h
  · rename_i hnone
    rw [hnone] at hp
    simp only [ScheduleDatabase.createOccurrence, AssistantScheduleOccurrence.newPending,
      Option.bind_none, hp] at h
    obtain ⟨he, hm, hs, ho, hsum⟩ := ScheduleDatabase.insertOccurrence_ok h hone
    refine ⟨he ▸ hm, hs, ho, fun i => ?_⟩
    rw [hsum i]
    by_cases hi : i = s.id
    · simp [AssistantScheduleOccurrence.credit, hi, Nat.add_comm]
    · simp [AssistantScheduleOccurrence.credit, hi, Ne.symm hi]
  · rename_i pending hpending
    rw [hpending] at hp
    obtain ⟨hm, hid, _⟩ := getPendingOccurrence_some hpending
    rw [if_pos hp] at h
    split at h
    · cases h
    rename_i merged hmerged
    unfold AssistantScheduleOccurrence.coalesce at hmerged
    split at hmerged
    · cases hmerged
    split at hmerged
    · cases hmerged
    cases hmerged
    obtain ⟨he, hmem, hs, ho, hsum⟩ := ScheduleDatabase.saveOccurrence_ok h hm rfl hone
    refine ⟨he ▸ hmem, hs, ho, fun i => ?_⟩
    have hi := hsum i
    simp only [AssistantScheduleOccurrence.credit, hid] at hi
    by_cases hsi : i = s.id
    · rw [if_pos hsi]
      rw [if_pos hsi.symm, if_pos hsi.symm] at hi
      split at hi <;> omega
    · rw [if_neg hsi]
      rw [if_neg (Ne.symm hsi), if_neg (Ne.symm hsi)] at hi
      omega

/-- The rows of the occurrences keep what they stand for. -/
def Uncounted (db db' : ScheduleDatabase) : Prop :=
  OnePending db' ∧ ∀ i, db'.accounted i = db.accounted i

/-- A save that keeps the schedule, the key and the count of a row counts nothing. -/
theorem saveOccurrence_uncounted {o row : AssistantScheduleOccurrence}
    {expectedStatus : AssistantOccurrenceStatus}
    {x : AssistantScheduleOccurrence × ScheduleDatabase}
    (h : db.saveOccurrence o expectedStatus = .ok x) (hrow : row ∈ db.occurrences)
    (hid : o.id = row.id) (hcredit : ∀ i, o.credit i = row.credit i) (hone : OnePending db) :
    x.2.schedules = db.schedules ∧ Uncounted db x.2 := by
  obtain ⟨_, _, hs, ho, hsum⟩ := ScheduleDatabase.saveOccurrence_ok h hrow hid hone
  refine ⟨hs, ho, fun i => ?_⟩
  have hi := hsum i
  rw [hcredit i] at hi
  omega

theorem dispatch_credit {o o' : AssistantScheduleOccurrence} {turnId workflowRunId : Uuid}
    (h : o.dispatch turnId workflowRunId now = .ok o') :
    o'.id = o.id ∧ ∀ i, o'.credit i = o.credit i := by
  unfold AssistantScheduleOccurrence.dispatch at h
  split at h
  · cases h
  · cases h
    exact ⟨rfl, fun _ => rfl⟩

/-- The columns that tell where a schedule stands among its instants. -/
def SamePlace (s s' : AssistantSchedule) : Prop :=
  s'.id = s.id ∧ s'.rule = s.rule ∧ s'.nextFireAt = s.nextFireAt ∧
    s'.lastFireAt = s.lastFireAt ∧ (s'.status = .completed ↔ s.status = .completed)

theorem SamePlace.refl (s : AssistantSchedule) : SamePlace s s := ⟨rfl, rfl, rfl, rfl, Iff.rfl⟩

theorem SamePlace.trans {a b c : AssistantSchedule} (h : SamePlace a b) (h' : SamePlace b c) :
    SamePlace a c :=
  ⟨h'.1.trans h.1, h'.2.1.trans h.2.1, h'.2.2.1.trans h.2.2.1, h'.2.2.2.1.trans h.2.2.2.1,
    h'.2.2.2.2.trans h.2.2.2.2⟩

theorem samePlace_attended {code : String} (h : s.attended code now = .ok s') :
    SamePlace s s' := by
  unfold AssistantSchedule.attended at h
  split at h
  · rename_i ha
    unfold AssistantSchedule.pause at h
    rw [ha] at h
    cases h
    exact ⟨rfl, rfl, rfl, rfl, by simp [ha]⟩
  · cases h
    exact ⟨rfl, rfl, rfl, rfl, Iff.rfl⟩

theorem dispatchPending_ok {pending : AssistantScheduleOccurrence} {answer : DispatchAnswer}
    {x : AssistantScheduleOccurrence × AssistantSchedule × ScheduleDatabase}
    (h : db.dispatchPending s pending now answer = .ok x) (hm : pending ∈ db.occurrences)
    (hone : OnePending db) :
    x.2.2.schedules = db.schedules ∧ Uncounted db x.2.2 ∧ SamePlace s x.2.1 := by
  unfold ScheduleDatabase.dispatchPending at h
  split at h
  · cases h
    exact ⟨rfl, ⟨hone, fun _ => rfl⟩, .refl s⟩
  · split at h
    · cases h
    rename_i dispatched hd
    obtain ⟨y, hy, rfl⟩ := map_ok h
    obtain ⟨hid, hcredit⟩ := dispatch_credit hd
    obtain ⟨hs, hu⟩ := saveOccurrence_uncounted hy hm hid hcredit hone
    exact ⟨hs, hu, .refl s⟩
  · split at h
    · cases h
    rename_i db' hsave
    obtain ⟨y, hy, rfl⟩ := map_ok h
    obtain ⟨hs, hu⟩ := saveOccurrence_uncounted hsave hm rfl (fun _ => rfl) hone
    exact ⟨hs, hu, samePlace_attended hy⟩

end Process

section Places

variable (next : ScheduleRule → Time → Except ScheduleError Time)

/-- A schedule that began as the first one has gone through `k` of its instants. -/
structure StandsAt (s₀ s : AssistantSchedule) (k : Nat) : Prop where
  rule : s.rule = s₀.rule
  last : match s.lastFireAt with
    | none => k = 0
    | some t => ∃ j, k = j + 1 ∧ Instant next s₀.rule s₀.nextFireAt j t
  upcoming : s.status ≠ .completed → Instant next s₀.rule s₀.nextFireAt k s.nextFireAt

variable {next} {s₀ s s' : AssistantSchedule} {k : Nat} {now : Time}

theorem StandsAt.same (h : StandsAt next s₀ s k) (hs : SamePlace s s') : StandsAt next s₀ s' k := by
  obtain ⟨_, hrule, hnext, hlast, hstatus⟩ := hs
  refine ⟨hrule.trans h.rule, hlast ▸ h.last, fun hc => ?_⟩
  rw [hnext]
  exact h.upcoming fun hc' => hc (hstatus.mpr hc')

/-- An advance goes through the instants that it counts. -/
theorem StandsAt.advanced (h : StandsAt next s₀ s k) {a : AssistantScheduleAdvance}
    (ha : dueAdvance next s now = .ok (some a)) :
    StandsAt next s₀ (s.advanced (some a) now) (k + a.missedCount + 1) := by
  unfold dueAdvance at ha
  split at ha
  · rename_i hactive
    have hup := h.upcoming (by rw [hactive]; decide)
    rw [← h.rule] at hup
    obtain ⟨hlast, hnext⟩ := advance_instants ha hup
    refine ⟨h.rule, ⟨k + a.missedCount, rfl, h.rule ▸ hlast⟩, fun hc => ?_⟩
    simp only [AssistantSchedule.advanced] at hc ⊢
    cases hn : a.nextFireAt with
    | none => simp [hn] at hc
    | some t =>
      rw [hn] at hnext
      exact h.rule ▸ hnext.1
  · cases ha

end Places

/-- One operation of the trigger, its dispatcher, its runner or `run_now`. -/
inductive TriggerAct
  | claimReady (workerId : String) (locked : List Uuid) (now leaseUntil : Time) (limit : Nat)
  /-- `_process_claim`; it may find at `settle_claim` that the claim was lost. -/
  | processClaim (claim : AssistantScheduleClaim) (now : Time) (newId : Uuid)
      (answer : DispatchAnswer) (lost : Bool)
  | abandon (claim : AssistantScheduleClaim)
  | runNow (scheduleId : Uuid) (expectedRevision : Nat) (idempotencyKey : String) (now : Time)
      (newId : Uuid)
  | dispatch (occurrenceId : Uuid) (now : Time) (answer : DispatchAnswer)
  | recordOutcome (occurrenceId : Uuid) (status : AssistantOccurrenceStatus)
      (publicError attentionCode : Option String) (now : Time)

/-- What is committed: nothing, if the operation raises. -/
def committed {α : Type} (db : ScheduleDatabase)
    (x : Except ScheduleError (α × ScheduleDatabase)) : ScheduleDatabase :=
  match x with
  | .ok (_, db) => db
  | .error _ => db

section Machine

variable (next : ScheduleRule → Time → Except ScheduleError Time)

def ScheduleDatabase.after (db : ScheduleDatabase) : TriggerAct → ScheduleDatabase
  | .claimReady workerId locked now leaseUntil limit =>
    committed db (db.claimReady workerId locked now leaseUntil limit)
  | .processClaim claim now newId answer lost =>
    if lost then db else committed db (db.processClaim next claim now newId answer)
  | .abandon claim => (db.abandonClaim claim).2
  | .runNow scheduleId expectedRevision idempotencyKey now newId =>
    committed db (db.runNow scheduleId expectedRevision idempotencyKey now newId)
  | .dispatch occurrenceId now answer =>
    committed db ((db.dispatchOccurrence occurrenceId now answer).map fun db => ((), db))
  | .recordOutcome occurrenceId status publicError attentionCode now =>
    committed db (db.recordOutcome occurrenceId status publicError attentionCode now)

def TriggerStep (db : ScheduleDatabase) (act : TriggerAct) (db' : ScheduleDatabase) : Prop :=
  db' = db.after next act

/-- The instants that a claim is processed for find a place. -/
def InstantsPlaced (db : ScheduleDatabase) : TriggerAct → Prop
  | .processClaim claim now _ _ lost => lost = false → ∀ s ∈ db.schedules,
      s.id = claim.scheduleId → Current claim s → ∀ a, dueAdvance next s now = .ok (some a) →
      Placed db s.id a
  | _ => True

/-- Nothing has happened yet. -/
def Fresh (db : ScheduleDatabase) : Prop :=
  (∀ s ∈ db.schedules, s.lastFireAt = none) ∧ db.occurrences.rows = []

/-- Between the first instant of a schedule and the last one it has fired at there are
as many instants as its occurrences stand for, and it has one pending occurrence at most. -/
structure InstantsAccounted (db₀ db : ScheduleDatabase) : Prop where
  counted : ∀ s ∈ db.schedules, ∃ s₀ ∈ db₀.schedules, s₀.id = s.id ∧
    match s.lastFireAt with
    | none => db.accounted s.id = 0
    | some t => ∃ j, db.accounted s.id = j + 1 ∧ Instant next s₀.rule s₀.nextFireAt j t
  one : OnePending db

end Machine

section Invariant

variable {next : ScheduleRule → Time → Except ScheduleError Time} {db₀ db db' : ScheduleDatabase}

/-- The invariant. -/
def Accounts (next : ScheduleRule → Time → Except ScheduleError Time)
    (db₀ db : ScheduleDatabase) : Prop :=
  OnePending db ∧ ∀ s ∈ db.schedules, ∃ s₀ ∈ db₀.schedules, s₀.id = s.id ∧
    StandsAt next s₀ s (db.accounted s.id)

/-- The schedules stand where they stood. -/
def SamePlaces (db db' : ScheduleDatabase) : Prop :=
  ∀ s' ∈ db'.schedules, ∃ s ∈ db.schedules, SamePlace s s'

theorem SamePlaces.of_eq (h : db'.schedules = db.schedules) : SamePlaces db db' := by
  intro s hs
  rw [h] at hs
  exact ⟨s, hs, .refl s⟩

theorem SamePlaces.replaced {row row' : AssistantSchedule}
    (h : Table.Replaces db.schedules db'.schedules row row') (hs : SamePlace row row') :
    SamePlaces db db' := by
  intro s hm
  obtain rfl | ⟨hm, _⟩ := h.cases hm
  · exact ⟨row, h.1, hs⟩
  · exact ⟨s, hm, .refl s⟩

theorem SamePlaces.trans {a b c : ScheduleDatabase} (h : SamePlaces a b) (h' : SamePlaces b c) :
    SamePlaces a c := by
  intro s hs
  obtain ⟨t, ht, hts⟩ := h' s hs
  obtain ⟨u, hu, hut⟩ := h t ht
  exact ⟨u, hu, hut.trans hts⟩

theorem uncounted_of_eq (h : db'.occurrences = db.occurrences) (hone : OnePending db) :
    Uncounted db db' := by
  refine ⟨?_, fun i => by rw [ScheduleDatabase.accounted, h, ScheduleDatabase.accounted]⟩
  unfold OnePending
  rw [h]
  exact hone

/-- An operation that moves no schedule and counts nothing keeps the accounts. -/
theorem Accounts.same (h : Accounts next db₀ db) (hs : SamePlaces db db')
    (hu : Uncounted db db') : Accounts next db₀ db' := by
  refine ⟨hu.1, fun s' hs' => ?_⟩
  obtain ⟨s, hm, hsame⟩ := hs s' hs'
  obtain ⟨s₀, hm₀, hid₀, hat⟩ := h.2 s hm
  refine ⟨s₀, hm₀, hid₀.trans hsame.1.symm, ?_⟩
  rw [hu.2, hsame.1]
  exact hat.same hsame

theorem samePlaces_claimRows (worker : String) (now leaseUntil : Time)
    (rows : List AssistantSchedule) (db : ScheduleDatabase) :
    SamePlaces db (ScheduleDatabase.claimRows worker now leaseUntil rows db).2 ∧
      (ScheduleDatabase.claimRows worker now leaseUntil rows db).2.occurrences =
        db.occurrences := by
  induction rows generalizing db with
  | nil => exact ⟨.of_eq rfl, rfl⟩
  | cons row rows ih =>
    simp only [ScheduleDatabase.claimRows]
    split
    · exact ih db
    · rename_i claim db' hclaim
      obtain ⟨r, _, _, hrep, _, hocc⟩ := ScheduleDatabase.claimRow_some hclaim
      obtain ⟨hs, ho⟩ := ih db'
      have hfirst : SamePlaces db db' := .replaced hrep ⟨rfl, rfl, rfl, rfl, Iff.rfl⟩
      exact ⟨hfirst.trans hs, ho.trans hocc⟩

theorem samePlace_pausedBy (s : AssistantSchedule) (now : Time) :
    SamePlace s (s.pausedBy now) := by
  unfold AssistantSchedule.pausedBy
  split
  · rename_i ha
    exact ⟨rfl, rfl, rfl, rfl, by simp [ha]⟩
  · exact .refl s

theorem samePlace_outcomeRecorded (s : AssistantSchedule) (outcome : AssistantOccurrenceStatus)
    (code : String) (now : Time) : SamePlace s (s.outcomeRecorded outcome code now) := by
  have hpause : ∀ r : AssistantSchedule, ∀ code, SamePlace s r →
      SamePlace s { r.pausedBy now with attentionCode := some code } := fun r code hr =>
    hr.trans ((samePlace_pausedBy r now).trans ⟨rfl, rfl, rfl, rfl, Iff.rfl⟩)
  cases outcome with
  | succeeded => exact ⟨rfl, rfl, rfl, rfl, Iff.rfl⟩
  | failed =>
    simp only [AssistantSchedule.outcomeRecorded]
    split
    · exact hpause _ _ ⟨rfl, rfl, rfl, rfl, Iff.rfl⟩
    · exact ⟨rfl, rfl, rfl, rfl, Iff.rfl⟩
  | attentionRequired => exact hpause _ _ ⟨rfl, rfl, rfl, rfl, Iff.rfl⟩
  | pending => exact ⟨rfl, rfl, rfl, rfl, Iff.rfl⟩
  | dispatched => exact ⟨rfl, rfl, rfl, rfl, Iff.rfl⟩
  | cancelled => exact ⟨rfl, rfl, rfl, rfl, Iff.rfl⟩
  | coalesced => exact ⟨rfl, rfl, rfl, rfl, Iff.rfl⟩

theorem Accounts.recordOutcome (h : Accounts next db₀ db) {occurrenceId : Uuid}
    {status : AssistantOccurrenceStatus} {publicError attentionCode : Option String} {now : Time}
    {x : AssistantScheduleOccurrence × ScheduleDatabase}
    (hx : db.recordOutcome occurrenceId status publicError attentionCode now = .ok x) :
    Accounts next db₀ x.2 := by
  unfold ScheduleDatabase.recordOutcome at hx
  split at hx
  · cases hx
  rename_i o ho
  have hm := (Table.find?_eq_some.mp ho).1
  split at hx
  · cases hx
    exact h
  split at hx
  · cases hx
  rename_i settled hsettled
  have hsame : settled.id = o.id ∧ ∀ i, settled.credit i = o.credit i := by
    unfold AssistantScheduleOccurrence.settle at hsettled
    split at hsettled
    · cases hsettled
    split at hsettled
    · cases hsettled
    split at hsettled
    · cases hsettled
    · cases hsettled
      exact ⟨rfl, fun _ => rfl⟩
  simp only [ScheduleDatabase.recordOccurrenceOutcome] at hx
  split at hx
  · cases hx
  split at hx
  · cases hx
  rename_i persisted db₁ hsave
  obtain ⟨hs, hu⟩ := saveOccurrence_uncounted hsave hm hsame.1 hsame.2 h.1
  split at hx
  · cases hx
  · cases hx
  rename_i schedule at_ hfind _
  split at hx
  · cases hx
  cases hx
  have hsched := (Table.find?_eq_some.mp hfind).1
  have hfirst := h.same (.of_eq hs) hu
  have hrep : Table.Replaces db₁.schedules (db₁.schedules.update
      (fun r : AssistantSchedule => r.id = schedule.id) fun r =>
        { schedule.outcomeRecorded settled.status
            (Text.strip ((attentionCode.filter (· ≠ "")).getD "CONTEXT_INVALID")) at_ with
          id := r.id }) schedule
      { schedule.outcomeRecorded settled.status
          (Text.strip ((attentionCode.filter (· ≠ "")).getD "CONTEXT_INVALID")) at_ with
        id := schedule.id } :=
    Table.replaces_update Table.rows_update hsched rfl (fun _ _ hb => hb) rfl
  refine hfirst.same (.replaced hrep ?_) (uncounted_of_eq rfl hu.1)
  obtain ⟨_, hr⟩ := samePlace_outcomeRecorded schedule settled.status
    (Text.strip ((attentionCode.filter (· ≠ "")).getD "CONTEXT_INVALID")) at_
  exact ⟨rfl, hr⟩

theorem Accounts.dispatchOccurrence (h : Accounts next db₀ db) {occurrenceId : Uuid} {now : Time}
    {answer : DispatchAnswer} (hx : db.dispatchOccurrence occurrenceId now answer = .ok db') :
    Accounts next db₀ db' := by
  unfold ScheduleDatabase.dispatchOccurrence at hx
  split at hx
  · cases hx
    exact h
  rename_i o ho
  have hm := (Table.find?_eq_some.mp ho).1
  split at hx
  · cases hx
    exact h
  split at hx
  · cases hx
    exact h
  · split at hx
    · cases hx
    rename_i dispatched hd
    obtain ⟨y, hy, rfl⟩ := map_ok hx
    obtain ⟨hid, hcredit⟩ := dispatch_credit hd
    obtain ⟨hs, hu⟩ := saveOccurrence_uncounted hy hm hid hcredit h.1
    exact h.same (.of_eq hs) hu
  · split at hx
    · cases hx
    rename_i db₁ hsave
    obtain ⟨hs, hu⟩ := saveOccurrence_uncounted hsave hm rfl (fun _ => rfl) h.1
    have hfirst := h.same (.of_eq hs) hu
    split at hx
    · cases hx
      exact hfirst
    rename_i s hfind
    split at hx
    · cases hx
      exact hfirst
    split at hx
    · cases hx
    rename_i s' hattended
    obtain ⟨y, hy, rfl⟩ := map_ok hx
    obtain ⟨row, hid, _, hrep, hocc⟩ := ScheduleDatabase.save_ok hy
    have hsame := samePlace_attended hattended
    have hrow : row = s :=
      Table.eq_of_key hrep.1 (Table.find?_eq_some.mp hfind).1 (hid.trans hsame.1)
    subst hrow
    exact hfirst.same (.replaced hrep hsame) (uncounted_of_eq hocc hu.1)

theorem Accounts.runNow (h : Accounts next db₀ db) {scheduleId newId : Uuid}
    {expectedRevision : Nat} {idempotencyKey : String} {now : Time}
    {x : AssistantScheduleOccurrence × ScheduleDatabase}
    (hx : db.runNow scheduleId expectedRevision idempotencyKey now newId = .ok x) :
    Accounts next db₀ x.2 := by
  simp only [ScheduleDatabase.runNow] at hx
  split at hx
  · cases hx
  split at hx
  · cases hx
    exact h
  split at hx
  · cases hx
  split at hx
  · cases hx
  unfold ScheduleDatabase.createOccurrence at hx
  split at hx
  · cases hx
    exact h
  split at hx
  · cases hx
    exact h
  · obtain ⟨_, _, hs, ho, hsum⟩ := ScheduleDatabase.insertOccurrence_ok hx h.1
    refine h.same (.of_eq hs) ⟨ho, fun i => ?_⟩
    rw [hsum i]
    simp [AssistantScheduleOccurrence.credit, AssistantScheduleOccurrence.newPending]

/-- What a claim is settled with: the row read, through the instants of its advance. -/
theorem prepareClaim_ok {s : AssistantSchedule} {now : Time} {newId : Uuid}
    {answer : DispatchAnswer}
    {x : Option AssistantScheduleOccurrence × AssistantSchedule × ScheduleDatabase}
    (hx : db.prepareClaim next s now newId answer = .ok x) (hone : OnePending db)
    (hp : ∀ a, dueAdvance next s now = .ok (some a) → Placed db s.id a) :
    ∃ advance, dueAdvance next s now = .ok advance ∧
      x.2.2.schedules = db.schedules ∧ OnePending x.2.2 ∧
      SamePlace (s.advanced advance now) x.2.1 ∧
      ∀ i, x.2.2.accounted i = db.accounted i +
        if i = s.id then (advance.map fun a => a.missedCount + 1).getD 0 else 0 := by
  unfold ScheduleDatabase.prepareClaim at hx
  split at hx
  · cases hx
  rename_i advance hadvance
  refine ⟨advance, hadvance, ?_⟩
  have htaken : ∀ y, db.pendingAfter s now newId advance = .ok y →
      (∀ o, y.1 = some o → o ∈ y.2.occurrences) ∧ y.2.schedules = db.schedules ∧
        OnePending y.2 ∧ ∀ i, y.2.accounted i = db.accounted i +
          if i = s.id then (advance.map fun a => a.missedCount + 1).getD 0 else 0 := by
    intro y hy
    cases advance with
    | none =>
      cases hy
      exact ⟨fun o ho => (getPendingOccurrence_some ho).1, rfl, hone, fun i => by simp⟩
    | some a =>
      obtain ⟨z, hz, rfl⟩ := map_ok hy
      obtain ⟨hm, hs, ho, hsum⟩ := takeInstants_ok hz (hp a hadvance) hone
      exact ⟨fun o hso => Option.some.inj hso ▸ hm, hs, ho, hsum⟩
  split at hx
  · cases hx
  · rename_i db₁ hpending
    cases hx
    obtain ⟨_, hs, ho, hsum⟩ := htaken _ hpending
    exact ⟨hs, ho, .refl _, hsum⟩
  · rename_i pending db₁ hpending
    obtain ⟨hm, hs, ho, hsum⟩ := htaken _ hpending
    obtain ⟨y, hy, rfl⟩ := map_ok hx
    obtain ⟨hs', hu, hsame⟩ := dispatchPending_ok hy (hm pending rfl) ho
    exact ⟨hs'.trans hs, hu.1, hsame, fun i => (hu.2 i).trans (hsum i)⟩

theorem StandsAt.settled {s₀ s s' : AssistantSchedule} {k : Nat} {now : Time}
    {advance : Option AssistantScheduleAdvance} (h : StandsAt next s₀ s k)
    (ha : dueAdvance next s now = .ok advance) (hs : SamePlace (s.advanced advance now) s') :
    StandsAt next s₀ s' (k + (advance.map fun a => a.missedCount + 1).getD 0) := by
  cases advance with
  | none => exact h.same hs
  | some a => exact (h.advanced ha).same hs

theorem Accounts.processClaim (h : Accounts next db₀ db) {claim : AssistantScheduleClaim}
    {now : Time} {newId : Uuid} {answer : DispatchAnswer}
    {x : (Bool × Option Uuid) × ScheduleDatabase}
    (hx : db.processClaim next claim now newId answer = .ok x)
    (hp : ∀ s ∈ db.schedules, s.id = claim.scheduleId → Current claim s →
      ∀ a, dueAdvance next s now = .ok (some a) → Placed db s.id a) : Accounts next db₀ x.2 := by
  unfold ScheduleDatabase.processClaim at hx
  split at hx
  · cases hx
    exact h
  rename_i s hfind
  obtain ⟨hm, hid⟩ := Table.find?_eq_some.mp hfind
  split at hx
  · cases hx
    exact h
  rename_i hcurrent
  push Not at hcurrent
  split at hx
  · cases hx
  rename_i pending s₁ prepared hprepare
  obtain ⟨advance, hadvance, hs, ho, hsame, hsum⟩ :=
    prepareClaim_ok hprepare h.1 (hp s hm hid hcurrent)
  split at hx
  · cases hx
  · cases hx
    exact h
  rename_i settled hsettle
  cases hx
  obtain hlost | ⟨row, hrow, _, hrep, _, hocc⟩ := ScheduleDatabase.settleClaim_cases hsettle
  · cases hlost
  have haccounted : ∀ i, settled.accounted i = prepared.accounted i := fun i => by
    rw [ScheduleDatabase.accounted, hocc, ScheduleDatabase.accounted]
  have hone : OnePending settled := (uncounted_of_eq hocc ho).1
  refine ⟨hone, fun s' hs' => ?_⟩
  rw [haccounted, hsum]
  have hrowid : row.id = s.id := hrow.1.trans hid.symm
  obtain rfl | ⟨hs', hne⟩ := hrep.cases hs'
  · obtain ⟨s₀, hm₀, hid₀, hat⟩ := h.2 s hm
    have hid' : s₁.released.id = s.id := hrep.2.1.trans hrowid
    refine ⟨s₀, hm₀, hid₀.trans hid'.symm, ?_⟩
    rw [hid', if_pos rfl]
    exact hat.settled hadvance (hsame.trans ⟨rfl, rfl, rfl, rfl, Iff.rfl⟩)
  · rw [hs] at hs'
    have hne' : s'.id ≠ s.id := fun he => hne (he.trans hrowid.symm)
    rw [if_neg hne']
    exact h.2 s' hs'

theorem Accounts.after (h : Accounts next db₀ db) {act : TriggerAct}
    (hp : InstantsPlaced next db act) : Accounts next db₀ (db.after next act) := by
  cases act with
  | claimReady workerId locked now leaseUntil limit =>
    simp only [ScheduleDatabase.after, committed]
    split
    · rename_i db' hx
      simp only [ScheduleDatabase.claimReady] at hx
      split at hx
      · cases hx
      split at hx
      · cases hx
      split at hx
      · cases hx
      have he := congrArg Prod.snd (Except.ok.inj hx)
      obtain ⟨hs, ho⟩ := samePlaces_claimRows (Text.strip workerId) now leaseUntil
        (db.claimableSchedules locked now limit) db
      rw [he] at hs ho
      exact h.same hs (uncounted_of_eq ho h.1)
    · exact h
  | processClaim claim now newId answer lost =>
    simp only [ScheduleDatabase.after, committed]
    split
    · exact h
    rename_i hlost
    split
    · rename_i hx
      exact h.processClaim hx (hp (by simpa using hlost))
    · exact h
  | abandon claim =>
    obtain he | ⟨_, row, _, hrep⟩ := ScheduleDatabase.abandonClaim_cases db claim
    · simp only [ScheduleDatabase.after, he]
      exact h
    · exact h.same (.replaced hrep ⟨rfl, rfl, rfl, rfl, Iff.rfl⟩) (uncounted_of_eq rfl h.1)
  | runNow scheduleId expectedRevision idempotencyKey now newId =>
    simp only [ScheduleDatabase.after, committed]
    split
    · rename_i hx
      exact h.runNow hx
    · exact h
  | dispatch occurrenceId now answer =>
    simp only [ScheduleDatabase.after, committed]
    split
    · rename_i hx
      obtain ⟨_, hy, he⟩ := map_ok hx
      cases he
      exact h.dispatchOccurrence hy
    · exact h
  | recordOutcome occurrenceId status publicError attentionCode now =>
    simp only [ScheduleDatabase.after, committed]
    split
    · rename_i hx
      exact h.recordOutcome hx
    · exact h

theorem accounts_fresh (hf : Fresh db₀) : Accounts next db₀ db₀ := by
  refine ⟨fun o ho => ?_, fun s hs => ⟨s, hs, rfl, ?_⟩⟩
  · rw [Table.mem_iff, hf.2] at ho
    cases ho
  · have hzero : db₀.accounted s.id = 0 := by simp [ScheduleDatabase.accounted, hf.2]
    rw [hzero]
    refine ⟨rfl, ?_, fun _ => .first⟩
    rw [hf.1 s hs]

theorem Accounts.accounted (h : Accounts next db₀ db) : InstantsAccounted next db₀ db := by
  refine ⟨fun s hs => ?_, h.1⟩
  obtain ⟨s₀, hm₀, hid₀, hat⟩ := h.2 s hs
  exact ⟨s₀, hm₀, hid₀, hat.last⟩

/-- In every run of the trigger, its dispatcher, its runner and `run_now` whose instants
find a place, each instant is accounted for once. -/
theorem schedule_instants_accounted
    (h : Run (TriggerStep next) (InstantsPlaced next) db₀ db) (hf : Fresh db₀) :
    InstantsAccounted next db₀ db := by
  refine Accounts.accounted (h.invariant (I := Accounts next db₀) ?_ (accounts_fresh hf))
  rintro db act _ hdb hp rfl
  exact hdb.after hp

end Invariant

section Runs

def databaseAfter (acts : List TriggerAct) : ScheduleDatabase :=
  acts.foldl (fun db act => db.after everyHour act) hourlyDatabase

theorem fresh_hourly : Fresh hourlyDatabase := by
  refine ⟨fun s hs => ?_, rfl⟩
  obtain rfl := List.mem_singleton.mp hs
  rfl

def claimHourly (now : Time) : TriggerAct := .claimReady "worker" [] now (now + 30) 1

/-- The first instants are claimed and processed late, one of them merged. -/
def hourlyActs : List TriggerAct :=
  [claimHourly 3800, .processClaim hourlyClaim 3800 7 .kept false]

theorem runs_hourly : Run (TriggerStep everyHour) (InstantsPlaced everyHour) hourlyDatabase
    (databaseAfter hourlyActs) := by
  have hclaim : Run (TriggerStep everyHour) (InstantsPlaced everyHour) hourlyDatabase
      (databaseAfter [claimHourly 3800]) := Run.single (i := claimHourly 3800) trivial rfl
  refine hclaim.next (i := .processClaim hourlyClaim 3800 7 .kept false) ?_ rfl
  intro _ s _ _ _ a _
  have hnone : (databaseAfter [claimHourly 3800]).occurrences.rows = [] := by decide +kernel
  simp [Placed, ScheduleDatabase.getPendingOccurrence, ScheduleDatabase.occurrenceWithStatus,
    ScheduleDatabase.getOccurrenceAt, Table.select, Table.oneOrNone, hnone]

theorem schedule_instants_accounted_hourly :
    (databaseAfter hourlyActs).accounted 1 = 2 ∧
      (databaseAfter hourlyActs).schedules.rows.map (fun s => (s.nextFireAt, s.lastFireAt)) =
        [(7300, some 3700)] ∧
      InstantsAccounted everyHour hourlyDatabase (databaseAfter hourlyActs) :=
  ⟨by decide +kernel, by decide +kernel, schedule_instants_accounted runs_hourly fresh_hourly⟩

/-- The schedule is run by hand when its instant is already due; then the claim finds an
occurrence that waits for a later time. -/
def runNowActs : List TriggerAct :=
  [.runNow 1 1 "run:1" 150 7, claimHourly 160, .processClaim hourlyClaim 160 8 .kept false]

theorem schedule_instant_dropped :
    Run (TriggerStep everyHour) (fun _ _ => True) hourlyDatabase (databaseAfter runNowActs) ∧
      (databaseAfter runNowActs).schedules.rows.map (fun s => (s.nextFireAt, s.lastFireAt)) =
        [(3700, some 100)] ∧
      (databaseAfter runNowActs).accounted 1 = 0 ∧
      ¬ InstantsAccounted everyHour hourlyDatabase (databaseAfter runNowActs) := by
  have hzero : (databaseAfter runNowActs).accounted 1 = 0 := by decide +kernel
  refine ⟨?_, by decide +kernel, hzero, fun h => ?_⟩
  · have hrun : Run (TriggerStep everyHour) (fun _ _ => True) hourlyDatabase
        (databaseAfter [.runNow 1 1 "run:1" 150 7]) :=
      Run.single (i := .runNow 1 1 "run:1" 150 7) trivial rfl
    have hclaim : Run (TriggerStep everyHour) (fun _ _ => True) hourlyDatabase
        (databaseAfter [.runNow 1 1 "run:1" 150 7, claimHourly 160]) :=
      hrun.next (i := claimHourly 160) trivial rfl
    exact hclaim.next (i := .processClaim hourlyClaim 160 8 .kept false) trivial rfl
  · have hfired : ∃ s ∈ (databaseAfter runNowActs).schedules.rows,
        s.id = 1 ∧ s.lastFireAt = some 100 := by decide +kernel
    obtain ⟨s, hm, hid, hlast⟩ := hfired
    obtain ⟨s₀, _, _, hcount⟩ := h.counted s hm
    rw [hlast, hid, hzero] at hcount
    obtain ⟨j, hj, _⟩ := hcount
    omega

end Runs

end Fairy.Assistant
