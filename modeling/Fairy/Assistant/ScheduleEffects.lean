import Fairy.Lib.Fallible
import Fairy.Assistant.ScheduleTrigger
import Fairy.Assistant.ScheduleRepository

namespace Fairy.Assistant

open Fairy.Lib

namespace AssistantSchedule

variable {s s' : AssistantSchedule} {now : Time}

/-- The columns by which the claims and the guards know a row. -/
def SameGuards (s s' : AssistantSchedule) : Prop :=
  s'.id = s.id ∧ s'.leaseFence = s.leaseFence ∧ s'.activeRevision = s.activeRevision

theorem pause_ok {attentionCode : Option String} (h : s.pause now attentionCode = .ok s') :
    SameGuards s s' ∧ s'.lastFireAt = s.lastFireAt ∧ s'.nextFireAt = s.nextFireAt ∧
      (s' = s ∨ s'.leaseOwner = none) := by
  unfold pause at h
  split at h
  · cases h
    exact ⟨⟨rfl, rfl, rfl⟩, rfl, rfl, .inl rfl⟩
  · split at h
    · cases h
    · cases h
      exact ⟨⟨rfl, rfl, rfl⟩, rfl, rfl, .inr rfl⟩

theorem cancel_ok (h : s.cancel now = .ok s') :
    SameGuards s s' ∧ s'.lastFireAt = s.lastFireAt ∧ s'.nextFireAt = s.nextFireAt ∧
      (s' = s ∨ s'.leaseOwner = none) := by
  unfold cancel at h
  split at h
  · cases h
    exact ⟨⟨rfl, rfl, rfl⟩, rfl, rfl, .inl rfl⟩
  · split at h
    · cases h
    · cases h
      exact ⟨⟨rfl, rfl, rfl⟩, rfl, rfl, .inr rfl⟩

theorem resume_ok {nextFireAt : Time} (h : s.resume nextFireAt now = .ok s') :
    SameGuards s s' ∧ s'.lastFireAt = s.lastFireAt ∧ s'.nextFireAt = nextFireAt := by
  unfold resume at h
  split at h
  · cases h
  · cases h
    exact ⟨⟨rfl, rfl, rfl⟩, rfl, rfl⟩

theorem validated_ok (h : s.validated = .ok s') :
    s' = { s with instruction := Text.strip s.instruction,
                  timezone := Text.strip s.timezone } := by
  simp only [validated] at h
  split at h
  · cases h
  split at h
  · cases h
  split at h
  · cases h
  · cases h
    rfl

end AssistantSchedule

/-- The change is an edit of the definition. -/
def Change.Edits : Change → Prop
  | .update _ _ _ _ _ _ => True
  | _ => False

section Changes

variable {interpret : String → Except ScheduleError Interpretation}
  {validRule : AssistantSchedule → Except ScheduleError Unit}
  {s s' : AssistantSchedule} {change : Change} {now : Time}

/-- A change keeps the fence and the last instant; an edit counts the revision up, and
any other change keeps the revision and the next instant. -/
theorem AssistantSchedule.changed_ok (h : s.changed interpret validRule change now = .ok s') :
    s'.id = s.id ∧ s'.leaseFence = s.leaseFence ∧ s'.lastFireAt = s.lastFireAt ∧
      ((change.Edits ∧ s'.activeRevision = s.activeRevision + 1) ∨
        (¬ change.Edits ∧ s'.activeRevision = s.activeRevision ∧
          s'.nextFireAt = s.nextFireAt)) := by
  cases change with
  | pause =>
    obtain ⟨⟨hid, hf, hr⟩, hl, hn, _⟩ := AssistantSchedule.pause_ok h
    exact ⟨hid, hf, hl, .inr ⟨not_false, hr, hn⟩⟩
  | resume =>
    obtain ⟨⟨hid, hf, hr⟩, hl, hn⟩ := AssistantSchedule.resume_ok h
    exact ⟨hid, hf, hl, .inr ⟨not_false, hr, hn⟩⟩
  | cancel =>
    obtain ⟨⟨hid, hf, hr⟩, hl, hn, _⟩ := AssistantSchedule.cancel_ok h
    exact ⟨hid, hf, hl, .inr ⟨not_false, hr, hn⟩⟩
  | update instruction operationMode triggerKind triggerRule timezone nextFireAt =>
    simp only [AssistantSchedule.changed] at h
    split at h
    · cases h
    split at h
    · cases h
    split at h
    · cases h
    rename_i hv
    obtain ⟨_, _, rfl⟩ := map_ok h
    rw [AssistantSchedule.validated_ok hv]
    exact ⟨rfl, rfl, rfl, .inl ⟨trivial, rfl⟩⟩

variable {db : ScheduleDatabase} {scheduleId : Uuid} {expectedRevision : Nat}

theorem ScheduleDatabase.requireRevision_ok
    (h : db.requireRevision scheduleId expectedRevision = .ok s) :
    s ∈ db.schedules ∧ s.id = scheduleId ∧ s.activeRevision = expectedRevision := by
  unfold ScheduleDatabase.requireRevision at h
  split at h
  · cases h
  rename_i hs
  split at h
  · cases h
  rename_i hr
  cases h
  obtain ⟨hm, hid⟩ := Table.find?_eq_some.mp hs
  exact ⟨hm, hid, by simpa using hr⟩

theorem ScheduleDatabase.readForChange_ok {x : AssistantSchedule × AssistantSchedule}
    (h : db.readForChange interpret validRule scheduleId expectedRevision change now = .ok x) :
    x.1 ∈ db.schedules ∧ x.1.activeRevision = expectedRevision ∧
      x.1.changed interpret validRule change now = .ok x.2 := by
  unfold ScheduleDatabase.readForChange at h
  split at h
  · cases h
  rename_i hs
  obtain ⟨y, hy, rfl⟩ := map_ok h
  obtain ⟨hm, _, hr⟩ := ScheduleDatabase.requireRevision_ok hs
  exact ⟨hm, hr, hy⟩

end Changes

section Claims

variable {next : ScheduleRule → Time → Except ScheduleError Time} {db : ScheduleDatabase}
  {s s' : AssistantSchedule} {now : Time}

theorem AssistantSchedule.sameGuards_advanced (s : AssistantSchedule)
    (advance : Option AssistantScheduleAdvance) (now : Time) :
    s.SameGuards (s.advanced advance now) := by
  cases advance <;> exact ⟨rfl, rfl, rfl⟩

theorem AssistantSchedule.attended_ok {code : String} (h : s.attended code now = .ok s') :
    s.SameGuards s' := by
  unfold AssistantSchedule.attended at h
  split at h
  · exact (AssistantSchedule.pause_ok h).1
  · cases h
    exact ⟨rfl, rfl, rfl⟩

theorem AssistantSchedule.SameGuards.trans {a b c : AssistantSchedule} (h : a.SameGuards b)
    (h' : b.SameGuards c) : a.SameGuards c :=
  ⟨h'.1.trans h.1, h'.2.1.trans h.2.1, h'.2.2.trans h.2.2⟩

/-- What is prepared for a claim has the fence and the revision of the row read. -/
theorem ScheduleDatabase.prepareClaim_guards {newId : Uuid} {answer : DispatchAnswer}
    {x : Option AssistantScheduleOccurrence × AssistantSchedule × ScheduleDatabase}
    (h : db.prepareClaim next s now newId answer = .ok x) : s.SameGuards x.2.1 := by
  unfold ScheduleDatabase.prepareClaim at h
  split at h
  · cases h
  rename_i advance _
  have hadv := s.sameGuards_advanced advance now
  split at h
  · cases h
  · cases h
    exact hadv
  · obtain ⟨y, hy, rfl⟩ := map_ok h
    unfold ScheduleDatabase.dispatchPending at hy
    split at hy
    · cases hy
      exact hadv
    · split at hy
      · cases hy
      · obtain ⟨z, _, rfl⟩ := map_ok hy
        exact hadv
    · split at hy
      · cases hy
      · obtain ⟨z, hz, rfl⟩ := map_ok hy
        exact hadv.trans (AssistantSchedule.attended_ok hz)

theorem selected_of_length {p : AssistantSchedule → Prop} [DecidablePred p]
    (h : (db.schedules.select p).length = 1) : ∃ row ∈ db.schedules, p row := by
  obtain ⟨row, hrow⟩ := List.length_eq_one_iff.mp h
  have hm : row ∈ db.schedules.select p := hrow ▸ List.mem_singleton_self row
  exact ⟨row, Table.mem_select.mp hm⟩

/-- A save that returns has replaced the row of the revision it expects. -/
theorem ScheduleDatabase.save_ok {expectedRevision : Nat}
    {x : AssistantSchedule × ScheduleDatabase} (h : db.save s expectedRevision = .ok x) :
    ∃ row, row.id = s.id ∧ row.activeRevision = expectedRevision ∧
      Table.Replaces db.schedules x.2.schedules row s ∧ x.2.occurrences = db.occurrences := by
  simp only [ScheduleDatabase.save] at h
  split at h
  · cases h
  rename_i hlen
  push Not at hlen
  obtain ⟨row, hm, hid, hr⟩ := selected_of_length hlen
  have hrep : Table.Replaces db.schedules (db.schedules.update (fun r : AssistantSchedule =>
      r.id = s.id ∧ r.activeRevision = expectedRevision) fun r => { s with id := r.id }) row
      { s with id := row.id } :=
    Table.replaces_update Table.rows_update hm ⟨hid, hr⟩ (fun b _ hb => hb.1.trans hid.symm) rfl
  have hsame : { s with id := row.id } = s := by rw [hid]
  rw [hsame] at hrep
  split at h
  · cases h
  · cases h
    exact ⟨row, hid, hr, hrep, rfl⟩

/-- The rows that a save or a settlement goes by are there or not. -/
theorem ScheduleDatabase.save_total {expectedRevision : Nat} {row : AssistantSchedule}
    (hm : row ∈ db.schedules) (hid : row.id = s.id) (hr : row.activeRevision = expectedRevision) :
    ∃ x, db.save s expectedRevision = .ok x := by
  have hsel : db.schedules.select (fun r => r.id = s.id ∧ r.activeRevision = expectedRevision) =
      [row] := Table.select_eq_singleton hm fun b hb => by
    constructor
    · exact fun h => Table.eq_of_key hb hm (h.1.trans hid.symm)
    · rintro rfl
      exact ⟨hid, hr⟩
  have hrep : Table.Replaces db.schedules (db.schedules.update (fun r : AssistantSchedule =>
      r.id = s.id ∧ r.activeRevision = expectedRevision) fun r => { s with id := r.id }) row
      { s with id := row.id } :=
    Table.replaces_update Table.rows_update hm ⟨hid, hr⟩ (fun b _ hb => hb.1.trans hid.symm) rfl
  have hfind := Table.find?_eq_some.mpr ⟨hrep.mem, hid⟩
  simp only [ScheduleDatabase.save, hsel, List.length_singleton, ne_eq, not_true_eq_false,
    if_false, hfind]
  exact ⟨_, rfl⟩

/-- A claim of a row counts its fence up and names it. -/
theorem ScheduleDatabase.claimRow_some {row : AssistantSchedule} {worker : String}
    {leaseUntil : Time} {x : AssistantScheduleClaim × ScheduleDatabase}
    (h : db.claimRow row worker now leaseUntil = some x) :
    ∃ r, r.id = row.id ∧ r.leaseFence = row.leaseFence ∧
      Table.Replaces db.schedules x.2.schedules r
        { r with leaseOwner := some worker, leaseUntil := some leaseUntil,
                 leaseFence := r.leaseFence + 1, updatedAt := now } ∧
      x.1 = ⟨r.id, worker, r.leaseFence + 1, row.activeRevision⟩ ∧
      x.2.occurrences = db.occurrences := by
  simp only [ScheduleDatabase.claimRow] at h
  split at h
  · cases h
  rename_i hlen
  push Not at hlen
  cases h
  obtain ⟨r, hm, hid, hf, hrest⟩ := selected_of_length hlen
  refine ⟨r, hid, hf, ?_, ?_, rfl⟩
  · have hrep : Table.Replaces db.schedules (db.schedules.update (fun r : AssistantSchedule =>
        r.id = row.id ∧ r.leaseFence = row.leaseFence ∧ LeaseAvailable now r ∧ db.Ready now r)
        fun r => { r with leaseOwner := some worker, leaseUntil := some leaseUntil,
                          leaseFence := row.leaseFence + 1, updatedAt := now }) r
        { r with leaseOwner := some worker, leaseUntil := some leaseUntil,
                 leaseFence := row.leaseFence + 1, updatedAt := now } :=
      Table.replaces_update Table.rows_update hm ⟨hid, hf, hrest⟩
        (fun b _ hb => hb.1.trans hid.symm) rfl
    have hsame : { r with leaseOwner := some worker, leaseUntil := some leaseUntil,
                          leaseFence := r.leaseFence + 1, updatedAt := now } =
        { r with leaseOwner := some worker, leaseUntil := some leaseUntil,
                 leaseFence := row.leaseFence + 1, updatedAt := now } := by rw [hf]
    rw [hsame]
    exact hrep
  · rw [hid, hf]

/-- A settlement that succeeds has replaced the row that its claim holds. -/
theorem ScheduleDatabase.settleClaim_cases {claim : AssistantScheduleClaim}
    {x : Option AssistantSchedule × ScheduleDatabase} (h : db.settleClaim claim s = .ok x) :
    x = (none, db) ∨ ∃ row, Holds claim row ∧ row.activeRevision = claim.activeRevision ∧
      Table.Replaces db.schedules x.2.schedules row s ∧ x.1 = some s ∧
      x.2.occurrences = db.occurrences := by
  simp only [ScheduleDatabase.settleClaim] at h
  split at h
  · cases h
  rename_i hid
  push Not at hid
  split at h
  · cases h
  split at h
  · cases h
    exact .inl rfl
  rename_i hlen
  push Not at hlen
  cases h
  obtain ⟨row, hm, hh, hr⟩ := selected_of_length hlen
  have hrep : Table.Replaces db.schedules (db.schedules.update (fun r : AssistantSchedule =>
      Holds claim r ∧ r.activeRevision = claim.activeRevision) fun r => { s with id := r.id }) row
      { s with id := row.id } :=
    Table.replaces_update Table.rows_update hm ⟨hh, hr⟩
      (fun b _ hb => hb.1.1.trans hh.1.symm) rfl
  have hsame : { s with id := row.id } = s := by rw [hh.1, ← hid]
  rw [hsame] at hrep
  exact .inr ⟨row, hh, hr, hrep, Table.find?_eq_some.mpr ⟨hrep.mem, hid⟩, rfl⟩

/-- An abandoned claim counts the fence up. -/
theorem ScheduleDatabase.abandonClaim_cases (db : ScheduleDatabase)
    (claim : AssistantScheduleClaim) :
    (db.abandonClaim claim).2 = db ∨ (db.abandonClaim claim).1 = true ∧ ∃ row, Holds claim row ∧
      Table.Replaces db.schedules (db.abandonClaim claim).2.schedules row
        { row with leaseOwner := none, leaseUntil := none, leaseFence := row.leaseFence + 1 } := by
  by_cases h : ∃ row ∈ db.schedules, Holds claim row
  · obtain ⟨row, hm, hh⟩ := h
    have hsel : db.schedules.select (Holds claim) = [row] :=
      Table.select_eq_singleton hm fun b hb => by
        constructor
        · exact fun h => Table.eq_of_key hb hm (h.1.trans hh.1.symm)
        · rintro rfl
          exact hh
    refine .inr ⟨by simp [ScheduleDatabase.abandonClaim, hsel], row, hh, ?_⟩
    have hrep : Table.Replaces db.schedules (db.schedules.update (Holds claim) fun r =>
        { r with leaseOwner := none, leaseUntil := none, leaseFence := claim.leaseFence + 1 }) row
        { row with leaseOwner := none, leaseUntil := none, leaseFence := claim.leaseFence + 1 } :=
      Table.replaces_update Table.rows_update hm hh (fun b _ hb => hb.1.trans hh.1.symm) rfl
    rw [hh.2.2]
    exact hrep
  · push Not at h
    have hsame : db.schedules.update (Holds claim) (fun r => { r with
        leaseOwner := none, leaseUntil := none, leaseFence := claim.leaseFence + 1 }) =
        db.schedules := Table.update_eq_self h
    refine .inl ?_
    simp only [ScheduleDatabase.abandonClaim, hsame]

end Claims

end Fairy.Assistant
