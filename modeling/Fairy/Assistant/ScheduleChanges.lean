import Fairy.Lib.Run
import Fairy.Assistant.ScheduleEffects

namespace Fairy.Assistant

open Fairy.Lib

/-- A change between its read and its save: the row that it read, the row that it will
save, and whether a claim was taken or given up, or instants were settled, since. -/
structure Edit where
  change : Change
  expectedRevision : Nat
  read : AssistantSchedule
  result : AssistantSchedule
  overtaken : Bool
  deriving DecidableEq

/-- A claim between the read of `_process_claim` and `settle_claim`: the row read, the
row to be settled, and whether a change that leaves the lease was saved since. -/
structure Settlement where
  claim : AssistantScheduleClaim
  read : AssistantSchedule
  result : AssistantSchedule
  overtaken : Bool
  deriving DecidableEq

structure ScheduleWorld where
  db : ScheduleDatabase
  edits : List Edit
  settlements : List Settlement
  claims : List AssistantScheduleClaim

inductive ScheduleAct
  | read (scheduleId : Uuid) (expectedRevision : Nat) (change : Change) (now : Time)
  | save (edit : Edit)
  | claimReady (workerId : String) (locked : List Uuid) (now leaseUntil : Time) (limit : Nat)
  | process (claim : AssistantScheduleClaim) (now : Time) (newId : Uuid) (answer : DispatchAnswer)
  | settle (settlement : Settlement)
  | abandon (claim : AssistantScheduleClaim)
  /-- Whatever is written into the occurrences. -/
  | occurrences (occurrences :
      Table AssistantScheduleOccurrence AssistantScheduleOccurrence.id fun _ => True)

/-- A change of one of these schedules is overtaken. -/
def Edit.overtake (scheduleIds : List Uuid) (e : Edit) : Edit :=
  { e with overtaken := e.overtaken || decide (e.read.id ∈ scheduleIds) }

/-- The settlement moves the instants of the schedule on. -/
def Settlement.Advances (s : Settlement) : Prop :=
  s.result.nextFireAt ≠ s.read.nextFireAt ∨ s.result.lastFireAt ≠ s.read.lastFireAt

instance (s : Settlement) : Decidable s.Advances := inferInstanceAs (Decidable (_ ∨ _))

/-- A settlement is overtaken by a saved row of its schedule that is leased. -/
def Settlement.overtake (saved : AssistantSchedule) (s : Settlement) : Settlement :=
  { s with overtaken := s.overtaken || (saved.leaseOwner.isSome && decide (saved.id = s.read.id)) }

section World

variable (next : ScheduleRule → Time → Except ScheduleError Time)
  (interpret : String → Except ScheduleError Interpretation)
  (validRule : AssistantSchedule → Except ScheduleError Unit)

def ScheduleWorld.after (σ : ScheduleWorld) : ScheduleAct → ScheduleWorld
  | .read scheduleId expectedRevision change now =>
    match σ.db.readForChange interpret validRule scheduleId expectedRevision change now with
    | .ok (row, result) =>
      { σ with edits := σ.edits ++ [⟨change, expectedRevision, row, result, false⟩] }
    | .error _ => σ
  | .save edit =>
    if edit ∈ σ.edits then
      match σ.db.save edit.result edit.expectedRevision with
      | .ok (_, db) =>
        { σ with db, edits := σ.edits.erase edit,
                 settlements := σ.settlements.map (Settlement.overtake edit.result) }
      | .error _ => { σ with edits := σ.edits.erase edit }
    else σ
  | .claimReady workerId locked now leaseUntil limit =>
    match σ.db.claimReady workerId locked now leaseUntil limit with
    | .ok (claims, db) =>
      { σ with db, claims := σ.claims ++ claims,
               edits := σ.edits.map (Edit.overtake (claims.map (·.scheduleId))) }
    | .error _ => σ
  | .process claim now newId answer =>
    match σ.db.schedules.find? claim.scheduleId with
    | none => σ
    | some s =>
      if claim ∈ σ.claims ∧ Current claim s then
        match σ.db.prepareClaim next s now newId answer with
        | .ok (_, result, _) =>
          { σ with settlements := σ.settlements ++ [⟨claim, s, result.released, false⟩] }
        | .error _ => σ
      else σ
  | .settle settlement =>
    if settlement ∈ σ.settlements then
      match σ.db.settleClaim settlement.claim settlement.result with
      | .ok (some _, db) =>
        { σ with db, settlements := σ.settlements.erase settlement,
                 edits := if settlement.Advances then
                     σ.edits.map (Edit.overtake [settlement.claim.scheduleId])
                   else σ.edits }
      | _ => { σ with settlements := σ.settlements.erase settlement }
    else σ
  | .abandon claim =>
    { σ with db := (σ.db.abandonClaim claim).2,
             edits := if (σ.db.abandonClaim claim).1 then
                 σ.edits.map (Edit.overtake [claim.scheduleId])
               else σ.edits }
  | .occurrences occurrences => { σ with db := { σ.db with occurrences } }

/-- Any of the steps of any users and triggers. -/
def ScheduleStep (σ : ScheduleWorld) (act : ScheduleAct) (τ : ScheduleWorld) : Prop :=
  τ = σ.after next interpret validRule act

end World

/-- The row that the change would overwrite. -/
def Edit.Target (e : Edit) (r : AssistantSchedule) : Prop :=
  r.id = e.result.id ∧ r.activeRevision = e.expectedRevision

/-- The row that the settlement would overwrite. -/
def Settlement.Target (s : Settlement) (r : AssistantSchedule) : Prop :=
  Holds s.claim r ∧ r.activeRevision = s.claim.activeRevision

/-- A change or a settlement that is going to be saved has not been overtaken. -/
def Undisturbed (σ : ScheduleWorld) : ScheduleAct → Prop
  | .save e => e ∈ σ.edits → (∃ r ∈ σ.db.schedules, e.Target r) → e.overtaken = false
  | .settle s => s ∈ σ.settlements → (∃ r ∈ σ.db.schedules, s.Target r) → s.overtaken = false
  | _ => True

section Invariant

variable (next : ScheduleRule → Time → Except ScheduleError Time)
  (interpret : String → Except ScheduleError Interpretation)
  (validRule : AssistantSchedule → Except ScheduleError Unit)

/-- The columns of the row that the trigger writes are those that the change has read. -/
def SameInstants (r s : AssistantSchedule) : Prop :=
  r.leaseFence = s.leaseFence ∧ r.lastFireAt = s.lastFireAt ∧ r.nextFireAt = s.nextFireAt

/-- A change that is not overtaken has read the columns of the trigger as they are, as
long as its revision is the one of the row. -/
structure EditOk (db : ScheduleDatabase) (e : Edit) : Prop where
  made : ∃ now, e.read.changed interpret validRule e.change now = .ok e.result
  revision : e.read.activeRevision = e.expectedRevision
  behind : ∀ r ∈ db.schedules, r.id = e.read.id → e.expectedRevision ≤ r.activeRevision
  fresh : e.overtaken = false → ∀ r ∈ db.schedules, r.id = e.read.id →
    r.activeRevision = e.expectedRevision → SameInstants r e.read

/-- A settlement that is not overtaken has read the row that it overwrites. -/
structure SettlementOk (db : ScheduleDatabase) (s : Settlement) : Prop where
  made : ∃ d now newId answer x, ScheduleDatabase.prepareClaim next d s.read now newId answer =
    .ok x ∧ s.result = x.2.1.released
  held : s.Target s.read
  bound : ∀ r ∈ db.schedules, r.id = s.claim.scheduleId → s.claim.leaseFence ≤ r.leaseFence
  fresh : s.overtaken = false → ∀ r ∈ db.schedules, s.Target r → r = s.read

structure ScheduleWorld.Ok (σ : ScheduleWorld) : Prop where
  edits : ∀ e ∈ σ.edits, EditOk interpret validRule σ.db e
  settlements : ∀ s ∈ σ.settlements, SettlementOk next σ.db s
  claims : ∀ c ∈ σ.claims, ∀ r ∈ σ.db.schedules, r.id = c.scheduleId →
    c.leaseFence ≤ r.leaseFence
  distinct : σ.claims.Pairwise fun c d => c.scheduleId = d.scheduleId → c.leaseFence < d.leaseFence

end Invariant

section Replaced

variable {next : ScheduleRule → Time → Except ScheduleError Time}
  {interpret : String → Except ScheduleError Interpretation}
  {validRule : AssistantSchedule → Except ScheduleError Unit}
  {db db' : ScheduleDatabase} {row row' : AssistantSchedule}

/-- A replaced row leaves a change in order, if it does not count the revision down,
and if it keeps the columns of the trigger or overtakes the change. -/
theorem EditOk.replaced {e e' : Edit} (h : EditOk interpret validRule db e)
    (hrep : Table.Replaces db.schedules db'.schedules row row')
    (hrev : row.activeRevision ≤ row'.activeRevision)
    (he : e' = { e with overtaken := e'.overtaken })
    (hover : e'.overtaken = false → e.overtaken = false)
    (hsame : e'.overtaken = false → row.id = e.read.id →
      row'.activeRevision = row.activeRevision → SameInstants row' row) :
    EditOk interpret validRule db' e' := by
  rw [he]
  refine ⟨h.made, h.revision, fun r hr hid => ?_, fun ho r hr hid hrv => ?_⟩
  · obtain rfl | ⟨hr, _⟩ := hrep.cases hr
    · exact (h.behind row hrep.1 (hrep.2.1.symm.trans hid)).trans hrev
    · exact h.behind r hr hid
  · simp only at ho hid hrv
    obtain rfl | ⟨hr, _⟩ := hrep.cases hr
    · have hrow : row.id = e.read.id := hrep.2.1.symm.trans hid
      have hle := h.behind row hrep.1 hrow
      have hsame := hsame ho hrow (by omega)
      have hread := h.fresh (hover ho) row hrep.1 hrow (by omega)
      exact ⟨hsame.1.trans hread.1, hsame.2.1.trans hread.2.1, hsame.2.2.trans hread.2.2⟩
    · exact h.fresh (hover ho) r hr hid hrv

/-- A replaced row leaves a settlement in order, if it does not count the fence down,
and if it is not the target of the settlement, or overtakes it. -/
theorem SettlementOk.replaced {s s' : Settlement} (h : SettlementOk next db s)
    (hrep : Table.Replaces db.schedules db'.schedules row row')
    (hfence : row.leaseFence ≤ row'.leaseFence) (hs : s' = { s with overtaken := s'.overtaken })
    (hover : s'.overtaken = false → s.overtaken = false)
    (htarget : s'.overtaken = false → ¬ s.Target row') : SettlementOk next db' s' := by
  rw [hs]
  refine ⟨h.made, h.held, fun r hr hid => ?_, fun ho r hr ht => ?_⟩
  · obtain rfl | ⟨hr, _⟩ := hrep.cases hr
    · exact (h.bound row hrep.1 (hrep.2.1.symm.trans hid)).trans hfence
    · exact h.bound r hr hid
  · obtain rfl | ⟨hr, _⟩ := hrep.cases hr
    · exact absurd ht (htarget ho)
    · exact h.fresh (hover ho) r hr ht

theorem claims_replaced {claims : List AssistantScheduleClaim}
    (h : ∀ c ∈ claims, ∀ r ∈ db.schedules, r.id = c.scheduleId → c.leaseFence ≤ r.leaseFence)
    (hrep : Table.Replaces db.schedules db'.schedules row row')
    (hfence : row.leaseFence ≤ row'.leaseFence) :
    ∀ c ∈ claims, ∀ r ∈ db'.schedules, r.id = c.scheduleId → c.leaseFence ≤ r.leaseFence := by
  intro c hc r hr hid
  obtain rfl | ⟨hr, _⟩ := hrep.cases hr
  · exact (h c hc row hrep.1 (hrep.2.1.symm.trans hid)).trans hfence
  · exact h c hc r hr hid

/-- A row whose fence is counted up is no target of an earlier claim. -/
theorem SettlementOk.not_target {s : Settlement} (h : SettlementOk next db s)
    (hrow : row ∈ db.schedules) (hid : row'.id = row.id)
    (hfence : row'.leaseFence = row.leaseFence + 1) : ¬ s.Target row' := by
  intro ht
  have hb := h.bound row hrow (hid.symm.trans ht.1.1)
  have hf := ht.1.2.2
  omega

end Replaced

section Steps

variable {next : ScheduleRule → Time → Except ScheduleError Time}
  {interpret : String → Except ScheduleError Interpretation}
  {validRule : AssistantSchedule → Except ScheduleError Unit}
  {σ : ScheduleWorld} {db : ScheduleDatabase}

theorem Edit.overtake_eq (ids : List Uuid) (e : Edit) :
    e.overtake ids = { e with overtaken := (e.overtake ids).overtaken } := rfl

theorem Edit.of_overtake {ids : List Uuid} {e : Edit} (h : (e.overtake ids).overtaken = false) :
    e.overtaken = false ∧ e.read.id ∉ ids := by
  simpa [Edit.overtake] using h

theorem Edit.overtake_overtake (ids ids' : List Uuid) (e : Edit) :
    (e.overtake ids).overtake ids' = e.overtake (ids ++ ids') := by
  by_cases h : e.read.id ∈ ids <;> by_cases h' : e.read.id ∈ ids' <;>
    simp [Edit.overtake, h, h']

/-- Changes of a schedule whose row the trigger has replaced are in order, once the
changes that have read it are overtaken. -/
theorem edits_overtaken {edits : List Edit} {db db' : ScheduleDatabase}
    {row row' : AssistantSchedule} (h : ∀ e ∈ edits, EditOk interpret validRule db e)
    (hrep : Table.Replaces db.schedules db'.schedules row row')
    (hrev : row.activeRevision ≤ row'.activeRevision) :
    ∀ e ∈ edits.map (Edit.overtake [row.id]), EditOk interpret validRule db' e := by
  intro e' he'
  obtain ⟨e, he, rfl⟩ := List.mem_map.mp he'
  refine (h e he).replaced hrep hrev (e.overtake_eq _) (fun ho => (Edit.of_overtake ho).1) ?_
  intro ho hid
  exact absurd (List.mem_singleton.mpr hid.symm) (Edit.of_overtake ho).2

/-- The fence of a row is counted up: no settlement of an earlier claim has it for a
target. -/
theorem settlements_fenced {settlements : List Settlement} {db db' : ScheduleDatabase}
    {row row' : AssistantSchedule} (h : ∀ s ∈ settlements, SettlementOk next db s)
    (hrep : Table.Replaces db.schedules db'.schedules row row')
    (hfence : row'.leaseFence = row.leaseFence + 1) :
    ∀ s ∈ settlements, SettlementOk next db' s := fun s hs =>
  (h s hs).replaced hrep (by omega) rfl id fun _ => (h s hs).not_target hrep.1 hrep.2.1 hfence

theorem ok_claimRow {edits : List Edit} {settlements : List Settlement}
    {claims : List AssistantScheduleClaim} {row : AssistantSchedule} {worker : String}
    {now leaseUntil : Time} {x : AssistantScheduleClaim × ScheduleDatabase}
    (h : ScheduleWorld.Ok next interpret validRule ⟨db, edits, settlements, claims⟩)
    (hx : db.claimRow row worker now leaseUntil = some x) :
    ScheduleWorld.Ok next interpret validRule
      ⟨x.2, edits.map (Edit.overtake [x.1.scheduleId]), settlements, claims ++ [x.1]⟩ := by
  obtain ⟨r, _, _, hrep, hclaim, _⟩ := ScheduleDatabase.claimRow_some hx
  have hid : x.1.scheduleId = r.id := by rw [hclaim]
  have hfence : x.1.leaseFence = r.leaseFence + 1 := by rw [hclaim]
  refine ⟨?_, settlements_fenced h.settlements hrep rfl, ?_, ?_⟩
  · rw [hid]
    exact edits_overtaken h.edits hrep le_rfl
  · intro c hc r' hr' hc'
    obtain hc | hc := List.mem_append.mp hc
    · exact claims_replaced h.claims hrep (Nat.le_succ _) c hc r' hr' hc'
    · obtain rfl := List.mem_singleton.mp hc
      obtain rfl | ⟨_, hne⟩ := hrep.cases hr'
      · exact hfence.le
      · exact absurd (hc'.trans hid) hne
  · refine List.pairwise_append.mpr ⟨h.distinct, List.pairwise_singleton _ _, ?_⟩
    intro c hc d hd hcd
    obtain rfl := List.mem_singleton.mp hd
    have hle := h.claims c hc r hrep.1 (hid.symm.trans hcd.symm)
    omega

theorem ok_claimRows {settlements : List Settlement} {worker : String} {now leaseUntil : Time}
    {rows : List AssistantSchedule} {db : ScheduleDatabase} {edits : List Edit}
    {claims : List AssistantScheduleClaim}
    (h : ScheduleWorld.Ok next interpret validRule ⟨db, edits, settlements, claims⟩) :
    ScheduleWorld.Ok next interpret validRule
      ⟨(ScheduleDatabase.claimRows worker now leaseUntil rows db).2,
        edits.map (Edit.overtake
          ((ScheduleDatabase.claimRows worker now leaseUntil rows db).1.map (·.scheduleId))),
        settlements,
        claims ++ (ScheduleDatabase.claimRows worker now leaseUntil rows db).1⟩ := by
  induction rows generalizing db edits claims with
  | nil =>
    have hnone : edits.map (Edit.overtake []) = edits := by
      conv_rhs => rw [← List.map_id edits]
      exact List.map_congr_left fun e _ => by simp [Edit.overtake]
    simpa [ScheduleDatabase.claimRows, hnone] using h
  | cons row rows ih =>
    simp only [ScheduleDatabase.claimRows]
    split
    · exact ih h
    · rename_i claim db' hclaim
      have hrest := ih (ok_claimRow h hclaim)
      simpa [List.map_map, Function.comp_def, Edit.overtake_overtake] using hrest

/-- A save that is admitted overwrites a row whose trigger columns it has read. -/
theorem ok_save {e : Edit} (h : σ.Ok next interpret validRule) (he : e ∈ σ.edits)
    (hu : Undisturbed σ (.save e)) {x : AssistantSchedule × ScheduleDatabase}
    (hx : σ.db.save e.result e.expectedRevision = .ok x) :
    ScheduleWorld.Ok next interpret validRule ⟨x.2, σ.edits.erase e,
      σ.settlements.map (Settlement.overtake e.result), σ.claims⟩ := by
  obtain ⟨row, hid, hrev, hrep, _⟩ := ScheduleDatabase.save_ok hx
  have hfresh := hu he ⟨row, hrep.1, hid, hrev⟩
  obtain ⟨hmade, hown, _, hread⟩ := h.edits e he
  obtain ⟨now, hmade⟩ := hmade
  obtain ⟨hrid, hrf, hrl, hkind⟩ := AssistantSchedule.changed_ok hmade
  have hsame := hread hfresh row hrep.1 (hid.trans hrid) hrev
  have hfence : e.result.leaseFence = row.leaseFence := hrf.trans hsame.1.symm
  refine ⟨fun d hd => ?_, fun s hs => ?_, claims_replaced h.claims hrep hfence.ge, h.distinct⟩
  · refine (h.edits d (List.mem_of_mem_erase hd)).replaced hrep ?_ rfl id fun _ _ hrv => ?_
    · obtain ⟨_, hr⟩ | ⟨_, hr, _⟩ := hkind <;> omega
    · obtain ⟨_, hr⟩ | ⟨_, _, hn⟩ := hkind
      · omega
      · exact ⟨hfence, hrl.trans hsame.2.1.symm, hn.trans hsame.2.2.symm⟩
  · obtain ⟨d, hd, rfl⟩ := List.mem_map.mp hs
    refine (h.settlements d hd).replaced hrep hfence.ge rfl ?_ ?_
    · intro ho
      simp only [Settlement.overtake, Bool.or_eq_false_iff] at ho
      exact ho.1
    · intro ho ht
      simp only [Settlement.overtake, Bool.or_eq_false_iff, Bool.and_eq_false_iff,
        decide_eq_false_iff_not] at ho
      obtain hn | hne := ho.2
      · rw [ht.1.2.1] at hn
        cases hn
      · exact hne (ht.1.1.trans (h.settlements d hd).held.1.1.symm)

/-- A settlement that is admitted overwrites the row that it has read. -/
theorem ok_settle {s : Settlement} (h : σ.Ok next interpret validRule) (hs : s ∈ σ.settlements)
    (hu : Undisturbed σ (.settle s)) {row : AssistantSchedule} (ht : s.Target row)
    (hrep : Table.Replaces σ.db.schedules db.schedules row s.result) :
    ScheduleWorld.Ok next interpret validRule ⟨db,
      if s.Advances then σ.edits.map (Edit.overtake [s.claim.scheduleId]) else σ.edits,
      σ.settlements.erase s, σ.claims⟩ := by
  have hfresh := hu hs ⟨row, hrep.1, ht⟩
  have hok := h.settlements s hs
  obtain rfl := hok.fresh hfresh row hrep.1 ht
  obtain ⟨d, now, newId, answer, x, hmade, hres⟩ := hok.made
  obtain ⟨_, hf, hr⟩ := ScheduleDatabase.prepareClaim_guards hmade
  have hfence : s.result.leaseFence = s.read.leaseFence := by
    rw [hres]
    exact hf
  have hrev : s.result.activeRevision = s.read.activeRevision := by
    rw [hres]
    exact hr
  have hfree : s.result.leaseOwner = none := by
    rw [hres]
    rfl
  refine ⟨fun e he => ?_, fun t ht' => ?_, claims_replaced h.claims hrep hfence.ge, h.distinct⟩
  · simp only at he
    split at he
    · rw [← ht.1.1] at he
      exact edits_overtaken h.edits hrep hrev.ge e he
    · rename_i hadv
      refine (h.edits e he).replaced hrep hrev.ge rfl id fun _ _ _ => ?_
      simp only [Settlement.Advances, ne_eq, not_or, not_not] at hadv
      exact ⟨hfence, hadv.2, hadv.1⟩
  · refine (h.settlements t (List.mem_of_mem_erase ht')).replaced hrep hfence.ge rfl id ?_
    intro _ htarget
    rw [htarget.1.2.1] at hfree
    cases hfree

theorem ok_abandon (h : σ.Ok next interpret validRule) (claim : AssistantScheduleClaim) :
    (σ.after next interpret validRule (.abandon claim)).Ok next interpret validRule := by
  simp only [ScheduleWorld.after]
  obtain he | ⟨hb, row, hh, hrep⟩ := σ.db.abandonClaim_cases claim
  · rw [he]
    refine ⟨fun e' he' => ?_, h.settlements, h.claims, h.distinct⟩
    simp only at he'
    split at he'
    · obtain ⟨e, he, rfl⟩ := List.mem_map.mp he'
      have hok := h.edits e he
      exact ⟨hok.made, hok.revision, hok.behind, fun ho => hok.fresh (Edit.of_overtake ho).1⟩
    · exact h.edits e' he'
  · rw [if_pos hb, ← hh.1]
    exact ⟨edits_overtaken h.edits hrep le_rfl, settlements_fenced h.settlements hrep rfl,
      claims_replaced h.claims hrep (Nat.le_succ _), h.distinct⟩

/-- Every admitted step keeps the invariant. -/
theorem ScheduleWorld.Ok.after (h : σ.Ok next interpret validRule) (act : ScheduleAct)
    (hu : Undisturbed σ act) :
    (σ.after next interpret validRule act).Ok next interpret validRule := by
  cases act with
  | read scheduleId expectedRevision change now =>
    simp only [ScheduleWorld.after]
    split
    · rename_i row result hread
      obtain ⟨hm, hrev, hmade⟩ := ScheduleDatabase.readForChange_ok hread
      refine ⟨fun e he => ?_, h.settlements, h.claims, h.distinct⟩
      obtain he | he := List.mem_append.mp he
      · exact h.edits e he
      · obtain rfl := List.mem_singleton.mp he
        refine ⟨⟨now, hmade⟩, hrev, fun r hr hid => ?_, fun _ r hr hid _ => ?_⟩
        · rw [Table.eq_of_key hr hm hid]
          exact hrev.ge
        · rw [Table.eq_of_key hr hm hid]
          exact ⟨rfl, rfl, rfl⟩
    · exact h
  | save e =>
    simp only [ScheduleWorld.after]
    split
    · rename_i he
      split
      · rename_i x hx
        exact ok_save h he hu hx
      · exact ⟨fun d hd => h.edits d (List.mem_of_mem_erase hd), h.settlements, h.claims,
          h.distinct⟩
    · exact h
  | claimReady workerId locked now leaseUntil limit =>
    simp only [ScheduleWorld.after]
    split
    · rename_i claims db hx
      simp only [ScheduleDatabase.claimReady] at hx
      split at hx
      · cases hx
      split at hx
      · cases hx
      split at hx
      · cases hx
      · obtain ⟨rfl, rfl⟩ := Prod.mk.inj (Except.ok.inj hx)
        exact ok_claimRows h
    · exact h
  | process claim now newId answer =>
    simp only [ScheduleWorld.after]
    split
    · exact h
    rename_i s hs
    split
    · rename_i hc
      split
      · rename_i p result prepared hx
        obtain ⟨hm, hid⟩ := Table.find?_eq_some.mp hs
        refine ⟨h.edits, fun t ht => ?_, h.claims, h.distinct⟩
        obtain ht | ht := List.mem_append.mp ht
        · exact h.settlements t ht
        · obtain rfl := List.mem_singleton.mp ht
          refine ⟨⟨_, now, newId, answer, _, hx, rfl⟩, ⟨⟨hid, hc.2.1, hc.2.2.1⟩, hc.2.2.2⟩,
            h.claims claim hc.1, fun _ r hr htarget => ?_⟩
          exact Table.eq_of_key hr hm (htarget.1.1.trans hid.symm)
      · exact h
    · exact h
  | settle s =>
    simp only [ScheduleWorld.after]
    split
    · rename_i hs
      have herase : ScheduleWorld.Ok next interpret validRule
          { σ with settlements := σ.settlements.erase s } :=
        ⟨h.edits, fun t ht => h.settlements t (List.mem_of_mem_erase ht), h.claims, h.distinct⟩
      split
      · rename_i row db hx
        obtain hn | ⟨r, hh, hr, hrep, _⟩ := ScheduleDatabase.settleClaim_cases hx
        · cases hn
        · exact ok_settle h hs hu ⟨hh, hr⟩ hrep
      · exact herase
    · exact h
  | abandon claim => exact ok_abandon h claim
  | occurrences occurrences =>
    refine ⟨fun e he => ?_, fun s hs => ?_, h.claims, h.distinct⟩
    · obtain ⟨hmade, hrev, hbehind, hfresh⟩ := h.edits e he
      exact ⟨hmade, hrev, hbehind, hfresh⟩
    · obtain ⟨hmade, hheld, hbound, hfresh⟩ := h.settlements s hs
      exact ⟨hmade, hheld, hbound, hfresh⟩

end Steps

section Runs

variable {next : ScheduleRule → Time → Except ScheduleError Time}
  {interpret : String → Except ScheduleError Interpretation}
  {validRule : AssistantSchedule → Except ScheduleError Unit}

/-- The runs whose steps are all undisturbed. -/
abbrev UndisturbedRuns (next : ScheduleRule → Time → Except ScheduleError Time)
    (interpret : String → Except ScheduleError Interpretation)
    (validRule : AssistantSchedule → Except ScheduleError Unit) :
    ScheduleWorld → ScheduleWorld → Prop :=
  Run (ScheduleStep next interpret validRule) Undisturbed

/-- Nothing is under way, and no claim is out. -/
def ScheduleWorld.idle (db : ScheduleDatabase) : ScheduleWorld := ⟨db, [], [], []⟩

/-- Every row is still there, and none has a smaller fence. -/
def FencesGrow (db db' : ScheduleDatabase) : Prop :=
  ∀ r ∈ db.schedules, ∃ r' ∈ db'.schedules, r'.id = r.id ∧ r.leaseFence ≤ r'.leaseFence

theorem FencesGrow.trans {a b c : ScheduleDatabase} (h : FencesGrow a b) (h' : FencesGrow b c) :
    FencesGrow a c := by
  intro r hr
  obtain ⟨r', hr', hid, hf⟩ := h r hr
  obtain ⟨r'', hr'', hid', hf'⟩ := h' r' hr'
  exact ⟨r'', hr'', hid'.trans hid, hf.trans hf'⟩

theorem fencesGrow_refl (db : ScheduleDatabase) : FencesGrow db db :=
  fun r hr => ⟨r, hr, rfl, le_rfl⟩

theorem fencesGrow_replaced {db db' : ScheduleDatabase} {row row' : AssistantSchedule}
    (h : Table.Replaces db.schedules db'.schedules row row')
    (hf : row.leaseFence ≤ row'.leaseFence) : FencesGrow db db' := by
  intro r hr
  by_cases hid : r.id = row.id
  · exact ⟨row', h.mem, h.2.1.trans hid.symm, by rwa [Table.eq_of_key hr h.1 hid]⟩
  · exact ⟨r, h.mem_other hr hid, rfl, le_rfl⟩

theorem fencesGrow_claimRows (worker : String) (now leaseUntil : Time)
    (rows : List AssistantSchedule) (db : ScheduleDatabase) :
    FencesGrow db (ScheduleDatabase.claimRows worker now leaseUntil rows db).2 := by
  induction rows generalizing db with
  | nil => exact fencesGrow_refl db
  | cons row rows ih =>
    simp only [ScheduleDatabase.claimRows]
    split
    · exact ih db
    · rename_i claim db' hclaim
      obtain ⟨r, _, _, hrep, _⟩ := ScheduleDatabase.claimRow_some hclaim
      exact (fencesGrow_replaced hrep (Nat.le_succ _)).trans (ih db')

variable {σ τ : ScheduleWorld}

theorem fencesGrow_after (h : σ.Ok next interpret validRule) (act : ScheduleAct)
    (hu : Undisturbed σ act) : FencesGrow σ.db (σ.after next interpret validRule act).db := by
  cases act with
  | read _ _ _ _ =>
    simp only [ScheduleWorld.after]
    split <;> exact fencesGrow_refl _
  | save e =>
    simp only [ScheduleWorld.after]
    split
    · rename_i he
      split
      · rename_i x hx
        obtain ⟨row, hid, hrev, hrep, _⟩ := ScheduleDatabase.save_ok hx
        obtain ⟨⟨_, hmade⟩, _, _, hread⟩ := h.edits e he
        obtain ⟨hrid, hrf, _, _⟩ := AssistantSchedule.changed_ok hmade
        have hsame := hread (hu he ⟨row, hrep.1, hid, hrev⟩) row hrep.1 (hid.trans hrid) hrev
        exact fencesGrow_replaced hrep (hrf.trans hsame.1.symm).ge
      · exact fencesGrow_refl _
    · exact fencesGrow_refl _
  | claimReady workerId locked now leaseUntil limit =>
    simp only [ScheduleWorld.after]
    split
    · rename_i claims db hx
      simp only [ScheduleDatabase.claimReady] at hx
      split at hx
      · cases hx
      split at hx
      · cases hx
      split at hx
      · cases hx
      · obtain ⟨_, rfl⟩ := Prod.mk.inj (Except.ok.inj hx)
        exact fencesGrow_claimRows _ _ _ _ _
    · exact fencesGrow_refl _
  | process _ _ _ _ =>
    simp only [ScheduleWorld.after]
    split
    · exact fencesGrow_refl _
    · split
      · split <;> exact fencesGrow_refl _
      · exact fencesGrow_refl _
  | settle s =>
    simp only [ScheduleWorld.after]
    split
    · rename_i hs
      split
      · rename_i row db hx
        obtain hn | ⟨r, hh, hr, hrep, _⟩ := ScheduleDatabase.settleClaim_cases hx
        · cases hn
        · have hok := h.settlements s hs
          obtain rfl := hok.fresh (hu hs ⟨r, hrep.1, hh, hr⟩) r hrep.1 ⟨hh, hr⟩
          obtain ⟨_, _, _, _, _, hmade, hres⟩ := hok.made
          obtain ⟨_, hf, _⟩ := ScheduleDatabase.prepareClaim_guards hmade
          rw [hres] at hrep
          exact fencesGrow_replaced hrep hf.ge
      · exact fencesGrow_refl _
    · exact fencesGrow_refl _
  | abandon claim =>
    simp only [ScheduleWorld.after]
    obtain he | ⟨_, row, _, hrep⟩ := σ.db.abandonClaim_cases claim
    · rw [he]
      exact fencesGrow_refl _
    · exact fencesGrow_replaced hrep (Nat.le_succ _)
  | occurrences _ => exact fencesGrow_refl _

theorem ok_runs (h : σ.Ok next interpret validRule)
    (hr : UndisturbedRuns next interpret validRule σ τ) : τ.Ok next interpret validRule :=
  hr.invariant (I := fun σ => σ.Ok next interpret validRule)
    (fun _ act _ hi hu hs => hs ▸ hi.after act hu) h

theorem fencesGrow_runs (h : σ.Ok next interpret validRule)
    (hr : UndisturbedRuns next interpret validRule σ τ) : FencesGrow σ.db τ.db :=
  hr.history (I := fun σ => σ.Ok next interpret validRule)
    (R := fun σ τ => FencesGrow σ.db τ.db) (fun σ => fencesGrow_refl σ.db)
    (fun (a b c : ScheduleWorld) (h : FencesGrow a.db b.db) (h' : FencesGrow b.db c.db) =>
      h.trans h')
    (fun _ act _ hi hu hs => hs ▸ hi.after act hu)
    (fun _ act _ hi hu hs => hs ▸ fencesGrow_after hi act hu) h

theorem ok_idle (db : ScheduleDatabase) :
    (ScheduleWorld.idle db).Ok next interpret validRule where
  edits _ he := absurd he List.not_mem_nil
  settlements _ hs := absurd hs List.not_mem_nil
  claims _ hc := absurd hc List.not_mem_nil
  distinct := List.Pairwise.nil

end Runs

section Result

variable (next : ScheduleRule → Time → Except ScheduleError Time)
  (interpret : String → Except ScheduleError Interpretation)
  (validRule : AssistantSchedule → Except ScheduleError Unit)

/-- No change of a schedule is lost in a state or in its next step. -/
structure ChangesKept (σ : ScheduleWorld) : Prop where
  /-- What a settlement writes is what `_process_claim` makes of the row that it
  overwrites, with whatever users have made of it before. -/
  settled : ∀ s ∈ σ.settlements, Undisturbed σ (.settle s) → ∀ r ∈ σ.db.schedules, s.Target r →
    s.read = r ∧ ∃ d now newId answer x,
      ScheduleDatabase.prepareClaim next d r now newId answer = .ok x ∧ s.result = x.2.1.released
  /-- What a user saves has the last instant of the row that it overwrites, and the
  next one too unless it sets it. -/
  advance : ∀ e ∈ σ.edits, Undisturbed σ (.save e) → ∀ r ∈ σ.db.schedules, e.Target r →
    e.result.lastFireAt = r.lastFireAt ∧ (¬ e.change.Edits → e.result.nextFireAt = r.nextFireAt)
  fences : ∀ τ, UndisturbedRuns next interpret validRule σ τ → FencesGrow σ.db τ.db
  claims : σ.claims.Pairwise fun c d => c.scheduleId = d.scheduleId → c.leaseFence ≠ d.leaseFence

theorem schedule_changes_kept {db : ScheduleDatabase} {σ : ScheduleWorld}
    (h : UndisturbedRuns next interpret validRule (.idle db) σ) :
    ChangesKept next interpret validRule σ := by
  have hok : σ.Ok next interpret validRule := ok_runs (ok_idle db) h
  refine ⟨fun s hs hu r hr ht => ?_, fun e he hu r hr ht => ?_, fun τ hτ =>
    fencesGrow_runs hok hτ, hok.distinct.imp fun hlt hid => (hlt hid).ne⟩
  · have hsok := hok.settlements s hs
    have hread := hsok.fresh (hu hs ⟨r, hr, ht⟩) r hr ht
    refine ⟨hread.symm, ?_⟩
    rw [hread]
    exact hsok.made
  · obtain ⟨⟨_, hmade⟩, _, _, hread⟩ := hok.edits e he
    obtain ⟨hid, _, hl, hkind⟩ := AssistantSchedule.changed_ok hmade
    have hsame := hread (hu he ⟨r, hr, ht⟩) r hr (ht.1.trans hid) ht.2
    refine ⟨hl.trans hsame.2.1.symm, fun hn => ?_⟩
    obtain ⟨hedit, _⟩ | ⟨_, _, hnext⟩ := hkind
    · exact absurd hedit hn
    · exact hnext.trans hsame.2.2.symm

end Result

section Schedules

def noInterpretation : String → Except ScheduleError Interpretation :=
  fun _ => .error (.valueError "Assistant schedule instruction is ambiguous")

def anyRule : AssistantSchedule → Except ScheduleError Unit := fun _ => .ok ()

def worldAfter (db : ScheduleDatabase) (acts : List ScheduleAct) : ScheduleWorld :=
  acts.foldl (fun σ act => σ.after everyHour noInterpretation anyRule act) (.idle db)

def hourlyClaimed : AssistantSchedule :=
  { hourly with leaseOwner := some "worker", leaseUntil := some 130, leaseFence := 1,
                updatedAt := 100 }

/-- The first instant, settled in time. -/
def hourlySettlement : Settlement where
  claim := hourlyClaim
  read := hourlyClaimed
  result := { hourlyClaimed with nextFireAt := 3700, lastFireAt := some 100, updatedAt := 100,
                                 leaseOwner := none, leaseUntil := none }
  overtaken := false

def claimAct : ScheduleAct := .claimReady "worker" [] 100 130 1

def processAct : ScheduleAct := .process hourlyClaim 100 7 .kept

theorem undisturbed_once : UndisturbedRuns everyHour noInterpretation anyRule
    (.idle hourlyDatabase) (worldAfter hourlyDatabase [claimAct, processAct]) := by
  have hclaim : UndisturbedRuns everyHour noInterpretation anyRule (.idle hourlyDatabase)
      (worldAfter hourlyDatabase [claimAct]) := Run.single (i := claimAct) trivial rfl
  exact hclaim.next (i := processAct) trivial rfl

theorem schedule_changes_kept_once :
    (worldAfter hourlyDatabase [claimAct, processAct]).settlements = [hourlySettlement] ∧
      ChangesKept everyHour noInterpretation anyRule
        (worldAfter hourlyDatabase [claimAct, processAct]) :=
  ⟨by decide +kernel,
    schedule_changes_kept everyHour noInterpretation anyRule undisturbed_once⟩

/-- A pause that has read the schedule before the claim. -/
def latePause : Edit where
  change := .pause
  expectedRevision := 1
  read := hourly
  result := { hourly with status := .paused, pausedAt := some 90, updatedAt := 90 }
  overtaken := true

/-- The occurrence that the claim has left pending. -/
def hourlyOccurrence : AssistantScheduleOccurrence := .newPending 7 1 1 100 0 none 100

/-- The schedule is read for a pause, claimed, settled, and then saved as it was read. -/
def lateActs : List ScheduleAct :=
  [.read 1 1 .pause 90, claimAct, processAct, .settle hourlySettlement,
   .occurrences (tableOf AssistantScheduleOccurrence.id hourlyOccurrence)]

def pausedDatabase : ScheduleDatabase :=
  ⟨tableOf AssistantSchedule.id { hourly with status := .paused, pausedAt := some 90 },
    tableOf AssistantScheduleOccurrence.id hourlyOccurrence⟩

/-- The pending occurrence of a paused schedule is claimed and its row is read. -/
def stalePaused : AssistantSchedule :=
  { hourlyClaimed with status := .paused, pausedAt := some 90 }

def staleSettlement : Settlement where
  claim := hourlyClaim
  read := stalePaused
  result := { stalePaused with leaseOwner := none, leaseUntil := none }
  overtaken := true

def lateResume : Edit where
  change := .resume
  expectedRevision := 1
  read := stalePaused
  result := { stalePaused with status := .active, pausedAt := none, updatedAt := 110 }
  overtaken := false

def resumeActs : List ScheduleAct :=
  [claimAct, processAct, .read 1 1 .resume 110, .save lateResume]

/-- The columns of the schedules that are at stake. -/
def atStake (σ : ScheduleWorld) :
    List (AssistantScheduleStatus × Time × Option Time × Nat) :=
  σ.db.schedules.rows.map fun r => (r.status, r.nextFireAt, r.lastFireAt, r.leaseFence)

theorem schedule_changes_lost :
    -- the settled instant and the fence are undone by the save, and the fence is given again
    atStake (worldAfter hourlyDatabase lateActs) = [(.active, 3700, some 100, 1)] ∧
    atStake (worldAfter hourlyDatabase (lateActs ++ [.save latePause])) =
      [(.paused, 100, none, 0)] ∧
    (worldAfter hourlyDatabase (lateActs ++ [.save latePause, claimAct])).claims =
      [hourlyClaim, hourlyClaim] ∧
    -- a resume that has returned is undone by the settlement of an earlier claim
    atStake (worldAfter pausedDatabase resumeActs) = [(.active, 100, none, 1)] ∧
    atStake (worldAfter pausedDatabase (resumeActs ++ [.settle staleSettlement])) =
      [(.paused, 100, none, 1)] :=
  ⟨by decide +kernel, by decide +kernel, by decide +kernel, by decide +kernel,
    by decide +kernel⟩

end Schedules

end Fairy.Assistant
