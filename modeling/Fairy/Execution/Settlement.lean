import Fairy.Execution.World

namespace Fairy.Execution

open Fairy.Lib

/-- What the status of a job says of its spawn and of its result. -/
structure ExecutionJob.Sound (a : ExecutionJob) : Prop where
  waiting : a.status = .queued ∨ a.status = .claimed → a.spawnedAt = none ∧ a.result = none
  running : a.status = .running → a.spawnedAt ≠ none ∧ a.result = none
  recorded : a.status = .resultRecorded → a.spawnedAt ≠ none
  settled : a.status.terminal → ∀ r ∈ a.result, a.status = terminalStatus r.status

/-- How many events of a kind the log must have for a row. -/
def marks {α : Type} (column : Option α) : Nat := if column = none then 0 else 1

/-- One job before and after a call. -/
def Becomes (a b : ExecutionJob) (e : Option JobEvent) : Prop :=
  (b = a ∧ ∀ event ∈ e, event.key ≠ a.key) ∨ Change a b e

/-- What no later call takes back from a job. -/
structure ExecutionJob.Keeps (a b : ExecutionJob) : Prop where
  key : b.key = a.key
  terminal : a.status.terminal → b = a
  result : ∀ r ∈ a.result, b.result = some r
  cancelled : a.cancelRequested ∨ a.status.terminal → a.spawnedAt = none →
    b.spawnedAt = none ∧ (b.cancelRequested ∨ b.status.terminal)
  fence : a.leaseFence ≤ b.leaseFence

theorem ExecutionJob.Keeps.refl (a : ExecutionJob) : a.Keeps a :=
  ⟨rfl, fun _ => rfl, fun _ h => h, fun h hs => ⟨hs, h⟩, Nat.le_refl _⟩

variable {x : Digest} {w w' : World} {act : JobAct} {a b c : ExecutionJob} {e : Option JobEvent}

theorem ExecutionJob.Keeps.trans (h : a.Keeps b) (h' : b.Keeps c) : a.Keeps c where
  key := h'.key.trans h.key
  terminal ht := by
    obtain rfl := h.terminal ht
    exact h'.terminal ht
  result r hr := h'.result r (h.result r hr)
  cancelled hc hs := h'.cancelled (h.cancelled hc hs).2 (h.cancelled hc hs).1
  fence := Nat.le_trans h.fence h'.fence

theorem Change.event_key {event : JobEvent} (h : Change a b (some event)) :
    event.key = a.key := by
  cases h <;> rfl

theorem Change.open (h : Change a b e) : a.status.terminal = false := by
  cases h with
  | cancel _ hopen => exact hopen
  | claim _ _ _ h =>
    obtain h | h | h := h
    · rw [h]
      rfl
    · rw [h.1]
      rfl
    · rw [h.1]
      rfl
  | spawn _ _ h | cancelByWorker _ h | record _ _ h | finalize _ _ h | expire _ h =>
    rw [h]
    rfl
  | interrupt _ h => obtain h | h := h <;> rw [h] <;> rfl

theorem terminalStatus_terminal (s : SandboxResultStatus) : (terminalStatus s).terminal := by
  cases s <;> rfl

theorem ExecutionJob.claimedBy_status {now : Time} (ownerId : String) (leaseSeconds : Nat)
    (h : a.Claimable now) :
    (a.claimedBy now ownerId leaseSeconds).status = .claimed ∧
        (a.status = .queued ∨ a.status = .claimed) ∨
      (a.claimedBy now ownerId leaseSeconds).status = .resultRecorded ∧
        a.status = .resultRecorded := by
  obtain h | ⟨h, -⟩ | ⟨h, -⟩ := h <;> simp [ExecutionJob.claimedBy, ExecutionJob.claimAction, h]

theorem ExecutionJob.Sound.of_terminal (h : a.status.terminal)
    (hr : ∀ r ∈ a.result, a.status = terminalStatus r.status) : a.Sound := by
  refine ⟨fun hs => ?_, fun hs => ?_, fun hs => ?_, fun _ => hr⟩
  · obtain hs | hs := hs <;> simp [hs, ExecutionJobStatus.terminal] at h
  · simp [hs, ExecutionJobStatus.terminal] at h
  · simp [hs, ExecutionJobStatus.terminal] at h

theorem Change.sound (h : Change a b e) (ha : a.Sound) : b.Sound := by
  have hnone : a.result = none → ∀ {s : ExecutionJobStatus}, ∀ r ∈ a.result,
      s = terminalStatus r.status :=
    fun h _ r hr => absurd (hr.symm.trans h) (Option.some_ne_none r)
  cases h with
  | cancel now hopen =>
    simp only [ExecutionJob.cancelRequestedAt]
    split
    · rename_i hqueued
      exact .of_terminal rfl (hnone (ha.waiting (.inl hqueued)).2)
    · exact ⟨ha.waiting, ha.running, ha.recorded, ha.settled⟩
  | claim now ownerId leaseSeconds hclaimable =>
    obtain ⟨hb, h⟩ | ⟨hb, h⟩ := ExecutionJob.claimedBy_status ownerId leaseSeconds
        hclaimable
    · exact ⟨fun _ => ha.waiting h, by simp [hb], by simp [hb],
        by simp [hb, ExecutionJobStatus.terminal]⟩
    · exact ⟨by simp [hb], by simp [hb], fun _ => ha.recorded h,
        by simp [hb, ExecutionJobStatus.terminal]⟩
  | spawn now _ hclaimed _ =>
    exact ⟨by simp [ExecutionJob.spawnedWith], fun _ =>
      ⟨Option.some_ne_none now, (ha.waiting (.inr hclaimed)).2⟩,
      by simp [ExecutionJob.spawnedWith], by simp [ExecutionJob.spawnedWith, ExecutionJobStatus.terminal]⟩
  | cancelByWorker now hclaimed | expire now hclaimed =>
    exact .of_terminal rfl (hnone (ha.waiting (.inr hclaimed)).2)
  | record now _ hrunning =>
    exact ⟨by simp [ExecutionJob.recordedWith], by simp [ExecutionJob.recordedWith],
      fun _ => (ha.running hrunning).1,
      by simp [ExecutionJob.recordedWith, ExecutionJobStatus.terminal]⟩
  | finalize now result hrecorded hread =>
    refine .of_terminal (terminalStatus_terminal _) fun r hr => ?_
    obtain rfl := Option.some.inj (hread.symm.trans hr)
    rfl
  | interrupt now hactive =>
    refine .of_terminal rfl (hnone ?_)
    obtain h | h := hactive
    · exact (ha.waiting (.inr h)).2
    · exact (ha.running h).2

theorem Change.keeps (h : Change a b e) (ha : a.Sound) : a.Keeps b := by
  have hopen : ∀ {p : Prop}, a.status.terminal → p := fun ht => by simp [h.open] at ht
  have hcancel : a.cancelRequested ∨ a.status.terminal → a.cancelRequested :=
    fun hc => hc.elim id hopen
  cases h with
  | cancel now _ =>
    simp only [ExecutionJob.cancelRequestedAt]
    split <;> exact ⟨rfl, hopen, fun _ h => h, fun _ hs => ⟨hs, .inl rfl⟩, Nat.le_refl _⟩
  | claim =>
    exact ⟨rfl, hopen, fun _ h => h, fun hc hs => ⟨hs, .inl (hcancel hc)⟩, Nat.le_succ _⟩
  | spawn now _ _ hwanted =>
    exact ⟨rfl, hopen, fun _ h => h,
      fun hc _ => absurd (hwanted.symm.trans (hcancel hc)) Bool.false_ne_true, Nat.le_refl _⟩
  | cancelByWorker | interrupt | expire =>
    exact ⟨rfl, hopen, fun _ h => h, fun _ hs => ⟨hs, .inr rfl⟩, Nat.le_refl _⟩
  | record now result hrunning =>
    refine ⟨rfl, hopen, fun r hr => ?_, fun _ hs => ?_, Nat.le_refl _⟩
    · exact absurd (hr.symm.trans (ha.running hrunning).2) (Option.some_ne_none r)
    · exact absurd hs (ha.running hrunning).1
  | finalize now result hrecorded hread =>
    exact ⟨rfl, hopen, fun _ h => h, fun _ hs => absurd hs (ha.recorded hrecorded), Nat.le_refl _⟩

theorem Change.spawns (h : Change a b e) (ha : a.Sound) :
    marks b.spawnedAt = marks a.spawnedAt + e.toList.count (.spawned a.key) := by
  cases h with
  | cancel =>
    simp only [ExecutionJob.cancelRequestedAt]
    split <;> rfl
  | claim => simp [ExecutionJob.claimedBy]
  | spawn now _ hclaimed _ =>
    simp [ExecutionJob.spawnedWith, marks, (ha.waiting (.inr hclaimed)).1]
  | record => simp [ExecutionJob.recordedWith]
  | cancelByWorker | finalize | interrupt | expire => rfl

theorem Change.records (h : Change a b e) (ha : a.Sound) :
    marks b.result = marks a.result + e.toList.count (.recorded a.key) := by
  cases h with
  | cancel =>
    simp only [ExecutionJob.cancelRequestedAt]
    split <;> rfl
  | claim => simp [ExecutionJob.claimedBy]
  | spawn => simp [ExecutionJob.spawnedWith]
  | record now result hrunning =>
    simp [ExecutionJob.recordedWith, marks, (ha.running hrunning).2]
  | cancelByWorker | finalize | interrupt | expire => rfl

theorem Change.claims {claim : ExecutionClaim} (h : Change a b (some (.claimed claim))) :
    claim.job = b ∧ a.leaseFence < b.leaseFence := by
  cases h with
  | claim => exact ⟨rfl, Nat.lt_succ_self _⟩

namespace Becomes

theorem key (h : Becomes a b e) : b.key = a.key :=
  h.elim (fun h => by rw [h.1]) Change.key

theorem sound (h : Becomes a b e) (ha : a.Sound) : b.Sound :=
  h.elim (fun h => h.1 ▸ ha) fun h => h.sound ha

theorem keeps (h : Becomes a b e) (ha : a.Sound) : a.Keeps b :=
  h.elim (fun h => h.1 ▸ .refl a) fun h => h.keeps ha

theorem count_other (event : JobEvent) (h : ∀ event' ∈ e, event'.key ≠ a.key)
    (he : event.key = a.key) : e.toList.count event = 0 := by
  refine List.count_eq_zero_of_not_mem fun hmem => ?_
  exact h event (Option.mem_toList.mp hmem) he

theorem spawns (h : Becomes a b e) (ha : a.Sound) :
    marks b.spawnedAt = marks a.spawnedAt + e.toList.count (.spawned a.key) := by
  obtain ⟨rfl, h⟩ | h := h
  · rw [count_other (.spawned b.key) h rfl, Nat.add_zero]
  · exact h.spawns ha

theorem records (h : Becomes a b e) (ha : a.Sound) :
    marks b.result = marks a.result + e.toList.count (.recorded a.key) := by
  obtain ⟨rfl, h⟩ | h := h
  · rw [count_other (.recorded b.key) h rfl, Nat.add_zero]
  · exact h.records ha

end Becomes

/-- What a call does to every row, and the event that it logs. -/
structure Evolves (w w' : World) (e : Option JobEvent) : Prop where
  log : w'.log = w.log ++ e.toList
  kept : ∀ a ∈ w.jobs, ∃ b ∈ w'.jobs, Becomes a b e
  rows : ∀ b ∈ w'.jobs, (∃ a ∈ w.jobs, Becomes a b e) ∨
    (e = none ∧ (∀ a ∈ w.jobs, a.key ≠ b.key) ∧ b.status = .queued ∧ b.spawnedAt = none ∧
      b.result = none)
  event : ∀ event ∈ e, ∃ a ∈ w.jobs, ∃ b ∈ w'.jobs, Change a b (some event)

theorem not_mem_none {p : JobEvent → Prop} : ∀ event ∈ (none : Option JobEvent), p event :=
  fun _ h => absurd (Option.mem_def.mp h).symm (Option.some_ne_none _)

theorem Move.evolves (h : Move w w') : ∃ e, Evolves w w' e := by
  cases h with
  | quiet f hjobs hchange hlog =>
    have hbecomes : ∀ a ∈ w.jobs, Becomes a (f a) none := fun a ha =>
      (hchange a ha).imp (fun h => ⟨h, not_mem_none⟩) id
    refine ⟨none, by simpa using hlog, fun a ha => ?_, fun b hb => .inl ?_, not_mem_none⟩
    · exact ⟨f a, (Table.mem_of_rows_map hjobs).mpr ⟨a, ha, rfl⟩, hbecomes a ha⟩
    · obtain ⟨a, ha, rfl⟩ := (Table.mem_of_rows_map hjobs).mp hb
      exact ⟨a, ha, hbecomes a ha⟩
  | event a b event hjobs hchange hlog =>
    have hkey := hchange.event_key
    have hother : ∀ c ∈ w.jobs, c.key ≠ a.key → Becomes c c (some event) := by
      refine fun c _ hne => .inl ⟨rfl, fun event' he' hk => hne ?_⟩
      obtain rfl := Option.some.inj he'
      exact hk.symm.trans hkey
    refine ⟨some event, hlog, fun c hc => ?_, fun c hc => .inl ?_, fun event' he' => ?_⟩
    · by_cases hk : c.key = a.key
      · obtain rfl := Table.eq_of_key hc hjobs.1 hk
        exact ⟨b, hjobs.mem, .inr hchange⟩
      · exact ⟨c, hjobs.mem_other hc hk, hother c hc hk⟩
    · obtain rfl | ⟨hc, hk⟩ := hjobs.cases hc
      · exact ⟨a, hjobs.1, .inr hchange⟩
      · exact ⟨c, hc, hother c hc hk⟩
    · obtain rfl := Option.some.inj he'
      exact ⟨a, hjobs.1, b, hjobs.mem, hchange⟩
  | created row hfresh hstatus hunspawned hunrecorded hjobs hlog =>
    have hself : ∀ a, Becomes a a none := fun a => .inl ⟨rfl, not_mem_none⟩
    refine ⟨none, by simpa using hlog, fun a ha => ?_, fun b hb => ?_, not_mem_none⟩
    · exact ⟨a, (Table.mem_of_rows_append hjobs).mpr (.inl ha), hself a⟩
    · obtain hb | hb := (Table.mem_of_rows_append hjobs).mp hb
      · exact .inl ⟨b, hb, hself b⟩
      · obtain rfl := List.mem_singleton.mp hb
        exact .inr ⟨rfl, hfresh, hstatus, hunspawned, hunrecorded⟩

/-- Of two claims of a job, the later one has the higher fence. -/
def Superseding (e e' : JobEvent) : Prop :=
  ∀ c d, e = .claimed c → e' = .claimed d → c.job.key = d.job.key →
    c.job.leaseFence < d.job.leaseFence

namespace World

/-- What every call keeps true of the jobs and of what has happened to them. -/
structure Sound (w : World) : Prop where
  rows : ∀ a ∈ w.jobs, a.Sound
  reads : w.ReadsTrue
  owned : ∀ event ∈ w.log, ∃ a ∈ w.jobs, a.key = event.key
  spawned : ∀ a ∈ w.jobs, w.log.count (.spawned a.key) = marks a.spawnedAt
  recorded : ∀ a ∈ w.jobs, w.log.count (.recorded a.key) = marks a.result
  fenced : ∀ c, .claimed c ∈ w.log → ∀ a ∈ w.jobs, a.key = c.job.key →
    c.job.leaseFence ≤ a.leaseFence
  ordered : w.log.Pairwise Superseding

theorem sound_initial : initial.Sound where
  rows _ h := absurd h (Table.not_mem_empty _)
  reads _ _ h := absurd h List.not_mem_nil
  owned _ h := absurd h List.not_mem_nil
  spawned _ h := absurd h (Table.not_mem_empty _)
  recorded _ h := absurd h (Table.not_mem_empty _)
  fenced _ h := absurd h List.not_mem_nil
  ordered := List.Pairwise.nil

namespace Sound

theorem count_absent (h : w.Sound) (event : JobEvent) (hf : ∀ a ∈ w.jobs, a.key ≠ event.key) :
    w.log.count event = 0 := by
  refine List.count_eq_zero_of_not_mem fun hmem => ?_
  obtain ⟨a, ha, hk⟩ := h.owned event hmem
  exact hf a ha hk

theorem evolves (h : w.Sound) (hv : Evolves w w' e) (hreads : w'.ReadsTrue) : w'.Sound := by
  have hlog : ∀ event ∈ w'.log, event ∈ w.log ∨ event ∈ e := by
    intro event hmem
    rw [hv.log, List.mem_append, Option.mem_toList] at hmem
    exact hmem
  have hfence : ∀ c, .claimed c ∈ e → ∃ a ∈ w.jobs, ∃ b ∈ w'.jobs, Becomes a b e ∧
      c.job = b ∧ a.leaseFence < b.leaseFence := by
    intro c hc
    obtain ⟨a, ha, b, hb, hchange⟩ := hv.event _ hc
    obtain rfl := Option.mem_def.mp hc
    exact ⟨a, ha, b, hb, .inr hchange, hchange.claims⟩
  refine ⟨fun b hb => ?_, hreads, fun event hmem => ?_, fun b hb => ?_, fun b hb => ?_,
    fun c hc b hb hk => ?_, ?_⟩
  · obtain ⟨a, ha, hab⟩ | ⟨-, -, hqueued, hspawned, hresult⟩ := hv.rows b hb
    · exact hab.sound (h.rows a ha)
    · refine ⟨fun _ => ⟨hspawned, hresult⟩, ?_, ?_, ?_⟩ <;>
        simp [hqueued, ExecutionJobStatus.terminal]
  · obtain hmem | hmem := hlog event hmem
    · obtain ⟨a, ha, hk⟩ := h.owned event hmem
      obtain ⟨b, hb, hab⟩ := hv.kept a ha
      exact ⟨b, hb, hab.key.trans hk⟩
    · obtain ⟨a, _, b, hb, hchange⟩ := hv.event event hmem
      exact ⟨b, hb, hchange.key.trans hchange.event_key.symm⟩
  · rw [hv.log, List.count_append]
    obtain ⟨a, ha, hab⟩ | ⟨rfl, hfresh, -, hspawned, -⟩ := hv.rows b hb
    · rw [hab.spawns (h.rows a ha), hab.key, h.spawned a ha]
    · rw [h.count_absent (.spawned b.key) hfresh, hspawned]
      rfl
  · rw [hv.log, List.count_append]
    obtain ⟨a, ha, hab⟩ | ⟨rfl, hfresh, -, -, hresult⟩ := hv.rows b hb
    · rw [hab.records (h.rows a ha), hab.key, h.recorded a ha]
    · rw [h.count_absent (.recorded b.key) hfresh, hresult]
      rfl
  · obtain hmem | hmem := hlog _ hc
    · obtain ⟨a, ha, hab⟩ | ⟨-, hfresh, -⟩ := hv.rows b hb
      · have hle := h.fenced c hmem a ha (hab.key.symm.trans hk)
        exact Nat.le_trans hle (hab.keeps (h.rows a ha)).fence
      · obtain ⟨a, ha, hak⟩ := h.owned _ hmem
        exact absurd (hak.trans hk.symm) (hfresh a ha)
    · obtain ⟨a, ha, b', hb', hab, hjob, _⟩ := hfence c hmem
      obtain rfl := Table.eq_of_key hb hb' (hk.trans (by rw [hjob]))
      exact Nat.le_of_eq (by rw [hjob])
  · rw [hv.log, List.pairwise_append]
    refine ⟨h.ordered, ?_, fun event hmem event' he' => ?_⟩
    · cases e <;> simp
    · rintro c d rfl rfl hkey
      obtain ⟨a, ha, b, hb, hab, rfl, hlt⟩ := hfence d (Option.mem_toList.mp he')
      exact Nat.lt_of_le_of_lt (h.fenced c hmem a ha (hab.key.symm.trans hkey.symm)) hlt

end Sound

theorem reads_after {c : ExecutionClaim} {status : ExecutionJobStatus}
    (h : (c, status) ∈ (w.after x act).reads) : (c, status) ∈ w.reads ∨
      (w.after x act).jobs = w.jobs ∧ w.jobs.finalizeRead c = .ok status := by
  have hput : ∀ {w : World} {event : Option JobEvent} {r : Except ExecutionError Jobs},
      (w.put event r).reads = w.reads := by
    intro w event r
    cases r <;> rfl
  cases act with
  | enqueue | requestCancel | markSpawned | markCancelled | recordResult | markInterrupted
  | reconcileExpired =>
    rw [after, hput] at h
    exact .inl h
  | claimNext =>
    simp only [after] at h
    split at h
    · rw [hput] at h
      exact .inl h
    · exact .inl h
    · exact .inl h
  | finalizeRead claim =>
    simp only [after] at h ⊢
    split at h
    · rename_i hread
      obtain h | h := List.mem_cons.mp h
      · cases h
        exact .inr ⟨rfl, hread⟩
      · exact .inl h
    · exact .inl h
  | finalizeWrite =>
    simp only [after] at h
    split at h
    · rw [hput] at h
      exact .inl (List.mem_of_mem_erase h)
    · exact .inl h

theorem finalizeRead_ok {jobs : Jobs} {c : ExecutionClaim} {status : ExecutionJobStatus}
    (h : jobs.finalizeRead c = .ok status) : ∃ a ∈ jobs, a.key = c.job.key ∧
      ∃ r, a.result = some r ∧ status = terminalStatus r.status := by
  simp only [Jobs.finalizeRead] at h
  cases hrow : jobs.oneOrNone (c.Holds .resultRecorded) with
  | none => simp [hrow] at h
  | some row =>
    obtain ⟨hmem, hholds⟩ := Table.oneOrNone_eq_some hrow
    cases hresult : row.result with
    | none => simp [hrow, hresult] at h
    | some r =>
      simp only [hrow, hresult, Except.ok.injEq] at h
      exact ⟨row, hmem, hholds.1, r, hresult, h.symm⟩

variable (x act) in
theorem Sound.evolution (h : w.Sound) : ∃ e, Evolves w (w.after x act) e :=
  (after_move h.reads).evolves

theorem Sound.after (h : w.Sound) : (w.after x act).Sound := by
  obtain ⟨e, hv⟩ := h.evolution x act
  refine h.evolves hv fun c status hread => ?_
  obtain hread | ⟨hjobs, hread⟩ := reads_after hread
  · obtain ⟨a, ha, hk, r, hr, hstatus⟩ := h.reads c status hread
    obtain ⟨b, hb, hab⟩ := hv.kept a ha
    exact ⟨b, hb, hab.key.trans hk, r, (hab.keeps (h.rows a ha)).result r hr, hstatus⟩
  · rw [hjobs]
    exact finalizeRead_ok hread

theorem Sound.run (h : w.Sound) (hr : Run (Step x) (fun _ _ => True) w w') : w'.Sound := by
  refine hr.invariant (fun a i b ha _ hs => ?_) h
  rw [hs]
  exact ha.after

/-- What later calls keep of every job. -/
theorem Sound.later (h : w.Sound) (hr : Run (Step x) (fun _ _ => True) w w') :
    ∀ a ∈ w.jobs, ∃ b ∈ w'.jobs, a.Keeps b := by
  refine hr.history (I := Sound) (R := fun w w' => ∀ a ∈ w.jobs, ∃ b ∈ w'.jobs, a.Keeps b)
    (fun w a ha => ⟨a, ha, .refl a⟩) (fun u v w huv hvw a ha => ?_) (fun a i b ha _ hs => ?_)
    (fun u i v hu _ hs a ha => ?_) h
  · obtain ⟨b, hb, hab⟩ := huv a ha
    obtain ⟨c, hc, hbc⟩ := hvw b hb
    exact ⟨c, hc, hab.trans hbc⟩
  · rw [hs]
    exact ha.after
  · obtain ⟨e, hv⟩ := hu.evolution x i
    rw [← show v = u.after x i from hs] at hv
    obtain ⟨b, hb, hab⟩ := hv.kept a ha
    exact ⟨b, hb, hab.keeps (hu.rows a ha)⟩

end World

/-- One execution and one settlement of every job, in every order of the calls. -/
structure SettledOnce (x : Digest) (w : World) : Prop where
  spawned : ∀ key, w.log.count (.spawned key) ≤ 1
  recorded : ∀ key, w.log.count (.recorded key) ≤ 1
  mapped : ∀ a ∈ w.jobs, a.status.terminal → ∀ r ∈ a.result, a.status = terminalStatus r.status
  uninterrupted : ∀ a ∈ w.jobs, a.result ≠ none → a.status ≠ .interrupted
  superseded : ∀ c d act, List.Sublist [.claimed c, .claimed d] w.log → c.job.key = d.job.key →
    act.claim? = some c → (w.after x act).jobs = w.jobs ∧ (w.after x act).log = w.log
  later : ∀ w', Run (World.Step x) (fun _ _ => True) w w' → ∀ a ∈ w.jobs, ∃ b ∈ w'.jobs,
    b.key = a.key ∧ (a.status.terminal → b = a) ∧ ∀ r ∈ a.result, b.result = some r
  cancelled : ∀ now key jobs w', .spawned key ∉ w.log → w.jobs.requestCancel now key = .ok jobs →
    Run (World.Step x) (fun _ _ => True) (w.after x (.requestCancel now key)) w' →
    .spawned key ∉ w'.log

theorem ExecutionClaim.not_holds {jobs : Jobs} {claim : ExecutionClaim}
    (h : ∀ a ∈ jobs, a.key = claim.job.key → claim.job.leaseFence < a.leaseFence)
    (status : ExecutionJobStatus) : ∀ a ∈ jobs, ¬ claim.Holds status a :=
  fun a ha hp => absurd hp.2.2.2 (Nat.ne_of_gt (h a ha hp.1))

namespace World

/-- A call with a claim whose fence is behind the job's changes nothing. -/
theorem after_superseded {claim : ExecutionClaim}
    (h : ∀ a ∈ w.jobs, a.key = claim.job.key → claim.job.leaseFence < a.leaseFence)
    (hc : act.claim? = some claim) :
    (w.after x act).jobs = w.jobs ∧ (w.after x act).log = w.log := by
  have hnone := ExecutionClaim.not_holds h
  have hfence : ∀ status message, w.jobs.requireFence (claim.Holds status) message =
      .error (.workerFence message) := by
    intro status message
    refine if_neg fun hp => ?_
    obtain ⟨a, ha, hp⟩ := hp
    exact hnone status a ha hp
  cases act with
  | enqueue | requestCancel | claimNext | reconcileExpired => cases hc
  | markSpawned now c =>
    obtain rfl := Option.some.inj hc
    have hread : w.jobs.cancellationRequested c = .error
        (.workerFence "Execution cancellation check lost its fence") := by
      have hno := Table.oneOrNone_eq_none (t := w.jobs) (p := fun j => j.key = c.job.key ∧
        j.leaseOwner = c.job.leaseOwner ∧ j.leaseFence = c.job.leaseFence) |>.mpr
          fun a ha hp => absurd hp.2.2 (Nat.ne_of_gt (h a ha hp.1))
      simp only [Jobs.cancellationRequested, hno]
    have hguard : ¬ ∃ j ∈ w.jobs.rows, c.Holds .claimed j ∧ j.cancelRequested = false :=
      fun ⟨a, ha, hp⟩ => hnone .claimed a ha hp.1
    simp only [after, Jobs.markSpawned, if_neg hguard, hread]
    exact ⟨rfl, rfl⟩
  | markCancelled now c =>
    obtain rfl := Option.some.inj hc
    simp only [after, Jobs.markCancelled, hfence]
    exact ⟨rfl, rfl⟩
  | recordResult now c result =>
    obtain rfl := Option.some.inj hc
    simp only [after]
    cases hr : w.jobs.recordResult now c result with
    | error _ => exact ⟨rfl, rfl⟩
    | ok jobs =>
      obtain ⟨_, _, hr⟩ := bind_ok hr
      obtain ⟨_, _, hr⟩ := bind_ok hr
      obtain ⟨_, hr, _⟩ := bind_ok hr
      rw [hfence] at hr
      cases hr
  | finalizeRead c =>
    obtain rfl := Option.some.inj hc
    have hno := Table.oneOrNone_eq_none.mpr (hnone .resultRecorded)
    simp only [after, Jobs.finalizeRead, hno, and_self]
  | finalizeWrite now c status =>
    obtain rfl := Option.some.inj hc
    simp only [after, Jobs.finalizeWrite, hfence]
    split <;> exact ⟨rfl, rfl⟩
  | markInterrupted now c =>
    obtain rfl := Option.some.inj hc
    have hsame : w.jobs.markInterrupted now c = w.jobs := by
      refine Table.update_eq_self fun a ha hp => ?_
      exact hp.elim (hnone .claimed a ha) (hnone .running a ha)
    simp [after, put, hsame]

theorem requestCancel_accepted {now : Time} {key : JobKey} {jobs : Jobs}
    (h : w.jobs.requestCancel now key = .ok jobs) :
    (w.after x (.requestCancel now key)).log = w.log ∧
      ∃ b ∈ (w.after x (.requestCancel now key)).jobs, b.key = key ∧
        (b.cancelRequested ∨ b.status.terminal) := by
  simp only [after, h, put]
  refine ⟨List.append_nil _, ?_⟩
  simp only [Jobs.requestCancel] at h
  split at h
  · cases h
  · rename_i row hrow
    obtain ⟨hmem, hkey⟩ := Table.find?_eq_some.mp hrow
    split at h
    · rename_i hterminal
      cases h
      exact ⟨row, hmem, hkey, .inr hterminal⟩
    · cases h
      refine ⟨_, Table.mem_update_of rfl hmem hkey, ?_, .inl ?_⟩ <;>
        simp only [ExecutionJob.cancelRequestedAt] <;> split <;> first | exact hkey | rfl

theorem Sound.spawned_iff (h : w.Sound) {a : ExecutionJob} (ha : a ∈ w.jobs) :
    .spawned a.key ∈ w.log ↔ a.spawnedAt ≠ none := by
  rw [← List.count_pos_iff, h.spawned a ha, marks]
  split <;> simp [*]

theorem Sound.count_le_one (h : w.Sound) (event : JobEvent) {α : Type}
    (column : ExecutionJob → Option α)
    (hc : ∀ a ∈ w.jobs, a.key = event.key → w.log.count event = marks (column a)) :
    w.log.count event ≤ 1 := by
  by_cases hk : ∃ a ∈ w.jobs, a.key = event.key
  · obtain ⟨a, ha, hk⟩ := hk
    rw [hc a ha hk, marks]
    split <;> omega
  · rw [h.count_absent event fun a ha he => hk ⟨a, ha, he⟩]
    omega

end World

theorem jobs_settle_once (x : Digest) {w : World}
    (h : Run (World.Step x) (fun _ _ => True) .initial w) : SettledOnce x w := by
  have hs := World.sound_initial.run h
  refine ⟨fun key => ?_, fun key => ?_, fun a ha => (hs.rows a ha).settled, fun a ha hr hi => ?_,
    fun c d act hsub hk hc => ?_, fun w' hr a ha => ?_, fun now key jobs w' hspawn hok hr => ?_⟩
  · refine hs.count_le_one _ (·.spawnedAt) fun a ha hk => ?_
    obtain rfl := hk
    exact hs.spawned a ha
  · refine hs.count_le_one _ (·.result) fun a ha hk => ?_
    obtain rfl := hk
    exact hs.recorded a ha
  · obtain ⟨r, hr⟩ := Option.ne_none_iff_exists'.mp hr
    have hmapped := (hs.rows a ha).settled (by rw [hi]; rfl) r hr
    rw [hi] at hmapped
    cases hstatus : r.status <;> simp [hstatus, terminalStatus] at hmapped
  · have hlt := List.pairwise_pair.mp (hs.ordered.sublist hsub) c d rfl rfl hk
    have hd := hsub.subset (List.mem_cons_of_mem _ List.mem_cons_self)
    exact World.after_superseded (fun a ha hak => Nat.lt_of_lt_of_le hlt
      (hs.fenced d hd a ha (hak.trans hk))) hc
  · obtain ⟨b, hb, hab⟩ := hs.later hr a ha
    exact ⟨b, hb, hab.key, hab.terminal, hab.result⟩
  · obtain ⟨hlog, b, hb, rfl, hcancel⟩ := World.requestCancel_accepted (x := x) hok
    have hs₁ : (w.after x (.requestCancel now b.key)).Sound := hs.after
    obtain ⟨c, hcmem, hbc⟩ := hs₁.later hr b hb
    have hunspawned : b.spawnedAt = none := by
      by_contra hne
      exact hspawn (hlog ▸ (hs₁.spawned_iff hb).mpr hne)
    rw [← hbc.key, (hs₁.run hr).spawned_iff hcmem]
    exact not_not.mpr (hbc.cancelled hcancel hunspawned).1

def keyedDigest : Digest where
  digest
    | .str text => text
    | _ => ""

def buildRequest : SandboxRequest where
  jobId := 1
  scopeDigest := "scope"
  workspaceGeneration := 1
  leaseFence := 1
  timeoutSeconds := 60
  outputLimitBytes := 1024
  header := .str "build"

def buildResult : SandboxResult where
  jobId := 1
  executor := "cloud_oci_worker"
  executorVersion := "1.1.0"
  scopeDigest := "scope"
  workspaceGeneration := 1
  leaseFence := 1
  status := .completed
  exitCode := some 0
  stdout := []
  stderr := []
  stdoutSha256 := "empty"
  stderrSha256 := "empty"
  outputTruncated := false
  startedAt := 21
  finishedAt := 25

def stalledClaim : ExecutionClaim :=
  ⟨(ExecutionJob.create keyedDigest 5 "tenant" buildRequest).claimedBy 10 "worker-1" 5, .execute⟩

def buildClaim : ExecutionClaim := ⟨stalledClaim.job.claimedBy 20 "worker-2" 30, .execute⟩

/-- A worker stalls before the spawn, another one runs the job and finalizes it. -/
def buildActs : List JobAct :=
  [.enqueue 5 "tenant" buildRequest, .claimNext 10 "worker-1" 5 [], .claimNext 20 "worker-2" 30 [],
    .markSpawned 21 stalledClaim, .markSpawned 21 buildClaim,
    .recordResult 25 buildClaim buildResult, .finalizeRead buildClaim,
    .finalizeWrite 26 buildClaim .succeeded, .markInterrupted 27 buildClaim]

theorem jobs_settle_once_build :
    (buildActs.foldl (World.after keyedDigest) .initial).jobs.rows.map (·.status) = [.succeeded] ∧
      SettledOnce keyedDigest (buildActs.foldl (World.after keyedDigest) .initial) :=
  ⟨by decide +kernel, jobs_settle_once keyedDigest (Run.foldl (by decide +kernel))⟩

end Fairy.Execution
