import Fairy.Knowledge.SyncRuns
import Fairy.Lib.Chronicle
import Fairy.Lib.Run

namespace Fairy.Knowledge

open Fairy.Lib

inductive SyncOutcome
  | completed (sourceCursor scannedCount changedCount deletedCount failedCount : Nat)
  | failed (errorCode : String)
  deriving DecidableEq

namespace KnowledgeSyncRun

/-- The run that `execute` settles with, made from the one it read. -/
def concluded (now : Time) (claim : KnowledgeSyncClaim) (r : KnowledgeSyncRun) :
    SyncOutcome → KnowledgeSyncRun
  | .completed sourceCursor scannedCount changedCount deletedCount failedCount =>
    { r with
      status := .completed, sourceCursor := sourceCursor, scannedCount := scannedCount
      changedCount := changedCount, deletedCount := deletedCount, failedCount := failedCount
      errorCode := none, leaseOwner := none, leaseUntil := none, attempts := claim.attempts
      completedAt := some now }
  | .failed errorCode =>
    { r with
      status := .failed, failedCount := max 1 r.failedCount, errorCode := some errorCode
      leaseOwner := none, leaseUntil := none, attempts := claim.attempts, completedAt := some now }

variable {r : KnowledgeSyncRun} {claim : KnowledgeSyncClaim} {now : Time} {outcome : SyncOutcome}

variable (r claim now outcome) in
theorem concluded_status : (r.concluded now claim outcome).status = .completed ∨
    (r.concluded now claim outcome).status = .failed := by
  cases outcome
  · exact .inl rfl
  · exact .inr rfl

@[simp] theorem concluded_id : (r.concluded now claim outcome).id = r.id := by
  cases outcome <;> rfl

@[simp] theorem concluded_leaseFence :
    (r.concluded now claim outcome).leaseFence = r.leaseFence := by
  cases outcome <;> rfl

@[simp] theorem concluded_cancellationRevision :
    (r.concluded now claim outcome).cancellationRevision = r.cancellationRevision := by
  cases outcome <;> rfl

theorem Valid.concluded (h : r.Valid) : (r.concluded now claim outcome).Valid := by
  cases outcome <;> exact ⟨h.revision, rfl, by simp [KnowledgeSyncRun.concluded], rfl⟩

end KnowledgeSyncRun

/-- What `execute` checks of the run before it works for a claim. -/
def Executing (claim : KnowledgeSyncClaim) (run : KnowledgeSyncRun) : Prop :=
  run.id = claim.runId ∧ run.status = .running ∧ run.leaseOwner = some claim.leaseOwner ∧
    run.leaseFence = claim.leaseFence ∧ run.cancellationRevision = claim.cancellationRevision

instance (claim : KnowledgeSyncClaim) (run : KnowledgeSyncRun) :
    Decidable (Executing claim run) := inferInstanceAs (Decidable (_ ∧ _ ∧ _ ∧ _ ∧ _))

inductive SyncEvent
  | claimed (claim : KnowledgeSyncClaim)
  | settled (claim : KnowledgeSyncClaim)
  | cancelled (runId : Uuid) (cancellationRevision : Nat)
  deriving DecidableEq

/-- The calls of any number of workers and users; a cancellation is a read and a write. -/
inductive SyncAct
  | enqueue (run : KnowledgeSyncRun)
  | claim (now : Time) (runId : Option Uuid) (workerId : String) (leaseUntil : Time)
    (locked : List Uuid)
  | renew (now : Time) (claim : KnowledgeSyncClaim) (leaseUntil : Time)
  | settle (now : Time) (claim : KnowledgeSyncClaim) (run : KnowledgeSyncRun)
    (outcome : SyncOutcome)
  | abandon (claim : KnowledgeSyncClaim)
  | cancelRead (runId : Uuid)
  | cancelWrite (now : Time) (row : KnowledgeSyncRun)

/-- The runs, the cancellations between their two statements, and what has happened. -/
structure World where
  runs : SyncRuns
  cancelling : List KnowledgeSyncRun
  log : List SyncEvent

namespace World

def initial : World := ⟨.empty, [], []⟩

/-- An update that meets no row, or that raises, is no event. -/
def put (w : World) (event : Option SyncEvent) : Except KnowledgeError (SyncRuns × Bool) → World
  | .ok (runs, changed) =>
    { w with runs := runs, log := w.log ++ if changed then event.toList else [] }
  | .error _ => w

def claim (w : World) : Except KnowledgeError (SyncRuns × Option KnowledgeSyncClaim) → World
  | .ok (runs, some claim) => w.put (some (.claimed claim)) (.ok (runs, true))
  | .ok (_, none) | .error _ => w

/-- `settle_sync_run` as `execute` calls it. -/
def settle (w : World) (now : Time) (claim : KnowledgeSyncClaim) (run : KnowledgeSyncRun)
    (outcome : SyncOutcome) : Except KnowledgeError (SyncRuns × Bool) :=
  if h : run.Valid ∧ Executing claim run then
    w.runs.settleSyncRun claim (run.concluded now claim outcome) h.1.concluded
  else .error (.providerCancelled "Knowledge Sync lease is no longer active")

def after (w : World) : SyncAct → World
  | .enqueue run =>
    if h : run.Valid then
      w.put none ((w.runs.enqueueSyncRun run h).map fun r => (r.1, true))
    else w
  | .claim now runId workerId leaseUntil locked =>
    w.claim (w.runs.claimSyncRun now runId workerId leaseUntil locked)
  | .renew now claim leaseUntil => w.put none (w.runs.renewSyncRun now claim leaseUntil)
  | .settle now claim run outcome =>
    w.put (some (.settled claim)) (w.settle now claim run outcome)
  | .abandon claim => w.put none (.ok (w.runs.abandonSyncRun claim))
  | .cancelRead runId =>
    match w.runs.cancelRead runId with
    | .ok row => { w with cancelling := w.cancelling ++ row.toList }
    | .error _ => w
  | .cancelWrite now row =>
    if row ∈ w.cancelling then
      ({ w with cancelling := w.cancelling.erase row } : World).put
        (some (.cancelled row.id (row.cancellationRevision + 1)))
        (.ok (w.runs.cancelWrite now row))
    else w

def Step (w : World) (act : SyncAct) (w' : World) : Prop := w' = w.after act

/-- A cancellation writes only over a run that nobody has settled since it read the run, and
that has been claimed or abandoned once at most since then. -/
def Fresh (w : World) : SyncAct → Prop
  | .cancelWrite _ row => ∀ r ∈ w.runs, r.id = row.id →
      r.cancellationRevision = row.cancellationRevision →
      r.status.terminal = false ∧ r.leaseFence ≤ row.leaseFence + 1
  | _ => True

instance (w : World) : ∀ act, Decidable (w.Fresh act)
  | .cancelWrite _ row => inferInstanceAs (Decidable (∀ r ∈ w.runs.rows, r.id = row.id →
      r.cancellationRevision = row.cancellationRevision →
      r.status.terminal = false ∧ r.leaseFence ≤ row.leaseFence + 1))
  | .enqueue .. | .claim .. | .renew .. | .settle .. | .abandon .. | .cancelRead .. =>
    isTrue trivial

end World

/-- What can become of a run in one call. -/
structure KnowledgeSyncRun.Keeps (a b : KnowledgeSyncRun) : Prop where
  id : b.id = a.id
  terminal : a.status.terminal → b = a
  fence : a.leaseFence ≤ b.leaseFence
  revision : a.cancellationRevision ≤ b.cancellationRevision

namespace KnowledgeSyncRun.Keeps

variable {a b c : KnowledgeSyncRun}

theorem refl (a : KnowledgeSyncRun) : a.Keeps a :=
  ⟨rfl, fun _ => rfl, Nat.le_refl _, Nat.le_refl _⟩

theorem trans (h : a.Keeps b) (h' : b.Keeps c) : a.Keeps c where
  id := h'.id.trans h.id
  terminal ht := by
    obtain rfl := h.terminal ht
    exact h'.terminal ht
  fence := Nat.le_trans h.fence h'.fence
  revision := Nat.le_trans h.revision h'.revision

end KnowledgeSyncRun.Keeps

def Kept (runs runs' : SyncRuns) : Prop := ∀ a ∈ runs, ∃ b ∈ runs', a.Keeps b

/-- What must have happened before an event: a claim has a fence of its own, a run is settled
once, and a cancellation is later than every claim before it. -/
def Justifies (before : List SyncEvent) : SyncEvent → Prop
  | .claimed c => ∀ d, .claimed d ∈ before → d.runId = c.runId → d.leaseFence < c.leaseFence
  | .settled c => ∀ d, .settled d ∈ before → d.runId ≠ c.runId
  | .cancelled runId revision =>
    ∀ c, .claimed c ∈ before → c.runId = runId → c.cancellationRevision < revision

/-- The rows agree with what has happened. -/
structure World.Sound (w : World) : Prop where
  claims : ∀ c, .claimed c ∈ w.log → ∃ a ∈ w.runs, a.id = c.runId ∧
    c.leaseFence ≤ a.leaseFence ∧ c.cancellationRevision ≤ a.cancellationRevision
  settled : ∀ c, .settled c ∈ w.log → ∃ a ∈ w.runs, a.id = c.runId ∧ a.status.terminal
  cancelled : ∀ id revision, .cancelled id revision ∈ w.log →
    ∃ a ∈ w.runs, a.id = id ∧ revision ≤ a.cancellationRevision
  justified : Justified Justifies w.log

/-- What an event says of the row that it is about, before and after the call. -/
def Supports (a b : KnowledgeSyncRun) : SyncEvent → Prop
  | .claimed c => a.id = c.runId ∧ a.leaseFence < c.leaseFence ∧ c.leaseFence ≤ b.leaseFence ∧
      c.cancellationRevision ≤ b.cancellationRevision
  | .settled c => a.id = c.runId ∧ a.status.terminal = false ∧ b.status.terminal
  | .cancelled id revision => a.id = id ∧ a.cancellationRevision < revision ∧
      revision ≤ b.cancellationRevision

/-- What a call does to the rows, and the event that it logs. -/
structure Evolves (w w' : World) (e : Option SyncEvent) : Prop where
  log : w'.log = w.log ++ e.toList
  kept : Kept w.runs w'.runs
  event : ∀ x ∈ e, ∃ a ∈ w.runs, ∃ b ∈ w'.runs, b.id = a.id ∧ Supports a b x

section Evolution

variable {w w' : World} {e : Option SyncEvent} {act : SyncAct} {a b r : KnowledgeSyncRun}
variable {claim : KnowledgeSyncClaim} {now : Time}

theorem evolves_self (w : World) : Evolves w w none :=
  ⟨(List.append_nil _).symm, fun a ha => ⟨a, ha, .refl a⟩, fun _ h => absurd h (by simp)⟩

theorem Kept.of_update {runs runs' : SyncRuns} {p : KnowledgeSyncRun → Prop} [DecidablePred p]
    {f : KnowledgeSyncRun → KnowledgeSyncRun}
    (hrows : runs'.rows = runs.rows.map fun a => if p a then f a else a)
    (hkeep : ∀ a ∈ runs, p a → a.Keeps (f a)) : Kept runs runs' := by
  intro a ha
  by_cases hp : p a
  · exact ⟨f a, Table.mem_update_of hrows ha hp, hkeep a ha hp⟩
  · exact ⟨a, Table.mem_update_of_not hrows ha hp, .refl a⟩

theorem meets_iff {runs : SyncRuns} {p : KnowledgeSyncRun → Prop} [DecidablePred p] :
    runs.meets p = true ↔ ∃ a ∈ runs, p a := by
  simp only [SyncRuns.meets, decide_eq_true_eq]
  rfl

/-- An update evolves the world if every row it meets is kept and supports the event. -/
theorem evolves_update {p : KnowledgeSyncRun → Prop} [DecidablePred p]
    {f : KnowledgeSyncRun → KnowledgeSyncRun} (event : Option SyncEvent)
    (hrows : w'.runs.rows = w.runs.rows.map fun a => if p a then f a else a)
    (hlog : w'.log = w.log ++ if w.runs.meets p then event.toList else [])
    (hkeep : ∀ a ∈ w.runs, p a → a.Keeps (f a))
    (hsupports : ∀ x ∈ event, ∀ a ∈ w.runs, p a → Supports a (f a) x) :
    ∃ e, Evolves w w' e := by
  have hkept := Kept.of_update hrows hkeep
  cases hmeets : w.runs.meets p with
  | false =>
    refine ⟨none, by simpa [hmeets] using hlog, hkept, fun _ h => absurd h (by simp)⟩
  | true =>
    obtain ⟨a, ha, hp⟩ := meets_iff.mp hmeets
    refine ⟨event, by simpa [hmeets] using hlog, hkept, fun x hx => ?_⟩
    exact ⟨a, ha, f a, Table.mem_update_of hrows ha hp, (hkeep a ha hp).id,
      hsupports x hx a ha hp⟩

theorem Claimable_keeps {workerId : String} {leaseUntil : Time} (h : a.Claimable now) :
    a.Keeps (a.claimedBy workerId leaseUntil) :=
  ⟨rfl, fun ht => by simp [h.open] at ht, Nat.le_succ _, Nat.le_refl _⟩

theorem running_open (h : a.status = .running) : a.status.terminal = false := by
  rw [h]
  rfl

theorem evolves_enqueue {run : KnowledgeSyncRun} {hrun : run.Valid} :
    ∃ e, Evolves w (w.put none ((w.runs.enqueueSyncRun run hrun).map fun r => (r.1, true))) e := by
  simp only [SyncRuns.enqueueSyncRun]
  split
  · exact ⟨none, evolves_self w⟩
  · split
    · refine ⟨none, rfl, fun a ha => ⟨a, ?_, .refl a⟩, fun _ h => absurd h (by simp)⟩
      obtain ⟨_, hsame⟩ | ⟨_, hrows⟩ := Table.insertUnless_cases w.runs (fun r => r.id = run.id)
        run (fun _ h => h) hrun
      · simpa only [World.put, Except.map, hsame] using ha
      · exact (Table.mem_of_rows_append hrows).mpr (.inl ha)
    · split
      · exact ⟨none, evolves_self w⟩
      · exact ⟨none, rfl, fun a ha => ⟨a, ha, .refl a⟩, fun _ h => absurd h (by simp)⟩

theorem nextSyncRun_some {runId : Option Uuid} {locked : List Uuid} {runs : SyncRuns}
    (h : runs.nextSyncRun now runId locked = some r) : r ∈ runs ∧ r.Claimable now := by
  obtain ⟨hmem, hclaimable, _⟩ := Table.mem_select.mp (mem_of_mem_batch (List.mem_of_head? h))
  exact ⟨hmem, hclaimable⟩

theorem evolves_claim {runId : Option Uuid} {workerId : String} {leaseUntil : Time}
    {locked : List Uuid} :
    ∃ e, Evolves w (w.claim (w.runs.claimSyncRun now runId workerId leaseUntil locked)) e := by
  simp only [SyncRuns.claimSyncRun]
  by_cases hworker : Text.strip workerId = ""
  · rw [if_pos hworker]
    exact ⟨none, evolves_self w⟩
  rw [if_neg hworker]
  by_cases hlease : leaseUntil ≤ now
  · rw [if_pos hlease]
    exact ⟨none, evolves_self w⟩
  rw [if_neg hlease]
  cases hnext : w.runs.nextSyncRun now runId locked with
  | none => exact ⟨none, evolves_self w⟩
  | some row =>
    obtain ⟨hrow, hclaimable⟩ := nextSyncRun_some hnext
    have hmeets : w.runs.meets (fun r => r.id = row.id ∧ r.leaseFence = row.leaseFence ∧
        r.cancellationRevision = row.cancellationRevision ∧ r.Claimable now) = true :=
      meets_iff.mpr ⟨row, hrow, rfl, rfl, rfl, hclaimable⟩
    refine evolves_update (some (.claimed ⟨row.id, _, _, _, _⟩)) rfl (by rw [hmeets]; rfl)
      (fun a _ hp => Claimable_keeps hp.2.2.2) fun x hx a _ hp => ?_
    obtain rfl := Option.some.inj hx
    obtain ⟨hid, hfence, hrevision, _⟩ := hp
    exact ⟨hid, Nat.lt_succ_of_le (Nat.le_of_eq hfence),
      Nat.le_of_eq (congrArg (· + 1) hfence.symm), Nat.le_of_eq hrevision.symm⟩

theorem evolves_renew {leaseUntil : Time} :
    ∃ e, Evolves w (w.put none (w.runs.renewSyncRun now claim leaseUntil)) e := by
  simp only [SyncRuns.renewSyncRun]
  split
  · exact ⟨none, evolves_self w⟩
  · refine evolves_update none rfl rfl (fun a _ hp => ?_) fun _ h => absurd h (by simp)
    have hopen := running_open hp.1.2.1
    exact ⟨rfl, fun ht => by simp [hopen] at ht, Nat.le_refl _, Nat.le_refl _⟩

theorem evolves_settle {run : KnowledgeSyncRun} {outcome : SyncOutcome} :
    ∃ e, Evolves w (w.put (some (.settled claim)) (w.settle now claim run outcome)) e := by
  simp only [World.settle]
  split
  · rename_i hrun
    obtain ⟨_, hid, _, _, hfence, hrevision⟩ := hrun
    simp only [SyncRuns.settleSyncRun, KnowledgeSyncRun.concluded_id]
    rw [if_neg (not_not.mpr hid)]
    split
    · exact ⟨none, evolves_self w⟩
    · refine evolves_update (some (.settled claim)) rfl rfl (fun a _ hp => ?_)
        fun x hx a _ hp => ?_
      · obtain ⟨_, hrunning, _, hafence, harevision⟩ := hp
        refine ⟨rfl, fun ht => by simp [running_open hrunning] at ht, ?_, ?_⟩
        · simp only [KnowledgeSyncRun.settledWith, KnowledgeSyncRun.concluded_leaseFence]
          omega
        · simp only [KnowledgeSyncRun.settledWith, KnowledgeSyncRun.concluded_cancellationRevision]
          omega
      · obtain rfl := Option.some.inj hx
        refine ⟨hp.1, running_open hp.2.1, ?_⟩
        obtain h | h := run.concluded_status claim now outcome <;>
          simp only [KnowledgeSyncRun.settledWith, h] <;> rfl
  · exact ⟨none, evolves_self w⟩

theorem evolves_abandon : ∃ e, Evolves w (w.put none (.ok (w.runs.abandonSyncRun claim))) e := by
  refine evolves_update none rfl rfl (fun a _ hp => ?_) fun _ h => absurd h (by simp)
  refine ⟨rfl, fun ht => by simp [running_open hp.2.1] at ht, ?_, Nat.le_refl _⟩
  simp only [KnowledgeSyncRun.abandonedAt, hp.2.2.2.1]
  omega

theorem evolves_cancelWrite {row : KnowledgeSyncRun} (h : w.Fresh (.cancelWrite now row)) :
    ∃ e, Evolves w (w.after (.cancelWrite now row)) e := by
  simp only [World.after]
  split
  · refine evolves_update (some (.cancelled row.id (row.cancellationRevision + 1))) rfl rfl
      (fun a ha hp => ?_) fun x hx a _ hp => ?_
    · obtain ⟨hopen, hfence⟩ := h a ha hp.1 hp.2
      refine ⟨rfl, fun ht => by simp [hopen] at ht, hfence, ?_⟩
      simp only [KnowledgeSyncRun.cancelledFrom, hp.2]
      omega
    · obtain rfl := Option.some.inj hx
      exact ⟨hp.1, by omega, Nat.le_refl _⟩
  · exact ⟨none, evolves_self w⟩

theorem after_evolves (h : w.Fresh act) : ∃ e, Evolves w (w.after act) e := by
  cases act with
  | enqueue run =>
    simp only [World.after]
    split
    · exact evolves_enqueue
    · exact ⟨none, evolves_self w⟩
  | claim => exact evolves_claim
  | renew => exact evolves_renew
  | settle => exact evolves_settle
  | abandon => exact evolves_abandon
  | cancelRead runId =>
    simp only [World.after]
    split
    · exact ⟨none, (List.append_nil _).symm, fun a ha => ⟨a, ha, .refl a⟩,
        fun _ h => absurd h (by simp)⟩
    · exact ⟨none, evolves_self w⟩
  | cancelWrite => exact evolves_cancelWrite h

end Evolution

namespace World

variable {w w' : World} {e : Option SyncEvent} {act : SyncAct} {claim : KnowledgeSyncClaim}

theorem sound_initial : initial.Sound where
  claims _ h := absurd h List.not_mem_nil
  settled _ h := absurd h List.not_mem_nil
  cancelled _ _ h := absurd h List.not_mem_nil
  justified := .nil

theorem Sound.evolves (h : w.Sound) (hv : Evolves w w' e) : w'.Sound := by
  have hlog : ∀ x ∈ w'.log, x ∈ w.log ∨ x ∈ e := by
    intro x hx
    rw [hv.log, List.mem_append, Option.mem_toList] at hx
    exact hx
  refine ⟨fun c hc => ?_, fun c hc => ?_, fun id revision hc => ?_, ?_⟩
  · obtain hc | hc := hlog _ hc
    · obtain ⟨a, ha, hid, hfence, hrevision⟩ := h.claims c hc
      obtain ⟨b, hb, hab⟩ := hv.kept a ha
      exact ⟨b, hb, hab.id.trans hid, Nat.le_trans hfence hab.fence,
        Nat.le_trans hrevision hab.revision⟩
    · obtain ⟨a, _, b, hb, hab, hid, _, hfence, hrevision⟩ := hv.event _ hc
      exact ⟨b, hb, hab.trans hid, hfence, hrevision⟩
  · obtain hc | hc := hlog _ hc
    · obtain ⟨a, ha, hid, hterminal⟩ := h.settled c hc
      obtain ⟨b, hb, hab⟩ := hv.kept a ha
      rw [hab.terminal hterminal] at hb
      exact ⟨a, hb, hid, hterminal⟩
    · obtain ⟨a, _, b, hb, hab, hid, _, hterminal⟩ := hv.event _ hc
      exact ⟨b, hb, hab.trans hid, hterminal⟩
  · obtain hc | hc := hlog _ hc
    · obtain ⟨a, ha, hid, hrevision⟩ := h.cancelled id revision hc
      obtain ⟨b, hb, hab⟩ := hv.kept a ha
      exact ⟨b, hb, hab.id.trans hid, Nat.le_trans hrevision hab.revision⟩
    · obtain ⟨a, _, b, hb, hab, hid, _, hrevision⟩ := hv.event _ hc
      exact ⟨b, hb, hab.trans hid, hrevision⟩
  · rw [hv.log]
    cases e with
    | none => simpa using h.justified
    | some x =>
      refine h.justified.snoc ?_
      obtain ⟨a, ha, b, hb, hab, hx⟩ := hv.event x rfl
      cases x with
      | claimed c =>
        intro d hd hid
        obtain ⟨a', ha', hid', hfence, _⟩ := h.claims d hd
        obtain rfl := Table.eq_of_key ha' ha (hid'.trans (hid.trans hx.1.symm))
        exact Nat.lt_of_le_of_lt hfence hx.2.1
      | settled c =>
        intro d hd hid
        obtain ⟨a', ha', hid', hterminal⟩ := h.settled d hd
        obtain rfl := Table.eq_of_key ha' ha (hid'.trans (hid.trans hx.1.symm))
        simp [hx.2.1] at hterminal
      | cancelled id revision =>
        intro c hc hid
        obtain ⟨a', ha', hid', _, hrevision⟩ := h.claims c hc
        obtain rfl := Table.eq_of_key ha' ha (hid'.trans (hid.trans hx.1.symm))
        exact Nat.lt_of_le_of_lt hrevision hx.2.1

theorem Sound.step (h : w.Sound) (hf : w.Fresh act) (hs : Step w act w') :
    w'.Sound ∧ Kept w.runs w'.runs := by
  rw [hs]
  obtain ⟨e, hv⟩ := after_evolves hf
  exact ⟨h.evolves hv, hv.kept⟩

theorem Sound.run (h : w.Sound) (hr : Run Step Fresh w w') : w'.Sound :=
  hr.invariant (fun _ _ _ ha hf hs => (ha.step hf hs).1) h

theorem Sound.keeps (h : w.Sound) (hr : Run Step Fresh w w') : Kept w.runs w'.runs :=
  hr.history (I := Sound) (R := fun w w' => Kept w.runs w'.runs)
    (fun w a ha => ⟨a, ha, .refl a⟩) (fun u v w huv hvw a ha => by
      obtain ⟨b, hb, hab⟩ := huv a ha
      obtain ⟨c, hc, hbc⟩ := hvw b hb
      exact ⟨c, hc, hab.trans hbc⟩)
    (fun _ _ _ ha hf hs => (ha.step hf hs).1) (fun _ _ _ ha hf hs => (ha.step hf hs).2) h

end World

/-- A call that returns False and changes nothing, unless it raises. -/
def Refused (runs : SyncRuns) (result : Except KnowledgeError (SyncRuns × Bool)) : Prop :=
  ∀ runs' changed, result = .ok (runs', changed) → changed = false ∧ runs' = runs

/-- An event after which a claim is superseded or cancelled. -/
def Ends (claim : KnowledgeSyncClaim) : SyncEvent → Prop
  | .claimed later => later.runId = claim.runId
  | .cancelled runId _ => runId = claim.runId
  | .settled _ => False

/-- The lifecycle of the runs, in every order of the calls that `ok` admits. -/
structure SettlesOnce (ok : World → SyncAct → Prop) (w : World) : Prop where
  absorbing : ∀ w', Run World.Step ok w w' → ∀ a ∈ w.runs, ∃ b ∈ w'.runs, b.id = a.id ∧
    (a.status.terminal → b.status = a.status) ∧ a.leaseFence ≤ b.leaseFence
  once : ∀ c d, List.Sublist [.settled c, .settled d] w.log → c.runId ≠ d.runId
  refused : ∀ claim e, List.Sublist [.claimed claim, e] w.log → Ends claim e →
    (∀ now leaseUntil, Refused w.runs (w.runs.renewSyncRun now claim leaseUntil)) ∧
      (∀ now run outcome, Refused w.runs (w.settle now claim run outcome)) ∧
      Refused w.runs (.ok (w.runs.abandonSyncRun claim))

section Refusals

variable {runs : SyncRuns} {claim : KnowledgeSyncClaim}

theorem refused_update {p : KnowledgeSyncRun → Prop} [DecidablePred p]
    {f : KnowledgeSyncRun → KnowledgeSyncRun} {hk : ∀ a, (f a).id = a.id}
    {hc : ∀ a, p a → a.Valid → (f a).Valid} (h : ∀ a ∈ runs, ¬ p a) :
    Refused runs (.ok (runs.update p f hk hc, runs.meets p)) := by
  intro runs' changed hok
  obtain ⟨rfl, rfl⟩ := Prod.mk.inj (Except.ok.inj hok)
  refine ⟨?_, Table.update_eq_self h⟩
  rw [Bool.eq_false_iff]
  intro hmeets
  obtain ⟨a, ha, hp⟩ := meets_iff.mp hmeets
  exact h a ha hp

theorem refused_error {e : KnowledgeError} : Refused runs (.error e) := nofun

theorem refused_settleSyncRun {run : KnowledgeSyncRun} {hrun : run.Valid}
    (h : ∀ a ∈ runs, ¬ claim.Holds a) : Refused runs (runs.settleSyncRun claim run hrun) := by
  simp only [SyncRuns.settleSyncRun]
  split
  · exact refused_error
  · split
    · exact refused_error
    · exact refused_update h

theorem refused_renewSyncRun {now leaseUntil : Time} (h : ∀ a ∈ runs, ¬ claim.Holds a) :
    Refused runs (runs.renewSyncRun now claim leaseUntil) := by
  simp only [SyncRuns.renewSyncRun]
  split
  · exact refused_error
  · exact refused_update fun a ha hp => h a ha hp.1

end Refusals

theorem World.Sound.not_holds {w : World} (h : w.Sound) {claim : KnowledgeSyncClaim}
    {e : SyncEvent} (hs : List.Sublist [.claimed claim, e] w.log) (he : Ends claim e) :
    ∀ a ∈ w.runs, ¬ claim.Holds a := by
  rintro a ha ⟨hid, _, _, hfence, hrevision⟩
  obtain ⟨before, hbefore, hjustified⟩ := h.justified.of_sublist hs
  have hmem : e ∈ w.log := hs.subset (List.mem_cons_of_mem _ List.mem_cons_self)
  cases e with
  | claimed later =>
    obtain ⟨b, hb, hbid, hle, _⟩ := h.claims later hmem
    obtain rfl := Table.eq_of_key hb ha (hbid.trans (he.trans hid.symm))
    have hlt := hjustified claim hbefore he.symm
    omega
  | cancelled runId revision =>
    obtain ⟨b, hb, hbid, hle⟩ := h.cancelled runId revision hmem
    obtain rfl := Table.eq_of_key hb ha (hbid.trans (he.trans hid.symm))
    have hlt := hjustified claim hbefore he.symm
    omega
  | settled => exact he

/-- In runs whose cancellations write over what they read, or over a run that was claimed or
abandoned once since, the lifecycle holds in every state. -/
theorem sync_runs_settle_once {w : World} (h : Run World.Step World.Fresh .initial w) :
    SettlesOnce World.Fresh w := by
  have hs := World.sound_initial.run h
  refine ⟨fun w' hr a ha => ?_, fun c d hsub hid => ?_, fun claim e hsub he => ?_⟩
  · obtain ⟨b, hb, hab⟩ := hs.keeps hr a ha
    exact ⟨b, hb, hab.id, fun ht => by rw [hab.terminal ht], hab.fence⟩
  · obtain ⟨before, hbefore, hjustified⟩ := hs.justified.of_sublist hsub
    exact hjustified c hbefore hid
  · have hnone := hs.not_holds hsub he
    refine ⟨fun now leaseUntil => refused_renewSyncRun hnone, fun now run outcome => ?_,
      refused_update hnone⟩
    simp only [World.settle]
    split
    · exact refused_settleSyncRun hnone
    · exact refused_error

def vaultRun : KnowledgeSyncRun := .enqueue 1 1 7 9 1 "fingerprint" 0

def vaultClaim : KnowledgeSyncClaim := ⟨1, "worker", 1, 1, 0⟩

def vaultRunning : KnowledgeSyncRun := vaultRun.claimedBy "worker" 600

def vaultOutcome : SyncOutcome := .completed 2 3 3 0 0

/-- A user starts to cancel the run, and the worker settles it in between. -/
def settledRun : World :=
  [.enqueue vaultRun, .claim 2 none "worker" 600 [], .cancelRead 1,
    .settle 5 vaultClaim vaultRunning vaultOutcome].foldl World.after .initial

theorem settled_run_cancelled : ¬ ∀ w, Run World.Step (fun _ _ => True) .initial w →
    SettlesOnce (fun _ _ => True) w := by
  intro h
  have hrun : Run World.Step (fun _ _ => True) .initial settledRun :=
    Run.foldl (by decide +kernel)
  have hcancel : Run World.Step (fun _ _ => True) settledRun
      (settledRun.after (.cancelWrite 6 vaultRunning)) := .single trivial rfl
  have hstatus : ∀ b ∈ (settledRun.after (.cancelWrite 6 vaultRunning)).runs.rows,
      b.status ≠ .completed := by decide +kernel
  have ha : ∃ a ∈ settledRun.runs.rows, a.status = .completed := by decide +kernel
  obtain ⟨a, ha, hcompleted⟩ := ha
  obtain ⟨b, hb, _, hkept, _⟩ := (h settledRun hrun).absorbing _ hcancel a ha
  exact hstatus b hb ((hkept (by rw [hcompleted]; rfl)).trans hcompleted)

theorem sync_runs_settle_once_cancelled :
    SettlesOnce World.Fresh ([.enqueue vaultRun, .claim 2 none "worker" 600 [], .cancelRead 1,
      .cancelWrite 4 vaultRunning, .settle 5 vaultClaim vaultRunning vaultOutcome].foldl
        World.after .initial) :=
  sync_runs_settle_once (Run.foldl (by decide +kernel))

end Fairy.Knowledge
