import Fairy.CloudRuntime.Effects
import Mathlib.Data.List.Induction

namespace Fairy.CloudRuntime

open Fairy.Lib
open Fairy.Commanding (Uuid Time)

section History

def LeaseEvent.claim? : LeaseEvent → Option CloudRuntimeClaim
  | .claimed claim => some claim
  | _ => none

/-- The fences of the claims of a log. -/
def fences (log : List LeaseEvent) : List Nat :=
  (log.filterMap LeaseEvent.claim?).map (·.lease.leaseFence)

/-- A stop has been requested, and nothing has been enqueued since. -/
def stopPending (log : List LeaseEvent) : Bool :=
  log.foldl (fun pending e =>
    match e with
    | .stopRequested _ => true
    | .enqueued _ => false
    | _ => pending) false

/-- What the log of a lease says about its row. -/
structure History (row : LeaseRow) (log : List LeaseEvent) : Prop where
  increasing : (fences log).Pairwise (· < ·)
  bound : ∀ fence ∈ fences log, fence ≤ row.leaseFence
  owned : ∀ claim, .claimed claim ∈ log → claim.lease.leaseOwner ≠ none
  held : row.leaseOwner ≠ none → ∃ claim, log.getLast? = some (.claimed claim) ∧
    claim.lease.leaseFence = row.leaseFence
  stopped : stopPending log = true → row.status ∉ [CloudRuntimeStatus.queued, .starting, .running]

theorem fences_snoc {log : List LeaseEvent} {e : LeaseEvent} :
    fences (log ++ [e]) = fences log ++ (e.claim?.map (·.lease.leaseFence)).toList := by
  simp only [fences, List.filterMap_append, List.map_append]
  cases e <;> rfl

theorem stopPending_snoc {log : List LeaseEvent} {e : LeaseEvent} : stopPending (log ++ [e]) =
    match e with
    | .stopRequested _ => true
    | .enqueued _ => false
    | _ => stopPending log := by
  rw [stopPending, List.foldl_append]
  cases e <;> rfl

variable {x : Sha256} {now : Time} {row row' : LeaseRow} {log events : List LeaseEvent}

/-- An event that takes the lease from its worker. -/
theorem History.released {e : LeaseEvent} (h : History row log) (he : e.claim? = none)
    (hfence : row'.leaseFence = row.leaseFence) (howner : row'.leaseOwner = none)
    (hstopped : stopPending (log ++ [e]) = true →
      row'.status ∉ [CloudRuntimeStatus.queued, .starting, .running]) :
    History row' (log ++ [e]) := by
  have hfences : fences (log ++ [e]) = fences log := by
    rw [fences_snoc, he]
    exact List.append_nil _
  refine ⟨hfences ▸ h.increasing, ?_, ?_, fun h => absurd howner h, hstopped⟩
  · rw [hfences, hfence]
    exact h.bound
  · intro claim hclaim
    obtain hclaim | hclaim := List.mem_append.mp hclaim
    · exact h.owned claim hclaim
    · rw [← List.mem_singleton.mp hclaim] at he
      cases he

/-- A write of the worker that holds the lease. -/
theorem History.written (h : History row log) (hfence : row'.leaseFence = row.leaseFence)
    (howner : row'.leaseOwner = row.leaseOwner ∨ row'.leaseOwner = none)
    (hstopped : stopPending log = true →
      row'.status ∉ [CloudRuntimeStatus.queued, .starting, .running]) : History row' log := by
  refine ⟨h.increasing, hfence ▸ h.bound, h.owned, fun hheld => ?_, hstopped⟩
  obtain howner | howner := howner
  · rw [hfence]
    exact h.held (howner ▸ hheld)
  · exact absurd howner hheld

/-- The history rule of one row: by what the call did to it. -/
theorem Move.history (hsound : row.Sound x) (h : History row log)
    (hmove : Move x now row row' events) : History row' (log ++ events) := by
  cases hmove with
  | kept =>
    rw [List.append_nil]
    exact h
  | stopped hstatus =>
    refine h.released rfl rfl (hsound.idle (by simp [hstatus])) fun _ => ?_
    simp [hstatus]
  | requeued candidate hcandidate hcreated hstatus hfence hscope hqueued =>
    refine h.released rfl rfl rfl fun hpending => ?_
    rw [stopPending_snoc] at hpending
    cases hpending
  | stopping hstatus =>
    refine h.released rfl rfl rfl fun _ => ?_
    simp [stopValues]
  | claimed ownerId leaseSeconds hclaimable howner hseconds =>
    refine ⟨?_, ?_, ?_, fun _ => ⟨_, List.getLast?_concat, rfl⟩, ?_⟩
    · rw [fences_snoc]
      refine List.pairwise_append.mpr ⟨h.increasing, List.pairwise_singleton _ _, ?_⟩
      intro fence hfence fence' hfence'
      obtain rfl := List.mem_singleton.mp hfence'
      exact Nat.lt_succ_of_le (h.bound fence hfence)
    · rw [fences_snoc]
      intro fence hfence
      obtain hfence | hfence := List.mem_append.mp hfence
      · exact Nat.le_succ_of_le (h.bound fence hfence)
      · obtain rfl := List.mem_singleton.mp hfence
        exact Nat.le_refl _
    · intro claim hclaim
      obtain hclaim | hclaim := List.mem_append.mp hclaim
      · exact h.owned claim hclaim
      · cases List.mem_singleton.mp hclaim
        exact Option.some_ne_none _
    · rw [stopPending_snoc]
      intro hpending
      have hstatus := h.stopped hpending
      obtain ⟨_, hqueued | ⟨hactive, _⟩⟩ := hclaimable
      · simp [hqueued] at hstatus
      · cases hs : row.status <;> simp_all [claimValues, claimAction]
  | running claim workerId hholds hworker =>
    rw [List.append_nil]
    refine h.written rfl (.inl rfl) fun hpending => ?_
    have hstatus := h.stopped hpending
    have hactive := hholds.2.1
    cases hs : row.status <;> simp_all
  | ended claim hholds =>
    rw [List.append_nil]
    refine h.written rfl (.inr rfl) fun _ => ?_
    simp [endValues]
  | interrupted claim errorCode hholds herror =>
    rw [List.append_nil]
    refine h.written rfl (.inr rfl) fun _ => ?_
    simp [endValues]
  | expired hdue =>
    refine h.released rfl rfl rfl fun _ => ?_
    simp [expireValues]

/-- A later event of a lease takes it from the worker of an earlier claim. -/
theorem History.superseded {claim : CloudRuntimeClaim} {before after : List LeaseEvent}
    (h : History row (before ++ .claimed claim :: after)) (hafter : after ≠ [])
    (howner : row.leaseOwner = claim.lease.leaseOwner) :
    row.leaseFence ≠ claim.lease.leaseFence := by
  intro hfence
  have hheld : row.leaseOwner ≠ none := howner ▸ h.owned claim (by simp)
  obtain ⟨last, hlast, hlastFence⟩ := h.held hheld
  obtain ⟨after', rfl⟩ : ∃ after', after = after' ++ [.claimed last] := by
    obtain ⟨after', e, rfl⟩ := List.eq_nil_or_concat after |>.resolve_left hafter
    rw [List.concat_eq_append, ← List.cons_append, ← List.append_assoc, List.getLast?_concat] at hlast
    rw [List.concat_eq_append, Option.some.inj hlast]
    exact ⟨after', rfl⟩
  have hincreasing := h.increasing
  rw [← List.cons_append, ← List.append_assoc, fences_snoc] at hincreasing
  have hlt := (List.pairwise_append.mp hincreasing).2.2 claim.lease.leaseFence (by simp [fences,
    LeaseEvent.claim?]) last.lease.leaseFence (by simp [LeaseEvent.claim?])
  omega

end History

section Runs

variable {x : RuntimeHashing} {w w' : World} {call : Call x}

/-- What every run keeps. -/
structure World.Sound (x : Sha256) (w : World) : Prop where
  rows : ∀ row ∈ w.leases, row.Sound x ∧ row.createdAt ≤ w.clock
  unique : ∀ row ∈ w.leases, ∀ row' ∈ w.leases, row.runtimeId = row'.runtimeId → row = row'
  known : ∀ e ∈ w.log, ∃ row ∈ w.leases, row.key = e.key
  history : ∀ row ∈ w.leases, History row (eventsOf row.key w.log)

theorem Move.createdAt_eq {x : Sha256} {now : Time} {row row' : LeaseRow} {events : List LeaseEvent}
    (h : Move x now row row' events) : row'.createdAt = row.createdAt := by
  cases h <;> rfl

theorem after_effect {x : Sha256} {now : Time} {t : Leases} {events : List LeaseEvent}
    (h : Effect x now w.leases t events) :
    ∃ events', w.after now t events = ⟨now, (w.after now t events).leases, w.log ++ events'⟩ ∧
      Effect x now w.leases (w.after now t events).leases events' := ⟨events, rfl, h⟩

/-- Each call has an effect on the table, which its events tell. -/
theorem perform_effect (h : w.Sound x.toSha256) (hadmitted : Admitted w call) :
    ∃ events, w.perform call = ⟨call.now, (w.perform call).leases, w.log ++ events⟩ ∧
      Effect x.toSha256 call.now w.leases (w.perform call).leases events := by
  have hsound : ∀ row ∈ w.leases, row.Sound x.toSha256 := fun row hrow => (h.rows row hrow).1
  cases call with
  | enqueue repo now request =>
    exact after_effect (enqueue_effect hsound
      (fun row hrow => Nat.le_trans (h.rows row hrow).2 hadmitted.1) request.valid)
  | requestStop repo now runtimeId requestLeaseFence =>
    exact after_effect (requestStop_effect hsound)
  | claimNext now ownerId leaseSeconds locked => exact after_effect (claimNext_effect hsound)
  | markRunning now claim workerId =>
    exact after_effect (fencedUpdate_effect fun row hholds => .running claim workerId hholds
      hadmitted.2.2)
  | markStopped now claim =>
    exact after_effect (fencedUpdate_effect fun row hholds => .ended claim hholds)
  | markInterrupted now claim errorCode =>
    exact after_effect (fencedUpdate_effect fun row hholds =>
      .interrupted claim errorCode hholds hadmitted.2.2)
  | expireDue now => exact after_effect expireDue_effect

theorem eventsOf_append {key : String × Uuid} {log events : List LeaseEvent} :
    eventsOf key (log ++ events) = eventsOf key log ++ eventsOf key events :=
  List.filter_append ..

theorem eventsOf_eq_nil {key : String × Uuid} {log : List LeaseEvent}
    (h : ∀ e ∈ log, e.key ≠ key) : eventsOf key log = [] :=
  List.filter_eq_nil_iff.mpr fun e he => by simpa using h e he

/-- A row that has just been added starts its log. -/
theorem Added.history {x : Sha256} {now : Time} {s t : Leases} {events : List LeaseEvent}
    {row : LeaseRow} (h : Added x now s t events row) : History row (eventsOf row.key events) := by
  rw [h.events]
  refine ⟨List.Pairwise.nil, fun _ hfence => absurd hfence List.not_mem_nil, fun claim hclaim => ?_,
    fun howner => absurd h.waiting.2 howner, fun hpending => ?_⟩
  · cases List.mem_singleton.mp hclaim
  · cases hpending

theorem World.Sound.perform (h : w.Sound x.toSha256) (hadmitted : Admitted w call) :
    (w.perform call).Sound x.toSha256 := by
  obtain ⟨events, hafter, heffect⟩ := perform_effect h hadmitted
  rw [hafter]
  generalize (w.perform call).leases = t at heffect
  have hclock : w.clock ≤ call.now := hadmitted.1
  -- A row of the new table is a moved row or an added one.
  have hcases : ∀ row' ∈ t, (∃ row ∈ w.leases, row'.key = row.key ∧
      Move x.toSha256 call.now row row' (eventsOf row.key events)) ∨
      Added x.toSha256 call.now w.leases t events row' := by
    intro row' hrow'
    obtain ⟨row, hrow, hkey⟩ | hadded := heffect.added row' hrow'
    · obtain ⟨moved, hmoved, hmovedKey, hmove⟩ := heffect.moved row hrow
      obtain rfl : moved = row' := Table.eq_of_key hmoved hrow' (hmovedKey.trans hkey)
      exact .inl ⟨row, hrow, hmovedKey, hmove⟩
    · exact .inr hadded
  refine ⟨fun row' hrow' => ?_, fun row₁ h₁ row₂ h₂ hid => ?_, fun e he => ?_, fun row' hrow' => ?_⟩
  · obtain ⟨row, hrow, _, hmove⟩ | hadded := hcases row' hrow'
    · refine ⟨hmove.sound (h.rows row hrow).1, ?_⟩
      rw [hmove.createdAt_eq]
      exact Nat.le_trans (h.rows row hrow).2 hclock
    · exact ⟨hadded.sound, Nat.le_of_eq hadded.created⟩
  · obtain ⟨old₁, hold₁, hkey₁, _⟩ | hadded₁ := hcases row₁ h₁
    · obtain ⟨old₂, hold₂, hkey₂, _⟩ | hadded₂ := hcases row₂ h₂
      · have hsame : old₁ = old₂ := h.unique old₁ hold₁ old₂ hold₂ <|
          (congrArg Prod.snd hkey₁).symm.trans (hid.trans (congrArg Prod.snd hkey₂))
        exact Table.eq_of_key h₁ h₂ (hkey₁.trans ((congrArg LeaseRow.key hsame).trans hkey₂.symm))
      · exact hadded₂.alone row₁ h₁ hid
    · exact (hadded₁.alone row₂ h₂ hid.symm).symm
  · obtain he | he := List.mem_append.mp he
    · obtain ⟨row, hrow, hkey⟩ := h.known e he
      obtain ⟨row', hrow', hkey', _⟩ := heffect.moved row hrow
      exact ⟨row', hrow', hkey'.trans hkey⟩
    · exact heffect.logged e he
  · rw [eventsOf_append]
    obtain ⟨row, hrow, hkey, hmove⟩ | hadded := hcases row' hrow'
    · rw [hkey]
      exact hmove.history (h.rows row hrow).1 (h.history row hrow)
    · rw [eventsOf_eq_nil, List.nil_append]
      · exact hadded.history
      · intro e he hkey
        obtain ⟨row, hrow, hrowKey⟩ := h.known e he
        exact hadded.fresh row hrow (hrowKey.trans hkey)

theorem World.sound_empty : World.empty.Sound x.toSha256 :=
  ⟨fun _ h => absurd h (Table.not_mem_empty _), fun _ h => absurd h (Table.not_mem_empty _),
    fun _ h => absurd h List.not_mem_nil, fun _ h => absurd h (Table.not_mem_empty _)⟩

theorem World.Sound.run (h : w.Sound x.toSha256) (hrun : Run (Step (x := x)) Admitted w w') :
    w'.Sound x.toSha256 :=
  hrun.invariant (fun a call b (hsound : a.Sound x.toSha256) hadmitted hstep => by
    have hstep : b = a.perform call := hstep
    rw [hstep]
    exact hsound.perform hadmitted) h

theorem Move.fence_le {x : Sha256} {now : Time} {row row' : LeaseRow} {events : List LeaseEvent}
    (h : Move x now row row' events) : row.leaseFence ≤ row'.leaseFence := by
  cases h with
  | claimed => exact Nat.le_succ _
  | _ => exact Nat.le_refl _

/-- No call takes a lease out of `STOPPED`. -/
theorem Move.stopped_of_stopped {x : Sha256} {now : Time} {row row' : LeaseRow}
    {events : List LeaseEvent} (h : Move x now row row' events) (hstatus : row.status = .stopped) :
    row'.status = .stopped := by
  cases h with
  | kept => exact hstatus
  | stopped => exact hstatus
  | requeued candidate hcandidate hcreated hfailed => simp [hstatus] at hfailed
  | stopping hne => exact absurd hstatus hne
  | claimed ownerId leaseSeconds hclaimable =>
    obtain ⟨_, hqueued | ⟨hactive, _⟩⟩ := hclaimable
    · simp [hstatus] at hqueued
    · simp [hstatus] at hactive
  | running claim workerId hholds => simp [hstatus, CloudRuntimeClaim.Holds] at hholds
  | ended claim hholds => simp [hstatus, CloudRuntimeClaim.Holds] at hholds
  | interrupted claim errorCode hholds => simp [hstatus, CloudRuntimeClaim.Holds] at hholds
  | expired hdue => simp [hstatus, LeaseRow.Due] at hdue

/-- Only what is logged as a retry or as a request to stop takes a lease out of `FAILED` or
`INTERRUPTED`. -/
theorem Move.logged_of_settled {x : Sha256} {now : Time} {row row' : LeaseRow}
    {events : List LeaseEvent} (h : Move x now row row' events)
    (hstatus : row.status ∈ [CloudRuntimeStatus.failed, .interrupted])
    (hne : row'.status ≠ row.status) :
    .enqueued row.key ∈ events ∨ .stopRequested row.key ∈ events := by
  cases h with
  | kept => exact absurd rfl hne
  | stopped => exact absurd rfl hne
  | requeued => exact .inl (List.mem_singleton.mpr rfl)
  | stopping => exact .inr (List.mem_singleton.mpr rfl)
  | claimed ownerId leaseSeconds hclaimable =>
    obtain ⟨_, hqueued | ⟨hactive, _⟩⟩ := hclaimable
    · simp [hqueued] at hstatus
    · cases hs : row.status <;> simp_all
  | running claim workerId hholds =>
    have hactive := hholds.2.1
    cases hs : row.status <;> simp_all
  | ended claim hholds =>
    have hactive := hholds.2.1
    cases hs : row.status <;> simp_all
  | interrupted claim errorCode hholds =>
    have hactive := hholds.2.1
    cases hs : row.status <;> simp_all
  | expired hdue =>
    have hactive := hdue.2
    cases hs : row.status <;> simp_all

/-- The calls that may take a settled lease up again. -/
def TakesUp (row : LeaseRow) : Call x → Prop
  | .enqueue repo _ request =>
    row.requestLeaseFence < request.requestLeaseFence ∧ row.tenantId = repo.tenantId ∧
      row.toRuntimeScope = request.toRuntimeScope
  | .requestStop repo _ runtimeId _ => row.key = (repo.tenantId, runtimeId)
  | _ => False

theorem takesUp_of_settled (h : w.Sound x.toSha256) {row row' : LeaseRow} (hrow : row ∈ w.leases)
    (hrow' : row' ∈ (w.perform call).leases) (hkey : row'.key = row.key)
    (hadmitted : Admitted w call)
    (hstatus : row.status ∈ [CloudRuntimeStatus.failed, .interrupted])
    (hne : row'.status ≠ row.status) : TakesUp row call := by
  have hsound : ∀ row ∈ w.leases, row.Sound x.toSha256 := fun row hrow => (h.rows row hrow).1
  have hlogged : ∀ now t events, Effect x.toSha256 now w.leases t events → row' ∈ t →
      .enqueued row.key ∈ events ∨ .stopRequested row.key ∈ events := by
    intro now t events heffect hmem
    obtain ⟨moved, hmoved, hmovedKey, hmove⟩ := heffect.moved row hrow
    obtain rfl : moved = row' := Table.eq_of_key hmoved hmem (hmovedKey.trans hkey.symm)
    exact (hmove.logged_of_settled hstatus hne).imp (fun h => (List.mem_filter.mp h).1)
      fun h => (List.mem_filter.mp h).1
  cases call with
  | enqueue repo now request =>
    exact enqueue_leaves hsound request.valid hrow hrow' hkey hne
  | requestStop repo now runtimeId requestLeaseFence =>
    have hevents := hlogged now _ _ (requestStop_effect hsound) hrow'
    cases hresult : (requestStop x repo now runtimeId requestLeaseFence w.leases).1 with
    | error e => simp [hresult, World.stopEvents] at hevents
    | ok lease =>
      have hrowKey : row.key = (repo.tenantId, runtimeId) := by
        simpa [hresult, World.stopEvents] using hevents
      exact hrowKey
  | claimNext now ownerId leaseSeconds locked =>
    have hevents := hlogged now _ _ (claimNext_effect hsound) hrow'
    match hresult : (claimNext x.toSha256 now ownerId leaseSeconds locked w.leases).1 with
    | .error e => simp [hresult, World.claimEvents] at hevents
    | .ok none => simp [hresult, World.claimEvents] at hevents
    | .ok (some claim) => simp [hresult, World.claimEvents] at hevents
  | markRunning now claim workerId =>
    have hevents := hlogged now _ _ (fencedUpdate_effect fun row hholds =>
      .running claim workerId hholds hadmitted.2.2) hrow'
    simp at hevents
  | markStopped now claim =>
    have hevents := hlogged now _ _ (fencedUpdate_effect fun row hholds =>
      .ended claim hholds) hrow'
    simp at hevents
  | markInterrupted now claim errorCode =>
    have hevents := hlogged now _ _ (fencedUpdate_effect fun row hholds =>
      .interrupted claim errorCode hholds hadmitted.2.2) hrow'
    simp at hevents
  | expireDue now =>
    have hevents := hlogged now _ _ expireDue_effect hrow'
    simp at hevents

theorem fencedUpdate_lost {claim : CloudRuntimeClaim} {statuses : List CloudRuntimeStatus}
    {values : LeaseRow → LeaseRow} {hkey : ∀ row, (values row).key = row.key} {action : String}
    {s : Leases} (h : ∀ row ∈ s, ¬ claim.Holds statuses row) :
    fencedUpdate claim statuses values hkey action s =
      (.error (.workerFence s!"Cloud Runtime worker lost its fence during {action}"), s) := by
  simp only [fencedUpdate, Table.select_eq_nil h, Table.update_eq_self h]
  exact if_pos (by simp)

/-- Two events of one lease, in the log of that lease. -/
theorem eventsOf_split {log : List LeaseEvent} {e e' : LeaseEvent} (hkey : e'.key = e.key)
    (h : [e, e'].Sublist log) :
    ∃ before after, eventsOf e.key log = before ++ e :: after ∧ e' ∈ after := by
  have hfilter := h.filter fun event => decide (event.key = e.key)
  have hboth : [e, e'].filter (fun event => decide (event.key = e.key)) = [e, e'] := by
    simp [hkey]
  rw [hboth] at hfilter
  obtain ⟨l₁, l₂, hsplit, he, he'⟩ := List.cons_sublist_iff.mp hfilter
  obtain ⟨l₃, l₄, rfl⟩ := List.append_of_mem he
  refine ⟨l₃, l₄ ++ l₂, ?_, List.mem_append_right _ (List.singleton_sublist.mp he')⟩
  rw [eventsOf, hsplit, List.append_assoc, List.cons_append]

/-- A claim that something has happened to can write no more. -/
theorem not_holds_of_superseded (h : w.Sound x.toSha256) {claim : CloudRuntimeClaim}
    {e : LeaseEvent} (hkey : e.key = claim.lease.key) (hlog : [.claimed claim, e].Sublist w.log)
    (statuses : List CloudRuntimeStatus) : ∀ row ∈ w.leases, ¬ claim.Holds statuses row := by
  rintro row hrow ⟨hrowKey, _, howner, hfence⟩
  obtain ⟨before, after, hsplit, he⟩ := eventsOf_split (e := .claimed claim) hkey hlog
  have hhistory := h.history row hrow
  have hclaimKey : row.key = (LeaseEvent.claimed claim).key := hrowKey
  rw [hclaimKey, hsplit] at hhistory
  exact hhistory.superseded (List.ne_nil_of_mem he) howner hfence

theorem stopPending_of_not_enqueued {key : String × Uuid} {before after : List LeaseEvent}
    (h : ∀ e ∈ after, ∀ k, e ≠ .enqueued k) :
    stopPending (before ++ .stopRequested key :: after) = true := by
  induction after using List.reverseRecOn with
  | nil => rw [stopPending_snoc]
  | append_singleton after e ih =>
    rw [← List.cons_append, ← List.append_assoc, stopPending_snoc]
    have ih := ih fun e' he' => h e' (List.mem_append_left _ he')
    cases e with
    | enqueued k => exact absurd rfl (h _ (List.mem_append_right _ List.mem_cons_self) k)
    | stopRequested k => rfl
    | expired k => exact ih
    | claimed claim => exact ih

/-- The worker fences of the leases, their terminal statuses and their rows, over every run. -/
theorem leases_fenced_and_readable (hrun : Run (Step (x := x)) Admitted World.empty w) :
    (∀ row ∈ w.leases, leaseFromRow x.toSha256 row = .ok row.toCloudRuntimeLease) ∧
    (∀ call : Call x, Admitted w call → ∀ row ∈ w.leases, ∃ row' ∈ (w.perform call).leases,
      row'.key = row.key ∧ row.leaseFence ≤ row'.leaseFence ∧
      (row.status = .stopped → row'.status = .stopped) ∧
      (row.status ∈ [CloudRuntimeStatus.failed, .interrupted] → row'.status ≠ row.status →
        TakesUp row call)) ∧
    (∀ claim claim', [.claimed claim, .claimed claim'].Sublist w.log →
      claim'.lease.key = claim.lease.key → claim.lease.leaseFence < claim'.lease.leaseFence) ∧
    (∀ claim e now workerId errorCode, [.claimed claim, e].Sublist w.log →
      e.key = claim.lease.key → ∀ result ∈ [markRunning now claim workerId w.leases,
        markStopped now claim w.leases, markInterrupted now claim errorCode w.leases],
      (∃ message, result.1 = .error (.workerFence message)) ∧ result.2 = w.leases) ∧
    ∀ key before after, w.log = before ++ .stopRequested key :: after → .enqueued key ∉ after →
      ∀ row ∈ w.leases, row.key = key → row.status ≠ .running := by
  have h : w.Sound x.toSha256 := World.sound_empty.run hrun
  refine ⟨fun row hrow => leaseFromRow_of_sound (h.rows row hrow).1,
    fun call hadmitted row hrow => ?_, fun claim claim' hlog hkey => ?_,
    fun claim e now workerId errorCode hlog hkey result hresult => ?_,
    fun key before after hlog hafter row hrow hkey => ?_⟩
  · obtain ⟨events, hperform, heffect⟩ := perform_effect h hadmitted
    obtain ⟨row', hrow', hkey, hmove⟩ := heffect.moved row hrow
    exact ⟨row', hrow', hkey, hmove.fence_le, hmove.stopped_of_stopped,
      takesUp_of_settled h hrow hrow' hkey hadmitted⟩
  · obtain ⟨before, after, hsplit, hafter⟩ := @eventsOf_split w.log (.claimed claim)
      (.claimed claim') hkey hlog
    obtain ⟨row, hrow, hrowKey⟩ := h.known (.claimed claim) (hlog.subset List.mem_cons_self)
    have hincreasing := (h.history row hrow).increasing
    rw [hrowKey, hsplit, fences, List.filterMap_append, List.map_append] at hincreasing
    have hclaims := (List.pairwise_append.mp hincreasing).2.1
    refine (List.pairwise_cons.mp hclaims).1 _ (List.mem_map.mpr ⟨claim', ?_, rfl⟩)
    exact List.mem_filterMap.mpr ⟨_, hafter, rfl⟩
  · have hlost := not_holds_of_superseded h hkey hlog
    simp only [List.mem_cons, List.not_mem_nil, or_false] at hresult
    have hfails : ∀ statuses values hkey action,
        (∃ message, (fencedUpdate claim statuses values hkey action w.leases).1 =
          .error (.workerFence message)) ∧
        (fencedUpdate claim statuses values hkey action w.leases).2 = w.leases := by
      intro statuses values hkey action
      rw [fencedUpdate_lost (hlost statuses)]
      exact ⟨⟨_, rfl⟩, rfl⟩
    obtain rfl | rfl | rfl := hresult
    · exact hfails [.starting, .running] (runningValues now claim.lease.runtimeId workerId)
        (fun _ => rfl) "mark running"
    · exact hfails [.stopping] (endValues now .stopped none) (fun _ => rfl) "mark stopped"
    · exact hfails [.starting, .running, .stopping] (endValues now .interrupted (some errorCode))
        (fun _ => rfl) "mark interrupted"
  · have hpending : stopPending (eventsOf row.key w.log) = true := by
      have hsplit : eventsOf row.key (.stopRequested key :: after) =
          .stopRequested key :: eventsOf row.key after :=
        List.filter_cons_of_pos (decide_eq_true hkey.symm)
      rw [hlog, eventsOf_append, hsplit]
      refine stopPending_of_not_enqueued fun e he k heq => ?_
      obtain ⟨he, hekey⟩ := List.mem_filter.mp he
      rw [heq, decide_eq_true_eq] at hekey
      have hk : k = key := hekey.trans hkey
      rw [heq, hk] at he
      exact hafter he
    have hstatus := (h.history row hrow).stopped hpending
    rintro hrunning
    simp [hrunning] at hstatus

end Runs

section Site

def zeroDigest : String := "0000000000000000000000000000000000000000000000000000000000000000"

/-- A hash with one value, for runs of one request. -/
def plainHashing : RuntimeHashing where
  digest := fun _ => zeroDigest
  hex := fun _ => by decide +kernel
  encode := fun _ => []

def siteService : RuntimeServiceStart where
  serviceId := "web"
  adapter := "node_http"
  argv := ["node"]
  cwd := "."
  readinessPath := "/"
  startupTimeoutSeconds := 30
  dependsOn := []

def siteStart : RuntimeStart where
  runtimeId := 7
  previewId := 8
  projectId := none
  workspaceId := 1
  conversationId := 2
  taskId := 3
  versionId := 4
  scopeDigest := zeroDigest
  workspaceGeneration := 1
  requestLeaseFence := 1
  adapter := "node_http"
  argv := ["node"]
  cwd := "."
  readinessPath := "/"
  startupTimeoutSeconds := 30
  dependencyKey := zeroDigest
  services := [siteService]
  publicServiceId := "web"
  workspaceArchive := [0]
  archiveSha256 := zeroDigest
  executionTarget := "cloud"
  kind := .cloudOci

def siteRequest : DynamicRuntimeStart plainHashing.toSha256 where
  toRuntimeStart := siteStart
  valid := by decide +kernel

def siteRepository : CloudRuntimeRepository where
  tenantId := "acme"
  lifetimeSeconds := 60
  tenant := by decide +kernel
  lifetime := by decide

/-- The lease that a worker has after the first claim of the site. -/
def siteLease : CloudRuntimeLease where
  toRuntimeScope := siteStart.toRuntimeScope
  toRuntimeProgram := siteStart.toRuntimeProgram
  tenantId := "acme"
  requestFingerprint := zeroDigest
  status := .starting
  internalUrl := none
  workerId := none
  leaseOwner := some "worker"
  leaseExpiresAt := some 30000001
  leaseFence := 1
  attempts := 1
  expiresAt := 60000000
  errorCode := none
  createdAt := 0
  updatedAt := 1

def siteClaim : CloudRuntimeClaim := ⟨siteLease, .start⟩

/-- The site is enqueued, claimed and stopped. -/
def stoppedSite : World :=
  [Call.enqueue (x := plainHashing) siteRepository 0 siteRequest, .claimNext 1 "worker" 30 [],
    .requestStop siteRepository 2 7 1].foldl World.perform World.empty

instance {w : World} {call : Call x} : Decidable (Admitted w call) := by
  unfold Admitted
  cases call <;> infer_instance

theorem stoppedSite_run : Run (Step (x := plainHashing)) Admitted World.empty stoppedSite :=
  Run.foldl (by decide +kernel)

theorem stoppedSite_log : stoppedSite.log =
    [.enqueued ("acme", 7), .claimed siteClaim, .stopRequested ("acme", 7)] := by decide +kernel

theorem stoppedSite_fenced :
    (∃ message, (markRunning 3 siteClaim "worker" stoppedSite.leases).1 =
      .error (.workerFence message)) ∧
    ∀ row ∈ stoppedSite.leases, row.key = ("acme", 7) → row.status ≠ .running := by
  obtain ⟨_, _, _, hlost, hstopped⟩ := leases_fenced_and_readable stoppedSite_run
  refine ⟨(hlost siteClaim (.stopRequested ("acme", 7)) 3 "worker" "gone" ?_ rfl _
    List.mem_cons_self).1, hstopped ("acme", 7) [.enqueued ("acme", 7), .claimed siteClaim] []
      stoppedSite_log List.not_mem_nil⟩
  rw [stoppedSite_log]
  exact List.sublist_cons_self _ _

end Site

end Fairy.CloudRuntime
