import Fairy.CloudRuntime.World

namespace Fairy.CloudRuntime

open Fairy.Lib
open Fairy.Commanding (Uuid Time)

section Requests

variable {x : Sha256} {r : RuntimeStart}

/-- What a lease takes over from a request that could be built. -/
theorem RuntimeStart.validate_ok (h : r.validate x = .ok ()) :
    r.validateServices = .ok () ∧ isDigest r.scopeDigest = true ∧
      isDigest r.dependencyKey = true ∧ 1 ≤ r.workspaceGeneration ∧ 1 ≤ r.requestLeaseFence ∧
      isDigest r.archiveSha256 = true := by
  simp only [RuntimeStart.validate] at h
  obtain ⟨_, hservices, hchecks⟩ := bind_ok h
  simp only [↓check_bind_ok_iff, ↓check_ok_iff, not_not, Nat.not_lt, not_or] at hchecks
  obtain ⟨hscope, hdependency, hgeneration, hfence, _, _, _, _, _, _, _, hdigest, _⟩ := hchecks
  exact ⟨hservices, hscope, hdependency, hgeneration, hfence, hdigest.1⟩

theorem RuntimeStart.validateServices_ok (h : r.validateServices = .ok ()) :
    r.services.forM RuntimeServiceStart.validate = .ok () := by
  simp only [RuntimeStart.validateServices] at h
  obtain ⟨_, hservices, _⟩ := bind_ok h
  exact hservices

/-- The target of a request and its kind do not matter to the other checks. -/
theorem RuntimeStart.validate_cloud (h : r.validate x = .ok ()) :
    { r with executionTarget := "cloud", kind := .cloudOci }.validate x = .ok () := by
  simp only [RuntimeStart.validate] at h ⊢
  obtain ⟨_, hservices, hchecks⟩ := bind_ok h
  simp only [RuntimeStart.validateServices] at hservices ⊢
  obtain ⟨_, hall, hservices⟩ := bind_ok hservices
  have hall : r.services.forM RuntimeServiceStart.validate = .ok () := hall
  rw [hall, ok_bind]
  simp only [↓check_bind_ok_iff] at hservices
  obtain ⟨_, _, hadapter, hcount, hpublic, hknown, hgraph⟩ := hservices
  rw [if_neg (by simp), if_neg (by simp), if_neg hadapter, if_neg hcount, if_neg hpublic,
    if_neg hknown, hgraph, ok_bind]
  exact hchecks

end Requests

section Rows

variable {x : Sha256} {row : LeaseRow}

theorem internalUrl_ne (runtimeId : Uuid) : internalUrl runtimeId ≠ "" := by
  intro h
  have := isInternalEndpoint_internalUrl runtimeId
  rw [h] at this
  exact absurd this (by simp [isInternalEndpoint, Url.urlsplit, Url.clean, Url.splitScheme,
    Url.partition])

theorem LeaseRow.Sound.internalUrl_ne (h : row.Sound x) : row.internalUrl ≠ some "" := by
  rw [h.endpoint]
  split
  · exact fun heq => CloudRuntime.internalUrl_ne _ (Option.some.inj heq)
  · exact nofun

/-- A row that the operations keep sound passes the checks of its lease. -/
theorem LeaseRow.Sound.validate_eq (h : row.Sound x) :
    row.toCloudRuntimeLease.validate = .ok row.toCloudRuntimeLease := by
  obtain ⟨_, hscope, hdependency, hgeneration, hfence, hdigest⟩ :=
    RuntimeStart.validate_ok h.request
  have hscope : isDigest row.scopeDigest = true := hscope
  have hdependency : isDigest row.dependencyKey = true := hdependency
  have hdigest : isDigest row.archiveSha256 = true := hdigest
  have hgeneration : ¬ (row.workspaceGeneration < 1 ∨ row.requestLeaseFence < 1) := by
    have h₁ : 1 ≤ row.workspaceGeneration := hgeneration
    have h₂ : 1 ≤ row.requestLeaseFence := hfence
    omega
  have hlifetime : ¬ row.expiresAt ≤ row.createdAt := Nat.not_le.mpr h.lifetime
  have howner : ¬ (row.leaseOwner = none) ≠ (row.leaseExpiresAt = none) :=
    not_not.mpr (propext h.owner)
  have hurl : ¬ (row.status ∈ [CloudRuntimeStatus.queued, .stopped] ∧ row.internalUrl ≠ none) := by
    rintro ⟨hstatus, hurl⟩
    rw [h.endpoint, if_neg (by rintro he; rw [he] at hstatus; exact absurd hstatus (by decide))]
      at hurl
    exact hurl rfl
  have herror : row.toCloudRuntimeLease.validateErrorCode = .ok () := by
    simp only [CloudRuntimeLease.validateErrorCode]
    by_cases hfailed : row.status ∈ [CloudRuntimeStatus.failed, .interrupted]
    · rw [if_pos hfailed, if_neg]
      intro hempty
      cases hcode : row.errorCode with
      | none => exact absurd hfailed (h.error.2.mp hcode)
      | some code =>
        rw [hcode] at hempty
        exact h.error.1 (hcode.trans (congrArg some hempty))
    · rw [if_neg hfailed, if_neg (not_not.mpr (h.error.2.mpr hfailed))]
  simp only [CloudRuntimeLease.validate, h.tenant, ok_bind]
  rw [if_neg (not_not.mpr hscope), if_neg (not_not.mpr h.fingerprint),
    if_neg (not_not.mpr hdependency), if_neg (not_not.mpr hdigest), if_neg hgeneration,
    if_neg hlifetime, if_neg howner]
  by_cases hrunning : row.status = .running
  · have hcheck : row.toCloudRuntimeLease.validateRunning = .ok () := by
      have hfence : 1 ≤ row.leaseFence := h.started (by simp [hrunning])
      obtain ⟨worker, hworker⟩ := Option.ne_none_iff_exists'.mp (h.running hrunning)
      have hempty : worker ≠ "" := fun hempty => h.worker (hworker.trans (congrArg some hempty))
      have hurl : row.internalUrl = some (internalUrl row.runtimeId) := by
        rw [h.endpoint, if_pos hrunning]
      simp only [CloudRuntimeLease.validateRunning, hurl, hworker]
      rw [if_neg (by
        rintro (he | he | he)
        · exact CloudRuntime.internalUrl_ne _ he
        · exact hempty he
        · omega), if_pos (isInternalEndpoint_internalUrl row.runtimeId)]
    rw [if_pos hrunning, hcheck, ok_bind, if_neg hurl, herror]
    rfl
  · rw [if_neg hrunning, if_neg hurl, herror]
    rfl

theorem leaseFromRow_of_sound (h : row.Sound x) :
    leaseFromRow x row = .ok row.toCloudRuntimeLease := by
  obtain ⟨hservices, _⟩ := RuntimeStart.validate_ok h.request
  have hall : row.services.forM RuntimeServiceStart.validate = .ok () :=
    RuntimeStart.validateServices_ok hservices
  simp only [leaseFromRow, hall, ok_bind, textOrNone_eq_self h.internalUrl_ne,
    textOrNone_eq_self h.worker, textOrNone_eq_self h.ownerText,
    textOrNone_eq_self h.error.1, h.validate_eq]
  rw [if_neg (not_not.mpr h.archive), h.request, ok_bind]
  exact if_neg (not_not.mpr rfl)

theorem sound_create {x : RuntimeHashing} {repo : CloudRuntimeRepository} {now : Time}
    {request : RuntimeStart} (hrequest : request.validate x.toSha256 = .ok ()) :
    ∃ candidate, CloudRuntimeLease.create x repo.tenantId request
        (now + seconds repo.lifetimeSeconds) now = .ok candidate ∧
      (leaseValues candidate).Sound x.toSha256 ∧ candidate.status = .queued ∧
      candidate.tenantId = repo.tenantId ∧ candidate.createdAt = now ∧
      candidate.toRuntimeScope = request.toRuntimeScope ∧
      candidate.toRuntimeProgram = request.toRuntimeProgram ∧ candidate.leaseOwner = none ∧
      candidate.leaseFence = 0 := by
  let candidate : CloudRuntimeLease := {
    toRuntimeScope := request.toRuntimeScope
    toRuntimeProgram := request.toRuntimeProgram
    tenantId := repo.tenantId, requestFingerprint := x.fingerprint request
    status := .queued, internalUrl := none, workerId := none, leaseOwner := none
    leaseExpiresAt := none, leaseFence := 0, attempts := 0
    expiresAt := now + seconds repo.lifetimeSeconds, errorCode := none
    createdAt := now, updatedAt := now }
  have hsound : (leaseValues candidate).Sound x.toSha256 := by
    refine ⟨repo.tenant, x.hex _, request.validate_cloud hrequest, rfl, ?_, by simp [leaseValues,
      candidate], nofun, fun h => absurd rfl h, fun _ => rfl, rfl, nofun, nofun,
      by simp [leaseValues, candidate],
      nofun, ?_⟩
    · have := repo.lifetime
      exact Nat.lt_add_of_pos_right (Nat.mul_pos (by omega) (by decide))
    · simp [leaseValues, candidate]
  exact ⟨candidate, hsound.validate_eq, hsound, rfl, rfl, rfl, rfl, rfl, rfl, rfl⟩

/-- No call breaks the columns of a row that it writes. -/
theorem Move.sound {now : Time} {row' : LeaseRow} {events : List LeaseEvent} (h : row.Sound x)
    (hmove : Move x now row row' events) : row'.Sound x := by
  cases hmove with
  | kept => exact h
  | stopped hstatus => exact h
  | requeued candidate hcandidate hcreated hstatus hfence hscope hqueued =>
    refine ⟨h.tenant, hcandidate.fingerprint, ?_, rfl, ?_, by simp [retryValues], nofun,
      fun h => absurd rfl h, fun _ => rfl, rfl, nofun, nofun, by simp [retryValues], nofun, ?_⟩
    · have hrequest := hcandidate.request
      have : (retryValues candidate row).toRequest = (leaseValues candidate).toRequest := by
        simp only [CloudRuntimeLease.toRequest, retryValues, leaseValues, hscope.2]
      rw [this]
      exact hrequest
    · exact Nat.lt_of_le_of_lt hcreated hcandidate.lifetime
    · simp [retryValues]
  | stopping hstatus =>
    exact ⟨h.tenant, h.fingerprint, h.request, h.archive, h.lifetime, by simp [stopValues], nofun,
      fun h => absurd rfl h, fun _ => rfl, rfl, h.worker, nofun, by simp [stopValues], nofun,
      by simp [stopValues]⟩
  | claimed ownerId leaseSeconds hclaimable howner hseconds =>
    refine ⟨h.tenant, h.fingerprint, h.request, h.archive, h.lifetime, by simp [claimValues],
      fun he => howner (Option.some.inj he), fun _ => Nat.succ_pos _, ?_, ?_, h.worker, ?_,
      fun _ => Nat.succ_pos _, h.error.1, ?_⟩
    · intro hidle
      have hstatus : row.status ∈ [CloudRuntimeStatus.queued, .starting, .running, .stopping] := by
        obtain ⟨_, hqueued | ⟨hstatus, _⟩⟩ := hclaimable
        · simp [hqueued]
        · exact List.mem_cons_of_mem _ hstatus
      cases hs : row.status <;> simp_all [claimValues, claimAction]
    · show row.internalUrl = _
      rw [h.endpoint]
      cases hstatus : row.status <;> simp [claimValues, claimAction, hstatus]
    · intro hrunning
      have hrow : row.status = .running := by
        cases hstatus : row.status <;> simp_all [claimValues, claimAction]
      exact h.running hrow
    · show row.errorCode = none ↔ _
      rw [h.error.2]
      cases hstatus : row.status <;> simp [claimValues, claimAction, hstatus]
  | running claim workerId hholds hworker =>
    obtain ⟨hkey, hstatus, howner, _⟩ := hholds
    have hid : claim.lease.runtimeId = row.runtimeId := (congrArg Prod.snd hkey).symm
    refine ⟨h.tenant, h.fingerprint, h.request, h.archive, h.lifetime, h.owner, h.ownerText,
      h.fenced, fun hidle => absurd hidle (by simp [runningValues]), ?_, fun he => hworker (Option.some.inj he), fun _ => nofun, fun _ => h.started hstatus,
      nofun, ?_⟩
    · show some (internalUrl claim.lease.runtimeId) = some (internalUrl row.runtimeId)
      rw [hid]
    · simp [runningValues]
  | ended claim hholds =>
    exact ⟨h.tenant, h.fingerprint, h.request, h.archive, h.lifetime, by simp [endValues], nofun,
      fun h => absurd rfl h, fun _ => rfl, rfl, h.worker, nofun, by simp [endValues], nofun,
      by simp [endValues]⟩
  | interrupted claim errorCode hholds herror =>
    exact ⟨h.tenant, h.fingerprint, h.request, h.archive, h.lifetime, by simp [endValues], nofun,
      fun h => absurd rfl h, fun _ => rfl, rfl, h.worker, nofun, by simp [endValues],
      fun he => herror (Option.some.inj he), by simp [endValues]⟩
  | expired hdue =>
    refine ⟨h.tenant, h.fingerprint, h.request, h.archive, h.lifetime, by simp [expireValues],
      nofun, fun h => absurd rfl h, fun _ => rfl, rfl, h.worker, nofun, by simp [expireValues], ?_⟩
    obtain ⟨_, hstatus⟩ := hdue
    have hnone : row.errorCode = none := h.error.2.mpr (by
      intro hfailed
      cases hs : row.status <;> simp_all)
    simp [expireValues, hnone]

end Rows

section Calls

/-- The events of a row. -/
def eventsOf (key : String × Uuid) (events : List LeaseEvent) : List LeaseEvent :=
  events.filter fun e => e.key = key

/-- A row that a call has added to the table. -/
structure Added (x : Sha256) (now : Time) (s t : Leases) (events : List LeaseEvent)
    (row : LeaseRow) : Prop where
  fresh : ∀ other ∈ s, other.key ≠ row.key
  alone : ∀ other ∈ t, other.runtimeId = row.runtimeId → other = row
  sound : row.Sound x
  created : row.createdAt = now
  waiting : row.status = .queued ∧ row.leaseOwner = none
  events : eventsOf row.key events = [.enqueued row.key]

/-- What a call leaves of a table, with its events. -/
structure Effect (x : Sha256) (now : Time) (s t : Leases) (events : List LeaseEvent) : Prop where
  moved : ∀ row ∈ s, ∃ row' ∈ t, row'.key = row.key ∧
    Move x now row row' (eventsOf row.key events)
  added : ∀ row ∈ t, (∃ row' ∈ s, row'.key = row.key) ∨ Added x now s t events row
  logged : ∀ e ∈ events, ∃ row ∈ t, row.key = e.key

variable {x : RuntimeHashing} {now : Time} {s t : Leases} {events : List LeaseEvent}

theorem Effect.refl (x : Sha256) (now : Time) (s : Leases) : Effect x now s s [] :=
  ⟨fun row hrow => ⟨row, hrow, rfl, .kept⟩, fun row hrow => .inl ⟨row, hrow, rfl⟩,
    fun _ he => absurd he List.not_mem_nil⟩

theorem Effect.of_update {p : LeaseRow → Prop} [DecidablePred p] {f : LeaseRow → LeaseRow}
    {x : Sha256} (hk : ∀ row, (f row).key = row.key)
    (hmove : ∀ row ∈ s, Move x now row (if p row then f row else row) (eventsOf row.key events))
    (hlogged : ∀ e ∈ events, ∃ row ∈ s, row.key = e.key) :
    Effect x now s (s.update p f hk) events := by
  have hkey : ∀ row, (if p row then f row else row).key = row.key := by
    intro row
    split
    · exact hk row
    · rfl
  refine ⟨fun row hrow => ?_, fun row hrow => ?_, fun e he => ?_⟩
  · exact ⟨_, (Table.mem_update Table.rows_update).mpr ⟨row, hrow, rfl⟩, hkey row,
      hmove row hrow⟩
  · obtain ⟨row', hrow', rfl⟩ := (Table.mem_update Table.rows_update).mp hrow
    exact .inl ⟨row', hrow', (hkey row').symm⟩
  · obtain ⟨row, hrow, heq⟩ := hlogged e he
    exact ⟨_, (Table.mem_update Table.rows_update).mpr ⟨row, hrow, rfl⟩, (hkey row).trans heq⟩

theorem eventsOf_singleton {e : LeaseEvent} {key : String × Uuid} :
    eventsOf key [e] = if e.key = key then [e] else [] := by
  simp only [eventsOf, List.filter_cons, List.filter_nil, decide_eq_true_eq]

/-- The update of one row, with at most one event of it. -/
theorem Effect.of_row {x : Sha256} {row : LeaseRow} {p : LeaseRow → Prop} [DecidablePred p]
    {f : LeaseRow → LeaseRow} (hk : ∀ row, (f row).key = row.key) (hrow : row ∈ s)
    (hp : ∀ other ∈ s, p other → other = row) (hevents : ∀ e ∈ events, e.key = row.key)
    (hmove : Move x now row (if p row then f row else row) events) :
    Effect x now s (s.update p f hk) events := by
  refine .of_update hk (fun other hother => ?_) fun e he => ⟨row, hrow, (hevents e he).symm⟩
  by_cases hsame : other = row
  · rw [hsame]
    have hall : eventsOf row.key events = events :=
      List.filter_eq_self.mpr fun e he => decide_eq_true (hevents e he)
    rw [hall]
    exact hmove
  · have hnone : eventsOf other.key events = [] := by
      refine List.filter_eq_nil_iff.mpr fun e he => ?_
      rw [decide_eq_true_eq, hevents e he]
      exact fun hkey => hsame (Table.eq_of_key hother hrow hkey.symm)
    rw [hnone, if_neg fun h => hsame (hp other hother h)]
    exact .kept

theorem fencedUpdate_effect {x : Sha256} {claim : CloudRuntimeClaim}
    {statuses : List CloudRuntimeStatus} {values : LeaseRow → LeaseRow}
    {hkey : ∀ row, (values row).key = row.key} {action : String}
    (hmove : ∀ row, claim.Holds statuses row → Move x now row (values row) []) :
    Effect x now s (fencedUpdate claim statuses values hkey action s).2 [] := by
  have hupdate : (fencedUpdate claim statuses values hkey action s).2 =
      s.update (claim.Holds statuses) values hkey := by
    simp only [fencedUpdate]
    split <;> rfl
  rw [hupdate]
  refine .of_update hkey (fun row _ => ?_) fun _ he => absurd he List.not_mem_nil
  by_cases hholds : claim.Holds statuses row
  · rw [if_pos hholds]
    exact hmove row hholds
  · rw [if_neg hholds]
    exact .kept

theorem expireDue_effect {x : Sha256} : Effect x now s (expireDue now s).2
    ((s.select (LeaseRow.Due now)).map fun row => .expired row.key) := by
  refine Effect.of_update (p := LeaseRow.Due now) (f := expireValues now) (fun _ => rfl)
    (fun row hrow => ?_) fun e he => ?_
  · have hevents : eventsOf row.key ((s.select (LeaseRow.Due now)).map fun row =>
        LeaseEvent.expired row.key) = if row.Due now then [.expired row.key] else [] := by
      rw [eventsOf, List.filter_map]
      have hfilter : (s.select (LeaseRow.Due now)).filter
          ((fun e : LeaseEvent => decide (e.key = row.key)) ∘ fun row => .expired row.key) =
          s.select fun other => other.Due now ∧ other.key = row.key := by
        simp only [Table.select, List.filter_filter]
        refine List.filter_congr fun other _ => ?_
        simp only [Function.comp_apply, LeaseEvent.key, Bool.decide_and, Bool.and_comm]
        rfl
      rw [hfilter]
      by_cases hdue : row.Due now
      · have hone : s.select (fun other => other.Due now ∧ other.key = row.key) = [row] := by
          refine Table.select_eq_singleton hrow fun other hother => ⟨fun h => ?_, ?_⟩
          · exact Table.eq_of_key hother hrow h.2
          · rintro rfl
            exact ⟨hdue, rfl⟩
        rw [if_pos hdue, hone]
        rfl
      · have hnone : s.select (fun other => other.Due now ∧ other.key = row.key) = [] := by
          refine Table.select_eq_nil fun other hother h => hdue ?_
          rw [← Table.eq_of_key hother hrow h.2]
          exact h.1
        rw [if_neg hdue, hnone]
        rfl
    rw [hevents]
    by_cases hdue : row.Due now
    · rw [if_pos hdue, if_pos hdue]
      exact .expired hdue
    · rw [if_neg hdue, if_neg hdue]
      exact .kept
  · obtain ⟨row, hrow, rfl⟩ := List.mem_map.mp he
    exact ⟨row, (Table.mem_select.mp hrow).1, rfl⟩

theorem requestStop_effect {repo : CloudRuntimeRepository} {runtimeId : Uuid}
    {requestLeaseFence : Nat} (hsound : ∀ row ∈ s, row.Sound x.toSha256) :
    Effect x.toSha256 now s (requestStop x repo now runtimeId requestLeaseFence s).2
      (World.stopEvents (repo.tenantId, runtimeId)
        (requestStop x repo now runtimeId requestLeaseFence s).1) := by
  simp only [requestStop]
  cases hfind : s.find? (repo.tenantId, runtimeId) with
  | none => exact .refl _ now s
  | some row =>
    obtain ⟨hrow, hkey⟩ := Table.find?_eq_some.mp hfind
    simp only [leaseFromRow_of_sound (hsound row hrow)]
    split
    · exact .refl _ now s
    rename_i hfence
    split
    · rename_i hstopped
      have hsame : s.update (fun _ => False) id (fun _ => rfl) (fun _ h _ => h.elim) = s :=
        Table.update_eq_self fun _ _ h => h
      have heffect : Effect x.toSha256 now s
          (s.update (fun _ => False) id (fun _ => rfl) (fun _ h _ => h.elim))
          [.stopRequested (repo.tenantId, runtimeId)] := by
        refine .of_row (fun _ => rfl) hrow (fun _ _ h => h.elim) ?_ ?_
        · intro e he
          rw [List.mem_singleton.mp he]
          exact hkey.symm
        · rw [if_neg not_false, ← hkey]
          exact .stopped hstopped
      rw [hsame] at heffect
      exact heffect
    · rename_i hstopped
      have hvalues : (stopValues now row).Sound x.toSha256 :=
        Move.sound (hsound row hrow) (@Move.stopping x.toSha256 now row hstopped)
      simp only [leaseFromRow_of_sound hvalues]
      refine Effect.of_row (p := fun row => row.key = (repo.tenantId, runtimeId) ∧
        row.requestLeaseFence = requestLeaseFence) (f := stopValues now) (fun _ => rfl) hrow
        ?_ ?_ ?_
      · exact fun other hother h => Table.eq_of_key hother hrow (h.1.trans hkey.symm)
      · intro e he
        rw [List.mem_singleton.mp he]
        exact hkey.symm
      · rw [if_pos ⟨hkey, not_not.mp hfence⟩, ← hkey]
        exact .stopping hstopped

theorem selectClaim_eq_some {locked : List (String × Uuid)} {row : LeaseRow}
    (h : selectClaim now locked s = some row) : row ∈ s ∧ row.Claimable now ∧ row.key ∉ locked :=
  Table.mem_select.mp (mem_of_mem_batch (List.mem_of_mem_head? h))

/-- A claim of the row that is selected. -/
theorem claimNext_eq {x : Sha256} {ownerId : String} {leaseSeconds : Nat}
    {locked : List (String × Uuid)} {row : LeaseRow} (hsound : row.Sound x)
    (howner : Text.strip ownerId ≠ "") (hseconds : 1 ≤ leaseSeconds)
    (hselect : selectClaim now locked s = some row) :
    claimNext x now ownerId leaseSeconds locked s =
      (.ok (some ⟨(claimValues now ownerId leaseSeconds row).toCloudRuntimeLease,
        claimAction row.status⟩),
      s.update (fun r => r.key = row.key ∧ r.leaseFence = row.leaseFence)
        (claimValues now ownerId leaseSeconds)) := by
  have hguard : ¬ (Text.strip ownerId = "" ∨ leaseSeconds < 1) := by
    rintro (h | h)
    · exact howner h
    · omega
  have hname : ownerId ≠ "" := by
    rintro rfl
    exact howner (by decide)
  have hmove := Move.claimed (x := x) ownerId leaseSeconds (selectClaim_eq_some hselect).2.1 hname
    hseconds
  have hclaim : CloudRuntimeClaim.validate
      ⟨(claimValues now ownerId leaseSeconds row).toCloudRuntimeLease,
        claimAction row.status⟩ = .ok ⟨(claimValues now ownerId leaseSeconds
          row).toCloudRuntimeLease, claimAction row.status⟩ := by
    refine if_neg ?_
    rintro (h | h | h)
    · exact hname h
    · cases h
    · exact absurd h (Nat.not_lt.mpr (Nat.succ_pos _))
  simp only [claimNext, if_neg hguard, hselect, leaseFromRow_of_sound (Move.sound hsound hmove),
    ok_bind, hclaim]
  rfl

theorem claimNext_effect {x : Sha256} {ownerId : String} {leaseSeconds : Nat}
    {locked : List (String × Uuid)} (hsound : ∀ row ∈ s, row.Sound x) :
    Effect x now s (claimNext x now ownerId leaseSeconds locked s).2
      (World.claimEvents (claimNext x now ownerId leaseSeconds locked s).1) := by
  by_cases hguard : Text.strip ownerId = "" ∨ leaseSeconds < 1
  · rw [claimNext, if_pos hguard]
    exact .refl x now s
  cases hselect : selectClaim now locked s with
  | none =>
    simp only [claimNext, if_neg hguard, hselect]
    exact .refl x now s
  | some row =>
    simp only [not_or, Nat.not_lt] at hguard
    obtain ⟨hrow, hclaimable, _⟩ := selectClaim_eq_some hselect
    rw [claimNext_eq (hsound row hrow) hguard.1 hguard.2 hselect]
    refine Effect.of_row (p := fun r => r.key = row.key ∧ r.leaseFence = row.leaseFence)
      (f := claimValues now ownerId leaseSeconds) (fun _ => rfl) hrow ?_ ?_ ?_
    · exact fun other hother h => Table.eq_of_key hother hrow h.1
    · intro e he
      rw [List.mem_singleton.mp he]
      rfl
    · rw [if_pos ⟨rfl, rfl⟩]
      refine .claimed ownerId leaseSeconds hclaimable ?_ hguard.2
      rintro rfl
      exact hguard.1 (by decide)

theorem retryLease_effect {x : Sha256} {row : LeaseRow} {candidate : CloudRuntimeLease}
    (hrow : row ∈ s) (hkey : row.key = (candidate.tenantId, candidate.runtimeId))
    (hcandidate : (leaseValues candidate).Sound x) (hcreated : row.createdAt ≤ candidate.createdAt)
    (hqueued : candidate.status = .queued)
    (hretry : validateRetry row.toCloudRuntimeLease candidate = .ok ()) :
    ∃ t, retryLease row.toCloudRuntimeLease candidate s = .ok (retryValues candidate row, t) ∧
      Effect x now s t [.enqueued row.key] ∧ t.find? row.key = some (retryValues candidate row) ∧
      row.status ∈ [CloudRuntimeStatus.failed, .interrupted] := by
  simp only [validateRetry] at hretry
  split at hretry
  · cases hretry
  rename_i hguard
  simp only [not_or, not_not, Nat.not_le] at hguard
  obtain ⟨hstatus, hfence, htenant, hscope⟩ := hguard
  have hchosen : row.Chosen row.toCloudRuntimeLease candidate := ⟨hkey, rfl, rfl⟩
  have hone : ∀ other ∈ s, other.Chosen row.toCloudRuntimeLease candidate → other = row :=
    fun other hother h => Table.eq_of_key hother hrow (h.1.trans hkey.symm)
  have hfound : s.oneOrNone (LeaseRow.Chosen row.toCloudRuntimeLease candidate) = some row := by
    cases hfind : s.oneOrNone (LeaseRow.Chosen row.toCloudRuntimeLease candidate) with
    | none => exact absurd hchosen (Table.oneOrNone_eq_none.mp hfind row hrow)
    | some other =>
      obtain ⟨hother, h⟩ := Table.oneOrNone_eq_some hfind
      rw [hone other hother h]
  refine ⟨s.update (LeaseRow.Chosen row.toCloudRuntimeLease candidate) (retryValues candidate),
    by simp only [retryLease, hfound], ?_, ?_, hstatus⟩
  · refine Effect.of_row (f := retryValues candidate) (fun _ => rfl) hrow hone ?_ ?_
    · intro e he
      rw [List.mem_singleton.mp he]
      rfl
    · rw [if_pos hchosen]
      exact .requeued candidate hcandidate hcreated hstatus hfence ⟨htenant, hscope⟩ hqueued
  · refine Table.find?_eq_some.mpr ⟨?_, rfl⟩
    exact Table.mem_update_of Table.rows_update hrow hchosen

theorem insertLease_effect {x : Sha256} {candidate : CloudRuntimeLease} {row : LeaseRow}
    (hcandidate : (leaseValues candidate).Sound x) (hcreated : candidate.createdAt = now)
    (hwaiting : candidate.status = .queued ∧ candidate.leaseOwner = none)
    (h : insertLease candidate s = .ok (row, t)) :
    row = leaseValues candidate ∧ Effect x now s t [.enqueued candidate.key] ∧
      t.find? candidate.key ≠ none := by
  simp only [insertLease] at h
  split at h
  · cases h
  rename_i hruntime
  split at h
  · cases h
  cases hinsert : s.insertAll [leaseValues candidate] with
  | none =>
    rw [hinsert] at h
    cases h
  | some u =>
    rw [hinsert] at h
    cases h
    obtain ⟨hrows, _, _, hfresh⟩ := Table.insertAll_eq_some hinsert
    have hmem : ∀ r, r ∈ t ↔ r ∈ s ∨ r = leaseValues candidate := by
      intro r
      rw [Table.mem_of_rows_append hrows, List.mem_singleton]
    have hnew : leaseValues candidate ∈ t := (hmem _).mpr (.inr rfl)
    have hkey : (leaseValues candidate).key = candidate.key := rfl
    have hfresh : ∀ other ∈ s, other.key ≠ candidate.key := fun other hother =>
      hfresh _ List.mem_cons_self other hother
    refine ⟨rfl, ⟨fun r hr => ⟨r, (hmem r).mpr (.inl hr), rfl, ?_⟩, fun r hr => ?_, ?_⟩, ?_⟩
    · rw [eventsOf_singleton, if_neg fun h => hfresh r hr h.symm]
      exact .kept
    · obtain hr | rfl := (hmem r).mp hr
      · exact .inl ⟨r, hr, rfl⟩
      · refine .inr ⟨hfresh, fun other hother h => ?_, hcandidate, hcreated, hwaiting, ?_⟩
        · exact ((hmem other).mp hother).resolve_left fun hs => hruntime ⟨other, hs, h⟩
        · rw [eventsOf_singleton]
          exact if_pos hkey.symm
    · intro e he
      rw [List.mem_singleton.mp he]
      exact ⟨_, hnew, rfl⟩
    · rw [← hkey, Table.find?_key hnew]
      exact nofun

/-- What `enqueue` may come to. -/
inductive Enqueued (x : RuntimeHashing) (repo : CloudRuntimeRepository) (now : Time)
    (request : RuntimeStart) (s : Leases) : Leases → Prop
  | kept : Enqueued x repo now request s s
  | inserted (candidate : CloudRuntimeLease) (row : LeaseRow) (t : Leases)
      (hcreate : CloudRuntimeLease.create x repo.tenantId request
        (now + seconds repo.lifetimeSeconds) now = .ok candidate)
      (hfind : s.find? candidate.key = none) (hinsert : insertLease candidate s = .ok (row, t)) :
      Enqueued x repo now request s t
  | retried (candidate : CloudRuntimeLease) (row row' : LeaseRow) (t : Leases)
      (hcreate : CloudRuntimeLease.create x repo.tenantId request
        (now + seconds repo.lifetimeSeconds) now = .ok candidate)
      (hrow : row ∈ s) (hkey : row.key = candidate.key)
      (hretry : validateRetry row.toCloudRuntimeLease candidate = .ok ())
      (hretried : retryLease row.toCloudRuntimeLease candidate s = .ok (row', t)) :
      Enqueued x repo now request s t

theorem enqueue_cases {repo : CloudRuntimeRepository} {request : RuntimeStart}
    (hsound : ∀ row ∈ s, row.Sound x.toSha256) :
    Enqueued x repo now request s (enqueue x repo now request s).2 := by
  simp only [enqueue]
  split
  · exact .kept
  rename_i candidate hcreate
  cases hrow : enqueueRow x candidate s with
  | error e => exact .kept
  | ok result =>
    obtain ⟨row', t⟩ := result
    have hleft : ∀ y : Outcome CloudRuntimeLease, y.2 = t →
        Enqueued x repo now request s t → Enqueued x repo now request s y.2 := fun y hy h => hy ▸ h
    refine hleft _ ?_ ?_
    · dsimp only
      split
      · rfl
      · split <;> rfl
    simp only [enqueueRow] at hrow
    cases hfind : s.find? (candidate.tenantId, candidate.runtimeId) with
    | none =>
      rw [hfind] at hrow
      exact .inserted candidate row' t hcreate hfind hrow
    | some row =>
      obtain ⟨hmem, hkey⟩ := Table.find?_eq_some.mp hfind
      simp only [hfind, leaseFromRow_of_sound (hsound row hmem), ok_bind] at hrow
      split at hrow
      · cases hrow
        exact .kept
      · obtain ⟨_, hretry, hretried⟩ := bind_ok hrow
        exact .retried candidate row row' t hcreate hmem hkey hretry hretried

theorem enqueue_effect {repo : CloudRuntimeRepository} {request : RuntimeStart}
    (hsound : ∀ row ∈ s, row.Sound x.toSha256) (hcreated : ∀ row ∈ s, row.createdAt ≤ now)
    (hrequest : request.validate x.toSha256 = .ok ()) :
    Effect x.toSha256 now s (enqueue x repo now request s).2
      (World.enqueueEvents (repo.tenantId, request.runtimeId) s
        (enqueue x repo now request s).2) := by
  obtain ⟨candidate, hcreate, hcandidate, hqueued, htenant, hat, hscope, _, howner, _⟩ :=
    @sound_create x repo now request hrequest
  have hkey : (repo.tenantId, request.runtimeId) = candidate.key :=
    Prod.ext htenant.symm (congrArg RuntimeScope.runtimeId hscope).symm
  have hcases : Enqueued x repo now request s (enqueue x repo now request s).2 :=
    enqueue_cases hsound
  generalize (enqueue x repo now request s).2 = t at hcases
  rw [hkey, World.enqueueEvents]
  cases hcases with
  | kept =>
    rw [if_pos rfl]
    exact .refl _ now s
  | inserted candidate' row t hcreate' hfind hinsert =>
    obtain rfl : candidate' = candidate := Except.ok.inj (hcreate'.symm.trans hcreate)
    obtain ⟨_, heffect, hsome⟩ := insertLease_effect hcandidate hat ⟨hqueued, howner⟩ hinsert
    rw [hfind, if_neg hsome.symm]
    exact heffect
  | retried candidate' row row' t hcreate' hrow hrowkey hretry hretried =>
    obtain rfl : candidate' = candidate := Except.ok.inj (hcreate'.symm.trans hcreate)
    obtain ⟨u, hu, heffect, hfound, hstatus⟩ := @retryLease_effect now s x.toSha256 row _ hrow
      hrowkey hcandidate (hat.symm ▸ hcreated row hrow) hqueued hretry
    obtain ⟨_, rfl⟩ := Prod.mk.inj (Except.ok.inj (hretried.symm.trans hu))
    rw [← hrowkey, hfound, Table.find?_key hrow, if_neg]
    · exact heffect
    · intro heq
      rw [Option.some.inj heq] at hstatus
      exact absurd hstatus (by simp [retryValues])

/-- A retry takes a higher fence of Core for the same scope. -/
theorem enqueue_leaves {repo : CloudRuntimeRepository} {request : RuntimeStart} {row row' : LeaseRow}
    (hsound : ∀ row ∈ s, row.Sound x.toSha256) (hrequest : request.validate x.toSha256 = .ok ())
    (hrow : row ∈ s) (hrow' : row' ∈ (enqueue x repo now request s).2) (hkey : row'.key = row.key)
    (hstatus : row'.status ≠ row.status) :
    row.requestLeaseFence < request.requestLeaseFence ∧ row.tenantId = repo.tenantId ∧
      row.toRuntimeScope = request.toRuntimeScope := by
  obtain ⟨candidate, hcreate, _, _, htenant, _, hscope, hprogram, _⟩ :=
    @sound_create x repo now request hrequest
  have hcases : Enqueued x repo now request s (enqueue x repo now request s).2 :=
    enqueue_cases hsound
  generalize (enqueue x repo now request s).2 = t at hcases hrow'
  cases hcases with
  | kept => exact absurd (congrArg (·.status) (Table.eq_of_key hrow' hrow hkey)) hstatus
  | inserted candidate' new t hcreate' hfind hinsert =>
    simp only [insertLease] at hinsert
    split at hinsert
    · cases hinsert
    split at hinsert
    · cases hinsert
    split at hinsert
    · rename_i _ _ u hrows
      cases hinsert
      obtain ⟨hrows, _⟩ := Table.insertAll_eq_some hrows
      have hmem : row ∈ t := (Table.mem_of_rows_append hrows).mpr (.inl hrow)
      exact absurd (congrArg (·.status) (Table.eq_of_key hrow' hmem hkey)) hstatus
    · cases hinsert
  | retried candidate' old new t hcreate' hold holdkey hretry hretried =>
    obtain rfl : candidate' = candidate := Except.ok.inj (hcreate'.symm.trans hcreate)
    have holdrow : row = old := by
      by_contra hne
      simp only [retryLease] at hretried
      split at hretried
      · cases hretried
      · cases hretried
        have hmem : row ∈ s.update (LeaseRow.Chosen old.toCloudRuntimeLease candidate')
            (retryValues candidate') :=
          Table.mem_update_of_not Table.rows_update hrow fun h =>
            hne (Table.eq_of_key hrow hold (h.1.trans holdkey.symm))
        exact hstatus (congrArg (·.status) (Table.eq_of_key hrow' hmem hkey))
    rw [holdrow]
    simp only [validateRetry] at hretry
    split at hretry
    · cases hretry
    rename_i hguard
    simp only [not_or, not_not, Nat.not_le] at hguard
    obtain ⟨_, hfence, hsame, hbinding⟩ := hguard
    refine ⟨?_, hsame.trans htenant, hbinding.trans hscope⟩
    rw [← congrArg RuntimeProgram.requestLeaseFence hprogram]
    exact hfence

end Calls

end Fairy.CloudRuntime
