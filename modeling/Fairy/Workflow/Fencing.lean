import Fairy.Workflow.Agreement

namespace Fairy.Workflow

open Fairy.Lib

/-- The attempt a claim was issued for, while it is not RUNNING any more. -/
def Closed (c : WorkflowAttemptClaim) (s : Store) : Prop :=
  ∃ a ∈ s.attempts, a.key = (c.nodeId, c.attemptNumber) ∧ a.status ≠ .running

/-- The attempt a claim was issued for, closed or with a lease that is over. -/
def Lost (c : WorkflowAttemptClaim) (P : Time → Prop) (s : Store) : Prop :=
  ∃ a ∈ s.attempts, a.key = (c.nodeId, c.attemptNumber) ∧ (a.status = .running → a.Ends P)

/-- The attempt a claim was issued for, in whatever status. -/
def Known (c : WorkflowAttemptClaim) (s : Store) : Prop :=
  ∃ a ∈ s.attempts, a.key = (c.nodeId, c.attemptNumber) ∧ a.runId = c.runId

section

variable {P : Time → Prop} {s s' : Store} {c : WorkflowAttemptClaim}

theorem Closed.lost (h : Closed c s) : Lost c P s := by
  obtain ⟨a, ha, hk, hst⟩ := h
  exact ⟨a, ha, hk, fun hr => absurd hr hst⟩

theorem Lost.closed (h : Lost c (fun _ => False) s) : Closed c s := by
  obtain ⟨a, ha, hk, hst⟩ := h
  exact ⟨a, ha, hk, fun hr => (hst hr).elim fun _ hu => hu.2⟩

theorem Lost.mono {Q : Time → Prop} (h : Lost c P s) (hpq : ∀ u, P u → Q u) : Lost c Q s := by
  obtain ⟨a, ha, hk, hst⟩ := h
  exact ⟨a, ha, hk, fun hr => (hst hr).imp fun u hu => ⟨hu.1, hpq u hu.2⟩⟩

theorem AttemptKept.key {a a' : WorkflowAttempt} (h : AttemptKept a a') : a'.key = a.key :=
  Prod.ext h.nodeId h.attemptNumber

theorem Move.known (h : Move P s s') (hc : Known c s) : Known c s' := by
  obtain ⟨a, ha, hk, hrun⟩ := hc
  cases h with
  | advance h =>
    have k := h.attemptKept a ha
    exact ⟨_, h.mem_attempts.mpr ⟨a, ha, rfl⟩, k.key.trans hk, k.runId.trans hrun⟩
  | take h => exact ⟨a, h.mem_attempts.mpr (.inl ha), hk, hrun⟩
  | plan h => exact ⟨a, h.mem_attempts.mpr ha, hk, hrun⟩

/-- An attempt never becomes RUNNING again. -/
theorem Move.closed (h : Move P s s') (hc : Closed c s) : Closed c s' := by
  obtain ⟨a, ha, hk, hst⟩ := hc
  cases h with
  | advance h =>
    exact ⟨_, h.mem_attempts.mpr ⟨a, ha, rfl⟩, (h.attemptKept a ha).key.trans hk,
      fun hr => hst (h.running ha hr)⟩
  | take h => exact ⟨a, h.mem_attempts.mpr (.inl ha), hk, hst⟩
  | plan h => exact ⟨a, h.mem_attempts.mpr ha, hk, hst⟩

/-- A lease that is over is not renewed. -/
theorem Move.lost (h : Move P s s') (hc : Lost c P s) : Lost c P s' := by
  obtain ⟨a, ha, hk, hst⟩ := hc
  cases h with
  | advance h =>
    exact ⟨_, h.mem_attempts.mpr ⟨a, ha, rfl⟩, (h.attemptKept a ha).key.trans hk,
      fun hr => h.renews a ha hr (hst (h.running ha hr))⟩
  | take h => exact ⟨a, h.mem_attempts.mpr (.inl ha), hk, hst⟩
  | plan h => exact ⟨a, h.mem_attempts.mpr ha, hk, hst⟩

theorem Moves.known (h : Moves P s s') (hc : Known c s) : Known c s' :=
  h.invariant (fun _ _ => Move.known) hc

theorem Moves.closed (h : Moves P s s') (hc : Closed c s) : Closed c s' :=
  h.invariant (fun _ _ => Move.closed) hc

theorem Moves.lost (h : Moves P s s') (hc : Lost c P s) : Lost c P s' :=
  h.invariant (fun _ _ => Move.lost) hc

theorem Closed.not_predicates (h : Closed c s) : ∀ a ∈ s.attempts, ¬ ClaimPredicates c a := by
  obtain ⟨b, hb, hk, hst⟩ := h
  intro a ha hp
  obtain rfl := Table.eq_of_key ha hb ((Prod.ext hp.1 hp.2.1).trans hk.symm)
  exact hst hp.running

theorem Lost.not_live {now : Time} (h : Lost c (· ≤ now) s) :
    ∀ a ∈ s.attempts, ¬ LiveClaimPredicates c now a := by
  obtain ⟨b, hb, hk, hst⟩ := h
  intro a ha hp
  obtain rfl := Table.eq_of_key ha hb ((Prod.ext hp.1.1 hp.1.2.1).trans hk.symm)
  obtain ⟨u, hu, hle⟩ := hst hp.1.running
  obtain ⟨v, hv, hlt⟩ := live_iff.mp hp.2
  rw [hu] at hv
  cases hv
  exact absurd hlt (Nat.not_lt.mpr hle)

/-- The error of every settlement under a lost claim. -/
abbrev fenceLost : WorkflowError :=
  .fenceError "Workflow attempt lease or cancellation fence was lost"

theorem Lost.requireClaim {now : Time} (h : Lost c (· ≤ now) s) :
    s.requireClaim c now = .error fenceLost := by
  cases hr : s.requireClaim c now with
  | ok n =>
    obtain ⟨a, r, hc⟩ := requireClaim_ok hr
    exact absurd ⟨hc.predicates, hc.live⟩ (h.not_live a hc.attempt)
  | error e =>
    unfold Store.requireClaim at hr
    split at hr
    · cases hr
      rfl
    · split at hr
      · cases hr
        rfl
      · cases hr

/-- A settlement under a lost claim raises; `defer` looks at the instant it is
given before it looks at the claim. -/
theorem Lost.settle_error {op : Op} {t : Readings} (h : Lost c (· ≤ t.first) s)
    (hop : op.Settles c) : op.exec t s = .error fenceLost ∨
      ∃ availableAt result, op = .defer c availableAt result ∧ availableAt ≤ t.first ∧
        op.exec t s =
          .error (.valueError "Deferred Workflow node must become available in the future") := by
  have hr := h.requireClaim
  cases op with
  | complete | retry | waitForApproval | waitForInput | fail =>
    cases hop
    exact .inl (map_error (bind_error hr))
  | defer d availableAt result =>
    cases hop
    by_cases hle : availableAt ≤ t.first
    · refine .inr ⟨availableAt, result, rfl, hle, map_error ?_⟩
      unfold Store.defer
      rw [if_pos hle]
      rfl
    · refine .inl (map_error ?_)
      unfold Store.defer
      rw [if_neg hle]
      exact bind_error hr
  | _ => exact hop.elim

/-- A renewal under a lost claim is refused, but it expires overdue runs. -/
theorem Lost.renew_false {t : Readings} {leaseUntil : Time} (hs : Leased P s)
    (h : Lost c (· ≤ t.first) s) : s.renew c leaseUntil t = if leaseUntil ≤ t.first then
        .error (.valueError "Workflow lease renewal must extend into the future")
      else .ok (false, s.expireOverdue t.first) := by
  have hlost : Lost c (· ≤ t.second) (s.expireOverdue t.first) :=
    ((expireOverdue_moves hs).lost h).mono fun u hu => hu.trans t.le_second
  have hnone := hlost.not_live
  have hsel : (s.expireOverdue t.first).attempts.select (LiveClaimPredicates c t.second) = [] :=
    List.filter_eq_nil_iff.mpr fun a ha => by simpa using hnone a ha
  have hsame : (s.expireOverdue t.first).renewLease c leaseUntil t.second =
      s.expireOverdue t.first :=
    congrArg (fun attempts => { s.expireOverdue t.first with attempts })
      (Table.update_eq_self hnone)
  unfold Store.renew
  split
  · rfl
  · dsimp only
    rw [hsel, hsame]
    rfl

theorem Closed.abandon_false {t : Readings} (h : Closed c s) : s.abandon c t = .ok (false, s) := by
  unfold Store.abandon
  rw [Table.oneOrNone_eq_none.mpr h.not_predicates]

/-- A node has one SUCCEEDED attempt at most. -/
theorem Leased.succeeded_unique (hs : Leased P s) {a b : WorkflowAttempt} (ha : a ∈ s.attempts)
    (hb : b ∈ s.attempts) (hid : a.nodeId = b.nodeId) (has : a.status = .succeeded)
    (hbs : b.status = .succeeded) : a = b := by
  obtain ⟨n, hn, hna, _⟩ := hs.placed a ha
  have hnum := (hs.settled a ha n hn hna has).2.trans
    (hs.settled b hb n hn (hna.trans hid) hbs).2.symm
  exact Table.eq_of_key ha hb (Prod.ext hid hnum)

/-- The attempt of that key SUCCEEDED. -/
def Achieved (key : Uuid × Nat) (s : Store) : Prop :=
  ∃ a ∈ s.attempts, a.key = key ∧ a.status = .succeeded

theorem Move.achieved {key : Uuid × Nat} (h : Move P s s') (ha : Achieved key s) :
    Achieved key s' := by
  obtain ⟨a, ha, hk, hst⟩ := ha
  cases h with
  | advance h =>
    refine ⟨_, h.mem_attempts.mpr ⟨a, ha, rfl⟩, (h.attemptKept a ha).key.trans hk, ?_⟩
    exact (h.closes a ha).elim (·.trans hst) fun hc => absurd (hc.1.symm.trans hst) nofun
  | take h => exact ⟨a, h.mem_attempts.mpr (.inl ha), hk, hst⟩
  | plan h => exact ⟨a, h.mem_attempts.mpr ha, hk, hst⟩

theorem Moves.achieved {key : Uuid × Nat} (h : Moves P s s') (ha : Achieved key s) :
    Achieved key s' :=
  h.invariant (fun _ _ => Move.achieved) ha

end

/-- The claims a call hands out. -/
def Config.issued (σ : Config) (call : Call) : List WorkflowAttemptClaim :=
  match call.op with
  | .claimReady workerId leaseUntil slots =>
    match σ.store.claimReady workerId leaseUntil slots call.readings with
    | .ok (claims, _) => claims
    | .error _ => []
  | _ => []

/-- The call does not raise. -/
def Answers (σ : Config) (call : Call) : Prop :=
  ∃ reply s', call.op.exec call.readings σ.store = .ok (reply, s')

/-- The claim was handed out on the way to the state. -/
def Issued (c : WorkflowAttemptClaim) (σ : Config) : Prop :=
  ∃ σ₁ call σ₂, Reachable AnyCall σ₁ ∧ c ∈ σ₁.issued call ∧ Step σ₁ call σ₂ ∧ Runs AnyCall σ₂ σ

/-- Another claim on its node was handed out after the claim. -/
def Superseded (c : WorkflowAttemptClaim) (σ : Config) : Prop :=
  ∃ σ₁ call σ₂, Issued c σ₁ ∧ (∃ d ∈ σ₁.issued call, d.nodeId = c.nodeId) ∧ Step σ₁ call σ₂ ∧
    Runs AnyCall σ₂ σ

/-- The call cancels the run. -/
def Cancels (runId : Uuid) (σ : Config) (call : Call) : Prop :=
  call.op = .cancel runId ∧ Answers σ call ∧
    ∃ r ∈ σ.store.runs, r.id = runId ∧ r.status.terminal = false

/-- The call finds the run past its deadline. -/
def Expires (runId : Uuid) (σ : Config) (call : Call) : Prop :=
  ((∃ workerId leaseUntil slots, call.op = .claimReady workerId leaseUntil slots) ∨
    ∃ c leaseUntil, call.op = .renew c leaseUntil) ∧ Answers σ call ∧
    ∃ r ∈ σ.store.runs, r.id = runId ∧ r.status.terminal = false ∧ r.overdue call.readings.first

/-- The call fails the run by `fail`. -/
def Fails (runId : Uuid) (σ : Config) (call : Call) : Prop :=
  Answers σ call ∧ ∃ d : WorkflowAttemptClaim, d.runId = runId ∧
    ((∃ errorCode, call.op = .fail d errorCode) ∨
      Exhausted σ.store d ∧ ((∃ availableAt errorCode, call.op = .retry d availableAt errorCode) ∨
        ∃ availableAt result, call.op = .defer d availableAt result))

/-- A call that ends the claim's run came after the claim. -/
def EndedBy (ends : Uuid → Config → Call → Prop) (c : WorkflowAttemptClaim) (σ : Config) : Prop :=
  ∃ σ₁ call σ₂, Issued c σ₁ ∧ ends c.runId σ₁ call ∧ Step σ₁ call σ₂ ∧ Runs AnyCall σ₂ σ

section

variable {c d : WorkflowAttemptClaim} {σ τ : Config} {call : Call}

theorem mem_issued (h : c ∈ σ.issued call) : ∃ workerId leaseUntil slots claims s',
    call.op = .claimReady workerId leaseUntil slots ∧
      σ.store.claimReady workerId leaseUntil slots call.readings = .ok (claims, s') ∧
      c ∈ claims := by
  unfold Config.issued at h
  split at h
  · rename_i hop
    split at h
    · rename_i hok
      exact ⟨_, _, _, _, _, hop, hok, h⟩
    · cases h
  · cases h

/-- A claim handed out answers to a RUNNING attempt, with a number above those
of all earlier attempts of its node. -/
theorem issued_spec (hs : Sound σ) (hstep : Step σ call τ) (h : c ∈ σ.issued call) :
    (∃ a ∈ τ.store.attempts, ClaimPredicates c a) ∧
      ∀ b ∈ σ.store.attempts, b.nodeId = c.nodeId → b.attemptNumber < c.attemptNumber := by
  obtain ⟨workerId, leaseUntil, slots, claims, s', hop, hok, hc⟩ := mem_issued h
  obtain ⟨hle, rfl⟩ := hstep
  obtain ⟨hlease, u, hu, hv⟩ := claimReady_ok hok
  have hm : Moves (· ≤ σ.clock) σ.store u := sweep_moves hs.leased hu
  have hlu := hm.leased hs.leased
  obtain ⟨row, hrow, rfl, hn, ha⟩ :=
    claims_issued hlu (fun _ hv => hv.trans hle) (reclaimExpired_swept hu) hlease hv hc
  have hafter : (σ.after call).store = s' := by
    unfold Config.after Op.after Op.exec
    rw [hop]
    dsimp only
    rw [hok]
    rfl
  refine ⟨⟨_, hafter ▸ ha, rfl, rfl, rfl, rfl, rfl, rfl, rfl, rfl⟩, fun b hb hid => ?_⟩
  obtain ⟨hnode, _⟩ := Store.mem_readyRows.mp (Store.mem_readyRows_of_selected hrow)
  have hknown : Known { row.claim workerId leaseUntil with
      attemptNumber := b.attemptNumber, runId := b.runId } σ.store :=
    ⟨b, hb, Prod.ext hid rfl, rfl⟩
  obtain ⟨b', hb', hk, _⟩ := hm.known hknown
  have hnum := (hlu.node_of hb' hnode (congrArg Prod.fst hk).symm).2.2.1
  have hsame : b'.attemptNumber = b.attemptNumber := congrArg Prod.snd hk
  exact Nat.lt_succ_of_le (hsame ▸ hnum)

theorem Runs.known (hs : Sound σ) (h : Runs AnyCall σ τ) (hc : Known c σ.store) :
    Known c τ.store :=
  (h.invariant (I := fun σ => Sound σ ∧ Known c σ.store)
    (fun _ _ _ hi _ hstep => ⟨hstep.sound hi.1, (hstep.moves hi.1).known hi.2⟩) ⟨hs, hc⟩).2

theorem Runs.closed (hs : Sound σ) (h : Runs AnyCall σ τ) (hc : Closed c σ.store) :
    Closed c τ.store :=
  (h.invariant (I := fun σ => Sound σ ∧ Closed c σ.store)
    (fun _ _ _ hi _ hstep => ⟨hstep.sound hi.1, (hstep.moves hi.1).closed hi.2⟩) ⟨hs, hc⟩).2

theorem Runs.lost (hs : Sound σ) (h : Runs AnyCall σ τ) (hc : Lost c (· ≤ σ.clock) σ.store) :
    Lost c (· ≤ τ.clock) τ.store := by
  refine (h.invariant (I := fun σ => Sound σ ∧ Lost c (· ≤ σ.clock) σ.store)
    (fun σ call τ hi _ hstep => ⟨hstep.sound hi.1, ?_⟩) ⟨hs, hc⟩).2
  obtain ⟨hf, hl⟩ := Op.horizon_le call.op call.readings
  have hclock : call.readings.third = τ.clock := by rw [hstep.2]; rfl
  exact ((hstep.moves hi.1).lost (hi.2.mono fun u hu => (hu.trans hstep.1).trans hf)).mono
    fun u hu => hclock ▸ hu.trans hl

theorem Issued.reachable (h : Issued c σ) : Reachable AnyCall σ := by
  obtain ⟨σ₁, call, σ₂, hr, _, hstep, hruns⟩ := h
  exact (hr.runs (.single trivial hstep)).runs hruns

theorem Issued.known (h : Issued c σ) : Known c σ.store := by
  obtain ⟨σ₁, call, σ₂, hr, hc, hstep, hruns⟩ := h
  obtain ⟨⟨a, ha, hp⟩, _⟩ := issued_spec hr.sound hstep hc
  exact Runs.known (hstep.sound hr.sound) hruns ⟨a, ha, Prod.ext hp.1 hp.2.1, hp.2.2.1⟩

/-- A superseded claim's attempt is closed: had it stayed RUNNING, it would be
the attempt of the newer claim. -/
theorem Superseded.closed (h : Superseded c σ) : Closed c σ.store := by
  obtain ⟨σ₁, call, σ₂, hi, ⟨d, hd, hid⟩, hstep, hruns⟩ := h
  have hs := hi.reachable.sound
  have hs₂ := hstep.sound hs
  obtain ⟨⟨a, ha, hp⟩, hlt⟩ := issued_spec hs hstep hd
  obtain ⟨b, hb, hk, hrun⟩ := hi.known
  have hsame : b.attemptNumber = c.attemptNumber := congrArg Prod.snd hk
  have hnum : c.attemptNumber < d.attemptNumber :=
    hsame ▸ hlt b hb ((congrArg Prod.fst hk).trans hid.symm)
  obtain ⟨b', hb', hk', _⟩ := (hstep.moves hs).known ⟨b, hb, hk, hrun⟩
  refine Runs.closed hs₂ hruns ⟨b', hb', hk', fun hr => ?_⟩
  obtain rfl := hs₂.leased.unique hb' ha
    ((congrArg Prod.fst hk').trans (hid.symm.trans hp.1.symm)) hr hp.running
  exact absurd ((congrArg Prod.snd hk').symm.trans hp.2.1) (Nat.ne_of_lt hnum)

theorem Step.store_eq (hstep : Step σ call τ) {reply : Reply} {s' : Store}
    (h : call.op.exec call.readings σ.store = .ok (reply, s')) : τ.store = s' := by
  obtain ⟨_, rfl⟩ := hstep
  unfold Config.after Op.after
  rw [h]

theorem Cancels.closed (hk : Known c σ.store) (h : Cancels c.runId σ call) (hstep : Step σ call τ) :
    Closed c τ.store := by
  obtain ⟨hop, ⟨reply, s', hok⟩, r, hr, hid, hst⟩ := h
  rw [hstep.store_eq hok]
  rw [hop] at hok
  obtain ⟨_, hok⟩ := reply_ok hok
  obtain ⟨r', hr', hid', ⟨hst', _⟩ | ⟨_, rfl⟩⟩ := cancel_ok hok
  · obtain rfl := Table.eq_of_key hr hr' (hid.trans hid'.symm)
    rw [hst] at hst'
    cases hst'
  · obtain ⟨b, hb, hkey, hrun⟩ := hk
    by_cases hbr : b.status = .running
    · exact ⟨_, Table.mem_update_of rfl hb ⟨hrun, hbr, nofun⟩, hkey, nofun⟩
    · exact ⟨b, Table.mem_update_of_not rfl hb fun hx => hbr hx.2.1, hkey, hbr⟩

/-- The deadline of a run closes the attempts of the claims on it. -/
theorem expireOverdue_closed {s : Store} {now : Time} {r : WorkflowRun} (hr : r ∈ s.runs)
    (hid : r.id = c.runId) (hst : r.status.terminal = false) (ho : r.overdue now)
    (hk : Known c s) : Closed c (s.expireOverdue now) := by
  let I := fun (u : Store) => Known c u ∧ (r ∈ u.runs ∨ Closed c u)
  suffices hI : I (s.expireOverdue now) ∧ ∀ x ∈ (s.expireOverdue now).runs,
      x.status.terminal = false → ¬ x.overdue now from
    hI.1.2.resolve_left fun hx => hI.2 r hx hst ho
  refine expireOverdue_rule (I := I) ?_ ⟨hk, .inl hr⟩
  rintro u x hx _ _ ⟨⟨b, hb, hkey, hrun⟩, hI⟩
  by_cases hxr : x.id = c.runId
  · by_cases hbr : b.status = .running
    · have hb' := Table.mem_update_of (u := (u.closeOverdue x now).attempts) rfl hb
        ⟨hrun.trans hxr.symm, hbr⟩
      exact ⟨⟨_, hb', hkey, hrun⟩, .inr ⟨_, hb', hkey, nofun⟩⟩
    · have hb' := Table.mem_update_of_not (u := (u.closeOverdue x now).attempts) rfl hb
        fun hp => hbr hp.2
      exact ⟨⟨_, hb', hkey, hrun⟩, .inr ⟨_, hb', hkey, hbr⟩⟩
  · have hb' := Table.mem_update_of_not (u := (u.closeOverdue x now).attempts) rfl hb
      fun hp => hxr (hp.1.symm.trans hrun)
    refine ⟨⟨b, hb', hkey, hrun⟩, hI.imp (fun hru => ?_) fun ⟨a, ha, hak, hast⟩ => ?_⟩
    · exact Table.mem_update_of_not rfl hru fun hp => hxr (hp.1.symm.trans hid)
    · exact ⟨a, Table.mem_update_of_not rfl ha fun hp => hast hp.2, hak, hast⟩

theorem Expires.closed (hs : Sound σ) (hk : Known c σ.store) (h : Expires c.runId σ call)
    (hstep : Step σ call τ) : Closed c τ.store := by
  obtain ⟨hop, ⟨reply, s', hok⟩, r, hr, hid, hst, ho⟩ := h
  have hclosed := expireOverdue_closed hr hid hst ho hk
  have hlu : Leased (· ≤ σ.clock) (σ.store.expireOverdue call.readings.first) :=
    (expireOverdue_moves hs.leased).leased hs.leased
  rw [hstep.store_eq hok]
  rcases hop with ⟨workerId, leaseUntil, slots, hop⟩ | ⟨d, leaseUntil, hop⟩
  · rw [hop] at hok
    obtain ⟨_, hok⟩ := reply_ok hok
    obtain ⟨hlease, u, hu, hv⟩ := claimReady_ok hok
    have hm : Moves (· ≤ σ.clock) _ u := reclaimExpired_moves hlu hu
    refine (claims_rule (I := fun v _ => Closed c v) (hm.leased hlu) (fun _ hv => hv.trans hstep.1)
      (reclaimExpired_swept hu) hlease ?_ hv (hm.closed hclosed)).1
    exact fun _ _ _ _ _ _ htake _ hv => Move.closed (P := (· ≤ σ.clock)) (.take htake) hv
  · rw [hop] at hok
    obtain ⟨_, hok⟩ := reply_ok hok
    obtain ⟨_, rfl, _⟩ := renew_ok hok
    exact (renewLease_moves fun _ hu => hu).closed hclosed

/-- `fail` closes the attempts of the run, its own only if the update still
finds its lease. -/
theorem Claimed.failClaim_ends {P Q : Time → Prop} {s : Store} {guard now live : Time}
    {a b : WorkflowAttempt} {n : WorkflowNode} {r : WorkflowRun} {errorCode : String}
    (hs : Leased P s) (hd : Claimed s d guard a n r)
    (hq : ∀ u, a.leaseUntil = some u → guard < u → u ≤ live → Q u)
    (hb : b ∈ (s.failClaim d errorCode now live).attempts) (hrun : b.runId = d.runId)
    (hr : b.status = .running) : b.Ends Q := by
  obtain ⟨x, hx, rfl⟩ := (Table.mem_of_rows_map List.map_map).mp hb
  by_cases hlive : LiveClaimPredicates d live x
  · simp only [Function.comp_apply, if_pos hlive] at hr
    rw [if_neg fun h => absurd h.2.1 nofun] at hr
    cases hr
  · simp only [Function.comp_apply, if_neg hlive] at hr hrun ⊢
    split at hr
    · cases hr
    rename_i hx'
    rw [if_neg hx'] at hrun ⊢
    have hnode : x.nodeId = a.nodeId := by
      by_contra hne
      exact hx' ⟨hrun, hr, fun he => hne ((Option.some.inj he).trans hd.predicates.1.symm)⟩
    obtain rfl := hs.unique hx hd.attempt hnode hr hd.predicates.running
    obtain ⟨u, hu, hlt⟩ := live_iff.mp hd.live
    refine ⟨u, hu, hq u hu hlt (Nat.le_of_not_lt fun hl => hlive ⟨hd.predicates, ?_⟩)⟩
    exact live_iff.mpr ⟨u, hu, hl⟩

theorem Claimed.failClaim_lost {P Q : Time → Prop} {s : Store} {guard now live : Time}
    {a : WorkflowAttempt} {n : WorkflowNode} {r : WorkflowRun} {errorCode : String}
    (hs : Leased P s) (hd : Claimed s d guard a n r) (hk : Known c s) (hid : d.runId = c.runId)
    (hq : ∀ u, a.leaseUntil = some u → guard < u → u ≤ live → Q u) :
    Lost c Q (s.failClaim d errorCode now live) := by
  have hm : Moves Q s (s.failClaim d errorCode now live) := hd.failClaim_moves hs hq
  obtain ⟨b, hb, hkey, hrun⟩ := hm.known hk
  exact ⟨b, hb, hkey, hd.failClaim_ends hs hq hb (hrun.trans hid.symm)⟩

theorem Fails.lost {Q : Time → Prop} (hs : Sound σ) (hk : Known c σ.store)
    (h : Fails c.runId σ call) (hq : call.op.Within Q call.readings σ.store)
    (hstep : Step σ call τ) : Lost c Q τ.store := by
  obtain ⟨⟨reply, s', hok⟩, d, hid, hop⟩ := h
  rw [hstep.store_eq hok]
  rcases hop with ⟨errorCode, hop⟩ |
    ⟨hx, ⟨availableAt, errorCode, hop⟩ | ⟨availableAt, result, hop⟩⟩
  · rw [hop] at hok hq
    obtain ⟨_, hok⟩ := reply_ok hok
    obtain ⟨⟨a, n, r, hd⟩, rfl⟩ := fail_ok hok
    exact hd.failClaim_lost hs.leased hk hid (hq a hd.attempt hd.predicates)
  · rw [hop] at hok hq
    obtain ⟨_, hok⟩ := reply_ok hok
    rcases retry_ok hok with ⟨a, n, r, _, hd, hn, _⟩ | ⟨a, n, r, hd, _, rfl⟩
    · exact absurd hx (hd.not_exhausted hn)
    · exact hd.failClaim_lost hs.leased hk hid (hq.2 hx a hd.attempt hd.predicates)
  · rw [hop] at hok hq
    obtain ⟨_, hok⟩ := reply_ok hok
    rcases defer_ok hok with ⟨a, n, r, hd, hn, _⟩ | ⟨a, n, r, hd, _, rfl⟩
    · exact absurd hx (hd.not_exhausted hn)
    · exact hd.failClaim_lost hs.leased hk hid (hq.2 hx a hd.attempt hd.predicates)

end

/-- A run ended by a `fail` that still found the lease of its own claim. -/
def FailsSteadily (runId : Uuid) (σ : Config) (call : Call) : Prop :=
  Fails runId σ call ∧ Steady σ call

/-- The claim's attempt is closed for good. -/
def Closing (c : WorkflowAttemptClaim) (σ : Config) : Prop :=
  Superseded c σ ∨ EndedBy Cancels c σ ∨ EndedBy Expires c σ ∨ EndedBy FailsSteadily c σ

/-- A newer claim on the node was handed out, or the run was ended, after the
claim was. -/
def Stale (c : WorkflowAttemptClaim) (σ : Config) : Prop :=
  Superseded c σ ∨ EndedBy Cancels c σ ∨ EndedBy Expires c σ ∨ EndedBy Fails c σ

section

variable {c : WorkflowAttemptClaim} {σ τ : Config}

theorem EndedBy.reachable {ends : Uuid → Config → Call → Prop} (h : EndedBy ends c σ) :
    Reachable AnyCall σ := by
  obtain ⟨σ₁, call, σ₂, hi, _, hstep, hruns⟩ := h
  exact (hi.reachable.runs (.single trivial hstep)).runs hruns

theorem Superseded.reachable (h : Superseded c σ) : Reachable AnyCall σ := by
  obtain ⟨σ₁, call, σ₂, hi, _, hstep, hruns⟩ := h
  exact (hi.reachable.runs (.single trivial hstep)).runs hruns

theorem Stale.reachable (h : Stale c σ) : Reachable AnyCall σ := by
  rcases h with h | h | h | h
  · exact h.reachable
  all_goals exact h.reachable

/-- What a call that ends a run does to the claims on it, it has done ever since. -/
theorem EndedBy.closed {ends : Uuid → Config → Call → Prop}
    (hk : ∀ σ call τ, Sound σ → Known c σ.store → ends c.runId σ call → Step σ call τ →
      Closed c τ.store) (h : EndedBy ends c σ) : Closed c σ.store := by
  obtain ⟨σ₁, call, σ₂, hi, he, hstep, hruns⟩ := h
  have hs := hi.reachable.sound
  exact Runs.closed (hstep.sound hs) hruns (hk _ _ _ hs hi.known he hstep)

theorem Closing.closed (h : Closing c σ) : Closed c σ.store := by
  rcases h with h | h | h | h
  · exact h.closed
  · exact h.closed fun _ _ _ _ hk he hstep => he.closed hk hstep
  · exact h.closed fun _ _ _ hs hk he hstep => he.closed hs hk hstep
  · exact h.closed fun _ _ _ hs hk he hstep => (he.1.lost hs hk he.2 hstep).closed

theorem Stale.lost (h : Stale c σ) : Lost c (· ≤ σ.clock) σ.store := by
  rcases h with h | h | h | h
  · exact (Closing.closed (.inl h)).lost
  · exact (Closing.closed (.inr (.inl h))).lost
  · exact (Closing.closed (.inr (.inr (.inl h)))).lost
  · obtain ⟨σ₁, call, σ₂, hi, he, hstep, hruns⟩ := h
    have hs := hi.reachable.sound
    refine Runs.lost (hstep.sound hs) hruns ?_
    have hclock : call.readings.third = σ₂.clock := by rw [hstep.2]; rfl
    refine (he.lost hs hi.known (Op.within_horizon _ _ _) hstep).mono fun u hu => ?_
    exact hclock ▸ hu.trans (Op.horizon_le _ _).2

theorem Runs.achieved {key : Uuid × Nat} (hs : Sound σ) (h : Runs AnyCall σ τ)
    (ha : Achieved key σ.store) : Achieved key τ.store :=
  (h.invariant (I := fun σ => Sound σ ∧ Achieved key σ.store)
    (fun _ _ _ hi _ hstep => ⟨hstep.sound hi.1, (hstep.moves hi.1).achieved hi.2⟩) ⟨hs, ha⟩).2

end

/-- Under a stale claim every settlement raises and changes nothing, a renewal
does no more than to expire overdue runs, and `abandon` changes nothing, if the
claim was not left open by a `fail` that missed its own lease. No node has two
attempts that ever SUCCEED. -/
theorem stale_workers_fenced :
    (∀ (σ : Config) (c : WorkflowAttemptClaim) (t : Readings), Stale c σ → σ.clock ≤ t.first →
      (∀ op : Op, op.Settles c → op.after t σ.store = σ.store ∧
        (op.exec t σ.store = .error fenceLost ∨
          ∃ availableAt result, op = .defer c availableAt result ∧ availableAt ≤ t.first ∧
            op.exec t σ.store =
              .error (.valueError "Deferred Workflow node must become available in the future"))) ∧
      (∀ leaseUntil, σ.store.renew c leaseUntil t = if leaseUntil ≤ t.first then
          .error (.valueError "Workflow lease renewal must extend into the future")
        else .ok (false, σ.store.expireOverdue t.first)) ∧
      (Closing c σ → σ.store.abandon c t = .ok (false, σ.store))) ∧
    ∀ σ τ, Reachable AnyCall σ → Runs AnyCall σ τ → ∀ a ∈ σ.store.attempts,
      ∀ b ∈ τ.store.attempts, a.nodeId = b.nodeId → a.status = .succeeded →
        b.status = .succeeded → a.attemptNumber = b.attemptNumber := by
  refine ⟨fun σ c t hst hle => ⟨fun op hop => ?_, fun leaseUntil => ?_, fun h => ?_⟩, ?_⟩
  · have hlost := hst.lost.mono fun u hu => hu.trans hle
    have he := hlost.settle_error hop
    refine ⟨?_, he⟩
    unfold Op.after
    rcases he with he | ⟨_, _, _, _, he⟩ <;> rw [he]
  · exact (hst.lost.mono fun u hu => hu.trans hle).renew_false hst.reachable.sound.leased
  · exact h.closed.abandon_false
  · intro σ τ hr hruns a ha b hb hid has hbs
    obtain ⟨a', ha', hk, hst⟩ := Runs.achieved hr.sound hruns ⟨a, ha, rfl, has⟩
    have hnode : a'.nodeId = b.nodeId := (congrArg Prod.fst hk).trans hid
    obtain rfl := (hr.runs hruns).sound.leased.succeeded_unique ha' hb hnode hst hbs
    exact (congrArg Prod.snd hk).symm

/-- A node handed out twice, the second time after the first lease was lost. -/
def reissuedCalls : List Call :=
  [(Op.create sampleRun [sampleNode 1 .serial 2] []).at 0,
    (Op.claimReady "worker" 10 (sampleSlots 1)).at 1,
    (Op.claimReady "worker" 20 (sampleSlots 1)).at 11]

theorem reissued_superseded : Superseded (sampleClaim 1 1 10) (played reissuedCalls) := by
  let calls := reissuedCalls
  let σ₀ := played (calls.take 1)
  let σ₁ := played (calls.take 2)
  have hi : Issued (sampleClaim 1 1 10) σ₁ :=
    ⟨σ₀, (Op.claimReady "worker" 10 (sampleSlots 1)).at 1, σ₁, reachable_played (by decide),
      by decide, ⟨by decide, rfl⟩, .refl⟩
  exact ⟨σ₁, (Op.claimReady "worker" 20 (sampleSlots 1)).at 11, played calls, hi,
    ⟨sampleClaim 1 2 20, by decide, rfl⟩, ⟨by decide, rfl⟩, .refl⟩

theorem stale_workers_fenced_reissued :
    (played reissuedCalls).store.abandon (sampleClaim 1 1 10) (.instant 12) =
      .ok (false, (played reissuedCalls).store) :=
  (stale_workers_fenced.1 (played reissuedCalls) (sampleClaim 1 1 10) (.instant 12)
    (.inl reissued_superseded) (by decide)).2.2 (.inl reissued_superseded)

/-- A renewal under the superseded claim fails the run, which is past its
deadline by then. -/
theorem stale_renewal_expires : Superseded (sampleClaim 1 1 10) (played reissuedCalls) ∧
    (played reissuedCalls).clock ≤ seconds 1800 ∧ ∃ s' : Store,
      (played reissuedCalls).store.renew (sampleClaim 1 1 10) (seconds 1801)
        (.instant (seconds 1800)) = .ok (false, s') ∧ s' ≠ (played reissuedCalls).store := by
  refine ⟨reissued_superseded, by decide, (played reissuedCalls).store.expireOverdue (seconds 1800),
    ?_, fun h => ?_⟩
  · have hlost := (Closing.closed (.inl reissued_superseded)).lost
      (P := (· ≤ (Readings.instant (seconds 1800)).first))
    exact hlost.renew_false reissued_superseded.reachable.sound.leased
  · have hrow := congrArg (fun s => s.runs.rows.map WorkflowRun.status) h
    exact absurd hrow (by decide)

end Fairy.Workflow
