import Fairy.Commanding.Coupling

namespace Fairy.Commanding

open Fairy.Lib

/-- On the way from one state to a later one, `transition` has queued the run. -/
def Requeued (σ τ : Config) (runId : Uuid) : Prop :=
  ∃ μ t leaseOwner leaseFence x, Runs σ μ ∧
    (Call.transition runId .queued leaseOwner leaseFence).exec t μ.ledger = .ok x ∧
    Runs (μ.after (.transition runId .queued leaseOwner leaseFence) t) τ

/-- What is promised of a state of the ledger, of the next step and of what follows. -/
structure Lifecycle (σ : Config) : Prop where
  /-- A change of status is an edge of the graph, and not the one into `running` that
  leaves out the queue. -/
  edges : ∀ call t, ∀ r ∈ σ.ledger.runs, ∀ r' ∈ (σ.after call t).ledger.runs, r'.id = r.id →
    r'.status ≠ r.status → r'.status ∈ r.status.transitions ∧
      ¬ (r.status = .waitingApproval ∧ r'.status = .running)
  requeued : ∀ τ, Runs σ τ → ∀ r ∈ σ.ledger.runs, r.status = .waitingApproval →
    ∀ r' ∈ τ.ledger.runs, r'.id = r.id → r'.status = .running → Requeued σ τ r.id
  leased : ∀ r ∈ σ.ledger.runs,
    r.status = .running ↔ r.leaseOwner.isSome ∧ r.leaseUntil.isSome
  fence : ∀ r ∈ σ.ledger.runs, r.leaseFence = (claimsOf σ.claims r.id).length
  fence_mono : ∀ τ, Runs σ τ → ∀ r ∈ σ.ledger.runs, ∀ r' ∈ τ.ledger.runs, r'.id = r.id →
    r.leaseFence ≤ r'.leaseFence
  /-- Of a running run, a call that names a lease succeeds only for the owner and the
  fence of the latest claim, before that lease is over. -/
  held : ∀ (call : Call) (t : Supply) (x : Reply × Ledger) leaseOwner leaseFence,
    ∀ r ∈ σ.ledger.runs, r.status = .running →
    call.lease? = some (r.id, leaseOwner, leaseFence) → call.exec t σ.ledger = .ok x →
    ∃ c u, (claimsOf σ.claims r.id).getLast? = some c ∧ leaseOwner = c.leaseOwner ∧
      leaseFence = some (c.leaseFence : Int) ∧ r.leaseUntil = some u ∧ t.now < u
  finished : σ.finished.Nodup
  terminal : ∀ τ, Runs σ τ → ∀ r ∈ σ.ledger.runs, r.status.transitions = [] →
    r ∈ τ.ledger.runs

section Runs

variable {σ τ : Config}

theorem Coupled.runs (h : Coupled σ) (hr : Runs σ τ) : Coupled τ :=
  hr.invariant (fun _ _ _ hc _ hs => hc.step hs) h

theorem step_effect {x : Call × Supply} (h : Step σ x τ) : Effect σ x.1 τ := by
  subst h
  exact effect_after σ x.1 x.2

theorem run_mem_of_runs (h : Runs σ τ) {r : CommandRun} (hr : r ∈ σ.ledger.runs) :
    ∃ r' ∈ τ.ledger.runs, r'.id = r.id := by
  induction h with
  | refl => exact ⟨r, hr, rfl⟩
  | next _ _ hs ih =>
    obtain ⟨m, hm, he⟩ := ih
    obtain ⟨r', hr', he'⟩ := (step_effect hs).run_mem hm
    exact ⟨r', hr', he'.trans he⟩

theorem fence_mono_of_runs (h : Runs σ τ) {r r' : CommandRun} (hr : r ∈ σ.ledger.runs)
    (hr' : r' ∈ τ.ledger.runs) (hid : r'.id = r.id) : r.leaseFence ≤ r'.leaseFence := by
  induction h generalizing r' with
  | refl => exact (Table.eq_of_key hr' hr hid).symm ▸ le_rfl
  | next hp _ hs ih =>
    obtain ⟨m, hm, he⟩ := run_mem_of_runs hp hr
    have hle := ih hm he
    obtain rfl | ⟨_, hf, _⟩ := (step_effect hs).row_cases hm hr' (hid.trans he.symm)
    · exact hle
    · exact hle.trans hf

theorem terminal_of_runs (h : Runs σ τ) {r : CommandRun} (hr : r ∈ σ.ledger.runs)
    (ht : r.status.transitions = []) : r ∈ τ.ledger.runs := by
  induction h with
  | refl => exact hr
  | next _ _ hs ih =>
    obtain ⟨r', hr', he⟩ := (step_effect hs).run_mem ih
    obtain rfl | ⟨hn, _⟩ := (step_effect hs).row_cases ih hr' he
    · exact hr'
    · exact absurd ht hn

/-- The statuses that a run awaiting approval takes while nobody queues it. -/
def Held (status : CommandStatus) : Prop :=
  status = .waitingApproval ∨ status = .rejected ∨ status = .cancelled

theorem Held.next {status status' : CommandStatus} (h : Held status)
    (hedge : status' ∈ status.transitions) (hr : status' ≠ .running) :
    status' = .queued ∨ Held status' := by
  unfold Held at *
  obtain rfl | rfl | rfl := h <;> revert hedge hr <;> cases status' <;> decide

theorem requeued_of_runs (h : Runs σ τ) {r r' : CommandRun} (hr : r ∈ σ.ledger.runs)
    (hw : r.status = .waitingApproval) (hr' : r' ∈ τ.ledger.runs) (hid : r'.id = r.id) :
    Requeued σ τ r.id ∨ Held r'.status := by
  induction h generalizing r' with
  | refl =>
    rw [Table.eq_of_key hr' hr hid]
    exact .inr (.inl hw)
  | @next ν υ x hp _ hs ih =>
    obtain ⟨m, hm, he⟩ := run_mem_of_runs hp hr
    obtain ⟨μ, t, o, f, y, hμ, hok, hν⟩ | hheld := ih hm he
    · exact .inl ⟨μ, t, o, f, y, hμ, hok, hν.next trivial hs⟩
    have hstep : r' = m ∨ _ := (step_effect hs).row_cases hm hr' (hid.trans he.symm)
    obtain rfl | ⟨_, _, hsame | ⟨hq, _⟩ | ⟨hedge, hend⟩ | ⟨hedge, hne, o, f, hcall⟩⟩ := hstep
    · exact .inr hheld
    · rw [hsame]
      exact .inr hheld
    · rw [hq] at hheld
      exact absurd hheld (by unfold Held; decide)
    · obtain hq | hh := hheld.next hedge (by obtain h | h := hend <;> rw [h] <;> decide)
      · obtain h | h := hend <;> cases hq.symm.trans h
      · exact .inr hh
    · obtain hq | hh := hheld.next hedge hne
      · obtain ⟨call, t⟩ := x
        simp only at hcall
        subst hs
        rw [hq, he] at hcall
        subst hcall
        cases hexec : (Call.transition r.id .queued o f).exec t ν.ledger with
        | ok y => exact .inl ⟨ν, t, o, f, y, hp, hexec, .refl⟩
        | error error =>
          have hsame : ν.after (Call.transition r.id .queued o f) t = ν := by
            simp only [Config.after, hexec]
          rw [hsame] at hr'
          rw [Table.eq_of_key hr' hm (hid.trans he.symm)]
          exact .inr hheld
      · exact .inr hh

end Runs

theorem command_lifecycle {σ : Config} (h : Reachable σ) : Lifecycle σ where
  edges call t r hr r' hr' hid hne := by
    have hc := (effect_after σ call t).row_cases hr hr' hid
    obtain rfl | ⟨_, _, hsame | ⟨hq, hs⟩ | ⟨hedge, hend⟩ | ⟨hedge, hs, _⟩⟩ := hc
    · exact absurd rfl hne
    · exact absurd hsame hne
    · rw [hq, hs]
      decide
    · refine ⟨hedge, fun hw => ?_⟩
      obtain h | h := hend <;> cases h.symm.trans hw.2
    · exact ⟨hedge, fun hw => hs hw.2⟩
  requeued τ hτ r hr hw r' hr' hid hs := by
    obtain hq | hheld := requeued_of_runs hτ hr hw hr' hid
    · exact hq
    · rw [hs] at hheld
      exact absurd hheld (by unfold Held; decide)
  leased r hr := by
    have hrow := h.coupled.rows r hr
    refine ⟨hrow.leased, fun hl => ?_⟩
    by_contra hn
    rw [(hrow.free hn).1] at hl
    exact Bool.false_ne_true hl.1
  fence r hr := (h.coupled.rows r hr).fence
  fence_mono τ hτ r hr r' hr' hid := fence_mono_of_runs hτ hr hr' hid
  held call t x leaseOwner leaseFence r hr hs hl hx := by
    have hrow := h.coupled.rows r hr
    obtain ⟨ho, hu⟩ := hrow.leased hs
    obtain ⟨howner, hfence, hlive⟩ := exec_held hx hl hr hs (by
      intro hn
      rw [hn] at ho
      exact Bool.false_ne_true ho)
    obtain ⟨u, hu⟩ := Option.isSome_iff_exists.mp hu
    refine ⟨_, u, hrow.latest hs, howner, hfence, hu, ?_⟩
    simpa [hu] using hlive
  finished := h.coupled.once
  terminal τ hτ r hr ht := terminal_of_runs hτ hr ht

section Witness

def firstRequest : CommandRequest where
  commandName := "research"
  actor := "local-user"
  scope := .null
  scopeDigest := ""
  projectId := none
  conversationId := 1
  taskId := 2
  targetVersionId := none
  input := .null
  riskLevel := "low"
  idempotencyKey := "first"

def supplyAt (now : Time) : Supply := ⟨now, ⟨now, now, now⟩, ⟨now + 1, now + 1, now + 1⟩⟩

/-- A run that is created, queued and claimed. -/
def claimedOnce : Config :=
  (((Config.mk .empty [] []).after (.createRun firstRequest "" 7) (supplyAt 10)).after
    (.transition 7 .queued none none) (supplyAt 20)).after (.claimNext "worker" [] 60) (supplyAt 30)

theorem reachable_claimedOnce : Reachable claimedOnce :=
  ((Run.refl.next trivial (i := (.createRun firstRequest "" 7, supplyAt 10)) rfl).next trivial
    (i := (.transition 7 .queued none none, supplyAt 20)) rfl).next trivial
    (i := (.claimNext "worker" [] 60, supplyAt 30)) rfl

theorem command_lifecycle_claimed :
    Reachable claimedOnce ∧ claimedOnce.claims = [⟨7, some "worker", 1⟩] ∧
      Lifecycle claimedOnce :=
  ⟨reachable_claimedOnce, by decide +kernel, command_lifecycle reachable_claimedOnce⟩

end Witness

end Fairy.Commanding
