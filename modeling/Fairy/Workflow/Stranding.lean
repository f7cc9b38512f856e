import Fairy.Workflow.Progress

namespace Fairy.Workflow

open Fairy.Lib

instance (r : WorkflowRun) : DecidablePred r.Current :=
  fun _ => inferInstanceAs (Decidable (_ ∧ _))

instance (s : Store) (runId : Uuid) : Decidable (Resumable s runId) :=
  inferInstanceAs (Decidable (∀ r ∈ s.runs.rows, _ → _ → _ →
    ∃ n ∈ s.nodes.rows, r.Current n ∧ n.status = .ready))

/-- A call of `resume` that finds something to start. -/
def Op.Resumes (s : Store) : Op → Prop
  | resume runId => Resumable s runId
  | _ => True

instance (s : Store) : ∀ op : Op, Decidable (op.Resumes s)
  | .resume runId => inferInstanceAs (Decidable (Resumable s runId))
  | .create _ _ _ | .appendPlan _ _ _ _ _ _ | .claimReady _ _ _ | .renew _ _ | .complete _ _ _ _
  | .retry _ _ _ | .defer _ _ _ | .waitForApproval _ _ | .waitForInput _ _ | .fail _ _ | .abandon _
  | .requestPause _ | .cancel _ | .reserveBudget _ _ _ | .upgradeBudget _ _
  | .addInstruction _ _ _ _ _ => .isTrue trivial

section

variable {P : Time → Prop} {s s' : Store} {t : Readings}

theorem Outcome.flowing {op : Op} (hs : Leased (fun _ => False) s) (hl : Linked s)
    (hq : Quiet (· ≤ t.first) s) (hok : op.Resumes s) (h : Outcome t s op s') (hf : Flowing s) :
    Flowing s' := by
  have hle : ∀ u, u ≤ t.first → u ≤ t.second := fun u hu => hu.trans t.le_second
  have hpast : ∀ u, False → u ≤ t.first := fun _ => False.elim
  cases h with
  | unchanged => exact hf
  | @create run nodes edges normalized _ hv hkey hrev hst hA hR hnew hN hE =>
    refine hf.of_confined (create_confined hv hA hR hN hE) fun r hr hid _ => ?_
    obtain hr | hr := (Table.mem_of_rows_append hR).mp hr
    · exact absurd hid (hnew r hr)
    obtain rfl := List.mem_singleton.mp hr
    have hnone : ∀ n ∈ s.nodes, n.runId = r.id → n.planRevision ≠ 1 := by
      intro n hn hrun
      obtain ⟨q, hq, hqid, _⟩ := hs.owned n hn
      exact absurd (hqid.trans hrun) (hnew q hq)
    obtain ⟨ho, n, hn, hrun, hnrev, hready⟩ := Orderly.insert hv hN hE hnone hl
    exact .of_queued hst (hrev.symm ▸ ho) ⟨n, hn, ⟨hrun, hnrev.trans hrev.symm⟩, hready⟩
  | @appendPlan runId revision _ _ nodes edges normalized r _ hv hr hid hst hrev hidle hA hR hN hE =>
    refine hf.of_confined (appendPlan_confined hv hA hR hN hE) fun q hq hqid _ => ?_
    rw [hR] at hq
    obtain ⟨k, hk, hp, rfl⟩ | ⟨hq, hne⟩ := Table.update_cases rfl hq
    · have hnone : ∀ n ∈ (s.supersedePlan runId revision t.first).nodes, n.runId = runId →
          n.planRevision ≠ revision + 1 := by
        intro n hn hrun
        obtain ⟨m, hm, hmn⟩ := (Table.mem_update rfl).mp hn
        obtain ⟨l, hlm, hlid, hle⟩ := hs.owned m hm
        have hsame : m.runId = n.runId ∧ m.planRevision = n.planRevision := by
          rw [← hmn]
          split <;> exact ⟨rfl, rfl⟩
        rw [Table.eq_of_key hlm hr (hlid.trans (hsame.1.trans (hrun.trans hid.symm))), hrev,
          hsame.2] at hle
        omega
      have hlink : Linked (s.supersedePlan runId revision t.first) :=
        (supersedePlan_moves (Q := fun _ => False)).linked hl
      obtain ⟨ho, n, hn, hrun, hnrev, hready⟩ := Orderly.insert hv hN hE hnone hlink
      rw [← hp.1] at ho hrun
      exact .of_queued rfl ho ⟨n, hn, ⟨hrun, hnrev⟩, hready⟩
    · rw [Table.eq_of_key hq hr (hqid.trans hid.symm)] at hne
      exact absurd ⟨hid, hrev⟩ hne
  | @claimReady workerId leaseUntil slots claims u _ hlease hu hc =>
    have hswept : Flowing u := by
      refine (sweep_rule hs (fun _ _ _ _ _ _ hI => hI.closeOverdue) ?_ hu hf).1
      exact fun v w b hd _ n hn hid _ r hr hrid _ hv _ hI => hI.release hv hd hn hid hr hrid
    refine (claims_rule (I := fun v _ => Flowing v) ((sweep_moves (Q := fun _ => False) hs hu).leased
      hs) hpast (reclaimExpired_swept hu) hlease ?_ hc hswept).1
    exact fun v v' _ row _ _ htake _ hI => hI.take htake
  | renew =>
    have hx : Flowing (s.expireOverdue t.first) :=
      (expireOverdue_rule (I := Flowing) (fun _ _ _ _ _ hI => hI.closeOverdue) hf).1
    exact hx.of_same rfl rfl rfl fun _ => renewLease_running
  | complete hc hu hr hid =>
    exact hf.complete hs hl hc (hc.unfinished hq fun _ hu => hu) hu hr hid
  | retry hc =>
    exact hf.settle hs hc (hc.unfinished hq fun _ hu => hu) (hc.retryClaim_confined hs) rfl rfl rfl
      (fun _ => ⟨rfl, rfl, rfl⟩) (fun _ => rfl) (.inl ⟨rfl, rfl⟩)
  | defer hc =>
    exact hf.settle hs hc (hc.unfinished hq fun _ hu => hu) (hc.deferClaim_confined hs) rfl rfl rfl
      (fun _ => ⟨rfl, rfl, rfl⟩) (fun _ => rfl) (.inl ⟨rfl, rfl⟩)
  | retryFail hc => exact hf.failClaim hs hc
  | deferFail hc => exact hf.failClaim hs hc
  | fail hc => exact hf.failClaim hs hc
  | waitForApproval hc =>
    exact hf.settle hs hc (hc.unfinished hq fun _ hu => hu) (hc.waitClaim_confined hs) rfl rfl rfl
      (fun _ => ⟨rfl, rfl, rfl⟩) (fun _ => rfl) (.inr ⟨.inl rfl, rfl⟩)
  | waitForInput hc =>
    exact hf.settle hs hc (hc.unfinished hq fun _ hu => hu) (hc.waitClaim_confined hs) rfl rfl rfl
      (fun _ => ⟨rfl, rfl, rfl⟩) (fun _ => rfl) (.inr ⟨.inr rfl, rfl⟩)
  | @abandon c a n r ha hpr hn hnid hr hid =>
    exact hf.release hs (abandonAttempt_dropped ha hpr) hn (hnid.trans hpr.1.symm) hr
      (hid.trans hpr.2.2.1.symm)
  | requestPause hr hid hst => exact hf.pauseRun (unfinished_of_mem hr hid hst)
  | resume hr hid hst => exact hf.resume hr hid hst hok
  | cancel =>
    refine hf.of_ended cancelRun_confined fun q hq hid => ?_
    obtain ⟨_, _, _, rfl⟩ | ⟨_, hne⟩ := Table.update_cases rfl hq
    · rfl
    · exact absurd hid hne
  | rebudget hR hk =>
    intro r hr ht
    obtain ⟨q, hq, rfl⟩ := (Table.mem_of_rows_map hR).mp hr
    rw [(hk q hq).status] at ht
    exact ((hf q hq ht).of_kept (hk q hq).kept (hk q hq).status).of_same rfl rfl fun _ => rfl
  | instruct => exact hf.of_same rfl rfl rfl fun _ => rfl

end

/-- A call that settles in time, fails a run with no other attempt under way, and
resumes no paused run that has nothing left to start. -/
def Proceeding (σ : Config) (call : Call) : Prop :=
  Steady σ call ∧ LosingLast σ call ∧ call.op.Resumes σ.store

instance (σ : Config) (call : Call) : Decidable (Proceeding σ call) :=
  inferInstanceAs (Decidable (_ ∧ _ ∧ _))

theorem Reachable.flowing {σ : Config} (h : Reachable Proceeding σ) : Flowing σ.store := by
  suffices Reachable Proceeding σ ∧ Flowing σ.store from this.2
  refine h.invariant (I := fun σ => Reachable Proceeding σ ∧ Flowing σ.store)
    (fun clock => ⟨⟨clock, .refl⟩, fun _ hr => absurd hr (Table.not_mem_empty _)⟩)
    fun σ call τ hs hok hstep => ⟨hs.1.runs (.single hok hstep), ?_⟩
  have hq := (hs.1.mono fun _ _ hok => hok.2.1).quiet.mono fun _ hu => hu.trans hstep.1
  exact hstep.outcome.flowing (hs.1.mono fun _ _ hok => hok.1).exact hs.1.sound.linked hq hok.2.2 hs.2

/-- A RUNNING attempt of the run shows a RUNNING node of its active plan. -/
theorem Leased.current_running {s : Store} (hs : Leased (fun _ => False) s) {r : WorkflowRun}
    (hr : r ∈ s.runs) (ha : s.hasRunningAttempt r.id = true) :
    ∃ n ∈ s.nodes, r.Current n ∧ n.status = .running := by
  obtain ⟨a, ha, hid, har⟩ := hasRunningAttempt_iff.mp ha
  obtain ⟨n, hn, hnid, hrun, hrev, _⟩ := hs.placed a ha
  refine ⟨n, hn, ⟨hrun.trans hid, hrev.trans (hs.active a ha har r hr hid.symm)⟩, ?_⟩
  exact (hs.held a ha n hn hnid har).resolve_right fun ⟨_, _, hf⟩ => hf

/-- A QUEUED run has a READY node in its active plan, and an unfinished run that
was resumed has one that is READY or RUNNING. -/
theorem no_run_stranded {σ : Config} (h : Reachable Proceeding σ) :
    (∀ r ∈ σ.store.runs, r.status = .queued →
      ∃ n ∈ σ.store.nodes, r.Current n ∧ n.status = .ready) ∧
    ∀ runId t snap s', σ.clock ≤ t.first → Resumable σ.store runId →
      σ.store.resume runId t = .ok (snap, s') →
      ∀ r ∈ s'.runs, r.id = runId → r.status.terminal = false →
        ∃ n ∈ s'.nodes, r.Current n ∧ (n.status = .ready ∨ n.status = .running) := by
  refine ⟨fun r hr hst => (h.flowing r hr (by rw [hst]; rfl)).queued hst, ?_⟩
  intro runId t snap s' hclock hok hres r hr hid ht
  have hstep : Step σ ⟨.resume runId, t⟩ (σ.after ⟨.resume runId, t⟩) := ⟨hclock, rfl⟩
  have hs' : (σ.after ⟨.resume runId, t⟩).store = s' :=
    hstep.store_eq (congrArg (Except.map (Prod.map Reply.snapshot id)) hres)
  have hproceed : Proceeding σ ⟨.resume runId, t⟩ := ⟨trivial, trivial, hok⟩
  have hnext : Reachable Proceeding (σ.after ⟨.resume runId, t⟩) := h.runs (.single hproceed hstep)
  have halive : Alive s' r := hs' ▸ hnext.flowing r (hs'.symm ▸ hr) ht
  have hleased : Leased (fun _ => False) s' := hs' ▸ (hnext.mono fun _ _ hok => hok.1).exact
  obtain ⟨q, hq, hqid, ⟨hqt, rfl⟩ | ⟨hqt, rfl⟩⟩ := resume_ok hres
  · rw [Table.eq_of_key hr hq (hid.trans hqid.symm), hqt] at ht
    cases ht
  · have hst : r.status = .running ∨ r.status = .queued := by
      obtain ⟨k, _, _, rfl⟩ | ⟨_, hne⟩ := Table.update_cases rfl hr
      · dsimp only
        split <;> simp
      · exact absurd hid hne
    obtain hst | hst := hst
    · obtain ⟨n, hn, hcur, hnst⟩ := hleased.current_running hr (halive.running hst)
      exact ⟨n, hn, hcur, .inr hnst⟩
    · obtain ⟨n, hn, hcur, hnst⟩ := halive.queued hst
      exact ⟨n, hn, hcur, .inl hnst⟩

/-- A run that is paused and resumed before its node is claimed. -/
def resumedCalls : List Call :=
  [(Op.create sampleRun [sampleNode 1 .serial 1] []).at 0,
    (Op.requestPause 1).at 1,
    (Op.resume 1).at 2]

/-- A run that is paused while its only node is under way, and resumed after that
node completed. -/
def strandedCalls : List Call :=
  claimedCalls ++ [(Op.requestPause 1).at 2, (Op.complete (sampleClaim 1 1 10) [] [] none).at 3,
    (Op.resume 1).at 4]

theorem no_run_stranded_resumed : (∃ r ∈ (played resumedCalls).store.runs.rows, r.status = .queued) ∧
    ∀ r ∈ (played resumedCalls).store.runs, r.status = .queued →
      ∃ n ∈ (played resumedCalls).store.nodes, r.Current n ∧ n.status = .ready :=
  ⟨by decide, (no_run_stranded (reachable_played (by decide))).1⟩

/-- The resumed run is QUEUED for good: its only node SUCCEEDED long ago. -/
theorem run_stranded : Reachable AnyCall (played strandedCalls) ∧
    ∃ r ∈ (played strandedCalls).store.runs, r.status = .queued ∧ r.pauseRequested = false ∧
      ∀ n ∈ (played strandedCalls).store.nodes, n.status = .succeeded := by
  refine ⟨reachable_played (by decide), ?_⟩
  have hr : ∃ r ∈ (played strandedCalls).store.runs.rows, r.status = .queued ∧
      r.pauseRequested = false ∧
      ∀ n ∈ (played strandedCalls).store.nodes.rows, n.status = .succeeded := by
    decide
  exact hr

end Fairy.Workflow
