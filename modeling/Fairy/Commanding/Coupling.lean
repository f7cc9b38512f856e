import Fairy.Commanding.Effects

namespace Fairy.Commanding

open Fairy.Lib

/-- The claims granted for a run, oldest first. -/
def claimsOf (claims : List Claim) (runId : Uuid) : List Claim :=
  claims.filter fun c => c.runId = runId

theorem claimsOf_self (claims : List Claim) (c : Claim) :
    claimsOf (claims ++ [c]) c.runId = claimsOf claims c.runId ++ [c] := by
  simp [claimsOf]

theorem claimsOf_other (claims : List Claim) {c : Claim} {runId : Uuid} (h : c.runId ≠ runId) :
    claimsOf (claims ++ [c]) runId = claimsOf claims runId := by
  simp [claimsOf, h]

/-- How a row's status, its lease columns and its fence hang together. -/
structure RowOk (claims : List Claim) (r : CommandRun) : Prop where
  leased : r.status = .running → r.leaseOwner.isSome ∧ r.leaseUntil.isSome
  free : r.status ≠ .running → r.leaseOwner = none ∧ r.leaseUntil = none
  fence : r.leaseFence = (claimsOf claims r.id).length
  latest : r.status = .running →
    (claimsOf claims r.id).getLast? = some ⟨r.id, r.leaseOwner, r.leaseFence⟩

namespace RowOk

variable {claims : List Claim} {r : CommandRun}

/-- A claim of another run does not concern the row. -/
theorem other (h : RowOk claims r) {c : Claim} (hc : c.runId ≠ r.id) :
    RowOk (claims ++ [c]) r where
  leased := h.leased
  free := h.free
  fence := by
    rw [claimsOf_other claims hc]
    exact h.fence
  latest hr := by
    rw [claimsOf_other claims hc]
    exact h.latest hr

theorem left (h : RowOk claims r) {status : CommandStatus} (hs : status ≠ .running)
    (now : Time) : RowOk claims (r.left status now) where
  leased hr := absurd hr hs
  free _ := ⟨rfl, rfl⟩
  fence := h.fence
  latest hr := absurd hr hs

theorem taken (h : RowOk claims r) (worker : String) (leaseUntil now : Time) :
    RowOk (claims ++ [⟨r.id, some worker, r.leaseFence + 1⟩])
      (r.taken r worker leaseUntil now) where
  leased _ := ⟨rfl, rfl⟩
  free hr := absurd rfl hr
  fence := by
    have hlen := congrArg List.length
      (claimsOf_self claims ⟨r.id, some worker, r.leaseFence + 1⟩)
    simp only [List.length_append, List.length_singleton] at hlen
    have hf := h.fence
    simp only [CommandRun.taken]
    omega
  latest _ := by
    have happ := claimsOf_self claims ⟨r.id, some worker, r.leaseFence + 1⟩
    simp only [CommandRun.taken]
    rw [happ, List.getLast?_concat]

theorem extended (h : RowOk claims r) (hr : r.status = .running) (leaseUntil now : Time) :
    RowOk claims { r with leaseUntil := some leaseUntil, updatedAt := now } where
  leased _ := ⟨(h.leased hr).1, rfl⟩
  free hn := absurd hr hn
  fence := h.fence
  latest := h.latest

end RowOk

/-- The invariant of the ledger. -/
structure Coupled (σ : Config) : Prop where
  rows : ∀ r ∈ σ.ledger.runs, RowOk σ.claims r
  known : ∀ c ∈ σ.claims, ∃ r ∈ σ.ledger.runs, r.id = c.runId
  ended : ∀ i ∈ σ.finished, ∃ r ∈ σ.ledger.runs, r.id = i ∧ r.status.transitions = []
  once : σ.finished.Nodup

theorem coupled_empty : Coupled ⟨.empty, [], []⟩ where
  rows _ hr := absurd hr (Table.not_mem_empty _)
  known _ hc := absurd hc List.not_mem_nil
  ended _ hi := absurd hi List.not_mem_nil
  once := List.nodup_nil

section Effects

variable {σ τ : Config} {call : Call} {row row' : CommandRun}

/-- The rows of a table in which one row is replaced are well coupled, if the new row
is and the claims of the others are the same. -/
theorem rows_replaced (h : Coupled σ)
    (hruns : Table.Replaces σ.ledger.runs τ.ledger.runs row row') (hnew : RowOk τ.claims row')
    (hold : ∀ r ∈ σ.ledger.runs, r.id ≠ row.id → RowOk σ.claims r → RowOk τ.claims r) :
    ∀ r ∈ τ.ledger.runs, RowOk τ.claims r := by
  intro r hr
  obtain rfl | ⟨hr, hne⟩ := hruns.cases hr
  · exact hnew
  · exact hold r hr hne (h.rows r hr)

theorem known_replaced (h : Coupled σ)
    (hruns : Table.Replaces σ.ledger.runs τ.ledger.runs row row') :
    ∀ c ∈ σ.claims, ∃ r ∈ τ.ledger.runs, r.id = c.runId := by
  intro c hc
  obtain ⟨r, hr, he⟩ := h.known c hc
  obtain ⟨r', hr', he'⟩ := hruns.key_mem hr
  exact ⟨r', hr', he'.trans he⟩

/-- A run that a `finish` has ended is not the one replaced. -/
theorem ended_replaced (h : Coupled σ)
    (hruns : Table.Replaces σ.ledger.runs τ.ledger.runs row row')
    (hrow : row.status.transitions ≠ []) {i : Uuid} (hi : i ∈ σ.finished) :
    i ≠ row.id ∧ ∃ r ∈ τ.ledger.runs, r.id = i ∧ r.status.transitions = [] := by
  obtain ⟨r, hr, rfl, ht⟩ := h.ended i hi
  have hne : r.id ≠ row.id := by
    intro he
    rw [Table.eq_of_key hr hruns.1 he] at ht
    exact hrow ht
  exact ⟨hne, r, hruns.mem_other hr hne, rfl, ht⟩

theorem transitions_of_mem {status : CommandStatus} (h : status ∈ row.status.transitions) :
    row.status.transitions ≠ [] := List.ne_nil_of_mem h

/-- Every call keeps the invariant. -/
theorem Coupled.effect (h : Coupled σ) (he : Effect σ call τ) : Coupled τ := by
  cases he with
  | idle hruns hclaims hfinished =>
    obtain ⟨hrows, hknown, hended, honce⟩ := h
    rw [← hruns, ← hclaims] at hrows
    rw [← hruns, ← hclaims] at hknown
    rw [← hruns, ← hfinished] at hended
    rw [← hfinished] at honce
    exact ⟨hrows, hknown, hended, honce⟩
  | created row hstatus hlease hrows hfresh hclaims hfinished =>
    have hsub : ∀ r ∈ σ.ledger.runs, r ∈ τ.ledger.runs := fun r hr =>
      (Table.mem_of_rows_append hrows).mpr (.inl hr)
    refine ⟨fun r hr => ?_, fun c hc => ?_, fun i hi => ?_, ?_⟩
    · rw [hclaims]
      obtain hr | hr := (Table.mem_of_rows_append hrows).mp hr
      · exact h.rows r hr
      · obtain rfl := List.mem_singleton.mp hr
        -- a new run has no claims, for every claim is of a run that was there
        have hnone : claimsOf σ.claims r.id = [] := by
          refine List.filter_eq_nil_iff.mpr fun c hc => ?_
          obtain ⟨x, hx, hxc⟩ := h.known c hc
          simpa [← hxc] using hfresh x hx
        have hne : r.status ≠ .running := by
          rw [hstatus]
          decide
        refine ⟨fun hr => absurd hr hne, fun _ => ⟨hlease.1, hlease.2.1⟩, ?_,
          fun hr => absurd hr hne⟩
        rw [hnone]
        exact hlease.2.2
    · rw [hclaims] at hc
      obtain ⟨r, hr, he⟩ := h.known c hc
      exact ⟨r, hsub r hr, he⟩
    · rw [hfinished] at hi
      obtain ⟨r, hr, he⟩ := h.ended i hi
      exact ⟨r, hsub r hr, he⟩
    · rw [hfinished]
      exact h.once
  | moved row status now _ _ _ hedge hstatus hruns hclaims hfinished =>
    refine ⟨rows_replaced h hruns ?_ ?_, ?_, fun i hi => ?_, ?_⟩
    · rw [hclaims]
      exact (h.rows row hruns.1).left hstatus now
    · rw [hclaims]
      exact fun _ _ _ hr => hr
    · rw [hclaims]
      exact known_replaced h hruns
    · rw [hfinished] at hi
      exact (ended_replaced h hruns (transitions_of_mem hedge) hi).2
    · rw [hfinished]
      exact h.once
  | ended row status now hedge hstatus hruns hclaims hfinished =>
    have hne : status ≠ .running ∧ status.transitions = [] := by
      obtain rfl | rfl := hstatus <;> decide
    refine ⟨rows_replaced h hruns ?_ ?_, ?_, fun i hi => ?_, ?_⟩
    · rw [hclaims]
      exact (h.rows row hruns.1).left hne.1 now
    · rw [hclaims]
      exact fun _ _ _ hr => hr
    · rw [hclaims]
      exact known_replaced h hruns
    · rw [hfinished] at hi
      obtain hi | hi := List.mem_append.mp hi
      · exact (ended_replaced h hruns (transitions_of_mem hedge) hi).2
      · exact ⟨_, hruns.mem, (List.mem_singleton.mp hi).symm, hne.2⟩
    · rw [hfinished, List.nodup_append']
      refine ⟨h.once, List.nodup_singleton _, fun i hi hi' => ?_⟩
      exact (ended_replaced h hruns (transitions_of_mem hedge) hi).1 (List.mem_singleton.mp hi')
  | taken row worker leaseUntil now hstatus hruns hclaims hfinished =>
    have hopen : row.status.transitions ≠ [] := by
      obtain hs | hs := hstatus <;> rw [hs] <;> decide
    refine ⟨rows_replaced h hruns ?_ ?_, fun c hc => ?_, fun i hi => ?_, ?_⟩
    · rw [hclaims]
      exact (h.rows row hruns.1).taken worker leaseUntil now
    · rw [hclaims]
      exact fun r _ hne hr => hr.other (Ne.symm hne)
    · rw [hclaims] at hc
      obtain hc | hc := List.mem_append.mp hc
      · exact known_replaced h hruns c hc
      · obtain rfl := List.mem_singleton.mp hc
        exact ⟨_, hruns.mem, rfl⟩
    · rw [hfinished] at hi
      exact (ended_replaced h hruns hopen hi).2
    · rw [hfinished]
      exact h.once
  | extended row leaseUntil now hstatus hruns hclaims hfinished =>
    have hopen : row.status.transitions ≠ [] := by
      rw [hstatus]
      decide
    refine ⟨rows_replaced h hruns ?_ ?_, ?_, fun i hi => ?_, ?_⟩
    · rw [hclaims]
      exact (h.rows row hruns.1).extended hstatus leaseUntil now
    · rw [hclaims]
      exact fun _ _ _ hr => hr
    · rw [hclaims]
      exact known_replaced h hruns
    · rw [hfinished] at hi
      exact (ended_replaced h hruns hopen hi).2
    · rw [hfinished]
      exact h.once

/-- What a call may have done to a row. -/
theorem Effect.row_cases (he : Effect σ call τ) {r r' : CommandRun} (hr : r ∈ σ.ledger.runs)
    (hr' : r' ∈ τ.ledger.runs) (hid : r'.id = r.id) :
    r' = r ∨ r.status.transitions ≠ [] ∧ r.leaseFence ≤ r'.leaseFence ∧
      (r'.status = r.status ∨
        (r.status = .queued ∧ r'.status = .running) ∨
        (r'.status ∈ r.status.transitions ∧ (r'.status = .succeeded ∨ r'.status = .failed)) ∨
        (r'.status ∈ r.status.transitions ∧ r'.status ≠ .running ∧
          ∃ leaseOwner leaseFence,
            call = .transition r.id r'.status leaseOwner leaseFence)) := by
  have hreplaced : ∀ {row row' : CommandRun},
      Table.Replaces σ.ledger.runs τ.ledger.runs row row' → r' = r ∨ r = row ∧ r' = row' := by
    intro row row' hruns
    obtain rfl | ⟨hm, _⟩ := hruns.cases hr'
    · exact .inr ⟨hruns.eq_of_key hr hid.symm, rfl⟩
    · exact .inl (Table.eq_of_key hm hr hid)
  cases he with
  | idle hruns _ _ =>
    rw [hruns] at hr'
    exact .inl (Table.eq_of_key hr' hr hid)
  | created row _ _ hrows hfresh _ _ =>
    obtain hm | hm := (Table.mem_of_rows_append hrows).mp hr'
    · exact .inl (Table.eq_of_key hm hr hid)
    · obtain rfl := List.mem_singleton.mp hm
      exact absurd hid.symm (hfresh r hr)
  | moved row status now leaseOwner leaseFence hcall hedge hstatus hruns _ _ =>
    obtain he | ⟨rfl, rfl⟩ := hreplaced hruns
    · exact .inl he
    · exact .inr ⟨transitions_of_mem hedge, le_rfl,
        .inr (.inr (.inr ⟨hedge, hstatus, leaseOwner, leaseFence, hcall⟩))⟩
  | ended row status now hedge hstatus hruns _ _ =>
    obtain he | ⟨rfl, rfl⟩ := hreplaced hruns
    · exact .inl he
    · exact .inr ⟨transitions_of_mem hedge, le_rfl, .inr (.inr (.inl ⟨hedge, hstatus⟩))⟩
  | taken row worker leaseUntil now hstatus hruns _ _ =>
    obtain he | ⟨rfl, rfl⟩ := hreplaced hruns
    · exact .inl he
    · obtain hs | hs := hstatus
      · refine .inr ⟨by rw [hs]; decide, Nat.le_succ _, .inr (.inl ⟨hs, rfl⟩)⟩
      · refine .inr ⟨by rw [hs]; decide, Nat.le_succ _, .inl hs.symm⟩
  | extended row leaseUntil now hstatus hruns _ _ =>
    obtain he | ⟨rfl, rfl⟩ := hreplaced hruns
    · exact .inl he
    · exact .inr ⟨by rw [hstatus]; decide, le_rfl, .inl rfl⟩

/-- No call removes a run. -/
theorem Effect.run_mem (he : Effect σ call τ) {r : CommandRun} (hr : r ∈ σ.ledger.runs) :
    ∃ r' ∈ τ.ledger.runs, r'.id = r.id := by
  cases he with
  | idle hruns _ _ =>
    rw [hruns]
    exact ⟨r, hr, rfl⟩
  | created _ _ _ hrows _ _ _ => exact ⟨r, (Table.mem_of_rows_append hrows).mpr (.inl hr), rfl⟩
  | moved _ _ _ _ _ _ _ _ hruns _ _ => exact hruns.key_mem hr
  | ended _ _ _ _ _ hruns _ _ => exact hruns.key_mem hr
  | taken _ _ _ _ _ hruns _ _ => exact hruns.key_mem hr
  | extended _ _ _ _ hruns _ _ => exact hruns.key_mem hr

end Effects

theorem Coupled.step {σ τ : Config} {x : Call × Supply} (h : Coupled σ) (hs : Step σ x τ) :
    Coupled τ := by
  subst hs
  exact h.effect (effect_after σ x.1 x.2)

theorem Reachable.coupled {σ : Config} (h : Reachable σ) : Coupled σ :=
  h.invariant (fun _ _ _ hc _ hs => hc.step hs) coupled_empty

end Fairy.Commanding
