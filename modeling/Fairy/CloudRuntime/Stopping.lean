import Fairy.CloudRuntime.Fencing
import Mathlib.Algebra.Order.BigOperators.Group.List
import Mathlib.Algebra.Order.Ring.Nat

namespace Fairy.CloudRuntime

open Fairy.Lib
open Fairy.Commanding (Uuid Time)

/-- The claims of a worker that asks `n` times at one time, with nobody else at the table. -/
def claimAll (x : Sha256) (now : Time) (ownerId : String) (leaseSeconds : Nat) :
    Nat → Leases → List CloudRuntimeClaim
  | 0, _ => []
  | n + 1, s =>
    let result := claimNext x now ownerId leaseSeconds [] s
    result.1.toOption.join.toList ++ claimAll x now ownerId leaseSeconds n result.2

/-- A worker that asks for every lease is handed this one, to stop it. -/
def HandedToStop (x : Sha256) (now : Time) (ownerId : String) (leaseSeconds : Nat) (s : Leases)
    (row : LeaseRow) : Prop :=
  ∃ claim ∈ claimAll x now ownerId leaseSeconds s.rows.length s,
    claim.lease.key = row.key ∧ claim.action = .stop

section Claims

variable {x : Sha256} {now : Time} {ownerId : String} {leaseSeconds n : Nat} {s : Leases}
  {row : LeaseRow}

/-- How many leases may be claimed. -/
def claimables (now : Time) (s : Leases) : Nat :=
  (s.rows.map fun row => if row.Claimable now then 1 else 0).sum

theorem claimables_pos (h : row ∈ s) (hclaimable : row.Claimable now) : 0 < claimables now s := by
  have hle := List.single_le_sum (l := s.rows.map fun row => if row.Claimable now then 1 else 0)
    (fun _ _ => Nat.zero_le _) _ (List.mem_map_of_mem (Table.mem_iff.mp h))
  rw [if_pos hclaimable] at hle
  exact hle

theorem claimables_le : claimables now s ≤ s.rows.length := by
  have hle := List.sum_le_card_nsmul (s.rows.map fun row => if row.Claimable now then 1 else 0) 1
    (fun n hn => by
      obtain ⟨row, _, rfl⟩ := List.mem_map.mp hn
      split <;> omega)
  simpa [claimables] using hle

theorem selectClaim_isSome (h : row ∈ s) (hclaimable : row.Claimable now) :
    ∃ first, selectClaim now [] s = some first := by
  have hmem : row ∈ s.select fun row => row.Claimable now ∧ row.key ∉ [] :=
    Table.mem_select.mpr ⟨h, hclaimable, List.not_mem_nil⟩
  have hlength : 0 < (batch (byKeys (·.createdAt) (·.runtimeId)) 1
      (s.select fun row => row.Claimable now ∧ row.key ∉ [])).length := by
    rw [batch, List.length_take, List.length_mergeSort]
    have := List.length_pos_of_mem hmem
    omega
  exact ⟨_, List.head?_eq_some_head (List.ne_nil_of_length_pos hlength)⟩

/-- What is claimed cannot be claimed again at the same time. -/
theorem not_claimable_claimValues (hseconds : 1 ≤ leaseSeconds) :
    ¬ (claimValues now ownerId leaseSeconds row).Claimable now := by
  rintro ⟨_, hqueued | ⟨_, hlapsed⟩⟩
  · revert hqueued
    cases hstatus : row.status <;> simp [claimValues, claimAction, hstatus]
  · have hle : now + leaseSeconds * 1000000 ≤ now := hlapsed _ rfl
    exact absurd hle (Nat.not_le.mpr (Nat.lt_add_of_pos_right (Nat.mul_pos hseconds (by decide))))

/-- By induction on the leases that may be claimed before the last one is. -/
theorem mem_claimAll (hsound : ∀ row ∈ s, row.Sound x) (howner : Text.strip ownerId ≠ "")
    (hseconds : 1 ≤ leaseSeconds) (hrow : row ∈ s) (hclaimable : row.Claimable now)
    (hn : claimables now s ≤ n) :
    ∃ claim ∈ claimAll x now ownerId leaseSeconds n s,
      claim.lease.key = row.key ∧ claim.action = claimAction row.status := by
  induction n generalizing s with
  | zero => exact absurd (claimables_pos hrow hclaimable) (by omega)
  | succ n ih =>
    obtain ⟨first, hselect⟩ := selectClaim_isSome hrow hclaimable
    obtain ⟨hfirst, hfirstClaimable, _⟩ := selectClaim_eq_some hselect
    have hclaim := claimNext_eq (hsound first hfirst) howner hseconds hselect
    simp only [claimAll, hclaim]
    by_cases hsame : first = row
    · subst hsame
      exact ⟨_, List.mem_append_left _ (List.mem_singleton.mpr rfl), rfl, rfl⟩
    · have heffect : Effect x now s (claimNext x now ownerId leaseSeconds [] s).2
          (World.claimEvents (claimNext x now ownerId leaseSeconds [] s).1) :=
        claimNext_effect hsound
      simp only [hclaim] at heffect
      have hother : ¬ (row.key = first.key ∧ row.leaseFence = first.leaseFence) :=
        fun h => hsame (Table.eq_of_key hfirst hrow h.1.symm)
      have hsum := Table.sum_update (t := s) (u := s.update (fun r => r.key = first.key ∧
          r.leaseFence = first.leaseFence) (claimValues now ownerId leaseSeconds))
        (fun row => if row.Claimable now then 1 else 0) Table.rows_update hfirst ⟨rfl, rfl⟩
        fun _ _ h => h.1
      rw [if_pos hfirstClaimable, if_neg (not_claimable_claimValues hseconds)] at hsum
      obtain ⟨claim, hmem, hclaimed⟩ := ih (fun row' hrow' => by
          obtain ⟨old, hold, heq⟩ | hadded := heffect.added row' hrow'
          · obtain ⟨moved, hmoved, hkey, hmove⟩ := heffect.moved old hold
            obtain rfl := Table.eq_of_key hmoved hrow' (hkey.trans heq)
            exact hmove.sound (hsound old hold)
          · exact hadded.sound)
        (Table.mem_update_of_not Table.rows_update hrow hother)
        (by simp only [claimables] at hn ⊢; omega)
      exact ⟨claim, List.mem_append_right _ hmem, hclaimed⟩

end Claims

variable {x : RuntimeHashing} {w : World} {row : LeaseRow} {now : Time} {ownerId : String}
  {leaseSeconds : Nat}

/-- A lease that is to stop, and that no worker holds, is handed to a worker exactly while its
lifetime lasts. -/
theorem stopping_handed_out_iff (hrun : Run (Step (x := x)) Admitted World.empty w)
    (hrow : row ∈ w.leases) (hstopping : row.status = .stopping)
    (hfree : ∀ t ∈ row.leaseExpiresAt, t ≤ now) (howner : Text.strip ownerId ≠ "")
    (hseconds : 1 ≤ leaseSeconds) :
    (row.Claimable now ∧ HandedToStop x.toSha256 now ownerId leaseSeconds w.leases row) ↔
      now < row.expiresAt := by
  have hsound : w.Sound x.toSha256 := World.sound_empty.run hrun
  constructor
  · rintro ⟨⟨halive, _⟩, _⟩
    exact halive
  · intro halive
    have hclaimable : row.Claimable now := by
      refine ⟨halive, .inr ⟨?_, hfree⟩⟩
      rw [hstopping]
      decide
    refine ⟨hclaimable, ?_⟩
    obtain ⟨claim, hmem, hkey, haction⟩ := mem_claimAll (fun row hrow => (hsound.rows row hrow).1)
      howner hseconds hrow hclaimable claimables_le
    rw [hstopping] at haction
    exact ⟨claim, hmem, hkey, haction⟩

section Site

/-- The site runs until its lifetime is over. -/
def expiredSite : World :=
  [Call.enqueue (x := plainHashing) siteRepository 0 siteRequest, .claimNext 1 "worker" 30 [],
    .markRunning 2 siteClaim "worker", .expireDue 60000000].foldl World.perform World.empty

theorem expiredSite_run : Run (Step (x := plainHashing)) Admitted World.empty expiredSite :=
  Run.foldl (by decide +kernel)

theorem expiredSite_not_claimable :
    ¬ ∀ w, Run (Step (x := plainHashing)) Admitted World.empty w → ∀ row ∈ w.leases,
      row.status = .stopping → ∀ now, w.clock ≤ now → (∀ t ∈ row.leaseExpiresAt, t ≤ now) →
        row.Claimable now ∧ HandedToStop plainHashing.toSha256 now "worker" 30 w.leases row := by
  intro h
  have hstopping : ∃ row ∈ expiredSite.leases.rows, row.status = .stopping ∧
      row.leaseExpiresAt = none ∧ row.expiresAt = 60000000 := by decide +kernel
  obtain ⟨row, hrow, hstatus, hfree, hexpires⟩ := hstopping
  obtain ⟨⟨halive, _⟩, _⟩ := h expiredSite expiredSite_run row hrow hstatus 60000000
    (by decide +kernel) (by simp [hfree])
  rw [hexpires] at halive
  exact absurd halive (by decide)

theorem stoppedSite_handed_out : ∃ row ∈ stoppedSite.leases,
    HandedToStop plainHashing.toSha256 3 "worker" 30 stoppedSite.leases row := by
  have hstopping : ∃ row ∈ stoppedSite.leases.rows, row.status = .stopping ∧
      row.leaseExpiresAt = none ∧ row.expiresAt = 60000000 := by decide +kernel
  obtain ⟨row, hrow, hstatus, hfree, hexpires⟩ := hstopping
  refine ⟨row, hrow, ((stopping_handed_out_iff stoppedSite_run hrow hstatus ?_ (by decide +kernel)
    (by decide)).mpr ?_).2⟩
  · simp [hfree]
  · rw [hexpires]
    decide

end Site

end Fairy.CloudRuntime
