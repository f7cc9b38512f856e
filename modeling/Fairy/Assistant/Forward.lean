import Fairy.Assistant.NextInstant
import Fairy.Lib.Run

namespace Fairy.Assistant

open Fairy.Lib
open Fairy.Lib.Clock

variable {z : Zone} {x : RecurrenceCodec} {rule : ScheduleRule}
  {candidate previous time date u m : Int}

/-- The first minute from a local time on that the clock of the zone shows, within a day. -/
structure Settles (z : Zone) (candidate m : Int) : Prop where
  within : ∃ k : Nat, k ≤ 24 * 60 ∧ m = candidate + k * minute
  shown : z.Shows m
  first : ∀ k : Nat, candidate + k * minute < m → ¬ z.Shows (candidate + k * minute)

/-- A gap does not swallow a local time and the day after it. -/
def Resolvable (z : Zone) (candidate : Int) : Prop := ∃ m, Settles z candidate m

/-- The clock has not yet shown a local time, or the minute in its place, at an instant. -/
def Upcoming (z : Zone) (previous candidate : Int) : Prop :=
  ∃ m, Settles z candidate m ∧ ∀ u ∈ z.readings m, previous < u

section Resolve

theorem resolveFrom_ok_iff {probes : Nat} :
    resolveFrom z probes candidate = .ok u ↔
      ∃ k < probes, (∀ j < k, ¬ z.Shows (candidate + (j : Nat) * minute)) ∧
        (z.readings (candidate + (k : Nat) * minute)).min? = some u := by
  induction probes generalizing candidate with
  | zero => exact ⟨fun h => (nomatch h), fun ⟨k, hk, _⟩ => absurd hk (Nat.not_lt_zero k)⟩
  | succ probes ih =>
    have hshift : ∀ k : Nat, candidate + minute + k * minute = candidate + (k + 1 : Nat) * minute := by
      intro k
      simp only [minute]
      omega
    rw [resolveFrom]
    cases hmin : (z.readings candidate).min? with
    | some u' =>
      constructor
      · intro h
        obtain rfl := Except.ok.inj h
        exact ⟨0, Nat.succ_pos _, fun j hj => absurd hj (Nat.not_lt_zero j), by simpa using hmin⟩
      · rintro ⟨k, _, hnone, hk⟩
        obtain rfl : k = 0 := by
          by_contra hne
          have hshown : z.Shows candidate := fun hnil => by
            rw [hnil] at hmin
            cases hmin
          exact hnone 0 (Nat.pos_of_ne_zero hne) (by simpa using hshown)
        have hk' : (z.readings candidate).min? = some u := by simpa using hk
        rw [hmin] at hk'
        rw [Option.some.inj hk']
    | none =>
      have hnil : ¬ z.Shows candidate := not_not.mpr (List.min?_eq_none_iff.mp hmin)
      rw [ih]
      constructor
      · rintro ⟨k, hk, hnone, hread⟩
        refine ⟨k + 1, Nat.succ_lt_succ hk, fun j hj => ?_, by rwa [hshift] at hread⟩
        cases j with
        | zero => simpa using hnil
        | succ j =>
          rw [← hshift]
          exact hnone j (Nat.lt_of_succ_lt_succ hj)
      · rintro ⟨k, hk, hnone, hread⟩
        cases k with
        | zero => simp [hmin] at hread
        | succ k =>
          refine ⟨k, Nat.lt_of_succ_lt_succ hk, fun j hj => ?_, by rwa [hshift]⟩
          rw [hshift]
          exact hnone (j + 1) (Nat.succ_lt_succ hj)

/-- A local time is resolved to the first reading of the minute that it settles on. -/
theorem resolveLocal_ok_iff : resolveLocal z candidate = .ok u ↔
    ∃ m, Settles z candidate m ∧ (z.readings m).min? = some u := by
  rw [resolveLocal, resolveFrom_ok_iff]
  constructor
  · rintro ⟨k, hk, hnone, hread⟩
    refine ⟨candidate + k * minute, ⟨⟨k, by omega, rfl⟩, ?_, fun j hj => hnone j ?_⟩, hread⟩
    · intro hnil
      simp [hnil] at hread
    · simp only [minute] at hj
      omega
  · rintro ⟨m, ⟨⟨k, hk, rfl⟩, _, hfirst⟩, hread⟩
    refine ⟨k, by omega, fun j hj => hfirst j ?_, hread⟩
    simp only [minute]
    omega

theorem settles_unique {m' : Int} (h : Settles z candidate m) (h' : Settles z candidate m') :
    m = m' := by
  obtain ⟨⟨k, _, rfl⟩, hshown, hfirst⟩ := h
  obtain ⟨⟨k', _, rfl⟩, hshown', hfirst'⟩ := h'
  by_contra hne
  obtain hlt | hlt := Int.lt_or_gt_of_ne hne
  · exact hfirst' k hlt hshown
  · exact hfirst k' hlt hshown'

theorem resolveLocal_total_iff :
    (∃ u, resolveLocal z candidate = .ok u) ↔ Resolvable z candidate := by
  constructor
  · rintro ⟨u, h⟩
    obtain ⟨m, hm, _⟩ := resolveLocal_ok_iff.mp h
    exact ⟨m, hm⟩
  · rintro ⟨m, hm⟩
    cases hmin : (z.readings m).min? with
    | none => exact absurd (List.min?_eq_none_iff.mp hmin) hm.shown
    | some u => exact ⟨u, resolveLocal_ok_iff.mpr ⟨m, hm, hmin⟩⟩

theorem lt_resolved_iff (h : resolveLocal z candidate = .ok u) :
    previous < u ↔ Upcoming z previous candidate := by
  obtain ⟨m, hm, hmin⟩ := resolveLocal_ok_iff.mp h
  obtain ⟨hmem, hle⟩ := List.min?_eq_some_iff.mp hmin
  constructor
  · intro hlt
    exact ⟨m, hm, fun v hv => Int.lt_of_lt_of_le hlt (hle v hv)⟩
  · rintro ⟨m', hm', hlater⟩
    rw [settles_unique hm' hm] at hlater
    exact hlater u hmem

theorem resolvable_of_upcoming (h : Upcoming z previous candidate) : Resolvable z candidate := by
  obtain ⟨m, hm, _⟩ := h
  exact ⟨m, hm⟩

/-- Two days after what the clock shows, no fold can put a local time before an instant. -/
theorem upcoming_of_resolvable (h : Resolvable z candidate)
    (hfar : z.clock previous + 2 * day ≤ candidate) : Upcoming z previous candidate := by
  obtain ⟨m, hm⟩ := h
  refine ⟨m, hm, fun u hu => ?_⟩
  obtain ⟨k, _, rfl⟩ := hm.within
  have hshown := Zone.clock_reading hu
  have hu' := z.clock_bounds u
  have hprevious := z.clock_bounds previous
  simp only [minute] at hshown
  omega

/-- A resolved local time is later than an instant just when the clock has not shown it yet. -/
theorem resolve_later_iff :
    (∃ u, resolveLocal z candidate = .ok u ∧ previous < u) ↔ Upcoming z previous candidate := by
  constructor
  · rintro ⟨u, hu, hlt⟩
    exact (lt_resolved_iff hu).mp hlt
  · intro h
    obtain ⟨u, hu⟩ := resolveLocal_total_iff.mpr (resolvable_of_upcoming h)
    exact ⟨u, hu, (lt_resolved_iff hu).mpr h⟩

end Resolve

section Kinds

theorem nextDaily_later_iff :
    (∃ u, nextDaily z previous time = .ok u ∧ previous < u) ↔
      Resolvable z (combine (dateOf (z.clock previous)) time) ∧
        (Upcoming z previous (combine (dateOf (z.clock previous)) time) ∨
          Upcoming z previous (combine (dateOf (z.clock previous) + 1) time)) := by
  rw [← resolveLocal_total_iff]
  constructor
  · rintro ⟨u, h, hlt⟩
    obtain ⟨today, htoday, h⟩ := bind_ok h
    refine ⟨⟨today, htoday⟩, ?_⟩
    split at h
    · exact .inr (resolve_later_iff.mp ⟨u, h, hlt⟩)
    · exact .inl (resolve_later_iff.mp ⟨u, h, hlt⟩)
  · rintro ⟨⟨today, htoday⟩, h⟩
    by_cases hlater : previous < today
    · refine ⟨today, ?_, hlater⟩
      rw [nextDaily, htoday, ok_bind, if_neg (Int.not_le.mpr hlater)]
    · obtain h | h := h
      · exact absurd ((lt_resolved_iff htoday).mpr h) hlater
      · obtain ⟨u, hu, hlt⟩ := resolve_later_iff.mpr h
        refine ⟨u, ?_, hlt⟩
        rw [nextDaily, htoday, ok_bind, if_pos (Int.not_lt.mp hlater), hu]

/-- Three dates after that of an instant, no fold can put a local time before it. -/
theorem upcoming_of_date (h : Resolvable z (combine date time)) (htime : 0 ≤ time)
    (hdate : dateOf (z.clock previous) + 3 ≤ date) : Upcoming z previous (combine date time) := by
  refine upcoming_of_resolvable h ?_
  simp only [dateOf, combine, day] at *
  omega

theorem nextWeekly_later_iff {weekday : Int} (htime : 0 ≤ time) :
    (∃ u, nextWeekly z previous weekday time = .ok u ∧ previous < u) ↔
      Resolvable z (combine (dateOf (z.clock previous) +
        (weekday - Clock.weekday (dateOf (z.clock previous))) % 7) time) ∧
        (Upcoming z previous (combine (dateOf (z.clock previous) +
          (weekday - Clock.weekday (dateOf (z.clock previous))) % 7) time) ∨
        Resolvable z (combine (dateOf (z.clock previous) +
          (weekday - Clock.weekday (dateOf (z.clock previous))) % 7 + 7) time)) := by
  have hahead := Int.emod_nonneg (weekday - Clock.weekday (dateOf (z.clock previous)))
    (show (7 : Int) ≠ 0 by decide)
  simp only [nextWeekly]
  generalize (weekday - Clock.weekday (dateOf (z.clock previous))) % 7 = ahead at hahead
  have hfar : Resolvable z (combine (dateOf (z.clock previous) + ahead + 7) time) →
      Upcoming z previous (combine (dateOf (z.clock previous) + ahead + 7) time) :=
    fun h => upcoming_of_date h htime (by omega)
  rw [← resolveLocal_total_iff]
  constructor
  · rintro ⟨u, h, hlt⟩
    obtain ⟨first, hfirst, h⟩ := bind_ok h
    refine ⟨⟨first, hfirst⟩, ?_⟩
    split at h
    · exact .inr (resolveLocal_total_iff.mp ⟨u, h⟩)
    · exact .inl (resolve_later_iff.mp ⟨u, h, hlt⟩)
  · rintro ⟨⟨first, hfirst⟩, h⟩
    by_cases hlater : previous < first
    · refine ⟨first, ?_, hlater⟩
      rw [hfirst, ok_bind, if_neg (Int.not_le.mpr hlater)]
    · obtain h | h := h
      · exact absurd ((lt_resolved_iff hfirst).mpr h) hlater
      · obtain ⟨u, hu, hlt⟩ := resolve_later_iff.mpr (hfar h)
        refine ⟨u, ?_, hlt⟩
        rw [hfirst, ok_bind, if_pos (Int.not_lt.mp hlater), hu]

theorem weekdaysFrom_ok_iff {rounds : Nat} :
    (∃ u, weekdaysFrom z previous time rounds date = some (.ok u)) ↔
      ∃ n < rounds, weekday (date + (n : Nat)) < 5 ∧ Upcoming z previous (combine (date + (n : Nat)) time) ∧
        ∀ k < n, weekday (date + (k : Nat)) < 5 → Resolvable z (combine (date + (k : Nat)) time) := by
  induction rounds generalizing date with
  | zero => exact ⟨fun ⟨_, h⟩ => (nomatch h), fun ⟨n, hn, _⟩ => absurd hn (Nat.not_lt_zero n)⟩
  | succ rounds ih =>
    have hshift : ∀ n : Nat, date + 1 + n = date + (n + 1 : Nat) := by
      intro n
      omega
    have hlater : (∃ n < rounds, weekday (date + 1 + (n : Nat)) < 5 ∧
        Upcoming z previous (combine (date + 1 + (n : Nat)) time) ∧ ∀ k < n,
          weekday (date + 1 + (k : Nat)) < 5 → Resolvable z (combine (date + 1 + (k : Nat)) time)) →
        (weekday date < 5 → Resolvable z (combine date time)) →
        ∃ n < rounds + 1, weekday (date + (n : Nat)) < 5 ∧
          Upcoming z previous (combine (date + (n : Nat)) time) ∧ ∀ k < n,
            weekday (date + (k : Nat)) < 5 → Resolvable z (combine (date + (k : Nat)) time) := by
      rintro ⟨n, hn, hday, hupcoming, hall⟩ hfirst
      rw [hshift] at hday hupcoming
      refine ⟨n + 1, Nat.succ_lt_succ hn, hday, hupcoming, fun k hk => ?_⟩
      cases k with
      | zero => simpa using hfirst
      | succ k =>
        have h := hall k (Nat.lt_of_succ_lt_succ hk)
        rwa [hshift] at h
    have hearlier : ∀ n : Nat, n ≠ 0 → n < rounds + 1 → weekday (date + (n : Nat)) < 5 →
        Upcoming z previous (combine (date + (n : Nat)) time) →
        (∀ k < n, weekday (date + (k : Nat)) < 5 → Resolvable z (combine (date + (k : Nat)) time)) →
        ∃ n < rounds, weekday (date + 1 + (n : Nat)) < 5 ∧
          Upcoming z previous (combine (date + 1 + (n : Nat)) time) ∧ ∀ k < n,
            weekday (date + 1 + (k : Nat)) < 5 →
              Resolvable z (combine (date + 1 + (k : Nat)) time) := by
      intro n hne hn hday hupcoming hall
      obtain ⟨n, rfl⟩ := Nat.exists_eq_succ_of_ne_zero hne
      refine ⟨n, Nat.lt_of_succ_lt_succ hn, by rwa [hshift], by rwa [hshift], fun k hk => ?_⟩
      rw [hshift]
      exact hall (k + 1) (Nat.succ_lt_succ hk)
    rw [weekdaysFrom]
    by_cases hday : weekday date < 5
    · rw [if_pos hday]
      cases hresolved : resolveLocal z (combine date time) with
      | error e =>
        refine ⟨fun ⟨_, h⟩ => (nomatch h), fun ⟨n, _, _, hupcoming, hall⟩ => ?_⟩
        have hresolvable : Resolvable z (combine date time) := by
          cases n with
          | zero => exact resolvable_of_upcoming (by simpa using hupcoming)
          | succ n => simpa using hall 0 (Nat.succ_pos n) (by simpa using hday)
        obtain ⟨u, hu⟩ := resolveLocal_total_iff.mpr hresolvable
        rw [hresolved] at hu
        cases hu
      | ok u =>
        dsimp only
        by_cases hlt : previous < u
        · rw [if_pos hlt]
          refine ⟨fun _ => ⟨0, Nat.succ_pos _, by simpa using hday, ?_, fun k hk => ?_⟩,
            fun _ => ⟨u, rfl⟩⟩
          · simpa using (lt_resolved_iff hresolved).mp hlt
          · exact absurd hk (Nat.not_lt_zero k)
        · rw [if_neg hlt, ih]
          constructor
          · exact fun h => hlater h fun _ => resolveLocal_total_iff.mp ⟨u, hresolved⟩
          · rintro ⟨n, hn, hday', hupcoming, hall⟩
            refine hearlier n (fun hzero => hlt ?_) hn hday' hupcoming hall
            subst hzero
            exact (lt_resolved_iff hresolved).mpr (by simpa using hupcoming)
    · rw [if_neg hday, ih]
      constructor
      · exact fun h => hlater h fun h => absurd h hday
      · rintro ⟨n, hn, hday', hupcoming, hall⟩
        refine hearlier n (fun hzero => hday ?_) hn hday' hupcoming hall
        subst hzero
        simpa using hday'

/-- A loop that has not ended has resolved every weekday to an instant that is not later. -/
theorem weekdaysFrom_eq_none {rounds : Nat}
    (h : weekdaysFrom z previous time rounds date = none) {n : Nat} (hn : n < rounds)
    (hday : weekday (date + n) < 5) :
    Resolvable z (combine (date + n) time) ∧ ¬ Upcoming z previous (combine (date + n) time) := by
  induction rounds generalizing date n with
  | zero => exact absurd hn (Nat.not_lt_zero n)
  | succ rounds ih =>
    have hrest : ∀ k : Nat, n = k + 1 → weekdaysFrom z previous time rounds (date + 1) = none →
        Resolvable z (combine (date + n) time) ∧
          ¬ Upcoming z previous (combine (date + n) time) := by
      rintro k rfl hnone
      have hshift : date + (k + 1 : Nat) = date + 1 + k := by omega
      rw [hshift] at hday ⊢
      exact ih hnone (Nat.lt_of_succ_lt_succ hn) hday
    rw [weekdaysFrom] at h
    split at h
    · split at h
      · cases h
      rename_i u hresolved
      split at h
      · cases h
      rename_i hlt
      cases n with
      | zero =>
        simp only [Int.natCast_zero, Int.add_zero]
        exact ⟨resolveLocal_total_iff.mp ⟨u, hresolved⟩,
          fun hupcoming => hlt ((lt_resolved_iff hresolved).mpr hupcoming)⟩
      | succ n => exact hrest n rfl h
    · rename_i hweekend
      cases n with
      | zero => exact absurd (by simpa using hday) hweekend
      | succ n => exact hrest n rfl h

theorem exists_weekday (date : Int) : ∃ n : Nat, 3 ≤ n ∧ n < 6 ∧ weekday (date + n) < 5 := by
  simp only [weekday]
  by_cases h : (date + 3) % 7 < 5
  · exact ⟨3, by omega, by omega, h⟩
  by_cases h' : (date + 4) % 7 < 5
  · exact ⟨4, by omega, by omega, h'⟩
  · exact ⟨5, by omega, by omega, by omega⟩

theorem weekdaysFrom_isSome (htime : 0 ≤ time) :
    ∃ answer, weekdaysFrom z previous time 6 (dateOf (z.clock previous)) = some answer := by
  cases h : weekdaysFrom z previous time 6 (dateOf (z.clock previous)) with
  | some answer => exact ⟨answer, rfl⟩
  | none =>
    obtain ⟨n, hthree, hsix, hday⟩ := exists_weekday (dateOf (z.clock previous))
    obtain ⟨hresolvable, hnot⟩ := weekdaysFrom_eq_none h hsix hday
    exact absurd (upcoming_of_date hresolvable htime (by omega)) hnot

theorem weekdaysFrom_later {rounds : Nat}
    (h : weekdaysFrom z previous time rounds date = some (.ok u)) : previous < u := by
  induction rounds generalizing date with
  | zero => cases h
  | succ rounds ih =>
    rw [weekdaysFrom] at h
    split at h
    · split at h
      · cases h
      split at h
      · rename_i hlt
        cases h
        exact hlt
      · exact ih h
    · exact ih h

theorem nextWeekday_later_iff (htime : 0 ≤ time) :
    (∃ u, nextWeekday z previous time = .ok u ∧ previous < u) ↔
      ∃ n : Nat, weekday (dateOf (z.clock previous) + n) < 5 ∧
        Upcoming z previous (combine (dateOf (z.clock previous) + n) time) ∧ ∀ k < n,
          weekday (dateOf (z.clock previous) + (k : Nat)) < 5 →
            Resolvable z (combine (dateOf (z.clock previous) + (k : Nat)) time) := by
  have hloop : (∃ u, nextWeekday z previous time = .ok u ∧ previous < u) ↔
      ∃ u, weekdaysFrom z previous time 6 (dateOf (z.clock previous)) = some (.ok u) := by
    obtain ⟨answer, hanswer⟩ := @weekdaysFrom_isSome z previous time htime
    rw [nextWeekday, hanswer]
    constructor
    · rintro ⟨u, hu, _⟩
      exact ⟨u, congrArg some hu⟩
    · rintro ⟨u, hu⟩
      exact ⟨u, Option.some.inj hu, weekdaysFrom_later (hanswer.trans hu)⟩
  rw [hloop, weekdaysFrom_ok_iff]
  constructor
  · rintro ⟨n, _, h⟩
    exact ⟨n, h⟩
  · rintro ⟨n, hday, hupcoming, hall⟩
    by_cases hn : n < 6
    · exact ⟨n, hn, hday, hupcoming, hall⟩
    · obtain ⟨k, hthree, hsix, hday'⟩ := exists_weekday (dateOf (z.clock previous))
      exact ⟨k, hsix, hday', upcoming_of_date (hall k (by omega) hday') htime (by omega),
        fun j hj => hall j (by omega)⟩

/-- Only the day after can still be shown before an instant, by a fold of more than a day. -/
theorem nextInterval_later_iff {amount : Int} (hamount : 1 ≤ amount) :
    (∃ u, nextInterval z previous amount = .ok u ∧ previous < u) ↔
      Resolvable z (combine (dateOf (z.clock previous) + amount) (timeOf (z.clock previous))) ∧
        (amount = 1 →
          Upcoming z previous
            (combine (dateOf (z.clock previous) + amount) (timeOf (z.clock previous)))) := by
  rw [nextInterval, resolve_later_iff]
  refine ⟨fun h => ⟨resolvable_of_upcoming h, fun _ => h⟩, fun ⟨hresolvable, hone⟩ => ?_⟩
  by_cases h : amount = 1
  · exact hone h
  · refine upcoming_of_resolvable hresolvable ?_
    have hclock := combine_dateOf_timeOf (z.clock previous)
    simp only [combine, day] at hclock ⊢
    omega

end Kinds

/-- What the clock of the zone has to show for a schedule to move on from an instant. -/
def Forward (x : RecurrenceCodec) (rule : ScheduleRule) (z : Zone) (previous : Int) : Prop :=
  let date := dateOf (z.clock previous)
  match rule.triggerKind with
  | .once => False
  | .interval => ruleUnit x rule.triggerRule = "days" →
    ∀ amount, ruleAmount x rule.triggerRule = .ok amount →
      Resolvable z (combine (date + amount) (timeOf (z.clock previous))) ∧
        (amount = 1 → Upcoming z previous (combine (date + amount) (timeOf (z.clock previous))))
  | .daily => ∀ time, ruleTime x rule.triggerRule = .ok time →
      Resolvable z (combine date time) ∧
        (Upcoming z previous (combine date time) ∨ Upcoming z previous (combine (date + 1) time))
  | .weekdays => ∀ time, ruleTime x rule.triggerRule = .ok time →
      ∃ n : Nat, weekday (date + n) < 5 ∧ Upcoming z previous (combine (date + n) time) ∧
        ∀ k < n, weekday (date + (k : Nat)) < 5 → Resolvable z (combine (date + (k : Nat)) time)
  | .weekly => ∀ time weekday, ruleTime x rule.triggerRule = .ok time →
      ruleWeekday x rule.triggerRule = .ok weekday →
      Resolvable z (combine (date + (weekday - Clock.weekday date) % 7) time) ∧
        (Upcoming z previous (combine (date + (weekday - Clock.weekday date) % 7) time) ∨
          Resolvable z (combine (date + (weekday - Clock.weekday date) % 7 + 7) time))

section Schedule

theorem ruleTime_bounds {rule : Json} (h : ruleTime x rule = .ok time) :
    0 ≤ time ∧ time < day := by
  simp only [ruleTime] at h
  split at h
  · cases h
  rename_i t _
  split at h
  · cases h
  obtain rfl := Except.ok.inj h
  have hhour := t.hour.isLt
  have hminute := t.minute.isLt
  have hsecond := t.second.isLt
  have hmicrosecond := t.microsecond.isLt
  simp only [IsoTime.value, Clock.minute, Clock.second, day]
  omega

theorem ruleAmount_pos {rule : Json} {amount : Int} (h : ruleAmount x rule = .ok amount) :
    1 ≤ amount := by
  simp only [ruleAmount] at h
  obtain ⟨n, _, h⟩ := bind_ok h
  obtain ⟨hbounds, h⟩ := check_bind_ok_iff.mp h
  obtain rfl := pure_ok h
  omega

/-- An advance goes past the present by one instant. -/
theorem catchUp_bounds {next : ScheduleRule → Time → Except ScheduleError Time} {now : Time}
    {steps : Nat} {due : Time} {found : Time × Time × Nat} (hdue : due ≤ now)
    (h : catchUp next rule now steps due = .ok found) : found.1 ≤ now ∧ now < found.2.1 := by
  induction steps generalizing due found with
  | zero => cases h
  | succ steps ih =>
    simp only [catchUp] at h
    split at h
    · cases h
    split at h
    · rename_i hfollowing
      obtain ⟨rest, hrest, rfl⟩ := map_ok h
      obtain ⟨hlatest, hnext⟩ := ih hfollowing hrest
      exact ⟨hlatest, hnext⟩
    · rename_i hfollowing
      cases h
      exact ⟨hdue, Nat.lt_of_not_le hfollowing⟩

theorem advanceDueSchedule_bounds {next : ScheduleRule → Time → Except ScheduleError Time}
    {s : AssistantSchedule} {now : Time} {a : AssistantScheduleAdvance}
    (hrecurs : s.triggerKind ≠ .once) (h : advanceDueSchedule next s now = .ok (some a)) :
    a.latestDueAt ≤ now ∧ ∃ t, a.nextFireAt = some t ∧ now < t := by
  simp only [advanceDueSchedule, if_neg hrecurs] at h
  split at h
  · cases h
  rename_i hdue
  obtain ⟨found, hfound, he⟩ := map_ok h
  obtain rfl := Option.some.inj he
  obtain ⟨hlatest, hnext⟩ := catchUp_bounds (Nat.le_of_not_lt hdue) hfound
  exact ⟨hlatest, found.2.1, rfl, hnext⟩

/-- A schedule moves on from an instant just when the clock of its zone shows the local times that
its rule tries, and shows the one it settles on only later. An advance that ends stops at the
present. -/
theorem next_later_iff (hvalid : validateScheduleRule x rule = .ok ())
    (hzone : x.zoneInfo rule.timezone = some z) (hrecurs : rule.triggerKind ≠ .once) :
    ((∃ u, nextScheduleInstant x rule previous = .ok u ∧ previous < u) ↔
      Forward x rule z previous) ∧
    ∀ next s now a, s.triggerKind ≠ .once → advanceDueSchedule next s now = .ok (some a) →
      a.latestDueAt ≤ now ∧ ∃ t, a.nextFireAt = some t ∧ now < t := by
  refine ⟨?_, fun next s now a => advanceDueSchedule_bounds⟩
  have hz : zoneOf x rule.timezone = .ok z := by rw [zoneOf, hzone]
  simp only [validateScheduleRule, hz, ok_bind] at hvalid
  simp only [nextScheduleInstant, if_neg hrecurs, hz, ok_bind, Forward]
  cases hkind : rule.triggerKind with
  | once => exact absurd hkind hrecurs
  | interval =>
    rw [hkind] at hvalid
    obtain ⟨amount, hamount, hvalid⟩ := bind_ok hvalid
    have hunit : ruleUnit x rule.triggerRule = "hours" ∨ ruleUnit x rule.triggerRule = "days" := by
      by_contra hnone
      obtain ⟨hother, _⟩ := check_ok_iff.mp hvalid
      simp only [List.mem_cons, List.not_mem_nil, or_false, not_not] at hother
      exact hnone hother
    have hpos := ruleAmount_pos hamount
    simp only [hamount, ok_bind, if_true, Except.ok.injEq, forall_eq']
    obtain hunit | hunit := hunit
    · simp only [hunit, if_true]
      refine ⟨fun _ h => absurd h (by decide), fun _ => ⟨_, rfl, ?_⟩⟩
      simp only [minute]
      omega
    · simp only [hunit, if_true, forall_const, if_neg (show "days" ≠ "hours" by decide)]
      exact nextInterval_later_iff hpos
  | daily =>
    rw [hkind] at hvalid
    obtain ⟨time, htime, _⟩ := bind_ok hvalid
    simp only [htime, ok_bind, if_true, Except.ok.injEq, forall_eq', reduceCtorEq, if_false]
    exact nextDaily_later_iff
  | weekdays =>
    rw [hkind] at hvalid
    obtain ⟨time, htime, _⟩ := bind_ok hvalid
    simp only [htime, ok_bind, if_true, Except.ok.injEq, forall_eq', reduceCtorEq, if_false]
    exact nextWeekday_later_iff (ruleTime_bounds htime).1
  | weekly =>
    rw [hkind] at hvalid
    obtain ⟨time, htime, hvalid⟩ := bind_ok hvalid
    obtain ⟨weekday, hweekday, _⟩ := bind_ok hvalid
    simp only [htime, hweekday, ok_bind, Except.ok.injEq, reduceCtorEq, if_false]
    rw [nextWeekly_later_iff (ruleTime_bounds htime).1]
    refine ⟨fun h time' weekday' htime' hweekday' => ?_, fun h => h time weekday rfl rfl⟩
    subst htime' hweekday'
    exact h

end Schedule

section Days

/-- No gap has moved an instant from its time, and none moves the next one from its date. -/
structure Steady (z : Zone) (amount time u : Int) : Prop where
  unmoved : timeOf (z.clock u) = time
  sameDate : ∀ m, Settles z (combine (dateOf (z.clock u) + amount) time) m →
    dateOf m = dateOf (z.clock u) + amount

end Days

/-! A clock that is set back over midnight and one that is set forward at two. -/

section Clocks

def midnight : IsoTime where
  hour := ⟨0, Nat.zero_lt_succ 23⟩
  minute := ⟨0, Nat.zero_lt_succ 59⟩
  second := ⟨0, Nat.zero_lt_succ 59⟩
  microsecond := ⟨0, Nat.zero_lt_succ 999999⟩
  aware := false

def namedTime (text : String) : Option IsoTime :=
  if text = "00:00" then some midnight else none

def plainCodec (z : Zone) : RecurrenceCodec where
  zoneInfo _ := some z
  str
    | .str s => s
    | _ => ""
  int
    | .int n => some n
    | _ => none
  fromIsoFormat := namedTime

/-- The clock goes back from 00:01 to 23:01. -/
def setBack : Zone where
  before := -9000
  transitions := [(0, -9000), (441060, -12600)]
  increasing := by decide
  bounded := by decide

def midnightRule : ScheduleRule where
  triggerKind := .daily
  triggerRule := .obj [("local_time", .str "00:00")]
  timezone := "America/St_Johns"

theorem midnight_moves_on : Forward (plainCodec setBack) midnightRule setBack 345600000000 := by
  have hnext : nextScheduleInstant (plainCodec setBack) midnightRule 345600000000 =
      .ok 354600000000 := by decide +kernel
  have hiff := @next_later_iff setBack (plainCodec setBack) midnightRule 345600000000
    (by decide +kernel) rfl (by decide)
  exact hiff.1.mp ⟨354600000000, hnext, by decide⟩

/-- At half past eleven, shown for the second time, the next midnight is past. -/
theorem midnight_moves_back :
    validateScheduleRule (plainCodec setBack) midnightRule = .ok () ∧
      midnightRule.triggerKind ≠ .once ∧
      nextScheduleInstant (plainCodec setBack) midnightRule 442800000000 = .ok 441000000000 := by
  decide +kernel

end Clocks

end Fairy.Assistant
