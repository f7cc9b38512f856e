import Mathlib.Data.List.GetD
import Mathlib.Order.Basic

namespace Fairy.Lib.Clock

/-- Datetimes are counted in microseconds from the first day of the first year, a Monday. -/
def second : Int := 1000000

def minute : Int := 60000000

def day : Int := 86400000000

/-- `datetime.date()`. -/
def dateOf (l : Int) : Int := l / day

/-- `datetime.time()`. -/
def timeOf (l : Int) : Int := l % day

/-- `datetime.combine`. -/
def combine (date time : Int) : Int := date * day + time

def weekday (date : Int) : Int := date % 7

section Date

variable {l date time : Int}

theorem combine_dateOf_timeOf (l : Int) : combine (dateOf l) (timeOf l) = l :=
  Int.ediv_mul_add_emod l day

theorem dateOf_combine (h : 0 ≤ time) (hlt : time < day) : dateOf (combine date time) = date := by
  simp only [dateOf, combine, day] at *
  omega

end Date

/-- A time zone: the offset before the first transition, and each transition with the offset after
it. Instants and offsets are in seconds. -/
structure Zone where
  before : Int
  transitions : List (Int × Int)
  increasing : transitions.Pairwise fun a b => a.1 < b.1
  bounded : ∀ offset ∈ before :: transitions.map Prod.snd, -86400 < offset ∧ offset < 86400

/-- `bisect.bisect_right` between two positions; each round halves what is left. -/
def bisectRight (l : List Int) (x : Int) : Nat → Nat → Nat → Nat
  | 0, lo, _ => lo
  | rounds + 1, lo, hi =>
    if lo < hi then
      let mid := (lo + hi) / 2
      if x < l.getD mid 0 then bisectRight l x rounds lo mid
      else bisectRight l x rounds (mid + 1) hi
    else lo

def bisect (l : List Int) (x : Int) : Nat := bisectRight l x l.length 0 l.length

namespace Zone

variable (z : Zone)

def instants : List Int := z.transitions.map Prod.fst

def offsets : List Int := z.transitions.map Prod.snd

/-- The offset before the latest transition and the one after it, in the place of two `_ttinfo`. -/
def around (timestamp : Int) : Int × Int :=
  let idx := bisect z.instants timestamp
  if 1 < z.instants.length ∧ z.instants.getD 1 0 ≤ timestamp then
    (z.offsets.getD (idx - 2) z.before, z.offsets.getD (idx - 1) z.before)
  else if z.instants.getLastD 0 < timestamp then
    (z.offsets.getLastD z.before, z.offsets.getLastD z.before)
  else (z.before, z.offsets.headD z.before)

/-- `ZoneInfo.fromutc`: the local time of an instant, with its `fold`. -/
def fromUtc (u : Int) : Int × Bool :=
  let timestamp := u / second
  if z.instants = [] ∨ timestamp < z.instants.headD 0 then (u + z.before * second, false)
  else
    let shift := (z.around timestamp).1 - (z.around timestamp).2
    let since := timestamp - z.instants.getD (bisect z.instants timestamp - 1) 0
    (u + (z.around timestamp).2 * second, since < shift)

/-- `_trans_local`: the transitions in local time, read with the `fold` of a local time. -/
def localTransitions (fold : Bool) : List Int :=
  List.zipWith (fun previous t => t.1 + if fold then min previous t.2 else max previous t.2)
    (z.before :: z.offsets) z.transitions

/-- `ZoneInfo.utcoffset` of a local time. -/
def utcoffset (l : Int) (fold : Bool) : Int :=
  let timestamp := l / second
  let lt := z.localTransitions fold
  if lt ≠ [] ∧ timestamp < lt.headD 0 then z.before
  else if lt = [] ∨ lt.getLastD 0 < timestamp then z.offsets.getLastD z.before
  else z.offsets.getD (bisect lt timestamp - 1) z.before

/-- What the clock of the zone shows at an instant. -/
def clock (u : Int) : Int := (z.fromUtc u).1

/-- The instants that a local time is read as, with either `fold`, and that it is shown at. -/
def readings (l : Int) : List Int :=
  [false, true].filterMap fun fold =>
    let u := l - z.utcoffset l fold * second
    if z.fromUtc u = (l, fold) then some u else none

/-- The clock shows a local time. -/
def Shows (l : Int) : Prop := z.readings l ≠ []

instance (l : Int) : Decidable (z.Shows l) := inferInstanceAs (Decidable (_ ≠ _))

section Readings

variable {z} {u l : Int}

theorem mem_offsets {offset : Int} (h : offset = z.before ∨ offset ∈ z.offsets) :
    -86400 < offset ∧ offset < 86400 :=
  z.bounded offset (List.mem_cons.mpr h)

theorem getD_offsets (i : Nat) :
    z.offsets.getD i z.before = z.before ∨ z.offsets.getD i z.before ∈ z.offsets := by
  by_cases h : i < z.offsets.length
  · rw [List.getD_eq_getElem _ _ h]
    exact .inr (List.getElem_mem h)
  · rw [List.getD_eq_default _ _ (by omega)]
    exact .inl rfl

theorem around_bounded (timestamp : Int) :
    -86400 < (z.around timestamp).2 ∧ (z.around timestamp).2 < 86400 := by
  apply mem_offsets
  simp only [around]
  split
  · exact getD_offsets _
  split
  · cases h : z.offsets with
    | nil => exact .inl rfl
    | cons a l => exact .inr (by simp [List.getLastD])
  · cases h : z.offsets with
    | nil => exact .inl rfl
    | cons a l => exact .inr List.mem_cons_self

/-- The clock is less than a day away from the time in UTC. -/
theorem clock_bounds (u : Int) : u - day < z.clock u ∧ z.clock u < u + day := by
  simp only [clock, fromUtc]
  split
  · have := z.bounded z.before List.mem_cons_self
    simp only [second, day]
    omega
  · have hbounded := z.around_bounded (u / second)
    generalize z.around (u / second) = offsets at hbounded
    simp only [second, day]
    omega

theorem clock_reading (h : u ∈ z.readings l) : z.clock u = l := by
  obtain ⟨fold, _, hu⟩ := List.mem_filterMap.mp h
  dsimp only at hu
  split at hu
  · rename_i hshown
    obtain rfl := Option.some.inj hu
    rw [clock, hshown]
  · cases hu

end Readings

end Zone

end Fairy.Lib.Clock
