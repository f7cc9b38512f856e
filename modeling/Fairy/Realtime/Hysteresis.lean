import Fairy.Realtime.ResourceGovernor

namespace Fairy.Realtime

open Fairy.Lib

/-- A sample that counts towards leaving a level. -/
structure Calm (level : RealtimeResourceLevel) (sample : RealtimeResourceSample) : Prop where
  below : rank (classify sample) < rank level
  safe : safeToRecover level sample = true
  target : sample.targetChanged = false

theorem rank_lt_of_ne {a b : RealtimeResourceLevel} (hne : a ≠ b) (hle : ¬ rank a > rank b) :
    rank a < rank b := by
  cases a <;> cases b <;> simp_all [rank]

theorem rank_deviceRemoved {a : RealtimeResourceLevel} (hne : a ≠ .deviceRemoved) :
    rank a < rank .deviceRemoved := by
  cases a <;> simp_all [rank]

namespace RealtimeResourceGovernor

variable {g g' : RealtimeResourceGovernor} {sample : RealtimeResourceSample} {nowMs : Nat}

/-- What an accepted sample does to the governor. -/
inductive Effect (sample : RealtimeResourceSample) (nowMs : Nat)
    (g g' : RealtimeResourceGovernor) : Prop
  | removed (before : g.level = .deviceRemoved) (level : g'.level = g.level)
      (entered : g'.enteredAtMs = g.enteredAtMs)
  | kept (level : g'.level = g.level) (entered : g'.enteredAtMs = g.enteredAtMs)
      (counted : g'.recoverySamples = 0 ∨
        Calm g.level sample ∧ g'.recoverySamples ≤ g.recoverySamples + 1)
  | raised (before : g.level ≠ .deviceRemoved) (level : g'.level = classify sample)
      (entered : g'.enteredAtMs = nowMs) (restarted : g'.recoverySamples = 0)
      (higher : rank g.level < rank (classify sample))
      (allowed : classify sample ∈ [RealtimeResourceLevel.critical, .deviceRemoved] ∨
        minEscalationDwellMs ≤ nowMs - g.enteredAtMs)
  | lowered (before : g.level ≠ .deviceRemoved) (level : g'.level = classify sample)
      (entered : g'.enteredAtMs = nowMs) (restarted : g'.recoverySamples = 0)
      (calm : Calm g.level sample) (enough : recoverySampleCount ≤ g.recoverySamples + 1)
      (dwelt : minRecoveryDwellMs ≤ nowMs - g.enteredAtMs)

theorem saturatingAdd8_le (a b : Nat) : saturatingAdd8 a b ≤ a + b := Nat.min_le_left _ _

theorem consider_effect (g : RealtimeResourceGovernor) (sample : RealtimeResourceSample)
    (nowMs : Nat) : Effect sample nowMs g (g.consider sample nowMs).2 := by
  simp only [consider]
  split
  · rename_i hbefore
    exact .removed hbefore rfl rfl
  rename_i hbefore
  split
  · rename_i hgone
    refine .raised hbefore rfl rfl rfl ?_ (.inl ?_)
    · rw [hgone]
      exact rank_deviceRemoved hbefore
    · rw [hgone]
      simp
  split
  · rename_i hhigher
    split
    · rename_i hallowed
      refine .raised hbefore rfl rfl rfl hhigher ?_
      obtain hcritical | hdwelt := hallowed
      · rw [hcritical]
        exact .inl (by simp)
      · exact .inr hdwelt
    · exact .kept rfl rfl (.inl rfl)
  rename_i hhigher
  split
  · exact .kept rfl rfl (.inl rfl)
  rename_i hsame
  split
  · exact .kept rfl rfl (.inl rfl)
  rename_i hunsafe
  obtain ⟨htarget, hsafe⟩ := not_or.mp hunsafe
  have hcalm : Calm g.level sample :=
    ⟨rank_lt_of_ne hsame hhigher, by simpa using hsafe, by simpa using htarget⟩
  have hcount := saturatingAdd8_le g.recoverySamples 1
  split
  · exact .kept rfl rfl (.inr ⟨hcalm, hcount⟩)
  · rename_i hready
    obtain ⟨henough, hdwelt⟩ := not_or.mp hready
    refine .lowered hbefore rfl rfl rfl hcalm ?_ (Nat.not_lt.mp hdwelt)
    exact Nat.le_trans (Nat.not_lt.mp henough) hcount

theorem consider_ne_error (e : RealtimeResourceGovernorError) :
    (g.consider sample nowMs).1 ≠ .error e := by
  simp only [consider]
  repeat' split
  all_goals exact nofun

/-- A sample that is turned down changes nothing. -/
theorem observe_error {e : RealtimeResourceGovernorError}
    (h : (g.observe sample nowMs).1 = .error e) : (g.observe sample nowMs).2 = g := by
  simp only [observe] at h ⊢
  split
  · rfl
  rename_i hvalid
  rw [if_neg hvalid] at h
  split
  · rfl
  rename_i hclock
  rw [if_neg hclock] at h
  exact absurd h (consider_ne_error e)

theorem observe_effect {policy : Option RealtimeResourcePolicy}
    (h : (g.observe sample nowMs).1 = .ok policy) :
    Effect sample nowMs g (g.observe sample nowMs).2 := by
  simp only [observe] at h ⊢
  split
  · rename_i hinvalid
    rw [if_pos hinvalid] at h
    cases h
  rename_i hvalid
  rw [if_neg hvalid] at h
  split
  · rename_i hclock
    rw [if_pos hclock] at h
    cases h
  obtain hremoved | hkept | hraised | hlowered := consider_effect { g with
    lastSampleAtMs := some nowMs
    sampleCount := saturatingAdd64 g.sampleCount 1 } sample nowMs
  · exact .removed hremoved ‹_› ‹_›
  · exact .kept hkept ‹_› ‹_›
  · exact .raised hraised ‹_› ‹_› ‹_› ‹_› ‹_›
  · exact .lowered hlowered ‹_› ‹_› ‹_› ‹_› ‹_› ‹_›

end RealtimeResourceGovernor

/-- A sample that is accepted, with the level before it and after it. -/
structure Observed where
  sample : RealtimeResourceSample
  nowMs : Nat
  before : RealtimeResourceLevel
  after : RealtimeResourceLevel
  deriving DecidableEq

def currentLevel (log : List Observed) : RealtimeResourceLevel :=
  log.foldl (fun _ e => e.after) .normal

/-- The time of the last change of level. -/
def changedAt (startMs : Nat) (log : List Observed) : Nat :=
  log.foldl (fun last e => if e.before = e.after then last else e.nowMs) startMs

/-- The five last samples of a record. -/
def LastFive (P : RealtimeResourceSample → Prop) (log : List Observed) : Prop :=
  ∃ l₁ l₂, log = l₁ ++ l₂ ∧ l₂.length = recoverySampleCount ∧ ∀ d ∈ l₂, P d.sample

/-- What a change of level takes. -/
structure Governed (startMs : Nat) (l : List Observed) (e : Observed) : Prop where
  continued : e.before = currentLevel l
  removed : e.before = .deviceRemoved → e.after = .deviceRemoved
  raised : rank e.before < rank e.after → e.nowMs - changedAt startMs l < minEscalationDwellMs →
    e.after ∈ [RealtimeResourceLevel.critical, .deviceRemoved]
  dwelt : rank e.after < rank e.before → minRecoveryDwellMs ≤ e.nowMs - changedAt startMs l
  classified : rank e.after < rank e.before → classify e.sample = e.after
  calm : rank e.after < rank e.before → LastFive (Calm e.before) (l ++ [e])

structure GovernorRun where
  governor : RealtimeResourceGovernor
  log : List Observed
  deriving DecidableEq

namespace GovernorRun

open RealtimeResourceGovernor

variable {r r' : GovernorRun} {startMs nowMs : Nat} {sample : RealtimeResourceSample}

def start (startMs : Nat) : GovernorRun := ⟨.new startMs, []⟩

def after (r : GovernorRun) (call : RealtimeResourceSample × Nat) : GovernorRun where
  governor := (r.governor.observe call.1 call.2).2
  log := match (r.governor.observe call.1 call.2).1 with
    | .error _ => r.log
    | .ok _ => r.log ++
      [⟨call.1, call.2, r.governor.level, (r.governor.observe call.1 call.2).2.level⟩]

def Step (r : GovernorRun) (call : RealtimeResourceSample × Nat) (r' : GovernorRun) : Prop :=
  r' = r.after call

/-- The counter of the governor counts calm samples at the end of the record. -/
structure Sound (startMs : Nat) (r : GovernorRun) : Prop where
  justified : Justified (Governed startMs) r.log
  level : currentLevel r.log = r.governor.level
  entered : changedAt startMs r.log = r.governor.enteredAtMs
  counted : r.governor.level ≠ .deviceRemoved → ∃ l₁ l₂, r.log = l₁ ++ l₂ ∧
    r.governor.recoverySamples ≤ l₂.length ∧ ∀ d ∈ l₂, Calm r.governor.level d.sample

theorem sound_start : (start startMs).Sound startMs where
  justified := .nil
  level := rfl
  entered := rfl
  counted _ := ⟨[], [], rfl, Nat.le_refl _, by simp⟩

theorem currentLevel_append (l : List Observed) (e : Observed) :
    currentLevel (l ++ [e]) = e.after := by
  simp only [currentLevel, List.foldl_append, List.foldl_cons, List.foldl_nil]

theorem changedAt_append (l : List Observed) (e : Observed) :
    changedAt startMs (l ++ [e]) =
      if e.before = e.after then changedAt startMs l else e.nowMs := by
  simp only [changedAt, List.foldl_append, List.foldl_cons, List.foldl_nil]

/-- Five of the calm samples at the end of a record. -/
theorem lastFive_of_calm {P : RealtimeResourceSample → Prop} {l₁ l₂ : List Observed}
    (hlength : recoverySampleCount ≤ l₂.length) (hcalm : ∀ d ∈ l₂, P d.sample) :
    LastFive P (l₁ ++ l₂) := by
  refine ⟨l₁ ++ l₂.take (l₂.length - recoverySampleCount),
    l₂.drop (l₂.length - recoverySampleCount), ?_, ?_, fun d hd => ?_⟩
  · rw [List.append_assoc, List.take_append_drop]
  · rw [List.length_drop]
    omega
  · exact hcalm d (List.mem_of_mem_drop hd)

theorem Sound.observed {policy : Option RealtimeResourcePolicy} (hs : r.Sound startMs)
    (hok : (r.governor.observe sample nowMs).1 = .ok policy) :
    (r.after (sample, nowMs)).Sound startMs := by
  obtain ⟨g', hg'⟩ : ∃ g', g' = (r.governor.observe sample nowMs).2 := ⟨_, rfl⟩
  have hnew : (r.after (sample, nowMs)).governor = g' := hg'.symm
  have hlog : (r.after (sample, nowMs)).log =
      r.log ++ [⟨sample, nowMs, r.governor.level, g'.level⟩] := by
    simp only [after, hok, hg']
  have heffect := observe_effect hok
  rw [← hg'] at heffect
  obtain ⟨hjustified, hlevel, hentered, hcounted⟩ := hs
  have hlevel' : currentLevel (r.after (sample, nowMs)).log =
      (r.after (sample, nowMs)).governor.level := by
    rw [hlog, currentLevel_append, hnew]
  cases heffect with
  | removed hbefore hsame hkept =>
    refine ⟨?_, hlevel', ?_, ?_⟩
    · rw [hlog]
      apply hjustified.snoc
      refine ⟨hlevel.symm, fun _ => hsame.trans hbefore, fun h => ?_, fun h => ?_, fun h => ?_,
        fun h => ?_⟩ <;> simp only [hsame, Nat.lt_irrefl] at h
    · rw [hlog, changedAt_append, hnew, if_pos hsame.symm, hentered, hkept]
    · rw [hnew, hsame]
      exact fun h => absurd hbefore h
  | kept hsame hkept hcount =>
    refine ⟨?_, hlevel', ?_, ?_⟩
    · rw [hlog]
      apply hjustified.snoc
      refine ⟨hlevel.symm, fun h => hsame.trans h, fun h => ?_, fun h => ?_, fun h => ?_,
        fun h => ?_⟩ <;> simp only [hsame, Nat.lt_irrefl] at h
    · rw [hlog, changedAt_append, hnew, if_pos hsame.symm, hentered, hkept]
    · rw [hlog, hnew, hsame]
      intro hpresent
      obtain hzero | ⟨hcalm, hle⟩ := hcount
      · exact ⟨_, [], (List.append_nil _).symm, by rw [hzero]; exact Nat.zero_le _, by simp⟩
      · obtain ⟨l₁, l₂, hsplit, hlength, hall⟩ := hcounted hpresent
        refine ⟨l₁, l₂ ++ [_], by rw [hsplit, List.append_assoc], ?_, ?_⟩
        · rw [List.length_append, List.length_singleton]
          omega
        · intro d hd
          obtain hd | hd := List.mem_append.mp hd
          · exact hall d hd
          · rw [List.mem_singleton.mp hd]
            exact hcalm
  | raised hbefore hclass hkept hzero hhigher hallowed =>
    have hne : r.governor.level ≠ g'.level := by
      rw [hclass]
      exact fun he => Nat.lt_irrefl _ (he ▸ hhigher)
    have hup : ¬ rank g'.level < rank r.governor.level := by
      rw [hclass]
      omega
    refine ⟨?_, hlevel', ?_, ?_⟩
    · rw [hlog]
      apply hjustified.snoc
      refine ⟨hlevel.symm, fun h => absurd h hbefore, fun _ hsoon => ?_, fun h => absurd h hup,
        fun h => absurd h hup, fun h => absurd h hup⟩
      rw [hentered] at hsoon
      obtain hurgent | hdwelt := hallowed
      · exact hclass ▸ hurgent
      · exact absurd hsoon (Nat.not_lt.mpr hdwelt)
    · rw [hlog, changedAt_append, hnew, if_neg hne, hkept]
    · rw [hlog, hnew]
      exact fun _ => ⟨_, [], (List.append_nil _).symm, by rw [hzero]; exact Nat.zero_le _, by simp⟩
  | lowered hbefore hclass hkept hzero hcalm henough hdwelt =>
    have hdown : rank g'.level < rank r.governor.level := by
      rw [hclass]
      exact hcalm.below
    have hne : r.governor.level ≠ g'.level := fun he => Nat.lt_irrefl _ (he ▸ hdown)
    refine ⟨?_, hlevel', ?_, ?_⟩
    · rw [hlog]
      apply hjustified.snoc
      refine ⟨hlevel.symm, fun h => absurd h hbefore, fun h => absurd h (Nat.not_lt_of_gt hdown),
        fun _ => ?_, fun _ => hclass.symm, fun _ => ?_⟩
      · rw [hentered]
        exact hdwelt
      · obtain ⟨l₁, l₂, hsplit, hlength, hall⟩ := hcounted hbefore
        rw [hsplit, List.append_assoc]
        apply lastFive_of_calm
        · rw [List.length_append, List.length_singleton]
          omega
        · intro d hd
          obtain hd | hd := List.mem_append.mp hd
          · exact hall d hd
          · rw [List.mem_singleton.mp hd]
            exact hcalm
    · rw [hlog, changedAt_append, hnew, if_neg hne, hkept]
    · rw [hlog, hnew]
      exact fun _ => ⟨_, [], (List.append_nil _).symm, by rw [hzero]; exact Nat.zero_le _, by simp⟩

theorem after_error {e : RealtimeResourceGovernorError}
    (h : (r.governor.observe sample nowMs).1 = .error e) : r.after (sample, nowMs) = r := by
  simp only [after, h, observe_error h]

theorem Sound.step {call : RealtimeResourceSample × Nat} (hs : r.Sound startMs)
    (h : Step r call r') : r'.Sound startMs := by
  rw [show r' = r.after call from h]
  cases hresult : (r.governor.observe call.1 call.2).1 with
  | error e => rwa [show r.after call = r from after_error hresult]
  | ok policy => exact hs.observed hresult

/-- Every change of level of every run is governed, and a sample that is turned down changes
nothing. -/
theorem levels_governed (startMs : Nat) {r : GovernorRun}
    (hrun : Run Step (fun _ _ => True) (start startMs) r) :
    Justified (Governed startMs) r.log ∧ currentLevel r.log = r.governor.level ∧
      ∀ sample nowMs e, (r.governor.observe sample nowMs).1 = .error e →
        (r.governor.observe sample nowMs).2 = r.governor := by
  have hsound : r.Sound startMs :=
    hrun.invariant (fun _ _ _ hs _ h => hs.step h) sound_start
  exact ⟨hsound.justified, hsound.level, fun _ _ _ => observe_error⟩

/-- A healthy sample with a memory use of `percent`. -/
def memorySample (percent : UInt64) : RealtimeResourceSample :=
  ⟨some 100, some percent, 0, 10, 0, false, true, false⟩

/-- A recovery from critical use; the first four samples are of high use. -/
def recovery : List (RealtimeResourceSample × Nat) :=
  [(memorySample 96, 1), (memorySample 91, 5000), (memorySample 91, 6000),
    (memorySample 91, 7000), (memorySample 91, 8000), (memorySample 70, 9000)]

theorem recovery_run :
    Run Step (fun _ _ => True) (start 0) (recovery.foldl after (start 0)) :=
  Run.foldl (by simp [Along, recovery])

theorem recovery_log : (recovery.foldl after (start 0)).log =
    [⟨memorySample 96, 1, .normal, .critical⟩, ⟨memorySample 91, 5000, .critical, .critical⟩,
      ⟨memorySample 91, 6000, .critical, .critical⟩, ⟨memorySample 91, 7000, .critical, .critical⟩,
      ⟨memorySample 91, 8000, .critical, .critical⟩,
      ⟨memorySample 70, 9000, .critical, .normal⟩] := by decide +kernel

theorem levels_governed_recovery :
    let r := recovery.foldl after (start 0)
    r.governor.level = .normal ∧ Justified (Governed 0) r.log := by
  have hrun : Run Step (fun _ _ => True) (start 0) (recovery.foldl after (start 0)) :=
    recovery_run
  obtain ⟨hjustified, hlevel, _⟩ := levels_governed 0 hrun
  rw [recovery_log] at hlevel
  exact ⟨hlevel.symm, hjustified⟩

/-- A level may fall further than four of the five samples before allow. -/
theorem levels_fall_on_last_sample :
    ¬ ∀ startMs r, Run Step (fun _ _ => True) (start startMs) r →
      ∀ l e l', r.log = l ++ e :: l' → rank e.after < rank e.before →
        LastFive (fun sample => rank (classify sample) ≤ rank e.after) (l ++ [e]) := by
  intro h
  have hlast : (recovery.foldl after (start 0)).log = (recovery.foldl after (start 0)).log.take 5 ++
      ⟨memorySample 70, 9000, .critical, .normal⟩ :: [] := by
    rw [recovery_log]
    rfl
  obtain ⟨l₁, l₂, hsplit, hlength, hall⟩ := h 0 _ recovery_run _ _ _ hlast (by decide)
  rw [← hlast, recovery_log] at hsplit
  have hfirst : l₁.length = 1 := by
    have htotal := congrArg List.length hsplit
    simp only [List.length_append, List.length_cons, List.length_nil, hlength,
      recoverySampleCount] at htotal
    omega
  have hmem : (⟨memorySample 91, 5000, .critical, .critical⟩ : Observed) ∈ l₂ := by
    have hdrop := congrArg (List.drop 1) hsplit
    rw [← hfirst, List.drop_left] at hdrop
    rw [← hdrop, hfirst]
    simp
  exact absurd (hall _ hmem) (by decide +kernel)

end GovernorRun

end Fairy.Realtime
