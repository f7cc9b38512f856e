import Fairy.Workspace.Purge

namespace Fairy.Workspace.Purge

open Fairy.Lib
open Purge.World

variable {side : Provisioner} {w : World} {s : Site}

/-- Either nothing is staged or all that is left is. -/
def Settled (s : Site) : Prop := s.staging = none ∨ ∀ label, s.roots label = none

theorem Settled.size (h : Settled s) : s.workspaceSize = s.remaining := by
  obtain ⟨roots, staging⟩ := s
  obtain h | h := h
  · obtain rfl : staging = none := h
    simp [Site.workspaceSize, Site.remaining]
  · have hroots : bothBytes roots = 0 := by
      have h : ∀ label, roots label = none := h
      simp [bothBytes, treeBytes, h]
    cases staging <;> simp [Site.workspaceSize, Site.remaining, hroots]

/-- How the directories stand in each phase. -/
def PhaseOk (s : Site) : Phase → Prop
  | .idle => Settled s
  | .staging _ sources => s.staging = none ∧ sources ≠ [] ∧ sources.Nodup ∧
      ∀ label, label ∈ sources ↔ s.roots label ≠ none
  | .moving _ todo _ => s.staging ≠ none ∧ todo.Nodup ∧
      ∀ label, label ∈ todo ↔ s.roots label ≠ none
  | .undoing _ | .clearing => s.staging ≠ none ∧ ∃ label, s.roots label ≠ none
  | .removing _ => s.staging ≠ none ∧ ∀ label, s.roots label = none

structure Sound (w : World) : Prop where
  phaseOk : PhaseOk w.site w.phase
  busy : w.phase ≠ .idle → w.outcome = none
  returned : ∀ released, w.outcome = some (.returned released) →
    (∀ label, w.site.roots label = none) ∧ w.site.staging = none

theorem sound_busy {phase : Phase} (h : PhaseOk s phase) : Sound ⟨s, phase, none⟩ :=
  ⟨h, fun _ => rfl, nofun⟩

theorem sound_raised (h : Settled s) : Sound ⟨s, .idle, some .raised⟩ :=
  ⟨h, fun hidle => absurd rfl hidle, nofun⟩

theorem Sound.crashSafe (h : Sound w) : CrashSafe w where
  complete := h.returned
  counted hidle := by
    have hsettled := h.phaseOk
    rw [hidle] at hsettled
    exact hsettled.size

theorem sound_initial (roots : Label → Option SizedTree) : Sound (initial roots) :=
  ⟨.inl rfl, fun _ => rfl, nofun⟩

theorem mem_sources {label : Label} : label ∈ sources s ↔ s.roots label ≠ none := by
  cases label <;> simp [sources, List.mem_filter, Option.isSome_iff_ne_none]

theorem nodup_sources (s : Site) : (sources s).Nodup := by
  have hlabels : [Label.project, .scratch].Nodup := by simp
  exact hlabels.filter _

theorem sound_begin (h : Settled w.site) : Sound w.begin := by
  obtain ⟨⟨roots, staging⟩, phase, outcome⟩ := w
  cases staging with
  | some trees =>
    have hroots : ∀ label, roots label = none := h.resolve_left nofun
    exact sound_busy ⟨nofun, hroots⟩
  | none =>
    simp only [World.begin]
    split
    · rename_i hnone
      have hroots : ∀ label, roots label = none := by
        intro label
        have hmem : label ∉ sources ⟨roots, none⟩ := by simp [hnone]
        simpa [mem_sources] using hmem
      exact ⟨.inl rfl, fun hidle => absurd rfl hidle, fun released _ => ⟨hroots, rfl⟩⟩
    · rename_i hsome
      exact sound_busy ⟨rfl, hsome, nodup_sources _, fun _ => mem_sources⟩

theorem phaseOk_move {released : Nat} {label : Label} {todo moved : List Label}
    (h : PhaseOk s (.moving released (label :: todo) moved)) :
    PhaseOk (move s label) (.moving released todo (label :: moved)) := by
  obtain ⟨hstaging, hnodup, hmem⟩ := h
  obtain ⟨hlabel, hnodup⟩ := List.nodup_cons.mp hnodup
  refine ⟨by simpa [move] using hstaging, hnodup, fun l => ?_⟩
  simp only [move]
  by_cases heq : l = label
  · subst heq
    simp [hlabel]
  · rw [Function.update_of_ne heq, ← hmem, List.mem_cons]
    simp [heq]

/-- A root that is there stays where another one is renamed back. -/
theorem phaseOk_moveBack {label : Label} (hstaging : s.staging ≠ none)
    (hroot : ∃ l, s.roots l ≠ none) :
    (moveBack s label).staging ≠ none ∧ ∃ l, (moveBack s label).roots l ≠ none := by
  obtain ⟨l, hl⟩ := hroot
  obtain ⟨roots, staging⟩ := s
  cases staging with
  | none => exact absurd rfl hstaging
  | some trees =>
    simp only [moveBack]
    split
    · rename_i hmoves
      have hne : l ≠ label := fun heq => hl (heq ▸ hmoves.2)
      exact ⟨nofun, l, by simpa only [Function.update_of_ne hne] using hl⟩
    · exact ⟨nofun, l, hl⟩

theorem Sound.step (h : Sound w) : Sound w.step := by
  obtain ⟨s, phase, outcome⟩ := w
  have hphase : PhaseOk s phase := h.phaseOk
  cases phase with
  | idle => exact h
  | clearing => exact h
  | removing released => exact h
  | staging released sources =>
    obtain rfl : outcome = none := h.busy nofun
    obtain ⟨_, _, hnodup, hmem⟩ := hphase
    exact sound_busy ⟨nofun, hnodup, hmem⟩
  | moving released todo moved =>
    obtain rfl : outcome = none := h.busy nofun
    cases todo with
    | nil =>
      obtain ⟨hstaging, _, hmem⟩ := hphase
      exact sound_busy ⟨hstaging, fun label => by simpa using (hmem label).not⟩
    | cons label todo => exact sound_busy (phaseOk_move hphase)
  | undoing moved =>
    obtain rfl : outcome = none := h.busy nofun
    obtain ⟨hstaging, hroot⟩ := hphase
    cases moved with
    | nil => exact sound_busy ⟨hstaging, hroot⟩
    | cons label moved => exact sound_busy (phaseOk_moveBack hstaging hroot)

/-- A failure is sound unless it strands the staging directory. -/
theorem Sound.fail (h : Sound w) (hs : ¬ Strands side w .fail) : Sound (w.fail side) := by
  obtain ⟨s, phase, outcome⟩ := w
  have hphase : PhaseOk s phase := h.phaseOk
  cases phase with
  | idle => exact h
  | clearing => exact absurd trivial hs
  | removing released => exact sound_raised (.inr hphase.2)
  | staging released sources => exact sound_raised (.inl hphase.1)
  | moving released todo moved =>
    obtain rfl : outcome = none := h.busy nofun
    cases todo with
    | nil => exact h
    | cons label todo =>
      obtain ⟨hstaging, _, hmem⟩ := hphase
      exact sound_busy ⟨hstaging, label, (hmem label).mp List.mem_cons_self⟩
  | undoing moved =>
    obtain rfl : outcome = none := h.busy nofun
    cases moved with
    | nil => exact h
    | cons label moved =>
      cases side with
      | filesystem => exact absurd rfl hs
      | localWorker => exact sound_busy hphase

theorem Sound.delete (h : Sound w) (item : Item) : Sound (w.delete item) := by
  obtain ⟨⟨roots, staging⟩, phase, outcome⟩ := w
  have hphase : PhaseOk ⟨roots, staging⟩ phase := h.phaseOk
  cases staging with
  | none => exact h
  | some trees =>
    cases phase with
    | idle => exact h
    | staging released sources => exact h
    | moving released todo moved => exact h
    | undoing moved => exact h
    | clearing =>
      obtain rfl : outcome = none := h.busy nofun
      simp only [World.delete]
      split
      · exact sound_busy ⟨nofun, hphase.2⟩
      · exact sound_raised (.inl rfl)
    | removing released =>
      obtain rfl : outcome = none := h.busy nofun
      simp only [World.delete]
      split
      · exact sound_busy ⟨nofun, hphase.2⟩
      · exact ⟨.inl rfl, fun hidle => absurd rfl hidle, fun _ _ => ⟨hphase.2, rfl⟩⟩

theorem Sound.crash (h : Sound w) (hs : ¬ Strands side w .crash) :
    Sound (w.after side .crash) := by
  have hsettled : Settled w.site := by
    obtain ⟨s, phase, outcome⟩ := w
    have hphase : PhaseOk s phase := h.phaseOk
    cases phase with
    | idle => exact hphase
    | clearing => exact absurd trivial hs
    | undoing moved => exact absurd trivial hs
    | removing released => exact .inr hphase.2
    | staging released sources => exact .inl hphase.1
    | moving released todo moved =>
      cases todo with
      | nil => exact .inr fun label => by simpa using (hphase.2.2 label).not
      | cons label todo => exact absurd trivial hs
  exact ⟨hsettled, fun _ => rfl, nofun⟩

theorem Sound.after (h : Sound w) {act : Act} (hs : ¬ Strands side w act) :
    Sound (w.after side act) := by
  cases act with
  | call =>
    simp only [World.after]
    split
    · rename_i hidle
      have hsettled := h.phaseOk
      rw [hidle] at hsettled
      exact sound_begin hsettled
    · exact h
  | step => exact h.step
  | fail => exact h.fail hs
  | delete item => exact h.delete item
  | crash => exact h.crash hs

variable (side) in
def PurgeStep (w : World) (act : Act) (w' : World) : Prop := w' = w.after side act

variable (side) in
/-- Runs in which nothing strands the staging directory. -/
abbrev PurgeRun : World → World → Prop := Run (PurgeStep side) fun w act => ¬ Strands side w act

theorem Sound.run (hw : Sound w) {w' : World} (h : PurgeRun side w w') : Sound w' := by
  refine h.invariant ?_ hw
  rintro w act _ hw hs rfl
  exact hw.after hs

/-- The removal of an entry can go on until the entry is gone. -/
theorem removing_entry {roots : Label → Option SizedTree} {trees : Label → Option SizedTree}
    (label : Label) (released : Nat) :
    PurgeRun side ⟨⟨roots, some trees⟩, .removing released, none⟩
      ⟨⟨roots, some (Function.update trees label none)⟩, .removing released, none⟩ := by
  cases htree : trees label with
  | none =>
    have hsame : Function.update trees label none = trees := by
      rw [← htree, Function.update_eq_self]
    rw [hsame]
    exact .refl
  | some files =>
    induction hn : files.keys.card generalizing files trees with
    | zero =>
      obtain rfl : files = ∅ := by
        apply Finmap.ext_lookup
        intro path
        rw [Finmap.lookup_empty, Finmap.lookup_eq_none, ← Finmap.mem_keys,
          Finset.card_eq_zero.mp hn]
        exact Finset.notMem_empty path
      refine Run.single (i := .delete (.entry label)) (by simp [Strands]) ?_
      simp [PurgeStep, World.after, World.delete, deleteItem, htree]
    | succ n ih =>
      obtain ⟨path, hpath⟩ := Finset.card_pos.mp (by omega : 0 < files.keys.card)
      have hcard : (files.erase path).keys.card = n := by
        rw [Finmap.keys_erase, Finset.card_erase_of_mem hpath, hn, Nat.add_sub_cancel]
      have hrest : PurgeRun side
          ⟨⟨roots, some (Function.update trees label (some (files.erase path)))⟩,
            .removing released, none⟩
          ⟨⟨roots, some (Function.update trees label none)⟩, .removing released, none⟩ := by
        simpa only [Function.update_idem] using
          ih (files.erase path) (Function.update_self label _ trees) hcard
      refine (Run.single (i := .delete (.file label path)) (by simp [Strands]) ?_).trans hrest
      simp [PurgeStep, World.after, World.delete, deleteItem, htree]

theorem removing_ends {roots : Label → Option SizedTree} {trees : Label → Option SizedTree}
    (released : Nat) :
    PurgeRun side ⟨⟨roots, some trees⟩, .removing released, none⟩
      ⟨⟨roots, none⟩, .idle, some (.returned released)⟩ := by
  refine ((removing_entry .project released).trans (removing_entry .scratch released)).trans ?_
  refine Run.single (i := .delete .directory) (by simp [Strands]) ?_
  simp [PurgeStep, World.after, World.delete, deleteItem, World.ended]

/-- What is left when the staging directory is stranded: a root beside it. -/
theorem Sound.stranded (h : Sound w) {act : Act} (hs : Strands side w act) :
    (w.after side act).phase = .idle ∧ (w.after side act).site.staging ≠ none ∧
      ∃ label, (w.after side act).site.roots label ≠ none := by
  obtain ⟨s, phase, outcome⟩ := w
  have hphase : PhaseOk s phase := h.phaseOk
  cases phase with
  | idle => simp [Strands] at hs
  | staging released sources => simp [Strands] at hs
  | removing released => simp [Strands] at hs
  | clearing =>
    cases act with
    | fail => exact ⟨rfl, hphase⟩
    | crash => exact ⟨rfl, hphase⟩
    | call | step | delete => simp [Strands] at hs
  | undoing moved =>
    cases act with
    | fail =>
      cases moved with
      | nil => simp [Strands] at hs
      | cons label moved =>
        obtain rfl : side = .filesystem := hs
        exact ⟨rfl, hphase⟩
    | crash => exact ⟨rfl, hphase⟩
    | call | step | delete => simp [Strands] at hs
  | moving released todo moved =>
    cases todo with
    | nil => cases act <;> simp [Strands] at hs
    | cons label todo =>
      cases act with
      | crash => exact ⟨rfl, hphase.1, label, (hphase.2.2 label).mp List.mem_cons_self⟩
      | call | step | fail | delete => simp [Strands] at hs

variable (side) in
/-- The next purge takes the staging directory for all that is left. -/
theorem stranded_returns (hidle : w.phase = .idle) (hstaging : w.site.staging ≠ none)
    (hroot : ∃ label, w.site.roots label ≠ none) :
    ∃ w', PurgeRun side w w' ∧ ¬ CrashSafe w' := by
  obtain ⟨⟨roots, staging⟩, phase, outcome⟩ := w
  obtain rfl : phase = .idle := hidle
  obtain ⟨label, hlabel⟩ := hroot
  cases staging with
  | none => exact absurd rfl hstaging
  | some trees =>
    refine ⟨_, (Run.single (i := .call) (by simp [Strands]) rfl).trans (removing_ends _), ?_⟩
    intro hsafe
    exact hlabel ((hsafe.complete _ rfl).1 label)

/-- A purge is crash-safe in every run in which nothing strands the staging directory, and
whatever strands it leads to a purge that returns and leaves a root. -/
theorem purge_crash_safe {roots : Label → Option SizedTree}
    (h : PurgeRun side (initial roots) w) :
    CrashSafe w ∧
      ∀ act, ¬ Strands side w act ↔ ∀ w', PurgeRun side (w.after side act) w' → CrashSafe w' := by
  have hsound : Sound w := (sound_initial roots).run h
  refine ⟨hsound.crashSafe, fun act => ⟨fun hs w' hw' => ?_, fun hall hs => ?_⟩⟩
  · exact ((hsound.after hs).run hw').crashSafe
  · obtain ⟨hidle, hstaging, hroot⟩ := hsound.stranded hs
    obtain ⟨w', hrun, hunsafe⟩ := stranded_returns side hidle hstaging hroot
    exact hunsafe (hall w' hrun)

section Runs

def run (side : Provisioner) (roots : Label → Option SizedTree) (acts : List Act) : World :=
  acts.foldl (World.after side) (initial roots)

/-- A workspace of two roots with a file in each. -/
def twoRoots : Label → Option SizedTree
  | .project => some (Finmap.singleton ["a"] 3)
  | .scratch => some (Finmap.singleton ["b"] 4)

/-- A first purge fails at the second rename, and the second one runs to its end. -/
def retried : List Act :=
  [.call, .step, .step, .fail, .step, .step, .delete .directory,
    .call, .step, .step, .step, .step, .delete (.file .project ["a"]), .delete (.entry .project),
    .delete (.file .scratch ["b"]), .delete (.entry .scratch), .delete .directory]

instance (side : Provisioner) (w : World) (act : Act) : Decidable (Strands side w act) := by
  unfold Strands
  split <;> infer_instance

theorem purge_crash_safe_retried :
    (run .filesystem twoRoots (retried.take 7)).site.workspaceSize = 7 ∧
      CrashSafe (run .filesystem twoRoots retried) := by
  have hrun : PurgeRun .filesystem (initial twoRoots) (run .filesystem twoRoots retried) :=
    Run.foldl (by decide +kernel)
  exact ⟨by decide +kernel, (purge_crash_safe hrun).1⟩

/-- The first purge dies as it has made the staging directory. -/
def diesEarly : List Act := [.call, .step, .crash, .call, .delete .directory]

/-- The workspace has seven bytes and the size is none; the next purge returns, and removes
nothing of it. -/
theorem purge_not_crash_safe :
    ∃ roots acts, ∃ side : Provisioner,
      ¬ CrashSafe (run side roots (acts.take 3)) ∧ ¬ CrashSafe (run side roots acts) := by
  refine ⟨twoRoots, diesEarly, .filesystem, fun h => ?_, fun h => ?_⟩
  · exact absurd (h.counted rfl) (by decide +kernel)
  · exact absurd ((h.complete 0 rfl).1 .project) (by decide +kernel)

end Runs

end Fairy.Workspace.Purge
