import Fairy.Presentation.RecipeMoves

namespace Fairy.Presentation

open Fairy.Lib
open Fairy.Commanding (Uuid Time)

/-- The values that a recipe has had. -/
def storedOf (id : Uuid) (stored : List EditRecipe) : List EditRecipe :=
  stored.filter fun r => r.id = id

section Ledger

/-- The rows with the values that they have had. -/
structure Ledger (s : Recipes) (stored : List EditRecipe) : Prop where
  lineage : ∀ row ∈ s, Lineage Fresh Move (storedOf row.id stored) row
  known : ∀ r ∈ stored, ∃ row ∈ s, row.id = r.id
  keys : ∀ row ∈ s, ∀ row' ∈ s, row.applyIdempotencyKey ≠ none →
    row.applyIdempotencyKey = row'.applyIdempotencyKey → row = row'

variable {s t : Recipes} {stored : List EditRecipe} {saved : Option EditRecipe} {row : EditRecipe}

theorem Ledger.revision_eq (h : Ledger s stored) (hrow : row ∈ s) :
    row.revision = (storedOf row.id stored).length :=
  (h.lineage row hrow).count_last (f := EditRecipe.revision) (fun _ hf => hf.revision)
    fun _ _ hm => hm.revision_eq

theorem Ledger.revision_pos (h : Ledger s stored) : ∀ row ∈ s, 1 ≤ row.revision := by
  intro row hrow
  rw [h.revision_eq hrow]
  exact List.length_pos_of_ne_nil (h.lineage row hrow).ne_nil

/-- A unit of work keeps each row, or moves it. -/
theorem Saved.keeps (h : Saved s t saved) (hrow : row ∈ s) :
    ∃ row' ∈ t, row' = row ∨ Move row row' := by
  cases h with
  | nothing h =>
    rw [h]
    exact ⟨row, hrow, .inl rfl⟩
  | @moved old recipe hmove h hkey =>
    by_cases hid : row.id = old.id
    · obtain rfl := Table.eq_of_key hrow h.1 hid
      exact ⟨recipe, h.mem, .inr hmove⟩
    · exact ⟨row, h.mem_other hrow hid, .inl rfl⟩
  | @added recipe hfresh hnew h => exact ⟨row, (h row).mpr (.inr hrow), .inl rfl⟩

theorem Saved.settles (h : Saved s t saved) (hrow : row ∈ s) :
    ∃ row' ∈ t, Settles row row' ∧ (row' = row ∨ Move row row') := by
  obtain ⟨row', hrow', hkept⟩ := h.keeps hrow
  refine ⟨row', hrow', ?_, hkept⟩
  obtain rfl | hmove := hkept
  · exact .refl _
  · exact hmove.settles

theorem storedOf_append {id : Uuid} {saved : Option EditRecipe} :
    storedOf id (stored ++ saved.toList) = storedOf id stored ++ storedOf id saved.toList :=
  List.filter_append ..

theorem Ledger.after (h : Ledger s stored) (hsaved : Saved s t saved) :
    Ledger t (stored ++ saved.toList) := by
  cases hsaved with
  | nothing heq =>
    rw [heq, Option.toList_none, List.append_nil]
    exact h
  | @moved old recipe hmove hreplaces hkey =>
    have hother : ∀ other, other ∈ t → other = recipe ∨ other ∈ s ∧ other.id ≠ old.id :=
      fun other hmem => hreplaces.cases hmem
    refine ⟨fun row hrow => ?_, fun r hr => ?_, fun row hrow row' hrow' hne heq => ?_⟩
    · rw [storedOf_append]
      obtain rfl | ⟨hrow, hid⟩ := hother row hrow
      · have hlast : storedOf row.id [row] = [row] := List.filter_cons_of_pos (by simp)
        rw [Option.toList_some, hlast, hmove.id_eq]
        exact (h.lineage old hreplaces.1).snoc hmove
      · have hnone : storedOf row.id [recipe] = [] :=
          List.filter_cons_of_neg (by simpa [hmove.id_eq] using fun he => hid he.symm)
        rw [Option.toList_some, hnone, List.append_nil]
        exact h.lineage row hrow
    · obtain hr | hr := List.mem_append.mp hr
      · obtain ⟨row, hrow, hid⟩ := h.known r hr
        obtain ⟨row', hrow', hid'⟩ := hreplaces.key_mem hrow
        exact ⟨row', hrow', hid'.trans hid⟩
      · rw [Option.toList_some, List.mem_singleton] at hr
        exact ⟨recipe, hreplaces.mem, congrArg EditRecipe.id hr.symm⟩
    · have htaken : ∀ other ∈ s, other.id ≠ old.id → other.applyIdempotencyKey ≠ none →
          other.applyIdempotencyKey ≠ recipe.applyIdempotencyKey := by
        intro other hmem hid hnone hsame
        exact hkey ⟨other, hmem, by rwa [hmove.id_eq], hnone, hsame⟩
      obtain rfl | ⟨hrow, hid⟩ := hother row hrow
      · obtain rfl | ⟨hrow', hid'⟩ := hother row' hrow'
        · rfl
        · exact absurd heq.symm (htaken row' hrow' hid' (heq ▸ hne))
      · obtain rfl | ⟨hrow', hid'⟩ := hother row' hrow'
        · exact absurd heq (htaken row hrow hid hne)
        · exact h.keys row hrow row' hrow' hne heq
  | @added recipe hfresh hnew hmem =>
    have hunknown : storedOf recipe.id stored = [] := by
      refine List.filter_eq_nil_iff.mpr fun r hr => ?_
      obtain ⟨row, hrow, hid⟩ := h.known r hr
      simpa using fun he => hnew row hrow (hid.trans he)
    refine ⟨fun row hrow => ?_, fun r hr => ?_, fun row hrow row' hrow' hne heq => ?_⟩
    · rw [storedOf_append]
      obtain rfl | hrow := (hmem row).mp hrow
      · have hlast : storedOf row.id [row] = [row] := List.filter_cons_of_pos (by simp)
        rw [Option.toList_some, hlast, hunknown]
        exact .single hfresh
      · have hnone : storedOf row.id [recipe] = [] :=
          List.filter_cons_of_neg (by simpa using fun he => hnew row hrow he.symm)
        rw [Option.toList_some, hnone, List.append_nil]
        exact h.lineage row hrow
    · obtain hr | hr := List.mem_append.mp hr
      · obtain ⟨row, hrow, hid⟩ := h.known r hr
        exact ⟨row, (hmem row).mpr (.inr hrow), hid⟩
      · rw [Option.toList_some, List.mem_singleton] at hr
        exact ⟨recipe, (hmem recipe).mpr (.inl rfl), congrArg EditRecipe.id hr.symm⟩
    · obtain rfl | hrow := (hmem row).mp hrow
      · exact absurd hfresh.unapplied hne
      · obtain rfl | hrow' := (hmem row').mp hrow'
        · exact absurd (heq.trans hfresh.unapplied) hne
        · exact h.keys row hrow row' hrow' hne heq

end Ledger

section Sound

variable {x : PresentationFiles} {w : World} {s t : Recipes} {saved : Option EditRecipe}
  {versions versions' : List CommittedVersion} {a : Applying}

theorem exportSource_hash {r : EditRecipe} {path : String} {exported : ExportedEdit}
    (h : exportSource x r = .ok (path, exported)) :
    exported.contentHash = x.digest exported.content := by
  obtain ⟨_, _, h⟩ := bind_ok h
  obtain ⟨source, _, h⟩ := bind_ok h
  obtain ⟨e, he, h⟩ := bind_ok h
  cases pure_ok h
  simp only [exportRecipe] at he
  split at he
  · cases he
  simp only [exportTextPatch, ↓check_bind_ok_iff] at he
  obtain ⟨_, he⟩ := he
  split at he
  · cases he
  · obtain ⟨edits, _, he⟩ := bind_ok he
    simp only [↓check_bind_ok_iff] at he
    obtain ⟨_, _, he⟩ := he
    cases pure_ok he
    rfl

/-- A version was committed for a recipe that is being applied or is applied, under its key, with
its export as the content. -/
def CommittedVersion.Sound (x : PresentationFiles) (s : Recipes) (v : CommittedVersion) : Prop :=
  ∃ row ∈ s, row.id = v.recipeId ∧ row.Leaves ∧
    row.applyIdempotencyKey = some v.input.idempotencyKey ∧
    ∃ exported, exportSource x row = .ok (v.input.path, exported) ∧
      v.input.contentBase64 = Base64.b64encode exported.content

/-- What an applied recipe records. -/
def Records (x : PresentationFiles) (versions : List CommittedVersion) (row : EditRecipe) : Prop :=
  ∃ v ∈ versions, v.recipeId = row.id ∧ row.appliedVersionId = some v.versionId ∧
    ∃ path exported, exportSource x row = .ok (path, exported) ∧
      row.outputHash = some exported.contentHash

/-- A call has marked its recipe, or has found it marked. -/
structure Applying.Marked (x : PresentationFiles) (s : Recipes) (a : Applying) : Prop where
  exports : a.Exports x a.applying
  status : a.applying.status = .applying
  key : a.applying.applyIdempotencyKey = some a.arguments.idempotencyKey
  row : ∃ row ∈ s, Settles a.applying row ∧ (row.status ≠ .applied → row = a.applying)

/-- What a call knows where it stands. -/
def ApplyCall.Sound (x : PresentationFiles) (s : Recipes) (versions : List CommittedVersion) :
    ApplyCall → Prop
  | .marking a => a.Exports x a.recipe ∧ a.recipe.status = .draft ∧
    ∃ now, a.applying = { a.recipe with
      status := .applying
      revision := a.recipe.revision + 1
      applyIdempotencyKey := some a.arguments.idempotencyKey
      updatedAt := now }
  | .mutating a => a.Marked x s
  | .finishing a applied => a.Marked x s ∧ ∃ v ∈ versions, v.recipeId = a.applying.id ∧
    ∃ now, applied = { a.applying with
      status := .applied
      revision := a.applying.revision + 1
      appliedVersionId := some v.versionId
      outputHash := some a.exported.contentHash
      updatedAt := now }

theorem leaves_of_applying {r : EditRecipe} (h : r.status = .applying) : r.Leaves := by
  simp [EditRecipe.Leaves, h]

theorem CommittedVersion.Sound.after {v : CommittedVersion} (h : v.Sound x s)
    (hsaved : Saved s t saved) : v.Sound x t := by
  obtain ⟨row, hrow, hid, hleaves, hkey, exported, hexport, hcontent⟩ := h
  obtain ⟨row', hrow', hsettles, _⟩ := hsaved.settles hrow
  obtain ⟨hleaves', _, hkey'⟩ := hsettles.2.1 hleaves
  exact ⟨row', hrow', hsettles.1.trans hid, hleaves', hkey'.trans hkey, exported,
    (exportSource_congr hsettles hleaves).trans hexport, hcontent⟩

theorem Applying.Marked.after (h : a.Marked x s) (hsaved : Saved s t saved) : a.Marked x t := by
  obtain ⟨row, hrow, hsettles, hcurrent⟩ := h.row
  obtain ⟨row', hrow', hsettles', hkept⟩ := hsaved.settles hrow
  refine ⟨h.exports, h.status, h.key, row', hrow', hsettles.trans hsettles', fun happlied => ?_⟩
  obtain rfl | hmove := hkept
  · exact hcurrent happlied
  · have hleaves : row.Leaves := (hsettles.2.1 (leaves_of_applying h.status)).1
    cases hmove with
    | updated operations now hdraft => simp [EditRecipe.Leaves, hdraft] at hleaves
    | discarded now hdraft => simp [EditRecipe.Leaves, hdraft] at hleaves
    | marked key now hdraft => simp [EditRecipe.Leaves, hdraft] at hleaves
    | applied versionId outputHash now happlying => exact absurd rfl happlied

theorem ApplyCall.Sound.after {call : ApplyCall} (h : call.Sound x s versions)
    (hsaved : Saved s t saved) (hversions : versions ⊆ versions') : call.Sound x t versions' := by
  cases call with
  | marking a => exact h
  | mutating a => exact Applying.Marked.after h hsaved
  | finishing a applied =>
    obtain ⟨hmarked, v, hv, happlied⟩ := h
    exact ⟨hmarked.after hsaved, v, hversions hv, happlied⟩

/-- What every run keeps. -/
structure World.Sound (x : PresentationFiles) (w : World) : Prop where
  ledger : Ledger w.recipes w.stored
  versions : ∀ v ∈ w.versions, v.Sound x w.recipes
  distinct : (w.versions.map (·.input.idempotencyKey)).Nodup
  applied : ∀ row ∈ w.recipes, row.status = .applied → Records x w.versions row
  calls : ∀ call ∈ w.calls, call.Sound x w.recipes w.versions
  updates : ∀ u ∈ w.updates, ∃ n : Nat, u.expectedRevision = n ∧
    ∃ r, (storedOf u.recipeId w.stored)[n]? = some r ∧ r.operations = u.operations
  ordered : w.updates.Pairwise fun u u' =>
    u.recipeId = u'.recipeId → u.expectedRevision < u'.expectedRevision

/-- A unit of work that writes a recipe: what it writes when it stores an applied one, the rest of
the world follows. -/
theorem World.Sound.commit (h : w.Sound x) (hsaved : Saved w.recipes t saved)
    (hrecords : ∀ row ∈ saved, row.status = .applied → Records x w.versions row) :
    (w.commit saved t).Sound x := by
  refine ⟨h.ledger.after hsaved, fun v hv => CommittedVersion.Sound.after (h.versions v hv) hsaved, h.distinct, ?_,
    fun call hcall => ApplyCall.Sound.after (h.calls call hcall) hsaved (List.Subset.refl _), ?_, h.ordered⟩
  · intro row hrow happlied
    have hcases : row ∈ w.recipes ∨ saved = some row := by
      cases hsaved with
      | nothing heq => exact .inl (heq ▸ hrow)
      | moved hmove hreplaces hkey =>
        obtain rfl | ⟨hold, _⟩ := hreplaces.cases hrow
        · exact .inr rfl
        · exact .inl hold
      | added hfresh hnew hmem =>
        obtain rfl | hold := (hmem row).mp hrow
        · exact .inr rfl
        · exact .inl hold
    obtain hold | hsame := hcases
    · exact h.applied row hold happlied
    · exact hrecords row hsame happlied
  · intro u hu
    obtain ⟨n, hn, r, hr, hoperations⟩ := h.updates u hu
    refine ⟨n, hn, r, ?_, hoperations⟩
    show (storedOf u.recipeId (w.stored ++ saved.toList))[n]? = some r
    rw [storedOf_append, List.getElem?_append_left (List.getElem?_eq_some_iff.mp hr).1]
    exact hr

theorem World.Sound.resume {call : ApplyCall} {next : Option ApplyCall} (h : w.Sound x)
    (hnext : ∀ c ∈ next, c.Sound x w.recipes w.versions) : (w.resume call next).Sound x := by
  refine ⟨h.ledger, h.versions, h.distinct, h.applied, fun c hc => ?_, h.updates, h.ordered⟩
  obtain hc | hc := List.mem_append.mp hc
  · exact h.calls c (List.mem_of_mem_erase hc)
  · exact hnext c (Option.mem_toList.mp hc)

end Sound

end Fairy.Presentation
