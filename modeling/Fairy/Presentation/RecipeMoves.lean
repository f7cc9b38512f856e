import Fairy.Presentation.RecipeStore
import Fairy.Lib.Lineage

namespace Fairy.Presentation

open Fairy.Lib
open Fairy.Commanding (Uuid Time)

section Moves

/-- What `create_recipe` stores. -/
structure Fresh (r : EditRecipe) : Prop where
  status : r.status = .draft
  revision : r.revision = 1
  unapplied : r.applyIdempotencyKey = none

/-- What a stored change does to a recipe. -/
inductive Move : EditRecipe → EditRecipe → Prop
  | updated {r : EditRecipe} (operations : List Operation) (now : Time) (hdraft : r.status = .draft) :
    Move r { r with operations, revision := r.revision + 1, updatedAt := now }
  | discarded {r : EditRecipe} (now : Time) (hdraft : r.status = .draft) :
    Move r { r with status := .discarded, revision := r.revision + 1, updatedAt := now }
  | marked {r : EditRecipe} (key : String) (now : Time) (hdraft : r.status = .draft) :
    Move r { r with
      status := .applying
      revision := r.revision + 1
      applyIdempotencyKey := some key
      updatedAt := now }
  | applied {r : EditRecipe} (versionId : Uuid) (outputHash : String) (now : Time)
      (happlying : r.status = .applying) :
    Move r { r with
      status := .applied
      revision := r.revision + 1
      appliedVersionId := some versionId
      outputHash := some outputHash
      updatedAt := now }

variable {r r' : EditRecipe}

theorem Move.id_eq (h : Move r r') : r'.id = r.id := by
  cases h <;> rfl

theorem Move.revision_eq (h : Move r r') : r'.revision = r.revision + 1 := by
  cases h <;> rfl

/-- The row that is written is the recipe that is saved. -/
theorem Move.savedValues_eq (h : Move r r') : savedValues r' r = r' := by
  cases h <;> rfl

theorem Move.precedes (h : Move r r') : r'.Precedes r := ⟨h.id_eq.symm, h.revision_eq.symm⟩

/-- The recipe has been taken out of `DRAFT` to be applied. -/
def EditRecipe.Leaves (r : EditRecipe) : Prop :=
  r.status ∈ [EditRecipeStatus.applying, .applied]

/-- What does not change any more once a recipe is being applied. -/
def Settles (r r' : EditRecipe) : Prop :=
  r'.id = r.id ∧ (r.Leaves → r'.Leaves ∧ r'.operations = r.operations ∧
    r'.applyIdempotencyKey = r.applyIdempotencyKey) ∧
  r'.workspaceId = r.workspaceId ∧ r'.versionId = r.versionId ∧ r'.fileSetId = r.fileSetId ∧
  r'.sourceHash = r.sourceHash ∧ r'.kind = r.kind

theorem Settles.refl (r : EditRecipe) : Settles r r :=
  ⟨rfl, fun h => ⟨h, rfl, rfl⟩, rfl, rfl, rfl, rfl, rfl⟩

theorem Settles.trans {r'' : EditRecipe} (h : Settles r r') (h' : Settles r' r'') :
    Settles r r'' := by
  obtain ⟨hid, hleaves, hw, hv, hf, hs, hk⟩ := h
  obtain ⟨hid', hleaves', hw', hv', hf', hs', hk'⟩ := h'
  refine ⟨hid'.trans hid, fun hl => ?_, hw'.trans hw, hv'.trans hv, hf'.trans hf, hs'.trans hs,
    hk'.trans hk⟩
  obtain ⟨hl', ho, hkey⟩ := hleaves hl
  obtain ⟨hl'', ho', hkey'⟩ := hleaves' hl'
  exact ⟨hl'', ho'.trans ho, hkey'.trans hkey⟩

theorem Move.settles (h : Move r r') : Settles r r' := by
  refine ⟨h.id_eq, ?_, ?_⟩
  · intro hleaves
    cases h with
    | updated operations now hdraft => simp [EditRecipe.Leaves, hdraft] at hleaves
    | discarded now hdraft => simp [EditRecipe.Leaves, hdraft] at hleaves
    | marked key now hdraft => simp [EditRecipe.Leaves, hdraft] at hleaves
    | applied versionId outputHash now happlying => exact ⟨by simp [EditRecipe.Leaves], rfl, rfl⟩
  · cases h <;> exact ⟨rfl, rfl, rfl, rfl, rfl⟩

/-- No change is stored after the last one of a recipe that is applied or discarded. -/
theorem Move.not_final (h : Move r r') : r.status ∉ [EditRecipeStatus.applied, .discarded] := by
  cases h with
  | updated operations now hdraft => simp [hdraft]
  | discarded now hdraft => simp [hdraft]
  | marked key now hdraft => simp [hdraft]
  | applied versionId outputHash now happlying => simp [happlying]

/-- The export reads only what does not change any more. -/
theorem exportSource_congr {x : PresentationFiles} (h : Settles r r') (hleaves : r.Leaves) :
    exportSource x r' = exportSource x r := by
  obtain ⟨_, hsame, hw, hv, hf, hs, hk⟩ := h
  simp only [exportSource, exportRecipe, hw, hv, hf, hs, hk, (hsame hleaves).2.1]

end Moves

section Saving

variable {s t : Recipes} {row recipe : EditRecipe}

/-- What a unit of work has written. -/
inductive Saved (s t : Recipes) : Option EditRecipe → Prop
  | nothing (h : t = s) : Saved s t none
  | moved {row recipe : EditRecipe} (hmove : Move row recipe) (h : Table.Replaces s t row recipe)
      (hkey : ¬ KeyTaken recipe s) : Saved s t (some recipe)
  | added {recipe : EditRecipe} (hfresh : Fresh recipe) (hnew : ∀ row ∈ s, row.id ≠ recipe.id)
      (h : ∀ row, row ∈ t ↔ row = recipe ∨ row ∈ s) : Saved s t (some recipe)

theorem saveEditRecipe_moved {saved : EditRecipe} (hrow : row ∈ s) (hmove : Move row recipe)
    (h : saveEditRecipe recipe s = .ok (saved, t)) : saved = recipe ∧ Saved s t (some recipe) := by
  have hone : s.oneOrNone recipe.Precedes = some row :=
    Table.oneOrNone_of_key hrow hmove.precedes fun _ _ hp => hp.1.trans hmove.id_eq
  simp only [saveEditRecipe, hone] at h
  split at h
  · cases h
  · rename_i hkey
    cases h
    refine ⟨hmove.savedValues_eq, .moved hmove ?_ hkey⟩
    have hreplaces := Table.replaces_update (u := s.update recipe.Precedes (savedValues recipe))
      Table.rows_update hrow hmove.precedes
      (fun other _ hp => hp.1.trans hmove.id_eq) rfl
    rw [hmove.savedValues_eq] at hreplaces
    exact hreplaces

theorem saveEditRecipe_fresh {saved : EditRecipe} (hfresh : Fresh recipe)
    (hrevision : ∀ row ∈ s, 1 ≤ row.revision)
    (h : saveEditRecipe recipe s = .ok (saved, t)) : saved = recipe ∧ Saved s t (some recipe) := by
  have hnone : s.oneOrNone recipe.Precedes = none := by
    refine Table.oneOrNone_eq_none.mpr fun row hrow hp => ?_
    have hlt := hrevision row hrow
    have hlast := hp.2
    rw [hfresh.revision] at hlast
    omega
  simp only [saveEditRecipe, hnone] at h
  split at h
  · cases h
  rename_i hnew
  split at h
  · cases h
  split at h
  · rename_i u hinsert
    cases h
    have hrows := (Table.insertAll_eq_some hinsert).1
    refine ⟨rfl, .added hfresh (fun row hrow hid => hnew ⟨row, hrow, hid⟩) fun row => ?_⟩
    rw [Table.mem_of_rows_append hrows, List.mem_singleton]
    exact or_comm
  · cases h

end Saving

section Units

variable {x : PresentationFiles} {s t : Recipes} {saved : Option EditRecipe}

theorem createRecipe_saved {d : RecipeDraft} (hrevision : ∀ row ∈ s, 1 ≤ row.revision)
    (h : createRecipe x d s = .ok (saved, t)) : saved = some d.recipe ∧ Saved s t saved := by
  obtain ⟨_, _, h⟩ := bind_ok h
  obtain ⟨_, _, h⟩ := bind_ok h
  obtain ⟨⟨row, u⟩, hsave, h⟩ := bind_ok h
  obtain ⟨rfl, hsaved⟩ := saveEditRecipe_fresh ⟨rfl, rfl, rfl⟩ hrevision hsave
  cases pure_ok h
  exact ⟨rfl, hsaved⟩

/-- An update is made against the revision that its caller has named. -/
theorem updateRecipe_saved {recipeId : Uuid} {expectedRevision : Int}
    {operations : List Operation} {now : Time}
    (h : updateRecipe x recipeId expectedRevision operations now s = .ok (saved, t)) :
    ∃ row ∈ s, row.id = recipeId ∧ row.status = .draft ∧ expectedRevision = row.revision ∧
      saved = some { row with operations, revision := row.revision + 1, updatedAt := now } ∧
      Saved s t saved := by
  obtain ⟨_, _, h⟩ := bind_ok h
  split at h
  · cases h
  rename_i row hfind
  obtain ⟨updated, hupdated, h⟩ := bind_ok h
  obtain ⟨⟨stored, u⟩, hsave, h⟩ := bind_ok h
  simp only [EditRecipe.update, ↓check_bind_ok_iff, not_not] at hupdated
  obtain ⟨hdraft, hrevision, hupdated⟩ := hupdated
  obtain rfl := pure_ok hupdated
  obtain ⟨hrow, hid⟩ := Table.find?_eq_some.mp hfind
  obtain ⟨rfl, hsaved⟩ := saveEditRecipe_moved hrow (.updated operations now hdraft) hsave
  cases pure_ok h
  exact ⟨row, hrow, hid, hdraft, hrevision, rfl, hsaved⟩

theorem discardRecipe_saved {recipeId : Uuid} {now : Time}
    (h : discardRecipe recipeId now s = .ok (saved, t)) :
    (∀ row ∈ saved, row.status = .discarded) ∧ Saved s t saved := by
  simp only [discardRecipe] at h
  split at h
  · cases h
  rename_i row hfind
  split at h
  · rename_i hchanged
    obtain ⟨⟨stored, u⟩, hsave, heq⟩ := map_ok h
    have hdraft : row.status = .draft := by
      by_contra hne
      exact hchanged (if_pos hne)
    have hdiscard : row.discard now =
        { row with status := .discarded, revision := row.revision + 1, updatedAt := now } :=
      if_neg (not_not.mpr hdraft)
    rw [hdiscard] at hsave
    obtain ⟨rfl, hsaved⟩ := saveEditRecipe_moved (Table.find?_eq_some.mp hfind).1
      (.discarded now hdraft) hsave
    cases heq
    exact ⟨fun row hr => Option.some.inj hr ▸ rfl, hsaved⟩
  · cases h
    exact ⟨fun _ hr => absurd hr (Option.not_mem_none _), .nothing rfl⟩

/-- What a call that starts, or goes on, with a recipe knows about it. -/
structure Applying.Exports (x : PresentationFiles) (a : Applying) (r : EditRecipe) : Prop where
  id : r.id = a.arguments.recipeId
  exported : exportSource x r = .ok (a.sourcePath, a.exported)

/-- `begin_apply` of a recipe that is not applied. -/
theorem beginApply_ok {r r' : EditRecipe} {expectedRevision : Int} {key : String} {now : Time}
    (happlied : r.status ≠ .applied) (h : r.beginApply expectedRevision key now = .ok r') :
    (r.status = .applying ∧ r' = r ∧ r.applyIdempotencyKey = some key) ∨
    (r.status = .draft ∧ r' = { r with
      status := .applying
      revision := r.revision + 1
      applyIdempotencyKey := some key
      updatedAt := now }) := by
  simp only [EditRecipe.beginApply] at h
  split at h
  · contradiction
  · rename_i hstatus
    split at h
    · cases h
    · rename_i hkey
      cases h
      exact .inl ⟨hstatus, rfl, not_not.mp hkey⟩
  · cases h
  · rename_i hstatus
    split at h
    · cases h
    · split at h
      · cases h
      · cases h
        exact .inr ⟨hstatus, rfl⟩

theorem startApply_ok {arguments : ApplyArguments} {now : Time} {call : ApplyCall}
    (h : startApply x arguments now s = .ok (some call)) :
    ∃ a : Applying, a.arguments = arguments ∧ a.recipe ∈ s ∧ a.Exports x a.recipe ∧
      ((call = .mutating a ∧ a.recipe.status = .applying ∧ a.applying = a.recipe ∧
        a.recipe.applyIdempotencyKey = some arguments.idempotencyKey) ∨
      (call = .marking a ∧ a.recipe.status = .draft ∧ a.applying = { a.recipe with
        status := .applying
        revision := a.recipe.revision + 1
        applyIdempotencyKey := some arguments.idempotencyKey
        updatedAt := now })) := by
  simp only [startApply] at h
  split at h
  · cases h
  rename_i recipe hfind
  obtain ⟨hrecipe, hid⟩ := Table.find?_eq_some.mp hfind
  split at h
  · obtain ⟨_, _, h⟩ := bind_ok h
    cases pure_ok h
  rename_i happlied
  obtain ⟨⟨sourcePath, exported⟩, hexport, h⟩ := bind_ok h
  obtain ⟨applying, hbegin, h⟩ := bind_ok h
  have hcall := Option.some.inj (pure_ok h)
  refine ⟨⟨arguments, recipe, applying, sourcePath, exported⟩, rfl, hrecipe, ⟨hid, hexport⟩, ?_⟩
  obtain ⟨hstatus, rfl, hkey⟩ | ⟨hstatus, rfl⟩ := beginApply_ok happlied hbegin
  · rw [if_neg (not_not.mpr rfl)] at hcall
    exact .inl ⟨hcall.symm, hstatus, rfl, hkey⟩
  · rw [if_pos] at hcall
    · exact .inr ⟨hcall.symm, hstatus, rfl⟩
    · intro heq
      exact absurd (congrArg EditRecipe.revision heq) (by simp)

theorem markApplying_saved {a : Applying} (hmove : Move a.recipe a.applying)
    (h : markApplying a s = .ok (saved, t)) :
    saved = some a.applying ∧ a.recipe ∈ s ∧ Saved s t saved := by
  simp only [markApplying] at h
  split at h
  · cases h
  rename_i hfind
  obtain ⟨hrow, _⟩ := Table.find?_eq_some.mp (not_not.mp hfind)
  obtain ⟨⟨row, u⟩, hsave, heq⟩ := map_ok h
  obtain ⟨rfl, hsaved⟩ := saveEditRecipe_moved hrow hmove hsave
  cases heq
  exact ⟨rfl, hrow, hsaved⟩

/-- The last unit of work finds the recipe applied, or still as it was marked. -/
theorem storeApplied_saved {a : Applying} {applied row : EditRecipe} {now : Time}
    (hrow : row ∈ s) (hid : row.id = a.arguments.recipeId)
    (hmove : row.status ≠ .applied → Move row applied)
    (h : storeApplied a applied now s = .ok (saved, t)) :
    (saved = none ∧ t = s) ∨ (row.status ≠ .applied ∧ saved = some applied ∧ Saved s t saved) := by
  have hfind : s.find? a.arguments.recipeId = some row :=
    Table.find?_eq_some.mpr ⟨hrow, hid⟩
  simp only [storeApplied, hfind] at h
  split at h
  · obtain ⟨_, _, heq⟩ := map_ok h
    cases heq
    exact .inl ⟨rfl, rfl⟩
  · rename_i happlied
    obtain ⟨⟨stored, u⟩, hsave, heq⟩ := map_ok h
    obtain ⟨rfl, hsaved⟩ := saveEditRecipe_moved hrow (hmove happlied) hsave
    cases heq
    exact .inr ⟨happlied, rfl, hsaved⟩

end Units

end Fairy.Presentation
