import Fairy.Presentation.Applying

namespace Fairy.Presentation

open Fairy.Lib
open Fairy.Commanding (Uuid Time)

variable {x : PresentationFiles} {w w' : World} {work : Work} {row : EditRecipe}

section Works

/-- A version is committed for a key that has none. -/
theorem mutateWorkspaceFiles_ok {recipeId : Uuid} {input : WorkspaceFileMutateInput}
    {outcome : Option Uuid} {versions versions' : List CommittedVersion} {v : CommittedVersion}
    (h : mutateWorkspaceFiles recipeId input outcome versions = .ok (v, versions')) :
    v.input.idempotencyKey = input.idempotencyKey ∧
    ((v ∈ versions ∧ versions' = versions) ∨
      (v.recipeId = recipeId ∧ v.input = input ∧ versions' = versions ++ [v] ∧
        input.idempotencyKey ∉ versions.map (·.input.idempotencyKey))) := by
  simp only [mutateWorkspaceFiles] at h
  split at h
  · cases h
  split at h
  · rename_i found hfind
    cases h
    refine ⟨by simpa using List.find?_some hfind, .inl ⟨List.mem_of_find?_eq_some hfind, rfl⟩⟩
  · rename_i hnone
    cases h
    refine ⟨rfl, .inr ⟨rfl, rfl, rfl, fun hmem => ?_⟩⟩
    obtain ⟨other, hother, hkey⟩ := List.mem_map.mp hmem
    exact absurd hkey (by simpa using List.find?_eq_none.mp hnone other hother)

/-- `finish_apply` of a recipe that has been marked. -/
theorem finishApply_eq {r : EditRecipe} {versionId : Uuid} {bytes : List UInt8} {now : Time}
    (h : r.status = .applying) : r.finishApply versionId (x.digest bytes) now = .ok { r with
      status := .applied
      revision := r.revision + 1
      appliedVersionId := some versionId
      outputHash := some (x.digest bytes)
      updatedAt := now } := by
  have hhex : ¬ isLowerHex (x.digest bytes) = false := by simp [x.hex]
  rw [EditRecipe.finishApply, if_neg (by simp [h]), if_neg (not_not.mpr h), if_neg hhex]

theorem World.Sound.create (h : w.Sound x) (d : RecipeDraft) :
    (w.perform x (.create d)).Sound x := by
  simp only [World.perform]
  split
  · rename_i saved t hcreate
    obtain ⟨rfl, hsaved⟩ := createRecipe_saved h.ledger.revision_pos hcreate
    refine h.commit hsaved fun row hrow happlied => ?_
    obtain rfl := Option.some.inj hrow
    cases happlied
  · exact h

theorem World.Sound.update (h : w.Sound x) (recipeId : Uuid) (expectedRevision : Int)
    (operations : List Operation) (now : Time) :
    (w.perform x (.update recipeId expectedRevision operations now)).Sound x := by
  simp only [World.perform]
  split
  · rename_i saved t hupdate
    obtain ⟨row, hrow, hid, hdraft, hrevision, hrowSaved, hsaved⟩ := updateRecipe_saved hupdate
    have hcommit := h.commit hsaved fun r hr happlied => by
      rw [hrowSaved] at hr
      obtain rfl := Option.some.inj hr
      exact absurd (hdraft.symm.trans happlied) (by decide)
    have hlength := h.ledger.revision_eq hrow
    refine ⟨hcommit.ledger, hcommit.versions, hcommit.distinct, hcommit.applied, hcommit.calls,
      fun u hu => ?_, List.pairwise_append.mpr ⟨h.ordered, List.pairwise_singleton _ _, ?_⟩⟩
    · obtain hu | hu := List.mem_append.mp hu
      · exact hcommit.updates u hu
      · obtain rfl := List.mem_singleton.mp hu
        refine ⟨row.revision, hrevision, { row with
          operations, revision := row.revision + 1, updatedAt := now }, ?_, rfl⟩
        show (storedOf recipeId (w.stored ++ saved.toList))[row.revision]? = _
        rw [storedOf_append, hrowSaved, Option.toList_some, ← hid]
        rw [List.getElem?_append_right (by omega), ← hlength, Nat.sub_self]
        exact congrArg (·[0]?) (List.filter_cons_of_pos (by simp))
    · intro u hu u' hu' hsame
      obtain rfl := List.mem_singleton.mp hu'
      obtain ⟨n, hn, r, hr, _⟩ := h.updates u hu
      have hlt : n < (storedOf u.recipeId w.stored).length := (List.getElem?_eq_some_iff.mp hr).1
      have hsame : u.recipeId = recipeId := hsame
      rw [hsame, ← hid, ← hlength] at hlt
      show u.expectedRevision < expectedRevision
      omega
  · exact h

theorem World.Sound.discard (h : w.Sound x) (recipeId : Uuid) (now : Time) :
    (w.perform x (.discard recipeId now)).Sound x := by
  simp only [World.perform]
  split
  · rename_i saved t hdiscard
    obtain ⟨hdiscarded, hsaved⟩ := discardRecipe_saved hdiscard
    refine h.commit hsaved fun row hrow happlied => ?_
    exact absurd ((hdiscarded row hrow).symm.trans happlied) (by decide)
  · exact h

theorem World.Sound.apply (h : w.Sound x) (arguments : ApplyArguments) (now : Time) :
    (w.perform x (.apply arguments now)).Sound x := by
  simp only [World.perform]
  split
  · rename_i next hstart
    refine ⟨h.ledger, h.versions, h.distinct, h.applied, fun call hcall => ?_, h.updates,
      h.ordered⟩
    obtain hcall | hcall := List.mem_append.mp hcall
    · exact h.calls call hcall
    · obtain rfl := Option.mem_toList.mp hcall
      obtain ⟨a, harguments, hrow, hexports, hmutating | hmarking⟩ := startApply_ok hstart
      · obtain ⟨rfl, hstatus, happlying, hkey⟩ := hmutating
        refine ⟨happlying ▸ hexports, happlying ▸ hstatus, ?_, a.recipe, hrow, ?_, ?_⟩
        · rw [happlying, harguments]
          exact hkey
        · rw [happlying]
          exact .refl _
        · exact fun _ => happlying.symm
      · obtain ⟨rfl, hstatus, happlying⟩ := hmarking
        exact ⟨hexports, hstatus, now, harguments ▸ happlying⟩
  · exact h

theorem World.Sound.mark (h : w.Sound x) {a : Applying} (hcall : .marking a ∈ w.calls) :
    (w.perform x (.mark a)).Sound x := by
  obtain ⟨hexports, hstatus, now, happlying⟩ := h.calls _ hcall
  have hmove : Move a.recipe a.applying := by
    rw [happlying]
    exact .marked a.arguments.idempotencyKey now hstatus
  simp only [World.perform]
  split
  · rename_i saved t hmark
    obtain ⟨rfl, hrow, hsaved⟩ := markApplying_saved hmove hmark
    refine (h.commit hsaved fun row hr happlied => ?_).resume fun c hc => ?_
    · obtain rfl := Option.some.inj hr
      rw [happlying] at happlied
      cases happlied
    · obtain rfl := Option.some.inj hc
      have hmem : a.applying ∈ t := by
        cases hsaved with
        | moved hmove' hreplaces hkey => exact hreplaces.mem
        | added hfresh hnew hmem => exact (hmem _).mpr (.inl rfl)
      refine ⟨⟨hmove.id_eq.trans hexports.id, ?_⟩, ?_, ?_, a.applying, hmem, .refl _, fun _ => rfl⟩
      · rw [← hexports.exported, happlying]
        rfl
      · rw [happlying]
      · rw [happlying]
  · exact h.resume fun _ hc => by cases hc

theorem World.Sound.mutate (h : w.Sound x) {a : Applying} (outcome : Option Uuid) (now : Time)
    (hcall : .mutating a ∈ w.calls) : (w.perform x (.mutate a outcome now)).Sound x := by
  have hmarked : a.Marked x w.recipes := h.calls _ hcall
  obtain ⟨row, hrow, hsettles, _⟩ := hmarked.row
  have hleaves : a.applying.Leaves := leaves_of_applying hmarked.status
  obtain ⟨hrowLeaves, _, hrowKey⟩ := hsettles.2.1 hleaves
  have hkey : row.applyIdempotencyKey = some a.arguments.idempotencyKey :=
    hrowKey.trans hmarked.key
  simp only [World.perform]
  split
  · rename_i v versions hmutate
    obtain ⟨hvKey, hv⟩ := mutateWorkspaceFiles_ok hmutate
    have hgrown : w.versions ⊆ versions ∧ v ∈ versions := by
      obtain ⟨hold, rfl⟩ | ⟨_, _, rfl, _⟩ := hv
      · exact ⟨List.Subset.refl _, hold⟩
      · exact ⟨List.subset_append_left _ _, List.mem_append_right _ List.mem_cons_self⟩
    -- The version of the key is one of this recipe, whoever has committed it.
    have hrecipe : v.recipeId = a.applying.id := by
      obtain ⟨hold, rfl⟩ | ⟨hid, _, _, _⟩ := hv
      · obtain ⟨row', hrow', hid', _, hkey', _⟩ := h.versions v hold
        rw [hvKey] at hkey'
        have hsame : row = row' := h.ledger.keys row hrow row' hrow'
          (by rw [hkey]; exact Option.some_ne_none _) (hkey.trans hkey'.symm)
        rw [← hid', ← hsame]
        exact hsettles.1
      · exact hid
    have hsound : ({ w with versions } : World).Sound x := by
      refine ⟨h.ledger, ?_, ?_, fun r hr happlied => ?_, fun c hc => ?_, h.updates, h.ordered⟩
      · obtain ⟨_, rfl⟩ | ⟨_, hinput, rfl, _⟩ := hv
        · exact h.versions
        · intro v' hv'
          obtain hv' | hv' := List.mem_append.mp hv'
          · exact h.versions v' hv'
          · obtain rfl := List.mem_singleton.mp hv'
            refine ⟨row, hrow, hsettles.1.trans hrecipe.symm, hrowLeaves, ?_, a.exported, ?_, ?_⟩
            · rw [hinput]
              exact hkey
            · rw [hinput]
              exact (exportSource_congr hsettles hleaves).trans hmarked.exports.exported
            · rw [hinput]
              rfl
      · obtain ⟨_, rfl⟩ | ⟨_, hinput, rfl, hnew⟩ := hv
        · exact h.distinct
        · show ((w.versions ++ [v]).map (·.input.idempotencyKey)).Nodup
          rw [List.map_append, List.nodup_append']
          refine ⟨h.distinct, List.nodup_singleton _, ?_⟩
          rw [List.map_cons, List.map_nil, List.disjoint_singleton, hinput]
          exact hnew
      · obtain ⟨v', hv', hrecords⟩ := h.applied r hr happlied
        exact ⟨v', hgrown.1 hv', hrecords⟩
      · exact ApplyCall.Sound.after (h.calls c hc) (.nothing rfl) hgrown.1
    refine hsound.resume fun c hc => ?_
    rw [exportSource_hash hmarked.exports.exported, finishApply_eq hmarked.status] at hc
    obtain rfl := Option.some.inj hc
    refine ⟨hmarked, v, hgrown.2, hrecipe, now, ?_⟩
    rw [exportSource_hash hmarked.exports.exported]
  · exact h.resume fun _ hc => by cases hc

theorem World.Sound.finish (h : w.Sound x) {a : Applying} {applied : EditRecipe} (now : Time)
    (hcall : .finishing a applied ∈ w.calls) : (w.perform x (.finish a applied now)).Sound x := by
  obtain ⟨hmarked, v, hv, hrecipe, stored, happlied⟩ := h.calls _ hcall
  obtain ⟨row, hrow, hsettles, hcurrent⟩ := hmarked.row
  have hmove : row.status ≠ .applied → Move row applied := by
    intro hne
    rw [happlied, hcurrent hne]
    exact .applied v.versionId a.exported.contentHash stored hmarked.status
  simp only [World.perform]
  split
  · rename_i saved t hstore
    obtain ⟨rfl, rfl⟩ | ⟨hne, rfl, hsaved⟩ :=
      storeApplied_saved hrow (hsettles.1.trans hmarked.exports.id) hmove hstore
    · exact (h.commit (.nothing rfl) fun _ hr => by cases hr).resume fun _ hc => by cases hc
    · refine (h.commit hsaved fun r hr _ => ?_).resume fun _ hc => by cases hc
      obtain rfl := Option.some.inj hr
      refine ⟨v, hv, ?_, ?_, a.sourcePath, a.exported, ?_, ?_⟩
      · rw [hrecipe, happlied]
      · rw [happlied]
      · rw [happlied]
        exact hmarked.exports.exported
      · rw [happlied]
  · exact h.resume fun _ hc => by cases hc

theorem World.sound_empty : World.empty.Sound x := by
  refine ⟨⟨fun _ h => ?_, fun _ h => ?_, fun _ h => ?_⟩, fun _ h => ?_, List.nodup_nil,
    fun _ h => ?_, fun _ h => ?_, fun _ h => ?_, List.Pairwise.nil⟩
  all_goals exact absurd h (by simp [World.empty])

theorem World.Sound.perform (h : w.Sound x) (hadmitted : Admitted w work) :
    (w.perform x work).Sound x := by
  cases work with
  | create d => exact h.create d
  | update recipeId expectedRevision operations now =>
    exact h.update recipeId expectedRevision operations now
  | discard recipeId now => exact h.discard recipeId now
  | apply arguments now => exact h.apply arguments now
  | mark a => exact h.mark hadmitted
  | mutate a outcome now => exact h.mutate outcome now hadmitted
  | finish a applied now => exact h.finish now hadmitted

theorem World.Sound.run (h : w.Sound x) (hrun : Run (Step x) Admitted w w') : w'.Sound x :=
  hrun.invariant (fun a work b (hsound : a.Sound x) hadmitted hstep => by
    have hstep : b = a.perform x work := hstep
    rw [hstep]
    exact hsound.perform hadmitted) h

end Works

section Runs

/-- What a run does with a recipe. -/
structure EditRecipe.AppliedOnce (x : PresentationFiles) (w : World) (row : EditRecipe) : Prop where
  /-- One version at most is committed for the recipe. -/
  unique : ∀ v ∈ w.versions, ∀ v' ∈ w.versions, v.recipeId = row.id → v'.recipeId = row.id → v = v'
  /-- Its content is the export of the recipe that was marked. -/
  exported : ∀ v ∈ w.versions, v.recipeId = row.id →
    (∃ draft next, [draft, next] <:+: storedOf row.id w.stored ∧ draft.status = .draft ∧
      next.status = .applying) ∧
    ∀ draft next, [draft, next] <:+: storedOf row.id w.stored → draft.status = .draft →
      next.status = .applying → ∃ exported,
        exportSource x draft = .ok (v.input.path, exported) ∧
          v.input.contentBase64 = Base64.b64encode exported.content
  /-- The revision counts the stored changes, the last of which the row is. -/
  counted : row.revision = (storedOf row.id w.stored).length ∧
    (storedOf row.id w.stored).getLast? = some row
  /-- A change raises the revision by one, and none is made to a recipe that is at its end. -/
  changes : ∀ before after, [before, after] <:+: storedOf row.id w.stored →
    after.revision = before.revision + 1 ∧
      before.status ∉ [EditRecipeStatus.applied, .discarded]
  /-- An applied recipe records its version, and the hash of its export. -/
  records : row.status = .applied → ∃ v ∈ w.versions, v.recipeId = row.id ∧
    row.appliedVersionId = some v.versionId ∧ ∃ exported,
      exportSource x row = .ok (v.input.path, exported) ∧
        v.input.contentBase64 = Base64.b64encode exported.content ∧
        row.outputHash = some (x.digest exported.content)

theorem Move.of_leaves {r r' : EditRecipe} (h : Move r r') (hr : ¬ r.Leaves) (hr' : r'.Leaves) :
    r.status = .draft ∧ r'.status = .applying := by
  cases h with
  | updated operations now hdraft => exact absurd hr' hr
  | discarded now hdraft => simp [EditRecipe.Leaves] at hr'
  | marked key now hdraft => exact ⟨hdraft, rfl⟩
  | applied versionId outputHash now happlying => exact absurd (leaves_of_applying happlying) hr

/-- The export of what is marked is the export of what is applied. -/
theorem Move.exportSource_eq {r r' : EditRecipe} (h : Move r r') (hr : r.status = .draft)
    (hr' : r'.status = .applying) : exportSource x r' = exportSource x r := by
  cases h with
  | updated operations now hdraft => exact absurd (hr.symm.trans hr') (by decide)
  | discarded now hdraft => cases hr'
  | marked key now hdraft => rfl
  | applied versionId outputHash now happlying => cases hr'

theorem World.Sound.appliedOnce (h : w.Sound x) (hrow : row ∈ w.recipes) :
    row.AppliedOnce x w := by
  have hlineage := h.ledger.lineage row hrow
  have hversion : ∀ v ∈ w.versions, v.recipeId = row.id → row.Leaves ∧
      row.applyIdempotencyKey = some v.input.idempotencyKey ∧
      ∃ exported, exportSource x row = .ok (v.input.path, exported) ∧
        v.input.contentBase64 = Base64.b64encode exported.content := by
    intro v hv hid
    obtain ⟨row', hrow', hid', hrest⟩ := h.versions v hv
    obtain rfl := Table.eq_of_key hrow' hrow (hid'.trans hid)
    exact hrest
  refine ⟨fun v hv v' hv' hid hid' => ?_, fun v hv hid => ⟨?_, fun draft next hinfix hdraft hnext => ?_⟩,
    ⟨h.ledger.revision_eq hrow, hlineage.last⟩, fun before after hinfix => ?_, fun happlied => ?_⟩
  · have hkey := (hversion v hv hid).2.1.symm.trans (hversion v' hv' hid').2.1
    exact List.inj_on_of_nodup_map h.distinct hv hv' (Option.some.inj hkey)
  · obtain ⟨draft, next, hinfix, hdraft, hnext⟩ := hlineage.exists_infix (p := EditRecipe.Leaves)
      (fun r hfresh => by simp [EditRecipe.Leaves, hfresh.status]) (hversion v hv hid).1
    exact ⟨draft, next, hinfix, (hlineage.move_of_infix hinfix).of_leaves hdraft hnext⟩
  · obtain ⟨_, _, exported, hexport, hcontent⟩ := hversion v hv hid
    have hmem : next ∈ storedOf row.id w.stored := hinfix.subset (by simp)
    have hsettles := hlineage.related Settles.refl (fun _ _ _ => Settles.trans)
      (fun _ _ => Move.settles) hmem
    have hsame := (exportSource_congr (x := x) hsettles (leaves_of_applying hnext)).trans
      ((hlineage.move_of_infix hinfix).exportSource_eq hdraft hnext)
    exact ⟨exported, hsame.symm.trans hexport, hcontent⟩
  · have hmove := hlineage.move_of_infix hinfix
    exact ⟨hmove.revision_eq, hmove.not_final⟩
  · obtain ⟨v, hv, hid, hversionId, path, exported, hexport, hhash⟩ := h.applied row hrow happlied
    obtain ⟨_, _, exported', hexport', hcontent⟩ := hversion v hv hid
    obtain ⟨rfl, rfl⟩ := Prod.mk.inj (Except.ok.inj (hexport.symm.trans hexport'))
    refine ⟨v, hv, hid, hversionId, exported, hexport, hcontent, ?_⟩
    rw [hhash, exportSource_hash hexport]

/-- Over every run: each recipe is applied at most once, every version is one of a recipe, and an
update that was accepted is the stored change that follows the revision its caller has named. -/
theorem recipes_applied_once (hrun : Run (Step x) Admitted World.empty w) :
    (∀ row ∈ w.recipes, row.AppliedOnce x w) ∧
    (∀ v ∈ w.versions, ∃ row ∈ w.recipes, row.id = v.recipeId) ∧
    (∀ u ∈ w.updates, ∃ n : Nat, u.expectedRevision = n ∧
      ∃ r, (storedOf u.recipeId w.stored)[n]? = some r ∧ r.operations = u.operations) ∧
    w.updates.Pairwise fun u u' =>
      u.recipeId = u'.recipeId → u.expectedRevision < u'.expectedRevision := by
  have h : w.Sound x := World.sound_empty.run hrun
  refine ⟨fun row hrow => h.appliedOnce hrow, fun v hv => ?_, h.updates, h.ordered⟩
  obtain ⟨row, hrow, hid, _⟩ := h.versions v hv
  exact ⟨row, hrow, hid⟩

end Runs

section Note

def zeroHash : String := "0000000000000000000000000000000000000000000000000000000000000000"

/-- The files of a workspace with one note. -/
def noteFiles : PresentationFiles where
  digest := fun _ => zeroHash
  hex := fun _ => by decide +kernel
  primary := fun _ _ _ => .ok ("note.txt", zeroHash)
  readFile := fun _ _ _ => .ok [104, 105]
  encodedLength := fun operations => operations.length

def noteDraft : RecipeDraft := ⟨1, 2, 3, 4, zeroHash, "text_patch", [], 0⟩

def noteOperations : List Operation :=
  [[("operation", .str "insert"), ("offset", .int 2), ("text", .str "!")]]

def noteArguments : ApplyArguments := ⟨1, 5, 2, 1, "key", true⟩

/-- What a call holds that applies the recipe. -/
def noteApplying : Applying where
  arguments := noteArguments
  recipe := { noteDraft.recipe with operations := noteOperations, revision := 2, updatedAt := 1 }
  applying :=
    { noteDraft.recipe with
      operations := noteOperations
      status := .applying
      revision := 3
      applyIdempotencyKey := some "key"
      updatedAt := 2 }
  sourcePath := "note.txt"
  exported := ⟨[104, 105, 33], zeroHash⟩

def noteApplied : EditRecipe :=
  { noteApplying.applying with
    status := .applied
    revision := 4
    appliedVersionId := some 9
    outputHash := some zeroHash
    updatedAt := 3 }

/-- The recipe is created, updated and applied, and discarded on the way. -/
def noteWorks : List Work :=
  [.create noteDraft, .update 1 1 noteOperations 1, .apply noteArguments 2, .mark noteApplying,
    .discard 1 3, .mutate noteApplying (some 9) 3, .finish noteApplying noteApplied 4]

def noteWorld : World := noteWorks.foldl (World.perform noteFiles) World.empty

theorem note_applied_once : ∃ v ∈ noteWorld.versions, v.recipeId = 1 ∧ ∃ exported,
    exportSource noteFiles noteApplied = .ok (v.input.path, exported) ∧
      v.input.contentBase64 = Base64.b64encode exported.content := by
  have hrun : Run (Step noteFiles) Admitted World.empty noteWorld :=
    Run.foldl (by decide +kernel)
  have hrow : noteApplied ∈ noteWorld.recipes.rows := by decide +kernel
  obtain ⟨v, hv, hid, _, exported, hexport, hcontent, _⟩ :=
    ((recipes_applied_once hrun).1 noteApplied hrow).records rfl
  exact ⟨v, hv, hid, exported, hexport, hcontent⟩

end Note

end Fairy.Presentation
