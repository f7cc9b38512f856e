import Fairy.Lib.Register
import Fairy.Sync.Decisions

namespace Fairy.Sync

open Fairy.Lib

/-- A project in memory, with what has been active at each of its revisions and the
calls of `promote` so far. -/
structure RevisionDesk where
  state : ProjectRevisionState
  past : List (Option String)
  log : List (Submission String)

namespace RevisionDesk

def start (projectId : String) (activeVersionId : Option String) : RevisionDesk :=
  ⟨⟨projectId, 0, activeVersionId, []⟩, [activeVersionId], []⟩

def after (w : RevisionDesk) (x : String × Int) : RevisionDesk :=
  let (outcome, state) := w.state.promote x.1 x.2
  { state
    past := if state.revision = w.state.revision then w.past else w.past ++ [state.activeVersionId]
    log := w.log ++ [⟨x.1, x.2, w.state.revision, !caught outcome⟩] }

abbrev Runs : RevisionDesk → RevisionDesk → Prop :=
  Run (fun w x w' => w' = w.after x) fun _ _ => True

def register (w : RevisionDesk) : Register String :=
  ⟨w.state.revision, w.state.activeVersionId, {v | v ∈ w.state.candidateVersionIds}, w.past, w.log⟩

theorem after_step (w : RevisionDesk) (x : String × Int) :
    w.register.Step x (w.after x).register := by
  obtain ⟨v, e⟩ := x
  by_cases he : e = w.state.revision
  · subst he
    have hp : w.state.promote v w.state.revision = (.ok (), { w.state with
        activeVersionId := some v, revision := w.state.revision + 1,
        candidateVersionIds := w.state.candidateVersionIds.erase v }) := by
      simp [ProjectRevisionState.promote]
    have hafter : (w.after (v, w.state.revision)).register =
        ⟨w.state.revision + 1, some v, {u | u ∈ w.state.candidateVersionIds.erase v},
          w.past ++ [some v], w.log ++ [⟨v, w.state.revision, w.state.revision, true⟩]⟩ := by
      unfold after register
      rw [hp]
      simp [caught]
    rw [hafter]
    refine Register.Step.promoted (r := w.register) fun u hu => ?_
    by_cases hne : u = v
    · exact .inl hne
    · exact .inr ((List.mem_erase_of_ne hne).mpr hu)
  · by_cases hr : w.state.Replays v e
    · have hp : w.state.promote v e = (.ok (), w.state) := by
        simp [ProjectRevisionState.promote, he, hr]
      have hafter : (w.after (v, e)).register =
          { w.register with log := w.log ++ [⟨v, e, w.state.revision, true⟩] } := by
        unfold after register
        rw [hp]
        simp [caught]
      rw [hafter]
      exact .replayed (r := w.register) hr.1 hr.2
    · have hafter : (w.after (v, e)).register =
          { w.register with
            retained := {u | u ∈ (w.state.retain v).candidateVersionIds}
            log := w.log ++ [⟨v, e, w.state.revision, false⟩] } := by
        unfold after register
        rw [ProjectRevisionState.promote_refuses ⟨he, hr⟩]
        simp [caught, ProjectRevisionState.retain]
      rw [hafter]
      refine .retained (r := w.register) (fun u hu => ?_) (.inr ?_)
      · exact ProjectRevisionState.mem_retain_of_mem hu
      · exact ProjectRevisionState.mem_retain

theorem register_start (projectId : String) (active : Option String) :
    (start projectId active).register = Register.start active := by
  unfold start register Register.start
  congr 1
  ext v
  simp

theorem Runs.sound {w w' : RevisionDesk} (h : Runs w w') (hs : w.register.Sound) :
    w'.register.Sound := by
  refine h.invariant (I := fun w => w.register.Sound) (fun v x v' hv _ hstep => ?_) hs
  subst hstep
  exact hv.step (v.after_step x)

end RevisionDesk

/-- The tables, with what has been active at each revision of a project and the
calls of `promote_version` on it that were not rolled back. -/
structure SyncDesk where
  db : SyncDatabase
  past : List (Option String)
  log : List (Submission String)

namespace SyncDesk

def start (db : SyncDatabase) (projectId : String) (activeVersionId : Option String) : SyncDesk :=
  ⟨db.registerProject projectId activeVersionId, [activeVersionId], []⟩

/-- The log after a call. -/
def logged (log : List (Submission String)) (r : PromoteRequest) (found : Nat) :
    Except SyncError ProjectRevisionState → List (Submission String)
  | .ok _ => log ++ [⟨r.versionId, r.expectedRevision, found, true⟩]
  | .error (.versionConflict _) => log ++ [⟨r.versionId, r.expectedRevision, found, false⟩]
  | .error _ => log

section

variable {F : Type} [DecidableEq F] (fingerprint : Json → F) (projectId : String)

def after (w : SyncDesk) (c : PromoteCall) : SyncDesk :=
  let (outcome, db) := w.db.promoteVersion fingerprint c.userId c.request c.draw
  let found := (w.db.project projectId).revision
  { db
    past := if (db.project projectId).revision = found then w.past
      else w.past ++ [(db.project projectId).activeVersionId]
    log := logged w.log c.request found outcome }

/-- Any calls on the project, one after the other. -/
abbrev Runs : SyncDesk → SyncDesk → Prop :=
  Run (fun w c w' => w' = w.after fingerprint projectId c) fun _ c =>
    c.request.projectId = projectId

/-- The register a project is; what is on record are its rows that are candidates. -/
def register (w : SyncDesk) : Register String where
  revision := (w.db.project projectId).revision
  active := (w.db.project projectId).activeVersionId
  retained := {v | ∃ c ∈ w.db.candidates, c.projectId = projectId ∧ c.versionId = v ∧
    c.state = .candidate}
  past := w.past
  log := w.log

/-- The project is known, its register sound, and its candidates that were accepted
have been active. -/
structure Kept (w : SyncDesk) : Prop where
  known : ∃ row ∈ w.db.projects, row.id = projectId
  sound : (w.register projectId).Sound
  accepted : ∀ c ∈ w.db.candidates, c.projectId = projectId → c.state = .accepted →
    some c.versionId ∈ w.past

end

section

variable {F : Type} [DecidableEq F] {fingerprint : Json → F} {projectId : String} {w : SyncDesk}
  {c : PromoteCall}

theorem logged_refused {log : List (Submission String)} {r : PromoteRequest} {found : Nat}
    {error : SyncError} (h : error.conflict = false) : logged log r found (.error error) = log := by
  cases error with
  | versionConflict message => cases h
  | idempotencyConflict message | valueError message | keyError key | runtimeError message => rfl

theorem logged_answer {log : List (Submission String)} {r : PromoteRequest} {found : Nat}
    {decision : Decision} : logged log r found (SyncDatabase.answer r decision) =
      log ++ [⟨r.versionId, r.expectedRevision, found, !decision.conflict⟩] := by
  unfold SyncDatabase.answer
  cases decision.conflict with
  | true => rfl
  | false => rfl

/-- A promotion that meets the revision it expects. -/
theorem Kept.promoted (h : w.Kept projectId) {row : ProjectRow} {r : PromoteRequest}
    {db' : SyncDatabase} (hm : row ∈ w.db.projects) (hid : row.id = r.projectId)
    (hpid : r.projectId = projectId) (he : r.expectedRevision = row.revision)
    (hp : db'.projects = (w.db.acceptVersion r).projects)
    (hc : db'.candidates = (w.db.acceptVersion r).candidates) :
    let w' : SyncDesk := ⟨db', w.past ++ [some r.versionId],
      w.log ++ [⟨r.versionId, r.expectedRevision, row.revision, true⟩]⟩
    db'.project projectId = ⟨row.id, row.revision + 1, some r.versionId⟩ ∧ w'.Kept projectId := by
  have hrow : w.db.project projectId = row := SyncDatabase.project_of_mem hm (hid.trans hpid)
  have hprojects : db'.projects.rows = w.db.projects.rows.map fun p =>
      if p.id = r.projectId ∧ (p.revision : Int) = r.expectedRevision then
        { p with activeVersionId := some r.versionId, revision := p.revision + 1 } else p := by
    rw [hp]
    rfl
  have hcandidates : db'.candidates.rows = w.db.candidates.rows.map fun c =>
      if c.projectId = r.projectId ∧ c.versionId = r.versionId then
        { c with state := .accepted } else c := by
    rw [hc]
    rfl
  have hm' : (⟨row.id, row.revision + 1, some r.versionId⟩ : ProjectRow) ∈ db'.projects :=
    Table.mem_update_of hprojects hm ⟨hid, he.symm⟩
  have hnew := SyncDatabase.project_of_mem hm' (hid.trans hpid)
  refine ⟨hnew, ⟨_, hm', hid.trans hpid⟩, ?_, ?_⟩
  · have hreg : (SyncDesk.mk db' (w.past ++ [some r.versionId]) (w.log ++
        [⟨r.versionId, r.expectedRevision, row.revision, true⟩])).register projectId =
        ⟨(w.register projectId).revision + 1, some r.versionId,
          {v | ∃ c ∈ db'.candidates, c.projectId = projectId ∧ c.versionId = v ∧
            c.state = .candidate}, w.past ++ [some r.versionId], w.log ++
          [⟨r.versionId, (w.register projectId).revision, (w.register projectId).revision,
            true⟩]⟩ := by
      unfold register
      rw [hnew, hrow, he]
    rw [hreg]
    refine h.sound.step (.promoted fun v hv => ?_)
    obtain ⟨c, hcm, hcp, rfl, hcs⟩ := hv
    by_cases hv : c.versionId = r.versionId
    · exact .inl hv
    · exact .inr ⟨c, Table.mem_update_of_not hcandidates hcm (fun hp => hv hp.2), hcp, rfl, hcs⟩
  · intro c hcm hcp hcs
    obtain ⟨b, hb, hbp, rfl⟩ | ⟨hb, _⟩ := Table.update_cases hcandidates hcm
    · exact List.mem_append_right _ (by simp [hbp.2])
    · exact List.mem_append_left _ (h.accepted c hb hcp hcs)

/-- A promotion that repeats the last one. -/
theorem Kept.replayed (h : w.Kept projectId) {row : ProjectRow} {r : PromoteRequest}
    {db' : SyncDatabase} (hm : row ∈ w.db.projects) (hid : row.id = r.projectId)
    (hpid : r.projectId = projectId) (hr : row.state.Replays r.versionId r.expectedRevision)
    (hp : db'.projects = w.db.projects) (hc : db'.candidates = w.db.candidates) :
    (SyncDesk.mk db' w.past (w.log ++
      [⟨r.versionId, r.expectedRevision, row.revision, true⟩])).Kept projectId := by
  have hrow : w.db.project projectId = row := SyncDatabase.project_of_mem hm (hid.trans hpid)
  have hsame : db'.project projectId = w.db.project projectId := by
    unfold SyncDatabase.project
    rw [hp]
  refine ⟨by rw [hp]; exact h.known, ?_, by rw [hc]; exact h.accepted⟩
  have hreg : (SyncDesk.mk db' w.past (w.log ++
      [⟨r.versionId, r.expectedRevision, row.revision, true⟩])).register projectId =
      { w.register projectId with log := w.log ++
        [⟨r.versionId, r.expectedRevision, (w.register projectId).revision, true⟩] } := by
    unfold register
    rw [hsame, hc, hrow]
  rw [hreg]
  refine h.sound.step (.replayed ?_ ?_)
  · change (w.db.project projectId).activeVersionId = _
    rw [hrow]
    exact hr.1
  · change ((w.db.project projectId).revision : Int) = _
    rw [hrow]
    exact hr.2

/-- A promotion that loses. -/
theorem Kept.retained (h : w.Kept projectId) {row : ProjectRow} {r : PromoteRequest}
    {db' : SyncDatabase} (hm : row ∈ w.db.projects) (hid : row.id = r.projectId)
    (hpid : r.projectId = projectId) (hp : db'.projects = w.db.projects)
    (hc : db'.candidates = (w.db.retainVersion r).candidates) :
    (SyncDesk.mk db' w.past (w.log ++
      [⟨r.versionId, r.expectedRevision, row.revision, false⟩])).Kept projectId := by
  have hrow : w.db.project projectId = row := SyncDatabase.project_of_mem hm (hid.trans hpid)
  have hsame : db'.project projectId = w.db.project projectId := by
    unfold SyncDatabase.project
    rw [hp]
  have hnew : ∀ c ∈ db'.candidates, c ∈ w.db.candidates ∨ c.state = .candidate := by
    intro c hcm
    rw [hc] at hcm
    obtain he | hrows := Table.insertOrIgnore_cases w.db.candidates
      { projectId := r.projectId, versionId := r.versionId, baseRevision := r.expectedRevision,
        state := .candidate, manifest := r.manifest }
    · exact .inl (he ▸ hcm)
    · obtain hold | hin := (Table.mem_of_rows_append hrows).mp hcm
      · exact .inl hold
      · exact .inr (by rw [List.mem_singleton.mp hin])
  have haccepted : ∀ c ∈ db'.candidates, c.projectId = projectId → c.state = .accepted →
      some c.versionId ∈ w.past := by
    intro c hcm hcp hcs
    obtain hold | hcand := hnew c hcm
    · exact h.accepted c hold hcp hcs
    · rw [hcs] at hcand
      cases hcand
  refine ⟨by rw [hp]; exact h.known, ?_, haccepted⟩
  have hreg : (SyncDesk.mk db' w.past (w.log ++
      [⟨r.versionId, r.expectedRevision, row.revision, false⟩])).register projectId =
      { w.register projectId with
        retained := {v | ∃ c ∈ db'.candidates, c.projectId = projectId ∧ c.versionId = v ∧
          c.state = .candidate}
        log := w.log ++
          [⟨r.versionId, r.expectedRevision, (w.register projectId).revision, false⟩] } := by
    unfold register
    rw [hsame, hrow]
  rw [hreg]
  refine h.sound.step (.retained (fun v hv => ?_) ?_)
  · obtain ⟨c, hcm, hcp, hcv, hcs⟩ := hv
    exact ⟨c, by rw [hc]; exact Table.subset_insertOrIgnore hcm, hcp, hcv, hcs⟩
  · obtain ⟨c, hcm, hkey⟩ := Table.key_mem_insertOrIgnore (t := w.db.candidates)
      (a := { projectId := r.projectId, versionId := r.versionId,
              baseRevision := r.expectedRevision, state := .candidate, manifest := r.manifest })
      trivial
    have hcp : c.projectId = r.projectId := (Prod.mk.inj hkey).1
    have hcv : c.versionId = r.versionId := (Prod.mk.inj hkey).2
    have hcm' : c ∈ db'.candidates := by
      rw [hc]
      exact hcm
    cases hcs : c.state with
    | accepted => exact .inl (hcv ▸ haccepted c hcm' (hcp.trans hpid) hcs)
    | candidate => exact .inr ⟨c, hcm', hcp.trans hpid, hcv, hcs⟩

theorem Kept.after (h : w.Kept projectId) (hpid : c.request.projectId = projectId) :
    (w.after fingerprint projectId c).Kept projectId := by
  have hout := SyncDatabase.promoteVersion_outcome fingerprint w.db c.userId c.request c.draw
  unfold SyncDesk.after
  dsimp only
  generalize w.db.promoteVersion fingerprint c.userId c.request c.draw = x at hout
  obtain ⟨outcome, db'⟩ := x
  dsimp only at hout ⊢
  cases hout with
  | refused hc =>
    rw [logged_refused hc, if_pos rfl]
    exact h
  | @decided row decision decided db' he hm hid hd hrecord =>
    obtain ⟨hp, hc, _⟩ := SyncDatabase.recordDecision_frame hrecord
    have hrow : w.db.project projectId = row := SyncDatabase.project_of_mem hm (hid.trans hpid)
    rw [logged_answer, hrow]
    cases hd with
    | promoted he =>
      obtain ⟨hnew, hkept⟩ := h.promoted hm hid hpid he hp hc
      rw [hnew, if_neg (Nat.succ_ne_self _)]
      exact hkept
    | replayed he hr =>
      have hsame : db'.project projectId = row := by
        rw [← hrow]
        unfold SyncDatabase.project
        rw [hp]
      rw [hsame, if_pos rfl]
      exact h.replayed hm hid hpid hr hp hc
    | retained hr =>
      have hsame : db'.project projectId = row := by
        rw [← hrow]
        unfold SyncDatabase.project
        rw [hp]
        rfl
      rw [hsame, if_pos rfl]
      exact h.retained hm hid hpid hp hc

theorem Kept.start {db : SyncDatabase} {active : Option String}
    (hp : ∀ p ∈ db.projects, p.id ≠ projectId)
    (hc : ∀ c ∈ db.candidates, c.projectId ≠ projectId) :
    (start db projectId active).Kept projectId ∧
      (SyncDesk.start db projectId active).register projectId = Register.start active := by
  have hrows : (db.registerProject projectId active).projects.rows =
      db.projects.rows ++ [⟨projectId, 0, active⟩] := Table.insertOrIgnore_of_fresh trivial hp
  have hm : (⟨projectId, 0, active⟩ : ProjectRow) ∈
      (db.registerProject projectId active).projects :=
    (Table.mem_of_rows_append hrows).mpr (.inr List.mem_cons_self)
  have hreg : (SyncDesk.start db projectId active).register projectId = Register.start active := by
    have hrow : (db.registerProject projectId active).project projectId = _ :=
      SyncDatabase.project_of_mem hm rfl
    unfold register SyncDesk.start Register.start
    rw [hrow]
    congr 1
    ext v
    simp only [Set.mem_ofPred_eq, Set.mem_empty_iff_false, iff_false]
    rintro ⟨c, hcm, hcp, _⟩
    exact hc c hcm hcp
  refine ⟨⟨⟨_, hm, rfl⟩, hreg ▸ .start active, fun c hcm hcp _ => absurd hcp (hc c hcm)⟩, hreg⟩

theorem Runs.kept {w' : SyncDesk} (h : Runs fingerprint projectId w w')
    (hw : w.Kept projectId) : w'.Kept projectId := by
  refine h.invariant (I := fun w => w.Kept projectId) (fun v c v' hv hc hstep => ?_) hw
  subst hstep
  exact hv.after hc

end

end SyncDesk

/-- Promotions are a compare-and-set that loses nothing: on a project in memory and,
for the calls that are not rolled back, on a project that is registered in the
database. -/
theorem promotions_lossless {F : Type} [DecidableEq F] (fingerprint : Json → F)
    (projectId : String) (active : Option String) :
    (∀ w, RevisionDesk.Runs (.start projectId active) w → w.register.Lossless) ∧
      ∀ db : SyncDatabase, (∀ p ∈ db.projects, p.id ≠ projectId) →
        (∀ c ∈ db.candidates, c.projectId ≠ projectId) →
          ∀ w, SyncDesk.Runs fingerprint projectId (.start db projectId active) w →
            (w.register projectId).Lossless := by
  refine ⟨fun w h => (h.sound ?_).lossless, fun db hp hc w h => ?_⟩
  · rw [RevisionDesk.register_start]
    exact .start active
  · exact (h.kept (SyncDesk.Kept.start hp hc).1).sound.lossless

/-- A device's promotion of a version, with the event that is to record the decision. -/
def deviceCall (versionId eventId : String) (taskSequence expectedRevision : Int) :
    PromoteCall where
  userId := "user"
  request :=
    { projectId := "project", versionId, expectedRevision, manifest := [],
      decisionEventId := some eventId, deviceId := some "device",
      conversationId := some "conversation", taskId := some "task",
      taskSequence := some taskSequence }
  draw := ⟨1, 0⟩

def deskAfter (calls : List PromoteCall) : SyncDesk :=
  calls.foldl (SyncDesk.after id "project") (.start (.empty "tenant") "project" none)

theorem promotions_lossless_first :
    ((deskAfter [deviceCall "a" "1" 1 0]).register "project").Lossless :=
  (promotions_lossless id "project" none).2 (.empty "tenant") nofun nofun _
    (Run.single (i := deviceCall "a" "1" 1 0) rfl rfl)

/-- A promotion whose decision event wants a place in the task that another event has
is rolled back: the version has not been active and is no candidate. -/
theorem promotion_rolled_back :
    ((deskAfter [deviceCall "a" "1" 1 0]).db.promoteVersion id "user"
      (deviceCall "b" "2" 1 0).request ⟨2, 0⟩).1 =
        .error (.idempotencyConflict "task sequence 1 is already owned by event 1") ∧
      some "b" ∉ (deskAfter [deviceCall "a" "1" 1 0, deviceCall "b" "2" 1 0]).past ∧
      ∀ c ∈ (deskAfter [deviceCall "a" "1" 1 0, deviceCall "b" "2" 1 0]).db.candidates.rows,
        c.versionId ≠ "b" := by
  refine ⟨rfl, by decide, by decide⟩

end Fairy.Sync
