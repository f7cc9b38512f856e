import Fairy.Preview.Store

namespace Fairy.Preview

open Fairy.Lib

/-- What a transaction does to a Runtime and its Preview. -/
structure Moved (s s' : StateStore) (r r' : RuntimeSession) (p p' : PreviewSession) : Prop where
  runtimes : Table.Replaces s.runtimes s'.runtimes r r'
  previews : Table.Replaces s.previews s'.previews p p'
  link : p.runtimeId = r.id
  runtimeId : p'.runtimeId = p.runtimeId
  scope : p'.scope = p.scope
  runtimeKey : r'.idempotencyKey = r.idempotencyKey
  previewKey : p'.idempotencyKey = p.idempotencyKey
  coupled : Coupled p' r'
  alone : p'.status.terminal = false → ∀ q ∈ s.previews, q.scope.taskId = p.scope.taskId →
    q.status.terminal = false → q.id = p.id

/-- What a transaction does to the sessions. -/
inductive Evolves (s s' : StateStore) : Prop
  | still (runtimes : s'.runtimes = s.runtimes) (previews : s'.previews = s.previews)
  | added (r : RuntimeSession) (p : PreviewSession)
    (runtimes : s'.runtimes.rows = s.runtimes.rows ++ [r])
    (previews : s'.previews.rows = s.previews.rows ++ [p])
    (fresh : ∀ a ∈ s.runtimes, a.id ≠ r.id) (link : p.runtimeId = r.id)
    (key : r.idempotencyKey = p.idempotencyKey ++ ":runtime") (coupled : Coupled p r)
    (alone : ∀ q ∈ s.previews, q.scope.taskId = p.scope.taskId → q.status.terminal = true)
  | moved (r r' : RuntimeSession) (p p' : PreviewSession) (moved : Moved s s' r r' p p')

/-- The sessions of a store, in step. -/
structure Sound (s : StateStore) : Prop where
  linked : ∀ p ∈ s.previews, ∃ r ∈ s.runtimes, r.id = p.runtimeId
  single : ∀ p ∈ s.previews, ∀ q ∈ s.previews, p.runtimeId = q.runtimeId → p = q
  coupled : ∀ p ∈ s.previews, ∀ r ∈ s.runtimes, r.id = p.runtimeId → Coupled p r
  unique : ∀ p ∈ s.previews, ∀ q ∈ s.previews, p.scope.taskId = q.scope.taskId →
    p.status.terminal = false → q.status.terminal = false → p = q
  keyed : ∀ r ∈ s.runtimes, ∃ p ∈ s.previews, p.runtimeId = r.id ∧
    r.idempotencyKey = p.idempotencyKey ++ ":runtime"

section Keeping

variable {s s' : StateStore} {r r' : RuntimeSession} {p p' q : PreviewSession}

theorem Sound.added (hs : Sound s) (hr : s'.runtimes.rows = s.runtimes.rows ++ [r])
    (hp : s'.previews.rows = s.previews.rows ++ [p]) (hfresh : ∀ a ∈ s.runtimes, a.id ≠ r.id)
    (hlink : p.runtimeId = r.id) (hkey : r.idempotencyKey = p.idempotencyKey ++ ":runtime")
    (hcoupled : Coupled p r)
    (halone : ∀ q ∈ s.previews, q.scope.taskId = p.scope.taskId → q.status.terminal = true) :
    Sound s' := by
  have hpreview : ∀ q ∈ s'.previews, q ∈ s.previews ∨ q = p := fun q hq =>
    ((Table.mem_of_rows_append hp).mp hq).imp_right List.mem_singleton.mp
  have hruntime : ∀ a ∈ s'.runtimes, a ∈ s.runtimes ∨ a = r := fun a ha =>
    ((Table.mem_of_rows_append hr).mp ha).imp_right List.mem_singleton.mp
  -- a Preview of before is not bound to the new Runtime
  have hother : ∀ q ∈ s.previews, q.runtimeId ≠ r.id := by
    intro q hq hid
    obtain ⟨a, ha, haid⟩ := hs.linked q hq
    exact hfresh a ha (haid.trans hid)
  refine ⟨fun q hq => ?_, fun q hq t ht hid => ?_, fun q hq a ha hid => ?_,
    fun q hq t ht htask hqt htt => ?_, fun a ha => ?_⟩
  · obtain hq | rfl := hpreview q hq
    · obtain ⟨a, ha, haid⟩ := hs.linked q hq
      exact ⟨a, (Table.mem_of_rows_append hr).mpr (.inl ha), haid⟩
    · exact ⟨r, (Table.mem_of_rows_append hr).mpr (.inr (List.mem_singleton_self r)), hlink.symm⟩
  · obtain hq | rfl := hpreview q hq <;> obtain ht | rfl := hpreview t ht
    · exact hs.single q hq t ht hid
    · exact absurd (hid.trans hlink) (hother q hq)
    · exact absurd (hid.symm.trans hlink) (hother t ht)
    · rfl
  · obtain hq | rfl := hpreview q hq <;> obtain ha | rfl := hruntime a ha
    · exact hs.coupled q hq a ha hid
    · exact absurd hid.symm (hother q hq)
    · exact absurd (hid.trans hlink) (hfresh a ha)
    · exact hcoupled
  · obtain hq | rfl := hpreview q hq <;> obtain ht | rfl := hpreview t ht
    · exact hs.unique q hq t ht htask hqt htt
    · simp [halone q hq htask] at hqt
    · simp [halone t ht htask.symm] at htt
    · rfl
  · obtain ha | rfl := hruntime a ha
    · obtain ⟨q, hq, hqlink⟩ := hs.keyed a ha
      exact ⟨q, (Table.mem_of_rows_append hp).mpr (.inl hq), hqlink⟩
    · exact ⟨p, (Table.mem_of_rows_append hp).mpr (.inr (List.mem_singleton_self p)), hlink, hkey⟩

theorem Sound.moved (hs : Sound s) (h : Moved s s' r r' p p') : Sound s' := by
  have hpreview : ∀ q ∈ s'.previews, q = p' ∨ q ∈ s.previews ∧ q.id ≠ p.id := fun q hq =>
    h.previews.cases hq
  have hruntime : ∀ a ∈ s'.runtimes, a = r' ∨ a ∈ s.runtimes ∧ a.id ≠ r.id := fun a ha =>
    h.runtimes.cases ha
  have hp := h.previews.1
  -- no other Preview is bound to the Runtime
  have hother : ∀ q ∈ s.previews, q.id ≠ p.id → q.runtimeId ≠ p.runtimeId := by
    intro q hq hne hid
    exact hne (congrArg (·.id) (hs.single q hq p hp hid))
  refine ⟨fun q hq => ?_, fun q hq t ht hid => ?_, fun q hq a ha hid => ?_,
    fun q hq t ht htask hqt htt => ?_, fun a ha => ?_⟩
  · obtain rfl | ⟨hq, _⟩ := hpreview q hq
    · exact ⟨r', h.runtimes.mem, h.runtimes.2.1.trans (h.runtimeId.trans h.link).symm⟩
    · obtain ⟨a, ha, haid⟩ := hs.linked q hq
      obtain ⟨b, hb, hbid⟩ := h.runtimes.key_mem ha
      exact ⟨b, hb, hbid.trans haid⟩
  · obtain rfl | ⟨hq, hqne⟩ := hpreview q hq <;> obtain rfl | ⟨ht, htne⟩ := hpreview t ht
    · rfl
    · exact absurd (hid.symm.trans h.runtimeId) (hother t ht htne)
    · exact absurd (hid.trans h.runtimeId) (hother q hq hqne)
    · exact hs.single q hq t ht hid
  · obtain rfl | ⟨hq, hqne⟩ := hpreview q hq <;> obtain rfl | ⟨ha, hane⟩ := hruntime a ha
    · exact h.coupled
    · exact absurd (hid.trans (h.runtimeId.trans h.link)) hane
    · exact absurd (hid.symm.trans (h.runtimes.2.1.trans h.link.symm)) (hother q hq hqne)
    · exact hs.coupled q hq a ha hid
  · obtain rfl | ⟨hq, hqne⟩ := hpreview q hq <;> obtain rfl | ⟨ht, htne⟩ := hpreview t ht
    · rfl
    · rw [h.scope] at htask
      exact absurd (h.alone hqt t ht htask.symm htt) htne
    · rw [h.scope] at htask
      exact absurd (h.alone htt q hq htask hqt) hqne
    · exact hs.unique q hq t ht htask hqt htt
  · obtain rfl | ⟨ha, hane⟩ := hruntime a ha
    · obtain ⟨q, hq, hqlink, hqkey⟩ := hs.keyed r h.runtimes.1
      obtain rfl := hs.single q hq p hp (hqlink.trans h.link.symm)
      refine ⟨p', h.previews.mem, ?_, ?_⟩
      · exact h.runtimeId.trans (hqlink.trans h.runtimes.2.1.symm)
      · rw [h.runtimeKey, h.previewKey, hqkey]
    · obtain ⟨q, hq, hqlink, hqkey⟩ := hs.keyed a ha
      refine ⟨q, h.previews.mem_other hq fun hid => ?_, hqlink, hqkey⟩
      obtain rfl := Table.eq_of_key hq hp hid
      exact hane (hqlink.symm.trans h.link)

theorem Sound.evolves (hs : Sound s) (h : Evolves s s') : Sound s' := by
  cases h with
  | still hr hp =>
    refine ⟨?_, ?_, ?_, ?_, ?_⟩ <;> rw [hp]
    · rw [hr]
      exact hs.linked
    · exact hs.single
    · rw [hr]
      exact hs.coupled
    · exact hs.unique
    · rw [hr]
      exact hs.keyed
  | added r p hr hp hfresh hlink hkey hcoupled halone =>
    exact hs.added hr hp hfresh hlink hkey hcoupled halone
  | moved r r' p p' h => exact hs.moved h

/-- A Preview keeps the Runtime that it is bound to. -/
theorem Evolves.bound (h : Evolves s s') (hq : q ∈ s.previews) :
    ∃ q' ∈ s'.previews, q'.id = q.id ∧ q'.runtimeId = q.runtimeId := by
  cases h with
  | still hr hp => exact ⟨q, hp ▸ hq, rfl, rfl⟩
  | added r p hr hp =>
    exact ⟨q, (Table.mem_of_rows_append hp).mpr (.inl hq), rfl, rfl⟩
  | moved r r' p p' h =>
    by_cases hid : q.id = p.id
    · obtain rfl := Table.eq_of_key hq h.previews.1 hid
      exact ⟨p', h.previews.mem, h.previews.2.1, h.runtimeId⟩
    · exact ⟨q, h.previews.mem_other hq hid, rfl, rfl⟩

end Keeping

section Saving

variable {s s' : StateStore} {r r' : RuntimeSession} {p p' : PreviewSession}

theorem requireRuntime_spec {id : Uuid} (h : s.requireRuntime id = .ok r) :
    r ∈ s.runtimes ∧ r.id = id := by
  simp only [StateStore.requireRuntime] at h
  split at h
  · rename_i found hfound
    obtain rfl := pure_ok h
    exact Table.find?_eq_some.mp hfound
  · cases h

theorem requirePreview_spec {id : Uuid} (h : s.requirePreview id = .ok p) :
    p ∈ s.previews ∧ p.id = id := by
  simp only [StateStore.requirePreview] at h
  split at h
  · rename_i found hfound
    obtain rfl := pure_ok h
    exact Table.find?_eq_some.mp hfound
  · cases h

theorem replaces_writeRuntime (hr : r ∈ s.runtimes) (hid : r'.id = r.id) :
    Table.Replaces s.runtimes (writeRuntime r' r.revision s.runtimes) r r' := by
  have h := Table.replaces_update (t := s.runtimes) (a := r)
    (p := fun a => a.id = r'.id ∧ a.revision = r.revision)
    (f := fun a => if a.id = r'.id then r' else a)
    (u := writeRuntime r' r.revision s.runtimes) rfl hr ⟨hid.symm, rfl⟩
    (fun b _ hb => hb.1.trans hid) (by simp [hid.symm])
  rwa [if_pos hid.symm] at h

theorem replaces_writePreview (hp : p ∈ s.previews) (hid : p'.id = p.id) :
    Table.Replaces s.previews (writePreview p' p.revision s.previews) p p' := by
  have h := Table.replaces_update (t := s.previews) (a := p)
    (p := fun a => a.id = p'.id ∧ a.revision = p.revision)
    (f := fun a => if a.id = p'.id then p' else a)
    (u := writePreview p' p.revision s.previews) rfl hp ⟨hid.symm, rfl⟩
    (fun b _ hb => hb.1.trans hid) (by simp [hid.symm])
  rwa [if_pos hid.symm] at h

theorem saveRuntime_spec (hr : r ∈ s.runtimes) (hid : r'.id = r.id)
    (h : s.saveRuntime r' r.revision = .ok s') :
    Table.Replaces s.runtimes s'.runtimes r r' ∧ s'.previews = s.previews := by
  simp only [StateStore.saveRuntime] at h
  split at h
  · cases h
  · split at h
    · obtain rfl := pure_ok h
      exact ⟨replaces_writeRuntime hr hid, rfl⟩
    · cases h

/-- `save_preview` refuses a second Preview of the task that is not terminal. -/
theorem savePreview_spec (hp : p ∈ s.previews) (hid : p'.id = p.id) (hscope : p'.scope = p.scope)
    (h : s.savePreview p' p.revision = .ok s') :
    Table.Replaces s.previews s'.previews p p' ∧ s'.runtimes = s.runtimes ∧
      (p'.status.terminal = false → ∀ q ∈ s.previews, q.scope.taskId = p.scope.taskId →
        q.status.terminal = false → q.id = p.id) := by
  simp only [StateStore.savePreview] at h
  split at h
  · cases h
  · split at h
    · cases h
    · rename_i halone
      split at h
      · obtain rfl := pure_ok h
        refine ⟨replaces_writePreview hp hid, rfl, fun hopen q hq htask hqopen => ?_⟩
        by_contra hne
        refine halone ⟨hopen, q, hq, ?_, hqopen, ?_⟩
        · rw [hscope]
          exact htask
        · rw [hid]
          exact hne
      · cases h

/-- A Runtime and a Preview that have been moved together. -/
structure Together (r r' : RuntimeSession) (p p' : PreviewSession) (target : PreviewStatus) :
    Prop where
  runtime : r.Moves r' target.runtime
  preview : p.Moves p' target
  handle : p'.url.isSome = r'.executorHandle.isSome

theorem Together.coupled {target : PreviewStatus} (h : Together r r' p p' target) :
    Coupled p' r' :=
  ⟨by rw [h.runtime.status, h.preview.status], h.handle⟩

theorem saveSessions_spec {target : PreviewStatus} (hr : r ∈ s.runtimes) (hp : p ∈ s.previews)
    (hlink : p.runtimeId = r.id) (ht : Together r r' p p' target)
    (h : s.saveSessions r' r.revision p' p.revision = .ok s') : Moved s s' r r' p p' := by
  obtain ⟨t, hruntime, h⟩ := bind_ok h
  obtain ⟨hreplaces, hpreviews⟩ := saveRuntime_spec hr ht.runtime.id hruntime
  have hp' : p ∈ t.previews := hpreviews ▸ hp
  obtain ⟨hpreview, hruntimes, halone⟩ := savePreview_spec hp' ht.preview.id ht.preview.scope h
  refine ⟨hruntimes ▸ hreplaces, hpreviews ▸ hpreview, hlink, ht.preview.runtimeId,
    ht.preview.scope, ht.runtime.key, ht.preview.key, ht.coupled, ?_⟩
  rw [hpreviews] at halone
  exact halone

/-- Moving each session if it is in its phases moves both, or none. -/
theorem moves_spec {phases : List PreviewStatus} {phases' : List RuntimeStatus} {t : StateStore}
    {mark : RuntimeSession → Except RuntimeError RuntimeSession}
    {mark' : PreviewSession → Except RuntimeError PreviewSession}
    (hr : r ∈ s.runtimes) (hp : p ∈ s.previews) (hlink : p.runtimeId = r.id)
    (hphase : r.status ∈ phases' ↔ p.status ∈ phases)
    (hmark : ∀ r' p', r.status ∈ phases' → mark r = .ok r' → mark' p = .ok p' →
      ∃ target, Together r r' p p' target)
    (hruntime : s.moveRuntime r phases' mark = .ok t)
    (hpreview : t.movePreview p phases mark' = .ok s') : Evolves s s' := by
  simp only [StateStore.moveRuntime] at hruntime
  simp only [StateStore.movePreview] at hpreview
  split at hruntime
  · rename_i hin
    rw [if_pos (hphase.mp hin)] at hpreview
    obtain ⟨r', hr', hruntime⟩ := bind_ok hruntime
    obtain ⟨p', hp', hpreview⟩ := bind_ok hpreview
    obtain ⟨target, ht⟩ := hmark r' p' hin hr' hp'
    have hsaved : s.saveSessions r' r.revision p' p.revision = .ok s' := by
      simp only [StateStore.saveSessions]
      rw [hruntime]
      exact hpreview
    exact .moved r r' p p' (saveSessions_spec hr hp hlink ht hsaved)
  · rename_i hout
    rw [if_neg fun hin => hout (hphase.mpr hin)] at hpreview
    obtain rfl := pure_ok hruntime
    obtain rfl := pure_ok hpreview
    exact .still rfl rfl

end Saving

section Transactions

variable {x : UrlRule} {s s' t : StateStore} {r r' : RuntimeSession} {p p' : PreviewSession}
variable {intent : Intent} {error : RuntimeError} {answer : Answer}

theorem Evolves.of_sessions (h : Evolves s t) (hr : s'.runtimes = t.runtimes)
    (hp : s'.previews = t.previews) : Evolves s s' := by
  cases h with
  | still hruntimes hpreviews => exact .still (hr.trans hruntimes) (hp.trans hpreviews)
  | added r p hruntimes hpreviews hfresh hlink hkey hcoupled halone =>
    exact .added r p (hr ▸ hruntimes) (hp ▸ hpreviews) hfresh hlink hkey hcoupled halone
  | moved r r' p p' h =>
    refine .moved r r' p p' ⟨?_, ?_, h.link, h.runtimeId, h.scope, h.runtimeKey, h.previewKey,
      h.coupled, h.alone⟩
    · rw [hr]
      exact h.runtimes
    · rw [hp]
      exact h.previews

theorem failTask_sessions {id : Uuid} {task : Task} (h : s.failTask id task = .ok s') :
    s'.runtimes = s.runtimes ∧ s'.previews = s.previews := by
  simp only [StateStore.failTask] at h
  split at h
  · obtain ⟨_, _, h⟩ := bind_ok h
    obtain rfl := pure_ok h
    exact ⟨rfl, rfl⟩
  · obtain rfl := pure_ok h
    exact ⟨rfl, rfl⟩

/-- The Preview is bound to the Runtime. -/
def Bound (s : StateStore) (runtimeId previewId : Uuid) : Prop :=
  ∃ p ∈ s.previews, p.id = previewId ∧ p.runtimeId = runtimeId

theorem Bound.link {runtimeId previewId : Uuid} (h : Bound s runtimeId previewId)
    (hr : s.requireRuntime runtimeId = .ok r) (hp : s.requirePreview previewId = .ok p) :
    r ∈ s.runtimes ∧ p ∈ s.previews ∧ p.runtimeId = r.id := by
  obtain ⟨hrmem, hrid⟩ := requireRuntime_spec hr
  obtain ⟨hpmem, hpid⟩ := requirePreview_spec hp
  obtain ⟨q, hq, hqid, hqlink⟩ := h
  obtain rfl := Table.eq_of_key hq hpmem (hqid.trans hpid.symm)
  exact ⟨hrmem, hpmem, hqlink.trans hrid.symm⟩

theorem starting_iff (hc : Coupled p r) :
    r.status ∈ [RuntimeStatus.starting] ↔ p.status ∈ [PreviewStatus.starting] := by
  rw [hc.phase]
  cases p.status <;> decide

theorem stopping_iff (hc : Coupled p r) :
    r.status ∈ [RuntimeStatus.stopping] ↔ p.status ∈ [PreviewStatus.stopping] := by
  rw [hc.phase]
  cases p.status <;> decide

theorem recoverable_iff (hc : Coupled p r) :
    r.status ∈ [RuntimeStatus.created, .starting, .running, .stopping] ↔
      p.status ∈ [PreviewStatus.created, .starting, .ready, .stopping] := by
  rw [hc.phase]
  cases p.status <;> decide

theorem together_failed (hr : r.status ∈ [RuntimeStatus.starting])
    (hr' : r.markFailed error.errorCode = .ok r') (hp' : p.markFailed error.errorCode = .ok p') :
    Together r r' p p' .failed := by
  obtain ⟨hmoves, hhandle⟩ := RuntimeSession.markFailed_spec hr'
  obtain ⟨hmoves', hurl⟩ := PreviewSession.markFailed_spec hp'
  refine ⟨hmoves, hmoves', ?_⟩
  rw [hurl, hhandle, r.valid.inactive (by simp [List.mem_singleton.mp hr])]

theorem together_interrupted (hc : Coupled p r) (hr' : r.markInterrupted error.errorCode = .ok r')
    (hp' : p.markInterrupted error.errorCode = .ok p') : Together r r' p p' .interrupted := by
  obtain ⟨hmoves, hhandle⟩ := RuntimeSession.markInterrupted_spec hr'
  obtain ⟨hmoves', hurl⟩ := PreviewSession.markInterrupted_spec hp'
  exact ⟨hmoves, hmoves', by rw [hurl, hhandle, hc.handle]⟩

theorem together_ready {handle url : String} {port : Nat}
    (hr' : r.markRunning handle port = .ok r') (hp' : p.markReady x url = .ok p') :
    Together r r' p p' .ready := by
  obtain ⟨hmoves, hhandle⟩ := RuntimeSession.markRunning_spec hr'
  obtain ⟨hmoves', hurl⟩ := PreviewSession.markReady_spec hp'
  exact ⟨hmoves, hmoves', hurl.trans hhandle.symm⟩

theorem together_stopping (hc : Coupled p r) (hr' : r.beginStop = .ok r')
    (hp' : p.beginStop = .ok p') : Together r r' p p' .stopping := by
  obtain ⟨hmoves, hhandle⟩ := RuntimeSession.beginStop_spec hr'
  obtain ⟨hmoves', hurl⟩ := PreviewSession.beginStop_spec hp'
  exact ⟨hmoves, hmoves', by rw [hurl, hhandle, hc.handle]⟩

theorem together_stopped (hr' : r.markStopped = .ok r') (hp' : p.markStopped = .ok p') :
    Together r r' p p' .stopped := by
  obtain ⟨hmoves, hhandle⟩ := RuntimeSession.markStopped_spec hr'
  obtain ⟨hmoves', hurl⟩ := PreviewSession.markStopped_spec hp'
  exact ⟨hmoves, hmoves', by rw [hurl, hhandle]⟩

theorem together_starting (hr' : r.beginStart = .ok r') (hp' : p.beginStart = .ok p') :
    Together r r' p p' .starting := by
  obtain ⟨hmoves, hhandle⟩ := RuntimeSession.beginStart_spec hr'
  obtain ⟨hmoves', hurl⟩ := PreviewSession.beginStart_spec hp'
  exact ⟨hmoves, hmoves', by rw [hurl, hhandle]⟩

theorem evolves_restart {existing : PreviewSession} {request : PreviewStartRequest}
    {template : Except RuntimeError RuntimeTemplate} {outcome : StartOutcome}
    (he : existing ∈ s.previews)
    (h : s.restart existing request template answer = .ok (s', outcome)) :
    Evolves s s' ∧ ∀ i, outcome = .intent i → Bound s i.runtimeId i.previewId := by
  simp only [StateStore.restart] at h
  split at h
  · cases h
  obtain ⟨_, _, h⟩ := bind_ok h
  obtain ⟨task, _, h⟩ := bind_ok h
  obtain ⟨runtime, hruntime, h⟩ := bind_ok h
  obtain ⟨hr, hrid⟩ := requireRuntime_spec hruntime
  split at h
  · obtain ⟨rfl, rfl⟩ := Prod.mk.inj (pure_ok h)
    exact ⟨.still rfl rfl, nofun⟩
  split at h
  · cases h
  obtain ⟨task', _, h⟩ := bind_ok h
  obtain ⟨made, _, h⟩ := bind_ok h
  split at h
  · cases h
  split at h
  · cases h
  obtain ⟨r', hr', h⟩ := bind_ok h
  obtain ⟨p', hp', h⟩ := bind_ok h
  obtain ⟨t, hsaved, h⟩ := bind_ok h
  obtain ⟨_, _, h⟩ := bind_ok h
  obtain ⟨rfl, rfl⟩ := Prod.mk.inj (pure_ok h)
  have ht := together_starting hr' hp'
  have hmoved : Moved (s.saveTask request.taskId task') t runtime r' existing p' :=
    saveSessions_spec hr he hrid.symm ht hsaved
  refine ⟨.moved runtime r' existing p' ⟨hmoved.runtimes, hmoved.previews, hmoved.link,
    hmoved.runtimeId, hmoved.scope, hmoved.runtimeKey, hmoved.previewKey, hmoved.coupled,
    hmoved.alone⟩, ?_⟩
  · rintro i hi
    obtain rfl := StartOutcome.intent.inj hi
    exact ⟨existing, he, ht.preview.id.symm, hrid.symm.trans ht.runtime.id.symm⟩

theorem previewForTask_none {taskId : Uuid} (h : s.previewForTask taskId = none) :
    ∀ q ∈ s.previews, q.scope.taskId = taskId → q.status.terminal = true := by
  intro q hq htask
  have hnone := Table.oneOrNone_eq_none.mp h q hq
  cases hterminal : q.status.terminal with
  | true => rfl
  | false => exact absurd ⟨htask, hterminal⟩ hnone

theorem appendPreview_spec (h : s.appendPreview p = .ok s')
    (hkey : ∀ q ∈ s.previews, q.idempotencyKey ≠ p.idempotencyKey) :
    s'.runtimes = s.runtimes ∧ s'.previews.rows = s.previews.rows ++ [p] ∧
      (∃ a ∈ s.runtimes, a.id = p.runtimeId) ∧
      ∀ q ∈ s.previews, q.scope.taskId = p.scope.taskId → q.status.terminal = true := by
  simp only [StateStore.appendPreview] at h
  split at h
  · rename_i existing hexisting
    obtain ⟨hmem, hsame⟩ := Table.oneOrNone_eq_some hexisting
    exact absurd hsame (hkey existing hmem)
  · split at h
    · cases h
    · rename_i hnone
      split at h
      · cases h
      · rename_i hruntime
        split at h
        · rename_i previews hinsert
          obtain rfl := pure_ok h
          refine ⟨rfl, (Table.insertAll_eq_some hinsert).1, ?_,
            previewForTask_none (by simpa using hnone)⟩
          obtain ⟨a, ha⟩ := Option.ne_none_iff_exists'.mp (by simpa using hruntime)
          exact ⟨a, Table.find?_eq_some.mp ha⟩
        · cases h

theorem key_injective {a b : String} (h : a ++ ":runtime" = b ++ ":runtime") : a = b := by
  have hlist := congrArg String.toList h
  rw [String.toList_append, String.toList_append] at hlist
  exact String.toList_inj.mp (List.append_cancel_right hlist)

/-- The Runtime of a new Preview is new: its key is made from a key that no Preview has. -/
theorem appendRuntime_new {key : String} (hs : Sound s) (hrkey : r.idempotencyKey = key ++ ":runtime")
    (hkey : ∀ q ∈ s.previews, q.idempotencyKey ≠ key) (h : s.appendRuntime r = .ok s') :
    s'.previews = s.previews ∧ s'.runtimes.rows = s.runtimes.rows ++ [r] ∧
      ∀ a ∈ s.runtimes, a.id ≠ r.id := by
  simp only [StateStore.appendRuntime] at h
  split at h
  · rename_i existing hexisting
    obtain ⟨hmem, hsame⟩ := Table.oneOrNone_eq_some hexisting
    obtain ⟨q, hq, _, hqkey⟩ := hs.keyed existing hmem
    exact absurd (key_injective (hqkey.symm.trans (hsame.trans hrkey))) (hkey q hq)
  · split at h
    · rename_i runtimes hinsert
      obtain rfl := pure_ok h
      obtain ⟨hrows, _, _, hfresh⟩ := Table.insertAll_eq_some hinsert
      exact ⟨rfl, hrows, hfresh r (List.mem_singleton_self r)⟩
    · cases h

theorem evolves_startNew {key : String} {request : PreviewStartRequest}
    {template : Except RuntimeError RuntimeTemplate} {runtimeId previewId : Uuid}
    {outcome : StartOutcome} (hs : Sound s) (hkey : ∀ q ∈ s.previews, q.idempotencyKey ≠ key)
    (h : s.startNew key request template answer runtimeId previewId = .ok (s', outcome)) :
    Evolves s s' ∧ ∀ i, outcome = .intent i → Bound s' i.runtimeId i.previewId := by
  simp only [StateStore.startNew] at h
  obtain ⟨task, _, h⟩ := bind_ok h
  split at h
  · cases h
  obtain ⟨made, _, h⟩ := bind_ok h
  obtain ⟨r, hr, h⟩ := bind_ok h
  obtain ⟨p, hp, h⟩ := bind_ok h
  obtain ⟨t, hruntime, h⟩ := bind_ok h
  obtain ⟨u, hpreview, h⟩ := bind_ok h
  obtain ⟨_, _, h⟩ := bind_ok h
  obtain ⟨rfl, rfl⟩ := Prod.mk.inj (pure_ok h)
  have ht := together_starting hr hp
  obtain ⟨hpreviews, hrows, hfresh⟩ := appendRuntime_new hs ht.runtime.key hkey hruntime
  have hpkey : ∀ q ∈ t.previews, q.idempotencyKey ≠ p.idempotencyKey := by
    rw [hpreviews, ht.preview.key]
    exact hkey
  obtain ⟨hruntimes, hprows, _, halone⟩ := appendPreview_spec hpreview hpkey
  rw [hpreviews] at hprows halone
  have hlink : p.runtimeId = r.id := ht.preview.runtimeId.trans ht.runtime.id.symm
  refine ⟨.added r p (hruntimes ▸ hrows) hprows hfresh hlink ?_ ht.coupled halone, ?_⟩
  · rw [ht.runtime.key, ht.preview.key]
    rfl
  · rintro i hi
    obtain rfl := StartOutcome.intent.inj hi
    exact ⟨p, (Table.mem_of_rows_append hprows).mpr (.inr (List.mem_singleton_self p)),
      ht.preview.id, ht.preview.runtimeId⟩

theorem evolves_prepareStart {request : PreviewStartRequest}
    {template : Except RuntimeError RuntimeTemplate} {runtimeId previewId : Uuid}
    {outcome : StartOutcome} (hs : Sound s)
    (h : s.prepareStart request template answer runtimeId previewId = .ok (s', outcome)) :
    Evolves s s' ∧ ∀ i, outcome = .intent i → Bound s' i.runtimeId i.previewId := by
  simp only [StateStore.prepareStart] at h
  split at h
  · rename_i existing hexisting
    obtain ⟨hmem, _⟩ := Table.oneOrNone_eq_some hexisting
    obtain ⟨hv, hbound⟩ := evolves_restart hmem h
    refine ⟨hv, fun i hi => ?_⟩
    obtain ⟨q, hq, hqid, hqlink⟩ := hbound i hi
    obtain ⟨q', hq', hid, hlink⟩ := hv.bound hq
    exact ⟨q', hq', hid.trans hqid, hlink.trans hqlink⟩
  · rename_i hnone
    exact evolves_startNew hs (Table.oneOrNone_eq_none.mp hnone) h

theorem evolves_finishStart {result : RuntimeStartResult}
    (hb : Bound s intent.runtimeId intent.previewId)
    (h : s.finishStart x intent result answer = .ok s') : Evolves s s' := by
  simp only [StateStore.finishStart] at h
  obtain ⟨p, hp, h⟩ := bind_ok h
  obtain ⟨r, hr, h⟩ := bind_ok h
  obtain ⟨hrmem, hpmem, hlink⟩ := hb.link hr hp
  obtain ⟨task, _, h⟩ := bind_ok h
  split at h
  · obtain rfl := pure_ok h
    exact .still rfl rfl
  obtain ⟨r', hr', h⟩ := bind_ok h
  obtain ⟨p', hp', h⟩ := bind_ok h
  obtain ⟨task', _, h⟩ := bind_ok h
  obtain ⟨t, hsaved, h⟩ := bind_ok h
  obtain ⟨_, _, h⟩ := bind_ok h
  obtain rfl := pure_ok h
  have hmoved := saveSessions_spec hrmem hpmem hlink (together_ready hr' hp') hsaved
  exact Evolves.of_sessions (.moved r r' p p' hmoved) rfl rfl

theorem evolves_failStart (hs : Sound s) (hb : Bound s intent.runtimeId intent.previewId)
    (h : s.failStart intent error answer = .ok s') : Evolves s s' := by
  simp only [StateStore.failStart] at h
  obtain ⟨r, hr, h⟩ := bind_ok h
  obtain ⟨p, hp, h⟩ := bind_ok h
  obtain ⟨hrmem, hpmem, hlink⟩ := hb.link hr hp
  obtain ⟨task, _, h⟩ := bind_ok h
  obtain ⟨t, hruntime, h⟩ := bind_ok h
  obtain ⟨u, hpreview, h⟩ := bind_ok h
  obtain ⟨v, htask, h⟩ := bind_ok h
  obtain ⟨_, _, h⟩ := bind_ok h
  obtain rfl := pure_ok h
  obtain ⟨hruntimes, hpreviews⟩ := failTask_sessions htask
  have hc := hs.coupled p hpmem r hrmem hlink.symm
  exact (moves_spec hrmem hpmem hlink (starting_iff hc)
    (fun r' p' hin hr' hp' => ⟨.failed, together_failed hin hr' hp'⟩) hruntime
    hpreview).of_sessions hruntimes hpreviews

theorem evolves_prepareStop {request : PreviewStopRequest} {outcome : StopOutcome} (hs : Sound s)
    (h : s.prepareStop request answer = .ok (s', outcome)) :
    Evolves s s' ∧ ∀ i, outcome = .intent i → Bound s i.runtimeId i.previewId := by
  simp only [StateStore.prepareStop] at h
  obtain ⟨p, hp, h⟩ := bind_ok h
  obtain ⟨hpmem, _⟩ := requirePreview_spec hp
  obtain ⟨_, _, h⟩ := bind_ok h
  obtain ⟨_, _, h⟩ := bind_ok h
  split at h
  · obtain ⟨rfl, rfl⟩ := Prod.mk.inj (pure_ok h)
    exact ⟨.still rfl rfl, nofun⟩
  split at h
  · cases h
  obtain ⟨r, hr, h⟩ := bind_ok h
  obtain ⟨hrmem, hrid⟩ := requireRuntime_spec hr
  split at h
  · cases h
  split at h
  · cases h
  obtain ⟨_, _, h⟩ := bind_ok h
  obtain ⟨r', hr', h⟩ := bind_ok h
  obtain ⟨p', hp', h⟩ := bind_ok h
  obtain ⟨t, hsaved, h⟩ := bind_ok h
  obtain ⟨_, _, h⟩ := bind_ok h
  obtain ⟨rfl, rfl⟩ := Prod.mk.inj (pure_ok h)
  have hc := hs.coupled p hpmem r hrmem hrid
  refine ⟨.moved r r' p p' (saveSessions_spec hrmem hpmem hrid.symm (together_stopping hc hr' hp')
    hsaved), ?_⟩
  rintro i hi
  obtain rfl := StopOutcome.intent.inj hi
  exact ⟨p, hpmem, rfl, hrid.symm⟩

theorem evolves_finishStop {previewId : Uuid} (h : s.finishStop previewId answer = .ok s') :
    Evolves s s' := by
  simp only [StateStore.finishStop] at h
  obtain ⟨p, hp, h⟩ := bind_ok h
  obtain ⟨hpmem, _⟩ := requirePreview_spec hp
  obtain ⟨r, hr, h⟩ := bind_ok h
  obtain ⟨hrmem, hrid⟩ := requireRuntime_spec hr
  split at h
  · obtain rfl := pure_ok h
    exact .still rfl rfl
  obtain ⟨r', hr', h⟩ := bind_ok h
  obtain ⟨p', hp', h⟩ := bind_ok h
  obtain ⟨t, hsaved, h⟩ := bind_ok h
  obtain ⟨_, _, h⟩ := bind_ok h
  obtain rfl := pure_ok h
  exact .moved r r' p p' (saveSessions_spec hrmem hpmem hrid.symm (together_stopped hr' hp') hsaved)

theorem evolves_interruptStop (hs : Sound s) (hb : Bound s intent.runtimeId intent.previewId)
    (h : s.interruptStop intent error answer = .ok s') : Evolves s s' := by
  simp only [StateStore.interruptStop] at h
  obtain ⟨r, hr, h⟩ := bind_ok h
  obtain ⟨p, hp, h⟩ := bind_ok h
  obtain ⟨hrmem, hpmem, hlink⟩ := hb.link hr hp
  obtain ⟨t, hruntime, h⟩ := bind_ok h
  obtain ⟨u, hpreview, h⟩ := bind_ok h
  obtain ⟨_, _, h⟩ := bind_ok h
  obtain rfl := pure_ok h
  have hc := hs.coupled p hpmem r hrmem hlink.symm
  exact moves_spec hrmem hpmem hlink (stopping_iff hc)
    (fun r' p' _ hr' hp' => ⟨.interrupted, together_interrupted hc hr' hp'⟩) hruntime hpreview

theorem evolves_finishRecoveredStart {runtimeId previewId : Uuid} {probe : RuntimeProbeResult}
    {template : Except RuntimeError RuntimeTemplate} (hs : Sound s)
    (hb : Bound s runtimeId previewId)
    (h : s.finishRecoveredStart x runtimeId previewId probe template answer = .ok s') :
    Evolves s s' := by
  simp only [StateStore.finishRecoveredStart] at h
  obtain ⟨r, hr, h⟩ := bind_ok h
  obtain ⟨p, hp, h⟩ := bind_ok h
  obtain ⟨hrmem, hpmem, hlink⟩ := hb.link hr hp
  obtain ⟨task, _, h⟩ := bind_ok h
  obtain ⟨made, _, h⟩ := bind_ok h
  split at h
  · cases h
  split at h
  · cases h
  obtain ⟨t, hruntime, h⟩ := bind_ok h
  obtain ⟨u, hpreview, h⟩ := bind_ok h
  obtain ⟨task', _, h⟩ := bind_ok h
  obtain ⟨_, _, h⟩ := bind_ok h
  obtain rfl := pure_ok h
  have hc := hs.coupled p hpmem r hrmem hlink.symm
  exact (moves_spec hrmem hpmem hlink (starting_iff hc)
    (fun r' p' _ hr' hp' => ⟨.ready, together_ready hr' hp'⟩) hruntime hpreview).of_sessions rfl rfl

theorem evolves_markRecoveryInterrupted {runtimeId previewId : Uuid} (hs : Sound s)
    (hb : Bound s runtimeId previewId)
    (h : s.markRecoveryInterrupted runtimeId previewId error answer = .ok s') : Evolves s s' := by
  simp only [StateStore.markRecoveryInterrupted] at h
  obtain ⟨r, hr, h⟩ := bind_ok h
  obtain ⟨p, hp, h⟩ := bind_ok h
  obtain ⟨hrmem, hpmem, hlink⟩ := hb.link hr hp
  obtain ⟨task, _, h⟩ := bind_ok h
  obtain ⟨t, hruntime, h⟩ := bind_ok h
  obtain ⟨u, hpreview, h⟩ := bind_ok h
  obtain ⟨v, htask, h⟩ := bind_ok h
  obtain ⟨_, _, h⟩ := bind_ok h
  obtain rfl := pure_ok h
  obtain ⟨hruntimes, hpreviews⟩ := failTask_sessions htask
  have hc := hs.coupled p hpmem r hrmem hlink.symm
  exact (moves_spec hrmem hpmem hlink (recoverable_iff hc)
    (fun r' p' _ hr' hp' => ⟨.interrupted, together_interrupted hc hr' hp'⟩) hruntime
    hpreview).of_sessions hruntimes hpreviews

end Transactions

end Fairy.Preview
