import Fairy.Lib.Run
import Fairy.Preview.Effects

namespace Fairy.Preview

open Fairy.Lib

/-- The transactions of the runtime application, of any number of Core instances, in any order,
and what other applications do to the tasks and workspaces. `recoverRead` reads the sessions that
a recovery, or a replayed start, goes on with. -/
inductive PreviewAct
  | prepareStart (request : PreviewStartRequest) (template : Except RuntimeError RuntimeTemplate)
    (answer : Answer) (runtimeId previewId : Uuid)
  | finishStart (intent : Intent) (result : RuntimeStartResult) (answer : Answer)
  | failStart (intent : Intent) (error : RuntimeError) (answer : Answer)
  | prepareStop (request : PreviewStopRequest) (answer : Answer)
  | finishStop (intent : Intent) (answer : Answer)
  | interruptStop (intent : Intent) (error : RuntimeError) (answer : Answer)
  | recoverRead (runtimeId previewId : Uuid)
  | finishRecoveredStart (runtimeId previewId : Uuid) (probe : RuntimeProbeResult)
    (template : Except RuntimeError RuntimeTemplate) (answer : Answer)
  | finishRecoveredStop (runtimeId previewId : Uuid) (answer : Answer)
  | markRecoveryInterrupted (runtimeId previewId : Uuid) (error : RuntimeError) (answer : Answer)
  | saveTask (id : Uuid) (task : Task)
  | saveWorkspace (id : Uuid) (revision : Nat)

/-- The committed state, the starts and stops under way, and the sessions under recovery. -/
structure World where
  store : StateStore
  starting : List Intent
  stopping : List Intent
  recovering : List (Uuid × Uuid)

namespace World

def initial : World := ⟨⟨.empty, .empty, fun _ => none, fun _ => none⟩, [], [], []⟩

/-- A transaction that raises is rolled back. -/
def put (w : World) : Except RuntimeError StateStore → World
  | .ok store => { w with store }
  | .error _ => w

variable (x : UrlRule)

def after (w : World) : PreviewAct → World
  | .prepareStart request template answer runtimeId previewId =>
    match w.store.prepareStart request template answer runtimeId previewId with
    | .ok (store, .intent intent) => { w with store, starting := w.starting ++ [intent] }
    | .ok (store, .replay _ _) => { w with store }
    | .error _ => w
  | .finishStart intent result answer =>
    if intent ∈ w.starting then
      ({ w with starting := w.starting.erase intent } : World).put
        (w.store.finishStart x intent result answer)
    else w
  | .failStart intent error answer =>
    if intent ∈ w.starting then
      ({ w with starting := w.starting.erase intent } : World).put
        (w.store.failStart intent error answer)
    else w
  | .prepareStop request answer =>
    match w.store.prepareStop request answer with
    | .ok (store, .intent intent) => { w with store, stopping := w.stopping ++ [intent] }
    | .ok (store, .replay _) => { w with store }
    | .error _ => w
  | .finishStop intent answer =>
    if intent ∈ w.stopping then
      ({ w with stopping := w.stopping.erase intent } : World).put
        (w.store.finishStop intent.previewId answer)
    else w
  | .interruptStop intent error answer =>
    if intent ∈ w.stopping then
      ({ w with stopping := w.stopping.erase intent } : World).put
        (w.store.interruptStop intent error answer)
    else w
  | .recoverRead runtimeId previewId =>
    match w.store.previews.find? previewId with
    | some preview =>
      if preview.runtimeId = runtimeId then
        { w with recovering := w.recovering ++ [(runtimeId, previewId)] }
      else w
    | none => w
  | .finishRecoveredStart runtimeId previewId probe template answer =>
    if (runtimeId, previewId) ∈ w.recovering then
      w.put (w.store.finishRecoveredStart x runtimeId previewId probe template answer)
    else w
  | .finishRecoveredStop runtimeId previewId answer =>
    if (runtimeId, previewId) ∈ w.recovering then
      w.put (w.store.finishStop previewId answer)
    else w
  | .markRecoveryInterrupted runtimeId previewId error answer =>
    if (runtimeId, previewId) ∈ w.recovering then
      w.put (w.store.markRecoveryInterrupted runtimeId previewId error answer)
    else w
  | .saveTask id task => { w with store := w.store.saveTask id task }
  | .saveWorkspace id revision =>
    { w with store := { w.store with
        workspaces := Function.update w.store.workspaces id (some revision) } }

def Step (w : World) (act : PreviewAct) (w' : World) : Prop := w' = w.after x act

/-- The sessions are in step, and what is under way is about sessions that belong together. -/
structure Sound (w : World) : Prop where
  store : Preview.Sound w.store
  intents : ∀ i ∈ w.starting ++ w.stopping, Bound w.store i.runtimeId i.previewId
  recovering : ∀ i ∈ w.recovering, Bound w.store i.1 i.2

variable {x} {w w' : World} {act : PreviewAct}

theorem sound_initial : initial.Sound where
  store :=
    ⟨fun p hp => absurd hp (Table.not_mem_empty p), fun p hp => absurd hp (Table.not_mem_empty p),
      fun p hp => absurd hp (Table.not_mem_empty p), fun p hp => absurd hp (Table.not_mem_empty p),
      fun r hr => absurd hr (Table.not_mem_empty r)⟩
  intents _ h := absurd h List.not_mem_nil
  recovering _ h := absurd h List.not_mem_nil

end World

theorem Bound.evolves {s s' : StateStore} {runtimeId previewId : Uuid}
    (hb : Bound s runtimeId previewId) (h : Evolves s s') : Bound s' runtimeId previewId := by
  obtain ⟨p, hp, hid, hlink⟩ := hb
  obtain ⟨q, hq, hqid, hqlink⟩ := h.bound hp
  exact ⟨q, hq, hqid.trans hid, hqlink.trans hlink⟩

namespace World

variable {x : UrlRule} {w w' : World} {act : PreviewAct} {store : StateStore}

/-- What is under way afterwards was under way before, or is about sessions that belong
together. -/
theorem Sound.evolves {starting stopping : List Intent} {recovering : List (Uuid × Uuid)}
    (h : w.Sound) (hv : Evolves w.store store)
    (hintents : ∀ i ∈ starting ++ stopping,
      i ∈ w.starting ++ w.stopping ∨ Bound store i.runtimeId i.previewId)
    (hrecovering : ∀ i ∈ recovering, i ∈ w.recovering ∨ Bound store i.1 i.2) :
    Sound ⟨store, starting, stopping, recovering⟩ := by
  refine ⟨h.store.evolves hv, fun i hi => ?_, fun i hi => ?_⟩
  · obtain hi | hb := hintents i hi
    · exact (h.intents i hi).evolves hv
    · exact hb
  · obtain hi | hb := hrecovering i hi
    · exact (h.recovering i hi).evolves hv
    · exact hb

theorem Sound.put {starting stopping : List Intent} {result : Except RuntimeError StateStore}
    (h : w.Sound) (hv : ∀ store, result = .ok store → Evolves w.store store)
    (hintents : ∀ i ∈ starting ++ stopping, i ∈ w.starting ++ w.stopping) :
    (World.put { w with starting, stopping } result).Sound := by
  cases result with
  | ok store =>
    exact h.evolves (hv store rfl) (fun i hi => .inl (hintents i hi)) fun i hi => .inl hi
  | error e =>
    exact h.evolves (.still rfl rfl) (fun i hi => .inl (hintents i hi)) fun i hi => .inl hi

theorem Sound.erase_starting {intent : Intent} {result : Except RuntimeError StateStore}
    (h : w.Sound) (hv : ∀ store, result = .ok store → Evolves w.store store) :
    (World.put { w with starting := w.starting.erase intent } result).Sound := by
  refine h.put hv fun i hi => ?_
  obtain hi | hi := List.mem_append.mp hi
  · exact List.mem_append_left _ (List.mem_of_mem_erase hi)
  · exact List.mem_append_right _ hi

theorem Sound.erase_stopping {intent : Intent} {result : Except RuntimeError StateStore}
    (h : w.Sound) (hv : ∀ store, result = .ok store → Evolves w.store store) :
    (World.put { w with stopping := w.stopping.erase intent } result).Sound := by
  refine h.put hv fun i hi => ?_
  obtain hi | hi := List.mem_append.mp hi
  · exact List.mem_append_left _ hi
  · exact List.mem_append_right _ (List.mem_of_mem_erase hi)

theorem Sound.step (h : w.Sound) (hs : Step x w act w') : w'.Sound := by
  rw [hs]
  cases act with
  | prepareStart request template answer runtimeId previewId =>
    simp only [after]
    split
    · rename_i store intent hstart
      obtain ⟨hv, hbound⟩ := evolves_prepareStart h.store hstart
      refine h.evolves hv (fun i hi => ?_) fun i hi => .inl hi
      simp only [List.append_assoc, List.mem_append, List.mem_singleton] at hi ⊢
      obtain hi | rfl | hi := hi
      · exact .inl (.inl hi)
      · exact .inr (hbound i rfl)
      · exact .inl (.inr hi)
    · rename_i store runtime preview hstart
      exact h.evolves (evolves_prepareStart h.store hstart).1 (fun i hi => .inl hi)
        fun i hi => .inl hi
    · exact h
  | finishStart intent result answer =>
    simp only [after]
    split
    · rename_i hmem
      exact h.erase_starting fun store hok =>
        evolves_finishStart (h.intents intent (List.mem_append_left _ hmem)) hok
    · exact h
  | failStart intent error answer =>
    simp only [after]
    split
    · rename_i hmem
      exact h.erase_starting fun store hok =>
        evolves_failStart h.store (h.intents intent (List.mem_append_left _ hmem)) hok
    · exact h
  | prepareStop request answer =>
    simp only [after]
    split
    · rename_i store intent hstop
      obtain ⟨hv, hbound⟩ := evolves_prepareStop h.store hstop
      refine h.evolves hv (fun i hi => ?_) fun i hi => .inl hi
      rw [← List.append_assoc] at hi
      obtain hi | hi := List.mem_append.mp hi
      · exact .inl hi
      · obtain rfl := List.mem_singleton.mp hi
        exact .inr ((hbound i rfl).evolves hv)
    · rename_i store preview hstop
      exact h.evolves (evolves_prepareStop h.store hstop).1 (fun i hi => .inl hi)
        fun i hi => .inl hi
    · exact h
  | finishStop intent answer =>
    simp only [after]
    split
    · exact h.erase_stopping fun store hok => evolves_finishStop hok
    · exact h
  | interruptStop intent error answer =>
    simp only [after]
    split
    · rename_i hmem
      exact h.erase_stopping fun store hok =>
        evolves_interruptStop h.store (h.intents intent (List.mem_append_right _ hmem)) hok
    · exact h
  | recoverRead runtimeId previewId =>
    simp only [after]
    split
    · rename_i preview hfind
      split
      · rename_i hlink
        refine h.evolves (.still rfl rfl) (fun i hi => .inl hi) fun i hi => ?_
        obtain hi | hi := List.mem_append.mp hi
        · exact .inl hi
        · obtain rfl := List.mem_singleton.mp hi
          obtain ⟨hmem, hid⟩ := Table.find?_eq_some.mp hfind
          exact .inr ⟨preview, hmem, hid, hlink⟩
      · exact h
    · exact h
  | finishRecoveredStart runtimeId previewId probe template answer =>
    simp only [after]
    split
    · rename_i hmem
      exact h.put (fun store hok =>
        evolves_finishRecoveredStart h.store (h.recovering _ hmem) hok) fun i hi => hi
    · exact h
  | finishRecoveredStop runtimeId previewId answer =>
    simp only [after]
    split
    · exact h.put (fun store hok => evolves_finishStop hok) fun i hi => hi
    · exact h
  | markRecoveryInterrupted runtimeId previewId error answer =>
    simp only [after]
    split
    · rename_i hmem
      exact h.put (fun store hok =>
        evolves_markRecoveryInterrupted h.store (h.recovering _ hmem) hok) fun i hi => hi
    · exact h
  | saveTask id task =>
    exact h.evolves (.still rfl rfl) (fun i hi => .inl hi) fun i hi => .inl hi
  | saveWorkspace id revision =>
    exact h.evolves (.still rfl rfl) (fun i hi => .inl hi) fun i hi => .inl hi

theorem Sound.run {ok : World → PreviewAct → Prop} (h : w.Sound) (hr : Run (Step x) ok w w') :
    w'.Sound := hr.invariant (fun _ _ _ ha _ hs => ha.step hs) h

end World

end Fairy.Preview
