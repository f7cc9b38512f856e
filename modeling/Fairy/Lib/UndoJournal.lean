import Fairy.Lib.FileTree

namespace Fairy.Lib

universe u v

/-- The calls by which a program changes a tree. -/
inductive FileCall (α : Type u) (β : Type v)
  /-- `mkdir` of a directory that may exist. -/
  | ensureDirectory (path : List α)
  | replace (path : List α) (content : β)
  /-- A file is read and its content put at a path. -/
  | copy (source path : List α)
  | read (path : List α)
  | unlink (path : List α)
  /-- `unlink` of what may be missing. -/
  | discard (path : List α)
  /-- The program itself raises. -/
  | raise (message : String)

namespace FileCall

variable {α : Type u} {β : Type v} [DecidableEq α] [DecidableEq β]

def run (t : FileTree α β) : FileCall α β → Except (FileError α) (FileTree α β)
  | ensureDirectory p => if t.IsDirectory p then .ok t else t.mkdir p
  | replace p c => t.replace p c
  | copy source p =>
    match t.files source with
    | none => .error (.notFound source)
    | some c => t.replace p c
  | read p => if t.files p = none then .error (.notFound p) else .ok t
  | unlink p => t.unlink p
  | discard p => if t.node p = none then .ok t else t.unlink p
  | raise message => .error (.raised message)

def runAll (t : FileTree α β) : List (FileCall α β) → Except (FileError α) (FileTree α β)
  | [] => .ok t
  | call :: calls =>
    match call.run t with
    | .error error => .error error
    | .ok t => runAll t calls

/-- The path at which a call writes or removes a file. -/
def target : FileCall α β → Option (List α)
  | replace p _ | copy _ p | unlink p | discard p => some p
  | ensureDirectory _ | read _ | raise _ => none

/-- The calls of a write: the directories above the path, then the file. -/
def write (p : List α) (c : β) : List (FileCall α β) :=
  (FileTree.ancestors p).map ensureDirectory ++ [replace p c]

variable {call : FileCall α β} {calls : List (FileCall α β)} {t u w : FileTree α β}
  {p q : List α} {c : β}

theorem runAll_cons (h : call.run t = .ok u) : runAll t (call :: calls) = runAll u calls := by
  simp only [runAll, h]

theorem runAll_cons_ok (h : runAll t (call :: calls) = .ok w) :
    ∃ u, call.run t = .ok u ∧ runAll u calls = .ok w := by
  cases hc : call.run t with
  | error e => simp [runAll, hc] at h
  | ok u => exact ⟨u, rfl, runAll_cons hc ▸ h⟩

theorem runAll_append {calls' : List (FileCall α β)} (h : runAll t calls = .ok u) :
    runAll t (calls ++ calls') = runAll u calls' := by
  induction calls generalizing t with
  | nil =>
    cases h
    rfl
  | cons call calls ih =>
    obtain ⟨v, hv, h⟩ := runAll_cons_ok h
    rw [List.cons_append, runAll_cons hv, ih h]

theorem runAll_append_ok {calls' : List (FileCall α β)} (h : runAll t (calls ++ calls') = .ok w) :
    ∃ u, runAll t calls = .ok u ∧ runAll u calls' = .ok w := by
  induction calls generalizing t with
  | nil => exact ⟨t, rfl, h⟩
  | cons call calls ih =>
    obtain ⟨v, hv, h⟩ := runAll_cons_ok h
    obtain ⟨u, hu, hw⟩ := ih h
    exact ⟨u, by rw [runAll_cons hv, hu], hw⟩

/-- What a call does to the entries of the tree. -/
theorem run_node (h : call.run t = .ok u) (hq : call.target ≠ some q) :
    u.node q = t.node q ∨ call = ensureDirectory q ∧ t.node q = none ∧ u.IsDirectory q := by
  cases call with
  | ensureDirectory p =>
    simp only [run] at h
    split at h
    · cases h
      exact .inl rfl
    · obtain ⟨hn, hu⟩ := FileTree.mkdir_ok h
      by_cases he : q = p
      · subst he
        exact .inr ⟨rfl, hn, by rw [FileTree.IsDirectory, hu, if_pos rfl]⟩
      · exact .inl (by rw [hu, if_neg he])
  | replace p c =>
    have hne : q ≠ p := fun he => hq (by rw [he]; rfl)
    exact .inl (by rw [(FileTree.replace_ok h).2, if_neg hne])
  | copy source p =>
    have hne : q ≠ p := fun he => hq (by rw [he]; rfl)
    simp only [run] at h
    split at h
    · cases h
    · exact .inl (by rw [(FileTree.replace_ok h).2, if_neg hne])
  | read p =>
    simp only [run] at h
    split at h
    · cases h
    · cases h
      exact .inl rfl
  | unlink p =>
    have hne : q ≠ p := fun he => hq (by rw [he]; rfl)
    exact .inl (by rw [(FileTree.unlink_ok h).2, if_neg hne])
  | discard p =>
    have hne : q ≠ p := fun he => hq (by rw [he]; rfl)
    simp only [run] at h
    split at h
    · cases h
      exact .inl rfl
    · exact .inl (by rw [(FileTree.unlink_ok h).2, if_neg hne])
  | raise message => cases h

/-- The target of a call that succeeds is no directory, before or after. -/
theorem run_target (h : call.run t = .ok u) (hp : call.target = some p) :
    ¬ t.IsDirectory p ∧ ¬ u.IsDirectory p := by
  cases call with
  | ensureDirectory _ => cases hp
  | replace p' c =>
    cases hp
    obtain ⟨hd, hu⟩ := FileTree.replace_ok h
    exact ⟨hd, by rw [FileTree.IsDirectory, hu, if_pos rfl]; simp⟩
  | copy source p' =>
    cases hp
    simp only [run] at h
    split at h
    · cases h
    · obtain ⟨hd, hu⟩ := FileTree.replace_ok h
      exact ⟨hd, by rw [FileTree.IsDirectory, hu, if_pos rfl]; simp⟩
  | read _ => cases hp
  | unlink p' =>
    cases hp
    obtain ⟨hd, hu⟩ := FileTree.unlink_ok h
    exact ⟨hd, by rw [FileTree.IsDirectory, hu, if_pos rfl]; simp⟩
  | discard p' =>
    cases hp
    simp only [run] at h
    split at h
    · rename_i hn
      cases h
      exact ⟨by simp [FileTree.IsDirectory, hn], by simp [FileTree.IsDirectory, hn]⟩
    · obtain ⟨hd, hu⟩ := FileTree.unlink_ok h
      exact ⟨hd, by rw [FileTree.IsDirectory, hu, if_pos rfl]; simp⟩
  | raise _ => cases hp

theorem run_files (h : call.run t = .ok u) (hq : call.target ≠ some q) :
    u.files q = t.files q := by
  obtain he | ⟨_, hn, hd⟩ := run_node h hq
  · exact FileTree.files_congr he
  · rw [hd.files, eq_comm, FileTree.files_eq_none, hn]
    simp

theorem run_isDirectory (h : call.run t = .ok u) (hq : t.IsDirectory q) : u.IsDirectory q := by
  by_cases ht : call.target = some q
  · exact absurd hq (run_target h ht).1
  · obtain he | ⟨_, _, hd⟩ := run_node h ht
    · exact he.trans hq
    · exact hd

theorem run_isDirectory_new (h : call.run t = .ok u) (hq : u.IsDirectory q) :
    t.IsDirectory q ∨ call = ensureDirectory q ∧ t.node q = none := by
  by_cases ht : call.target = some q
  · exact absurd hq (run_target h ht).2
  · obtain he | ⟨hc, hn, _⟩ := run_node h ht
    · exact .inl (he.symm.trans hq)
    · exact .inr ⟨hc, hn⟩

theorem run_ensureDirectory (h : t.IsDirectory p) : (ensureDirectory p).run t = .ok t := by
  rw [run, if_pos h]

theorem runAll_ensureDirectory {ps : List (List α)} (h : ∀ p ∈ ps, t.IsDirectory p) :
    runAll t (ps.map ensureDirectory) = .ok t := by
  induction ps with
  | nil => rfl
  | cons p ps ih =>
    rw [List.map_cons, runAll_cons (run_ensureDirectory (h p List.mem_cons_self))]
    exact ih fun q hq => h q (List.mem_cons_of_mem _ hq)

/-- The directories that are made change no file. -/
theorem runAll_ensureDirectory_files {ps : List (List α)}
    (h : runAll t (ps.map ensureDirectory) = .ok u) : u.files = t.files := by
  induction ps generalizing t with
  | nil =>
    cases h
    rfl
  | cons p ps ih =>
    obtain ⟨v, hv, h⟩ := runAll_cons_ok h
    rw [ih h]
    exact funext fun q => run_files hv (by simp [target])

/-- A write puts its content at its path. -/
theorem runAll_write_files (h : runAll t (write p c) = .ok u) :
    u.files = Function.update t.files p (some c) := by
  obtain ⟨v, hv, h⟩ := runAll_append_ok h
  obtain ⟨w, hw, h⟩ := runAll_cons_ok h
  cases h
  obtain ⟨_, hn⟩ := FileTree.replace_ok hw
  rw [← runAll_ensureDirectory_files hv]
  funext q
  by_cases hq : q = p
  · subst hq
    rw [Function.update_self, FileTree.files_eq_some, hn, if_pos rfl]
  · rw [Function.update_of_ne hq]
    exact FileTree.files_congr (by rw [hn, if_neg hq])

/-- A write where the directories are there. -/
theorem runAll_write (c : β) (ha : ∀ q, q <+: p → q ≠ p → t.IsDirectory q)
    (hp : ¬ t.IsDirectory p) :
    ∃ u, runAll t (write p c) = .ok u ∧
      ∀ q, u.node q = if q = p then some (.file c) else t.node q := by
  have hne : p ≠ [] := fun he => hp (he ▸ t.isDirectory_root)
  have hd : t.IsDirectory p.dropLast :=
    ha _ (List.dropLast_prefix p) fun he => hne (by
      have hlen := congrArg List.length he
      rw [List.length_dropLast] at hlen
      exact List.length_eq_zero_iff.mp (by omega))
  obtain ⟨u, hu⟩ := FileTree.replace_total c hp hd
  have hmk : runAll t ((FileTree.ancestors p).map ensureDirectory) = .ok t :=
    runAll_ensureDirectory fun q hq => by
      obtain ⟨hpre, _, hqp⟩ := FileTree.mem_ancestors.mp hq
      exact ha q hpre hqp
  refine ⟨u, ?_, (FileTree.replace_ok hu).2⟩
  have hlast : (replace p c).run t = .ok u := hu
  rw [write, runAll_append hmk, runAll_cons hlast]
  rfl

end FileCall

/-- The old contents of the paths that a change touches. -/
abbrev UndoJournal (α : Type u) (β : Type v) := List (List α × Option β)

namespace UndoJournal

open FileCall

variable {α : Type u} {β : Type v} [DecidableEq α] [DecidableEq β]

def paths (j : UndoJournal α β) : List (List α) := j.map Prod.fst

/-- The calls that put the old contents back. -/
def undo (j : UndoJournal α β) : List (FileCall α β) :=
  j.flatMap fun e =>
    match e.2 with
    | some c => write e.1 c
    | none => [discard e.1]

/-- The tree differs from the old contents at most at the paths of the journal, which
knows them, and there stands nothing in the way of putting them back. -/
structure Covers (j : UndoJournal α β) (old : List α → Option β) (t : FileTree α β) : Prop where
  recorded : ∀ e ∈ j, old e.1 = e.2
  kept : ∀ p, p ∉ j.paths → t.files p = old p
  free : ∀ p ∈ j.paths, ¬ t.IsDirectory p
  above : ∀ e ∈ j, e.2 ≠ none → ∀ q, q <+: e.1 → q ≠ e.1 → t.IsDirectory q

/-- A call that writes at the paths of the journal only, and makes no directory there. -/
structure Tame (j : UndoJournal α β) (t : FileTree α β) (call : FileCall α β) : Prop where
  target : ∀ p, call.target = some p → p ∈ j.paths
  directory : ∀ p, call = ensureDirectory p → t.node p = none → p ∉ j.paths

variable {j : UndoJournal α β} {old : List α → Option β} {t u : FileTree α β}
  {call : FileCall α β} {calls : List (FileCall α β)}

/-- The frame rule of the journal. -/
theorem Covers.run (h : Covers j old t) (ht : Tame j t call) (hr : call.run t = .ok u) :
    Covers j old u where
  recorded := h.recorded
  kept p hp := by
    rw [run_files hr fun hc => hp (ht.target p hc), h.kept p hp]
  free p hp hd := by
    obtain hd | ⟨hc, hn⟩ := run_isDirectory_new hr hd
    · exact h.free p hp hd
    · exact ht.directory p hc hn hp
  above e he hold q hq hne := run_isDirectory hr (h.above e he hold q hq hne)

/-- The undo of a journal succeeds and puts the old contents back. -/
theorem Covers.undo (h : Covers j old t) : ∃ u, runAll t j.undo = .ok u ∧ u.files = old := by
  induction j generalizing t with
  | nil => exact ⟨t, rfl, funext fun p => h.kept p List.not_mem_nil⟩
  | cons e j ih =>
    have hrec := h.recorded e List.mem_cons_self
    have hfree := h.free e.1 List.mem_cons_self
    have hone : ∃ u, runAll t (undo [e]) = .ok u ∧
        ∀ q, u.node q = if q = e.1 then e.2.map .file else t.node q := by
      obtain ⟨p, o⟩ := e
      cases o with
      | some c =>
        obtain ⟨u, hu, hn⟩ :=
          runAll_write c (h.above (p, some c) List.mem_cons_self (by simp)) hfree
        exact ⟨u, by simpa [UndoJournal.undo] using hu, hn⟩
      | none =>
        by_cases hn : t.node p = none
        · refine ⟨t, by simp [UndoJournal.undo, runAll, FileCall.run, hn], fun q => ?_⟩
          by_cases hq : q = p
          · simp [hq, hn]
          · simp [hq]
        · obtain ⟨u, hu⟩ := FileTree.unlink_total hn hfree
          refine ⟨u, by simp [UndoJournal.undo, runAll, FileCall.run, hn, hu], ?_⟩
          exact (FileTree.unlink_ok hu).2
    obtain ⟨u, hu, hn⟩ := hone
    have hfile : u.files e.1 = old e.1 := by
      rw [hrec]
      cases ho : e.2 with
      | some c =>
        rw [FileTree.files_eq_some, hn, if_pos rfl, ho]
        rfl
      | none =>
        rw [FileTree.files_eq_none, hn, if_pos rfl, ho]
        simp
    have hrest : Covers j old u := by
      refine ⟨fun x hx => h.recorded x (List.mem_cons_of_mem _ hx), fun p hp => ?_, ?_, ?_⟩
      · by_cases hpe : p = e.1
        · exact hpe ▸ hfile
        · rw [FileTree.files_congr (t := u) (u := t) (by rw [hn, if_neg hpe])]
          exact h.kept p fun hm => (List.mem_cons.mp hm).elim hpe hp
      · intro p hp hd
        by_cases hpe : p = e.1
        · rw [FileTree.IsDirectory, hn, if_pos hpe] at hd
          cases ho : e.2 <;> simp [ho] at hd
        · rw [FileTree.IsDirectory, hn, if_neg hpe] at hd
          exact h.free p (List.mem_cons_of_mem _ hp) hd
      · intro x hx hold q hq hne
        have hd := h.above x (List.mem_cons_of_mem _ hx) hold q hq hne
        have hqe : q ≠ e.1 := fun he => hfree (he ▸ hd)
        rw [FileTree.IsDirectory, hn, if_neg hqe]
        exact hd
    obtain ⟨w, hw, hold⟩ := ih hrest
    refine ⟨w, ?_, hold⟩
    have hsplit : UndoJournal.undo (e :: j) = UndoJournal.undo [e] ++ UndoJournal.undo j := by
      simp [UndoJournal.undo]
    rw [hsplit, runAll_append hu, hw]

omit [DecidableEq β] in
/-- The undo of a journal writes at its paths, and makes no directory. -/
theorem Covers.undo_tame (h : Covers j old t) (hc : call ∈ j.undo) :
    (∀ p, call.target = some p → p ∈ j.paths) ∧
      ∀ p, call = ensureDirectory p → t.IsDirectory p := by
  obtain ⟨⟨p, o⟩, he, hc⟩ := List.mem_flatMap.mp hc
  have hp : p ∈ j.paths := List.mem_map.mpr ⟨(p, o), he, rfl⟩
  cases o with
  | none =>
    obtain rfl := List.mem_singleton.mp hc
    refine ⟨fun q hq => ?_, nofun⟩
    cases hq
    exact hp
  | some c =>
    obtain hc | hc := List.mem_append.mp hc
    · obtain ⟨a, ha, rfl⟩ := List.mem_map.mp hc
      obtain ⟨hpre, _, hne⟩ := FileTree.mem_ancestors.mp ha
      refine ⟨nofun, fun q hq => ?_⟩
      cases hq
      exact h.above (p, some c) he (by simp) a hpre hne
    · obtain rfl := List.mem_singleton.mp hc
      refine ⟨fun q hq => ?_, nofun⟩
      cases hq
      exact hp

/-- An undo that is under way: what is left of it leads to the old contents, and so
does a new one. -/
structure Undoing (j : UndoJournal α β) (old : List α → Option β) (t : FileTree α β)
    (calls : List (FileCall α β)) : Prop where
  covers : Covers j old t
  rest : ∃ u, runAll t calls = .ok u ∧ u.files = old
  target : ∀ call ∈ calls, ∀ p, call.target = some p → p ∈ j.paths
  directory : ∀ call ∈ calls, ∀ p, call = ensureDirectory p → t.IsDirectory p

theorem Covers.undoing (h : Covers j old t) : Undoing j old t j.undo where
  covers := h
  rest := h.undo
  target _ hc := (h.undo_tame hc).1
  directory _ hc := (h.undo_tame hc).2

theorem Undoing.step (h : Undoing j old t (call :: calls)) :
    ∃ u, call.run t = .ok u ∧ Undoing j old u calls := by
  obtain ⟨w, hw, hold⟩ := h.rest
  obtain ⟨u, hu, hrest⟩ := runAll_cons_ok hw
  have htame : Tame j t call := by
    refine ⟨h.target call List.mem_cons_self, fun p hp hn => ?_⟩
    have hd := h.directory call List.mem_cons_self p hp
    rw [FileTree.IsDirectory, hn] at hd
    cases hd
  refine ⟨u, hu, h.covers.run htame hu, ⟨w, hrest, hold⟩,
    fun c hc => h.target c (List.mem_cons_of_mem _ hc), fun c hc p hp => ?_⟩
  exact run_isDirectory hu (h.directory c (List.mem_cons_of_mem _ hc) p hp)

theorem Undoing.files (h : Undoing j old t []) : t.files = old := by
  obtain ⟨u, hu, hold⟩ := h.rest
  cases hu
  exact hold

end UndoJournal

end Fairy.Lib
