import Fairy.Lib.Derivation
import Mathlib.Data.List.Nodup
import Mathlib.Data.List.Perm.Subperm

namespace Fairy.Commanding

open Fairy.Lib

inductive PermissionProfile
  | observe | standard | autonomous
  deriving DecidableEq

inductive ToolConcurrency
  | serial | parallelRead
  deriving DecidableEq

structure ToolDefinition where
  name : String
  profiles : List PermissionProfile
  requiresSandbox : Bool := false
  concurrencyPolicy : ToolConcurrency := .serial
  concurrencyResourceKeys : List String := []
  modelVisible : Bool := true
  requiredOperations : List String := []
  requiredExtensions : List String := []
  deriving DecidableEq

/-- A `Mapping[str, ToolDefinition]`, in the order of its iteration. -/
structure ToolDefinitions where
  entries : List (String × ToolDefinition)
  nodup : (entries.map Prod.fst).Nodup

namespace ToolDefinitions

def names (d : ToolDefinitions) : List String := d.entries.map Prod.fst

def get (d : ToolDefinitions) (name : String) : Option ToolDefinition := d.entries.lookup name

end ToolDefinitions

section Manifest

/-- What a manifest is asked for besides the definitions. -/
structure CapabilityQuery where
  readyExtensions : List String
  profile : PermissionProfile
  sandboxHealthy : Bool
  overrides : Option (List (String × Bool))

/-- The dict `resolved`. -/
abbrev Resolved := List (String × Bool)

variable (definitions : ToolDefinitions) (q : CapabilityQuery)

/-- What the tool itself has to meet. -/
def CapabilityQuery.allows (name : String) (definition : ToolDefinition) : Bool :=
  q.profile ∈ definition.profiles && ((q.overrides.getD []).lookup name).getD true &&
    (!definition.requiresSandbox || q.sandboxHealthy) &&
    definition.requiredExtensions.all (· ∈ q.readyExtensions)

/-- `all(enabled(dependency, path) for dependency in ...)`, which stops at the first that is not. -/
def allEnabled (enabled : String → Resolved → Option (Bool × Resolved)) :
    List String → Resolved → Option (Bool × Resolved)
  | [], resolved => some (true, resolved)
  | dependency :: rest, resolved =>
    match enabled dependency resolved with
    | none => none
    | some (false, resolved) => some (false, resolved)
    | some (true, resolved) => allEnabled enabled rest resolved

/-- `enabled`; the recursion is no deeper than there are definitions. -/
def enabled : Nat → List String → String → Resolved → Option (Bool × Resolved)
  | 0, _, _, _ => none
  | fuel + 1, visiting, name, resolved =>
    match resolved.lookup name with
    | some cached => some (cached, resolved)
    | none =>
      match definitions.get name with
      | none => some (false, resolved)
      | some definition =>
        if name ∈ visiting then some (false, resolved)
        else if q.allows name definition then
          match allEnabled (enabled fuel (name :: visiting)) definition.requiredOperations
              resolved with
          | none => none
          | some (allowed, resolved) => some (allowed, (name, allowed) :: resolved)
        else some (false, (name, false) :: resolved)

/-- The comprehension over the names. -/
def manifestOf (fuel : Nat) : List String → Resolved → Option (List (String × Bool))
  | [], _ => some []
  | name :: rest, resolved =>
    match enabled definitions q fuel [] name resolved with
    | none => none
    | some (allowed, resolved) => (manifestOf fuel rest resolved).map ((name, allowed) :: ·)

def capabilityManifest : Option (List (String × Bool)) :=
  manifestOf definitions q (definitions.entries.length + 1) definitions.names []

def availableAgentDefinitions : Option (List ToolDefinition) :=
  (capabilityManifest definitions q).map fun manifest =>
    (definitions.entries.map Prod.snd).filter fun definition =>
      definition.modelVisible && (manifest.lookup definition.name).getD false

end Manifest

section Availability

variable {definitions : ToolDefinitions} {q : CapabilityQuery}

variable (definitions q) in
/-- A tool that is registered and allowed needs the operations that it requires. -/
def availabilityRule (name : String) : Option (List String) :=
  ((definitions.get name).filter (q.allows name)).map (·.requiredOperations)

variable (definitions) in
/-- One tool requires the operation of another. -/
def Requires (name dependency : String) : Prop :=
  ∃ definition ∈ definitions.get name, dependency ∈ definition.requiredOperations

variable (definitions q) in
def Available (name : String) : Prop := Derivable (availabilityRule definitions q) name

theorem requires_of_rule (name : String) (needs : List String) (dependency : String)
    (hrule : availabilityRule definitions q name = some needs)
    (hrequires : Requires definitions name dependency) : dependency ∈ needs := by
  obtain ⟨definition, hdefinition, hmem⟩ := hrequires
  obtain ⟨other, hother, rfl⟩ := Option.map_eq_some_iff.mp hrule
  obtain ⟨hother, _⟩ := Option.filter_eq_some_iff.mp hother
  obtain rfl := Option.some.inj (hother.symm.trans hdefinition)
  exact hmem

theorem rule_of_allowed {name : String} {definition : ToolDefinition}
    (hget : definitions.get name = some definition) (hallows : q.allows name definition = true) :
    availabilityRule definitions q name = some definition.requiredOperations := by
  simp only [availabilityRule, hget, Option.filter_some, hallows, if_true, Option.map_some]

theorem rule_of_refused {name : String} {definition : ToolDefinition}
    (hget : definitions.get name = some definition) (hallows : q.allows name definition = false) :
    availabilityRule definitions q name = none := by
  simp only [availabilityRule, hget, Option.filter_some, hallows, Bool.false_eq_true, if_false,
    Option.map_none]

theorem rule_of_unknown {name : String} (hget : definitions.get name = none) :
    availabilityRule definitions q name = none := by
  rw [availabilityRule, hget]
  rfl

theorem get_mem_names {name : String} {definition : ToolDefinition}
    (hget : definitions.get name = some definition) : name ∈ definitions.names := by
  by_contra hmem
  have hnone : definitions.entries.lookup name = none := by
    refine List.lookup_eq_none_iff.mpr fun entry hentry => ?_
    rw [bne_iff_ne]
    exact fun heq => hmem (heq ▸ List.mem_map_of_mem hentry)
  exact Option.some_ne_none _ (hget.symm.trans hnone)

variable (definitions q) in
/-- The answers that have been cached are right. -/
def Agrees (resolved : Resolved) : Prop :=
  ∀ name allowed, resolved.lookup name = some allowed →
    (allowed = true ↔ Available definitions q name)

theorem agrees_nil : Agrees definitions q [] := fun _ _ h => by cases h

theorem Agrees.cons {resolved : Resolved} {name : String} {allowed : Bool}
    (h : Agrees definitions q resolved)
    (hallowed : allowed = true ↔ Available definitions q name) :
    Agrees definitions q ((name, allowed) :: resolved) := by
  intro other b hlookup
  rw [List.lookup_cons] at hlookup
  split at hlookup
  · rename_i heq
    obtain rfl := eq_of_beq heq
    obtain rfl := Option.some.inj hlookup
    exact hallowed
  · exact h other b hlookup

/-- An answer, with the cache that it leaves. -/
def Answers (name : String) (r : Option (Bool × Resolved))
    (definitions : ToolDefinitions) (q : CapabilityQuery) : Prop :=
  ∃ allowed resolved, r = some (allowed, resolved) ∧ Agrees definitions q resolved ∧
    (allowed = true ↔ Available definitions q name)

theorem allEnabled_spec {f : String → Resolved → Option (Bool × Resolved)} {needs : List String}
    (hf : ∀ name ∈ needs, ∀ resolved, Agrees definitions q resolved →
      Answers name (f name resolved) definitions q) {resolved : Resolved}
    (h : Agrees definitions q resolved) :
    ∃ allowed resolved', allEnabled f needs resolved = some (allowed, resolved') ∧
      Agrees definitions q resolved' ∧
      (allowed = true ↔ ∀ name ∈ needs, Available definitions q name) := by
  induction needs generalizing resolved with
  | nil => exact ⟨true, resolved, rfl, h, by simp⟩
  | cons name rest ih =>
    obtain ⟨hhead, hrest⟩ := List.forall_mem_cons.mp hf
    obtain ⟨allowed, resolved', hanswer, hagrees, hiff⟩ := hhead resolved h
    cases allowed with
    | false =>
      refine ⟨false, resolved', ?_, hagrees, ?_⟩
      · rw [allEnabled, hanswer]
      · rw [List.forall_mem_cons]
        exact iff_of_false nofun fun hall => absurd (hiff.mpr hall.1) nofun
    | true =>
      obtain ⟨allowed, resolved'', hanswer', hagrees', hiff'⟩ := ih hrest hagrees
      refine ⟨allowed, resolved'', ?_, hagrees', ?_⟩
      · rw [allEnabled, hanswer]
        exact hanswer'
      · rw [hiff', List.forall_mem_cons]
        exact (and_iff_right (hiff.mp rfl)).symm

/-- The search answers right: whoever is being visited leads to the tool, so that a tool that is
being visited already lies on a cycle. -/
theorem enabled_spec {fuel : Nat} {visiting : List String} {name : String} {resolved : Resolved}
    (hfuel : definitions.entries.length < fuel + visiting.length) (hnodup : visiting.Nodup)
    (hknown : visiting ⊆ definitions.names)
    (hpath : ∀ v ∈ visiting, Relation.TransGen (Requires definitions) v name)
    (h : Agrees definitions q resolved) :
    Answers name (enabled definitions q fuel visiting name resolved) definitions q := by
  induction fuel generalizing visiting name resolved with
  | zero =>
    have hle := (List.subperm_of_subset hnodup hknown).length_le
    simp only [ToolDefinitions.names, List.length_map] at hle
    omega
  | succ fuel ih =>
    simp only [enabled]
    cases hcached : resolved.lookup name with
    | some cached => exact ⟨cached, resolved, rfl, h, h name cached hcached⟩
    | none =>
      cases hget : definitions.get name with
      | none =>
        have hnot := not_derivable_of_none (rule_of_unknown (q := q) hget)
        exact ⟨false, resolved, rfl, h, iff_of_false nofun hnot⟩
      | some definition =>
        dsimp only
        split
        · rename_i hvisiting
          have hnot : ¬ Available definitions q name := fun havailable =>
            not_derivable_of_cycle requires_of_rule havailable (hpath name hvisiting)
          exact ⟨false, resolved, rfl, h, iff_of_false nofun hnot⟩
        rename_i hvisiting
        split
        · rename_i hallows
          have hrule := rule_of_allowed hget hallows
          have hsearch : ∀ dependency ∈ definition.requiredOperations, ∀ resolved,
              Agrees definitions q resolved → Answers dependency
                (enabled definitions q fuel (name :: visiting) dependency resolved)
                definitions q := by
            intro dependency hdependency resolved hagrees
            have hrequires : Requires definitions name dependency :=
              ⟨definition, hget, hdependency⟩
            refine ih ?_ (List.nodup_cons.mpr ⟨hvisiting, hnodup⟩)
              (List.cons_subset.mpr ⟨get_mem_names hget, hknown⟩) ?_ hagrees
            · rw [List.length_cons]
              omega
            · intro v hv
              obtain rfl | hv := List.mem_cons.mp hv
              · exact .single hrequires
              · exact (hpath v hv).tail hrequires
          obtain ⟨allowed, resolved', hall, hagrees, hiff⟩ := allEnabled_spec hsearch h
          have havailable : allowed = true ↔ Available definitions q name :=
            hiff.trans (derivable_iff hrule).symm
          rw [hall]
          exact ⟨allowed, _, rfl, hagrees.cons havailable, havailable⟩
        · rename_i hallows
          have hnot := not_derivable_of_none (rule_of_refused hget (by simpa using hallows))
          have hiff : false = true ↔ Available definitions q name := iff_of_false nofun hnot
          exact ⟨false, _, rfl, h.cons hiff, hiff⟩

theorem manifestOf_spec {names : List String} {resolved : Resolved}
    (h : Agrees definitions q resolved) :
    ∃ manifest, manifestOf definitions q (definitions.entries.length + 1) names resolved =
        some manifest ∧ manifest.map Prod.fst = names ∧
      ∀ entry ∈ manifest, entry.2 = true ↔ Available definitions q entry.1 := by
  induction names generalizing resolved with
  | nil => exact ⟨[], rfl, rfl, fun _ hentry => absurd hentry List.not_mem_nil⟩
  | cons name rest ih =>
    obtain ⟨allowed, resolved', hanswer, hagrees, hiff⟩ :=
      @enabled_spec definitions q (definitions.entries.length + 1) [] name resolved (by simp) List.nodup_nil (List.nil_subset _) (fun _ hv => absurd hv List.not_mem_nil) h
    obtain ⟨manifest, hrest, hnames, hall⟩ := ih hagrees
    refine ⟨(name, allowed) :: manifest, ?_, ?_, List.forall_mem_cons.mpr ⟨hiff, hall⟩⟩
    · rw [manifestOf, hanswer]
      simp only [hrest, Option.map_some]
    · rw [List.map_cons, hnames]

theorem get_of_perm {definitions' : ToolDefinitions}
    (hperm : definitions'.entries.Perm definitions.entries) (name : String) :
    definitions'.get name = definitions.get name := by
  have hmem : ∀ {d : ToolDefinitions} {definition : ToolDefinition},
      d.get name = some definition ↔ (name, definition) ∈ d.entries := by
    intro d definition
    constructor
    · intro hget
      obtain ⟨l₁, l₂, hsplit, _⟩ := List.lookup_eq_some_iff.mp hget
      rw [hsplit]
      simp
    · intro hentry
      obtain ⟨l₁, l₂, hsplit⟩ := List.append_of_mem hentry
      refine List.lookup_eq_some_iff.mpr ⟨l₁, l₂, hsplit, fun entry hl₁ => ?_⟩
      rw [bne_iff_ne]
      have hnodup := d.nodup
      rw [hsplit, List.map_append, List.map_cons, List.nodup_middle, List.nodup_cons] at hnodup
      rintro rfl
      exact hnodup.1 (List.mem_append_left _ (List.mem_map.mpr ⟨entry, hl₁, rfl⟩))
  refine Option.ext fun definition => ?_
  rw [hmem, hmem]
  exact hperm.mem_iff

/-- The manifest is the least fixed point, whatever the order of the definitions. -/
theorem capabilityManifest_least (definitions : ToolDefinitions) (q : CapabilityQuery) :
    ∃ manifest, capabilityManifest definitions q = some manifest ∧
      manifest.map Prod.fst = definitions.names ∧
      (∀ name allowed, (name, allowed) ∈ manifest →
        (allowed = true ↔ Available definitions q name)) ∧
      (∀ name allowed cycle, (name, allowed) ∈ manifest →
        Relation.ReflTransGen (Requires definitions) name cycle →
        Relation.TransGen (Requires definitions) cycle cycle → allowed = false) ∧
      (∀ definitions' : ToolDefinitions, definitions'.entries.Perm definitions.entries →
        ∃ manifest', capabilityManifest definitions' q = some manifest' ∧
          manifest'.Perm manifest) ∧
      ∃ available, availableAgentDefinitions definitions q = some available ∧
        ∀ definition, definition ∈ available ↔ definition ∈ definitions.entries.map Prod.snd ∧
          definition.modelVisible = true ∧ Available definitions q definition.name := by
  obtain ⟨manifest, hmanifest, hnames, hall⟩ :=
    @manifestOf_spec definitions q definitions.names [] agrees_nil
  have hmanifest : capabilityManifest definitions q = some manifest := hmanifest
  have hnodup : (manifest.map Prod.fst).Nodup := hnames ▸ definitions.nodup
  refine ⟨manifest, hmanifest, hnames, fun name allowed hentry => hall _ hentry,
    fun name allowed cycle hentry hreach hcycle => ?_, fun definitions' hperm => ?_, ?_⟩
  · have hnot := not_derivable_of_reach_cycle (@requires_of_rule definitions q) hreach hcycle
    cases allowed with
    | false => rfl
    | true => exact absurd ((hall _ hentry).mp rfl) hnot
  · obtain ⟨manifest', hmanifest', hnames', hall'⟩ :=
      @manifestOf_spec definitions' q definitions'.names [] agrees_nil
    refine ⟨manifest', hmanifest', ?_⟩
    have hsame : availabilityRule definitions' q = availabilityRule definitions q := by
      funext name
      rw [availabilityRule, availabilityRule, get_of_perm hperm]
    have hmem : ∀ entry ∈ manifest', entry ∈ manifest := by
      rintro ⟨name, allowed⟩ hentry
      have hname : name ∈ manifest.map Prod.fst := by
        rw [hnames, ToolDefinitions.names, ← (hperm.map Prod.fst).mem_iff]
        rw [ToolDefinitions.names] at hnames'
        rw [← hnames']
        exact List.mem_map_of_mem hentry
      obtain ⟨⟨name', other⟩, hother, rfl⟩ := List.mem_map.mp hname
      have hiff := hall' _ hentry
      rw [Available, hsame] at hiff
      have heq : allowed = other := Bool.eq_iff_iff.mpr (hiff.trans (hall _ hother).symm)
      exact heq ▸ hother
    have hlength : manifest'.length = manifest.length := by
      have hlengths : manifest.length = definitions.names.length := hnames ▸ (List.length_map Prod.fst).symm
      have hlengths' : manifest'.length = definitions'.names.length :=
        hnames' ▸ (List.length_map Prod.fst).symm
      rw [hlengths, hlengths']
      exact (hperm.map Prod.fst).length_eq
    have hnodup' : (manifest'.map Prod.fst).Nodup := by
      rw [hnames']
      exact definitions'.nodup
    exact (List.subperm_of_subset (List.Nodup.of_map _ hnodup') hmem).perm_of_length_le
      (Nat.le_of_eq hlength.symm)
  · refine ⟨_, by rw [availableAgentDefinitions, hmanifest]; rfl, fun definition => ?_⟩
    rw [List.mem_filter, Bool.and_eq_true]
    have hget : (manifest.lookup definition.name).getD false = true ↔
        Available definitions q definition.name := by
      cases hlookup : manifest.lookup definition.name with
      | none =>
        refine iff_of_false (by simp) fun havailable => ?_
        have hrule : ∃ needs, availabilityRule definitions q definition.name = some needs := by
          cases havailable with
          | intro hrule => exact ⟨_, hrule⟩
        obtain ⟨needs, hrule⟩ := hrule
        obtain ⟨other, hother, _⟩ := Option.map_eq_some_iff.mp hrule
        have hmem := get_mem_names (Option.filter_eq_some_iff.mp hother).1
        rw [← hnames] at hmem
        obtain ⟨entry, hentry, heq⟩ := List.mem_map.mp hmem
        have hne := List.lookup_eq_none_iff.mp hlookup entry hentry
        rw [bne_iff_ne] at hne
        exact hne heq.symm
      | some allowed =>
        obtain ⟨l₁, l₂, hsplit, _⟩ := List.lookup_eq_some_iff.mp hlookup
        exact hall (definition.name, allowed) (by rw [hsplit]; simp)
    rw [hget]

end Availability

end Fairy.Commanding
