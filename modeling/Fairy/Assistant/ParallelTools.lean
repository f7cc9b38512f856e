import Fairy.Commanding.Registry
import Fairy.Lib.Fallible

namespace Fairy.Assistant

open Fairy.Lib
open Fairy.Commanding (ToolDefinition ToolDefinitions ToolConcurrency)

structure ToolCandidate where
  callId : String
  name : Option String
  argumentFragments : List String
  deriving DecidableEq

section Batches

variable (definitions : ToolDefinitions) (maxParallel : Nat)

def definitionOf (candidate : ToolCandidate) : Option ToolDefinition :=
  definitions.get (candidate.name.getD "")

/-- The definition of a tool that may run with others. -/
def parallelDefinition (candidate : ToolCandidate) : Option ToolDefinition :=
  (definitionOf definitions candidate).filter fun d => d.concurrencyPolicy ≠ .serial

/-- The variables of the loop. -/
structure Batching where
  batches : List (List ToolCandidate)
  pending : List ToolCandidate
  resourceKeys : List String
  deriving DecidableEq

def Batching.flush (b : Batching) : Batching :=
  if b.pending ≠ [] then ⟨b.batches ++ [b.pending], [], []⟩ else b

def Batching.add (b : Batching) (candidate : ToolCandidate) : Batching :=
  match parallelDefinition definitions candidate with
  | none => { b.flush with batches := b.flush.batches ++ [[candidate]] }
  | some definition =>
    let keys := definition.concurrencyResourceKeys
    let kept := if maxParallel ≤ b.pending.length ∨ (b.resourceKeys.any fun key => key ∈ keys) then
      b.flush else b
    { kept with
      pending := kept.pending ++ [candidate]
      resourceKeys := kept.resourceKeys ++ keys }

/-- `_candidate_batches`. -/
def candidateBatches (maxParallel : Int) (candidates : List ToolCandidate) :
    Except String (List (List ToolCandidate)) :=
  if maxParallel < 1 then .error "parallel tool limit must be positive"
  else
    .ok (candidates.foldl (Batching.add definitions maxParallel.toNat) ⟨[], [], []⟩).flush.batches

end Batches

section Partition

variable {definitions : ToolDefinitions} {maxParallel : Nat} {b : Batching}
  {candidates batch : List ToolCandidate} {candidate : ToolCandidate}

variable (definitions) in
/-- The resources that a tool holds while it runs. -/
def keysOf (candidate : ToolCandidate) : List String :=
  ((definitionOf definitions candidate).map (·.concurrencyResourceKeys)).getD []

variable (definitions) in
/-- A tool is known, and its policy is not `SERIAL`. -/
def MayRunWithOthers (candidate : ToolCandidate) : Prop :=
  ∃ definition, definitionOf definitions candidate = some definition ∧
    definition.concurrencyPolicy ≠ .serial

variable (definitions maxParallel) in
/-- The tools of a batch may run at the same time. -/
structure Safe (batch : List ToolCandidate) : Prop where
  bounded : batch.length ≤ maxParallel
  parallel : ∀ candidate ∈ batch, MayRunWithOthers definitions candidate
  disjoint : batch.Pairwise fun c d => ∀ key ∈ keysOf definitions c,
    key ∉ keysOf definitions d

variable (definitions maxParallel) in
/-- A batch is safe, or it is one tool that runs alone. -/
structure Admissible (batch : List ToolCandidate) : Prop where
  nonempty : batch ≠ []
  runs : Safe definitions maxParallel batch ∨
    ∃ candidate, batch = [candidate] ∧ ¬ MayRunWithOthers definitions candidate

variable (definitions maxParallel) in
/-- What the loop keeps over the candidates that it has taken. -/
structure Batching.Sound (candidates : List ToolCandidate) (b : Batching) : Prop where
  order : b.batches.flatten ++ b.pending = candidates
  done : ∀ batch ∈ b.batches, Admissible definitions maxParallel batch
  pending : Safe definitions maxParallel b.pending
  held : ∀ key, key ∈ b.resourceKeys ↔ ∃ c ∈ b.pending, key ∈ keysOf definitions c

theorem parallelDefinition_eq_none :
    parallelDefinition definitions candidate = none ↔ ¬ MayRunWithOthers definitions candidate := by
  simp [parallelDefinition, MayRunWithOthers, Option.filter_eq_none_iff]

theorem parallelDefinition_eq_some {definition : ToolDefinition}
    (h : parallelDefinition definitions candidate = some definition) :
    MayRunWithOthers definitions candidate ∧
      keysOf definitions candidate = definition.concurrencyResourceKeys := by
  obtain ⟨hdefinition, hpolicy⟩ := Option.filter_eq_some_iff.mp h
  refine ⟨⟨definition, hdefinition, by simpa using hpolicy⟩, ?_⟩
  rw [keysOf, hdefinition]
  rfl

theorem safe_nil : Safe definitions maxParallel [] :=
  ⟨Nat.zero_le _, fun _ h => absurd h List.not_mem_nil, List.Pairwise.nil⟩

theorem Batching.Sound.flush (h : b.Sound definitions maxParallel candidates) :
    b.flush.Sound definitions maxParallel candidates ∧ b.flush.pending = [] := by
  by_cases hpending : b.pending = []
  · rw [Batching.flush, if_neg (not_not.mpr hpending)]
    exact ⟨h, hpending⟩
  · rw [Batching.flush, if_pos hpending]
    refine ⟨⟨?_, fun batch hbatch => ?_, safe_nil, ?_⟩, rfl⟩
    · rw [← h.order, List.flatten_append]
      simp
    · obtain hbatch | hbatch := List.mem_append.mp hbatch
      · exact h.done batch hbatch
      · obtain rfl := List.mem_singleton.mp hbatch
        exact ⟨hpending, .inl h.pending⟩
    · simp

/-- A tool joins the pending batch when there is room and no resource is held twice. -/
theorem Batching.Sound.join {definition : ToolDefinition}
    (h : b.Sound definitions maxParallel candidates) (hroom : b.pending.length < maxParallel)
    (hdefinition : parallelDefinition definitions candidate = some definition)
    (hfree : ∀ key ∈ definition.concurrencyResourceKeys, key ∉ b.resourceKeys) :
    (⟨b.batches, b.pending ++ [candidate], b.resourceKeys ++ definition.concurrencyResourceKeys⟩
      : Batching).Sound definitions maxParallel (candidates ++ [candidate]) := by
  obtain ⟨hparallel, hkeys⟩ := parallelDefinition_eq_some hdefinition
  refine ⟨?_, h.done, ⟨?_, fun c hc => ?_, ?_⟩, fun key => ?_⟩
  · rw [← h.order, List.append_assoc]
  · rw [List.length_append, List.length_singleton]
    omega
  · obtain hc | hc := List.mem_append.mp hc
    · exact h.pending.parallel c hc
    · obtain rfl := List.mem_singleton.mp hc
      exact hparallel
  · refine List.pairwise_append.mpr ⟨h.pending.disjoint, List.pairwise_singleton _ _, ?_⟩
    intro c hc d hd key hkey hother
    obtain rfl := List.mem_singleton.mp hd
    rw [hkeys] at hother
    exact hfree key hother ((h.held key).mpr ⟨c, hc, hkey⟩)
  · rw [List.mem_append, h.held]
    simp only [List.mem_append, List.mem_singleton]
    constructor
    · rintro (⟨c, hc, hkey⟩ | hkey)
      · exact ⟨c, .inl hc, hkey⟩
      · exact ⟨candidate, .inr rfl, hkeys ▸ hkey⟩
    · rintro ⟨c, hc | rfl, hkey⟩
      · exact .inl ⟨c, hc, hkey⟩
      · exact .inr (hkeys ▸ hkey)

theorem Batching.Sound.add (h : b.Sound definitions maxParallel candidates)
    (hmax : 1 ≤ maxParallel) (candidate : ToolCandidate) :
    (b.add definitions maxParallel candidate).Sound definitions maxParallel
      (candidates ++ [candidate]) := by
  obtain ⟨hflush, hempty⟩ := h.flush
  simp only [Batching.add]
  cases hdefinition : parallelDefinition definitions candidate with
  | none =>
    have halone := parallelDefinition_eq_none.mp hdefinition
    refine ⟨?_, fun batch hbatch => ?_, hflush.pending, hflush.held⟩
    · have horder := hflush.order
      rw [hempty, List.append_nil] at horder
      simp only [List.flatten_append, hempty, horder]
      simp
    · obtain hbatch | hbatch := List.mem_append.mp hbatch
      · exact hflush.done batch hbatch
      · obtain rfl := List.mem_singleton.mp hbatch
        exact ⟨List.cons_ne_nil _ _, .inr ⟨candidate, rfl, halone⟩⟩
  | some definition =>
    dsimp only
    split
    · refine hflush.join ?_ hdefinition fun key _ hheld => ?_
      · rw [hempty]
        exact hmax
      · obtain ⟨c, hc, _⟩ := (hflush.held key).mp hheld
        rw [hempty] at hc
        exact List.not_mem_nil hc
    · rename_i hguard
      simp only [not_or, Nat.not_le, Bool.not_eq_true, List.any_eq_false] at hguard
      refine h.join hguard.1 hdefinition fun key hkey hheld => ?_
      exact absurd hkey (by simpa using hguard.2 key hheld)

/-- The loop rule: the candidates taken so far are what the batches hold. -/
theorem Batching.Sound.foldl (h : b.Sound definitions maxParallel candidates)
    (hmax : 1 ≤ maxParallel) (rest : List ToolCandidate) :
    (rest.foldl (Batching.add definitions maxParallel) b).Sound definitions maxParallel
      (candidates ++ rest) := by
  induction rest generalizing b candidates with
  | nil =>
    rw [List.append_nil]
    exact h
  | cons candidate rest ih =>
    have hnext := ih (h.add hmax candidate)
    rw [List.append_assoc] at hnext
    exact hnext

/-- The batches are the candidates in their order, cut into batches that are safe to run at once;
what is serial or unknown runs alone. -/
theorem candidateBatches_partition (definitions : ToolDefinitions) {maxParallel : Int}
    (hmax : 1 ≤ maxParallel) (candidates : List ToolCandidate) :
    ∃ batches, candidateBatches definitions maxParallel candidates = .ok batches ∧
      batches.flatten = candidates ∧
      ∀ batch ∈ batches, batch ≠ [] ∧ (batch.length : Int) ≤ maxParallel ∧
        (1 < batch.length → (∀ c ∈ batch, MayRunWithOthers definitions c) ∧
          batch.Pairwise fun c d => ∀ key ∈ keysOf definitions c,
            key ∉ keysOf definitions d) ∧
        ∀ c ∈ batch, ¬ MayRunWithOthers definitions c → batch = [c] := by
  have hstart : (⟨[], [], []⟩ : Batching).Sound definitions maxParallel.toNat [] :=
    ⟨rfl, fun _ h => absurd h List.not_mem_nil, safe_nil, by simp⟩
  obtain ⟨hsound, hempty⟩ := (hstart.foldl (by omega) candidates).flush
  refine ⟨_, if_neg (by omega), ?_, fun batch hbatch => ?_⟩
  · have horder := hsound.order
    rw [hempty, List.append_nil] at horder
    exact horder
  · obtain ⟨hnonempty, hsafe | ⟨alone, rfl, halone⟩⟩ := hsound.done batch hbatch
    · have hbounded := hsafe.bounded
      refine ⟨hnonempty, by omega, fun _ => ⟨hsafe.parallel, hsafe.disjoint⟩, ?_⟩
      exact fun c hc hnot => absurd (hsafe.parallel c hc) hnot
    · refine ⟨hnonempty, by simpa using hmax, fun hlength => absurd hlength (by simp), ?_⟩
      intro c hc _
      obtain rfl := List.mem_singleton.mp hc
      rfl

end Partition

section Reads

def readDefinition (name : String) (keys : List String) : ToolDefinition :=
  { name, profiles := [], concurrencyPolicy := .parallelRead, concurrencyResourceKeys := keys }

def readDefinitions : ToolDefinitions where
  entries := [("read", readDefinition "read" []), ("look", readDefinition "look" ["screen"])]
  nodup := by decide

def call (callId name : String) : ToolCandidate := ⟨callId, some name, []⟩

theorem reads_partition : ∃ batches, candidateBatches readDefinitions 2
    [call "1" "read", call "2" "look", call "3" "look", call "4" "write"] = .ok batches ∧
      batches = [[call "1" "read", call "2" "look"], [call "3" "look"], [call "4" "write"]] ∧
      batches.flatten = [call "1" "read", call "2" "look", call "3" "look", call "4" "write"] := by
  obtain ⟨batches, hbatches, hflatten, _⟩ := candidateBatches_partition readDefinitions
    (show (1 : Int) ≤ 2 by decide) [call "1" "read", call "2" "look", call "3" "look",
      call "4" "write"]
  have hvalue : candidateBatches readDefinitions 2
      [call "1" "read", call "2" "look", call "3" "look", call "4" "write"] =
        .ok [[call "1" "read", call "2" "look"], [call "3" "look"], [call "4" "write"]] := by
    decide +kernel
  exact ⟨batches, hbatches, Except.ok.inj (hbatches.symm.trans hvalue), hflatten⟩

end Reads

end Fairy.Assistant
