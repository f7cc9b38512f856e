import Fairy.Lib.Leading
import Fairy.Snapshot.Privacy

namespace Fairy.Memory

open Fairy.Lib
open Fairy.Snapshot (repositoryScope nodup_scopedObservations draftScope draft draftStore)
open Fairy.Commanding (Uuid Time)

inductive ProposalError
  | memory (error : MemoryError)
  | runtimeError (message : String)
  deriving DecidableEq

structure MemoryProposalListInput where
  taskId : Uuid
  limit : Nat
  limit_pos : 1 ≤ limit
  limit_le : limit ≤ 500

/-- The namespaces in the order of their enumeration. -/
def memoryNamespaces : List MemoryNamespace :=
  [.projectCanonical, .conversationDraft, .userProfile, .deviceLocal, .taskEpisode]

/-- The order of `(created_at, str(id))`, reversed. -/
def newestProposal (a b : MemoryObservation) : Bool := byKeys (·.createdAt) (·.id) b a

namespace MemoryStore

variable (s : MemoryStore)

/-- The reads of `list_proposals`, one for each namespace that the scope may read. -/
def readProposals (scope : ScopeContract) (limit : Nat) :
    Except MemoryError (List MemoryObservation) := do
  let found ← (memoryNamespaces.filter (canReadNamespace · scope)).mapM fun n =>
    s.observationsForScope n (repositoryScope n scope) (some limit) true false
  return found.flatten

/-- `list_proposals`: `enabled` is the setting of the Core, `taskScope` what `_task_scope` gives
for the task. -/
def listProposals (enabled : Bool) (taskScope : Except MemoryError ScopeContract)
    (request : MemoryProposalListInput) : Except ProposalError (List MemoryObservation) := do
  if !enabled then throw (.runtimeError "Memory is disabled by Core settings")
  let scope ← taskScope.mapError .memory
  let proposals ← (s.readProposals scope request.limit).mapError .memory
  let pending := proposals.filter fun o => o.status = .pending
  return (pending.mergeSort newestProposal).take request.limit

/-- The visible observations of a namespace as its read orders them. -/
def byCursor (scope : ScopeContract) (n : MemoryNamespace) : List MemoryObservation :=
  (s.scopedObservations n (repositoryScope n scope) false).mergeSort fun a b =>
    observationOrder b a

/-- The pending observations of all the namespaces that the scope may read. -/
def pendingProposals (scope : ScopeContract) : List MemoryObservation :=
  (memoryNamespaces.filter (canReadNamespace · scope)).flatMap fun n =>
    (s.scopedObservations n (repositoryScope n scope) false).filter fun o => o.status = .pending

end MemoryStore

section Complete

variable {s : MemoryStore} {scope : ScopeContract} {n : MemoryNamespace} {limit : Nat}

theorem orders_newestProposal : Orders newestProposal where
  trans a b c hab hbc := byKeys_trans c b a hbc hab
  total a b := byKeys_total b a

theorem validate_repositoryScope (h : canReadNamespace n scope = true) :
    (repositoryScope n scope).validate n = .ok () := by
  cases n with
  | projectCanonical =>
    have hproject : scope.projectId ≠ none := by
      simp only [canReadNamespace] at h
      split at h
      · cases h
      · simp only [↓reduceIte, Bool.decide_and, Bool.and_eq_true, decide_eq_true_eq] at h
        exact h.2
    simp [repositoryScope, ReadScope.validate, ReadScope.required, hproject]
  | conversationDraft => rfl
  | userProfile => rfl
  | deviceLocal =>
    simp only [canReadNamespace, reduceCtorEq, if_false, ne_eq, not_true_eq_false,
      decide_false, ite_self] at h
  | taskEpisode => rfl

theorem observationsForScope_ok (h : canReadNamespace n scope = true)
    (hlimit : 1 ≤ limit ∧ limit ≤ 1000) :
    s.observationsForScope n (repositoryScope n scope) (some limit) true false =
      .ok ((s.byCursor scope n).take limit) := by
  simp only [MemoryStore.observationsForScope, MemoryStore.requireReadLimit, if_pos hlimit,
    validate_repositoryScope h]
  rfl

theorem readProposals_ok (hlimit : 1 ≤ limit ∧ limit ≤ 1000) :
    s.readProposals scope limit =
      .ok ((memoryNamespaces.filter (canReadNamespace · scope)).flatMap fun n =>
        (s.byCursor scope n).take limit) := by
  have hread : ∀ n ∈ memoryNamespaces.filter (canReadNamespace · scope),
      s.observationsForScope n (repositoryScope n scope) (some limit) true false =
        .ok ((s.byCursor scope n).take limit) := fun n hn =>
    observationsForScope_ok (List.mem_filter.mp hn).2 hlimit
  simp only [MemoryStore.readProposals, mapM_eq_map hread, List.flatMap]
  rfl

theorem pendingProposals_perm (s : MemoryStore) (scope : ScopeContract) (limit : Nat) :
    (((memoryNamespaces.filter (canReadNamespace · scope)).flatMap fun n =>
        (s.byCursor scope n).take limit).filter (fun o => o.status = .pending) ++
      ((memoryNamespaces.filter (canReadNamespace · scope)).flatMap fun n =>
        (s.byCursor scope n).drop limit).filter (fun o => o.status = .pending)).Perm
      (s.pendingProposals scope) := by
  rw [← List.filter_append]
  refine ((List.flatMap_append_perm _ _ _).filter _).trans ?_
  simp only [List.take_append_drop, MemoryStore.pendingProposals, List.filter_flatMap]
  exact List.Perm.flatMap_left _ fun n _ => (List.mergeSort_perm ..).filter _

theorem nodup_pendingProposals (s : MemoryStore) (scope : ScopeContract) :
    (s.pendingProposals scope).Nodup := by
  refine List.nodup_flatMap.mpr ⟨fun n _ => ?_, ?_⟩
  · exact (List.Nodup.of_map _ nodup_scopedObservations).filter _
  · have hnamespaces : memoryNamespaces.Nodup := by decide
    refine (hnamespaces.filter _).imp fun hne o ho ho' => hne ?_
    simp only [MemoryStore.scopedObservations, List.mem_filter, decide_eq_true_eq] at ho ho'
    exact ho.1.2.1.symm.trans ho'.1.2.1

theorem mem_pendingProposals {o : MemoryObservation} (h : o ∈ s.pendingProposals scope) :
    ∃ row ∈ s.observations, row.toMemoryObservation = o := by
  obtain ⟨n, _, ho⟩ := List.mem_flatMap.mp h
  simp only [MemoryStore.scopedObservations, List.mem_filter, List.mem_map] at ho
  exact ho.1.1

/-- No two pending proposals tie. -/
theorem proposals_distinct {lost : List MemoryObservation} (h : lost.Nodup)
    (hmem : ∀ o ∈ lost, o ∈ s.pendingProposals scope) :
    lost.Pairwise fun a b => ¬ (newestProposal a b = true ∧ newestProposal b a = true) := by
  refine h.imp_of_mem fun {a b} ha hb hne htie => hne ?_
  obtain ⟨row, hrow, rfl⟩ := mem_pendingProposals (hmem a ha)
  obtain ⟨row', hrow', rfl⟩ := mem_pendingProposals (hmem b hb)
  rw [Table.eq_of_key hrow hrow' (byKeys_antisymm htie.2 htie.1)]

theorem listProposals_ok (s : MemoryStore) (scope : ScopeContract)
    (request : MemoryProposalListInput) :
    s.listProposals true (.ok scope) request =
      .ok (((((memoryNamespaces.filter (canReadNamespace · scope)).flatMap fun n =>
        (s.byCursor scope n).take request.limit).filter
          fun o => o.status = .pending).mergeSort newestProposal).take request.limit) := by
  have hlimit := request.limit_le
  have hbounds : 1 ≤ request.limit ∧ request.limit ≤ 1000 := ⟨request.limit_pos, by omega⟩
  have hread : s.readProposals scope request.limit = .ok _ := readProposals_ok hbounds
  simp only [MemoryStore.listProposals, Bool.not_true, Bool.false_eq_true, ↓reduceIte,
    Except.mapError, ok_bind, hread]
  rfl

/-- The list is the newest proposals exactly when every pending observation that the read of its
namespace cuts off has `limit` other ones before it. -/
theorem MemoryStore.list_proposals_complete_iff (s : MemoryStore) (scope : ScopeContract)
    (request : MemoryProposalListInput) :
    (∃ proposals, s.listProposals true (.ok scope) request = .ok proposals ∧
      Leads newestProposal request.limit (s.pendingProposals scope) proposals) ↔
    ∀ n, canReadNamespace n scope = true → ∀ o ∈ (s.byCursor scope n).drop request.limit,
      o.status = .pending →
        request.limit < (s.pendingProposals scope).countP fun other => newestProposal other o := by
  have hperm := pendingProposals_perm s scope request.limit
  have hnodup := hperm.nodup_iff.mpr (nodup_pendingProposals s scope)
  have hdistinct := proposals_distinct (List.nodup_append.mp hnodup).2.1 fun o ho =>
    hperm.mem_iff.mp (List.mem_append_right _ ho)
  rw [listProposals_ok]
  simp only [Except.ok.injEq, exists_eq_left']
  rw [(leads_mergeSort orders_newestProposal request.limit _).split_iff orders_newestProposal
    hdistinct hperm]
  have hall : ∀ n, n ∈ memoryNamespaces := by
    intro n
    cases n <;> decide
  simp only [List.mem_filter, List.mem_flatMap, hall, true_and, decide_eq_true_eq,
    forall_exists_index, and_imp]
  constructor
  · intro h n hn o ho hpending
    exact h o n hn ho hpending
  · intro h o n hn ho hpending
    exact h n hn o ho hpending

/-- A pending draft that is older than an accepted one. -/
def decidedDrafts : MemoryStore :=
  draftStore [{ draft 5 1 with sourceCursor := 4 }, { draft 4 1 with status := .pending }]
    (by decide)

def oneProposal : MemoryProposalListInput := ⟨2, 1, by decide, by decide⟩

/-- A pending draft is not listed because an accepted one is newer. -/
theorem MemoryStore.list_proposals_drops_draft :
    decidedDrafts.listProposals true (.ok draftScope) oneProposal = .ok [] ∧
      (decidedDrafts.pendingProposals draftScope).map (·.id) = [4] ∧
      ¬ Leads newestProposal 1 (decidedDrafts.pendingProposals draftScope) [] := by
  have hsorted : decidedDrafts.byCursor draftScope .conversationDraft =
      decidedDrafts.scopedObservations .conversationDraft
        (repositoryScope .conversationDraft draftScope) false :=
    List.mergeSort_of_pairwise (by decide)
  have hnamespaces : memoryNamespaces.filter (canReadNamespace · draftScope) =
      [.conversationDraft] := by decide
  have hpending : (decidedDrafts.pendingProposals draftScope).map (·.id) = [4] := by decide
  have hkept : ((decidedDrafts.byCursor draftScope .conversationDraft).take 1).filter
      (fun o => o.status = .pending) = [] := by
    rw [hsorted]
    decide
  refine ⟨?_, hpending, fun hleads => ?_⟩
  · rw [listProposals_ok, hnamespaces, List.flatMap_singleton, oneProposal, hkept]
    simp only [List.mergeSort_nil, List.take_nil]
  · have hlength := hleads.length
    have hone := congrArg List.length hpending
    rw [List.length_map] at hone
    rw [hone] at hlength
    cases hlength

end Complete

end Fairy.Memory
