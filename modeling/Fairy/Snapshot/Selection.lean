import Fairy.Snapshot.Candidates
import Fairy.Lib.Batch

namespace Fairy.Snapshot

open Fairy.Lib
open Fairy.Memory
open Fairy.Commanding (Uuid Time)

def defaultSnapshotTokenBudget : Nat := 2400
def hardSnapshotTokenCeiling : Nat := 3000
def userProfileTokenBudget : Nat := 400
def projectCanonicalTokenBudget : Nat := 1000
def conversationDraftTokenBudget : Nat := 500
def historyTokenBudget : Nat := 500

inductive SnapshotError
  | memory (e : MemoryError)
  | tooLarge (message : String)
  | valueError (message : String)
  deriving DecidableEq

namespace SnapshotCandidate

def category (c : SnapshotCandidate) : Nat :=
  if c.namespaceOf = some .projectCanonical ∧ c.sourceKind = .claimRevision then
    if c.exactMatch then 0 else 1
  else if c.namespaceOf = some .userProfile ∧ c.sourceKind = .claimRevision then
    if c.exactMatch then 2 else 3
  else if c.namespaceOf = some .conversationDraft ∧ c.sourceKind = .claimRevision then 4
  else 5

/-- The order of `rank_candidate`. -/
def rankOrder (a b : SnapshotCandidate) : Bool :=
  ((compare a.category b.category).then
    ((compare (authorityPrecedence b.authority) (authorityPrecedence a.authority)).then
      ((compare b.exactMatch.toNat a.exactMatch.toNat).then
        ((compareOfLessAndEq b.lexicalScore a.lexicalScore).then
          ((compare b.sourceCursor a.sourceCursor).then
            ((compareOfLessAndEq b.confidence.1 a.confidence.1).then
              ((compare a.sourceKind.value b.sourceKind.value).then
                ((compare a.sourceId b.sourceId).then
                  (compare (a.sourceRevision.getD 0) (b.sourceRevision.getD 0)))))))))).isLE

/-- A candidate that the snapshot cannot leave out. -/
def isRequired (c : SnapshotCandidate) : Bool :=
  c.namespaceOf = some .projectCanonical ∧ c.sourceKind = .claimRevision ∧
    (c.exactMatch ∨ c.conflictSetId ≠ none)

end SnapshotCandidate

/-- The values of the dictionary `deduplicated`: of the candidates of a key, the first in rank. -/
def deduplicate (candidates : List SnapshotCandidate) : List SnapshotCandidate :=
  (candidates.mergeSort SnapshotCandidate.rankOrder).foldl (fun values c =>
    if values.all (·.key ≠ c.key) then values ++ [c] else values) []

def tokens (candidates : List SnapshotCandidate) : Nat := (candidates.map (·.tokenCount)).sum

/-- `_fit`: the candidates are taken in rank while they fit. -/
def fit (candidates : List SnapshotCandidate) (budget : Nat) : List SnapshotCandidate :=
  (candidates.mergeSort SnapshotCandidate.rankOrder).foldl (fun selected c =>
    if tokens selected + c.tokenCount ≤ budget then selected ++ [c] else selected) []

/-- `_unselected_section`. -/
def unselectedSection (candidates selected : List SnapshotCandidate) (inSection : SnapshotSection) :
    List SnapshotCandidate :=
  candidates.filter fun c => c.inSection = inSection ∧ ∀ chosen ∈ selected, chosen.key ≠ c.key

/-- `SnapshotBudgetSelector.select`. -/
def select (candidates : List SnapshotCandidate) :
    Except SnapshotError (List SnapshotCandidate) :=
  let values := deduplicate candidates
  let required := values.filter (·.isRequired)
  let requiredTokens := tokens required
  if requiredTokens > hardSnapshotTokenCeiling then
    .error (.tooLarge
      "Required exact or conflicted Project Canonical Memory exceeds 3,000 tokens")
  else
    let remaining := max defaultSnapshotTokenBudget requiredTokens - requiredTokens
    let profileAllocation := min userProfileTokenBudget remaining
    let profile := fit (unselectedSection values required .profile) profileAllocation
    let selected := required ++ profile
    let remaining := remaining - tokens profile
    let canonicalAllocation := min remaining
      ((projectCanonicalTokenBudget - requiredTokens) + (profileAllocation - tokens profile))
    let canonical := fit (unselectedSection values selected .canonical) canonicalAllocation
    let selected := selected ++ canonical
    let remaining := remaining - tokens canonical
    let draftAllocation := min remaining
      (conversationDraftTokenBudget + (canonicalAllocation - tokens canonical))
    let draft := fit (unselectedSection values selected .draft) draftAllocation
    let selected := selected ++ draft
    let remaining := remaining - tokens draft
    let historyAllocation := min remaining
      (historyTokenBudget + (draftAllocation - tokens draft))
    let history := fit (unselectedSection values selected .history) historyAllocation
    .ok ((selected ++ history).mergeSort SnapshotCandidate.rankOrder)

variable {candidates : List SnapshotCandidate} {c : SnapshotCandidate}

theorem deduplicate_eq : deduplicate candidates = keep (fun values c =>
    values.all (fun other : SnapshotCandidate => other.key ≠ c.key) = true) []
      (candidates.mergeSort SnapshotCandidate.rankOrder) := rfl

theorem fit_eq (candidates : List SnapshotCandidate) (budget : Nat) : fit candidates budget =
    keep (fun selected c => tokens selected + c.tokenCount ≤ budget) []
      (candidates.mergeSort SnapshotCandidate.rankOrder) := rfl

theorem mem_of_mem_deduplicate (h : c ∈ deduplicate candidates) : c ∈ candidates := by
  rw [deduplicate_eq] at h
  exact List.mem_mergeSort.mp (keep_sublist.subset h)

theorem mem_of_mem_fit {budget : Nat} (h : c ∈ fit candidates budget) : c ∈ candidates := by
  rw [fit_eq] at h
  exact List.mem_mergeSort.mp (keep_sublist.subset h)

theorem mem_of_mem_section {values selected : List SnapshotCandidate} {inSection : SnapshotSection}
    {budget : Nat} (h : c ∈ fit (unselectedSection values selected inSection) budget) :
    c ∈ values :=
  (List.mem_filter.mp (mem_of_mem_fit h)).1

/-- The selector only leaves candidates out. -/
theorem mem_of_mem_select {items : List SnapshotCandidate} (h : select candidates = .ok items)
    (hc : c ∈ items) : c ∈ candidates := by
  simp only [select] at h
  split at h
  · cases h
  cases h
  apply mem_of_mem_deduplicate
  simp only [List.mem_mergeSort, List.mem_append] at hc
  obtain (((hc | hc) | hc) | hc) | hc := hc
  · exact (List.mem_filter.mp hc).1
  · exact mem_of_mem_section hc
  · exact mem_of_mem_section hc
  · exact mem_of_mem_section hc
  · exact mem_of_mem_section hc

end Fairy.Snapshot
