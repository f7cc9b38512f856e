import Fairy.Snapshot.Selection
import Fairy.Lib.Batch
import Mathlib.Order.Std

namespace Fairy.Snapshot

open Fairy.Lib

section Rank

open SnapshotCandidate

theorem compare_rat (a b : Rat) : compareOfLessAndEq a b = compare a b :=
  (LinearOrder.compare_eq_compareOfLessAndEq a b).symm

/-- The comparison that `rank_candidate` stands for, key by key. -/
theorem rankOrder_eq : rankOrder = fun a b =>
    (compareLex (compareOn category)
      (compareLex (fun a b => compareOn (fun c => authorityPrecedence c.authority) b a)
        (compareLex (fun a b => compareOn (fun c => c.exactMatch.toNat) b a)
          (compareLex (fun a b => compareOn lexicalScore b a)
            (compareLex (fun a b => compareOn sourceCursor b a)
              (compareLex (fun a b => compareOn (fun c => c.confidence.1) b a)
                (compareLex (compareOn fun c => c.sourceKind.value)
                  (compareLex (compareOn sourceId)
                    (compareOn fun c => c.sourceRevision.getD 0)))))))) a b).isLE := by
  funext a b
  simp only [rankOrder, compareLex, compareOn, compare_rat]

theorem rankOrder_trans (a b c : SnapshotCandidate) (hab : rankOrder a b = true)
    (hbc : rankOrder b c = true) : rankOrder a c = true := by
  rw [rankOrder_eq] at *
  exact Std.TransCmp.isLE_trans hab hbc

theorem rankOrder_total (a b : SnapshotCandidate) : (rankOrder a b || rankOrder b a) = true := by
  rw [rankOrder_eq]
  exact isLE_total a b

end Rank

/-- The required candidates, of those that are left of each key. -/
def required (candidates : List SnapshotCandidate) : List SnapshotCandidate :=
  (deduplicate candidates).filter (·.isRequired)

/-- The items of a section that the selector was free to leave out. -/
def optional (candidates items : List SnapshotCandidate) (inSection : SnapshotSection) :
    List SnapshotCandidate :=
  items.filter fun c => c.inSection = inSection ∧ c ∉ required candidates

/-- What is left for the profile, when the required items have `used` tokens. -/
def profileAllocation (used : Nat) : Nat :=
  min userProfileTokenBudget (max defaultSnapshotTokenBudget used - used)

/-- What is left for the canonical items, with what the profile has not used. -/
def canonicalAllocation (used profile : Nat) : Nat :=
  min (max defaultSnapshotTokenBudget used - used - profile)
    ((projectCanonicalTokenBudget - used) + (profileAllocation used - profile))

/-- What the selector makes of its candidates. -/
structure Budgeted (candidates items : List SnapshotCandidate) : Prop where
  chosen : items ⊆ candidates
  keys : (items.map (·.key)).Nodup
  required : required candidates ⊆ items
  sorted : items.Pairwise fun a b => a.rankOrder b = true
  total : tokens items ≤ max defaultSnapshotTokenBudget (tokens (Snapshot.required candidates))
  ceiling : tokens items ≤ hardSnapshotTokenCeiling
  profile : tokens (optional candidates items .profile) ≤
    profileAllocation (tokens (Snapshot.required candidates))
  canonical : tokens (optional candidates items .canonical) ≤
    canonicalAllocation (tokens (Snapshot.required candidates))
      (tokens (optional candidates items .profile))

section Tokens

variable {l l' : List SnapshotCandidate}

theorem tokens_append (l l' : List SnapshotCandidate) : tokens (l ++ l') = tokens l + tokens l' := by
  simp only [tokens, List.map_append, List.sum_append]

theorem tokens_perm (h : l.Perm l') : tokens l = tokens l' := (h.map _).sum_nat

theorem tokens_fit (l : List SnapshotCandidate) (budget : Nat) : tokens (fit l budget) ≤ budget := by
  rw [fit_eq]
  refine keep_invariant (P := fun kept => tokens kept ≤ budget) (fun kept _ c hc => ?_)
    (Nat.zero_le budget)
  rw [tokens_append]
  exact hc

end Tokens

section Keys

variable {candidates values selected : List SnapshotCandidate}

/-- No two of the candidates have a key in common. -/
def KeysDiffer (l : List SnapshotCandidate) : Prop := (l.map (·.key)).Nodup

theorem keysDiffer_deduplicate (candidates : List SnapshotCandidate) :
    KeysDiffer (deduplicate candidates) := by
  rw [deduplicate_eq]
  refine keep_invariant (P := KeysDiffer) (fun kept h c hc => ?_) List.nodup_nil
  simp only [List.all_eq_true, decide_eq_true_eq] at hc
  simp only [KeysDiffer, List.map_append, List.map_singleton] at h ⊢
  refine List.nodup_append'.mpr ⟨h, List.nodup_singleton _, ?_⟩
  intro key hkey hsame
  obtain ⟨other, hother, rfl⟩ := List.mem_map.mp hkey
  exact hc other hother (List.mem_singleton.mp hsame)

theorem KeysDiffer.fit (h : KeysDiffer values) (budget : Nat) : KeysDiffer (fit values budget) := by
  rw [fit_eq]
  have hsorted : KeysDiffer (values.mergeSort SnapshotCandidate.rankOrder) :=
    ((List.mergeSort_perm values _).map _).nodup_iff.mpr h
  exact hsorted.sublist (keep_sublist.map _)

theorem KeysDiffer.append_section (hvalues : KeysDiffer values) (h : KeysDiffer selected)
    (inSection : SnapshotSection) (budget : Nat) :
    KeysDiffer (selected ++ Snapshot.fit (unselectedSection values selected inSection) budget) := by
  have hsection : KeysDiffer (unselectedSection values selected inSection) :=
    hvalues.sublist (List.filter_sublist.map _)
  simp only [KeysDiffer, List.map_append]
  refine List.nodup_append'.mpr ⟨h, hsection.fit budget, ?_⟩
  intro key hkey hsame
  obtain ⟨chosen, hchosen, rfl⟩ := List.mem_map.mp hkey
  obtain ⟨c, hc, heq⟩ := List.mem_map.mp hsame
  have hnew := of_decide_eq_true (List.mem_filter.mp (mem_of_mem_fit hc)).2
  exact hnew.2 chosen hchosen heq.symm

end Keys

section Stages

variable {candidates selected : List SnapshotCandidate} {s s' : SnapshotSection} {budget : Nat}

/-- What the selector takes of a section, past what it has selected. -/
def stage (candidates selected : List SnapshotCandidate) (s : SnapshotSection) (budget : Nat) :
    List SnapshotCandidate :=
  fit (unselectedSection (deduplicate candidates) selected s) budget

theorem mem_stage {c : SnapshotCandidate} (h : c ∈ stage candidates selected s budget) :
    c ∈ deduplicate candidates ∧ c.inSection = s ∧ c ∉ selected := by
  obtain ⟨hc, hnew⟩ := List.mem_filter.mp (mem_of_mem_fit h)
  obtain ⟨hsection, hkeys⟩ := of_decide_eq_true hnew
  exact ⟨hc, hsection, fun hselected => hkeys c hselected rfl⟩

theorem optional_append (candidates l l' : List SnapshotCandidate) (s : SnapshotSection) :
    optional candidates (l ++ l') s = optional candidates l s ++ optional candidates l' s :=
  List.filter_append ..

theorem optional_required (candidates : List SnapshotCandidate) (s : SnapshotSection) :
    optional candidates (required candidates) s = [] := by
  refine List.filter_eq_nil_iff.mpr fun c hc hfree => ?_
  exact (of_decide_eq_true hfree).2 hc

theorem optional_stage {l : List SnapshotCandidate} (hl : l = stage candidates selected s budget)
    (h : required candidates ⊆ selected) : optional candidates l s = l := by
  refine List.filter_eq_self.mpr fun c hc => decide_eq_true ?_
  obtain ⟨_, hsection, hnew⟩ := mem_stage (hl ▸ hc)
  exact ⟨hsection, fun hrequired => hnew (h hrequired)⟩

theorem optional_other {l : List SnapshotCandidate} (hl : l = stage candidates selected s budget)
    (hs : s ≠ s') : optional candidates l s' = [] := by
  refine List.filter_eq_nil_iff.mpr fun c hc hfree => ?_
  exact hs ((mem_stage (hl ▸ hc)).2.1.symm.trans (of_decide_eq_true hfree).1)

/-- The stages of the selector, one for each section. Each one goes by what the stages before it
have left. -/
structure Staged (candidates profile canonical draft history : List SnapshotCandidate) : Prop where
  takesProfile : profile = stage candidates (required candidates) .profile
    (profileAllocation (tokens (required candidates)))
  takesCanonical : canonical = stage candidates (required candidates ++ profile) .canonical
    (canonicalAllocation (tokens (required candidates)) (tokens profile))
  takesDraft : ∃ budget, draft =
      stage candidates (required candidates ++ profile ++ canonical) .draft budget ∧
    budget ≤ max defaultSnapshotTokenBudget (tokens (required candidates)) -
      tokens (required candidates) - tokens profile - tokens canonical
  takesHistory : ∃ budget, history =
      stage candidates (required candidates ++ profile ++ canonical ++ draft) .history budget ∧
    budget ≤ max defaultSnapshotTokenBudget (tokens (required candidates)) -
      tokens (required candidates) - tokens profile - tokens canonical - tokens draft

theorem select_eq (h : tokens (required candidates) ≤ hardSnapshotTokenCeiling) :
    ∃ profile canonical draft history, Staged candidates profile canonical draft history ∧
      select candidates = .ok ((required candidates ++ profile ++ canonical ++ draft ++
        history).mergeSort SnapshotCandidate.rankOrder) := by
  let used := tokens (required candidates)
  let target := max defaultSnapshotTokenBudget used
  let profile := stage candidates (required candidates) .profile (profileAllocation used)
  let canonical := stage candidates (required candidates ++ profile) .canonical
    (canonicalAllocation used (tokens profile))
  let draftAllocation := min (target - used - tokens profile - tokens canonical)
    (conversationDraftTokenBudget + (canonicalAllocation used (tokens profile) - tokens canonical))
  let draft := stage candidates (required candidates ++ profile ++ canonical) .draft
    draftAllocation
  let historyAllocation := min (target - used - tokens profile - tokens canonical - tokens draft)
    (historyTokenBudget + (draftAllocation - tokens draft))
  let history := stage candidates (required candidates ++ profile ++ canonical ++ draft) .history
    historyAllocation
  refine ⟨profile, canonical, draft, history, ⟨rfl, rfl, ?_, ?_⟩, if_neg (Nat.not_lt.mpr h)⟩
  · exact ⟨draftAllocation, rfl, Nat.min_le_left _ _⟩
  · exact ⟨historyAllocation, rfl, Nat.min_le_left _ _⟩

theorem select_error_iff :
    (∃ e, select candidates = .error e) ↔
      hardSnapshotTokenCeiling < tokens (required candidates) := by
  constructor
  · rintro ⟨e, he⟩
    by_contra hle
    obtain ⟨profile, canonical, draft, history, _, hselect⟩ := select_eq (Nat.not_lt.mp hle)
    rw [hselect] at he
    cases he
  · intro hlt
    exact ⟨_, if_pos hlt⟩

variable {profile canonical draft history : List SnapshotCandidate}

namespace Staged

theorem keysDiffer (h : Staged candidates profile canonical draft history) :
    KeysDiffer (required candidates ++ profile ++ canonical ++ draft ++ history) := by
  obtain ⟨rfl, rfl, ⟨_, rfl, _⟩, ⟨_, rfl, _⟩⟩ := h
  have hvalues := keysDiffer_deduplicate candidates
  have hrequired : KeysDiffer (required candidates) :=
    hvalues.sublist (List.filter_sublist.map _)
  exact hvalues.append_section (hvalues.append_section (hvalues.append_section
    (hvalues.append_section hrequired _ _) _ _) _ _) _ _

theorem subset (h : Staged candidates profile canonical draft history) :
    required candidates ++ profile ++ canonical ++ draft ++ history ⊆ candidates := by
  obtain ⟨rfl, rfl, ⟨_, rfl, _⟩, ⟨_, rfl, _⟩⟩ := h
  intro c hc
  apply mem_of_mem_deduplicate
  simp only [List.mem_append] at hc
  obtain (((hc | hc) | hc) | hc) | hc := hc
  · exact (List.mem_filter.mp hc).1
  · exact (mem_stage hc).1
  · exact (mem_stage hc).1
  · exact (mem_stage hc).1
  · exact (mem_stage hc).1

theorem total (h : Staged candidates profile canonical draft history) :
    tokens (required candidates ++ profile ++ canonical ++ draft ++ history) ≤
      max defaultSnapshotTokenBudget (tokens (required candidates)) := by
  obtain ⟨hprofile, hcanonical, ⟨draftBudget, hdraft, hdraftBudget⟩,
    ⟨historyBudget, hhistory, hhistoryBudget⟩⟩ := h
  have hp : tokens profile ≤ profileAllocation (tokens (required candidates)) :=
    hprofile ▸ tokens_fit _ _
  have hc : tokens canonical ≤
      canonicalAllocation (tokens (required candidates)) (tokens profile) :=
    hcanonical ▸ tokens_fit _ _
  have hd : tokens draft ≤ draftBudget := hdraft ▸ tokens_fit _ _
  have hh : tokens history ≤ historyBudget := hhistory ▸ tokens_fit _ _
  simp only [profileAllocation, canonicalAllocation] at hp hc
  simp only [tokens_append]
  omega

/-- Of a section, the selector has left out what its stage has not taken. -/
theorem optional_eq (h : Staged candidates profile canonical draft history) :
    optional candidates (required candidates ++ profile ++ canonical ++ draft ++ history)
        .profile = profile ∧
      optional candidates (required candidates ++ profile ++ canonical ++ draft ++ history)
        .canonical = canonical := by
  obtain ⟨hprofile, hcanonical, ⟨_, hdraft, _⟩, ⟨_, hhistory, _⟩⟩ := h
  simp only [optional_append, optional_required, List.nil_append]
  constructor
  · rw [optional_stage hprofile (List.Subset.refl _), optional_other hcanonical (by decide),
      optional_other hdraft (by decide), optional_other hhistory (by decide), List.append_nil,
      List.append_nil, List.append_nil]
  · rw [optional_other hprofile (by decide),
      optional_stage hcanonical (List.subset_append_left _ _), optional_other hdraft (by decide),
      optional_other hhistory (by decide), List.nil_append, List.append_nil, List.append_nil]

end Staged

theorem optional_perm {l l' : List SnapshotCandidate} (h : l.Perm l') (s : SnapshotSection) :
    tokens (optional candidates l s) = tokens (optional candidates l' s) :=
  tokens_perm (h.filter _)

theorem Staged.budgeted (h : Staged candidates profile canonical draft history)
    (hfits : tokens (required candidates) ≤ hardSnapshotTokenCeiling) :
    Budgeted candidates ((required candidates ++ profile ++ canonical ++ draft ++
      history).mergeSort SnapshotCandidate.rankOrder) := by
  have hperm := List.mergeSort_perm (required candidates ++ profile ++ canonical ++ draft ++
    history) SnapshotCandidate.rankOrder
  have htotal := tokens_perm hperm ▸ h.total
  obtain ⟨hprofile, hcanonical⟩ := h.optional_eq
  refine ⟨fun c hc => h.subset (hperm.subset hc), (hperm.map _).nodup_iff.mpr h.keysDiffer,
    fun c hc => hperm.symm.subset (by simp [hc]), ?_, htotal, ?_, ?_, ?_⟩
  · exact List.pairwise_mergeSort rankOrder_trans rankOrder_total _
  · have hceiling : max defaultSnapshotTokenBudget (tokens (required candidates)) ≤
        hardSnapshotTokenCeiling := max_le (by decide) hfits
    exact htotal.trans hceiling
  · rw [optional_perm hperm, hprofile, h.takesProfile]
    exact tokens_fit _ _
  · rw [optional_perm hperm, optional_perm hperm, hprofile, hcanonical]
    conv_lhs => rw [h.takesCanonical]
    exact tokens_fit _ _

end Stages

section Selector

/-- Only equal candidates share a rank. -/
def RanksDiffer (l : List SnapshotCandidate) : Prop :=
  ∀ a ∈ l, ∀ b ∈ l, a.rankOrder b = true → b.rankOrder a = true → a = b

theorem deduplicate_perm {candidates candidates' : List SnapshotCandidate}
    (hperm : candidates.Perm candidates') (h : RanksDiffer candidates) :
    deduplicate candidates = deduplicate candidates' := by
  rw [deduplicate_eq, deduplicate_eq, mergeSort_eq_of_perm rankOrder_trans rankOrder_total h hperm]

/-- The selector keeps to its budgets, and takes no notice of the order of its candidates. -/
theorem selector_keeps_budgets (candidates : List SnapshotCandidate) :
    ((∃ e, select candidates = .error e) ↔
      hardSnapshotTokenCeiling < tokens (required candidates)) ∧
    (∀ items, select candidates = .ok items → Budgeted candidates items) ∧
    (RanksDiffer candidates →
      ∀ candidates', candidates.Perm candidates' → select candidates' = select candidates) := by
  refine ⟨select_error_iff, fun items hitems => ?_, fun h candidates' hperm => ?_⟩
  · have hfits : tokens (required candidates) ≤ hardSnapshotTokenCeiling := by
      by_contra hlt
      obtain ⟨e, he⟩ := select_error_iff.mpr (Nat.not_le.mp hlt)
      rw [he] at hitems
      cases hitems
    obtain ⟨profile, canonical, draft, history, hstaged, hselect⟩ := select_eq hfits
    obtain rfl := Except.ok.inj (hselect.symm.trans hitems)
    exact hstaged.budgeted hfits
  · simp only [select, deduplicate_perm hperm h]

theorem one_certain : (0 : Rat) ≤ 1 ∧ (1 : Rat) ≤ 1 := by decide +kernel

/-- A canonical claim in two versions that share a key and a rank. -/
def tied (tokenCount : Nat) : SnapshotCandidate where
  sourceKind := .claimRevision
  sourceId := 1
  sourceRevision := some 1
  namespaceOf := some .projectCanonical
  authority := .explicitUser
  selectionReason := .exactCanonical
  scoreComponents := ⟨0, 1, 0, 0, 1⟩
  renderedText := ""
  tokenCount := tokenCount
  sourceCursor := 1
  exactMatch := true
  lexicalScore := 0
  confidence := ⟨1, one_certain⟩
  conflictSetId := none
  inSection := .canonical

theorem tied_order (m n : Nat) : (tied m).rankOrder (tied n) = true := by
  have hrefl : (tied m).rankOrder (tied m) = true := by
    simpa using rankOrder_total (tied m) (tied m)
  exact hrefl

theorem required_tied (m n : Nat) : required [tied m, tied n] = [tied m] := by
  have hsorted : [tied m, tied n].mergeSort SnapshotCandidate.rankOrder = [tied m, tied n] :=
    List.mergeSort_of_pairwise (List.pairwise_pair.mpr (tied_order m n))
  rw [required, deduplicate_eq, hsorted]
  rfl

/-- Which of two candidates that share a key and a rank is taken depends on their order. -/
theorem selector_order_matters : ¬ ∀ candidates candidates' : List SnapshotCandidate,
    candidates.Perm candidates' →
    (∀ a ∈ candidates, ∀ b ∈ candidates, a.key = b.key →
      a.rankOrder b = true ∧ b.rankOrder a = true) →
    select candidates' = select candidates := by
  intro h
  have hsame := h [tied 10, tied 4000] [tied 4000, tied 10] (.swap _ _ _) (by
    intro a ha b hb _
    obtain ⟨m, rfl⟩ : ∃ m, a = tied m := by
      obtain rfl | ha := List.mem_cons.mp ha
      · exact ⟨_, rfl⟩
      · exact ⟨_, List.mem_singleton.mp ha⟩
    obtain ⟨n, rfl⟩ : ∃ n, b = tied n := by
      obtain rfl | hb := List.mem_cons.mp hb
      · exact ⟨_, rfl⟩
      · exact ⟨_, List.mem_singleton.mp hb⟩
    exact ⟨tied_order m n, tied_order n m⟩)
  have hraises : ∃ e, select [tied 4000, tied 10] = .error e := by
    apply select_error_iff.mpr
    rw [required_tied]
    decide
  obtain ⟨e, he⟩ := hraises
  rw [hsame] at he
  have hlarge := select_error_iff.mp ⟨e, he⟩
  rw [required_tied] at hlarge
  exact absurd hlarge (by decide)

end Selector

end Fairy.Snapshot
