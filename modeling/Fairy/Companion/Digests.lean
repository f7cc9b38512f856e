import Fairy.Lib.Batch
import Fairy.Lib.Leading
import Fairy.Lib.Table

namespace Fairy.Companion

open Fairy.Lib

abbrev Uuid := Nat

/-- An aware UTC `datetime`, in microseconds. -/
abbrev Time := Nat

inductive CompanionDigestActivity
  | auto | game | focus
  deriving DecidableEq

inductive RealtimeError
  | valueError (message : String)
  deriving DecidableEq

structure CompanionSessionDigest where
  id : Uuid
  sessionId : Uuid
  conversationId : Uuid
  requestId : String
  requestFingerprint : String
  activity : CompanionDigestActivity
  subjectTitle : Option String
  startedAt : Time
  endedAt : Time
  durationSeconds : Nat
  activities : List String
  progressSummary : String
  unresolvedIssue : Option String
  nextGoal : Option String
  notableOutcome : Option String
  sourceFirstSequence : Nat
  sourceLastSequence : Nat
  sourceDigest : String
  policyVersion : String
  proposalIds : List Uuid
  createdAt : Time
  revision : Nat
  deriving DecidableEq

structure GameMemoryDigest where
  id : Uuid
  sessionId : Uuid
  gameTitle : String
  playedAt : Time
  durationSeconds : Nat
  activities : List String
  progressSummary : String
  nextGoal : Option String
  notableOutcome : Option String
  accepted : Bool
  createdAt : Time
  deriving DecidableEq

/-- What the digests read of a row of `realtime_sessions`. -/
structure RealtimeSession where
  id : Uuid
  conversationId : Option Uuid
  deriving DecidableEq

/-- The tables as one tenant sees them. -/
structure RealtimeStore where
  sessions : Table RealtimeSession (·.id) fun _ => True
  digests : Table CompanionSessionDigest (·.id) fun _ => True
  memories : Table GameMemoryDigest (·.id) fun _ => True

/-- `hashlib.sha256` of a text in hexadecimal, and `str` of a UUID. -/
structure Encoding where
  sha256 : String → String
  uuid : Uuid → String

/-- `_project_game_memory`. -/
def Encoding.projectGameMemory (x : Encoding) (memory : GameMemoryDigest)
    (conversationId : Uuid) : CompanionSessionDigest :=
  let requestId := s!"legacy:{x.uuid memory.id}"
  { id := memory.id
    sessionId := memory.sessionId
    conversationId
    requestId
    requestFingerprint := x.sha256 requestId
    activity := .game
    subjectTitle := some memory.gameTitle
    startedAt := memory.playedAt
    endedAt := memory.playedAt + memory.durationSeconds * 1000000
    durationSeconds := memory.durationSeconds
    activities := memory.activities
    progressSummary := memory.progressSummary
    unresolvedIssue := none
    nextGoal := memory.nextGoal
    notableOutcome := memory.notableOutcome
    sourceFirstSequence := 1
    sourceLastSequence := 1
    sourceDigest := x.sha256 ("\x7b\"legacy_game_memory_id\":\"" ++ x.uuid memory.id ++
      "\",\"session_id\":\"" ++ x.uuid memory.sessionId ++ "\"\x7d")
    policyVersion := "legacy-game-memory-v1"
    proposalIds := []
    createdAt := memory.createdAt
    revision := 1 }

/-- `ORDER BY created_at DESC, id DESC`. -/
def newest (a b : CompanionSessionDigest) : Bool := byKeys (·.createdAt) (·.id) b a

namespace RealtimeStore

variable (s : RealtimeStore)

def getSession (id : Uuid) : Option RealtimeSession := s.sessions.rows.find? (·.id = id)

/-- The persisted digests of a session, or of all of them. -/
def digestsOf (sessionId : Option Uuid) : List CompanionSessionDigest :=
  s.digests.rows.filter fun digest => ∀ id ∈ sessionId, digest.sessionId = id

/-- `list_digests` of the repository. -/
def readDigests (sessionId : Option Uuid) (limit : Nat) :
    Except RealtimeError (List CompanionSessionDigest) :=
  if limit < 1 ∨ 200 < limit then
    .error (.valueError "companion digest limit must be between 1 and 200")
  else .ok (((s.digestsOf sessionId).mergeSort newest).take limit)

/-- `ORDER BY played_at DESC`. -/
def memoriesByPlay : List GameMemoryDigest :=
  s.memories.rows.mergeSort fun a b => b.playedAt ≤ a.playedAt

/-- `list_memories` of the repository. -/
def listMemories (limit : Nat) : Except RealtimeError (List GameMemoryDigest) :=
  if limit < 1 ∨ 200 < limit then
    .error (.valueError "game memory limit must be between 1 and 200")
  else .ok (s.memoriesByPlay.take limit)

/-- The digest that stands for a legacy memory: `none` is a `continue` of the loop. -/
def legacyDigest (x : Encoding) (sessionId : Option Uuid) (memory : GameMemoryDigest) :
    Option CompanionSessionDigest :=
  if ∃ id ∈ sessionId, memory.sessionId ≠ id then none
  else
    match s.getSession memory.sessionId with
    | none => none
    | some session => session.conversationId.map (x.projectGameMemory memory)

/-- `list_digests` of the application. -/
def listDigests (x : Encoding) (sessionId : Option Uuid) (limit : Nat) :
    Except RealtimeError (List CompanionSessionDigest) := do
  let persisted ← s.readDigests sessionId limit
  let legacy ← s.listMemories limit
  let persisted := persisted ++ legacy.filterMap (s.legacyDigest x sessionId)
  return (persisted.mergeSort newest).take limit

/-- Every record that the filter admits: the persisted digests and the projected memories. -/
def matching (x : Encoding) (sessionId : Option Uuid) : List CompanionSessionDigest :=
  s.digestsOf sessionId ++ s.memories.rows.filterMap (s.legacyDigest x sessionId)

end RealtimeStore

section Complete

variable {x : Encoding} {s : RealtimeStore} {sessionId : Option Uuid} {limit : Nat}

theorem orders_newest : Orders newest where
  trans a b c hab hbc := byKeys_trans c b a hbc hab
  total a b := byKeys_total b a

theorem legacyDigest_id {memory : GameMemoryDigest} {digest : CompanionSessionDigest}
    (h : s.legacyDigest x sessionId memory = some digest) : digest.id = memory.id := by
  unfold RealtimeStore.legacyDigest at h
  split at h
  · cases h
  · cases hsession : s.getSession memory.sessionId with
    | none =>
      rw [hsession] at h
      cases h
    | some session =>
      rw [hsession] at h
      obtain ⟨conversationId, -, rfl⟩ := Option.map_eq_some_iff.mp h
      rfl

/-- No two legacy memories tie. -/
theorem legacy_distinct (x : Encoding) (s : RealtimeStore) (sessionId : Option Uuid)
    {memories : List GameMemoryDigest} (h : (memories.map (·.id)).Nodup) :
    (memories.filterMap (s.legacyDigest x sessionId)).Pairwise fun a b =>
      ¬ (newest a b = true ∧ newest b a = true) := by
  rw [List.pairwise_filterMap]
  refine (List.pairwise_map.mp h).imp fun hne a ha b hb htie => hne ?_
  rw [← legacyDigest_id ha, ← legacyDigest_id hb]
  exact byKeys_antisymm htie.2 htie.1

theorem memoriesByPlay_perm (s : RealtimeStore) : s.memoriesByPlay.Perm s.memories.rows :=
  List.mergeSort_perm ..

/-- What the read of the memories keeps and what it leaves out are all the records. -/
theorem matching_perm (x : Encoding) (s : RealtimeStore) (sessionId : Option Uuid) (limit : Nat) :
    ((s.digestsOf sessionId ++
        (s.memoriesByPlay.take limit).filterMap (s.legacyDigest x sessionId)) ++
      (s.memoriesByPlay.drop limit).filterMap (s.legacyDigest x sessionId)).Perm
      (s.matching x sessionId) := by
  rw [List.append_assoc, ← List.filterMap_append, List.take_append_drop]
  exact ((memoriesByPlay_perm s).filterMap _).append_left _

theorem listDigests_ok (h : 1 ≤ limit ∧ limit ≤ 200) :
    s.listDigests x sessionId limit =
      .ok (((((s.digestsOf sessionId).mergeSort newest).take limit ++
        (s.memoriesByPlay.take limit).filterMap
          (s.legacyDigest x sessionId)).mergeSort newest).take limit) := by
  have hlimit : ¬ (limit < 1 ∨ 200 < limit) := by omega
  simp only [RealtimeStore.listDigests, RealtimeStore.readDigests, RealtimeStore.listMemories,
    if_neg hlimit]
  rfl

theorem limit_of_listDigests {digests : List CompanionSessionDigest}
    (h : s.listDigests x sessionId limit = .ok digests) : 1 ≤ limit ∧ limit ≤ 200 := by
  by_contra hrange
  have hlimit : limit < 1 ∨ 200 < limit := by omega
  simp only [RealtimeStore.listDigests, RealtimeStore.readDigests, if_pos hlimit] at h
  cases h

/-- The list is the newest records exactly when every matching memory that is not among the
`limit` last played has `limit` other records before it. -/
theorem RealtimeStore.list_digests_complete_iff (x : Encoding) (s : RealtimeStore)
    (sessionId : Option Uuid) (limit : Nat) :
    (∃ digests, s.listDigests x sessionId limit = .ok digests ∧
      Leads newest limit (s.matching x sessionId) digests) ↔
    (1 ≤ limit ∧ limit ≤ 200) ∧ ∀ memory ∈ s.memoriesByPlay.drop limit,
      ∀ digest, s.legacyDigest x sessionId memory = some digest →
        limit < (s.matching x sessionId).countP fun other => newest other digest := by
  by_cases hrange : 1 ≤ limit ∧ limit ≤ 200
  swap
  · exact iff_of_false (fun ⟨_, hlist, _⟩ => hrange (limit_of_listDigests hlist))
      fun h => hrange h.1
  rw [listDigests_ok hrange, and_iff_right hrange]
  simp only [Except.ok.injEq, exists_eq_left']
  have hkept := (leads_mergeSort orders_newest limit (s.digestsOf sessionId)).join orders_newest
    (leads_mergeSort orders_newest limit (((s.digestsOf sessionId).mergeSort newest).take limit ++
      (s.memoriesByPlay.take limit).filterMap (s.legacyDigest x sessionId)))
  have hperm := matching_perm x s sessionId limit
  have hnodup : ((s.memoriesByPlay.drop limit).map (·.id)).Nodup :=
    (((memoriesByPlay_perm s).map (·.id)).nodup_iff.mpr s.memories.nodup).sublist
      ((List.drop_sublist limit s.memoriesByPlay).map _)
  rw [hkept.split_iff orders_newest (legacy_distinct x s sessionId hnodup) hperm]
  simp only [List.mem_filterMap, forall_exists_index, and_imp]
  constructor
  · intro h memory hmemory digest hdigest
    exact h digest memory hmemory hdigest
  · intro h digest memory hmemory hdigest
    exact h memory hmemory digest hdigest

/-- A game that was played and recorded in a session. -/
def played (id sessionId : Uuid) (at' : Time) : GameMemoryDigest where
  id := id
  sessionId := sessionId
  gameTitle := "game"
  playedAt := at'
  durationSeconds := 60
  activities := []
  progressSummary := "played"
  nextGoal := none
  notableOutcome := none
  accepted := true
  createdAt := at'

/-- Two sessions, the second one with the later game. -/
def twoSessions : RealtimeStore where
  sessions := ⟨[⟨1, some 10⟩, ⟨2, some 20⟩], by decide, fun _ _ => trivial⟩
  digests := .empty
  memories := ⟨[played 6 2 200, played 5 1 100], by decide, fun _ _ => trivial⟩

def plainEncoding : Encoding where
  sha256 text := text
  uuid id := toString id

/-- The game of one session is not listed because one was played later in another session. -/
theorem RealtimeStore.list_digests_drops_memory :
    twoSessions.listDigests plainEncoding (some 1) 1 = .ok [] ∧
      twoSessions.matching plainEncoding (some 1) =
        [plainEncoding.projectGameMemory (played 5 1 100) 10] ∧
      ¬ Leads newest 1 (twoSessions.matching plainEncoding (some 1)) [] := by
  have hmatching : twoSessions.matching plainEncoding (some 1) =
      [plainEncoding.projectGameMemory (played 5 1 100) 10] := rfl
  have hsorted : twoSessions.memoriesByPlay = twoSessions.memories.rows :=
    List.mergeSort_of_pairwise (by decide)
  have hskipped : (twoSessions.memories.rows.take 1).filterMap
      (twoSessions.legacyDigest plainEncoding (some 1)) = [] := rfl
  have hdigests : twoSessions.digestsOf (some 1) = [] := rfl
  refine ⟨?_, hmatching, fun hleads => ?_⟩
  · rw [listDigests_ok (by decide), hsorted, hskipped, hdigests]
    simp only [List.mergeSort_nil, List.take_nil, List.append_nil]
  · have hlength := hleads.length
    rw [hmatching] at hlength
    cases hlength

end Complete

end Fairy.Companion
