import PyClaw.Session.Backends
import PyClaw.Session.Directory

/-!
# Session.Forgetting

`SessionDirectory` is the store in memory without the creation times: `Forgets` relates the two, every
operation keeps it, and what they give back differs in the creation times only.
-/

namespace PyClaw

def StoredTree.forget (tree : StoredTree) : SessionTree where
  header := tree.header.toSessionHeader
  entries := tree.entries
  order := tree.order
  leafId := tree.leafId

def HistorySummary.forget (s : HistorySummary) : SessionHistorySummary where
  sessionId := s.sessionId
  messageCount := s.messageCount
  lastMessageAt := s.lastMessageAt
  parentSessionId := s.parentSessionId

structure Forgets (m : MemorySessionStore) (d : SessionDirectory) : Prop where
  load : ∀ sid, d.load sid = (m.trees.get? sid).map StoredTree.forget
  current : ∀ key, d.getCurrentSessionId key = m.current.get? key
  history : ∀ key, (d.history.get? key).getD [] = m.pointers key

namespace Forgets

variable {m : MemorySessionStore} {d : SessionDirectory} {tree : StoredTree} {key sid : String} {now : Int}

theorem put (h : Forgets m d) (tree : StoredTree) :
    Forgets { m with trees := m.trees.set tree.header.id tree } { d with store := d.store.put tree.forget } where
  load sid := by
    change (d.store.trees.set tree.header.id tree.forget).get? sid =
      ((m.trees.set tree.header.id tree).get? sid).map StoredTree.forget
    rw [Dict.get?_set, Dict.get?_set]
    split
    · rfl
    · exact h.load sid
  current := h.current
  history := h.history

theorem saveHeader (h : Forgets m d) (tree : StoredTree) :
    Forgets (m.saveHeader tree) (d.saveHeader tree.forget) := by
  have hload := h.load tree.header.id
  unfold MemorySessionStore.saveHeader SessionDirectory.saveHeader InMemorySessionStore.saveHeader
  cases htree : m.trees.get? tree.header.id with
  | none =>
    have hnone : d.store.load tree.forget.header.id = none := by rw [htree] at hload; exact hload
    rw [hnone]
    exact h.put tree
  | some stored =>
    have hsome : d.store.load tree.forget.header.id = some stored.forget := by rw [htree] at hload; exact hload
    rw [hsome]
    exact h.put { stored with header := tree.header }

/-- A `KeyError` leaves both as they are. -/
theorem appendEntry (h : Forgets m d) (sid : String) (entry : SessionEntry) (leafId : String) :
    Forgets ((m.appendEntry sid entry leafId).getD m) (d.appendEntry sid entry leafId) := by
  have hload := h.load sid
  unfold MemorySessionStore.appendEntry SessionDirectory.appendEntry InMemorySessionStore.appendEntry
  cases htree : m.trees.get? sid with
  | none =>
    have hnone : d.store.load sid = none := by rw [htree] at hload; exact hload
    rw [hnone]
    exact h
  | some tree =>
    have hsome : d.store.load sid = some tree.forget := by rw [htree] at hload; exact hload
    have hid : tree.header.id = sid := InMemorySessionStore.header_of_load hsome
    have hput := h.put (tree.append entry leafId)
    have hid' : (tree.append entry leafId).header.id = sid := hid
    rw [hid'] at hput
    rw [hsome]
    exact hput

theorem setCurrentSessionId (h : Forgets m d) (key sid : String) (now : Int) :
    Forgets (m.setCurrentSessionId key sid now) (d.setCurrentSessionId key sid now) where
  load := h.load
  current key' := by
    change (d.current.set key sid).get? key' = (m.current.set key sid).get? key'
    rw [Dict.get?_set, Dict.get?_set]
    split
    · rfl
    · exact h.current key'
  history key' := by
    change ((d.history.set key _).get? key').getD [] = ((m.history.set key _).get? key').getD []
    rw [Dict.get?_set, Dict.get?_set, h.history key]
    split
    · rfl
    · exact h.history key'

/-- The token is the one that `SessionTokens` draws. -/
theorem createNewSession (h : Forgets m d) (tokens : SessionTokens) (key workspaceId agentId : String)
    (parent : Option String) (createdAt : String) (now : Int) :
    Forgets (m.createNewSession (.new key workspaceId agentId parent (tokens.draw key d.store.trees.keys)
        createdAt) now)
      (d.createNewSession tokens key workspaceId agentId parent now).2 :=
  (h.put _).setCurrentSessionId _ _ _

theorem deleteSession (h : Forgets m d) (sid : String) :
    (d.deleteSession sid).1 = m.trees.contains sid ∧ Forgets (m.deleteSession sid) (d.deleteSession sid).2 := by
  constructor
  · change (d.load sid).isSome = (m.trees.get? sid).isSome
    rw [h.load, Option.isSome_map]
  · refine { load := fun sid' => ?_, current := fun key => ?_, history := fun key => ?_ }
    · change (d.store.trees.erase sid).get? sid' = ((m.trees.erase sid).get? sid').map StoredTree.forget
      by_cases hsid : sid' = sid
      · rw [hsid, Dict.get?_erase_self, Dict.get?_erase_self]
        rfl
      · rw [Dict.get?_erase_ne hsid, Dict.get?_erase_ne hsid]
        exact h.load sid'
    · change (d.current.retain _).get? key = (m.current.retain _).get? key
      rw [Dict.get?_retain, Dict.get?_retain]
      exact congrArg _ (h.current key)
    · change ((d.history.mapValues _).get? key).getD [] = (m.unpoint sid).pointers key
      rw [MemorySessionStore.pointers_unpoint, ← h.history, Dict.get?_mapValues]
      cases d.history.get? key <;> rfl

theorem summary (h : Forgets m d) (sid : String) : d.summary sid = (m.summary sid).forget := by
  unfold SessionDirectory.summary MemorySessionStore.summary
  rw [h.load]
  cases m.trees.get? sid with
  | none => rfl
  | some tree =>
    have hcount : tree.forget.messages.length = tree.entries.values.countP fun e => e.message?.isSome :=
      List.length_filterMap_eq_countP
    rw [Option.map_some]
    change (⟨sid, tree.forget.messages.length, _, _⟩ : SessionHistorySummary) = _
    rw [hcount]
    rfl

theorem listSessionHistory (h : Forgets m d) (key : String) (limit : Nat) :
    d.listSessionHistory key limit = (m.listSessionHistory key limit).map HistorySummary.forget := by
  unfold SessionDirectory.listSessionHistory MemorySessionStore.listSessionHistory
    MemorySessionStore.newest sliceTo
  rw [if_neg (Int.not_lt.mpr (Int.natCast_nonneg limit)), Int.toNat_natCast, h.history, List.map_map]
  exact List.map_congr_left fun p _ => h.summary p.2

end Forgets

end PyClaw
