import PyClaw.Session.Backends

/-!
# Session.StoreAgreement

Where the two session stores give back the same. `Mirrors` relates their states: the keys of Redis hold
what the trees hold, and of the pointers of a session key, which the store in memory keeps all, the last
one to each session. `stores_agree`: the results are the same in every run whose steps are `Regular`.
-/

namespace PyClaw

/-! ## Regular steps -/

/-- The session key points to the session, or has pointed to it. -/
def MemorySessionStore.PointsTo (m : MemorySessionStore) (sessionKey sessionId : String) : Prop :=
  m.current.get? sessionKey = some sessionId ∨ ∃ p ∈ m.pointers sessionKey, p.2 = sessionId

/-- The steps that the two stores take alike. -/
def Regular (m : MemorySessionStore) : StoreOp → Prop
  | .saveHeader tree =>
    m.trees.get? tree.header.id = none →
      tree.entries = Dict.empty ∧ tree.order = [] ∧ SessionTree.truthy tree.leafId = none
  | .appendEntry sessionId _ _ => sessionId ∈ m.trees.keys
  | .createNewSession sessionKey _ _ _ token _ _ => sessionIdOf sessionKey token ∉ m.trees.keys
  | .deleteSession sessionId =>
    ∀ key, m.PointsTo key sessionId →
      key ≠ "" ∧ ∃ tree, m.trees.get? sessionId = some tree ∧ tree.header.sessionKey = key
  | .load sessionId => ∀ tree, m.trees.get? sessionId = some tree → tree.leafId ≠ some ""
  | .listSessionHistory sessionKey limit =>
    0 ≤ limit ∧ ((m.newest sessionKey limit).map Prod.snd).Nodup
  | .getCurrentSessionId _ | .setCurrentSessionId _ _ _ => True

/-- The clock is past all the times of the history. -/
def Ahead (m : MemorySessionStore) (op : StoreOp) : Prop :=
  ∀ now ∈ op.reading, ∀ key, ∀ p ∈ m.pointers key, p.1 < now

/-! ## The relation -/

/-- What a session has beside its header. -/
structure TreeBody where
  entries : Dict String SessionEntry
  order : List String
  leafId : Option String

def TreeBody.of : Option StoredTree → TreeBody
  | some tree => ⟨tree.entries, tree.order, SessionTree.truthy tree.leafId⟩
  | none => ⟨Dict.empty, [], none⟩

def RedisSessionStore.body (r : RedisSessionStore) (sessionId : String) : TreeBody :=
  ⟨r.hash sessionId, r.list sessionId, SessionTree.truthy (r.leaf.get? sessionId)⟩

structure Mirrors (m : MemorySessionStore) (r : RedisSessionStore) : Prop where
  header : ∀ sid, r.header.get? sid = (m.trees.get? sid).map StoredTree.header
  body : ∀ sid, r.body sid = .of (m.trees.get? sid)
  current : ∀ key, r.current.get? key = m.current.get? key
  history : ∀ key, (r.members key).items = newestOnce (m.pointers key).reverse
  increasing : ∀ key, (m.pointers key).Pairwise fun a b => a.1 < b.1

section
variable (r : RedisSessionStore)

theorem RedisSessionStore.body_erase (sid sid' : String) :
    (r.erase sid).body sid' = if sid = sid' then .of none else r.body sid' := by
  unfold RedisSessionStore.body RedisSessionStore.erase RedisSessionStore.hash RedisSessionStore.list
  dsimp only
  by_cases hsid : sid = sid'
  · rw [if_pos hsid, ← hsid, Dict.get?_erase_self, Dict.get?_erase_self, Dict.get?_erase_self]
    rfl
  · have hne : sid' ≠ sid := fun he => hsid he.symm
    rw [if_neg hsid, Dict.get?_erase_ne hne, Dict.get?_erase_ne hne, Dict.get?_erase_ne hne]

theorem RedisSessionStore.body_appendEntry (sid : String) (entry : SessionEntry) (leafId sid' : String) :
    (r.appendEntry sid entry leafId).body sid' =
      if sid = sid' then
        ⟨(r.hash sid).set entry.id entry, r.list sid ++ [entry.id], SessionTree.truthy (some leafId)⟩
      else r.body sid' := by
  unfold RedisSessionStore.body RedisSessionStore.appendEntry RedisSessionStore.hash RedisSessionStore.list
  dsimp only
  rw [Dict.get?_set, Dict.get?_set, Dict.get?_set]
  split <;> rfl

end

namespace Mirrors

variable {m : MemorySessionStore} {r : RedisSessionStore} {sid : String} {tree : StoredTree}

theorem empty : Mirrors {} {} where
  header _ := rfl
  body _ := rfl
  current _ := rfl
  history _ := rfl
  increasing _ := .nil

/-- A tree is stored in memory and its header in Redis, where the rest of it is already. -/
theorem store (h : Mirrors m r) (tree : StoredTree) (hbody : r.body tree.header.id = .of (some tree)) :
    Mirrors { m with trees := m.trees.set tree.header.id tree } (r.saveHeader tree) where
  header sid := by
    change (r.header.set tree.header.id tree.header).get? sid =
      ((m.trees.set tree.header.id tree).get? sid).map StoredTree.header
    rw [Dict.get?_set, Dict.get?_set]
    split
    · rfl
    · exact h.header sid
  body sid := by
    change r.body sid = .of ((m.trees.set tree.header.id tree).get? sid)
    rw [Dict.get?_set]
    split
    · rename_i he
      rw [← he]
      exact hbody
    · exact h.body sid
  current := h.current
  history := h.history
  increasing := h.increasing

theorem saveHeader (h : Mirrors m r) (hregular : Regular m (.saveHeader tree)) :
    Mirrors (m.saveHeader tree) (r.saveHeader tree) := by
  unfold MemorySessionStore.saveHeader
  cases hstored : m.trees.get? tree.header.id with
  | some stored =>
    have hbody : r.body tree.header.id = .of (some { stored with header := tree.header }) := by
      rw [h.body, hstored]
      rfl
    exact h.store { stored with header := tree.header } hbody
  | none =>
    obtain ⟨hentries, horder, hleaf⟩ := hregular hstored
    refine h.store tree ?_
    rw [h.body, hstored, TreeBody.of, TreeBody.of, hentries, horder, hleaf]

theorem appendEntry (h : Mirrors m r) (entry : SessionEntry) (leafId : String)
    (htree : m.trees.get? sid = some tree) :
    Mirrors { m with trees := m.trees.set sid (tree.append entry leafId) }
      (r.appendEntry sid entry leafId) where
  header sid' := by
    change r.header.get? sid' = ((m.trees.set sid (tree.append entry leafId)).get? sid').map StoredTree.header
    rw [Dict.get?_set, h.header]
    split
    · rename_i he
      rw [← he, htree]
      rfl
    · rfl
  body sid' := by
    change _ = TreeBody.of ((m.trees.set sid (tree.append entry leafId)).get? sid')
    rw [RedisSessionStore.body_appendEntry, Dict.get?_set]
    split
    · have hbody := h.body sid
      rw [htree] at hbody
      have hhash : r.hash sid = tree.entries := congrArg TreeBody.entries hbody
      have hlist : r.list sid = tree.order := congrArg TreeBody.order hbody
      rw [hhash, hlist]
      rfl
    · exact h.body sid'
  current := h.current
  history := h.history
  increasing := h.increasing

theorem setCurrentSessionId (h : Mirrors m r) (key sid : String) (now : Int)
    (hahead : ∀ p ∈ m.pointers key, p.1 < now) :
    Mirrors (m.setCurrentSessionId key sid now) (r.setCurrentSessionId key sid now) where
  header := h.header
  body := h.body
  current key' := by
    change (r.current.set key sid).get? key' = (m.current.set key sid).get? key'
    rw [Dict.get?_set, Dict.get?_set, h.current]
  history key' := by
    rw [RedisSessionStore.members_setCurrent, MemorySessionStore.pointers_setCurrent]
    split
    · rw [List.reverse_append, List.reverse_singleton, List.singleton_append, newestOnce, ← h.history key]
      refine SortedSet.items_zadd_of_above sid fun p hp => hahead p ?_
      rw [h.history key] at hp
      exact List.mem_reverse.mp (mem_of_mem_newestOnce hp)
    · exact h.history key'
  increasing key' := by
    rw [MemorySessionStore.pointers_setCurrent]
    split
    · refine List.pairwise_append.mpr ⟨h.increasing key, List.pairwise_singleton _ _, ?_⟩
      intro p hp q hq
      rw [List.mem_singleton.mp hq]
      exact hahead p hp
    · exact h.increasing key'

theorem erase (h : Mirrors m r) (sid : String) :
    Mirrors { m with trees := m.trees.erase sid } (r.erase sid) where
  header sid' := by
    change (r.header.erase sid).get? sid' = ((m.trees.erase sid).get? sid').map StoredTree.header
    by_cases hsid : sid' = sid
    · rw [hsid, Dict.get?_erase_self, Dict.get?_erase_self]
      rfl
    · rw [Dict.get?_erase_ne hsid, Dict.get?_erase_ne hsid, h.header]
  body sid' := by
    change _ = TreeBody.of ((m.trees.erase sid).get? sid')
    rw [RedisSessionStore.body_erase]
    split
    · rename_i he
      rw [← he, Dict.get?_erase_self]
    · rename_i hne
      rw [Dict.get?_erase_ne fun he => hne he.symm]
      exact h.body sid'
  current := h.current
  history := h.history
  increasing := h.increasing

/-- A session key that does not point to the session keeps its pointers. -/
theorem unpoint_of_not_pointsTo {key : String} (hnot : ¬ m.PointsTo key sid) :
    (m.unpoint sid).current.get? key = m.current.get? key ∧ (m.unpoint sid).pointers key = m.pointers key := by
  rw [MemorySessionStore.current_unpoint, MemorySessionStore.pointers_unpoint]
  constructor
  · cases hcurrent : m.current.get? key with
    | none => rfl
    | some s =>
      have hne : s ≠ sid := fun he => hnot (.inl (by rw [hcurrent, he]))
      simp [hne]
  · refine List.filter_eq_self.mpr fun p hp => decide_eq_true fun he => hnot (.inr ⟨p, hp, he⟩)

/-- No session key points to the session, and nothing is done in Redis. -/
theorem unpoint_none (h : Mirrors m r) (hnone : ∀ key, ¬ m.PointsTo key sid) : Mirrors (m.unpoint sid) r where
  header := h.header
  body := h.body
  current key := by rw [(unpoint_of_not_pointsTo (hnone key)).1, h.current]
  history key := by rw [(unpoint_of_not_pointsTo (hnone key)).2, h.history]
  increasing key := by
    rw [(unpoint_of_not_pointsTo (hnone key)).2]
    exact h.increasing key

/-- One session key at most points to the session. -/
theorem unpoint_one (h : Mirrors m r) {key : String} (hone : ∀ key', m.PointsTo key' sid → key' = key) :
    Mirrors (m.unpoint sid) (r.unpoint key sid) where
  header := h.header
  body := h.body
  current key' := by
    rw [RedisSessionStore.current_unpoint]
    split
    · rename_i he
      rw [← he, MemorySessionStore.current_unpoint, h.current]
    · rename_i hne
      rw [(unpoint_of_not_pointsTo fun hpoints => hne (hone key' hpoints).symm).1, h.current]
  history key' := by
    rw [RedisSessionStore.members_unpoint]
    split
    · rename_i he
      rw [← he, MemorySessionStore.pointers_unpoint, ← List.filter_reverse, newestOnce_filter,
        SortedSet.items_zrem, h.history]
    · rename_i hne
      rw [(unpoint_of_not_pointsTo fun hpoints => hne (hone key' hpoints).symm).2, h.history]
  increasing key' := by
    rw [MemorySessionStore.pointers_unpoint]
    exact (h.increasing key').filter _

theorem deleteSession (h : Mirrors m r) (hregular : Regular m (.deleteSession sid)) :
    Mirrors (m.deleteSession sid) (r.deleteSession sid).2 := by
  have herase := h.erase sid
  have hheader := h.header sid
  unfold MemorySessionStore.deleteSession RedisSessionStore.deleteSession
  cases htree : m.trees.get? sid with
  | none =>
    rw [htree] at hheader
    rw [hheader]
    have hgone : ∀ sid', (m.trees.erase sid).get? sid' = m.trees.get? sid' := by
      intro sid'
      by_cases hsid : sid' = sid
      · rw [hsid, Dict.get?_erase_self, htree]
      · exact Dict.get?_erase_ne hsid
    have hsame : Mirrors { m with trees := m.trees.erase sid } r :=
      { header := fun sid' => by rw [hgone, h.header]
        body := fun sid' => by rw [hgone, h.body]
        current := h.current
        history := h.history
        increasing := h.increasing }
    refine hsame.unpoint_none fun key hpoints => ?_
    obtain ⟨-, tree, htree', -⟩ := hregular key hpoints
    rw [htree] at htree'
    cases htree'
  | some tree =>
    rw [htree] at hheader
    rw [hheader]
    dsimp only [Option.map_some]
    have honly : ∀ key, m.PointsTo key sid → key ≠ "" ∧ key = tree.header.sessionKey := by
      intro key hpoints
      obtain ⟨hkey, tree', htree', hsession⟩ := hregular key hpoints
      rw [htree] at htree'
      cases htree'
      exact ⟨hkey, hsession.symm⟩
    split
    · rename_i hempty
      exact herase.unpoint_none fun key hpoints => (honly key hpoints).1 ((honly key hpoints).2.trans hempty)
    · exact herase.unpoint_one fun key hpoints => (honly key hpoints).2

theorem deleteSession_result (h : Mirrors m r) : (r.deleteSession sid).1 = m.trees.contains sid := by
  unfold RedisSessionStore.deleteSession Dict.contains
  rw [h.header]
  cases m.trees.get? sid with
  | none => rfl
  | some tree =>
    dsimp only [Option.map_some]
    split <;> rfl

theorem load (h : Mirrors m r) (hregular : Regular m (.load sid)) : r.load sid = m.trees.get? sid := by
  have hbody := h.body sid
  unfold RedisSessionStore.load
  rw [h.header]
  cases htree : m.trees.get? sid with
  | none => rfl
  | some tree =>
    rw [htree] at hbody
    have hhash : r.hash sid = tree.entries := congrArg TreeBody.entries hbody
    have hlist : r.list sid = tree.order := congrArg TreeBody.order hbody
    have hleaf : SessionTree.truthy (r.leaf.get? sid) = SessionTree.truthy tree.leafId :=
      congrArg TreeBody.leafId hbody
    have hnonempty : SessionTree.truthy tree.leafId = tree.leafId := by
      have hne := hregular tree htree
      cases hleafId : tree.leafId with
      | none => rfl
      | some leafId =>
        rw [hleafId, ne_eq, Option.some.injEq] at hne
        exact if_neg hne
    rw [Option.map_some, Option.map_some, hhash, hlist, hleaf, hnonempty]

theorem summary (h : Mirrors m r) (sid : String) : r.summary sid = m.summary sid := by
  have hbody := h.body sid
  unfold RedisSessionStore.summary MemorySessionStore.summary
  rw [h.header]
  cases htree : m.trees.get? sid with
  | none => rfl
  | some tree =>
    rw [htree] at hbody
    have hhash : r.hash sid = tree.entries := congrArg TreeBody.entries hbody
    rw [Option.map_some, hhash]

theorem listSessionHistory (h : Mirrors m r) {key : String} {limit : Int}
    (hregular : Regular m (.listSessionHistory key limit)) :
    r.listSessionHistory key limit = m.listSessionHistory key limit := by
  obtain ⟨hlimit, hnodup⟩ := hregular
  have hnot : ¬ limit < 0 := not_lt.mpr hlimit
  have hnewest : m.newest key limit = (m.pointers key).reverse.take limit.toNat := by
    unfold MemorySessionStore.newest sliceTo
    rw [if_neg hnot, orderDesc_of_increasing (h.increasing key)]
  rw [hnewest] at hnodup
  unfold RedisSessionStore.listSessionHistory MemorySessionStore.listSessionHistory SortedSet.zrevrange
    Sql.limit
  rw [if_neg hnot, h.history, take_newestOnce hnodup, hnewest, List.map_map]
  exact List.map_congr_left fun p _ => h.summary p.2

/-- A regular step gives back the same from both stores. -/
theorem step (h : Mirrors m r) (op : StoreOp) (hregular : Regular m op) (hahead : Ahead m op) :
    (m.step op).1 = (r.step op).1 ∧ Mirrors (m.step op).2 (r.step op).2 := by
  cases op with
  | saveHeader tree => exact ⟨rfl, h.saveHeader hregular⟩
  | appendEntry sid entry leafId =>
    obtain ⟨tree, htree⟩ := Dict.exists_get?_of_mem_keys hregular
    have hstep : m.step (.appendEntry sid entry leafId) =
        (.done, { m with trees := m.trees.set sid (tree.append entry leafId) }) := by
      simp only [MemorySessionStore.step, MemorySessionStore.appendEntry, htree, Option.map_some]
    rw [hstep]
    exact ⟨rfl, h.appendEntry entry leafId htree⟩
  | getCurrentSessionId key => exact ⟨congrArg StoreResult.current (h.current key).symm, h⟩
  | setCurrentSessionId key sid now => exact ⟨rfl, h.setCurrentSessionId key sid now (hahead now rfl key)⟩
  | createNewSession key workspaceId agentId parent token createdAt now =>
    refine ⟨rfl, ?_⟩
    have hnew : m.trees.get? (sessionIdOf key token) = none := Dict.get?_eq_none.mpr hregular
    have hstored := h.store (StoredTree.new key workspaceId agentId parent token createdAt)
      ((h.body (sessionIdOf key token)).trans (by rw [hnew]; rfl))
    exact hstored.setCurrentSessionId key (sessionIdOf key token) now (hahead now rfl key)
  | deleteSession sid => exact ⟨congrArg StoreResult.deleted h.deleteSession_result.symm, h.deleteSession hregular⟩
  | load sid => exact ⟨congrArg StoreResult.loaded (h.load hregular).symm, h⟩
  | listSessionHistory key limit =>
    exact ⟨congrArg StoreResult.history (h.listSessionHistory hregular).symm, h⟩

end Mirrors

/-! ## Runs -/

/-- The results of a run from the empty store. -/
def memoryResults (ops : List StoreOp) : List StoreResult := outputsFrom MemorySessionStore.step {} ops

def redisResults (ops : List StoreOp) : List StoreResult := outputsFrom RedisSessionStore.step {} ops

def MemorySessionStore.next (m : MemorySessionStore) (op : StoreOp) : MemorySessionStore := (m.step op).2

/-- A time that comes into the history is the reading of the step. -/
theorem mem_pointers_next {m : MemorySessionStore} {op : StoreOp} {key : String} {p : Int × String}
    (hp : p ∈ (m.next op).pointers key) : p ∈ m.pointers key ∨ op.reading = some p.1 := by
  have hset : ∀ (m' : MemorySessionStore) (key' sid : String) (now : Int), m'.history = m.history →
      p ∈ (m'.setCurrentSessionId key' sid now).pointers key → p ∈ m.pointers key ∨ some now = some p.1 := by
    intro m' key' sid now hhistory hmem
    have hpointers : ∀ k, m'.pointers k = m.pointers k := fun k => by
      rw [MemorySessionStore.pointers, hhistory]
      rfl
    rw [MemorySessionStore.pointers_setCurrent, hpointers, hpointers] at hmem
    split at hmem
    · rename_i he
      rcases List.mem_append.mp hmem with hmem | hmem
      · exact .inl (he ▸ hmem)
      · rw [List.mem_singleton.mp hmem]
        exact .inr rfl
    · exact .inl hmem
  cases op with
  | saveHeader tree =>
    change p ∈ (m.saveHeader tree).pointers key at hp
    unfold MemorySessionStore.saveHeader at hp
    split at hp
    · exact .inl hp
    · exact .inl hp
  | appendEntry sid entry leafId =>
    unfold MemorySessionStore.next MemorySessionStore.step MemorySessionStore.appendEntry at hp
    cases htree : m.trees.get? sid with
    | none =>
      simp only [htree, Option.map_none] at hp
      exact .inl hp
    | some tree =>
      simp only [htree, Option.map_some] at hp
      exact .inl hp
  | getCurrentSessionId key' => exact .inl hp
  | setCurrentSessionId key' sid now => exact hset m key' sid now rfl hp
  | createNewSession key' workspaceId agentId parent token createdAt now =>
    exact hset _ key' (sessionIdOf key' token) now rfl hp
  | deleteSession sid =>
    change p ∈ (MemorySessionStore.unpoint { m with trees := m.trees.erase sid } sid).pointers key at hp
    rw [MemorySessionStore.pointers_unpoint] at hp
    exact .inl (List.mem_of_mem_filter hp)
  | load sid => exact .inl hp
  | listSessionHistory key' limit => exact .inl hp

/-- With increasing readings the clock is ahead of the history at every step. -/
theorem along_ahead (ops : List StoreOp) (m : MemorySessionStore)
    (hincreasing : (ops.filterMap StoreOp.reading).Pairwise (· < ·))
    (hpast : ∀ key, ∀ p ∈ m.pointers key, ∀ now ∈ ops.filterMap StoreOp.reading, p.1 < now) :
    Along MemorySessionStore.next Ahead m ops := by
  induction ops generalizing m with
  | nil => trivial
  | cons op ops ih =>
    have hmem : ∀ now ∈ op.reading, now ∈ (op :: ops).filterMap StoreOp.reading := fun now hnow =>
      List.mem_filterMap.mpr ⟨op, List.mem_cons_self, hnow⟩
    have hlater : ∀ now ∈ ops.filterMap StoreOp.reading, now ∈ (op :: ops).filterMap StoreOp.reading := by
      intro now hnow
      obtain ⟨op', hop', hreading⟩ := List.mem_filterMap.mp hnow
      exact List.mem_filterMap.mpr ⟨op', List.mem_cons_of_mem _ hop', hreading⟩
    refine ⟨fun now hnow key p hp => hpast key p hp now (hmem now hnow), ih _ ?_ ?_⟩
    · rw [List.filterMap_cons] at hincreasing
      split at hincreasing
      · exact hincreasing
      · exact hincreasing.of_cons
    · intro key p hp now hnow
      rcases mem_pointers_next hp with hp | hreading
      · exact hpast key p hp now (hlater now hnow)
      · rw [List.filterMap_cons, hreading] at hincreasing
        exact List.rel_of_pairwise_cons hincreasing hnow

/-- Both stores give back the same at every step of a run of regular steps. -/
theorem stores_agree (ops : List StoreOp) (hclock : (ops.filterMap StoreOp.reading).Pairwise (· < ·))
    (hregular : Along MemorySessionStore.next Regular {} ops) : memoryResults ops = redisResults ops := by
  have hpast : ∀ key, ∀ p ∈ MemorySessionStore.pointers {} key, ∀ now ∈ ops.filterMap StoreOp.reading,
      p.1 < now := fun _ _ hp => absurd hp List.not_mem_nil
  have hboth := along_and.mpr ⟨hregular, along_ahead ops {} hclock hpast⟩
  exact outputsFrom_eq_of_related (fun m r op h hC => h.step op hC.1 hC.2) Mirrors.empty hboth

def newThenNew : List StoreOp :=
  [.createNewSession "web:alice" "w" "main" none "01" "2026-01-01" 1,
    .appendEntry "web:alice:s:01" ⟨"e1", none, .custom "note"⟩ "e1",
    .createNewSession "web:alice" "w" "main" (some "web:alice:s:01") "02" "2026-01-02" 2,
    .getCurrentSessionId "web:alice",
    .listSessionHistory "web:alice" 20]

theorem newThenNew_agrees :
    (newThenNew.filterMap StoreOp.reading).Pairwise (· < ·) ∧ memoryResults newThenNew = redisResults newThenNew :=
  have hclock : (newThenNew.filterMap StoreOp.reading).Pairwise (· < ·) := by decide
  ⟨hclock, stores_agree newThenNew hclock
    ⟨show "web:alice:s:01" ∉ [] by decide, show "web:alice:s:01" ∈ ["web:alice:s:01"] by decide,
      show "web:alice:s:02" ∉ ["web:alice:s:01"] by decide, trivial,
      ⟨by decide, show ["web:alice:s:02", "web:alice:s:01"].Nodup by decide⟩, trivial⟩⟩

/-- A session that is resumed is listed twice in memory, and once in Redis. -/
def resumed : List StoreOp :=
  [.setCurrentSessionId "web:alice" "web:alice:s:01" 1, .setCurrentSessionId "web:alice" "web:alice:s:02" 2,
    .setCurrentSessionId "web:alice" "web:alice:s:01" 3, .listSessionHistory "web:alice" 20]

theorem resumed_not_agree :
    ¬ ∀ ops : List StoreOp, (ops.filterMap StoreOp.reading).Pairwise (· < ·) →
      memoryResults ops = redisResults ops := by
  intro h
  exact absurd (h resumed (by decide)) (by decide +kernel)

end PyClaw
