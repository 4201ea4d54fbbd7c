import PyClaw.Session.Pipelines

/-!
# Session.Expiry

`RedisSessionStore` with the expiry of its keys, where each operation is done in an instant. Each of the four keys
of a session expires for itself; `outputs_expiring`: nobody can tell this from the store of `Session.Backends`
that forgets a session as a whole, `ttl_seconds` after it was last written to.
-/

namespace PyClaw

/-- An operation, or seconds that pass. -/
inductive ExpiryStep where
  | op (op : StoreOp)
  | passes (seconds : Nat)

/-- The session whose expiry an operation renews. -/
def StoreOp.renews : StoreOp → Option String
  | .saveHeader tree => some tree.header.id
  | .appendEntry sessionId _ _ => some sessionId
  | .createNewSession sessionKey _ _ _ token _ _ => some (sessionIdOf sessionKey token)
  | _ => none

/-! ## Keys that expire -/

structure ExpiringSessionStore where
  now : Int := 0
  keys : String → SessionKeys := fun _ => {}
  current : Dict String String := Dict.empty
  history : Dict String (SortedSet String) := Dict.empty

namespace ExpiringSessionStore

variable (ttl : Nat) (s : ExpiringSessionStore)

def pipeline (sid : String) (commands : List SessionCommand) : ExpiringSessionStore :=
  { s with keys := Function.update s.keys sid (commands.foldl (SessionKeys.exec ttl s.now) (s.keys sid)) }

def load (sid : String) : Option StoredTree :=
  loadedTree (Cell.get s.now (s.keys sid).header) ((s.keys sid).hash s.now) ((s.keys sid).list s.now)
    (Cell.get s.now (s.keys sid).leaf)

/-- The keys without an expiry, as `Session.Backends` has them. -/
def pointers : RedisSessionStore := { current := s.current, history := s.history }

def setPointers (p : RedisSessionStore) : ExpiringSessionStore :=
  { s with current := p.current, history := p.history }

def deleteSession (sid : String) : Bool × ExpiringSessionStore :=
  match Cell.get s.now (s.keys sid).header with
  | none => (false, s)
  | some header =>
    let s := s.pipeline ttl sid deleteSessionCommands
    (true, if header.sessionKey = "" then s else s.setPointers (s.pointers.unpoint header.sessionKey sid))

def summary (sid : String) : HistorySummary :=
  match Cell.get s.now (s.keys sid).header with
  | none => .archived sid
  | some header => header.summary sid ((s.keys sid).hash s.now)

def operate : StoreOp → StoreResult × ExpiringSessionStore
  | .saveHeader tree => (.done, s.pipeline ttl tree.header.id (saveHeaderCommands tree.header))
  | .appendEntry sid entry leafId => (.done, s.pipeline ttl sid (appendEntryCommands entry leafId))
  | .getCurrentSessionId key => (.current (s.current.get? key), s)
  | .setCurrentSessionId key sid now => (.done, s.setPointers (s.pointers.setCurrentSessionId key sid now))
  | .createNewSession key workspaceId agentId parent token createdAt now =>
    let tree := StoredTree.new key workspaceId agentId parent token createdAt
    let s := s.pipeline ttl tree.header.id (saveHeaderCommands tree.header)
    (.created tree, s.setPointers (s.pointers.setCurrentSessionId tree.header.sessionKey tree.header.id now))
  | .deleteSession sid => (.deleted (s.deleteSession ttl sid).1, (s.deleteSession ttl sid).2)
  | .load sid => (.loaded (s.load sid), s)
  | .listSessionHistory key limit => (.history ((s.pointers.members key).zrevrange limit |>.map s.summary), s)

def step : ExpiryStep → StoreResult × ExpiringSessionStore
  | .op op => s.operate ttl op
  | .passes seconds => (.done, { s with now := s.now + seconds })

end ExpiringSessionStore

/-! ## Sessions that are forgotten as a whole -/

structure ForgetfulStore where
  now : Int := 0
  store : RedisSessionStore := {}
  /-- When a session is forgotten. -/
  deadline : String → Int := fun _ => 0

namespace ForgetfulStore

variable (ttl : Nat) (f : ForgetfulStore)

/-- Without the sessions whose time has come; their pointers stay. -/
def tidy : RedisSessionStore :=
  { f.store with
    header := f.store.header.retain fun sid _ => f.now < f.deadline sid
    entries := f.store.entries.retain fun sid _ => f.now < f.deadline sid
    order := f.store.order.retain fun sid _ => f.now < f.deadline sid
    leaf := f.store.leaf.retain fun sid _ => f.now < f.deadline sid }

def step : ExpiryStep → StoreResult × ForgetfulStore
  | .op op =>
    ((f.tidy.step op).1,
      { f with
        store := (f.tidy.step op).2
        deadline := match op.renews with
          | some sid => Function.update f.deadline sid (f.now + ttl)
          | none => f.deadline })
  | .passes seconds => (.done, { f with now := f.now + seconds })

end ForgetfulStore

/-! ## The keys of a session -/

/-- What is stored of a session. -/
structure SessionValues where
  header : Option StoredHeader := none
  entries : Option (Dict String SessionEntry) := none
  order : Option (List String) := none
  leaf : Option String := none

def RedisSessionStore.values (s : RedisSessionStore) (sid : String) : SessionValues :=
  ⟨s.header.get? sid, s.entries.get? sid, s.order.get? sid, s.leaf.get? sid⟩

/-- The key has the value until the deadline. -/
def Held {α : Type} (now deadline : Int) (c : Option (Cell α)) (v : Option α) : Prop :=
  Cell.find now c = if now < deadline then v.map fun v => { value := v, deadline := some deadline } else none

structure HeldKeys (now deadline : Int) (k : SessionKeys) (v : SessionValues) : Prop where
  header : Held now deadline k.header v.header
  entries : Held now deadline k.entries v.entries
  order : Held now deadline k.order v.order
  leaf : Held now deadline k.leaf v.leaf

namespace Held

variable {α : Type} {now later deadline : Int} {c : Option (Cell α)} {v : Option α} {ttl : Nat}

theorem get (h : Held now deadline c v) : Cell.get now c = if now < deadline then v else none := by
  rw [Cell.get, h]
  split
  · rw [Option.map_map]
    exact congrFun Option.map_id v
  · rfl

theorem absent : Held now deadline (none : Option (Cell α)) none := by
  unfold Held
  split <;> rfl

theorem set (v : α) : Held now deadline (some { value := v, deadline := some deadline }) (some v) := by
  rw [Held, Cell.find, Option.filter_some]
  exact if_congr decide_eq_true_iff rfl rfl

theorem expire {v : α} {old : Option Int} (hfind : Cell.find now c = some { value := v, deadline := old }) :
    Held now (now + ttl) (Cell.expire ttl now c) (some v) := by
  rw [Cell.expire, hfind]
  exact set v

/-- A command that changes the value, and the expiry behind it. -/
theorem modify (f : Option α → α) :
    Held now (now + ttl) (Cell.expire ttl now (Cell.modify now c f)) (some (f (Cell.get now c))) := by
  have hfind : Cell.find now (Cell.modify now c f) =
      some { value := f (Cell.get now c), deadline := (Cell.find now c).bind Cell.deadline } := by
    obtain ⟨cell, hcell, -⟩ := Option.map_eq_some_iff.mp (Cell.get_modify now c f)
    have hsame := (Option.filter_eq_some_iff.mp hcell).1
    rw [hcell, ← hsame]
    rfl
  exact expire hfind

/-- The expiry of a key alone. -/
theorem renew (h : Held now deadline c v) (hv : ¬ now < deadline → v = none) :
    Held now (now + ttl) (Cell.expire ttl now c) v := by
  by_cases hlive : now < deadline
  · rw [Held, if_pos hlive] at h
    cases v with
    | none =>
      rw [Cell.expire, h]
      exact absent
    | some v => exact expire h
  · rw [Held, if_neg hlive] at h
    rw [Cell.expire, h, hv hlive]
    exact absent

theorem wait (h : Held now deadline c v) (hle : now ≤ later) : Held later deadline c v := by
  by_cases hlive : now < deadline
  · rw [Held, if_pos hlive] at h
    cases v with
    | none =>
      rw [Held, Cell.find_later hle h]
      split <;> rfl
    | some v =>
      rw [(Option.filter_eq_some_iff.mp h).1]
      exact set v
  · rw [Held, if_neg hlive] at h
    rw [Held, Cell.find_later hle h, if_neg (by omega)]

/-- Where the key is gone, nothing is stored. -/
theorem tidy (h : Held now deadline c v) : Held now deadline c (if now < deadline then v else none) := by
  by_cases hlive : now < deadline
  · rw [if_pos hlive]
    exact h
  · rw [Held, if_neg hlive] at h ⊢
    exact h

end Held

/-! ## The two stores -/

theorem filter_const {α : Type} (b : Bool) (o : Option α) : (o.filter fun _ => b) = if b then o else none := by
  cases o <;> cases b <;> rfl

theorem ForgetfulStore.values_tidy (f : ForgetfulStore) (sid : String) :
    f.tidy.values sid = if f.now < f.deadline sid then f.store.values sid else {} := by
  simp only [RedisSessionStore.values, tidy, Dict.get?_retain, filter_const, decide_eq_true_eq]
  split <;> rfl

structure Expires (c : ExpiringSessionStore) (f : ForgetfulStore) : Prop where
  now : c.now = f.now
  current : c.current = f.store.current
  history : c.history = f.store.history
  keys : ∀ sid, HeldKeys f.now (f.deadline sid) (c.keys sid) (f.store.values sid)

namespace Expires

variable {c : ExpiringSessionStore} {f : ForgetfulStore} {sid : String} {ttl : Nat}

/-- The store without the sessions that are forgotten. -/
theorem tidied (h : Expires c f) (sid : String) : HeldKeys f.now (f.deadline sid) (c.keys sid) (f.tidy.values sid) := by
  have hkeys := h.keys sid
  rw [f.values_tidy]
  refine ⟨?_, ?_, ?_, ?_⟩
  · simpa [apply_ite SessionValues.header] using hkeys.header.tidy
  · simpa [apply_ite SessionValues.entries] using hkeys.entries.tidy
  · simpa [apply_ite SessionValues.order] using hkeys.order.tidy
  · simpa [apply_ite SessionValues.leaf] using hkeys.leaf.tidy

/-- What the commands of the server find is what is left of the store. -/
theorem get_values (h : Expires c f) (sid : String) :
    SessionValues.mk (Cell.get c.now (c.keys sid).header) (Cell.get c.now (c.keys sid).entries)
      (Cell.get c.now (c.keys sid).order) (Cell.get c.now (c.keys sid).leaf) = f.tidy.values sid := by
  have hkeys := h.keys sid
  rw [h.now, hkeys.header.get, hkeys.entries.get, hkeys.order.get, hkeys.leaf.get, f.values_tidy]
  split <;> rfl

theorem get_header (h : Expires c f) (sid : String) :
    Cell.get c.now (c.keys sid).header = f.tidy.header.get? sid :=
  congrArg SessionValues.header (h.get_values sid)

theorem hash_eq (h : Expires c f) (sid : String) : (c.keys sid).hash c.now = f.tidy.hash sid :=
  congrArg (fun v => v.entries.getD Dict.empty) (h.get_values sid)

theorem load_eq (h : Expires c f) (sid : String) : c.load sid = f.tidy.load sid :=
  congrArg (fun v : SessionValues => loadedTree v.header (v.entries.getD Dict.empty) (v.order.getD []) v.leaf)
    (h.get_values sid)

theorem summary_eq (h : Expires c f) (sid : String) : c.summary sid = f.tidy.summary sid := by
  rw [ExpiringSessionStore.summary, h.get_header, h.hash_eq]
  rfl

/-- One session changes. -/
theorem change (h : Expires c f) (sid : String) {c' : ExpiringSessionStore} {k : SessionKeys}
    {store : RedisSessionStore} {deadline : String → Int} (hnow : c'.now = c.now)
    (hcurrent : c'.current = store.current) (hhistory : c'.history = store.history)
    (hk : c'.keys = Function.update c.keys sid k) (hkeys : HeldKeys f.now (deadline sid) k (store.values sid))
    (hother : ∀ other, other ≠ sid → store.values other = f.tidy.values other ∧ deadline other = f.deadline other) :
    Expires c' { f with store, deadline } := by
  refine ⟨hnow.trans h.now, hcurrent, hhistory, fun other => ?_⟩
  rw [hk]
  by_cases ho : other = sid
  · subst ho
    rwa [Function.update_self]
  · show HeldKeys f.now (deadline other) (Function.update c.keys sid k other) (store.values other)
    obtain ⟨hvalues, hdeadline⟩ := hother other ho
    rw [Function.update_of_ne ho, hvalues, hdeadline]
    exact h.tidied other

theorem gone (f : ForgetfulStore) {sid : String} (hlive : ¬ f.now < f.deadline sid) : f.tidy.values sid = {} := by
  rw [f.values_tidy, if_neg hlive]

theorem values_saveHeader (s : RedisSessionStore) (tree : StoredTree) (sid : String) :
    (s.saveHeader tree).values sid =
      if sid = tree.header.id then { s.values sid with header := some tree.header } else s.values sid := by
  simp only [RedisSessionStore.values, RedisSessionStore.saveHeader, Dict.get?_set]
  by_cases hs : sid = tree.header.id
  · rw [if_pos hs, if_pos hs.symm]
  · rw [if_neg hs, if_neg (Ne.symm hs)]

theorem values_appendEntry (s : RedisSessionStore) (id : String) (entry : SessionEntry) (leafId sid : String) :
    (s.appendEntry id entry leafId).values sid =
      if sid = id then
        { header := s.header.get? id
          entries := some ((s.hash id).set entry.id entry)
          order := some (s.list id ++ [entry.id])
          leaf := some leafId }
      else s.values sid := by
  simp only [RedisSessionStore.values, RedisSessionStore.appendEntry, Dict.get?_set]
  by_cases hs : sid = id
  · subst hs
    simp
  · simp [hs, Ne.symm hs]

theorem values_erase (s : RedisSessionStore) (id sid : String) :
    (s.erase id).values sid = if sid = id then {} else s.values sid := by
  simp only [RedisSessionStore.values, RedisSessionStore.erase]
  by_cases hs : sid = id
  · subst hs
    simp [Dict.get?_erase_self]
  · simp [hs, Dict.get?_erase_ne hs]

/-! ## The operations -/

/-- The keys of a session whose header is written. -/
theorem held_saveHeader (h : Expires c f) (header : StoredHeader) (sid : String) :
    HeldKeys f.now (f.now + ttl)
      ((saveHeaderCommands header).foldl (SessionKeys.exec ttl c.now) (c.keys sid))
      { f.tidy.values sid with header := some header } := by
  have hkeys := h.tidied sid
  rw [h.now]
  exact
    { header := Held.set header
      entries := hkeys.entries.renew fun hl => congrArg SessionValues.entries (gone f hl)
      order := hkeys.order.renew fun hl => congrArg SessionValues.order (gone f hl)
      leaf := hkeys.leaf.renew fun hl => congrArg SessionValues.leaf (gone f hl) }

theorem held_appendEntry (h : Expires c f) (entry : SessionEntry) (leafId sid : String) :
    HeldKeys f.now (f.now + ttl)
      ((appendEntryCommands entry leafId).foldl (SessionKeys.exec ttl c.now) (c.keys sid))
      { header := f.tidy.header.get? sid
        entries := some ((f.tidy.hash sid).set entry.id entry)
        order := some (f.tidy.list sid ++ [entry.id])
        leaf := some leafId } := by
  have hkeys := h.tidied sid
  have hhash : (Cell.get f.now (c.keys sid).entries).getD Dict.empty = f.tidy.hash sid := h.now ▸ h.hash_eq sid
  have hlist : (Cell.get f.now (c.keys sid).order).getD [] = f.tidy.list sid :=
    h.now ▸ congrArg (fun v : SessionValues => v.order.getD []) (h.get_values sid)
  have hleaf : Cell.find f.now (some ({ value := leafId } : Cell String)) = some { value := leafId, deadline := none } :=
    rfl
  rw [h.now, ← hhash, ← hlist]
  exact
    { header := hkeys.header.renew fun hl => congrArg SessionValues.header (gone f hl)
      entries := Held.modify fun hash => (hash.getD Dict.empty).set entry.id entry
      order := Held.modify fun list => list.getD [] ++ [entry.id]
      leaf := Held.expire hleaf }

theorem saveHeader (h : Expires c f) (tree : StoredTree) :
    Expires (c.pipeline ttl tree.header.id (saveHeaderCommands tree.header))
      { f with
        store := f.tidy.saveHeader tree
        deadline := Function.update f.deadline tree.header.id (f.now + ttl) } := by
  refine h.change tree.header.id rfl h.current h.history rfl ?_ fun other ho => ?_
  · rw [values_saveHeader, if_pos rfl, Function.update_self]
    exact h.held_saveHeader tree.header tree.header.id
  · rw [values_saveHeader, if_neg ho]
    exact ⟨rfl, Function.update_of_ne ho ..⟩

theorem appendEntry (h : Expires c f) (id : String) (entry : SessionEntry) (leafId : String) :
    Expires (c.pipeline ttl id (appendEntryCommands entry leafId))
      { f with
        store := f.tidy.appendEntry id entry leafId
        deadline := Function.update f.deadline id (f.now + ttl) } := by
  refine h.change id rfl h.current h.history rfl ?_ fun other ho => ?_
  · rw [values_appendEntry, if_pos rfl, Function.update_self]
    exact h.held_appendEntry entry leafId id
  · rw [values_appendEntry, if_neg ho]
    exact ⟨rfl, Function.update_of_ne ho ..⟩

theorem tidy (h : Expires c f) : Expires c { f with store := f.tidy } :=
  ⟨h.now, h.current, h.history, h.tidied⟩

theorem setCurrent (h : Expires c f) (key sid : String) (now : Int) :
    Expires (c.setPointers (c.pointers.setCurrentSessionId key sid now))
      { f with store := f.store.setCurrentSessionId key sid now } where
  now := h.now
  current := congrArg (fun d : Dict String String => d.set key sid) h.current
  history :=
    congrArg (fun d : Dict String (SortedSet String) => d.set key (((d.get? key).getD .empty).zadd now sid)) h.history
  keys := h.keys

theorem unpoint (h : Expires c f) (key sid : String) :
    Expires (c.setPointers (c.pointers.unpoint key sid)) { f with store := f.store.unpoint key sid } where
  now := h.now
  current :=
    congrArg (fun d : Dict String String => if d.get? key = some sid then d.erase key else d) h.current
  history :=
    congrArg (fun d : Dict String (SortedSet String) => d.set key (((d.get? key).getD .empty).zrem sid)) h.history
  keys := h.keys

theorem erase (h : Expires c f) (sid : String) :
    Expires (c.pipeline ttl sid deleteSessionCommands) { f with store := f.tidy.erase sid } := by
  refine h.change sid rfl h.current h.history rfl ?_ fun other ho => ?_
  · rw [values_erase, if_pos rfl]
    exact ⟨Held.absent, Held.absent, Held.absent, Held.absent⟩
  · rw [values_erase, if_neg ho]
    exact ⟨rfl, rfl⟩

theorem deleteSession (h : Expires c f) (sid : String) :
    (c.deleteSession ttl sid).1 = (f.tidy.deleteSession sid).1 ∧
      Expires (c.deleteSession ttl sid).2 { f with store := (f.tidy.deleteSession sid).2 } := by
  rw [ExpiringSessionStore.deleteSession, RedisSessionStore.deleteSession, h.get_header]
  cases f.tidy.header.get? sid with
  | none => exact ⟨rfl, h.tidy⟩
  | some header =>
    by_cases hkey : header.sessionKey = ""
    · simp only [hkey, if_true]
      exact ⟨trivial, h.erase sid⟩
    · simp only [hkey, if_false]
      exact ⟨trivial, (h.erase sid).unpoint header.sessionKey sid⟩

theorem step (h : Expires c f) (x : ExpiryStep) :
    (c.step ttl x).1 = (f.step ttl x).1 ∧ Expires (c.step ttl x).2 (f.step ttl x).2 := by
  cases x with
  | passes seconds =>
    have hle : f.now ≤ f.now + seconds := by omega
    refine ⟨rfl, ?_, h.current, h.history, fun sid => ?_⟩
    · exact congrArg (· + (seconds : Int)) h.now
    · have hkeys := h.keys sid
      exact ⟨hkeys.header.wait hle, hkeys.entries.wait hle, hkeys.order.wait hle, hkeys.leaf.wait hle⟩
  | op op =>
    cases op with
    | saveHeader tree => exact ⟨rfl, h.saveHeader tree⟩
    | appendEntry sid entry leafId => exact ⟨rfl, h.appendEntry sid entry leafId⟩
    | getCurrentSessionId key => 
      exact ⟨congrArg (fun d : Dict String String => StoreResult.current (d.get? key)) h.current, h.tidy⟩
    | setCurrentSessionId key sid now => exact ⟨rfl, h.tidy.setCurrent key sid now⟩
    | createNewSession key workspaceId agentId parent token createdAt now =>
      exact ⟨rfl, (h.saveHeader _).setCurrent _ _ now⟩
    | deleteSession sid =>
      obtain ⟨hdeleted, hnext⟩ := h.deleteSession sid
      exact ⟨congrArg StoreResult.deleted hdeleted, hnext⟩
    | load sid => exact ⟨congrArg StoreResult.loaded (h.load_eq sid), h.tidy⟩
    | listSessionHistory key limit =>
      refine ⟨congrArg StoreResult.history ?_, h.tidy⟩
      have hmembers : c.pointers.members key = f.tidy.members key :=
        congrArg (fun d : Dict String (SortedSet String) => (d.get? key).getD .empty) h.history
      rw [hmembers, RedisSessionStore.listSessionHistory]
      exact List.map_congr_left fun sid _ => h.summary_eq sid

theorem start : Expires {} {} where
  now := rfl
  current := rfl
  history := rfl
  keys _ := ⟨Held.absent, Held.absent, Held.absent, Held.absent⟩

end Expires

/-- Whatever is done with the store and however much time passes, the keys that expire one by one give the answers of
a store that forgets whole sessions. -/
theorem outputs_expiring (ttl : Nat) (steps : List ExpiryStep) :
    outputsFrom (ExpiringSessionStore.step ttl) {} steps = outputsFrom (ForgetfulStore.step ttl) {} steps :=
  outputsFrom_eq_of_related (C := fun _ _ => True) (fun _ _ x h _ => h.step x) Expires.start
    (along_of_forall fun _ _ => trivial)

end PyClaw
