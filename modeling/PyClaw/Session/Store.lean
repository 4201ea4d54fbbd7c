import Mathlib.Algebra.GroupWithZero.Nat
import Mathlib.Algebra.Order.BigOperators.Group.List
import Mathlib.Algebra.Order.Group.Nat
import PyClaw.Session.Wf

/-!
# Session.Store

Entry ids (`generate_entry_id`) and the session store: `InMemorySessionStore` of
`storage/session/base.py`.
-/

namespace PyClaw

/-! ## Entry ids -/

/-- The `secrets` module: the successive 4-byte tokens, and the 16-byte token drawn while the ids
`used` are taken, which is assumed not to hit one of them. -/
structure Secrets where
  tokenHex4 : Nat → String
  tokenHex16 : List String → String
  tokenHex16_fresh : ∀ used, tokenHex16 used ∉ used

/-- The attempts of `generate_entry_id`; also returns how many tokens were drawn so far. -/
def drawEntryId (sec : Secrets) (existing : List String) : Nat → Nat → String × Nat
  | 0, draws => (sec.tokenHex16 existing, draws)
  | attempts + 1, draws =>
    let candidate := sec.tokenHex4 draws
    if candidate ∈ existing then drawEntryId sec existing attempts (draws + 1)
    else (candidate, draws + 1)

def generateEntryId (sec : Secrets) (existing : List String) (draws : Nat) : String × Nat :=
  drawEntryId sec existing 100 draws

theorem drawEntryId_fresh (sec : Secrets) (existing : List String) (attempts draws : Nat) :
    (drawEntryId sec existing attempts draws).1 ∉ existing := by
  induction attempts generalizing draws with
  | zero => exact sec.tokenHex16_fresh existing
  | succ attempts ih =>
    unfold drawEntryId
    dsimp only
    split
    · exact ih (draws + 1)
    · exact ‹_›

theorem generateEntryId_fresh (sec : Secrets) (existing : List String) (draws : Nat) :
    (generateEntryId sec existing draws).1 ∉ existing :=
  drawEntryId_fresh sec existing 100 draws

/-- A source whose short tokens are the numerals; its long one is longer than every used id. -/
def Secrets.counting : Secrets where
  tokenHex4 n := toString n
  tokenHex16 used := String.ofList (List.replicate ((used.map String.length).sum + 1) 'f')
  tokenHex16_fresh := by
    intro used hmem
    have hle := List.single_le_sum (fun _ _ => Nat.zero_le _) _
      (List.mem_map_of_mem (f := String.length) hmem)
    simp at hle

/-! ## The in-memory store -/

/-- `entries[entry.id] = entry`, `order.append(entry.id)` and `leaf_id = leaf`. -/
def SessionTree.append (t : SessionTree) (e : SessionEntry) (leaf : String) : SessionTree :=
  { t.push e with leafId := some leaf }

structure InMemorySessionStore where
  trees : Dict String SessionTree
  keyed : ∀ p ∈ trees.items, p.2.header.id = p.1

namespace InMemorySessionStore

def empty : InMemorySessionStore := ⟨Dict.empty, fun _ h => absurd h List.not_mem_nil⟩

/-- `load`, which copies: the caller's tree and the stored one do not share state. -/
def load (store : InMemorySessionStore) (sessionId : String) : Option SessionTree :=
  store.trees.get? sessionId

theorem header_of_load {store : InMemorySessionStore} {sid : String} {t : SessionTree}
    (h : store.load sid = some t) : t.header.id = sid :=
  store.keyed (sid, t) (Dict.mem_items_of_get? h)

/-- Stores a tree under its header's id. -/
def put (store : InMemorySessionStore) (t : SessionTree) : InMemorySessionStore where
  trees := store.trees.set t.header.id t
  keyed := by
    intro p hp
    have hget := Dict.get?_of_mem_items hp
    rw [Dict.get?_set] at hget
    split at hget
    · rename_i he
      rw [← Option.some.inj hget, he]
    · exact store.keyed p (Dict.mem_items_of_get? hget)

/-- `_trees.pop(session_id, None)`. -/
def pop (store : InMemorySessionStore) (sessionId : String) : InMemorySessionStore where
  trees := store.trees.erase sessionId
  keyed := fun _ hp => store.keyed _ (Dict.mem_items_erase.mp hp).1

/-- `save_header`: a new session is stored as it is, of a known one only the header. -/
def saveHeader (store : InMemorySessionStore) (t : SessionTree) : InMemorySessionStore :=
  match store.load t.header.id with
  | some stored => store.put { stored with header := t.header }
  | none => store.put t

/-- `append_entry`; `none` is its `KeyError`. -/
def appendEntry (store : InMemorySessionStore) (sessionId : String) (e : SessionEntry)
    (leaf : String) : Option InMemorySessionStore :=
  (store.load sessionId).map fun t => store.put (t.append e leaf)

@[simp] theorem load_put (store : InMemorySessionStore) (t : SessionTree) :
    (store.put t).load t.header.id = some t :=
  Dict.get?_set_self _ _ _

theorem load_put_ne (store : InMemorySessionStore) {t : SessionTree} {sid : String}
    (h : t.header.id ≠ sid) : (store.put t).load sid = store.load sid :=
  Dict.get?_set_ne _ _ h

theorem load_pop_self (store : InMemorySessionStore) (sid : String) :
    (store.pop sid).load sid = none :=
  Dict.get?_erase_self _ _

theorem load_pop_ne (store : InMemorySessionStore) {sid sid' : String} (h : sid' ≠ sid) :
    (store.pop sid).load sid' = store.load sid' :=
  Dict.get?_erase_ne h

end InMemorySessionStore

end PyClaw
