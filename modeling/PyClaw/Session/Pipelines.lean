import PyClaw.Lib.Machine
import PyClaw.Lib.Trail
import PyClaw.Session.Forgetting

/-!
# Session.Pipelines

`RedisSessionStore` one command at a time: its pipelines are no transactions, so that commands of several
requests mix, a pipeline may stop after any of them, and each key of a session expires for itself. The write
lock of an append does not keep appends apart for good: it lapses after 30 s, and a client that gives up lets
go of it while the server may still execute its pipeline. So any appends to a session may overlap here.
-/

namespace PyClaw

/-- A value under a key, and when it expires, if it does. -/
structure Cell (α : Type) where
  value : α
  deadline : Option Int := none

namespace Cell

variable {α : Type}

def live (now : Int) (c : Cell α) : Bool := c.deadline.all (now < ·)

/-- What a command finds. -/
def find (now : Int) (c : Option (Cell α)) : Option (Cell α) := c.filter (live now)

def get (now : Int) (c : Option (Cell α)) : Option α := (find now c).map Cell.value

/-- `EXPIRE`. -/
def expire (ttl : Nat) (now : Int) (c : Option (Cell α)) : Option (Cell α) :=
  (find now c).map fun c => { c with deadline := some (now + ttl) }

/-- A command that changes a value, or makes one from nothing; the deadline stays. -/
def modify (now : Int) (c : Option (Cell α)) (f : Option α → α) : Option (Cell α) :=
  some { value := f (get now c), deadline := (find now c).bind Cell.deadline }

theorem get_some (now : Int) (c : Cell α) : get now (some c) = if c.live now then some c.value else none := by
  simp only [get, find, Option.filter_some]
  split <;> rfl

theorem get_modify (now : Int) (c : Option (Cell α)) (f : Option α → α) :
    get now (modify now c f) = some (f (get now c)) := by
  rw [modify, get_some, if_pos]
  cases hfind : find now c with
  | none => rfl
  | some cell => exact (Option.filter_eq_some_iff.mp hfind).2

/-- A deadline passes, or it does not. -/
theorem get_later {now later : Int} (h : now ≤ later) (c : Option (Cell α)) :
    get later c = get now c ∨ get later c = none := by
  cases c with
  | none => exact .inr rfl
  | some cell =>
    have hlive : cell.live later = true → cell.live now = true := by
      unfold live
      cases cell.deadline with
      | none => exact fun _ => rfl
      | some deadline =>
        simp only [Option.all_some, decide_eq_true_eq]
        omega
    rw [get_some, get_some]
    split
    · rename_i hl
      exact .inl (by rw [if_pos (hlive hl)])
    · exact .inr rfl

theorem find_later {now later : Int} (h : now ≤ later) {c : Option (Cell α)} (hnone : find now c = none) :
    find later c = none := by
  rcases get_later h c with hsame | hgone
  · rw [get, get, hnone] at hsame
    exact Option.map_eq_none_iff.mp hsame
  · exact Option.map_eq_none_iff.mp hgone

end Cell

/-- The four keys of a session. -/
structure SessionKeys where
  header : Option (Cell StoredHeader) := none
  entries : Option (Cell (Dict String SessionEntry)) := none
  order : Option (Cell (List String)) := none
  leaf : Option (Cell String) := none

inductive KeyKind where
  | header
  | entries
  | order
  | leaf
  deriving DecidableEq, Repr

inductive SessionCommand where
  /-- `SET` with an expiry. -/
  | setHeader (header : StoredHeader)
  | hset (entry : SessionEntry)
  | rpush (entryId : String)
  /-- `SET` without one. -/
  | setLeaf (leafId : String)
  | expire (kind : KeyKind)
  | del (kind : KeyKind)

namespace SessionKeys

def hash (now : Int) (k : SessionKeys) : Dict String SessionEntry := (Cell.get now k.entries).getD Dict.empty

def list (now : Int) (k : SessionKeys) : List String := (Cell.get now k.order).getD []

def exec (ttl : Nat) (now : Int) (k : SessionKeys) : SessionCommand → SessionKeys
  | .setHeader header => { k with header := some { value := header, deadline := some (now + ttl) } }
  | .hset entry => { k with entries := Cell.modify now k.entries fun h => (h.getD Dict.empty).set entry.id entry }
  | .rpush entryId => { k with order := Cell.modify now k.order fun l => l.getD [] ++ [entryId] }
  | .setLeaf leafId => { k with leaf := some { value := leafId } }
  | .expire .header => { k with header := Cell.expire ttl now k.header }
  | .expire .entries => { k with entries := Cell.expire ttl now k.entries }
  | .expire .order => { k with order := Cell.expire ttl now k.order }
  | .expire .leaf => { k with leaf := Cell.expire ttl now k.leaf }
  | .del .header => { k with header := none }
  | .del .entries => { k with entries := none }
  | .del .order => { k with order := none }
  | .del .leaf => { k with leaf := none }

end SessionKeys

/-! ## The pipelines -/

def saveHeaderCommands (header : StoredHeader) : List SessionCommand :=
  [.setHeader header, .expire .entries, .expire .order, .expire .leaf]

def appendEntryCommands (entry : SessionEntry) (leafId : String) : List SessionCommand :=
  [.hset entry, .rpush entry.id, .setLeaf leafId, .expire .header, .expire .entries, .expire .order, .expire .leaf]

def deleteSessionCommands : List SessionCommand := [.del .header, .del .entries, .del .order, .del .leaf]

/-- A load, by what it has read. -/
inductive Reading where
  | start
  | header (header : Option StoredHeader)
  | entries (header : Option StoredHeader) (entries : Dict String SessionEntry)
  | order (header : Option StoredHeader) (entries : Dict String SessionEntry) (order : List String)

/-- What a load makes of its four answers. -/
def loadedTree (header : Option StoredHeader) (entries : Dict String SessionEntry) (order : List String)
    (leaf : Option String) : Option StoredTree :=
  header.map fun header => { header, entries, order, leafId := SessionTree.truthy leaf }

/-- A pipeline: its session, the entry that it appends, if it does, and the commands still to come. -/
structure Pipeline where
  sid : String
  entry : Option SessionEntry := none
  rest : List SessionCommand

structure SessionRedis where
  now : Int := 0
  keys : String → SessionKeys := fun _ => {}
  pipelines : List Pipeline := []
  readers : List (String × Reading) := []
  /-- The entries that were ever given to `append_entry` for a session. -/
  given : String → List SessionEntry := fun _ => []
  /-- The entries that were ever made the leaf of a session. -/
  log : String → List SessionEntry := fun _ => []
  /-- What loads gave, with the log at that time. -/
  loaded : List (StoredTree × List SessionEntry) := []

inductive SessionStep where
  | saveHeader (header : StoredHeader)
  | appendEntry (sessionId : String) (entry : SessionEntry)
  | deleteSession (sessionId : String)
  | load (sessionId : String)
  /-- The next command of a pipeline. -/
  | sends (i : Nat)
  | stops (i : Nat)
  | reads (i : Nat)
  | readStops (i : Nat)
  | passes (ms : Nat)

namespace SessionRedis

def hash (s : SessionRedis) (sid : String) : Dict String SessionEntry := (s.keys sid).hash s.now

def leaf (s : SessionRedis) (sid : String) : Option String := Cell.get s.now (s.keys sid).leaf

section
variable (ttl : Nat)

def exec (s : SessionRedis) (sid : String) (c : SessionCommand) : SessionRedis :=
  { s with keys := Function.update s.keys sid ((s.keys sid).exec ttl s.now c) }

/-- The entry of the pipeline has become the leaf. -/
def record (s : SessionRedis) (sid : String) (entry : Option SessionEntry) : SessionCommand → SessionRedis
  | .setLeaf _ => { s with log := Function.update s.log sid (s.log sid ++ entry.toList) }
  | _ => s

def queue (s : SessionRedis) (q : Pipeline) : SessionRedis := { s with pipelines := s.pipelines ++ [q] }

/-- The next answer of a load. -/
def advance (s : SessionRedis) (sid : String) : Reading → Reading ⊕ Option StoredTree
  | .start => .inl (.header (Cell.get s.now (s.keys sid).header))
  | .header h => .inl (.entries h (s.hash sid))
  | .entries h entries => .inl (.order h entries ((s.keys sid).list s.now))
  | .order h entries order => .inr (loadedTree h entries order (s.leaf sid))

def step (s : SessionRedis) : SessionStep → SessionRedis
  | .saveHeader header => s.queue { sid := header.id, rest := saveHeaderCommands header }
  | .appendEntry sid entry =>
    { s with given := Function.update s.given sid (s.given sid ++ [entry]) }.queue
      { sid, entry := some entry, rest := appendEntryCommands entry entry.id }
  | .deleteSession sid =>
    match Cell.get s.now (s.keys sid).header with
    | some _ => s.queue { sid, rest := deleteSessionCommands }
    | none => s
  | .load sid => { s with readers := s.readers ++ [(sid, .start)] }
  | .sends i =>
    match s.pipelines[i]? with
    | some ⟨sid, entry, c :: rest⟩ =>
      { (s.exec ttl sid c).record sid entry c with pipelines := s.pipelines.set i ⟨sid, entry, rest⟩ }
    | _ => s
  | .stops i => { s with pipelines := s.pipelines.eraseIdx i }
  | .reads i =>
    match s.readers[i]? with
    | some (sid, r) =>
      match s.advance sid r with
      | .inl r => { s with readers := s.readers.set i (sid, r) }
      | .inr tree =>
        { s with
          readers := s.readers.eraseIdx i
          loaded := s.loaded ++ tree.toList.map fun t => (t, s.log sid) }
    | none => s
  | .readStops i => { s with readers := s.readers.eraseIdx i }
  | .passes ms => { s with now := s.now + ms }

end

end SessionRedis

end PyClaw
