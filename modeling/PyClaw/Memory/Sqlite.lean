import Mathlib.Logic.Function.Basic
import PyClaw.Lib.Sql
import PyClaw.Memory.Naming

/-!
# Memory.Sqlite

`SqliteMemoryBackend`, and the archiving of one entry by `CompositeMemoryStore`: a directory of
databases, one connection for each session key. Every statement runs on the database that the
connection of the key has open; only the rows that are written carry the key.
-/

namespace PyClaw

inductive MemoryLayer where
  | l1 | l2 | l3
  deriving DecidableEq, Repr

def MemoryLayer.name : MemoryLayer → String
  | .l1 => "L1"
  | .l2 => "L2"
  | .l3 => "L3"

structure MemoryEntry where
  id : String
  layer : MemoryLayer
  type : String
  content : String
  sourceSessionId : Option String := none
  createdAt : Int
  updatedAt : Int
  lastUsedAt : Option Int := none
  useCount : Int := 0
  status : String := "active"
  score : Option Rat := none
  deriving DecidableEq

structure ArchiveEntry where
  id : String
  sessionId : String
  summary : String
  createdAt : Int
  distance : Option Rat := none
  similarity : Option Rat := none
  deriving DecidableEq

/-! ## Tables -/

structure FactRow where
  sessionKey : String
  type : String
  content : String
  sourceSessionId : Option String
  createdAt : Int
  updatedAt : Int

structure ProcedureRow extends FactRow where
  lastUsedAt : Option Int
  useCount : Int
  status : String
  archivedAt : Option Int := none
  archiveReason : Option String := none

structure ArchiveRow where
  sessionKey : String
  sessionId : String
  summary : String
  createdAt : Int

/-- One database file; tables by primary key. `V` is the type of embeddings. -/
structure Database (V : Type) where
  facts : Dict String FactRow := Dict.empty
  procedures : Dict String ProcedureRow := Dict.empty
  archives : Dict String ArchiveRow := Dict.empty
  archivesVec : Dict String V := Dict.empty

inductive MemoryError where
  | valueError (message : String)
  | outOfBase (sessionKey dbName : String)
  | cannotOpen (dbName : String)
  | constraint (id : String)
  deriving DecidableEq

/-- The file system, the full-text index, the embedding service and `sqlite_vec`. -/
structure MemoryDeps (V : Type) where
  py : PyText
  sha256Hex : String → String
  /-- The path of a file name stays inside the base directory. -/
  resolvesInside : String → Bool
  opens : String → Bool
  ftsMinQueryChars : Int := 3
  buildSafeMatchQuery : String → Option String
  /-- The texts that match, by position, with their rank, in the order of the ranks. -/
  ftsMatch : String → List String → List (Nat × Rat)
  /-- None without an embedding client; a failed call gives none. -/
  embedding : Option (String → Option V)
  vecLoads : Bool
  /-- The `k` nearest rows with their distance, nearest first. -/
  nearest : V → Int → List (String × V) → List (String × Rat)

section
variable {V : Type} (deps : MemoryDeps V)

/-! ## Writing -/

namespace Database

def storeFact (db : Database V) (sessionKey : String) (e : MemoryEntry) : Database V :=
  { db with
    facts := Sql.upsert db.facts e.id
      { sessionKey := sessionKey, type := e.type, content := e.content,
        sourceSessionId := e.sourceSessionId, createdAt := e.createdAt, updatedAt := e.updatedAt }
      fun old =>
        { old with
          type := e.type, content := e.content, sourceSessionId := e.sourceSessionId
          updatedAt := e.updatedAt } }

def storeProcedure (db : Database V) (sessionKey : String) (e : MemoryEntry) : Database V :=
  { db with
    procedures := Sql.upsert db.procedures e.id
      { sessionKey := sessionKey, type := e.type, content := e.content,
        sourceSessionId := e.sourceSessionId, createdAt := e.createdAt, updatedAt := e.updatedAt,
        lastUsedAt := e.lastUsedAt, useCount := e.useCount, status := e.status }
      fun old =>
        { old with
          type := e.type, content := e.content, sourceSessionId := e.sourceSessionId
          updatedAt := e.updatedAt, lastUsedAt := e.lastUsedAt, useCount := e.useCount
          status := e.status } }

def store (db : Database V) (sessionKey : String) (e : MemoryEntry) :
    Except MemoryError (Database V) :=
  match e.layer with
  | .l2 => .ok (db.storeFact sessionKey e)
  | .l3 => .ok (db.storeProcedure sessionKey e)
  | .l1 => .error (.valueError
      ("SqliteMemoryBackend only handles L2/L3, got '" ++ e.layer.name ++ "'"))

def delete (db : Database V) (entryId : String) : Database V :=
  { db with facts := db.facts.erase entryId, procedures := db.procedures.erase entryId }

/-- The `UPDATE` of `CompositeMemoryStore.archive_entry`, and whether it changed a row. -/
def archiveEntry (db : Database V) (entryId reason : String) (now : Int) : Bool × Database V :=
  match db.procedures.get? entryId with
  | some row =>
    if row.status = "active" then
      (true, { db with
        procedures := db.procedures.set entryId
          { row with
            status := "archived", archivedAt := some now
            archiveReason := if reason = "" then none else some reason } })
    else (false, db)
  | none => (false, db)

/-- `_archive_sync`, with the drawn `uuid4`. -/
def insertArchive (db : Database V) (sessionKey sessionId summary archiveId : String) (now : Int) :
    Except MemoryError (Database V) :=
  if db.archives.contains archiveId then .error (.constraint archiveId)
  else .ok { db with
    archives := db.archives.set archiveId
      { sessionKey := sessionKey, sessionId := sessionId, summary := summary, createdAt := now } }

/-- `_vec_insert`: the vector goes to the latest archive of the session; a failure is logged. -/
def insertVec (db : Database V) (sessionId : String) (v : V) : Database V :=
  let rows := db.archives.items.filter fun p => p.2.sessionId = sessionId
  match (Sql.orderDesc (fun p => p.2.createdAt) rows).head? with
  | none => db
  | some (id, _) =>
    if db.archivesVec.contains id then db
    else { db with archivesVec := db.archivesVec.set id v }

def archiveSession (db : Database V) (sessionKey sessionId summary archiveId : String)
    (now : Int) : Except MemoryError (Database V) := do
  let db ← db.insertArchive sessionKey sessionId summary archiveId now
  match deps.embedding with
  | some embed =>
    if deps.vecLoads then
      match embed summary with
      | some v => return db.insertVec sessionId v
      | none => return db
    else return db
  | none => return db

/-! ## Searching -/

/-- `text LIKE ?` of SQLite, which reads a text up to its first NUL. -/
def textLike (pattern text : String) : Bool :=
  Sql.like (pattern.toList.takeWhile (· ≠ '\x00')) (text.toList.takeWhile (· ≠ '\x00'))

end Database

/-- The rows of a table that match, with the rank of the full-text branch; short queries go to
`LIKE`. `keep` is the rest of the `WHERE` clause. -/
def MemoryDeps.searchRows {ν : Type} (content : ν → String) (updatedAt : ν → Int) (keep : ν → Bool)
    (rows : List ν) (query : String) (limit : Int) : List (ν × Option Rat) :=
  if query.length < deps.ftsMinQueryChars then
    let hits := rows.filter fun r => Database.textLike ("%" ++ query ++ "%") (content r) && keep r
    (Sql.limit limit (Sql.orderDesc updatedAt hits)).map fun r => (r, none)
  else
    match deps.buildSafeMatchQuery query with
    | none => []
    | some matchQuery =>
      Sql.limit limit ((deps.ftsMatch matchQuery (rows.map content)).filterMap fun p =>
        (rows[p.1]?).bind fun r => if keep r then some (r, some p.2) else none)

namespace Database

/-- `_search_table_sync` on `facts`. -/
def searchFacts (db : Database V) (query : String) (limit : Int) : List MemoryEntry :=
  (deps.searchRows (fun p => p.2.content) (fun p => p.2.updatedAt) (fun _ => true) db.facts.items
    query limit).map fun ((id, row), score) =>
      { id := id, layer := .l2, type := row.type, content := row.content
        sourceSessionId := row.sourceSessionId, createdAt := row.createdAt
        updatedAt := row.updatedAt, score := score }

/-- `_search_procedures_sync`: the rows found are also marked as used. -/
def searchProcedures (db : Database V) (query : String) (limit now : Int) :
    List MemoryEntry × Database V :=
  let rows := deps.searchRows (fun p => p.2.content) (fun p => p.2.updatedAt)
    (fun p => p.2.status = "active") db.procedures.items query limit
  let ids := rows.map fun r => r.1.1
  (rows.map fun ((id, row), score) =>
      { id := id, layer := .l3, type := row.type, content := row.content
        sourceSessionId := row.sourceSessionId, createdAt := row.createdAt
        updatedAt := row.updatedAt, lastUsedAt := some now, useCount := row.useCount + 1
        status := row.status, score := score },
    { db with
      procedures := db.procedures.mapValues fun id row =>
        if id ∈ ids then { row with useCount := row.useCount + 1, lastUsedAt := some now }
        else row })

def search (db : Database V) (query : String) (layers : Option (List String)) (limit : Int)
    (perLayerLimits : Option (Dict String Int)) (now : Int) : List MemoryEntry × Database V :=
  let layers := layers.getD ["L2", "L3"]
  let layerLimit := fun layer => (perLayerLimits.bind (·.get? layer)).getD limit
  let l2 := if "L2" ∈ layers then db.searchFacts deps query (layerLimit "L2") else []
  let l3 := if "L3" ∈ layers then db.searchProcedures deps query (layerLimit "L3") now else ([], db)
  let results := l2 ++ l3.1
  match perLayerLimits with
  | some limits => (if limits.items = [] then sliceTo limit results else results, l3.2)
  | none => (sliceTo limit results, l3.2)

def searchArchives (db : Database V) (query : String) (limit : Int) (minSimilarity : Rat) :
    List ArchiveEntry :=
  match deps.embedding with
  | none => []
  | some embed =>
    if deps.vecLoads then
      match embed query with
      | none => []
      | some v =>
        let overfetch := if 0 < minSimilarity then max limit (limit * 2) else limit
        sliceTo limit ((deps.nearest v overfetch db.archivesVec.items).filterMap fun (id, distance) =>
          (db.archives.get? id).bind fun row =>
            if 0 < minSimilarity ∧ 1 - minSimilarity < distance then none
            else some
              { id := id, sessionId := row.sessionId, summary := row.summary
                createdAt := row.createdAt, distance := some distance
                similarity := some (1 - distance) })
    else []

end Database

/-! ## Requests -/

inductive MemoryRequest where
  | store (entry : MemoryEntry)
  | search (query : String) (layers : Option (List String)) (limit : Int)
      (perLayerLimits : Option (Dict String Int)) (now : Int)
  | delete (entryId : String)
  | archiveEntry (entryId reason : String) (now : Int)
  | archiveSession (sessionId summary archiveId : String) (now : Int)
  | searchArchives (query : String) (limit : Int) (minSimilarity : Rat)

inductive MemoryReply where
  | raised (e : MemoryError)
  | done
  | changed (b : Bool)
  | entries (found : List MemoryEntry)
  | archives (found : List ArchiveEntry)
  deriving DecidableEq

namespace MemoryReply

def foundEntries : MemoryReply → List MemoryEntry
  | .entries found => found
  | _ => []

def foundArchives : MemoryReply → List ArchiveEntry
  | .archives found => found
  | _ => []

end MemoryReply

/-- A statement that raises leaves the database as it was. -/
def Database.write (db : Database V) : Except MemoryError (Database V) → MemoryReply × Database V
  | .ok db' => (.done, db')
  | .error e => (.raised e, db)

def Database.perform (sessionKey : String) (req : MemoryRequest) (db : Database V) :
    MemoryReply × Database V :=
  match req with
  | .store e => db.write (db.store sessionKey e)
  | .search query layers limit perLayerLimits now =>
    let r := db.search deps query layers limit perLayerLimits now
    (.entries r.1, r.2)
  | .delete entryId => (.done, db.delete entryId)
  | .archiveEntry entryId reason now =>
    let r := db.archiveEntry entryId reason now
    (.changed r.1, r.2)
  | .archiveSession sessionId summary archiveId now =>
    db.write (db.archiveSession deps sessionKey sessionId summary archiveId now)
  | .searchArchives query limit minSimilarity =>
    (.archives (db.searchArchives deps query limit minSimilarity), db)

/-! ## The backend -/

/-- The open connections, by session key, and the files. -/
structure SqliteMemoryBackend (V : Type) where
  connections : Dict String String := Dict.empty
  files : String → Database V := fun _ => {}

namespace SqliteMemoryBackend

/-- `_get_conn_sync`: the name of the file that the connection has open. -/
def getConn (b : SqliteMemoryBackend V) (sessionKey : String) :
    Except MemoryError (String × SqliteMemoryBackend V) :=
  match b.connections.get? sessionKey with
  | some dbName => .ok (dbName, b)
  | none =>
    match filenameFor deps.py deps.sha256Hex sessionKey with
    | none => .error (.valueError "session_key must not be empty")
    | some dbName =>
      if deps.resolvesInside dbName then
        if deps.opens dbName then
          .ok (dbName, { b with connections := b.connections.set sessionKey dbName })
        else .error (.cannotOpen dbName)
      else .error (.outOfBase sessionKey dbName)

/-- Serves a request on the connection of the key. -/
def onConn (b : SqliteMemoryBackend V) (sessionKey : String) (req : MemoryRequest) :
    MemoryReply × SqliteMemoryBackend V :=
  match b.getConn deps sessionKey with
  | .error e => (.raised e, b)
  | .ok (dbName, b) =>
    let r := (b.files dbName).perform deps sessionKey req
    (r.1, { b with files := Function.update b.files dbName r.2 })

def perform (b : SqliteMemoryBackend V) (sessionKey : String) (req : MemoryRequest) :
    MemoryReply × SqliteMemoryBackend V :=
  match req with
  | .searchArchives _ _ _ =>
    -- without an embedding client no connection is opened
    if deps.embedding.isNone then (.archives [], b) else b.onConn deps sessionKey req
  | _ => b.onConn deps sessionKey req

def step (b : SqliteMemoryBackend V) (op : String × MemoryRequest) : SqliteMemoryBackend V :=
  (b.perform deps op.1 op.2).2

end SqliteMemoryBackend

end

end PyClaw
