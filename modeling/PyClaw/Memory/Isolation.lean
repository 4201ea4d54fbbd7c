import PyClaw.Lib.Partition
import PyClaw.Memory.Sqlite

/-!
# Memory.Isolation

What a search can return. A database returns what was stored in it (`Database.From`); the backend
is a store cut into cells, the cell of a key being its file (`run_files`). So a key finds nothing
but its own entries exactly when no other key in use has its file: `isolated_iff`.
-/

namespace PyClaw

/-- What a stored entry and a found one have in common; the usage fields may have moved on. -/
def MemoryEntry.identity (e : MemoryEntry) :
    String × MemoryLayer × String × String × Option String × Int :=
  (e.id, e.layer, e.type, e.content, e.sourceSessionId, e.updatedAt)

/-- Some request of `R` stores the entry. -/
def StoredIn (R : MemoryRequest → Prop) (e : MemoryEntry) : Prop :=
  ∃ stored, R (.store stored) ∧ stored.identity = e.identity

def ArchivedIn (R : MemoryRequest → Prop) (a : ArchiveEntry) : Prop :=
  R (.archiveSession a.sessionId a.summary a.id a.createdAt)

namespace FactRow

/-- The row of table `layer` under `id` is what an entry says. -/
def Shows (row : FactRow) (layer : MemoryLayer) (id : String) (e : MemoryEntry) : Prop :=
  (id, layer, row.type, row.content, row.sourceSessionId, row.updatedAt) = e.identity

end FactRow

variable {V : Type}

/-- All rows come from requests of `R`. -/
structure Database.From (R : MemoryRequest → Prop) (db : Database V) : Prop where
  facts : ∀ id row, (id, row) ∈ db.facts.items → ∃ e, R (.store e) ∧ row.Shows .l2 id e
  procedures : ∀ id row, (id, row) ∈ db.procedures.items →
    ∃ e, R (.store e) ∧ row.toFactRow.Shows .l3 id e
  archives : ∀ id row, (id, row) ∈ db.archives.items →
    R (.archiveSession row.sessionId row.summary id row.createdAt)

section
variable {deps : MemoryDeps V} {R : MemoryRequest → Prop} {db : Database V}

theorem MemoryDeps.mem_of_mem_searchRows {ν : Type} {content : ν → String} {updatedAt : ν → Int}
    {keep : ν → Bool} {rows : List ν} {query : String} {limit : Int} {hit : ν × Option Rat}
    (h : hit ∈ deps.searchRows content updatedAt keep rows query limit) : hit.1 ∈ rows := by
  unfold MemoryDeps.searchRows at h
  split at h
  · obtain ⟨r, hr, rfl⟩ := List.mem_map.mp h
    exact List.mem_of_mem_filter (Sql.mem_orderDesc.mp (Sql.mem_of_mem_limit hr))
  · split at h
    · cases h
    · obtain ⟨p, -, hp⟩ := List.mem_filterMap.mp (Sql.mem_of_mem_limit h)
      obtain ⟨r, hr, hkeep⟩ := Option.bind_eq_some_iff.mp hp
      split at hkeep
      · cases hkeep
        exact List.mem_of_getElem? hr
      · cases hkeep

namespace Database

namespace From

theorem empty : ({} : Database V).From R := by
  constructor <;> intro _ _ h <;> cases h

theorem storeFact (h : db.From R) (key : String) {e : MemoryEntry} (he : R (.store e))
    (hlayer : e.layer = .l2) : (db.storeFact key e).From R where
  facts id row hmem := by
    rcases Sql.mem_upsert hmem with ⟨rfl, hrow⟩ | hold
    · refine ⟨e, he, ?_⟩
      rcases hrow with rfl | ⟨old, -, rfl⟩ <;> simp [FactRow.Shows, MemoryEntry.identity, hlayer]
    · exact h.facts id row hold
  procedures := h.procedures
  archives := h.archives

theorem storeProcedure (h : db.From R) (key : String) {e : MemoryEntry} (he : R (.store e))
    (hlayer : e.layer = .l3) : (db.storeProcedure key e).From R where
  facts := h.facts
  procedures id row hmem := by
    rcases Sql.mem_upsert hmem with ⟨rfl, hrow⟩ | hold
    · refine ⟨e, he, ?_⟩
      rcases hrow with rfl | ⟨old, -, rfl⟩ <;> simp [FactRow.Shows, MemoryEntry.identity, hlayer]
    · exact h.procedures id row hold
  archives := h.archives

theorem delete (h : db.From R) (id : String) : (db.delete id).From R where
  facts _ _ hmem := h.facts _ _ (Dict.mem_items_erase.mp hmem).1
  procedures _ _ hmem := h.procedures _ _ (Dict.mem_items_erase.mp hmem).1
  archives := h.archives

theorem archiveEntry (h : db.From R) (entryId reason : String) (now : Int) :
    (db.archiveEntry entryId reason now).2.From R := by
  unfold Database.archiveEntry
  split
  · rename_i row hrow
    split
    · refine ⟨h.facts, fun id r hmem => ?_, h.archives⟩
      rcases Dict.mem_items_set hmem with ⟨rfl, rfl⟩ | hold
      · exact h.procedures id row (Dict.get?_eq_some.mp hrow)
      · exact h.procedures id r hold
    · exact h
  · exact h

theorem insertVec (h : db.From R) (sessionId : String) (v : V) :
    (db.insertVec sessionId v).From R := by
  unfold Database.insertVec
  dsimp only
  split
  · exact h
  · split
    · exact h
    · exact ⟨h.facts, h.procedures, h.archives⟩

theorem insertArchive (h : db.From R) {key sessionId summary archiveId : String} {now : Int}
    {db' : Database V} (hreq : R (.archiveSession sessionId summary archiveId now))
    (hrun : db.insertArchive key sessionId summary archiveId now = .ok db') : db'.From R := by
  unfold Database.insertArchive at hrun
  split at hrun
  · cases hrun
  · cases hrun
    refine ⟨h.facts, h.procedures, fun id row hmem => ?_⟩
    rcases Dict.mem_items_set hmem with ⟨rfl, rfl⟩ | hold
    · exact hreq
    · exact h.archives id row hold

theorem archiveSession (h : db.From R) {key sessionId summary archiveId : String} {now : Int}
    {db' : Database V} (hreq : R (.archiveSession sessionId summary archiveId now))
    (hrun : db.archiveSession deps key sessionId summary archiveId now = .ok db') : db'.From R := by
  unfold Database.archiveSession at hrun
  cases hins : db.insertArchive key sessionId summary archiveId now with
  | error e =>
    rw [hins] at hrun
    cases hrun
  | ok db1 =>
    have h1 : db1.From R := h.insertArchive hreq hins
    rw [hins] at hrun
    simp only [bind, Except.bind, pure, Except.pure] at hrun
    split at hrun
    · split at hrun
      · split at hrun
        · cases hrun
          exact h1.insertVec sessionId _
        · cases hrun
          exact h1
      · cases hrun
        exact h1
    · cases hrun
      exact h1

theorem searchProcedures (h : db.From R) (query : String) (limit now : Int) :
    (db.searchProcedures deps query limit now).2.From R where
  facts := h.facts
  procedures id row hmem := by
    obtain ⟨old, hold, rfl⟩ := Dict.mem_items_mapValues hmem
    obtain ⟨e, he, hshows⟩ := h.procedures id old hold
    refine ⟨e, he, ?_⟩
    split <;> exact hshows
  archives := h.archives

theorem search (h : db.From R) (query : String) (layers : Option (List String)) (limit : Int)
    (perLayerLimits : Option (Dict String Int)) (now : Int) :
    (db.search deps query layers limit perLayerLimits now).2.From R := by
  have hl3 : ∀ n, (if "L3" ∈ layers.getD ["L2", "L3"] then db.searchProcedures deps query n now
      else ([], db)).2.From R := by
    intro n
    split
    · exact h.searchProcedures query n now
    · exact h
  cases perLayerLimits <;> exact hl3 _

/-- A request of `R` keeps every row one of `R`. -/
theorem perform (h : db.From R) {key : String} {req : MemoryRequest} (hreq : R req) :
    (db.perform deps key req).2.From R := by
  cases req with
  | store e =>
    cases hlayer : e.layer with
    | l1 => simpa [Database.perform, Database.store, Database.write, hlayer] using h
    | l2 =>
      simpa [Database.perform, Database.store, Database.write, hlayer] using
        h.storeFact key hreq hlayer
    | l3 =>
      simpa [Database.perform, Database.store, Database.write, hlayer] using
        h.storeProcedure key hreq hlayer
  | search query layers limit perLayerLimits now => exact h.search ..
  | delete entryId => exact h.delete entryId
  | archiveEntry entryId reason now => exact h.archiveEntry ..
  | archiveSession sessionId summary archiveId now =>
    cases hrun : db.archiveSession deps key sessionId summary archiveId now with
    | error e => simpa [Database.perform, Database.write, hrun] using h
    | ok db' => simpa [Database.perform, Database.write, hrun] using h.archiveSession hreq hrun
  | searchArchives query limit minSimilarity => exact h

end From

/-! ## What a request returns -/

theorem mem_search {e : MemoryEntry} {query : String} {layers : Option (List String)} {limit : Int}
    {perLayerLimits : Option (Dict String Int)} {now : Int}
    (h : e ∈ (db.search deps query layers limit perLayerLimits now).1) :
    (∃ n, e ∈ db.searchFacts deps query n) ∨ ∃ n, e ∈ (db.searchProcedures deps query n now).1 := by
  have hmem : ∀ n m, e ∈ (if "L2" ∈ layers.getD ["L2", "L3"] then db.searchFacts deps query n
      else []) ++ (if "L3" ∈ layers.getD ["L2", "L3"] then db.searchProcedures deps query m now
      else ([], db)).1 → (∃ n, e ∈ db.searchFacts deps query n) ∨
        ∃ n, e ∈ (db.searchProcedures deps query n now).1 := by
    intro n m hl
    rcases List.mem_append.mp hl with hl | hl
    · split at hl
      · exact .inl ⟨n, hl⟩
      · cases hl
    · split at hl
      · exact .inr ⟨m, hl⟩
      · cases hl
  cases perLayerLimits with
  | none => exact hmem _ _ (mem_of_mem_sliceTo h)
  | some limits =>
    simp only [Database.search] at h
    split at h
    · exact hmem _ _ (mem_of_mem_sliceTo h)
    · exact hmem _ _ h

theorem write_finds_nothing (r : Except MemoryError (Database V)) :
    (db.write r).1.foundEntries = [] ∧ (db.write r).1.foundArchives = [] := by
  cases r <;> exact ⟨rfl, rfl⟩

theorem From.found (h : db.From R) {key : String} {req : MemoryRequest} {e : MemoryEntry}
    (hfound : e ∈ (db.perform deps key req).1.foundEntries) : StoredIn R e := by
  cases req with
  | search query layers limit perLayerLimits now =>
    rcases mem_search hfound with ⟨n, hn⟩ | ⟨n, hn⟩
    · obtain ⟨⟨⟨id, row⟩, score⟩, hhit, rfl⟩ := List.mem_map.mp hn
      obtain ⟨stored, hstored, hshows⟩ := h.facts id row (MemoryDeps.mem_of_mem_searchRows hhit)
      exact ⟨stored, hstored, hshows.symm⟩
    · obtain ⟨⟨⟨id, row⟩, score⟩, hhit, rfl⟩ := List.mem_map.mp hn
      obtain ⟨stored, hstored, hshows⟩ := h.procedures id row (MemoryDeps.mem_of_mem_searchRows hhit)
      exact ⟨stored, hstored, hshows.symm⟩
  | store e =>
    rw [Database.perform, (write_finds_nothing _).1] at hfound
    cases hfound
  | archiveSession sessionId summary archiveId now =>
    rw [Database.perform, (write_finds_nothing _).1] at hfound
    cases hfound
  | delete _ | archiveEntry _ _ _ | searchArchives _ _ _ => cases hfound

theorem From.foundArchive (h : db.From R) {key : String} {req : MemoryRequest} {a : ArchiveEntry}
    (hfound : a ∈ (db.perform deps key req).1.foundArchives) : ArchivedIn R a := by
  cases req with
  | searchArchives query limit minSimilarity =>
    simp only [Database.perform, MemoryReply.foundArchives, Database.searchArchives] at hfound
    split at hfound
    · cases hfound
    · split at hfound
      · split at hfound
        · cases hfound
        · obtain ⟨⟨id, distance⟩, -, hrow⟩ := List.mem_filterMap.mp (mem_of_mem_sliceTo hfound)
          obtain ⟨row, hget, hkeep⟩ := Option.bind_eq_some_iff.mp hrow
          split at hkeep
          · cases hkeep
          · cases hkeep
            exact h.archives id row (Dict.get?_eq_some.mp hget)
      · cases hfound
  | store e =>
    rw [Database.perform, (write_finds_nothing _).2] at hfound
    cases hfound
  | archiveSession sessionId summary archiveId now =>
    rw [Database.perform, (write_finds_nothing _).2] at hfound
    cases hfound
  | delete _ | archiveEntry _ _ _ | search _ _ _ _ _ => cases hfound

end Database

/-! ## The backend as a partition -/

/-- The file that serves a key; none when the backend refuses the key. -/
def MemoryDeps.fileOf (deps : MemoryDeps V) (key : String) : Option String :=
  (filenameFor deps.py deps.sha256Hex key).filter fun dbName =>
    deps.resolvesInside dbName && deps.opens dbName

namespace SqliteMemoryBackend

variable {b : SqliteMemoryBackend V}

/-- Every open connection is on the file of its key. -/
def Connected (deps : MemoryDeps V) (b : SqliteMemoryBackend V) : Prop :=
  ∀ key dbName, b.connections.get? key = some dbName → deps.fileOf key = some dbName

theorem getConn_some {key dbName : String} (hb : b.Connected deps)
    (hfile : deps.fileOf key = some dbName) :
    ∃ b', b.getConn deps key = .ok (dbName, b') ∧ b'.files = b.files ∧ b'.Connected deps := by
  unfold getConn
  split
  · rename_i name hname
    have : some name = some dbName := (hb key name hname).symm.trans hfile
    cases this
    exact ⟨b, rfl, rfl, hb⟩
  · obtain ⟨hname, hopen⟩ := Option.filter_eq_some_iff.mp hfile
    simp only [Bool.and_eq_true] at hopen
    rw [hname]
    simp only [hopen.1, hopen.2, if_true]
    refine ⟨_, rfl, rfl, fun key' name' hget => ?_⟩
    rw [Dict.get?_set] at hget
    split at hget
    · rename_i hkey
      cases hget
      exact hkey ▸ hfile
    · exact hb key' name' hget

theorem getConn_none {key : String} (hb : b.Connected deps) (hfile : deps.fileOf key = none) :
    ∃ e, b.getConn deps key = .error e := by
  unfold getConn
  split
  · rename_i name hname
    rw [hb key name hname] at hfile
    cases hfile
  · split
    · exact ⟨_, rfl⟩
    · rename_i dbName hname
      rw [MemoryDeps.fileOf, hname, Option.filter_some] at hfile
      split at hfile
      · cases hfile
      · rename_i hopen
        simp only [Bool.and_eq_true, not_and] at hopen
        by_cases hin : deps.resolvesInside dbName = true
        · rw [if_pos hin, if_neg (hopen hin)]
          exact ⟨_, rfl⟩
        · rw [if_neg hin]
          exact ⟨_, rfl⟩

/-- A key with a file is answered by the database of that file, which alone may change. -/
theorem perform_some {key dbName : String} (req : MemoryRequest) (hb : b.Connected deps)
    (hfile : deps.fileOf key = some dbName) :
    (b.perform deps key req).1 = ((b.files dbName).perform deps key req).1 ∧
      (b.perform deps key req).2.files =
        Function.update b.files dbName ((b.files dbName).perform deps key req).2 ∧
      (b.perform deps key req).2.Connected deps := by
  have hconn : (b.onConn deps key req).1 = ((b.files dbName).perform deps key req).1 ∧
      (b.onConn deps key req).2.files =
        Function.update b.files dbName ((b.files dbName).perform deps key req).2 ∧
      (b.onConn deps key req).2.Connected deps := by
    obtain ⟨b', hrun, hfiles, hb'⟩ := getConn_some hb hfile
    rw [onConn, hrun]
    simp only [hfiles, true_and]
    exact hb'
  cases req with
  | searchArchives query limit minSimilarity =>
    simp only [perform]
    split
    · rename_i hnone
      have hempty : (b.files dbName).searchArchives deps query limit minSimilarity = [] := by
        rw [Database.searchArchives, Option.isNone_iff_eq_none.mp hnone]
      simp only [Database.perform, hempty, Function.update_eq_self]
      exact ⟨trivial, trivial, hb⟩
    · exact hconn
  | _ => exact hconn

/-- A key without one finds nothing and changes no file. -/
theorem perform_none {key : String} (req : MemoryRequest) (hb : b.Connected deps)
    (hfile : deps.fileOf key = none) :
    (b.perform deps key req).1.foundEntries = [] ∧ (b.perform deps key req).1.foundArchives = [] ∧
      (b.perform deps key req).2 = b := by
  have hconn : ∃ e, b.onConn deps key req = (.raised e, b) := by
    obtain ⟨e, hrun⟩ := getConn_none hb hfile
    exact ⟨e, by rw [onConn, hrun]⟩
  obtain ⟨e, he⟩ := hconn
  cases req with
  | searchArchives query limit minSimilarity =>
    simp only [perform]
    split
    · exact ⟨rfl, rfl, rfl⟩
    · rw [he]
      exact ⟨rfl, rfl, rfl⟩
  | _ => simp [perform, he, MemoryReply.foundEntries, MemoryReply.foundArchives]

theorem step_connected (hb : b.Connected deps) (op : String × MemoryRequest) :
    (b.step deps op).Connected deps := by
  cases hfile : deps.fileOf op.1 with
  | none =>
    rw [step, (perform_none op.2 hb hfile).2.2]
    exact hb
  | some dbName => exact (perform_some op.2 hb hfile).2.2

theorem step_files (hb : b.Connected deps) (op : String × MemoryRequest) :
    (b.step deps op).files = Partition.step deps.fileOf (Database.perform deps) b.files op := by
  cases hfile : deps.fileOf op.1 with
  | none => rw [step, (perform_none op.2 hb hfile).2.2, Partition.step, hfile]
  | some dbName => rw [step, (perform_some op.2 hb hfile).2.1, Partition.step, hfile]

theorem run_connected (hb : b.Connected deps) (ops : List (String × MemoryRequest)) :
    (runFrom (step deps) b ops).Connected deps :=
  runFrom_invariant (fun _ op hb => step_connected hb op) hb

/-- The files after a run: each is a cell of the partition. -/
theorem run_files (hb : b.Connected deps) (ops : List (String × MemoryRequest)) :
    (runFrom (step deps) b ops).files =
      runFrom (Partition.step deps.fileOf (Database.perform deps)) b.files ops :=
  @runFrom_simulates _ _ _ (step deps) (·.Connected deps) b ops _ SqliteMemoryBackend.files
    (fun _ op hb => step_connected hb op) (fun _ op hb => step_files hb op) hb

theorem start_connected : ({} : SqliteMemoryBackend V).Connected deps :=
  fun _ _ h => by cases h

end SqliteMemoryBackend

/-! ## Isolation -/

/-- The requests made under a key. -/
def RequestOf (ops : List (String × MemoryRequest)) (key : String) (req : MemoryRequest) : Prop :=
  (key, req) ∈ ops

/-- After any requests under keys of `K`, whatever a request finds was put there under its key. -/
def Isolated (deps : MemoryDeps V) (K : Set String) : Prop :=
  ∀ (ops : List (String × MemoryRequest)) (key : String) (req : MemoryRequest),
    (∀ op ∈ ops, op.1 ∈ K) → key ∈ K →
    let reply := ((runFrom (SqliteMemoryBackend.step deps) {} ops).perform deps key req).1
    (∀ e ∈ reply.foundEntries, StoredIn (RequestOf ops key) e) ∧
      ∀ a ∈ reply.foundArchives, ArchivedIn (RequestOf ops key) a

/-- The search finds some text. -/
def MemoryDeps.Finds (deps : MemoryDeps V) : Prop :=
  ∃ query content : String,
    deps.searchRows (fun text => text) (fun _ => 0) (fun _ => true) [content] query 10 ≠ []

/-- A database that has served requests of one key. -/
theorem Database.From.run {ops : List (String × MemoryRequest)} (h : db.From R)
    (hops : ∀ op ∈ ops, R op.2) :
    (runFrom (Partition.cellStep (Database.perform deps)) db ops).From R := by
  induction ops generalizing db with
  | nil => exact h
  | cons op ops ih =>
    refine ih (h.perform (hops op List.mem_cons_self)) fun op' hop' => ?_
    exact hops op' (List.mem_cons_of_mem op hop')

theorem isolated_of_separated {K : Set String} (hsep : Partition.SeparatedOn deps.fileOf K) :
    Isolated deps K := by
  intro ops key req hops hkey reply
  have hb : (runFrom (SqliteMemoryBackend.step deps) {} ops).Connected deps :=
    SqliteMemoryBackend.run_connected SqliteMemoryBackend.start_connected ops
  cases hfile : deps.fileOf key with
  | none =>
    obtain ⟨hentries, harchives, -⟩ := SqliteMemoryBackend.perform_none req hb hfile
    constructor
    · intro e he
      rw [hentries] at he
      cases he
    · intro a ha
      rw [harchives] at ha
      cases ha
  | some dbName =>
    have hreply := (SqliteMemoryBackend.perform_some req hb hfile).1
    have hown : ((runFrom (SqliteMemoryBackend.step deps) {} ops).files dbName).From
        (RequestOf ops key) := by
      rw [SqliteMemoryBackend.run_files SqliteMemoryBackend.start_connected,
        Partition.cell_run_own hsep hops hkey hfile]
      refine Database.From.run Database.From.empty fun op hop => ?_
      obtain ⟨hmem, hk⟩ := List.mem_filter.mp hop
      have : op.1 = key := by simpa using hk
      exact this ▸ hmem
    constructor
    · intro e he
      rw [show reply = _ from hreply] at he
      exact hown.found he
    · intro a ha
      rw [show reply = _ from hreply] at ha
      exact hown.foundArchive ha

/-- On one row a search sees its text only. -/
theorem MemoryDeps.searchRows_singleton {ν : Type} (content : ν → String) (updatedAt : ν → Int)
    (x : ν) (query : String) (n : Int) :
    (deps.searchRows content updatedAt (fun _ => true) [x] query n).map
        (fun hit => (content hit.1, hit.2)) =
      deps.searchRows (fun text => text) (fun _ => 0) (fun _ => true) [content x] query n := by
  unfold MemoryDeps.searchRows
  split
  · by_cases hlike : Database.textLike ("%" ++ query ++ "%") (content x) = true
    · simp [hlike, Sql.limit_map, Sql.orderDesc]
    · simp [hlike, Sql.limit_map, Sql.orderDesc]
  · split
    · rfl
    · rw [Sql.limit_map, List.map_filterMap]
      congr 1
      refine List.filterMap_congr fun p _ => ?_
      cases p.1 <;> simp

/-- A short query is looked up with `LIKE`, which finds the empty text everywhere. -/
theorem MemoryDeps.finds_of_min (h : 0 < deps.ftsMinQueryChars) : deps.Finds := by
  refine ⟨"", "", ?_⟩
  have hshort : ((("" : String).length : Nat) : Int) < deps.ftsMinQueryChars := by simpa using h
  rw [MemoryDeps.searchRows, if_pos hshort]
  decide

/-- A search that finds nothing has not matched the only fact. -/
theorem Database.search_only_fact {id query : String} {row : FactRow} {now : Int}
    (hfacts : db.facts.items = [(id, row)])
    (hnil : (db.search deps query none 10 none now).1 = []) :
    deps.searchRows (fun text => text) (fun _ => 0) (fun _ => true) [row.content] query 10 = [] := by
  have htake : ((db.searchFacts deps query 10) ++
      (db.searchProcedures deps query 10 now).1).take 10 = [] := hnil
  have happend := (List.take_eq_nil_iff.mp htake).resolve_left (by decide)
  have hfound := (List.append_eq_nil_iff.mp happend).1
  rw [Database.searchFacts, List.map_eq_nil_iff, hfacts] at hfound
  rw [← MemoryDeps.searchRows_singleton (fun p : String × FactRow => p.2.content)
    (fun p => p.2.updatedAt) (id, row), hfound]
  rfl

/-- A key finds what another key has stored in their common file. -/
theorem exists_found_of_shared {k k' dbName query content : String}
    (hfile : deps.fileOf k = some dbName) (hfile' : deps.fileOf k' = some dbName)
    (hhit : deps.searchRows (fun text => text) (fun _ => 0) (fun _ => true) [content] query 10 ≠ []) :
    ∃ stored found, found ∈ ((runFrom (SqliteMemoryBackend.step deps) {} [(k, .store stored)]).perform
      deps k' (.search query none 10 none 0)).1.foundEntries := by
  let stored : MemoryEntry :=
    { id := "e", layer := .l2, type := "", content := content, createdAt := 0, updatedAt := 0 }
  let row : FactRow :=
    { sessionKey := k, type := "", content := content, sourceSessionId := none, createdAt := 0
      updatedAt := 0 }
  let db : Database V := Database.storeFact {} k stored
  have hb : ({} : SqliteMemoryBackend V).Connected deps := SqliteMemoryBackend.start_connected
  obtain ⟨-, hfiles, hconn⟩ := SqliteMemoryBackend.perform_some (.store stored) hb hfile
  have hdb : (SqliteMemoryBackend.perform deps {} k (.store stored)).2.files dbName = db := by
    rw [hfiles, Function.update_self]
    rfl
  have hreply := (SqliteMemoryBackend.perform_some (.search query none 10 none 0) hconn hfile').1
  have hfound : (db.search deps query none 10 none 0).1 ≠ [] := by
    intro hnil
    have hfacts : db.facts.items = [("e", row)] := rfl
    have hmiss := Database.search_only_fact hfacts hnil
    exact hhit hmiss
  obtain ⟨found, hmem⟩ := List.exists_mem_of_ne_nil _ hfound
  refine ⟨stored, found, ?_⟩
  change found ∈ ((SqliteMemoryBackend.perform deps {} k (.store stored)).2.perform deps k'
    (.search query none 10 none 0)).1.foundEntries
  rw [hreply, hdb]
  exact hmem

theorem separated_of_isolated {K : Set String} (hfinds : deps.Finds) (h : Isolated deps K) :
    Partition.SeparatedOn deps.fileOf K := by
  intro k hk k' hk' dbName hfile hfile'
  obtain ⟨query, content, hhit⟩ := hfinds
  obtain ⟨stored, found, hfound⟩ := exists_found_of_shared hfile hfile' hhit
  have hops : ∀ op ∈ [(k, MemoryRequest.store stored)], op.1 ∈ K := by
    intro op hop
    rw [List.mem_singleton.mp hop]
    exact hk
  obtain ⟨_, hmem, -⟩ := (h [(k, .store stored)] k' _ hops hk').1 found hfound
  exact (congrArg Prod.fst (List.mem_singleton.mp hmem)).symm

/-- A set of session keys is isolated exactly when no two of them share a database file. -/
theorem isolated_iff (hfinds : deps.Finds) (K : Set String) :
    Isolated deps K ↔ Partition.SeparatedOn deps.fileOf K :=
  ⟨separated_of_isolated hfinds, isolated_of_separated⟩

/-- Keys of channels share a file exactly when the sanitizer makes them one text. -/
theorem separatedOn_channels {K : Set String} (hK : ∀ key ∈ K, ChannelKey key)
    (hspace : ∀ c, deps.py.isSpace c = true → c.isAlpha = false)
    (hopen : ∀ key ∈ K, ∃ dbName, deps.fileOf key = some dbName) :
    Partition.SeparatedOn deps.fileOf K ↔
      ∀ k ∈ K, ∀ k' ∈ K, stage2 (stage1 k) = stage2 (stage1 k') → k = k' := by
  have hname : ∀ k ∈ K, deps.fileOf k = filenameFor deps.py deps.sha256Hex k := by
    intro k hk
    obtain ⟨dbName, hfile⟩ := hopen k hk
    rw [hfile, (Option.filter_eq_some_iff.mp hfile).1]
  constructor
  · intro hsep k hk k' hk' htext
    obtain ⟨dbName, hfile⟩ := hopen k hk
    refine hsep k hk k' hk' dbName hfile ?_
    rw [hname k' hk', ← (filenameFor_channel_eq_iff (hK k hk) (hK k' hk') hspace).mpr htext,
      ← hname k hk, hfile]
  · intro htext k hk k' hk' dbName hfile hfile'
    have hsame : filenameFor deps.py deps.sha256Hex k = filenameFor deps.py deps.sha256Hex k' := by
      rw [← hname k hk, ← hname k' hk', hfile, hfile']
    exact htext k hk k' hk' ((filenameFor_channel_eq_iff (hK k hk) (hK k' hk') hspace).mp hsame)

end

/-! ## Sample keys -/

def sampleMemoryDeps : MemoryDeps Unit where
  py := .ascii
  sha256Hex _ := ""
  resolvesInside _ := true
  opens _ := true
  buildSafeMatchQuery _ := none
  ftsMatch _ _ := []
  embedding := none
  vecLoads := false
  nearest _ _ _ := []

theorem isolated_iff_two_users :
    Isolated sampleMemoryDeps {"web:alice:c1", "web:bob:c1"} ↔
      Partition.SeparatedOn sampleMemoryDeps.fileOf {"web:alice:c1", "web:bob:c1"} :=
  isolated_iff (MemoryDeps.finds_of_min (by decide)) _

/-- The conversation `y` of the user `alice_x` and the conversation `x_y` of the user `alice`. -/
def collidingKeys : Set String := fun key =>
  (ChannelRequest.web "alice" "x_y").sessionKey = some key ∨
    (ChannelRequest.web "alice_x" "y").sessionKey = some key

/-- Two users of the web channel share `web_alice_x_y.db`. -/
theorem colliding_keys_not_isolated :
    (∀ key ∈ collidingKeys, ChannelKey key) ∧ ¬ Isolated sampleMemoryDeps collidingKeys := by
  constructor
  · rintro key (h | h)
    · exact ⟨_, h⟩
    · exact ⟨_, h⟩
  · intro h
    let secret : MemoryEntry :=
      { id := "f1", layer := .l2, type := "fact", content := "pin 1234", createdAt := 0
        updatedAt := 0 }
    have hfound := (h [("web:alice_x:y", .store secret)] "web:alice:x_y" (.search "1" none 10 none 0)
      (by intro op hop; rw [List.mem_singleton.mp hop]; exact .inr (by decide)) (.inl (by decide))).1
    obtain ⟨_, hmem, -⟩ := hfound secret (by decide +kernel)
    have : ("web:alice:x_y" : String) = "web:alice_x:y" :=
      congrArg Prod.fst (List.mem_singleton.mp hmem)
    exact absurd this (by decide)

end PyClaw
