import PyClaw.Curator.Cycle
import PyClaw.Lib.Tasks
import PyClaw.Memory.Sqlite

/-!
# Curator.Operations

What happens to the memory entries of one database: storing, searching, forgetting, the scan and the
review of the curator, graduation from the command line, and the two ways of restoring. An operation
is a task of `Lib.Tasks`; one command of it is one statement of SQLite, one command of Redis, or one
skill file, so the operations interleave as separate connections do. The tasks of a session key share
one connection, and its `changes()` is about the last write of any of them. A command that writes by
id carries the rows as they were read. Times are microseconds.
-/

namespace PyClaw

def microsPerDay : Int := 86400 * 1000000

/-! ## Skill files -/

/-- `[a-z0-9]`. -/
def slugChar (c : Char) : Bool := ('a' ≤ c && c ≤ 'z') || c.isDigit

/-- `_NAME_RE`. -/
def validSkillName : List Char → Bool
  | [] => false
  | c :: rest =>
    slugChar c && rest.all (fun c => slugChar c || c = '-') && 1 ≤ rest.length && rest.length ≤ 60

/-- `parse_sop_content`: name, description and procedure. -/
def parseSopContent (py : PyText) (content : String) : Option (String × String × String) :=
  if content.toList.all py.isSpace then none
  else do
    let (first, rest) ← splitFirst ['\n'] content.toList
    let (second, third) ← splitFirst ['\n'] rest
    let name := strip py.isSpace first
    let procedure := strip py.isSpace third
    if validSkillName name = true ∧ procedure ≠ [] then
      some (String.ofList name, String.ofList (strip py.isSpace second), String.ofList procedure)
    else none

/-- The directory of a `SKILL.md`: the workspace of the session key, and the name of the skill. -/
def skillDir (sessionKey name : String) : String × String :=
  (String.ofList (replaceEach ':' ['_'] sessionKey.toList), name)

/-! ## State -/

structure LifecycleConfig (V : Type) where
  deps : MemoryDeps V
  curator : CuratorSettings := {}
  hasWorkspace : Bool := true
  l1MaxEntries : Nat := 30
  l1MaxChars : Nat := 3000

structure LifecycleState (V : Type) where
  db : Database V := {}
  /-- The L1 index, by session key. -/
  index : String → Dict String MemoryEntry := fun _ => Dict.empty
  skillFiles : List (String × String) := []
  /-- The entries whose skill file graduation has written. -/
  written : List String := []
  /-- `changes()` of the connection of a session key: the rows of its last write. -/
  changes : String → Nat := fun _ => 0
  now : Int := 0

/-- A row of `procedures` with its id, as a `SELECT` has read it. -/
abbrev SelectedRow := String × ProcedureRow

/-- Who graduates an entry, and for the paths with thresholds when the entries were selected. -/
inductive GraduationPath where
  | scan (selectedAt : Int)
  | review
  | cli (selectedAt : Int)
  | cliTarget
  deriving DecidableEq, Repr

inductive LifecycleOp where
  | store (sessionKey : String) (e : MemoryEntry)
  | search (sessionKey query : String) (limit : Int)
  | forget (sessionKey entryId reason : String)
  /-- `_scan_single_db`. -/
  | scan
  /-- `run_llm_review`. -/
  | review
  /-- `cmd_curator_graduate`. -/
  | graduate (target : Option String)
  /-- `restore_sop`. -/
  | restore (entryId : String)
  /-- `cmd_curator_restore`. -/
  | restoreMatching (entryId : String)

inductive LifecycleCommand where
  | storeRow (sessionKey : String) (e : MemoryEntry)
  | indexPut (sessionKey : String) (e : MemoryEntry)
  | indexEvict (sessionKey : String)
  | indexRemove (sessionKey entryId : String)
  | searchRows (sessionKey query : String) (limit : Int)
  | markUsed (sessionKey : String) (ids : List String)
  | resolveEntryId (sessionKey entryId reason : String)
  | archiveEntry (sessionKey entryId reason : String)
  /-- `conn.changes() > 0` after the `UPDATE` of `archive_entry`. -/
  | readChanges (sessionKey entryId : String)
  | selectStale
  | archiveStale (selectedAt : Int) (rows : List SelectedRow)
  | selectCandidates
  | selectForCli (target : Option String)
  | graduate (path : GraduationPath) (row : SelectedRow)
  | markGraduated (path : GraduationPath) (row : SelectedRow)
  | selectForReview
  | askReview (rows : List SelectedRow)
  | decide (rows : List SelectedRow) (decisions : List ReviewDecision)
  /-- The mark of a promotion, and the decisions after it. -/
  | markPromoted (row : SelectedRow) (rows : List SelectedRow) (decisions : List ReviewDecision)
  | countArchived (entryId : String)
  | restoreRow (entryId : String)
  | restoreMatching (entryId : String)

/-- What a command meets; it reads the fields that concern it. -/
structure LifecycleAnswer where
  /-- The time since the command before it. -/
  elapsed : Nat := 0
  /-- `check_alive` does not raise. -/
  alive : Bool := true
  /-- The names that `discover_skills` finds; none when it raises. -/
  discovered : Option (List String) := some []
  writesFile : Bool := true
  /-- The decisions of the model; none when the call fails. -/
  reply : Option (List ReviewDecision) := none

/-! ## Rows -/

namespace ProcedureRow

variable (row : ProcedureRow)

def archive (now : Int) (reason : Option String) : ProcedureRow :=
  { row with status := "archived", archivedAt := some now, archiveReason := reason }

def graduate : ProcedureRow := { row with status := "graduated" }

def restore : ProcedureRow :=
  { row with status := "active", archivedAt := none, archiveReason := none }

def use (now : Int) : ProcedureRow :=
  { row with useCount := row.useCount + 1, lastUsedAt := some now }

/-- `COALESCE(last_used_at, created_at)`. -/
def lastUse : Int := row.lastUsedAt.getD row.createdAt

def isAutoSop : Bool := row.type = "auto_sop" && row.status = "active"

end ProcedureRow

namespace Database

variable {V : Type} (db : Database V)

/-- `UPDATE procedures SET .. WHERE ..`. -/
def updateWhere (p : String → ProcedureRow → Bool) (f : ProcedureRow → ProcedureRow) : Database V :=
  { db with procedures := db.procedures.mapValues fun id row => if p id row then f row else row }

/-- `SELECT .. FROM procedures WHERE ..`. -/
def selectWhere (p : String → ProcedureRow → Bool) : List SelectedRow :=
  db.procedures.items.filter fun r => p r.1 r.2

end Database

namespace LifecycleConfig

variable {V : Type} (cfg : LifecycleConfig V)

/-- The `WHERE` clause of the scan. -/
def isStale (now : Int) (row : ProcedureRow) : Bool :=
  row.status = "active" && row.lastUse < now - cfg.curator.archiveAfterDays * microsPerDay

/-- The `WHERE` clause of a graduation. -/
def isCandidate (path : GraduationPath) (row : ProcedureRow) : Bool :=
  match path with
  | .scan selectedAt | .cli selectedAt =>
    row.isAutoSop && cfg.curator.promotionMinUseCount ≤ row.useCount &&
      row.createdAt ≤ selectedAt - cfg.curator.promotionMinDays * microsPerDay
  | .review | .cliTarget => row.isAutoSop

/-- What `run_llm_review` does about a decision; an id that it has not asked about is skipped. -/
inductive ReviewAction where
  | keep
  | promote (row : SelectedRow)
  | archive (row : SelectedRow)

def reviewAction (rows : List SelectedRow) (d : ReviewDecision) : ReviewAction :=
  match rows.find? fun r => r.1 = d.id with
  | none => .keep
  | some row =>
    if d.decision = "promote" ∧ "promote" ∈ cfg.curator.llmReviewActions then
      if cfg.curator.graduationEnabled then .promote row else .keep
    else if d.decision = "archive" ∧ "archive" ∈ cfg.curator.llmReviewActions then .archive row
    else .keep

end LifecycleConfig

/-! ## Commands -/

namespace LifecycleState

variable {V : Type} (cfg : LifecycleConfig V) (s : LifecycleState V)

def update (p : String → ProcedureRow → Bool) (f : ProcedureRow → ProcedureRow) :
    LifecycleState V :=
  { s with db := s.db.updateWhere p f }

def setIndex (sessionKey : String) (entries : Dict String MemoryEntry) : LifecycleState V :=
  { s with index := Function.update s.index sessionKey entries }

/-- A write of so many rows on the connection of the session key. -/
def setChanges (sessionKey : String) (count : Nat) : LifecycleState V :=
  { s with changes := Function.update s.changes sessionKey count }

/-- The L1 entry that `CompositeMemoryStore.store` makes of an entry. -/
def l1Entry (e : MemoryEntry) : MemoryEntry :=
  { e with layer := .l1, content := String.ofList (e.content.toList.take 100), score := none }

/-- The fields that `_evict` deletes, oldest first: down to the number, then to the length. -/
def evicted (entries : Dict String MemoryEntry) : List String :=
  let sorted := entries.items.mergeSort fun p q => p.2.updatedAt ≤ q.2.updatedAt
  let surplus := sorted.length - cfg.l1MaxEntries
  let kept := sorted.drop surplus
  let total := (kept.map fun p => p.2.content.length).sum
  (sorted.take surplus).map Prod.fst ++ overlong total kept
where
  overlong : Nat → List (String × MemoryEntry) → List String
    | _, [] => []
    | total, p :: rest =>
      if cfg.l1MaxChars < total then p.1 :: overlong (total - p.2.content.length) rest else []

/-- `_resolve_entry_id`: the one active entry with the id, or with the id as a prefix. -/
def resolveEntryId (entryId : String) : Option String :=
  let found := s.db.selectWhere fun id row =>
    row.status = "active" &&
      if 32 ≤ entryId.length then id = entryId else Database.textLike (entryId ++ "%") id
  match found with
  | [row] => some row.1
  | _ => none

/-- `graduate_single_sop`: the directory in which it writes a `SKILL.md`. -/
def graduateSingleSop (row : SelectedRow) (answer : LifecycleAnswer) : Option (String × String) := do
  let (name, _, _) ← parseSopContent cfg.deps.py row.2.content
  let dir := skillDir row.2.sessionKey name
  if dir ∈ s.skillFiles ∨ name ∈ answer.discovered.getD [] ∨ answer.writesFile = false then none
  else some dir

def writeSkill (row : SelectedRow) (dir : String × String) : LifecycleState V :=
  { s with skillFiles := dir :: s.skillFiles, written := row.1 :: s.written }

def markGraduated (row : SelectedRow) : LifecycleState V :=
  s.update (fun id _ => id = row.1) ProcedureRow.graduate

/-- What follows a decision of the review. -/
def decide (rows : List SelectedRow) (d : ReviewDecision) (rest : List ReviewDecision)
    (answer : LifecycleAnswer) : LifecycleState V × List LifecycleCommand :=
  match cfg.reviewAction rows d with
  | .keep => (s, [.decide rows rest])
  | .promote row =>
    match s.graduateSingleSop cfg row answer with
    | some dir => (s.writeSkill row dir, [.markPromoted row rows rest])
    | none => (s, [.decide rows rest])
  | .archive row =>
    if answer.alive then
      (s.update (fun id _ => id = row.1) fun r =>
          r.archive s.now (some ("llm_review: " ++ String.ofList (d.reason.toList.take 100))),
        [.indexRemove row.2.sessionKey row.1, .decide rows rest])
    else (s, [])

/-- Runs a command at the time of the state. -/
def run (c : LifecycleCommand) (answer : LifecycleAnswer) :
    LifecycleState V × List LifecycleCommand :=
  match c with
  | .storeRow sessionKey e =>
    match s.db.store sessionKey e with
    | .ok db => ({ s with db := db }.setChanges sessionKey 1, [.indexPut sessionKey (l1Entry e)])
    | .error _ => (s, [])
  | .indexPut sessionKey e =>
    (s.setIndex sessionKey ((s.index sessionKey).set e.id e), [.indexEvict sessionKey])
  | .indexEvict sessionKey =>
    (s, (evicted cfg (s.index sessionKey)).map (.indexRemove sessionKey))
  | .indexRemove sessionKey entryId =>
    (s.setIndex sessionKey ((s.index sessionKey).erase entryId), [])
  | .searchRows sessionKey query limit =>
    let rows := cfg.deps.searchRows (fun p => p.2.content) (fun p => p.2.updatedAt)
      (fun p => p.2.status = "active") s.db.procedures.items query limit
    (s, if rows = [] then [] else [.markUsed sessionKey (rows.map fun r => r.1.1)])
  | .markUsed sessionKey ids =>
    ((s.update (fun id _ => id ∈ ids) fun row => row.use s.now).setChanges sessionKey
      (s.db.selectWhere fun id _ => id ∈ ids).length, [])
  | .resolveEntryId sessionKey entryId reason =>
    match s.resolveEntryId entryId with
    | some id => (s, [.archiveEntry sessionKey id reason])
    | none => (s, [])
  | .archiveEntry sessionKey entryId reason =>
    let r := s.db.archiveEntry entryId reason s.now
    ({ s with db := r.2 }.setChanges sessionKey (if r.1 then 1 else 0),
      [.readChanges sessionKey entryId])
  | .readChanges sessionKey entryId =>
    (s, if 0 < s.changes sessionKey then [.indexRemove sessionKey entryId] else [])
  | .selectStale =>
    let rows := s.db.selectWhere fun _ row => cfg.isStale s.now row
    (s, if rows = [] then [.selectCandidates] else [.archiveStale s.now rows])
  | .archiveStale _ rows =>
    (s.update (fun id _ => id ∈ rows.map Prod.fst) fun row =>
        row.archive s.now
          (some ("curator:" ++ toString cfg.curator.archiveAfterDays ++ "d_unused")),
      (rows.map fun r => .indexRemove r.2.sessionKey r.1) ++ [.selectCandidates])
  | .selectCandidates =>
    let path := GraduationPath.scan s.now
    (s, if cfg.curator.graduationEnabled ∧ cfg.hasWorkspace then
        (s.db.selectWhere fun _ row => cfg.isCandidate path row).map (.graduate path)
      else [])
  | .selectForCli target =>
    match target with
    | some target =>
      (s, (s.db.selectWhere fun id row =>
        cfg.isCandidate .cliTarget row && Database.textLike (target ++ "%") id).map
          (.graduate .cliTarget))
    | none =>
      -- the command counts in whole seconds
      let path := GraduationPath.cli (s.now / 1000000 * 1000000)
      (s, (s.db.selectWhere fun _ row => cfg.isCandidate path row).map (.graduate path))
  | .graduate path row =>
    match s.graduateSingleSop cfg row answer with
    | some dir => (s.writeSkill row dir, [.markGraduated path row])
    | none => (s, [])
  | .markGraduated path row =>
    (s.markGraduated row,
      match path with
      | .scan _ | .review => [.indexRemove row.2.sessionKey row.1]
      | .cli _ | .cliTarget => [])
  | .selectForReview =>
    let rows := Sql.limit cfg.curator.llmReviewMaxBatch (Sql.orderDesc (fun r => r.2.useCount)
      (s.db.selectWhere fun _ row => cfg.isCandidate .review row))
    (s, if answer.alive = false ∨ rows = [] then [] else [.askReview rows])
  | .askReview rows =>
    match answer.reply with
    | some decisions => (s, if answer.alive then [.decide rows decisions] else [])
    | none => (s, [])
  | .decide rows decisions =>
    match decisions with
    | [] => (s, [])
    | d :: rest => s.decide cfg rows d rest answer
  | .markPromoted row rows rest =>
    if answer.alive then
      (s.markGraduated row, [.indexRemove row.2.sessionKey row.1, .decide rows rest])
    else (s, [])
  | .countArchived entryId =>
    match s.db.procedures.get? entryId with
    | some row => (s, if row.status = "archived" then [.restoreRow entryId] else [])
    | none => (s, [])
  | .restoreRow entryId => (s.update (fun id _ => id = entryId) ProcedureRow.restore, [])
  | .restoreMatching entryId =>
    (s.update (fun id row => Database.textLike (entryId ++ "%") id && row.status = "archived")
      ProcedureRow.restore, [])

/-- The time that a command finds. -/
def pass (elapsed : Nat) : LifecycleState V := { s with now := s.now + elapsed }

end LifecycleState

def lifecycleProgram : LifecycleOp → List LifecycleCommand
  | .store sessionKey e => [.storeRow sessionKey e]
  | .search sessionKey query limit => [.searchRows sessionKey query limit]
  | .forget sessionKey entryId reason => [.resolveEntryId sessionKey entryId reason]
  | .scan => [.selectStale]
  | .review => [.selectForReview]
  | .graduate target => [.selectForCli target]
  | .restore entryId => [.countArchived entryId]
  | .restoreMatching entryId => [.restoreMatching entryId]

def lifecycle {V : Type} (cfg : LifecycleConfig V) :
    TaskSystem (LifecycleState V) LifecycleOp LifecycleCommand LifecycleAnswer where
  program := lifecycleProgram
  exec s c answer := (s.pass answer.elapsed).run cfg c answer

end PyClaw
