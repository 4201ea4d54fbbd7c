import PyClaw.Lib.FileSystem
import PyClaw.Lib.Utf8

/-!
# Tools.Workspace

Workspace confinement (`core/agent/tools/workspace.py`, `_write_file` of `builtin.py`). An existing path is
resolved through its links, a missing one only by its text (`lexicalResolve`).

* `reaches_realpath`: opening a path, or creating it with its directories, reaches its real place.
* `resolveWithin_confined_iff`: when an accepted path stays in the workspace and every path into the
  workspace is accepted.
* `writeExecute_confined`: a write by the `write` tool stays in the workspace wherever its path is confined.
* `confined_of_unlinked`: so it is for a path without dot-dots and links, from the real workspace.
-/

namespace PyClaw

/-! ## Paths -/

inductive PathRoot where
  | relative
  | slash
  | doubleSlash
  deriving DecidableEq, Repr

/-- `PurePosixPath`: the root, and the parts after it without the empty ones and the dots. -/
structure PurePath where
  root : PathRoot
  tail : List (List Char)
  deriving DecidableEq, Repr

namespace PurePath

/-- `_parse_path`: exactly two slashes in front are a root of their own. -/
def parse (text : List Char) : PurePath where
  root :=
    if ['/', '/', '/'].isPrefixOf text then .slash
    else if ['/', '/'].isPrefixOf text then .doubleSlash
    else if ['/'].isPrefixOf text then .slash
    else .relative
  tail := (text.splitOn '/').filter fun part => part ≠ [] ∧ part ≠ ['.']

/-- `p / q`. -/
def join (p q : PurePath) : PurePath :=
  if q.root = .relative then { p with tail := p.tail ++ q.tail } else q

def rootText : PathRoot → List (List Char)
  | .relative => []
  | .slash => [['/']]
  | .doubleSlash => [['/', '/']]

/-- `path.parts`. -/
def parts (p : PurePath) : List (List Char) := rootText p.root ++ p.tail

/-- `Path(*parts)`. -/
def ofParts (parts : List (List Char)) : PurePath :=
  parts.foldl (fun p part => p.join (parse part)) ⟨.relative, []⟩

/-- `path.parent`. -/
def parent (p : PurePath) : PurePath := { p with tail := p.tail.dropLast }

/-- `path.relative_to(other)` does not raise. -/
def IsRelativeTo (p other : PurePath) : Prop := p.root = other.root ∧ other.tail <+: p.tail

instance (p other : PurePath) : Decidable (p.IsRelativeTo other) := inferInstanceAs (Decidable (_ ∧ _))

end PurePath

/-- One round of the loop of `_lexical_resolve`. -/
def lexicalStep (parts : List (List Char)) (part : List Char) : List (List Char) :=
  if part = ['.', '.'] then
    if parts ≠ [] ∧ parts.getLast? ≠ some ['/'] then parts.dropLast else parts ++ [part]
  else if part = ['.'] then parts
  else parts ++ [part]

/-- `_lexical_resolve`; of no parts it makes `Path(".")`, which has none. -/
def lexicalResolve (p : PurePath) : PurePath := .ofParts (p.parts.foldl lexicalStep [])

/-! ## The process and its file system -/

structure FileHost where
  fs : FileSystem
  cwd : Place
  /-- `os.path.expanduser` of a first part such as `~` or `~user`. -/
  expandHome : List Char → List Char
  cwd_dir : fs.entry cwd = some .dir

namespace FileHost

variable (host : FileHost)

def start (p : PurePath) : Place := if p.root = .relative then host.cwd else []

def stat (p : PurePath) : Reached := host.fs.stat (host.start p) p.tail

/-- `path.exists()`, which takes a dangling link, a loop and a NUL for missing. -/
def pathExists (p : PurePath) : Bool :=
  match host.stat p with
  | .entry _ _ => true
  | _ => false

def realpath (p : PurePath) : Option Place := host.fs.realpath (host.start p) p.tail

/-- `path.resolve()`; `none` where it raises. -/
def resolve (p : PurePath) : Option PurePath := (host.realpath p).map (⟨.slash, ·⟩)

/-- `path.expanduser()`; `none` where it raises. -/
def expanduser (p : PurePath) : Option PurePath :=
  match p.root, p.tail with
  | .relative, ('~' :: user) :: rest =>
    let home := host.expandHome ('~' :: user)
    if home.head? = some '~' then none
    else some { PurePath.parse home with tail := (PurePath.parse home).tail ++ rest }
  | _, _ => some p

/-- `_write_file`. -/
def writeFile (p : PurePath) (content : List UInt8) : Except Failure (FileSystem × Place) :=
  match host.fs.makeDirectories (host.start p) p.parent.tail with
  | .error why => .error why
  | .ok fs => fs.openWrite (host.start p) p.tail content

end FileHost

inductive WorkspaceError where
  /-- `path {relative!r} escapes workspace {workspace_abs}` -/
  | boundary (relative : List Char) (workspaceAbs : PurePath)
  | unresolvable
  | noHome
  deriving DecidableEq, Repr

/-- `(workspace_path / relative).expanduser()`. -/
def candidate (host : FileHost) (workspacePath : PurePath) (relative : List Char) : Option PurePath :=
  host.expanduser (workspacePath.join (.parse relative))

/-- `WorkspaceResolver.resolve_within`. -/
def resolveWithin (host : FileHost) (workspacePath : PurePath) (relative : List Char) :
    Except WorkspaceError PurePath :=
  match host.resolve workspacePath with
  | none => .error .unresolvable
  | some workspaceAbs =>
    match candidate host workspacePath relative with
    | none => .error .noHome
    | some path =>
      match if host.pathExists path then host.resolve path else some (lexicalResolve path) with
      | none => .error .unresolvable
      | some resolved =>
        if resolved.IsRelativeTo workspaceAbs then .ok resolved
        else .error (.boundary relative workspaceAbs)

/-! ## What a path reaches -/

/-- Opening `p`, or creating it with its directories, reaches `place`. -/
def FileHost.Reaches (host : FileHost) (p : PurePath) (place : Place) : Prop :=
  (∃ content, host.fs.openRead (host.start p) p.tail = .ok (place, content)) ∨
    ∃ content fs, host.writeFile p content = .ok (fs, place)

section
variable {host : FileHost} {p : PurePath} {place : Place}

theorem FileHost.start_dir : host.fs.entry (host.start p) = some .dir := by
  rw [start]
  split
  · exact host.cwd_dir
  · exact host.fs.root

theorem FileHost.reaches_realpath (h : host.Reaches p place) : host.realpath p = some place := by
  rcases h with ⟨content, h⟩ | ⟨content, fs, h⟩
  · exact FileSystem.openRead_realpath h
  · rw [writeFile] at h
    split at h
    · cases h
    · rename_i hmade
      rw [realpath, ← (FileSystem.makeDirectories_sameLinks hmade).realpath]
      exact FileSystem.openWrite_realpath h

/-- An existing path is resolved to its entry, which is its own real place. -/
theorem FileHost.resolve_of_exists (h : host.pathExists p = true) :
    ∃ place, host.realpath p = some place ∧ host.resolve p = some ⟨.slash, place⟩ ∧
      host.realpath ⟨.slash, place⟩ = some place := by
  rw [pathExists] at h
  split at h
  · rename_i place e hstat
    obtain ⟨hentry, he⟩ := FileSystem.stat_sound host.start_dir hstat
    have hreal : host.realpath p = some place := by
      apply FileSystem.realpath_of_reached
      rw [stat] at hstat
      rw [hstat, Reached.place?]
    refine ⟨place, hreal, ?_, ?_⟩
    · rw [resolve, hreal, Option.map_some]
    · rw [realpath, start, if_neg (by simp)]
      exact FileSystem.realpath_of_entry hentry he
  · cases h

end

/-! ## Confinement -/

/-- The text of a missing path and its real place agree about the workspace: the text lies below the
workspace only if no link on it leads out, and it does if the path leads there. -/
def LexicallySound (host : FileHost) (workspace : Place) (path : PurePath) : Prop :=
  ((lexicalResolve path).IsRelativeTo ⟨.slash, workspace⟩ →
    (∃ place, host.Reaches (lexicalResolve path) place) →
      ∃ place, host.realpath (lexicalResolve path) = some place ∧ workspace <+: place) ∧
  ∀ place, host.realpath path = some place → workspace <+: place →
    (lexicalResolve path).IsRelativeTo ⟨.slash, workspace⟩

/-- Accepted paths reach only places in the workspace, and paths into the workspace are accepted. -/
structure Confined (host : FileHost) (workspacePath : PurePath) (workspace : Place) (relative : List Char) :
    Prop where
  reaches : ∀ p, resolveWithin host workspacePath relative = .ok p →
    ∀ place, host.Reaches p place → workspace <+: place
  accepts : ∀ place, (candidate host workspacePath relative).bind host.realpath = some place →
    workspace <+: place → ∃ p, resolveWithin host workspacePath relative = .ok p

section
variable {host : FileHost} {workspacePath : PurePath} {workspace : Place} {relative : List Char}

theorem resolveWithin_eq (hworkspace : host.stat workspacePath = .entry workspace .dir) {path : PurePath}
    (hpath : candidate host workspacePath relative = some path) :
    resolveWithin host workspacePath relative =
      match if host.pathExists path then host.resolve path else some (lexicalResolve path) with
      | none => .error .unresolvable
      | some resolved =>
        if resolved.IsRelativeTo ⟨.slash, workspace⟩ then .ok resolved
        else .error (.boundary relative ⟨.slash, workspace⟩) := by
  have hreal : host.realpath workspacePath = some workspace := by
    apply FileSystem.realpath_of_reached
    rw [FileHost.stat] at hworkspace
    rw [hworkspace, Reached.place?]
  rw [resolveWithin, FileHost.resolve, hreal, Option.map_some]
  simp only [hpath]

theorem ok_iff_of_resolved {resolved p : PurePath} {other : PurePath} {why : WorkspaceError} :
    (if resolved.IsRelativeTo other then Except.ok resolved else .error why) = .ok p ↔
      p = resolved ∧ resolved.IsRelativeTo other := by
  split
  · rename_i h
    simp [h, eq_comm]
  · rename_i h
    simp [h]

/-- A path that cannot be formed is refused. -/
theorem confined_of_no_candidate (hpath : candidate host workspacePath relative = none) :
    Confined host workspacePath workspace relative := by
  have hfails : ∀ p, resolveWithin host workspacePath relative ≠ .ok p := by
    intro p h
    rw [resolveWithin] at h
    split at h
    · cases h
    · rw [hpath] at h
      cases h
  constructor
  · exact fun p h => absurd h (hfails p)
  · rw [hpath]
    intro place hnone
    cases hnone

/-- A path that exists is resolved to its real place. -/
theorem confined_of_exists (hworkspace : host.stat workspacePath = .entry workspace .dir) {path : PurePath}
    (hpath : candidate host workspacePath relative = some path) (hexists : host.pathExists path = true) :
    Confined host workspacePath workspace relative := by
  have heq := resolveWithin_eq hworkspace hpath
  obtain ⟨place, hreal, hresolve, hself⟩ := host.resolve_of_exists hexists
  rw [if_pos hexists, hresolve] at heq
  simp only at heq
  constructor
  · intro p hp reached hreached
    rw [heq, ok_iff_of_resolved] at hp
    obtain ⟨rfl, -, hinside⟩ := hp
    obtain rfl := Option.some.inj (hself.symm.trans (FileHost.reaches_realpath hreached))
    exact hinside
  · intro named hnamed hinside
    rw [hpath, Option.bind_some, hreal] at hnamed
    obtain rfl := Option.some.inj hnamed
    exact ⟨_, by rw [heq, ok_iff_of_resolved]; exact ⟨rfl, rfl, hinside⟩⟩

/-- A path that does not exist is resolved by its text. -/
theorem confined_iff_of_missing (hworkspace : host.stat workspacePath = .entry workspace .dir)
    {path : PurePath} (hpath : candidate host workspacePath relative = some path)
    (hexists : host.pathExists path = false) :
    Confined host workspacePath workspace relative ↔ LexicallySound host workspace path := by
  have heq := resolveWithin_eq hworkspace hpath
  rw [if_neg (by simp [hexists])] at heq
  simp only at heq
  constructor
  · rintro ⟨hreaches, haccepts⟩
    refine ⟨?_, ?_⟩
    · rintro hinside ⟨place, hplace⟩
      refine ⟨place, FileHost.reaches_realpath hplace, ?_⟩
      exact hreaches _ (by rw [heq, ok_iff_of_resolved]; exact ⟨rfl, hinside⟩) place hplace
    · intro place hreal hinside
      obtain ⟨p, hp⟩ := haccepts place (by rw [hpath, Option.bind_some, hreal]) hinside
      rw [heq, ok_iff_of_resolved] at hp
      exact hp.2
  · rintro ⟨hout, hin⟩
    constructor
    · intro p hp reached hreached
      rw [heq, ok_iff_of_resolved] at hp
      obtain ⟨rfl, hinside⟩ := hp
      obtain ⟨place, hreal, hplace⟩ := hout hinside ⟨reached, hreached⟩
      obtain rfl := Option.some.inj (hreal.symm.trans (FileHost.reaches_realpath hreached))
      exact hplace
    · intro place hnamed hplace
      rw [hpath, Option.bind_some] at hnamed
      exact ⟨_, by rw [heq, ok_iff_of_resolved]; exact ⟨rfl, hin place hnamed hplace⟩⟩

/-- A path is confined exactly if it exists, or its text and its real place agree. -/
theorem resolveWithin_confined_iff (host : FileHost) (workspacePath : PurePath) (workspace : Place)
    (relative : List Char) (hworkspace : host.stat workspacePath = .entry workspace .dir) :
    Confined host workspacePath workspace relative ↔
      ∀ path, candidate host workspacePath relative = some path →
        host.pathExists path = true ∨ LexicallySound host workspace path := by
  cases hpath : candidate host workspacePath relative with
  | none =>
    refine iff_of_true (confined_of_no_candidate hpath) ?_
    intro path hnone
    cases hnone
  | some path =>
    cases hexists : host.pathExists path with
    | true =>
      refine iff_of_true (confined_of_exists hworkspace hpath hexists) ?_
      exact fun other hother => .inl (Option.some.inj hother ▸ hexists)
    | false =>
      rw [confined_iff_of_missing hworkspace hpath hexists]
      constructor
      · intro hsound other hother
        obtain rfl := Option.some.inj hother
        exact .inr hsound
      · exact fun h => (h path rfl).resolve_left (by simp [hexists])

end

/-- A workspace `/srv/ws` with a link to `/etc` in it. -/
def linkedHost : FileHost where
  fs := .ofEntries
    [(["srv".toList], .dir), (["srv".toList, "ws".toList], .dir), (["etc".toList], .dir),
      (["srv".toList, "ws".toList, "out".toList], .link "/etc".toList)] (by decide)
  cwd := []
  expandHome := id
  cwd_dir := rfl

/-- A new file below the link is created in `/etc`. -/
theorem linkedHost_escapes :
    ¬ ∀ (host : FileHost) (workspacePath : PurePath) (workspace : Place) (relative : List Char),
      host.stat workspacePath = .entry workspace .dir →
        Confined host workspacePath workspace relative := by
  intro h
  have hconfined := h linkedHost (.parse "/srv/ws".toList) ["srv".toList, "ws".toList]
    "out/new".toList (by decide +kernel)
  have hplace : (linkedHost.writeFile (.parse "/srv/ws/out/new".toList) []).toOption.map (·.2) =
      some ["etc".toList, "new".toList] := by decide +kernel
  cases hwritten : linkedHost.writeFile (.parse "/srv/ws/out/new".toList) [] with
  | error why =>
    rw [hwritten] at hplace
    cases hplace
  | ok written =>
    rw [hwritten] at hplace
    have hinside := hconfined.reaches (.parse "/srv/ws/out/new".toList) (by decide +kernel)
      written.2 (.inr ⟨[], written.1, hwritten⟩)
    have hwhere : written.2 = ["etc".toList, "new".toList] := Option.some.inj hplace
    rw [hwhere] at hinside
    exact absurd hinside (by decide)

/-- In the same workspace a file that is not there yet is confined. -/
theorem linkedHost_confined :
    Confined linkedHost (.parse "/srv/ws".toList) ["srv".toList, "ws".toList] "new".toList := by
  refine (resolveWithin_confined_iff linkedHost (.parse "/srv/ws".toList) ["srv".toList, "ws".toList]
    "new".toList (by decide +kernel)).mpr fun path hpath => ?_
  have hnew : candidate linkedHost (.parse "/srv/ws".toList) "new".toList =
      some (.parse "/srv/ws/new".toList) := by decide +kernel
  rw [hnew] at hpath
  cases hpath
  refine .inr ⟨fun _ _ => ?_, ?_⟩
  · exact ⟨["srv".toList, "ws".toList, "new".toList], by decide +kernel, by decide⟩
  · intro _ _ _
    decide +kernel

/-! ## Paths without links -/

section
variable {part : List Char} {parts : List (List Char)}

theorem PurePath.parse_of_proper (h : ProperName part) : parse part = ⟨.relative, [part]⟩ := by
  obtain ⟨hempty, hdot, -, hslash, -⟩ := h
  have hhead : ∀ rest, ¬ (('/' :: rest).isPrefixOf part = true) := by
    intro rest hpre
    rw [List.isPrefixOf_iff_prefix] at hpre
    exact hslash (hpre.subset List.mem_cons_self)
  rw [parse, if_neg (hhead _), if_neg (hhead _), if_neg (hhead _),
    List.splitOn_eq_singleton hslash]
  simp [hempty, hdot]

theorem PurePath.ofParts_slash (h : ∀ part ∈ parts, ProperName part) :
    ofParts (['/'] :: parts) = ⟨.slash, parts⟩ := by
  have hfold : ∀ tail, parts.foldl (fun (p : PurePath) part => p.join (parse part)) ⟨.slash, tail⟩ =
      (⟨.slash, tail ++ parts⟩ : PurePath) := by
    induction parts with
    | nil => simp
    | cons part rest ih =>
      intro tail
      rw [List.foldl_cons, parse_of_proper (h part List.mem_cons_self), join, if_pos rfl,
        ih fun p hp => h p (List.mem_cons_of_mem part hp)]
      simp
  exact hfold []

theorem lexicalResolve_of_proper (h : ∀ part ∈ parts, ProperName part) :
    lexicalResolve ⟨.slash, parts⟩ = ⟨.slash, parts⟩ := by
  have hfold : ∀ done, parts.foldl lexicalStep done = done ++ parts := by
    induction parts with
    | nil => simp
    | cons part rest ih =>
      intro done
      obtain ⟨-, hdot, hup, -, -⟩ := h part List.mem_cons_self
      rw [List.foldl_cons, lexicalStep, if_neg hup, if_neg hdot,
        ih fun p hp => h p (List.mem_cons_of_mem part hp)]
      simp
  have hroot : lexicalStep [] ['/'] = [['/']] := rfl
  rw [lexicalResolve, PurePath.parts, PurePath.rootText, List.singleton_append, List.foldl_cons, hroot,
    hfold, List.singleton_append, PurePath.ofParts_slash h]

/-- Below the real workspace a path of names is confined if it meets no link. -/
theorem confined_of_unlinked {host : FileHost} {workspace : Place} {relative : List Char}
    (hworkspace : host.fs.entry workspace = some .dir)
    (hrelative : (PurePath.parse relative).root = .relative)
    (hproper : ∀ part ∈ (PurePath.parse relative).tail, ProperName part)
    (hlinks : ∀ place, place <+: workspace ++ (PurePath.parse relative).tail →
      ∀ target, host.fs.entry place ≠ some (.link target)) :
    Confined host ⟨.slash, workspace⟩ workspace relative := by
  have hall : ∀ part ∈ workspace ++ (PurePath.parse relative).tail, ProperName part := by
    intro part hpart
    rcases List.mem_append.mp hpart with hpart | hpart
    · exact FileSystem.proper_of_mem (by rw [hworkspace]; simp) hpart
    · exact hproper part hpart
  have hstat : host.stat ⟨.slash, workspace⟩ = .entry workspace .dir :=
    FileSystem.stat_of_entry hworkspace (by simp)
  rw [resolveWithin_confined_iff host _ workspace relative hstat]
  intro path hpath
  rw [candidate, PurePath.join, if_pos hrelative, FileHost.expanduser] at hpath
  obtain rfl := Option.some.inj hpath
  have hreal : host.realpath ⟨.slash, workspace ++ (PurePath.parse relative).tail⟩ =
      some (workspace ++ (PurePath.parse relative).tail) :=
    FileSystem.realpath_of_unlinked hall hlinks
  have hinside : workspace <+: workspace ++ (PurePath.parse relative).tail := List.prefix_append _ _
  refine .inr ⟨?_, ?_⟩
  · intro _ _
    rw [lexicalResolve_of_proper hall]
    exact ⟨_, hreal, hinside⟩
  · intro place _ _
    rw [lexicalResolve_of_proper hall]
    exact ⟨rfl, hinside⟩

end

/-! ## The write tool -/

inductive WriteError where
  | error (message : String)
  /-- `str(exc)` of the workspace check. -/
  | boundary (why : WorkspaceError)
  /-- `write: {exc}` -/
  | osError (why : Failure)
  /-- An exception that leaves `execute`. -/
  | raised
  deriving DecidableEq, Repr

/-- `wrote {len(content)} bytes to {raw_path}`, and the file system then. -/
structure Written where
  length : Nat
  rawPath : List Char
  fs : FileSystem

/-- `WriteTool.execute`; `none` stands for an argument that is no string. What a failed write has made on
its way is not told. -/
def writeExecute (host : FileHost) (workspacePath : PurePath) (path : Option (List Char))
    (content : Option (List Nat)) (aborted : Bool) : Except WriteError Written :=
  match path with
  | none => .error (.error "write: 'path' is required")
  | some rawPath =>
    if rawPath = [] then .error (.error "write: 'path' is required")
    else
      match content with
      | none => .error (.error "write: 'content' must be a string")
      | some text =>
        if aborted then .error (.error "write: aborted")
        else
          match resolveWithin host workspacePath rawPath with
          | .error (.boundary relative workspaceAbs) => .error (.boundary (.boundary relative workspaceAbs))
          | .error _ => .error .raised
          | .ok p =>
            -- The file is opened before its text is encoded.
            match host.writeFile p (Utf8.encodeAll text) with
            | .error .nul => .error .raised
            | .error why => .error (.osError why)
            | .ok (fs, _) =>
              if ∀ n ∈ text, Utf8.IsScalar n then .ok ⟨text.length, rawPath, fs⟩ else .error .raised

theorem writeExecute_confined {host : FileHost} {workspacePath : PurePath} {workspace : Place}
    {rawPath : List Char} {content : Option (List Nat)} {aborted : Bool} {written : Written}
    (hconfined : Confined host workspacePath workspace rawPath)
    (h : writeExecute host workspacePath (some rawPath) content aborted = .ok written) :
    ∃ p bytes place, host.writeFile p bytes = .ok (written.fs, place) ∧ workspace <+: place := by
  simp only [writeExecute] at h
  split at h
  · cases h
  · split at h
    · cases h
    · split at h
      · cases h
      · split at h
        · cases h
        · cases h
        · rename_i p hresolve
          split at h
          · cases h
          · cases h
          · rename_i fs place hwritten
            split at h
            · obtain rfl := Except.ok.inj h
              exact ⟨p, _, place, hwritten, hconfined.reaches p hresolve place (.inr ⟨_, _, hwritten⟩)⟩
            · cases h

end PyClaw
