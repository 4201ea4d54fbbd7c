import Mathlib.Data.List.Dedup
import PyClaw.Lib.FileCalls
import PyClaw.Lib.Text
import PyClaw.Models.Agent
import PyClaw.Tools.Workspace

/-!
# Skills.Installer

`install_skill`: a skill from ClawHub, unpacked into a temporary directory and copied to the directory of its slug.

* `unpack_within`: unpacking changes nothing outside of the temporary directory.
* `unpack_refines`: what the host refuses does not change what is unpacked.
-/

namespace PyClaw

open Prog FileSystem FileJob

/-! ## The service and the host -/

/-- What `ZipFile` says of the entry with a name, the last one if there are several. -/
structure ZipInfo where
  fileSize : Nat
  content : Except Fault (List UInt8)

structure ZipFile where
  namelist : List (List Char)
  getinfo : List Char → ZipInfo

structure ClawHubDetail where
  latestVersion : String
  sha256hash : Option String

structure InstallHost where
  cwd : Place
  /-- The directory that `tempfile.mkdtemp` makes. -/
  tmp : Place
  getDetail : String → Except Fault ClawHubDetail
  download : String → String → Except Fault (List UInt8)
  hexdigest : List UInt8 → String
  lower : String → String
  zipFile : List UInt8 → Except Fault ZipFile
  /-- `json.loads` of a text in UTF-8. -/
  loads : List UInt8 → Option Json
  dumps : Json → List UInt8
  /-- `int(time.time() * 1000)`. -/
  now : Int

/-- A step that the host can refuse. -/
inductive InstallStep where
  | makeTemp
  | extract (entry : List Char)
  | clearDest
  | removeDest
  | makeDest
  | copy
  | makeOrigin
  | openOrigin
  | writeOrigin
  | makeLock
  | readLock
  | openLock
  | writeLock
  | cleanUp
  deriving DecidableEq

/-! ## Fetching -/

namespace InstallHost

variable (host : InstallHost)

def start (p : PurePath) : Place := if p.root = .relative then host.cwd else []

/-- `_verify_integrity`. -/
def verifyIntegrity (zipBytes : List UInt8) : Option String → Except Fault Unit
  | none => .ok ()
  | some expectedHash =>
    let actual := host.hexdigest zipBytes
    if host.lower actual ≠ host.lower expectedHash then
      .error (.raised ("Hash mismatch: expected " ++ expectedHash ++ ", got " ++ actual))
    else .ok ()

/-- The version to install, and its archive. -/
def fetch (slug : String) (version : Option String) : Except Fault (String × List UInt8) := do
  let detail ← host.getDetail slug
  let version := version.getD detail.latestVersion
  let zipBytes ← host.download slug version
  host.verifyIntegrity zipBytes detail.sha256hash
  return (version, zipBytes)

/-! ## Unpacking -/

/-- `target_dir / entry`. -/
def entryPath (entry : List Char) : PurePath := (⟨.slash, host.tmp⟩ : PurePath).join (.parse entry)

/-- `_validate_zip_entry`. -/
def validateZipEntry (fs : FileSystem) (entry : List Char) : Except Fault Bool :=
  if (PurePath.parse entry).parts.contains ['.', '.'] then .ok false
  else
    match fs.realpath [] (host.entryPath entry).tail with
    | some resolved => .ok (host.tmp.isPrefixOf resolved)
    | none => .error (.raised "cannot resolve")

def maxArchiveBytes : Nat := 256000000
def maxExtractedBytes : Nat := 512000000
def maxEntries : Nat := 50000

def extractEntry (refuses : InstallStep → Bool) (zf : ZipFile) (entry : List Char) : FileJob Unit :=
  let dest := host.entryPath entry
  andThen (permit (refuses (.extract entry))) fun _ =>
    if entry.getLast? = some '/' then mkdirParents [] dest.tail
    else
      andThen (mkdirParents [] dest.parent.tail) fun _ =>
        andThen (ofExcept (zf.getinfo entry).content) fun content =>
          writeBytes false false [] dest.tail content

/-- The loop of `_extract_zip`. -/
def extractEntries (refuses : InstallStep → Bool) (zf : ZipFile) : Nat → List (List Char) → FileJob Unit
  | _, [] => ret ()
  | totalExtracted, entry :: rest =>
    andThen get fun fs =>
      andThen (ofExcept (host.validateZipEntry fs entry)) fun valid =>
        if valid then
          let totalExtracted := totalExtracted + (zf.getinfo entry).fileSize
          if maxExtractedBytes < totalExtracted then
            raise (.raised ("Extracted size exceeds limit " ++ toString maxExtractedBytes))
          else
            andThen (host.extractEntry refuses zf entry) fun _ =>
              extractEntries refuses zf totalExtracted rest
        else raise (.raised ("Zip-slip detected for entry: " ++ String.ofList entry))

/-- `_extract_zip`; it gives the names, which tell what there is to list. -/
def extractZip (refuses : InstallStep → Bool) (zipBytes : List UInt8) : FileJob (List (List Char)) :=
  if maxArchiveBytes < zipBytes.length then
    raise (.raised ("Archive size " ++ toString zipBytes.length ++ " exceeds limit " ++ toString maxArchiveBytes))
  else
    andThen (ofExcept (host.zipFile zipBytes)) fun zf =>
      if maxEntries < zf.namelist.length then
        raise (.raised ("Too many entries (" ++ toString zf.namelist.length ++ "), limit is " ++
          toString maxEntries))
      else andThen (host.extractEntries refuses zf 0 zf.namelist) fun _ => ret zf.namelist

def skillMd : List Char := "SKILL.md".toList

/-- The names in `extract_dir`: each stands there for an entry. -/
def iterdir (fs : FileSystem) (names : List (List Char)) : List (List Char) :=
  ((names.filterMap fun entry => (fs.realpath [] (host.entryPath entry).tail).bind fun place =>
    (place.drop host.tmp.length).head?).filter (ProperName ·)).dedup

/-- `_resolve_root`. -/
def resolveRoot (names : List (List Char)) : FileJob Place :=
  andThen get fun fs =>
    if fs.pathExists [] (host.tmp ++ ["package".toList, skillMd]) then ret (host.tmp ++ ["package".toList])
    else if fs.pathExists [] (host.tmp ++ [skillMd]) then ret host.tmp
    else
      match (host.iterdir fs names).filter fun name =>
          fs.isDir [] (host.tmp ++ [name]) && fs.pathExists [] (host.tmp ++ [name, skillMd]) with
      | [name] => ret (host.tmp ++ [name])
      | _ => raise (.raised "No SKILL.md found in archive")

def unpack (refuses : InstallStep → Bool) (zipBytes : List UInt8) : FileJob Place :=
  andThen (host.extractZip refuses zipBytes) host.resolveRoot

/-! ## Installing -/

def clawhub : List Char := ".clawhub".toList

def originJson : List Char := "origin.json".toList

/-- `write_origin_json`. -/
def writeOriginJson (refuses : InstallStep → Bool) (skillDir : PurePath) (slug version : String) : FileJob Unit :=
  let origin : Json := .obj [("version", .num "1"), ("registry", .str "https://clawhub.ai"),
    ("slug", .str slug), ("installedVersion", .str version), ("installedAt", .num (toString host.now))]
  andThen (permit (refuses .makeOrigin)) fun _ =>
    andThen (mkdirParents (host.start skillDir) (skillDir.tail ++ [clawhub])) fun _ =>
      writeBytes (refuses .openOrigin) (refuses .writeOrigin) (host.start skillDir)
        (skillDir.tail ++ [clawhub, originJson]) (host.dumps origin)

def setField (fields : List (String × Json)) (key : String) (value : Json) : List (String × Json) :=
  if fields.any (·.1 = key) then fields.map fun f => if f.1 = key then (key, value) else f
  else fields ++ [(key, value)]

/-- `data["skills"][slug] = {...}`; `none` where it raises. -/
def lockUpdated (slug version : String) : Json → Option Json
  | .obj fields =>
    match fields.lookup "skills" with
    | some (.obj skills) => some (.obj (setField fields "skills" (.obj (setField skills slug
        (.obj [("version", .str version), ("installedAt", .num (toString host.now))])))))
    | _ => none
  | _ => none

def lockTail (workspace : PurePath) : List (List Char) := workspace.tail ++ [clawhub, "lock.json".toList]

/-- What `update_lock_json` reads, if there is a lock file. -/
def readLock (refuses : InstallStep → Bool) (workspace : PurePath) : FileJob Json :=
  andThen get fun fs =>
    if fs.pathExists (host.start workspace) (lockTail workspace) then
      andThen (readBytes (refuses .readLock) (host.start workspace) (lockTail workspace)) fun content =>
        match host.loads content with
        | some data => ret data
        | none => raise (.raised "no JSON")
    else ret (.obj [("version", .num "1"), ("skills", .obj [])])

/-- `update_lock_json`. -/
def updateLockJson (refuses : InstallStep → Bool) (workspace : PurePath) (slug version : String) :
    FileJob Unit :=
  andThen (permit (refuses .makeLock)) fun _ =>
    andThen (mkdirParents (host.start workspace) (workspace.tail ++ [clawhub])) fun _ =>
      andThen (host.readLock refuses workspace) fun data =>
        match host.lockUpdated slug version data with
        | some updated => writeBytes (refuses .openLock) (refuses .writeLock) (host.start workspace)
            (lockTail workspace) (host.dumps updated)
        | none => raise (.raised "no skills")

/-- `install_dir / slug`. -/
def destPath (installDir : PurePath) (slug : String) : PurePath := installDir.join (.parse slug.toList)

/-- What `install_skill` does with the unpacked skill. -/
def place (refuses : InstallStep → Bool) (installDir : PurePath) (slug version : String) (root : Place) :
    FileJob PurePath :=
  let dest := destPath installDir slug
  andThen get fun fs =>
    andThen
      (if fs.pathExists (host.start dest) dest.tail then
        rmtree (refuses .clearDest) (refuses .removeDest) (host.start dest) dest.tail
      else ret ())
      fun _ =>
        andThen (copytree (refuses .makeDest) (refuses .copy) root (host.start dest) dest.tail) fun _ =>
          andThen (host.writeOriginJson refuses dest slug version) fun _ =>
            andThen (host.updateLockJson refuses installDir.parent slug version) fun _ => ret dest

/-- `shutil.rmtree(tmp_dir, ignore_errors=True)`. -/
def cleanUp (refuses : InstallStep → Bool) : FileJob Unit :=
  attempt (andThen (permit (refuses .cleanUp)) fun _ => modify (·.remove host.tmp))

def installSkill (refuses : InstallStep → Bool) (slug : String) (version : Option String) (installDir : PurePath) :
    FileJob PurePath :=
  andThen (ofExcept (host.fetch slug version)) fun fetched =>
    andThen (permit (refuses .makeTemp)) fun _ =>
      andThen (modify (·.put host.tmp .dir)) fun _ =>
        tryFinally
          (andThen (host.unpack refuses fetched.2) fun root =>
            host.place refuses installDir slug fetched.1 root)
          (host.cleanUp refuses)

end InstallHost

/-! ## The temporary directory -/

theorem PurePath.parse_pathParts (text : List Char) : PathParts (PurePath.parse text).tail := by
  intro part hpart
  simp only [PurePath.parse, List.mem_filter, decide_eq_true_eq] at hpart
  exact ⟨hpart.2.1, hpart.2.2, not_mem_of_mem_splitOn hpart.1⟩

theorem PurePath.join_pathParts {p q : PurePath} (hp : PathParts p.tail) (hq : PathParts q.tail) :
    PathParts (p.join q).tail := by
  rw [PurePath.join]
  split
  · intro part hpart
    rcases List.mem_append.mp hpart with h | h
    · exact hp part h
    · exact hq part h
  · exact hq

namespace InstallHost

section Unpack
variable {host : InstallHost} {fs s : FileSystem} {entry : List Char} {refuses : InstallStep → Bool}

theorem tmp_proper (h : s.entry host.tmp = some .dir) : ∀ part ∈ host.tmp, ProperName part :=
  fun _ => proper_of_mem (by rw [h]; simp)

/-- An entry that passes the check is extracted into the directory. -/
theorem leadsInto_of_valid (hs : Within host.tmp fs s) (h : host.validateZipEntry s entry = .ok true) :
    LeadsInto host.tmp fs (host.entryPath entry).tail := by
  rw [validateZipEntry] at h
  split at h
  · cases h
  · rename_i hdots
    split at h
    · rename_i resolved hreal
      have htmp := tmp_proper hs.top_dir
      have hentry : ['.', '.'] ∉ (PurePath.parse entry).tail :=
        fun hmem => hdots (List.contains_iff_mem.mpr (List.mem_append_right _ hmem))
      refine ⟨PurePath.join_pathParts ?_ (PurePath.parse_pathParts entry), ?_, resolved, ?_, ?_⟩
      · intro part hpart
        obtain ⟨hempty, hdot, -, hslash, -⟩ := htmp part hpart
        exact ⟨hempty, hdot, hslash⟩
      · rw [entryPath, PurePath.join]
        split
        · rw [List.mem_append, not_or]
          exact ⟨fun hmem => (htmp _ hmem).2.2.1 rfl, hentry⟩
        · exact hentry
      · rw [← hs.links.realpath, hreal]
      · simpa using h
    · cases h

theorem extractEntry_within (h : LeadsInto host.tmp fs (host.entryPath entry).tail) (zf : ZipFile) :
    Preserves (fun _ s => Within host.tmp fs s) (host.extractEntry refuses zf entry) := by
  refine Triple.andThen ((permit_spec _ _).conseq (fun _ _ => id) (fun _ _ _ hs => hs.1)
    fun _ _ _ hs => hs.1) fun _ => ?_
  refine Triple.ite (fun _ => mkdirParents_within h (List.prefix_refl _)) fun _ => ?_
  refine Triple.andThen (mkdirParents_within h (List.dropLast_prefix _)) fun _ => ?_
  exact Triple.andThen Preserves.ofExcept fun content => writeBytes_within h false false content

theorem extractEntries_within (zf : ZipFile) (total : Nat) (entries : List (List Char)) :
    Preserves (fun _ s => Within host.tmp fs s) (host.extractEntries refuses zf total entries) := by
  induction entries generalizing total with
  | nil => exact Preserves.pure
  | cons entry rest ih =>
    refine Triple.getBind fun s₀ => ?_
    refine Triple.andThen (Q := fun valid _ s => Within host.tmp fs s ∧
      (valid = true → LeadsInto host.tmp fs (host.entryPath entry).tail)) ?_ fun valid => ?_
    · refine Triple.ofExcept (fun valid hvalid _ s hs => ⟨hs.1, fun htrue => ?_⟩) fun _ _ _ _ hs => hs.1
      rw [htrue, ← hs.2] at hvalid
      exact leadsInto_of_valid hs.1 hvalid
    · refine Triple.ite (fun htrue => ?_) fun _ => Triple.raise fun _ _ hs => hs.1
      refine Triple.ite (fun _ => Triple.raise fun _ _ hs => hs.1) fun _ => ?_
      intro l s hs
      exact Triple.andThen (extractEntry_within (hs.2 htrue) zf) (fun _ => ih _) l s hs.1

/-- Unpacking changes nothing outside of the temporary directory. -/
theorem extractZip_within (zipBytes : List UInt8) :
    Preserves (fun _ s => Within host.tmp fs s) (host.extractZip refuses zipBytes) := by
  refine Triple.ite (fun _ => Preserves.raise) fun _ => ?_
  refine Triple.andThen Preserves.ofExcept fun zf => ?_
  refine Triple.ite (fun _ => Preserves.raise) fun _ => ?_
  exact Triple.andThen (extractEntries_within zf 0 _) fun _ => Preserves.pure

/-- The root of the skill is the directory or one in it. -/
structure IsRoot (host : InstallHost) (s : FileSystem) (root : Place) : Prop where
  below : ∃ rest, root = host.tmp ++ rest ∧ ∀ name ∈ rest, ProperName name
  dir : ∃ place, s.stat [] root = .entry place .dir

theorem isRoot_of_skillMd {rest : List (List Char)} (hrest : ∀ name ∈ rest, ProperName name)
    (h : s.pathExists [] (host.tmp ++ rest ++ [skillMd]) = true) : IsRoot host s (host.tmp ++ rest) := by
  obtain ⟨place, e, hstat⟩ := stat_of_pathExists h
  exact ⟨⟨rest, rfl, hrest⟩, stat_init hstat⟩

theorem resolveRoot_spec (names : List (List Char)) :
    Triple (fun _ s => s = fs) (host.resolveRoot names) (fun root _ s => s = fs ∧ IsRoot host fs root)
      (fun _ _ s => s = fs) := by
  refine get_spec ?_
  split
  · rename_i h
    have hroot : IsRoot host fs (host.tmp ++ ["package".toList]) :=
      isRoot_of_skillMd (by decide) (by simpa using h)
    exact Triple.ret fun _ _ hs => ⟨hs, hroot⟩
  · split
    · rename_i h
      refine Triple.ret fun _ _ hs => ⟨hs, ?_⟩
      have hroot : IsRoot host fs (host.tmp ++ []) := isRoot_of_skillMd (by simp) (by simpa using h)
      rwa [List.append_nil] at hroot
    · split
      · rename_i name hname
        have hmem : name ∈ (host.iterdir fs names).filter fun name =>
            fs.isDir [] (host.tmp ++ [name]) && fs.pathExists [] (host.tmp ++ [name, skillMd]) := by
          rw [hname]
          exact List.mem_singleton_self name
        rw [List.mem_filter, Bool.and_eq_true, iterdir, List.mem_dedup, List.mem_filter] at hmem
        refine Triple.ret fun _ _ hs => ⟨hs, ⟨[name], rfl, by simpa using hmem.1.2⟩, ?_⟩
        exact stat_of_isDir hmem.2.1
      · exact Triple.raise fun _ _ hs => hs

theorem unpack_within (refuses : InstallStep → Bool) (zipBytes : List UInt8) :
    Triple (fun _ s => Within host.tmp fs s) (host.unpack refuses zipBytes)
      (fun root _ s => Within host.tmp fs s ∧ IsRoot host s root) (fun _ _ s => Within host.tmp fs s) := by
  refine Triple.andThen (extractZip_within zipBytes) fun names l s hs => ?_
  refine ((resolveRoot_spec names).conseq (fun _ _ => id) ?_ ?_) l s rfl
  · rintro root _ s' ⟨rfl, hroot⟩
    exact ⟨hs, hroot⟩
  · rintro _ _ s' rfl
    exact hs

theorem unpack_refines (refuses : InstallStep → Bool) (zipBytes : List UInt8) :
    Refines (host.unpack refuses zipBytes) (host.unpack (fun _ => false) zipBytes) := by
  have hentry : ∀ zf entry, Refines (host.extractEntry refuses zf entry)
      (host.extractEntry (fun _ => false) zf entry) :=
    fun zf entry => (refines_permit _).andThen fun _ => Refines.refl _
  have hentries : ∀ zf total entries, Refines (host.extractEntries refuses zf total entries)
      (host.extractEntries (fun _ => false) zf total entries) := by
    intro zf total entries
    induction entries generalizing total with
    | nil => exact Refines.refl _
    | cons entry rest ih =>
      refine (Refines.refl _).andThen fun s₀ => (Refines.refl _).andThen fun valid => ?_
      split
      · dsimp only
        split
        · exact Refines.refl _
        · exact (hentry zf entry).andThen fun _ => ih _
      · exact Refines.refl _
  refine Refines.andThen ?_ fun _ => Refines.refl _
  unfold extractZip
  split
  · exact Refines.refl _
  · refine (Refines.refl _).andThen fun zf => ?_
    split
    · exact Refines.refl _
    · exact (hentries zf 0 _).andThen fun _ => Refines.refl _

end Unpack

end InstallHost

end PyClaw
