import Mathlib.Data.Char
import Mathlib.Data.List.Lex
import Mathlib.Data.List.Sort
import PyClaw.Curator.SkillFile
import PyClaw.Lib.Dict
import PyClaw.Lib.Machine
import PyClaw.Models.Agent

/-!
# Skills.Provider

`DefaultSkillProvider` (`skills/provider.py`) with the discovery under it (`discovery.py`,
`eligibility.py`), the index of `prompt.py`, and `SkillViewTool`. A run's prompt is built from its
workspace at the start of the run; `skill_view` looks names up later, in the one cache that all runs
share.

The tool exists only under progressive disclosure, where the prompt is the index of all eligible
skills.

* `discoverSkills_names_nodup`: no two discovered skills have the same name.
-/

namespace PyClaw

/-! ## Skills -/

structure SkillRequirements where
  bins : List String := []
  anyBins : List String := []
  env : List String := []
  os : List String := []

/-- `SkillManifest`, with what `metadata` gives. -/
structure Skill extends SkillManifest where
  filePath : String := ""
  requirements : SkillRequirements := {}
  always : Bool := false
  disableModelInvocation : Bool := false

/-- What the checks of `eligibility.py` ask the host. -/
structure Host where
  platform : String
  /-- `shutil.which(b) is not None`. -/
  which : String → Bool
  /-- `os.environ.get(e)`, as a truth value. -/
  environ : String → Bool

/-- `check_os`, `check_bins` and `check_env`: an empty list asks for nothing. -/
def checkAll (p : String → Bool) (xs : List String) : Bool := xs.all p

def checkOs (host : Host) (osList : List String) : Bool :=
  osList.isEmpty || osList.contains host.platform

def checkAnyBins (host : Host) (anyBins : List String) : Bool :=
  anyBins.isEmpty || anyBins.any host.which

/-- `is_eligible`; `always` skips all checks but that of the platform. -/
def isEligible (host : Host) (skill : Skill) : Bool :=
  let reqs := skill.requirements
  if !checkOs host reqs.os then false
  else if skill.always then true
  else checkAll host.which reqs.bins && checkAnyBins host reqs.anyBins &&
    checkAll host.environ reqs.env

/-- `filter_eligible`. -/
def filterEligible (host : Host) (skills : List Skill) : List Skill :=
  skills.filter fun s => isEligible host s && !s.disableModelInvocation

/-! ## Discovery -/

/-- What `parse_skill_file` raises: a `SkillParseError`, or something that nothing catches before
the provider does, as a `UnicodeDecodeError` or a `ValidationError`. -/
inductive ParseFailure where
  | skillParseError
  | other
  deriving DecidableEq

/-- A `SKILL.md` that exists. -/
structure SkillMd where
  /-- `none` where `stat` fails. -/
  size : Option Nat
  /-- `_validate_path_containment`. -/
  contained : Bool
  parsed : Except ParseFailure Skill

/-- An entry of a skills directory. -/
structure DirEntry where
  name : String
  isDir : Bool
  skillMd : Option SkillMd

/-- A directory of skills: absent, or with its entries, or one that cannot be listed. -/
inductive SkillsDir where
  | absent
  | unreadable
  | entries (es : List DirEntry)

structure SkillSettings where
  maxSkillFileBytes : Nat := 256000
  maxCandidatesPerRoot : Nat := 300
  maxSkillsLoadedPerSource : Nat := 200

/-- `_is_valid_skill_dir`. -/
def isValidSkillDir (name : String) : Bool :=
  !name.toList.head?.any (· = '.') && name ≠ "node_modules"

/-- The loop of `_scan_directory`, with the skills found so far. -/
def scanEntries (settings : SkillSettings) : List Skill → List DirEntry → Except Unit (List Skill)
  | results, [] => .ok results
  | results, e :: rest =>
    if settings.maxSkillsLoadedPerSource ≤ results.length then .ok results
    else
      match e.skillMd with
      | none => scanEntries settings results rest
      | some file =>
        match file.size with
        | none => scanEntries settings results rest
        | some size =>
          if settings.maxSkillFileBytes < size then scanEntries settings results rest
          else if !file.contained then scanEntries settings results rest
          else
            match file.parsed with
            | .ok manifest => scanEntries settings (results ++ [manifest]) rest
            | .error .skillParseError => scanEntries settings results rest
            | .error .other => .error ()

/-- `_scan_directory`. -/
def scanDirectory (settings : SkillSettings) : SkillsDir → Except Unit (List Skill)
  | .absent | .unreadable => .ok []
  | .entries es =>
    let dirs := (es.filter DirEntry.isDir).insertionSort fun a b => a.name ≤ b.name
    let valid := dirs.filter fun e => isValidSkillDir e.name
    scanEntries settings [] (valid.take settings.maxCandidatesPerRoot)

/-- The five directories of a workspace, in the order in which later ones win. -/
structure SkillSources where
  bundled : SkillsDir := .absent
  personalAgents : SkillsDir := .absent
  managed : SkillsDir := .absent
  projectAgents : SkillsDir := .absent
  workspace : SkillsDir := .absent

def SkillSources.inOrder (sources : SkillSources) : List SkillsDir :=
  [sources.bundled, sources.personalAgents, sources.managed, sources.projectAgents,
    sources.workspace]

/-- `for skill in skills: merged[skill.name] = skill`. -/
def mergeSkills (merged : Dict (List Char) Skill) (skills : List Skill) : Dict (List Char) Skill :=
  skills.foldl (fun merged s => merged.set s.name s) merged

def mergeSources (settings : SkillSettings) :
    Dict (List Char) Skill → List SkillsDir → Except Unit (Dict (List Char) Skill)
  | merged, [] => .ok merged
  | merged, dir :: rest =>
    match scanDirectory settings dir with
    | .ok skills => mergeSources settings (mergeSkills merged skills) rest
    | .error e => .error e

/-- `discover_skills`. -/
def discoverSkills (settings : SkillSettings) (sources : SkillSources) : Except Unit (List Skill) :=
  (mergeSources settings Dict.empty sources.inOrder).map fun merged =>
    merged.values.insertionSort fun a b => a.name ≤ b.name

/-! ## The index -/

/-- `xml_escape`. -/
def xmlEscape (s : List Char) : List Char :=
  s.flatMap fun
    | '&' => "&amp;".toList
    | '<' => "&lt;".toList
    | '>' => "&gt;".toList
    | '"' => "&quot;".toList
    | '\'' => "&apos;".toList
    | c => [c]

def indexPreamble : String :=
  "\n\nThe following skills provide specialized instructions for specific tasks.\n" ++
    "If a task matches a skill below, use the `skill_view` tool to load its full instructions."

/-- `_render_skill_index`. -/
def renderSkillIndex (skill : Skill) : String :=
  String.intercalate "\n"
    ["  <skill>",
      "    <name>" ++ String.ofList (xmlEscape skill.name) ++ "</name>",
      "    <description>" ++ String.ofList (xmlEscape skill.description) ++ "</description>",
      "  </skill>"]

/-- `format_skills_index`. -/
def formatSkillsIndex (skills : List Skill) : String :=
  if skills.isEmpty then ""
  else
    String.intercalate "\n" ([indexPreamble, "", "<available_skills>"] ++
      skills.map renderSkillIndex ++ ["</available_skills>"])

/-! ## The provider and the tool -/

structure DefaultSkillProvider where
  skillsCache : Dict (List Char) Skill := Dict.empty

namespace DefaultSkillProvider

/-- `resolve_skills_prompt`. A discovery that raises leaves the cache as it was. -/
def resolveSkillsPrompt (settings : SkillSettings) (host : Host) (provider : DefaultSkillProvider)
    (sources : SkillSources) : Option String × DefaultSkillProvider :=
  match discoverSkills settings sources with
  | .error _ => (none, provider)
  | .ok allSkills =>
    let eligible := filterEligible host allSkills
    (if eligible.isEmpty then none else some (formatSkillsIndex eligible),
      { skillsCache := mergeSkills Dict.empty eligible })

/-- `get_skill_detail`. -/
def getSkillDetail (provider : DefaultSkillProvider) (name : String) : Option String :=
  (provider.skillsCache.get? name.toList).map fun skill => String.ofList skill.body

end DefaultSkillProvider

def skillText (callId text : String) : ToolResult :=
  { toolCallId := callId, content := [.text text] }

def skillNotFound (callId name : String) : ToolResult where
  toolCallId := callId
  content := [.text ("Skill '" ++ name ++ "' not found.")]
  isError := true

/-- `SkillViewTool.execute`; an empty body counts as no skill. -/
def skillView (provider : DefaultSkillProvider) (callId name : String) : ToolResult :=
  match provider.getSkillDetail name with
  | some detail => if detail = "" then skillNotFound callId name else skillText callId detail
  | none => skillNotFound callId name

/-! ## Names are distinct -/

theorem get?_mergeSkills_of_not_mem (merged : Dict (List Char) Skill) {skills : List Skill}
    {name : List Char} (h : name ∉ skills.map (·.name)) :
    (mergeSkills merged skills).get? name = merged.get? name := by
  induction skills generalizing merged with
  | nil => rfl
  | cons s rest ih =>
    simp only [List.map_cons, List.mem_cons, not_or] at h
    exact (ih _ h.2).trans (Dict.get?_set_ne _ _ (Ne.symm h.1))

/-- Where no name repeats, a name is looked up to the skill that has it. -/
theorem get?_mergeSkills {skills : List Skill} (h : (skills.map (·.name)).Nodup) (name : List Char) :
    (mergeSkills Dict.empty skills).get? name = skills.find? fun s => s.name = name := by
  suffices ∀ merged : Dict (List Char) Skill, (mergeSkills merged skills).get? name =
      (skills.find? fun s => s.name = name).or (merged.get? name) by
    rw [this]
    exact Option.or_none
  induction skills with
  | nil => exact fun merged => rfl
  | cons s rest ih =>
    intro merged
    rw [List.map_cons, List.nodup_cons] at h
    by_cases hname : s.name = name
    · have hrest := get?_mergeSkills_of_not_mem (merged.set s.name s) h.1
      subst hname
      simp only [decide_true, List.find?_cons_of_pos, Option.some_or]
      exact hrest.trans (Dict.get?_set_self _ _ _)
    · rw [List.find?_cons_of_neg (by simpa using hname)]
      exact (ih h.2 _).trans (by rw [Dict.get?_set_ne _ _ hname])

/-- Each skill is stored under its name. -/
def KeyedByName (merged : Dict (List Char) Skill) : Prop := ∀ p ∈ merged.items, p.2.name = p.1

theorem KeyedByName.mergeSkills {merged : Dict (List Char) Skill} (h : KeyedByName merged)
    (skills : List Skill) : KeyedByName (mergeSkills merged skills) := by
  induction skills generalizing merged with
  | nil => exact h
  | cons s rest ih =>
    refine ih fun p hp => ?_
    rcases Dict.mem_items_set hp with ⟨hk, hv⟩ | hp
    · rw [hk, hv]
    · exact h p hp

theorem KeyedByName.mergeSources {settings : SkillSettings} {merged merged' : Dict (List Char) Skill}
    {dirs : List SkillsDir} (h : KeyedByName merged)
    (hmerge : PyClaw.mergeSources settings merged dirs = .ok merged') : KeyedByName merged' := by
  induction dirs generalizing merged with
  | nil =>
    cases hmerge
    exact h
  | cons dir rest ih =>
    rw [PyClaw.mergeSources] at hmerge
    split at hmerge
    · exact ih (h.mergeSkills _) hmerge
    · cases hmerge

/-- No two discovered skills have the same name. -/
theorem discoverSkills_names_nodup {settings : SkillSettings} {sources : SkillSources}
    {skills : List Skill} (h : discoverSkills settings sources = .ok skills) :
    (skills.map (·.name)).Nodup := by
  unfold discoverSkills at h
  cases hmerge : mergeSources settings Dict.empty sources.inOrder with
  | error e =>
    rw [hmerge] at h
    cases h
  | ok merged =>
    rw [hmerge] at h
    cases h
    have hkeyed : KeyedByName merged :=
      KeyedByName.mergeSources (fun p hp => absurd hp List.not_mem_nil) hmerge
    have hnames : merged.values.map (·.name) = merged.keys := by
      rw [Dict.values, Dict.keys, List.map_map]
      exact List.map_congr_left hkeyed
    rw [((List.perm_insertionSort _ _).map _).nodup_iff, hnames]
    exact merged.keys_nodup

end PyClaw
