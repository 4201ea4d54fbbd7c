import Mathlib.Logic.Function.Basic
import PyClaw.Lib.Machine
import PyClaw.Skills.Provider

/-!
# Skills.Sharing

One provider under the runs of all workspaces: what `skill_view` answers in a run, compared with what
that run's own prompt lists.

* `prompt_lists`: the prompt of a run is the index of its own workspace's skills.
* `cache_run`: the cache holds the skills of the latest prompt, of whatever run.
* `ownBodies_iff`: a history of prompts and lookups answers every lookup from the run's own workspace
  exactly when each is made while the latest prompt agrees with the run's own on that name.
-/

namespace PyClaw

/-- What the runs do with the provider. A run without a workspace path builds its prompt without
asking it. -/
inductive SkillEvent where
  | promptBuilt (run : Nat) (workspace : Option SkillSources)
  | viewed (run : Nat) (callId name : String)

structure SkillRuns where
  provider : DefaultSkillProvider := {}
  /-- `skills_prompt_str` of a run. -/
  prompt : Nat → Option String := fun _ => none
  /-- The skills that the prompt of a run lists. -/
  listed : Nat → List Skill := fun _ => []

def findSkill (skills : List Skill) (name : String) : Option Skill :=
  skills.find? fun s => s.name = name.toList

/-- The answer of `skill_view` in a run whose prompt lists `own`, as the prompt promises it. -/
def ownAnswer (own : List Skill) (callId name : String) : ToolResult :=
  match findSkill own name with
  | some skill => skillText callId (String.ofList skill.body)
  | none => skillNotFound callId name

/-- Under this name `latest` has the body that `own` has, and one that is not empty; or neither has
one. -/
def AgreesOn (latest own : List Skill) (name : String) : Prop :=
  match findSkill own name with
  | some skill => skill.body ≠ [] ∧ (findSkill latest name).map (·.body) = some skill.body
  | none => ∀ skill ∈ findSkill latest name, skill.body = []

section
variable (settings : SkillSettings) (host : Host)

/-- The skills that a prompt for the workspace lists; none where the discovery raises. -/
def eligibleSkills (sources : SkillSources) : List Skill :=
  match discoverSkills settings sources with
  | .ok allSkills => filterEligible host allSkills
  | .error _ => []

def SkillRuns.step (s : SkillRuns) : SkillEvent → SkillRuns
  | .promptBuilt run none =>
    { s with prompt := Function.update s.prompt run none, listed := Function.update s.listed run [] }
  | .promptBuilt run (some sources) =>
    let resolved := s.provider.resolveSkillsPrompt settings host sources
    { provider := resolved.2
      prompt := Function.update s.prompt run resolved.1
      listed := Function.update s.listed run (eligibleSkills settings host sources) }
  | .viewed _ _ _ => s

def SkillRuns.after (events : List SkillEvent) : SkillRuns :=
  runFrom (SkillRuns.step settings host) {} events

def latestStep (latest : List Skill) : SkillEvent → List Skill
  | .promptBuilt _ (some sources) =>
    match discoverSkills settings sources with
    | .ok allSkills => filterEligible host allSkills
    | .error _ => latest
  | _ => latest

/-- The skills of the latest prompt, of whatever run, whose discovery did not raise. -/
def latestSkills (events : List SkillEvent) : List Skill :=
  runFrom (latestStep settings host) [] events

/-- Every lookup is answered from the run's own workspace. -/
def OwnBodies (events : List SkillEvent) : Prop :=
  ∀ before run callId name rest, events = before ++ .viewed run callId name :: rest →
    skillView (SkillRuns.after settings host before).provider callId name =
      ownAnswer ((SkillRuns.after settings host before).listed run) callId name

/-- Every lookup is made while the latest prompt agrees with the run's own on the name. -/
def LatestAgrees (events : List SkillEvent) : Prop :=
  ∀ before run callId name rest, events = before ++ .viewed run callId name :: rest →
    AgreesOn (latestSkills settings host before) ((SkillRuns.after settings host before).listed run)
      name

end

/-! ## The cache -/

section
variable {settings : SkillSettings} {host : Host}

/-- Of the prompts only what they list is kept. -/
theorem prompt_lists (events : List SkillEvent) (run : Nat) :
    (SkillRuns.after settings host events).prompt run =
      if ((SkillRuns.after settings host events).listed run).isEmpty then none
      else some (formatSkillsIndex ((SkillRuns.after settings host events).listed run)) := by
  refine runFrom_invariant (I := fun s : SkillRuns => ∀ run, s.prompt run =
    if (s.listed run).isEmpty then none else some (formatSkillsIndex (s.listed run))) ?_ ?_ run
  · intro s e hs run'
    cases e with
    | viewed run callId name => exact hs run'
    | promptBuilt run workspace =>
      by_cases hrun : run' = run
      · subst hrun
        cases workspace with
        | none => simp [SkillRuns.step]
        | some sources =>
          simp only [SkillRuns.step, Function.update_self, eligibleSkills,
            DefaultSkillProvider.resolveSkillsPrompt]
          cases discoverSkills settings sources with
          | error e => simp
          | ok allSkills => simp
      · cases workspace with
        | none => simpa [SkillRuns.step, hrun] using hs run'
        | some sources => simpa [SkillRuns.step, hrun] using hs run'
  · intro run
    rfl

theorem cache_run {s : SkillRuns} {latest : List Skill}
    (h : s.provider.skillsCache = mergeSkills Dict.empty latest) (events : List SkillEvent) :
    (runFrom (SkillRuns.step settings host) s events).provider.skillsCache =
      mergeSkills Dict.empty (runFrom (latestStep settings host) latest events) := by
  induction events generalizing s latest with
  | nil => exact h
  | cons e rest ih =>
    refine ih ?_
    cases e with
    | viewed run callId name => exact h
    | promptBuilt run workspace =>
      cases workspace with
      | none => exact h
      | some sources =>
        simp only [SkillRuns.step, latestStep, DefaultSkillProvider.resolveSkillsPrompt]
        cases discoverSkills settings sources with
        | error e => exact h
        | ok allSkills => rfl

theorem names_nodup_eligible {allSkills : List Skill} {sources : SkillSources}
    (h : discoverSkills settings sources = .ok allSkills) :
    ((filterEligible host allSkills).map (·.name)).Nodup :=
  (discoverSkills_names_nodup h).sublist (List.filter_sublist.map _)

theorem latestSkills_names_nodup (events : List SkillEvent) :
    ((latestSkills settings host events).map (·.name)).Nodup := by
  refine runFrom_invariant (I := fun l : List Skill => (l.map (·.name)).Nodup) ?_ ?_
  · intro latest e hl
    unfold latestStep
    split
    · split
      · exact names_nodup_eligible ‹_›
      · exact hl
    · exact hl
  · exact List.nodup_nil

/-- The lookup of `skill_view` is one in the latest prompt. -/
theorem getSkillDetail_after (events : List SkillEvent) (name : String) :
    (SkillRuns.after settings host events).provider.getSkillDetail name =
      (findSkill (latestSkills settings host events) name).map fun s => String.ofList s.body := by
  have hcache : (SkillRuns.after settings host events).provider.skillsCache =
      mergeSkills Dict.empty (latestSkills settings host events) := cache_run rfl events
  rw [DefaultSkillProvider.getSkillDetail, hcache,
    get?_mergeSkills (latestSkills_names_nodup events), findSkill]

end

/-- Lookups change nothing. -/
theorem runFrom_viewed {σ : Type} {step : σ → SkillEvent → σ} {s : σ}
    (hstep : ∀ run callId name, step s (.viewed run callId name) = s) {events : List SkillEvent}
    (h : ∀ e ∈ events, ∃ run callId name, e = .viewed run callId name) : runFrom step s events = s := by
  induction events with
  | nil => rfl
  | cons e rest ih =>
    obtain ⟨run, callId, name, rfl⟩ := h e List.mem_cons_self
    rw [runFrom, hstep]
    exact ih fun e he => h e (List.mem_cons_of_mem _ he)

/-- Until another prompt is built, the latest prompt is the run's own. -/
theorem latest_eq_listed {before lookups : List SkillEvent} {run : Nat} {sources : SkillSources}
    {allSkills : List Skill} (hfound : discoverSkills settings sources = .ok allSkills)
    (h : ∀ e ∈ lookups, ∃ run callId name, e = .viewed run callId name) :
    latestSkills settings host (before ++ .promptBuilt run (some sources) :: lookups) =
      (SkillRuns.after settings host (before ++ .promptBuilt run (some sources) :: lookups)).listed
        run := by
  rw [latestSkills, SkillRuns.after, runFrom_append, runFrom_append, runFrom, runFrom,
    runFrom_viewed (fun _ _ _ => rfl) h, runFrom_viewed (fun _ _ _ => rfl) h]
  simp [latestStep, SkillRuns.step, eligibleSkills, hfound]

/-! ## Answers -/

theorem agreesOn_self {own : List Skill} (h : ∀ s ∈ own, s.body ≠ []) (name : String) :
    AgreesOn own own name := by
  unfold AgreesOn
  cases hfind : findSkill own name with
  | none => simp
  | some skill => exact ⟨h skill (List.mem_of_find?_eq_some hfind), rfl⟩

theorem skillText_inj {callId a b : String} : skillText callId a = skillText callId b ↔ a = b := by
  simp [skillText]

theorem skillText_ne_notFound (callId text name : String) :
    skillText callId text ≠ skillNotFound callId name := by
  simp [skillText, skillNotFound]

theorem skillView_eq_own_iff {provider : DefaultSkillProvider} {latest own : List Skill}
    {callId name : String}
    (h : provider.getSkillDetail name = (findSkill latest name).map fun s => String.ofList s.body) :
    skillView provider callId name = ownAnswer own callId name ↔ AgreesOn latest own name := by
  rw [skillView, ownAnswer, AgreesOn, h]
  cases findSkill latest name with
  | none =>
    cases findSkill own name with
    | none => simp
    | some skill => simp [(skillText_ne_notFound _ _ _).symm]
  | some found =>
    by_cases hempty : found.body = []
    · cases findSkill own name with
      | none => simp [hempty]
      | some skill => simp [hempty, (skillText_ne_notFound _ _ _).symm]
    · cases findSkill own name with
      | none => simp [hempty, skillText_ne_notFound]
      | some skill =>
        simp only [Option.map_some, String.ofList_eq_empty_iff, hempty, if_false, skillText_inj,
          String.ofList_inj, Option.some.injEq]
        constructor
        · rintro h
          exact ⟨h ▸ hempty, h⟩
        · exact And.right

/-- **Whose bodies `skill_view` returns.** -/
theorem ownBodies_iff (settings : SkillSettings) (host : Host) (events : List SkillEvent) :
    OwnBodies settings host events ↔ LatestAgrees settings host events := by
  unfold OwnBodies LatestAgrees
  constructor
  · intro h before run callId name rest he
    exact (skillView_eq_own_iff (getSkillDetail_after before name)).mp (h before run callId name rest he)
  · intro h before run callId name rest he
    exact (skillView_eq_own_iff (getSkillDetail_after before name)).mpr (h before run callId name rest he)

/-! ## Two workspaces with a skill of one name -/

def anyHost : Host where
  platform := "linux"
  which := fun _ => true
  environ := fun _ => true

def deploySkill (body : String) : Skill where
  name := "deploy".toList
  description := "Deploys the app.".toList
  body := body.toList
  autoGenerated := false
  lifecycle := "active".toList
  generatedAt := none
  sourceSession := none

def workspaceWith (skill : Skill) : SkillSources where
  workspace := .entries [{
    name := String.ofList skill.name
    isDir := true
    skillMd := some { size := some 64, contained := true, parsed := .ok skill } }]

/-- Run 0 looks up its skill after run 1 has built its prompt. -/
theorem otherWorkspace_body : ¬ ∀ settings host events, OwnBodies settings host events := by
  intro h
  have hview := h {} anyHost
    [.promptBuilt 0 (some (workspaceWith (deploySkill "Run make."))),
      .promptBuilt 1 (some (workspaceWith (deploySkill "Run rm."))), .viewed 0 "c1" "deploy"]
    [.promptBuilt 0 (some (workspaceWith (deploySkill "Run make."))),
      .promptBuilt 1 (some (workspaceWith (deploySkill "Run rm.")))] 0 "c1" "deploy" [] rfl
  revert hview
  decide +kernel

end PyClaw
