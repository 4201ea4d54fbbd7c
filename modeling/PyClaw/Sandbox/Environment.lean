import PyClaw.Lib.Dict

/-!
# Sandbox.Environment

The environment of a spawned process (`build_clean_env`, `_resolve_spawn_env`). `childEnv_get?` says
which variables it has: those that are not denied and are asked for, with their values in the parent; or,
where neither a sandbox nor an allowlist is configured, all of the parent's.
-/

namespace PyClaw

def defaultAllowlist : List String := ["PATH", "HOME", "LANG", "TERM"]

def hardcodedDenyPrefixes : List String := ["ANTHROPIC_", "PYCLAW_", "LITELLM_"]

def hardcodedDenyNames : List String :=
  ["ANTHROPIC_API_KEY", "PYCLAW_SECRET", "PYCLAW_LLM_API_KEY", "AWS_ACCESS_KEY_ID",
    "AWS_SECRET_ACCESS_KEY", "AWS_SESSION_TOKEN", "OPENAI_API_KEY", "LITELLM_PROXY", "LITELLM_LOG",
    "SSH_AUTH_SOCK", "SSH_AGENT_PID", "GITHUB_TOKEN", "GH_TOKEN", "KUBECONFIG", "KUBE_TOKEN",
    "LD_PRELOAD", "LD_LIBRARY_PATH", "LD_AUDIT", "DYLD_INSERT_LIBRARIES", "DYLD_LIBRARY_PATH",
    "DYLD_FALLBACK_LIBRARY_PATH"]

def isHardcodedDeny (name : String) : Bool :=
  hardcodedDenyNames.contains name ||
    hardcodedDenyPrefixes.any fun lead => lead.toList.isPrefixOf name.toList

/-- A turn of the loops: `if name in source and not _is_hardcoded_deny(name)`. -/
def copyVariable (source env : Dict String String) (name : String) : Dict String String :=
  match source.get? name with
  | none => env
  | some value => if isHardcodedDeny name then env else env.set name value

/-- `build_clean_env`; `source` is the parent's environment. -/
def buildCleanEnv (allowlist : List String) (source : Dict String String) : Dict String String :=
  let env := defaultAllowlist.foldl (copyVariable source) Dict.empty
  if "*" ∈ allowlist then source.keys.foldl (copyVariable source) env
  else allowlist.foldl (copyVariable source) env

/-- `_resolve_spawn_env`: `none` lets the process inherit the parent's. -/
def resolveSpawnEnv (sandboxed : Bool) (userAllowlist : Option (List String))
    (source : Dict String String) : Option (Dict String String) :=
  if sandboxed = false ∧ userAllowlist = none then none
  else some (buildCleanEnv (userAllowlist.getD []) source)

/-- What the process sees. -/
def childEnv (sandboxed : Bool) (userAllowlist : Option (List String)) (source : Dict String String) :
    Dict String String :=
  (resolveSpawnEnv sandboxed userAllowlist source).getD source

/-! ## Which variables it has -/

section
variable {source env : Dict String String} {allowlist : List String} {k : String}

theorem get?_copyVariable (source env : Dict String String) (name : String) (k : String) :
    (copyVariable source env name).get? k =
      if k = name ∧ isHardcodedDeny k = false ∧ k ∈ source.keys then source.get? k else env.get? k := by
  unfold copyVariable
  cases hget : source.get? name with
  | none =>
    have hkeys : name ∉ source.keys := Dict.get?_eq_none.mp hget
    rw [if_neg]
    rintro ⟨rfl, -, hk⟩
    exact hkeys hk
  | some value =>
    have hkeys : name ∈ source.keys := Dict.mem_keys_of_get? hget
    cases hdeny : isHardcodedDeny name with
    | true =>
      rw [if_neg]
      · rfl
      · rintro ⟨rfl, hk, -⟩
        rw [hdeny] at hk
        cases hk
    | false =>
      by_cases hk : k = name
      · subst hk
        simp [hdeny, hkeys, hget]
      · simp [Dict.get?_set_ne env value (Ne.symm hk), hk]

theorem get?_foldl_copyVariable (names : List String) (env : Dict String String) :
    (names.foldl (copyVariable source) env).get? k =
      if k ∈ names ∧ isHardcodedDeny k = false ∧ k ∈ source.keys then source.get? k
      else env.get? k := by
  induction names generalizing env with
  | nil => simp
  | cons name names ih =>
    rw [List.foldl_cons, ih, get?_copyVariable]
    by_cases hk : k = name
    · subst hk
      by_cases hin : isHardcodedDeny k = false ∧ k ∈ source.keys
      · simp [hin]
      · simp [hin]
    · simp [hk]

/-- A variable that is not denied, and asked for. -/
def Admitted (allowlist : List String) (k : String) : Prop :=
  isHardcodedDeny k = false ∧ (k ∈ defaultAllowlist ∨ "*" ∈ allowlist ∨ k ∈ allowlist)

instance (allowlist : List String) (k : String) : Decidable (Admitted allowlist k) :=
  inferInstanceAs (Decidable (_ ∧ _))

theorem buildCleanEnv_get? :
    (buildCleanEnv allowlist source).get? k =
      if Admitted allowlist k then source.get? k else none := by
  have hnone : k ∉ source.keys → source.get? k = none := Dict.get?_eq_none.mpr
  have hempty : (Dict.empty : Dict String String).get? k = none := rfl
  unfold buildCleanEnv Admitted
  by_cases hstar : "*" ∈ allowlist
  · rw [if_pos hstar, get?_foldl_copyVariable, get?_foldl_copyVariable, hempty]
    by_cases hk : k ∈ source.keys
    · by_cases hdeny : isHardcodedDeny k = false <;> simp [hk, hstar, hdeny]
    · simp [hk, hnone hk]
  · rw [if_neg hstar, get?_foldl_copyVariable, get?_foldl_copyVariable, hempty]
    by_cases hk : k ∈ source.keys
    · by_cases hdeny : isHardcodedDeny k = false <;> by_cases hl : k ∈ allowlist <;>
        simp [hk, hl, hstar, hdeny]
    · simp [hk, hnone hk]

theorem childEnv_get? (sandboxed : Bool) (userAllowlist : Option (List String))
    (source : Dict String String) (k : String) :
    (childEnv sandboxed userAllowlist source).get? k =
      if (sandboxed = false ∧ userAllowlist = none) ∨ Admitted (userAllowlist.getD []) k then
        source.get? k
      else none := by
  unfold childEnv resolveSpawnEnv
  by_cases hpass : sandboxed = false ∧ userAllowlist = none
  · simp [hpass]
  · rw [if_neg hpass, Option.getD_some, buildCleanEnv_get?]
    simp [hpass]

end

end PyClaw
