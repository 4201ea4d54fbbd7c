import Mathlib.Data.List.Basic

/-!
# Sandbox.Settings

The settings that `SrtPolicy` writes for a sandboxed process, merged from the defaults, the overrides of
the user's profile and the configuration of an MCP server. `neverWeakens_iff`: no layer loses what it
denies exactly when the other two layers deny all that the server's configuration does.
-/

namespace PyClaw

structure SandboxFilesystemConfig where
  allowWrite : List String := []
  denyRead : List String := []
  denyWrite : List String := []
  deriving DecidableEq, Repr

structure SandboxNetworkConfig where
  allowedDomains : List String := []
  deniedDomains : List String := ["169.254.169.254"]
  deriving DecidableEq, Repr

structure SandboxSettings where
  defaultFilesystem : SandboxFilesystemConfig := {}
  defaultNetwork : SandboxNetworkConfig := {}
  defaultEnvAllowlist : List String := []
  deriving DecidableEq, Repr

/-- The `filesystem` of an override; a missing key is none. -/
structure FilesystemOverrides where
  allowWrite : Option (List String) := none
  denyRead : Option (List String) := none
  denyWrite : Option (List String) := none
  deriving DecidableEq, Repr

structure NetworkOverrides where
  allowedDomains : Option (List String) := none
  deniedDomains : Option (List String) := none
  deriving DecidableEq, Repr

/-- `sandbox_overrides` of a profile, or the `sandbox_config` of an MCP server. -/
structure SandboxOverrides where
  filesystem : Option FilesystemOverrides := none
  network : Option NetworkOverrides := none
  deriving DecidableEq, Repr

/-- The generated `srt-settings.json`. -/
structure SrtSettings where
  filesystem : SandboxFilesystemConfig
  network : SandboxNetworkConfig
  env : List String
  deriving DecidableEq, Repr

/-! ## The merge -/

/-- `for entry in entries: if entry not in merged: merged.append(entry)`. -/
def addMissing (merged entries : List String) : List String :=
  entries.foldl (fun acc entry => if entry ∈ acc then acc else acc ++ [entry]) merged

/-- The same loop where `*` is passed over. -/
def addDomains (merged entries : List String) : List String :=
  entries.foldl (fun acc entry => if entry ≠ "*" ∧ entry ∉ acc then acc ++ [entry] else acc) merged

def defaultDenyDomains : List String := ["169.254.169.254"]

/-- What is merged before the two optional layers. -/
def baseSettings (settings : SandboxSettings) : SrtSettings where
  filesystem := settings.defaultFilesystem
  network :=
    { allowedDomains := settings.defaultNetwork.allowedDomains.filter (· ≠ "*")
      deniedDomains := addMissing settings.defaultNetwork.deniedDomains defaultDenyDomains }
  env := settings.defaultEnvAllowlist

/-- The overrides of the profile extend every list. -/
def mergeProfile (cfg : SrtSettings) (overrides : SandboxOverrides) : SrtSettings :=
  let fsOver := overrides.filesystem.getD {}
  let netOver := overrides.network.getD {}
  { cfg with
    filesystem :=
      { allowWrite := addMissing cfg.filesystem.allowWrite (fsOver.allowWrite.getD [])
        denyRead := addMissing cfg.filesystem.denyRead (fsOver.denyRead.getD [])
        denyWrite := addMissing cfg.filesystem.denyWrite (fsOver.denyWrite.getD []) }
    network :=
      { allowedDomains := addDomains cfg.network.allowedDomains (netOver.allowedDomains.getD [])
        deniedDomains := addMissing cfg.network.deniedDomains (netOver.deniedDomains.getD []) } }

/-- The configuration of an MCP server extends only what is allowed. -/
def mergeServer (cfg : SrtSettings) (config : SandboxOverrides) : SrtSettings :=
  let fsOver := config.filesystem.getD {}
  let netOver := config.network.getD {}
  { cfg with
    filesystem :=
      { cfg.filesystem with
        allowWrite := addMissing cfg.filesystem.allowWrite (fsOver.allowWrite.getD []) }
    network :=
      { cfg.network with
        allowedDomains := addDomains cfg.network.allowedDomains (netOver.allowedDomains.getD []) } }

/-- `_build_settings_dict`; a layer is none where it is no dictionary. -/
def buildSettingsDict (settings : SandboxSettings) (overrides sandboxConfig : Option SandboxOverrides) :
    SrtSettings :=
  let cfg := baseSettings settings
  let cfg := (overrides.map (mergeProfile cfg)).getD cfg
  (sandboxConfig.map (mergeServer cfg)).getD cfg

section
variable {merged entries : List String} {entry : String}

@[simp] theorem mem_addMissing : entry ∈ addMissing merged entries ↔ entry ∈ merged ∨ entry ∈ entries := by
  unfold addMissing
  induction entries generalizing merged with
  | nil => simp
  | cons e rest ih =>
    rw [List.foldl_cons, ih, List.mem_cons]
    by_cases he : e ∈ merged
    · rw [if_pos he]
      constructor
      · exact Or.imp_right .inr
      · rintro (h | rfl | h)
        · exact .inl h
        · exact .inl he
        · exact .inr h
    · rw [if_neg he, List.mem_append, List.mem_singleton, or_assoc]

@[simp] theorem mem_addDomains :
    entry ∈ addDomains merged entries ↔ entry ∈ merged ∨ entry ∈ entries ∧ entry ≠ "*" := by
  unfold addDomains
  induction entries generalizing merged with
  | nil => simp
  | cons e rest ih =>
    rw [List.foldl_cons, ih, List.mem_cons]
    by_cases he : e ≠ "*" ∧ e ∉ merged
    · rw [if_pos he, List.mem_append, List.mem_singleton]
      constructor
      · rintro ((h | rfl) | ⟨h, hstar⟩)
        · exact .inl h
        · exact .inr ⟨.inl rfl, he.1⟩
        · exact .inr ⟨.inr h, hstar⟩
      · rintro (h | ⟨rfl | h, hstar⟩)
        · exact .inl (.inl h)
        · exact .inl (.inr rfl)
        · exact .inr ⟨h, hstar⟩
    · rw [if_neg he]
      constructor
      · rintro (h | ⟨h, hstar⟩)
        · exact .inl h
        · exact .inr ⟨.inr h, hstar⟩
      · rintro (h | ⟨rfl | h, hstar⟩)
        · exact .inl h
        · -- an entry that is not `*` was passed over because it was there
          by_contra hnot
          exact he ⟨hstar, fun hmem => hnot (.inl hmem)⟩
        · exact .inr ⟨h, hstar⟩

end

/-! ## Layers -/

/-- What a layer denies and allows. -/
structure SandboxLayer where
  allowWrite : List String
  denyRead : List String
  denyWrite : List String
  allowedDomains : List String
  deniedDomains : List String

def SandboxSettings.layer (settings : SandboxSettings) : SandboxLayer where
  allowWrite := settings.defaultFilesystem.allowWrite
  denyRead := settings.defaultFilesystem.denyRead
  denyWrite := settings.defaultFilesystem.denyWrite
  allowedDomains := settings.defaultNetwork.allowedDomains
  deniedDomains := settings.defaultNetwork.deniedDomains

/-- An absent layer denies nothing and allows nothing. -/
def overridesLayer (overrides : Option SandboxOverrides) : SandboxLayer :=
  let fsOver := (overrides.bind SandboxOverrides.filesystem).getD {}
  let netOver := (overrides.bind SandboxOverrides.network).getD {}
  { allowWrite := fsOver.allowWrite.getD []
    denyRead := fsOver.denyRead.getD []
    denyWrite := fsOver.denyWrite.getD []
    allowedDomains := netOver.allowedDomains.getD []
    deniedDomains := netOver.deniedDomains.getD [] }

/-- The settings keep what each of the layers denies, deny the metadata address, allow no bare wildcard
and allow nothing that no layer allows. -/
structure NeverWeakens (layers : List SandboxLayer) (cfg : SrtSettings) : Prop where
  denyRead : ∀ l ∈ layers, l.denyRead ⊆ cfg.filesystem.denyRead
  denyWrite : ∀ l ∈ layers, l.denyWrite ⊆ cfg.filesystem.denyWrite
  deniedDomains : ∀ l ∈ layers, l.deniedDomains ⊆ cfg.network.deniedDomains
  metadata : "169.254.169.254" ∈ cfg.network.deniedDomains
  noWildcard : "*" ∉ cfg.network.allowedDomains
  allowWrite : ∀ entry ∈ cfg.filesystem.allowWrite, ∃ l ∈ layers, entry ∈ l.allowWrite
  allowedDomains : ∀ entry ∈ cfg.network.allowedDomains, ∃ l ∈ layers, entry ∈ l.allowedDomains

/-- The defaults or the profile deny all that the configuration of the server denies. -/
structure DeniedAlready (settings : SandboxSettings) (overrides sandboxConfig : Option SandboxOverrides) :
    Prop where
  denyRead : ∀ entry ∈ (overridesLayer sandboxConfig).denyRead,
    entry ∈ settings.layer.denyRead ∨ entry ∈ (overridesLayer overrides).denyRead
  denyWrite : ∀ entry ∈ (overridesLayer sandboxConfig).denyWrite,
    entry ∈ settings.layer.denyWrite ∨ entry ∈ (overridesLayer overrides).denyWrite
  deniedDomains : ∀ entry ∈ (overridesLayer sandboxConfig).deniedDomains,
    entry ∈ settings.layer.deniedDomains ∨ entry = "169.254.169.254" ∨
      entry ∈ (overridesLayer overrides).deniedDomains

section
variable (settings : SandboxSettings) (overrides sandboxConfig : Option SandboxOverrides) {entry : String}

/-- An absent layer merges like an empty one. -/
theorem buildSettingsDict_eq : buildSettingsDict settings overrides sandboxConfig =
    mergeServer (mergeProfile (baseSettings settings) (overrides.getD {})) (sandboxConfig.getD {}) := by
  have hprofile : (overrides.map (mergeProfile (baseSettings settings))).getD (baseSettings settings) =
      mergeProfile (baseSettings settings) (overrides.getD {}) := by
    cases overrides <;> rfl
  simp only [buildSettingsDict, hprofile]
  cases sandboxConfig <;> rfl

theorem overridesLayer_eq : overridesLayer overrides = overridesLayer (some (overrides.getD {})) := by
  cases overrides <;> rfl

theorem mem_allowWrite : entry ∈ (buildSettingsDict settings overrides sandboxConfig).filesystem.allowWrite ↔
    entry ∈ settings.layer.allowWrite ∨ entry ∈ (overridesLayer overrides).allowWrite ∨
      entry ∈ (overridesLayer sandboxConfig).allowWrite := by
  rw [buildSettingsDict_eq, overridesLayer_eq overrides, overridesLayer_eq sandboxConfig]
  simp only [mergeServer, mergeProfile, mem_addMissing, or_assoc]
  rfl

theorem mem_denyRead : entry ∈ (buildSettingsDict settings overrides sandboxConfig).filesystem.denyRead ↔
    entry ∈ settings.layer.denyRead ∨ entry ∈ (overridesLayer overrides).denyRead := by
  rw [buildSettingsDict_eq, overridesLayer_eq overrides]
  exact mem_addMissing

theorem mem_denyWrite : entry ∈ (buildSettingsDict settings overrides sandboxConfig).filesystem.denyWrite ↔
    entry ∈ settings.layer.denyWrite ∨ entry ∈ (overridesLayer overrides).denyWrite := by
  rw [buildSettingsDict_eq, overridesLayer_eq overrides]
  exact mem_addMissing

theorem mem_allowedDomains :
    entry ∈ (buildSettingsDict settings overrides sandboxConfig).network.allowedDomains ↔
      entry ≠ "*" ∧ (entry ∈ settings.layer.allowedDomains ∨
        entry ∈ (overridesLayer overrides).allowedDomains ∨
        entry ∈ (overridesLayer sandboxConfig).allowedDomains) := by
  rw [buildSettingsDict_eq, overridesLayer_eq overrides, overridesLayer_eq sandboxConfig]
  simp only [mergeServer, mergeProfile, baseSettings, mem_addDomains, List.mem_filter,
    decide_eq_true_eq, and_or_left, or_assoc, and_comm]
  rfl

theorem mem_deniedDomains :
    entry ∈ (buildSettingsDict settings overrides sandboxConfig).network.deniedDomains ↔
      entry ∈ settings.layer.deniedDomains ∨ entry = "169.254.169.254" ∨
        entry ∈ (overridesLayer overrides).deniedDomains := by
  rw [buildSettingsDict_eq, overridesLayer_eq overrides]
  simp only [mergeServer, mergeProfile, baseSettings, mem_addMissing, defaultDenyDomains,
    List.mem_singleton, or_assoc]
  rfl

/-- The merge never weakens a layer exactly when the defaults and the profile deny already what the
configuration of the server denies. -/
theorem neverWeakens_iff :
    NeverWeakens [settings.layer, overridesLayer overrides, overridesLayer sandboxConfig]
        (buildSettingsDict settings overrides sandboxConfig) ↔
      DeniedAlready settings overrides sandboxConfig := by
  constructor
  · intro h
    constructor
    · intro entry hentry
      exact (mem_denyRead settings overrides sandboxConfig).mp (h.denyRead _ (by simp) hentry)
    · intro entry hentry
      exact (mem_denyWrite settings overrides sandboxConfig).mp (h.denyWrite _ (by simp) hentry)
    · intro entry hentry
      exact (mem_deniedDomains settings overrides sandboxConfig).mp
        (h.deniedDomains _ (by simp) hentry)
  · intro h
    constructor
    · simp only [List.forall_mem_cons, List.subset_def, mem_denyRead]
      exact ⟨.inl, .inr, fun hentry => h.denyRead _ hentry, by simp⟩
    · simp only [List.forall_mem_cons, List.subset_def, mem_denyWrite]
      exact ⟨.inl, .inr, fun hentry => h.denyWrite _ hentry, by simp⟩
    · simp only [List.forall_mem_cons, List.subset_def, mem_deniedDomains]
      exact ⟨.inl, fun hentry => .inr (.inr hentry), fun hentry => h.deniedDomains _ hentry, by simp⟩
    · exact (mem_deniedDomains settings overrides sandboxConfig).mpr (.inr (.inl rfl))
    · intro hstar
      exact ((mem_allowedDomains settings overrides sandboxConfig).mp hstar).1 rfl
    · intro entry hentry
      simpa using (mem_allowWrite settings overrides sandboxConfig).mp hentry
    · intro entry hentry
      simpa using ((mem_allowedDomains settings overrides sandboxConfig).mp hentry).2

end

/-! ## Callers -/

/-- `wrap_bash_command`: the layers are the defaults and the profile, and neither is weakened. -/
theorem neverWeakens_bash (settings : SandboxSettings) (overrides : Option SandboxOverrides) :
    NeverWeakens [settings.layer, overridesLayer overrides, overridesLayer none]
      (buildSettingsDict settings overrides none) := by
  refine (neverWeakens_iff settings overrides none).mpr ?_
  constructor <;> intro _ h <;> cases h

/-- An MCP server that is to read no secrets. -/
def secretsDenied : SandboxOverrides where
  filesystem := some { denyRead := some ["~/.ssh"] }

theorem secretsDenied_weakened :
    ¬ ∀ settings overrides sandboxConfig,
      NeverWeakens [settings.layer, overridesLayer overrides, overridesLayer sandboxConfig]
        (buildSettingsDict settings overrides sandboxConfig) := by
  intro h
  have hdeny := (h {} none (some secretsDenied)).denyRead (overridesLayer (some secretsDenied)) (by simp)
  have hmem : "~/.ssh" ∈ (buildSettingsDict {} none (some secretsDenied)).filesystem.denyRead :=
    hdeny (by decide)
  revert hmem
  decide

end PyClaw
