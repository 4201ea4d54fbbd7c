import PyClaw.Skills.Installer

/-!
# Skills.InstallSteps

What an installation may change, and what each of its steps does. The host may refuse each step.

* `Sound`, `Safe`: what is claimed of an installation, and what is asked of the slug for it.
* `rmtree_harmless`, `writeOriginJson_spec`, `updateLockJson_spec`, `place_spec`: the steps, where the slug is safe.
* `sound_of_safe`: so whole installations.
-/

namespace PyClaw

open Prog FileSystem FileJob

namespace InstallHost

/-! ## What an installation may change -/

section Claims
variable (host : InstallHost) (fs : FileSystem) (installDir : PurePath) (slug : String)

/-- Where the path of the skill leads. -/
def skillPlace : Option Place :=
  fs.realpath (host.start (destPath installDir slug)) (destPath installDir slug).tail

/-- Where the path of the lock file leads. -/
def lockPlace : Option Place :=
  fs.realpath (host.start installDir.parent) (lockTail installDir.parent)

/-- The place is a directory in the install directory, or below one. -/
def Inside (skill : Place) : Prop :=
  ∃ dir, fs.realpath (host.start installDir) installDir.tail = some dir ∧ dir <+: skill ∧ skill ≠ dir

/-- From `fs` to `s` only the temporary directory, the directory of the slug in the install directory and the
lock file change, but for new directories on the way. -/
def StaysBelow (s : FileSystem) : Prop :=
  ∀ place, host.tmp <+: place ∨
    (∃ skill, host.skillPlace fs installDir slug = some skill ∧ host.Inside fs installDir skill ∧
      skill <+: place) ∨
    s.entry place = fs.entry place ∨ (fs.entry place = none ∧ s.entry place = some .dir) ∨
    (host.lockPlace fs installDir = some place ∧ ∃ content, s.entry place = some (.file content))

/-- The version that is installed at the slug in `fs`, and the lock file, are the same in `s`. -/
structure KeepsOld (s : FileSystem) : Prop where
  version : ∀ skill, host.skillPlace fs installDir slug = some skill → ∀ place, skill <+: place →
    fs.entry place ≠ none → s.entry place = fs.entry place
  lock : ∀ place e, fs.stat (host.start installDir.parent) (lockTail installDir.parent) = .entry place e →
    s.entry place = some e

/-- Whatever the host refuses, the installation stays below its directory, and what is there before it fails is
there after it. -/
def Sound (version : Option String) : Prop :=
  ∀ refuses, host.StaysBelow fs installDir slug (host.installSkill refuses slug version installDir fs).state ∧
    ((∃ fault, (host.installSkill refuses slug version installDir fs).result = .error fault) →
      host.KeepsOld fs installDir slug (host.installSkill refuses slug version installDir fs).state)

/-! ## When it stays below and keeps -/

/-- The archive leaves room for the file that says where the skill is from. -/
def OriginFree (s : FileSystem) (root : Place) : Prop :=
  (∀ content, s.entry (root ++ [clawhub]) ≠ some (.file content)) ∧
    s.entry (root ++ [clawhub, originJson]) ≠ some .dir

/-- There is a lock file, and the skill can be entered in it. -/
def LockUsable (version : String) : Prop :=
  ∃ place content data, fs.stat (host.start installDir.parent) (lockTail installDir.parent) =
    .entry place (.file content) ∧ host.loads content = some data ∧
      (host.lockUpdated slug version data).isSome

/-- No file but the lock file would be written at `skill`. -/
def OnlyLock (s : FileSystem) (root skill : Place) : Prop :=
  (∀ rest content, s.entry (root ++ rest) = some (.file content) →
    host.lockPlace fs installDir = some (skill ++ rest)) ∧
  (OriginFree s root → host.lockPlace fs installDir = some (skill ++ [clawhub, originJson]))

/-- `s` with the directory of the slug. -/
def destMade (s : FileSystem) : FileSystem :=
  (makedirs (host.start (destPath installDir slug)) (destPath installDir slug).tail s).state

/-- What is at the slug before the installation: nothing that the code would remove, and, if nothing is there and
the directory can be made, it is made inside the install directory and the lock file is not written. -/
structure Harmless (s : FileSystem) (root : Place) (version : String) : Prop where
  present : fs.pathExists (host.start (destPath installDir slug)) (destPath installDir slug).tail = true →
    ∀ skill, fs.lstat (host.start (destPath installDir slug)) (destPath installDir slug).tail =
      some (skill, .dir) → ∀ place, place ≠ [] → skill <+: place → fs.entry place = none
  absent : fs.pathExists (host.start (destPath installDir slug)) (destPath installDir slug).tail = false →
    (makedirs (host.start (destPath installDir slug)) (destPath installDir slug).tail s).result = .ok () →
      ∀ skill, host.skillPlace fs installDir slug = some skill →
        (host.Inside fs installDir skill ∨ host.OnlyLock fs installDir (host.destMade installDir slug s) root skill) ∧
          ¬ (OriginFree (host.destMade installDir slug s) root ∧ host.LockUsable fs installDir slug version)

/-- What the operating system promises of its directories, `mkdtemp` of its name, which no path knew before, and
`json.loads` of an empty text. -/
structure Promises : Prop where
  cwd_dir : fs.entry host.cwd = some .dir
  tmp_ne : host.tmp ≠ []
  tmp_parent : fs.entry host.tmp.dropLast = some .dir
  tmp_name : ∀ name ∈ host.tmp.getLast?, ProperName name
  tmp_new : fs.entry host.tmp = none
  unknown : ∀ skill, host.skillPlace fs installDir slug = some skill → ¬ host.tmp <+: skill
  apart : ∀ s : FileSystem, (∀ place, ¬ host.tmp <+: place → s.entry place = fs.entry place) →
    s.stat (host.start (destPath installDir slug)) (destPath installDir slug).tail =
        fs.stat (host.start (destPath installDir slug)) (destPath installDir slug).tail ∧
      s.lstat (host.start (destPath installDir slug)) (destPath installDir slug).tail =
        fs.lstat (host.start (destPath installDir slug)) (destPath installDir slug).tail
  install_plain : PathParts installDir.tail
  loads_nil : host.loads [] = none

end Claims

/-! ## A step at a time -/

section Steps
variable {host : InstallHost} {fs s x : FileSystem} {installDir : PurePath} {slug version : String}
  {root skill : Place} {refuses : InstallStep → Bool}

theorem Promises.none_below (hP : host.Promises fs installDir slug) {p : Place} (h : host.tmp <+: p) :
    fs.entry p = none := by
  obtain ⟨rest, rfl⟩ := h
  exact entry_below hP.tmp_new

theorem Promises.not_below (hP : host.Promises fs installDir slug) {p : Place} (h : fs.entry p ≠ none) :
    ¬ host.tmp <+: p := fun htmp => h (hP.none_below htmp)

theorem Promises.start_dir (hP : host.Promises fs installDir slug) (p : PurePath) :
    fs.entry (host.start p) = some .dir := by
  rw [start]
  split
  · exact hP.cwd_dir
  · exact fs.root

theorem Promises.extends_of_within (hP : host.Promises fs installDir slug) (hs : Within host.tmp fs s) :
    Extends fs s := fun p hp => hs.outside p (hP.not_below hp)

theorem Promises.dest_plain (hP : host.Promises fs installDir slug) :
    PathParts (destPath installDir slug).tail :=
  PurePath.join_pathParts hP.install_plain (PurePath.parse_pathParts _)

/-- The directory that `mkdtemp` has made. -/
theorem Promises.within_tmp (hP : host.Promises fs installDir slug) :
    Within host.tmp fs (fs.put host.tmp .dir) := by
  refine ⟨sameLinks_put (by simp [hP.tmp_new]) (by simp), fun p hp => ?_, ?_⟩
  · refine put_entry_of_ne _ ?_
    rintro rfl
    exact hp (List.prefix_refl _)
  · obtain ⟨up, name, htmp⟩ : ∃ up name, host.tmp = up ++ [name] :=
      ⟨_, _, (List.dropLast_append_getLast hP.tmp_ne).symm⟩
    have hparent := hP.tmp_parent
    have hname := hP.tmp_name
    have hnew := hP.tmp_new
    rw [htmp] at hparent hname hnew ⊢
    rw [List.dropLast_concat] at hparent
    exact put_entry hparent (hname name (by simp)) (by simp [hnew]) .dir

/-- The root of the unpacked skill is where its path says. -/
theorem IsRoot.stat (hP : host.Promises fs installDir slug) (hs : Within host.tmp fs s)
    (h : IsRoot host s root) : s.stat [] root = .entry root .dir ∧ s.entry root = some .dir := by
  obtain ⟨⟨rest, hroot, hrest⟩, place, hstat⟩ := h
  have hlinks : ∀ p, p <+: [] ++ root → ∀ target, s.entry p ≠ some (.link target) := by
    intro p hp target hlink
    rw [List.nil_append, hroot] at hp
    rcases List.prefix_or_prefix_of_prefix hp (List.prefix_append host.tmp rest) with ⟨more, hup⟩ | hin
    · by_cases hmore : more = []
      · rw [hmore, List.append_nil] at hup
        rw [hup, hs.top_dir] at hlink
        cases hlink
      · have hdir := hs.top_dir
        rw [← hup] at hdir
        rw [dir_of_below (by rw [hdir]; simp) hmore] at hlink
        cases hlink
    · have := (hs.links p target).mp hlink
      rw [hP.none_below hin] at this
      cases this
  have hproper : ∀ part ∈ root, ProperName part := by
    intro part hpart
    rw [hroot] at hpart
    rcases List.mem_append.mp hpart with h | h
    · exact tmp_proper hs.top_dir part h
    · exact hrest part h
  have hreal := realpath_of_unlinked hproper hlinks
  rw [realpath_of_stat hstat, List.nil_append, Option.some.injEq] at hreal
  rw [hreal] at hstat
  exact ⟨hstat, (stat_sound s.root hstat).1⟩

/-- Outside of the temporary directory nothing is changed, but for new directories. -/
def OnlyDirs (host : InstallHost) (fs x : FileSystem) : Prop :=
  ∀ p, ¬ host.tmp <+: p → x.entry p = fs.entry p ∨ (fs.entry p = none ∧ x.entry p = some .dir)

theorem onlyDirs_of_grows (hs : Within host.tmp fs s) (h : Grows s x) : OnlyDirs host fs x := by
  intro p hp
  have := h p
  rwa [hs.outside p hp] at this

theorem OnlyDirs.stays (h : OnlyDirs host fs x) : host.StaysBelow fs installDir slug x := by
  intro p
  by_cases hp : host.tmp <+: p
  · exact .inl hp
  · rcases h p hp with hsame | hdir
    · exact .inr (.inr (.inl hsame))
    · exact .inr (.inr (.inr (.inl hdir)))

theorem OnlyDirs.keeps (hP : host.Promises fs installDir slug) (h : OnlyDirs host fs x) :
    host.KeepsOld fs installDir slug x := by
  have hold : ∀ p, fs.entry p ≠ none → x.entry p = fs.entry p := fun p hp =>
    (h p (hP.not_below hp)).resolve_right fun hnew => hp hnew.1
  refine ⟨fun _ _ p _ hp => hold p hp, fun p e hstat => ?_⟩
  have he := (stat_sound (hP.start_dir _) hstat).1
  rw [hold p (by simp [he]), he]

/-- What is at the slug is left alone, because the code cannot remove it or because there is nothing. -/
theorem rmtree_harmless (hP : host.Promises fs installDir slug) (hs : Within host.tmp fs s)
    (hharmless : ∀ skill, fs.lstat (host.start (destPath installDir slug)) (destPath installDir slug).tail =
      some (skill, .dir) → ∀ p, p ≠ [] → skill <+: p → fs.entry p = none) (noClear noRemove : Bool) :
    Triple (fun _ x => x = s)
      (rmtree noClear noRemove (host.start (destPath installDir slug)) (destPath installDir slug).tail)
      (fun _ _ _ => False) (fun _ _ x => OnlyDirs host fs x) := by
  have hlstat := (hP.apart s hs.outside).2
  by_cases hdir : ∃ skill, s.lstat (host.start (destPath installDir slug)) (destPath installDir slug).tail =
      some (skill, .dir)
  · obtain ⟨skill, hskill⟩ := hdir
    have hnone := hharmless skill (hlstat ▸ hskill)
    have hroot : skill = [] := by
      by_contra hne
      have hentry := lstat_sound (hP.start_dir _) (hlstat ▸ hskill)
      rw [hnone skill hne (List.prefix_refl _)] at hentry
      cases hentry
    refine (rmtree_spec noClear noRemove hskill).conseq (fun _ _ => id) ?_ ?_
    · rintro _ _ x ⟨⟨-, hne, -⟩, -⟩
      exact hne hroot
    · rintro _ _ x (⟨-, rfl⟩ | ⟨-, rfl⟩)
      · exact fun p hp => .inl (hs.outside p hp)
      · intro p hp
        by_cases hp' : p = []
        · rw [hp', FileSystem.root, FileSystem.root]
          exact .inl rfl
        · rw [hroot, clear_entry_below (List.nil_prefix) hp', hnone p hp' (hroot ▸ List.nil_prefix)]
          exact .inl rfl
  · refine (rmtree_refused noClear noRemove fun skill hskill => hdir ⟨skill, hskill⟩).conseq
      (fun _ _ => id) (fun _ _ _ => id) ?_
    rintro _ _ x rfl
    exact fun p hp => .inl (hs.outside p hp)

/-- Nothing was at the place of the skill, and elsewhere only the temporary directory and new directories differ. -/
structure Settled (host : InstallHost) (fs : FileSystem) (skill : Place) (x : FileSystem) : Prop where
  new : fs.entry skill = none
  links : SameLinks fs x
  outside : ∀ p, ¬ host.tmp <+: p → ¬ skill <+: p →
    x.entry p = fs.entry p ∨ (fs.entry p = none ∧ x.entry p = some .dir)

/-- No file at the place of the skill is where it should not be. -/
structure Placed (host : InstallHost) (fs : FileSystem) (installDir : PurePath) (skill : Place)
    (x : FileSystem) : Prop extends Settled host fs skill x where
  files : ∀ p content, skill <+: p → x.entry p = some (.file content) →
    host.Inside fs installDir skill ∨ host.lockPlace fs installDir = some p

theorem Settled.extends (hP : host.Promises fs installDir slug) (h : Settled host fs skill x) :
    Extends fs x := by
  intro p hp
  have hskill : ¬ skill <+: p := by
    rintro ⟨rest, rfl⟩
    exact hp (entry_below h.new)
  exact (h.outside p (hP.not_below hp) hskill).resolve_right fun hnew => hp hnew.1

theorem Settled.grows (h : Settled host fs skill s) (hgrows : Grows s x) : Settled host fs skill x := by
  refine ⟨h.new, h.links.trans hgrows.sameLinks, fun p hp hskill => ?_⟩
  rcases hgrows p with hsame | ⟨hnone, hdir⟩
  · rw [hsame]
    exact h.outside p hp hskill
  · refine .inr ⟨?_, hdir⟩
    rcases h.outside p hp hskill with hsame | ⟨hnone', -⟩
    · rw [← hsame, hnone]
    · exact hnone'

theorem Settled.written (h : Settled host fs skill s) {p : Place} (hp : skill <+: p)
    (hwritten : FileJob.Written s x p) : Settled host fs skill x := by
  refine ⟨h.new, h.links.trans hwritten.sameLinks, fun q hq hq' => ?_⟩
  rw [hwritten.others q]
  · exact h.outside q hq hq'
  · rintro rfl
    exact hq' hp

theorem Placed.grows (h : Placed host fs installDir skill s) (hgrows : Grows s x) :
    Placed host fs installDir skill x := by
  refine ⟨h.toSettled.grows hgrows, fun p content hskill hfile => ?_⟩
  rcases hgrows p with hsame | ⟨-, hdir⟩
  · exact h.files p content hskill (hsame ▸ hfile)
  · rw [hdir] at hfile
    cases hfile

theorem Placed.stays (h : Placed host fs installDir skill x)
    (hskill : host.skillPlace fs installDir slug = some skill) : host.StaysBelow fs installDir slug x := by
  intro p
  by_cases hp : host.tmp <+: p
  · exact .inl hp
  · by_cases hin : skill <+: p
    · have hnone : fs.entry p = none := by
        obtain ⟨rest, rfl⟩ := hin
        exact entry_below h.new
      cases hentry : x.entry p with
      | none => exact .inr (.inr (.inl (by rw [hnone])))
      | some e =>
        cases e with
        | dir => exact .inr (.inr (.inr (.inl ⟨hnone, rfl⟩)))
        | file content =>
          rcases h.files p content hin hentry with hinside | hlock
          · exact .inr (.inl ⟨skill, hskill, hinside, hin⟩)
          · exact .inr (.inr (.inr (.inr ⟨hlock, content, rfl⟩)))
        | link target =>
          rw [h.links p target, hnone] at hentry
          cases hentry
    · rcases h.outside p hp hin with hsame | hdir
      · exact .inr (.inr (.inl hsame))
      · exact .inr (.inr (.inr (.inl hdir)))

theorem Placed.keeps (hP : host.Promises fs installDir slug) (h : Placed host fs installDir skill x) :
    host.KeepsOld fs installDir slug x := by
  have hold := h.toSettled.extends hP
  refine ⟨fun _ _ p _ hp => hold p hp, fun p e hstat => ?_⟩
  exact hold.some (stat_sound (hP.start_dir _) hstat).1

/-- The copy of the unpacked skill at its place. -/
structure Copied (host : InstallHost) (installDir : PurePath) (slug : String) (made : FileSystem)
    (root skill : Place) (x : FileSystem) : Prop where
  stat : x.stat (host.start (destPath installDir slug)) (destPath installDir slug).tail = .entry skill .dir
  below : ∀ rest, x.entry (skill ++ rest) = made.entry (root ++ rest)

theorem skillPlace_of_within (hs : Within host.tmp fs s) :
    s.realpath (host.start (destPath installDir slug)) (destPath installDir slug).tail =
      host.skillPlace fs installDir slug := hs.links.realpath

/-- What `copytree` makes of a slug that nothing is at. -/
theorem copied_of_made (hP : host.Promises fs installDir slug) (hs : Within host.tmp fs s)
    (hroot : IsRoot host s root)
    (hmade : Made s (host.destMade installDir slug s) (host.start (destPath installDir slug))
      (destPath installDir slug).tail skill) :
    host.skillPlace fs installDir slug = some skill ∧
      Copied host installDir slug (host.destMade installDir slug s) root skill
        ((host.destMade installDir slug s).fill root skill) ∧
      Settled host fs skill ((host.destMade installDir slug s).fill root skill) := by
  have hskill : host.skillPlace fs installDir slug = some skill := by
    rw [← skillPlace_of_within hs, hmade.real]
  have htmp : ¬ host.tmp <+: skill := hP.unknown skill hskill
  have hnew : fs.entry skill = none := by rw [← hs.outside skill htmp, hmade.new]
  have hrootdir := hmade.grows.extends.some (hroot.stat hP hs).2
  have hskilldir : (host.destMade installDir slug s).entry skill = some .dir :=
    (stat_sound (hmade.grows.extends.some ((hP.extends_of_within hs).some (hP.start_dir _))) hmade.stat).1
  have hbelow := fill_entry hrootdir hskilldir
  have hextends : Extends (host.destMade installDir slug s) ((host.destMade installDir slug s).fill root skill) := by
    intro p hp
    by_cases hin : skill <+: p
    · obtain ⟨rest, rfl⟩ := hin
      have hrest : rest = [] := by
        by_contra hne
        exact hp (hmade.below rest hne)
      rw [hbelow rest, hrest, List.append_nil, List.append_nil, hrootdir, hskilldir]
    · exact fill_entry_of_not hin
  have hlinks := hs.links.trans hmade.grows.sameLinks
  obtain ⟨tail, hrootTmp, -⟩ := hroot.below
  refine ⟨hskill, ⟨stat_extends hextends hmade.stat, hbelow⟩, hnew, ?_, ?_⟩
  · intro p target
    by_cases hin : skill <+: p
    · obtain ⟨rest, rfl⟩ := hin
      have hin : host.tmp <+: root ++ rest := by
        rw [hrootTmp, List.append_assoc]
        exact List.prefix_append _ _
      rw [hbelow rest, hlinks, hP.none_below hin, entry_below hnew]
    · rw [fill_entry_of_not hin]
      exact hlinks p target
  · intro p hp hin
    rw [fill_entry_of_not hin]
    have := hmade.grows p
    rwa [hs.outside p hp] at this

theorem Copied.placed {made : FileSystem} (h : Copied host installDir slug made root skill x)
    (hsettled : Settled host fs skill x)
    (hclause : host.Inside fs installDir skill ∨ host.OnlyLock fs installDir made root skill) :
    Placed host fs installDir skill x := by
  refine ⟨hsettled, ?_⟩
  rintro p content ⟨rest, rfl⟩ hfile
  rw [h.below rest] at hfile
  rcases hclause with hinside | ⟨hfiles, -⟩
  · exact .inl hinside
  · exact .inr (hfiles rest content hfile)

theorem clawhub_proper : ProperName clawhub := by decide

theorem originJson_proper : ProperName originJson := by decide

/-- Where the origin file is written. -/
theorem origin_realpath (h : Settled host fs skill x)
    (hskill : host.skillPlace fs installDir slug = some skill) :
    x.realpath (host.start (destPath installDir slug))
      ((destPath installDir slug).tail ++ [clawhub, originJson]) = some (skill ++ [clawhub, originJson]) := by
  have hnone : ∀ rest, fs.entry (skill ++ rest) = none := fun rest => entry_below h.new
  have hdir := realpath_name hskill clawhub_proper (by simp [hnone])
  have hfile := realpath_name hdir originJson_proper (by simp [hnone])
  rw [h.links.realpath]
  simpa using hfile

/-- If the origin file can be opened, the archive has left room for it. -/
theorem originFree_of_open {made : FileSystem}
    (hcopied : Copied host installDir slug made root skill s) (hgrows : Grows s x)
    (hdir : x.isDir (host.start (destPath installDir slug)) ((destPath installDir slug).tail ++ [clawhub]) = true)
    {opened : FileSystem} {p : Place}
    (hopen : x.openWrite (host.start (destPath installDir slug))
      ((destPath installDir slug).tail ++ [clawhub, originJson]) [] = .ok (opened, p)) :
    OriginFree made root := by
  have hstat := stat_extends hgrows.extends hcopied.stat
  constructor
  · intro content hfile
    rw [← hcopied.below] at hfile
    have := stat_name hstat clawhub_proper (by simp) (hgrows.extends.some hfile)
    rw [isDir, this] at hdir
    cases hdir
  · intro hisdir
    rw [← hcopied.below] at hisdir
    have hentry := hgrows.extends.some hisdir
    have hclawhub : x.entry (skill ++ [clawhub]) = some .dir := by
      have hsplit : skill ++ [clawhub, originJson] = skill ++ [clawhub] ++ [originJson] := by simp
      rw [hsplit] at hentry
      exact x.parent (skill ++ [clawhub]) originJson (by rw [hentry]; simp)
    have hstat' := stat_name hstat clawhub_proper (by simp) hclawhub
    have hstat'' := stat_name (e := .dir) hstat' originJson_proper (by simp) (by simpa using hentry)
    rw [openWrite] at hopen
    simp only [List.append_assoc, List.singleton_append] at hstat''
    rw [hstat''] at hopen
    cases hopen

/-- The origin file is written below the skill, if the archive has left room for it. -/
theorem writeOriginJson_spec {made : FileSystem} (hP : host.Promises fs installDir slug)
    (hskill : host.skillPlace fs installDir slug = some skill)
    (hplaced : Placed host fs installDir skill s)
    (hcopied : Copied host installDir slug made root skill s)
    (hclause : host.Inside fs installDir skill ∨ host.OnlyLock fs installDir made root skill) :
    Triple (fun _ x => x = s) (host.writeOriginJson refuses (destPath installDir slug) slug version)
      (fun _ _ x => Placed host fs installDir skill x ∧ OriginFree made root)
      (fun _ _ x => Placed host fs installDir skill x) := by
  have hstart := (hplaced.toSettled.extends hP).some (hP.start_dir (destPath installDir slug))
  have hplain : PathParts ((destPath installDir slug).tail ++ [clawhub]) := by
    intro part hpart
    rcases List.mem_append.mp hpart with h | h
    · exact hP.dest_plain part h
    · rw [List.mem_singleton.mp h]
      decide
  refine Triple.andThen ((permit_spec _ _).conseq (fun _ _ => id) (fun _ _ _ hs => hs.1)
    fun _ _ _ hs => hs.1 ▸ hplaced) fun _ => ?_
  refine Triple.andThen ((mkdirParents_spec hstart hplain).conseq (fun _ _ => id) (fun _ _ _ => id)
    fun _ _ _ hgrows => hplaced.grows hgrows) fun _ => ?_
  rintro l x ⟨hgrows, hdir⟩
  have hx := hplaced.grows hgrows
  have hwritten : ∀ opened p y, x.openWrite (host.start (destPath installDir slug))
      ((destPath installDir slug).tail ++ [clawhub, originJson]) [] = .ok (opened, p) → FileJob.Written x y p →
        Placed host fs installDir skill y ∧ OriginFree made root := by
    intro opened p y hopen hwritten
    have hfree := originFree_of_open hcopied hgrows hdir hopen
    have hp := openWrite_realpath hopen
    rw [origin_realpath hx.toSettled hskill, Option.some.injEq] at hp
    refine ⟨⟨hx.toSettled.written (hp ▸ List.prefix_append _ _) hwritten, fun q content hq hfile => ?_⟩, hfree⟩
    by_cases heq : q = p
    · rcases hclause with hinside | ⟨-, hlock⟩
      · exact .inl hinside
      · exact .inr (by rw [heq, ← hp, hlock hfree])
    · rw [hwritten.others q heq] at hfile
      exact hx.files q content hq hfile
  have hstart' := hgrows.extends.some hstart
  refine ((writeBytes_spec _ _ _).conseq (fun _ _ => id) ?_ ?_) l x rfl
  · rintro _ _ y ⟨-, p, opened, hopen, rfl⟩
    exact hwritten opened p _ hopen ((openWrite_written hstart' hopen).put _)
  · rintro _ _ y (⟨rfl, -⟩ | ⟨-, p, hopen⟩)
    · exact hx
    · exact (hwritten y p y hopen (openWrite_written hstart' hopen)).1

theorem readLock_spec (workspace : PurePath) :
    Triple (fun _ x => x = s) (host.readLock refuses workspace)
      (fun data _ x => x = s ∧ ∀ p e, s.stat (host.start workspace) (lockTail workspace) = .entry p e →
        ∃ content, e = .file content ∧ host.loads content = some data)
      (fun _ _ x => x = s) := by
  refine get_spec ?_
  split
  · refine Triple.andThen ((readBytes_spec _).conseq (fun _ _ => id) (fun _ _ _ => id)
      fun _ _ _ hs => hs.1) fun content => ?_
    cases hdata : host.loads content with
    | none => exact Triple.raise fun _ _ hx => hx.1
    | some data =>
      refine Triple.ret fun _ _ hx => ⟨hx.1, fun q e hstat => ⟨content, ?_, hdata⟩⟩
      obtain ⟨p, hopen⟩ := hx.2
      rw [openRead, hstat] at hopen
      cases e with
      | dir => cases hopen
      | link target => cases hopen
      | file content' =>
        rw [Except.ok.injEq, Prod.mk.injEq] at hopen
        rw [hopen.2]
  · rename_i hmissing
    refine Triple.ret fun _ _ hx => ⟨hx, fun p e hstat => ?_⟩
    exact absurd (pathExists_of_stat hstat) hmissing

/-- The lock file may be written where there was none. -/
theorem Placed.lockWritten {y z : FileSystem} {p : Place} (hx : Placed host fs installDir skill y)
    (hskill : host.skillPlace fs installDir slug = some skill)
    (hno : ∀ p e, fs.stat (host.start installDir.parent) (lockTail installDir.parent) ≠ .entry p e)
    (hp : y.realpath (host.start installDir.parent) (lockTail installDir.parent) = some p)
    (hz : FileJob.Written y z p) : host.StaysBelow fs installDir slug z ∧ host.KeepsOld fs installDir slug z := by
  have hlockPlace : host.lockPlace fs installDir = some p := by rw [lockPlace, ← hx.links.realpath, hp]
  refine ⟨fun q => ?_, ⟨fun skill' hskill' q hq hold => ?_, fun q e hstat => absurd hstat (hno q e)⟩⟩
  · by_cases heq : q = p
    · rcases hz.written with hsame | hfile
      · have hstays := hx.stays hskill q
        rwa [heq, ← hsame, ← heq] at hstays
      · exact .inr (.inr (.inr (.inr (heq ▸ ⟨hlockPlace, hfile⟩))))
    · rw [hz.others q heq]
      exact hx.stays hskill q
  · rw [hskill, Option.some.injEq] at hskill'
    obtain ⟨rest, rfl⟩ := hskill' ▸ hq
    exact absurd (entry_below hx.new) hold

/-- The lock file is written only if there was none, or if it was usable. -/
theorem updateLockJson_spec (hP : host.Promises fs installDir slug)
    (hskill : host.skillPlace fs installDir slug = some skill) (hplaced : Placed host fs installDir skill s)
    (hplain : PathParts installDir.tail) (hlock : ¬ host.LockUsable fs installDir slug version) :
    Triple (fun _ x => x = s) (host.updateLockJson refuses installDir.parent slug version)
      (fun _ _ x => host.StaysBelow fs installDir slug x)
      (fun _ _ x => host.StaysBelow fs installDir slug x ∧ host.KeepsOld fs installDir slug x) := by
  have hdone : ∀ x, Placed host fs installDir skill x →
      host.StaysBelow fs installDir slug x ∧ host.KeepsOld fs installDir slug x :=
    fun x hx => ⟨hx.stays hskill, hx.keeps hP⟩
  have hstart := (hplaced.toSettled.extends hP).some (hP.start_dir installDir.parent)
  have hparts : PathParts (installDir.parent.tail ++ [clawhub]) := by
    intro part hpart
    rcases List.mem_append.mp hpart with h | h
    · exact hplain part (List.mem_of_mem_dropLast h)
    · rw [List.mem_singleton.mp h]
      decide
  refine Triple.andThen ((permit_spec _ _).conseq (fun _ _ => id) (fun _ _ _ hs => hs.1)
    fun _ _ _ hs => hdone _ (hs.1 ▸ hplaced)) fun _ => ?_
  refine Triple.andThen ((mkdirParents_spec hstart hparts).conseq (fun _ _ => id) (fun _ _ _ => id)
    fun _ _ _ hgrows => hdone _ (hplaced.grows hgrows)) fun _ => ?_
  rintro l x ⟨hgrows, -⟩
  have hx := hplaced.grows hgrows
  have hstart' := hgrows.extends.some hstart
  suffices hrest : Triple (fun _ y => y = x) _ (fun _ _ y => host.StaysBelow fs installDir slug y)
    (fun _ _ y => host.StaysBelow fs installDir slug y ∧ host.KeepsOld fs installDir slug y) from hrest l x rfl
  refine Triple.andThen ((readLock_spec installDir.parent).conseq (fun _ _ => id) (fun _ _ _ => id)
    fun _ _ _ hy => hdone _ (hy ▸ hx)) fun data => ?_
  rintro l y ⟨rfl, hread⟩
  cases hupdated : host.lockUpdated slug version data with
  | none =>
    have hraise : Triple (fun _ z => z = y) (raise (.raised "no skills") : FileJob Unit)
      (fun _ _ z => host.StaysBelow fs installDir slug z)
      (fun _ _ z => host.StaysBelow fs installDir slug z ∧ host.KeepsOld fs installDir slug z) :=
        Triple.raise fun _ _ hz => hdone _ (hz ▸ hx)
    exact hraise l y rfl
  | some updated =>
    -- a lock file that was there would have been usable
    have hno : ∀ p e, fs.stat (host.start installDir.parent) (lockTail installDir.parent) ≠ .entry p e := by
      intro p e hstat
      obtain ⟨content, rfl, hloads⟩ := hread p e (stat_extends (hx.toSettled.extends hP) hstat)
      exact hlock ⟨p, content, data, hstat, hloads, by rw [hupdated]; rfl⟩
    refine ((writeBytes_written _ _ _ hstart').conseq (fun _ _ => id) ?_ ?_) l y rfl
    · rintro _ _ z ⟨p, hp, hz⟩
      exact (hx.lockWritten hskill hno hp hz).1
    · rintro _ _ z (rfl | ⟨p, hp, hz⟩)
      · exact hdone _ hx
      · exact hx.lockWritten hskill hno hp hz

/-- From the unpacked skill on. -/
theorem place_spec (hP : host.Promises fs installDir slug) (hs : Within host.tmp fs s)
    (hroot : IsRoot host s root) (hharmless : host.Harmless fs installDir slug s root version) :
    Triple (fun _ x => x = s) (host.place refuses installDir slug version root)
      (fun _ _ x => host.StaysBelow fs installDir slug x)
      (fun _ _ x => host.StaysBelow fs installDir slug x ∧ host.KeepsOld fs installDir slug x) := by
  have hdirs : ∀ x, OnlyDirs host fs x →
      host.StaysBelow fs installDir slug x ∧ host.KeepsOld fs installDir slug x :=
    fun x hx => ⟨hx.stays, hx.keeps hP⟩
  have hexists : s.pathExists (host.start (destPath installDir slug)) (destPath installDir slug).tail =
      fs.pathExists (host.start (destPath installDir slug)) (destPath installDir slug).tail := by
    rw [pathExists, pathExists, (hP.apart s hs.outside).1]
  refine get_spec ?_
  cases hpresent : fs.pathExists (host.start (destPath installDir slug)) (destPath installDir slug).tail with
  | true =>
    rw [hexists, hpresent, if_pos rfl]
    refine Triple.andThen (Q := fun _ _ _ => False) ?_ fun _ _ _ h => h.elim
    exact (rmtree_harmless hP hs (hharmless.present hpresent) _ _).conseq (fun _ _ => id) (fun _ _ _ => id)
      fun _ _ x hx => hdirs x hx
  | false =>
    rw [hexists, hpresent, if_neg Bool.false_ne_true]
    have hstart := (hP.extends_of_within hs).some (hP.start_dir (destPath installDir slug))
    refine Triple.andThen (Triple.ret fun _ _ hx => hx : Triple _ _ (fun _ _ x => x = s) _) fun _ => ?_
    refine Triple.andThen ((copytree_spec _ _ root hstart hP.dest_plain).conseq (fun _ _ => id)
      (fun _ _ _ => id) fun _ _ x hx => hdirs x (onlyDirs_of_grows hs hx.1)) fun _ => ?_
    rintro l x ⟨hresult, source, skill, hsource, hmade, rfl⟩
    rw [(hroot.stat hP hs).1, Reached.entry.injEq] at hsource
    obtain ⟨rfl, -⟩ := hsource
    have hskill : host.skillPlace fs installDir slug = some skill := by
      rw [← skillPlace_of_within hs, hmade.real]
    obtain ⟨hclause, hlock⟩ := hharmless.absent hpresent hresult skill hskill
    obtain ⟨-, hcopied, hsettled⟩ := copied_of_made hP hs hroot hmade
    have hplaced := hcopied.placed hsettled hclause
    refine (Triple.andThen ((writeOriginJson_spec hP hskill hplaced hcopied hclause).conseq
      (fun _ _ => id) (fun _ _ _ => id) fun _ _ x hx => ⟨hx.stays hskill, hx.keeps hP⟩) fun _ => ?_) l _ rfl
    rintro l y ⟨hy, hfree⟩
    refine (Triple.andThen (updateLockJson_spec hP hskill hy hP.install_plain fun husable =>
      hlock ⟨hfree, husable⟩) fun _ => Triple.ret fun _ _ h => h) l y rfl

/-! ## Whole installations -/

/-- The state in which the archive is unpacked. -/
def begun (host : InstallHost) (fs : FileSystem) : FileSystem := fs.put host.tmp .dir

/-- What is fetched and can be unpacked is harmless at its slug. -/
def Safe (host : InstallHost) (fs : FileSystem) (installDir : PurePath) (slug : String) (version : Option String) :
    Prop :=
  ∀ fetched, host.fetch slug version = .ok fetched → ∀ root,
    (host.unpack (fun _ => false) fetched.2 (host.begun fs)).result = .ok root →
      host.Harmless fs installDir slug (host.unpack (fun _ => false) fetched.2 (host.begun fs)).state root
        fetched.1

theorem StaysBelow.remove (h : host.StaysBelow fs installDir slug x) :
    host.StaysBelow fs installDir slug (x.remove host.tmp) := by
  intro p
  by_cases hp : host.tmp <+: p
  · exact .inl hp
  · rw [remove_entry_of_not hp]
    exact h p

theorem KeepsOld.remove (hP : host.Promises fs installDir slug) (h : host.KeepsOld fs installDir slug x) :
    host.KeepsOld fs installDir slug (x.remove host.tmp) := by
  constructor
  · intro skill hskill p hp hold
    rw [remove_entry_of_not (hP.not_below hold)]
    exact h.version skill hskill p hp hold
  · intro p e hstat
    have he := (stat_sound (hP.start_dir _) hstat).1
    rw [remove_entry_of_not (hP.not_below (by simp [he]))]
    exact h.lock p e hstat

theorem cleanUp_spec {I : FileSystem → Prop} (h : ∀ x, I x → I (x.remove host.tmp))
    (E : Fault → List Empty → FileSystem → Prop) :
    Triple (fun _ x => I x) (host.cleanUp refuses) (fun _ _ x => I x) E :=
  Triple.attempt (Triple.andThen ((permit_spec _ _).conseq (fun _ _ => id) (fun _ _ _ hx => hx.1)
    fun _ _ _ hx => hx.1) fun _ => Preserves.modify fun _ x => h x)

/-- What is harmless at its slug is installed soundly. -/
theorem sound_of_safe (hP : host.Promises fs installDir slug) {version : Option String}
    (hsafe : host.Safe fs installDir slug version) (refuses : InstallStep → Bool) :
    Triple (fun _ x => x = fs) (host.installSkill refuses slug version installDir)
      (fun _ _ x => host.StaysBelow fs installDir slug x)
      (fun _ _ x => host.StaysBelow fs installDir slug x ∧ host.KeepsOld fs installDir slug x) := by
  have hdirs : ∀ x, OnlyDirs host fs x →
      host.StaysBelow fs installDir slug x ∧ host.KeepsOld fs installDir slug x :=
    fun x hx => ⟨hx.stays, hx.keeps hP⟩
  have hsame : ∀ x, x = fs → host.StaysBelow fs installDir slug x ∧ host.KeepsOld fs installDir slug x :=
    fun x hx => hdirs x fun p _ => .inl (by rw [hx])
  refine Triple.andThen (Q := fun fetched _ x => x = fs ∧ host.fetch slug version = .ok fetched)
    (Triple.ofExcept (fun _ hfetched _ _ hx => ⟨hx, hfetched⟩) fun _ _ _ x hx => hsame x hx) fun fetched => ?_
  refine Triple.andThen ((permit_spec _ _).conseq (fun _ _ => id) (fun _ _ _ hx => hx.1)
    fun _ _ x hx => hsame x hx.1.1) fun _ => ?_
  refine Triple.andThen (Q := fun _ _ x => x = host.begun fs ∧ host.fetch slug version = .ok fetched)
    (Triple.modify fun _ _ hx => ⟨by rw [hx.1]; rfl, hx.2⟩) fun _ => ?_
  rintro l x ⟨rfl, hfetched⟩
  suffices hbody : Triple (fun _ x => x = host.begun fs) _ (fun _ _ x => host.StaysBelow fs installDir slug x)
    (fun _ _ x => host.StaysBelow fs installDir slug x ∧ host.KeepsOld fs installDir slug x) from
      hbody l _ rfl
  refine Triple.tryFinally ?_ (fun _ => cleanUp_spec (fun _ hx => hx.remove) _) fun _ =>
    cleanUp_spec (I := fun x => host.StaysBelow fs installDir slug x ∧ host.KeepsOld fs installDir slug x)
      (fun _ hx => ⟨hx.1.remove, hx.2.remove hP⟩) _
  refine Triple.andThen ((result_spec ((unpack_within refuses fetched.2).strengthen fun _ x hx =>
    hx ▸ hP.within_tmp)).conseq (fun _ _ => id) (fun _ _ _ => id)
      fun _ _ x hx => hdirs x fun p hp => .inl (hx.outside p hp)) fun root => ?_
  rintro l x ⟨⟨hwithin, hroot⟩, hresult, hstate⟩
  obtain ⟨hresult', hstate'⟩ := result_of_refines (unpack_refines refuses fetched.2) hresult
  have hharmless := hsafe fetched hfetched root hresult'
  rw [hstate', hstate] at hharmless
  exact place_spec hP hwithin hroot hharmless l x rfl

end Steps

end InstallHost

end PyClaw
