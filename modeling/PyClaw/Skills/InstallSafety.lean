import PyClaw.Skills.InstallSteps

/-!
# Skills.InstallSafety

When an installation is sound.

* `place_removed`, `updateLockJson_emptied`: what is lost where a step after the removal fails.
* `unsound_of_present`, `unsound_of_outside`, `unsound_of_lock`: what makes an installation unsound.
* `installSkill_sound_iff`: an installation, whatever is refused in it, stays below the directory of its slug in the
  install directory and, if it fails, leaves the version before it and the lock file as they are, exactly if what is
  fetched is harmless there.
-/

namespace PyClaw

open Prog FileSystem FileJob

namespace InstallHost

section Steps
variable {host : InstallHost} {fs s x : FileSystem} {installDir : PurePath} {slug version : String}
  {root skill : Place} {refuses : InstallStep → Bool}

/-! ## Harm -/

theorem unpack_congr (h : ∀ entry, refuses (.extract entry) = false) (zipBytes : List UInt8) :
    host.unpack refuses zipBytes = host.unpack (fun _ => false) zipBytes := by
  have hentry : host.extractEntry refuses = host.extractEntry (fun _ => false) := by
    funext zf entry
    rw [extractEntry, extractEntry, h]
  have hentries : host.extractEntries refuses = host.extractEntries (fun _ => false) := by
    funext zf total entries
    induction entries generalizing total with
    | nil => rfl
    | cons entry rest ih => simp only [extractEntries, hentry, ih]
  rw [unpack, unpack, extractZip, extractZip, hentries]

/-- An installation that is refused nothing before the skill is unpacked goes on with what is unpacked. -/
theorem installSkill_run (refuses : InstallStep → Bool) {version : Option String}
    {fetched : String × List UInt8} (hfetched : host.fetch slug version = .ok fetched)
    (htemp : refuses .makeTemp = false) (hextract : ∀ entry, refuses (.extract entry) = false)
    (hroot : (host.unpack (fun _ => false) fetched.2 (host.begun fs)).result = .ok root)
    (hstate : (host.unpack (fun _ => false) fetched.2 (host.begun fs)).state = s)
    {I J : FileSystem → Prop} (hI : ∀ x, I x → I (x.remove host.tmp)) (hJ : ∀ x, J x → J (x.remove host.tmp))
    (hplace : Triple (fun _ x => x = s) (host.place refuses installDir slug fetched.1 root)
      (fun _ _ x => I x) (fun _ _ x => J x)) :
    Triple (fun _ x => x = fs) (host.installSkill refuses slug version installDir) (fun _ _ x => I x)
      (fun _ _ x => J x) := by
  refine Triple.andThen (Q := fun a _ x => x = fs ∧ a = fetched) (Triple.ofExcept ?_ ?_) fun fetched' => ?_
  · intro a ha _ _ hx
    rw [hfetched, Except.ok.injEq] at ha
    exact ⟨hx, ha.symm⟩
  · intro fault hfault
    rw [hfetched] at hfault
    cases hfault
  rintro l x ⟨rfl, rfl⟩
  suffices hrest : Triple (fun _ y => y = x) _ (fun _ _ y => I y) (fun _ _ y => J y) from hrest l x rfl
  refine Triple.andThen ((permit_spec _ _).conseq (fun _ _ => id) (fun _ _ _ hx => hx.1) fun _ _ _ hx => ?_)
    fun _ => ?_
  · rw [htemp] at hx
    exact absurd hx.2 Bool.false_ne_true
  refine Triple.andThen (Q := fun _ _ y => y = host.begun x) (Triple.modify fun _ _ hy => hy ▸ rfl) fun _ => ?_
  refine Triple.tryFinally ?_ (fun _ => cleanUp_spec hI _) fun _ => cleanUp_spec hJ _
  rw [unpack_congr hextract]
  refine Triple.andThen (Q := fun a _ y => a = root ∧ y = s) ?_ fun a => ?_
  · rintro l y rfl
    match hr : host.unpack (fun _ => false) fetched'.2 (host.begun x) with
    | ⟨.ok a, y', l'⟩ =>
      rw [hr] at hroot hstate
      exact ⟨Except.ok.inj hroot, hstate⟩
    | ⟨.error fault, y', l'⟩ =>
      rw [hr] at hroot
      cases hroot
  · rintro l y ⟨rfl, rfl⟩
    exact hplace l y rfl

/-- An empty directory can be removed: the path to it does not end in `..`, which would leave what is above. -/
theorem removable_of_empty (hP : host.Promises fs installDir slug) (hs : Within host.tmp fs s)
    (hskill : fs.lstat (host.start (destPath installDir slug)) (destPath installDir slug).tail =
      some (skill, .dir)) (hne : skill ≠ [])
    (hempty : ∀ p, skill <+: p → p ≠ skill → fs.entry p = none) :
    Removable s (host.start (destPath installDir slug)) (destPath installDir slug).tail skill := by
  have hcleared : ∀ p, ¬ host.tmp <+: p → (s.clear skill).entry p = fs.entry p := by
    intro p hp
    by_cases hin : skill <+: p ∧ p ≠ skill
    · rw [clear_entry_below hin.1 hin.2, hempty p hin.1 hin.2]
    · rw [clear_entry_of_not hin, hs.outside p hp]
  refine ⟨(hP.apart _ hcleared).2.trans hskill, hne, fun hup => ?_⟩
  rw [lstat, hup] at hskill
  simp only [if_true] at hskill
  split at hskill
  · rename_i dir hstat
    rw [Option.some.injEq, Prod.mk.injEq] at hskill
    have hdir := (stat_sound (hP.start_dir _) hstat).1
    have hdirne : dir ≠ [] := by
      rintro rfl
      exact hne hskill.1.symm
    have hsplit := List.dropLast_append_getLast hdirne
    rw [hskill.1] at hsplit
    have hgone := hempty dir (hsplit ▸ List.prefix_append _ _) fun heq => by
      have hlen := congrArg List.length hskill.1
      rw [List.length_dropLast, ← heq] at hlen
      have hpos := List.length_pos_of_ne_nil hdirne
      omega
    rw [hdir] at hgone
    cases hgone
  · cases hskill

/-- Nothing survives of a version in a directory, where the host refuses to make the directory of the new one. -/
theorem place_removed (hP : host.Promises fs installDir slug) (hs : Within host.tmp fs s)
    (hpresent : fs.pathExists (host.start (destPath installDir slug)) (destPath installDir slug).tail = true)
    (hskill : fs.lstat (host.start (destPath installDir slug)) (destPath installDir slug).tail =
      some (skill, .dir)) {old : Place} (hne : old ≠ []) (hbelow : skill <+: old) (hold : fs.entry old ≠ none) :
    Triple (fun _ x => x = s) (host.place (fun step => step = .makeDest) installDir slug version root)
      (fun _ _ _ => False)
      (fun _ _ x => ∃ p, skill <+: p ∧ fs.entry p ≠ none ∧ x.entry p = none) := by
  have hlstat := (hP.apart s hs.outside).2
  have hexists : s.pathExists (host.start (destPath installDir slug)) (destPath installDir slug).tail = true := by
    rw [← hpresent, pathExists, pathExists, (hP.apart s hs.outside).1]
  refine get_spec ?_
  rw [if_pos hexists]
  refine Triple.andThen (Q := fun _ _ x => ∃ p, skill <+: p ∧ fs.entry p ≠ none ∧ x.entry p = none) ?_
    fun _ => ?_
  · refine (rmtree_spec _ _ (hlstat.trans hskill)).conseq (fun _ _ => id) ?_ ?_
    · rintro _ _ x ⟨-, rfl⟩
      exact ⟨old, hbelow, hold, remove_entry hbelow hne⟩
    · rintro _ _ x (⟨hrefused, -⟩ | ⟨hwhy, rfl⟩)
      · simp at hrefused
      · have hnot : ¬ Removable s (host.start (destPath installDir slug)) (destPath installDir slug).tail skill := by
          simpa using hwhy
        -- the contents are gone: there were some, or the directory could be removed
        by_contra hnone
        have hempty : ∀ p, skill <+: p → p ≠ skill → fs.entry p = none := by
          intro p hp hp'
          by_contra hentry
          exact hnone ⟨p, hp, hentry, clear_entry_below hp hp'⟩
        have hskillne : skill ≠ [] := by
          rintro rfl
          exact hold (hempty old hbelow hne)
        exact hnot (removable_of_empty hP hs hskill hskillne hempty)
  · rintro l x hx
    refine (Triple.andThen ((copytree_unmade _ root).conseq (fun _ _ => id) (fun _ _ _ h => h)
      fun _ _ y hy => hy ▸ hx) fun _ _ _ h => h.elim) l x rfl

/-- A directory can be made and filled, if the host refuses neither. -/
theorem place_copied (hP : host.Promises fs installDir slug) (hs : Within host.tmp fs s)
    (hroot : IsRoot host s root)
    (habsent : fs.pathExists (host.start (destPath installDir slug)) (destPath installDir slug).tail = false)
    (hresult : (makedirs (host.start (destPath installDir slug)) (destPath installDir slug).tail s).result = .ok ())
    (hskill : host.skillPlace fs installDir slug = some skill)
    (hmake : refuses .makeDest = false) (hcopy : refuses .copy = false) {Q E : FileSystem → Prop}
    (hrest : ∀ x, Copied host installDir slug (host.destMade installDir slug s) root skill x →
      Settled host fs skill x → Triple (fun _ y => y = x)
        (andThen (host.writeOriginJson refuses (destPath installDir slug) slug version) fun _ =>
          andThen (host.updateLockJson refuses installDir.parent slug version) fun _ =>
            ret (destPath installDir slug)) (fun _ _ y => Q y) (fun _ _ y => E y)) :
    Triple (fun _ x => x = s) (host.place refuses installDir slug version root) (fun _ _ x => Q x)
      (fun _ _ x => E x) := by
  have hexists : s.pathExists (host.start (destPath installDir slug)) (destPath installDir slug).tail = false := by
    rw [← habsent, pathExists, pathExists, (hP.apart s hs.outside).1]
  have hstart := (hP.extends_of_within hs).some (hP.start_dir (destPath installDir slug))
  obtain ⟨hsource, hsourceDir⟩ := hroot.stat hP hs
  refine get_spec ?_
  rw [if_neg (by simp [hexists])]
  refine Triple.andThen (Triple.ret fun _ _ hx => hx : Triple _ _ (fun _ _ x => x = s) _) fun _ => ?_
  refine Triple.andThen ((copytree_spec _ _ root hstart hP.dest_plain).conseq (fun _ _ => id)
    (fun _ _ _ => id) ?_) fun _ => ?_
  · rintro _ _ x ⟨-, h | h | h | h⟩
    · rw [hmake] at h
      cases h
    · rw [hcopy] at h
      cases h
    · exact absurd hsource (h root)
    · exact absurd hresult h
  · rintro l x ⟨-, source, skill', hsource', hmade, rfl⟩
    rw [hsource, Reached.entry.injEq] at hsource'
    obtain ⟨rfl, -⟩ := hsource'
    obtain ⟨hskill', hcopied, hsettled⟩ := copied_of_made hP hs hroot hmade
    rw [hskill, Option.some.injEq] at hskill'
    subst hskill'
    exact hrest _ hcopied hsettled l _ rfl

/-- No link is copied from an archive. -/
theorem Settled.noLink (hsettled : Settled host fs skill s) (rest : Place) (target : List Char) :
    s.entry (skill ++ rest) ≠ some (.link target) := by
  intro hlink
  rw [hsettled.links, entry_below hsettled.new] at hlink
  cases hlink

theorem OriginFree.clawhub_free {made : FileSystem} (hfree : OriginFree made root)
    (hsettled : Settled host fs skill s) (hcopied : Copied host installDir slug made root skill s) :
    s.entry (skill ++ [clawhub]) = none ∨ s.entry (skill ++ [clawhub]) = some .dir := by
  cases hentry : s.entry (skill ++ [clawhub]) with
  | none => exact .inl rfl
  | some e =>
    cases e with
    | dir => exact .inr rfl
    | file content =>
      rw [hcopied.below] at hentry
      exact absurd hentry (hfree.1 content)
    | link target => exact absurd hentry (hsettled.noLink _ target)

theorem OriginFree.originJson_free {made : FileSystem} (hfree : OriginFree made root)
    (hsettled : Settled host fs skill s) (hcopied : Copied host installDir slug made root skill s) :
    s.entry (skill ++ [clawhub, originJson]) = none ∨
      ∃ old, s.entry (skill ++ [clawhub, originJson]) = some (.file old) := by
  cases hentry : s.entry (skill ++ [clawhub, originJson]) with
  | none => exact .inl rfl
  | some e =>
    cases e with
    | file old => exact .inr ⟨old, rfl⟩
    | dir =>
      rw [hcopied.below] at hentry
      exact absurd hentry hfree.2
    | link target => exact absurd hentry (hsettled.noLink _ target)

/-- Where the archive leaves room, the origin file is written, if the host does not refuse it. -/
theorem writeOriginJson_done {made : FileSystem} (hP : host.Promises fs installDir slug)
    (hsettled : Settled host fs skill s) (hcopied : Copied host installDir slug made root skill s)
    (hfree : OriginFree made root) (hmake : refuses .makeOrigin = false) (hopen : refuses .openOrigin = false)
    (hwrite : refuses .writeOrigin = false) :
    Triple (fun _ x => x = s) (host.writeOriginJson refuses (destPath installDir slug) slug version)
      (fun _ _ x => Settled host fs skill x ∧
        ∃ content, x.entry (skill ++ [clawhub, originJson]) = some (.file content))
      (fun _ _ _ => False) := by
  have hstart := (hsettled.extends hP).some (hP.start_dir (destPath installDir slug))
  have hclawhub := hfree.clawhub_free hsettled hcopied
  have hsplit : skill ++ [clawhub, originJson] = skill ++ [clawhub] ++ [originJson] := by simp
  refine Triple.andThen ((permit_spec _ _).conseq (fun _ _ => id) (fun _ _ _ hx => hx.1) ?_) fun _ => ?_
  · rintro _ _ x ⟨-, h⟩
    rw [hmake] at h
    cases h
  refine Triple.andThen (mkdirParents_name hstart hcopied.stat clawhub_proper hclawhub) fun _ => ?_
  rintro l x ⟨hx, hxdir⟩
  have hgrows := grows_of_made hx hclawhub hxdir
  have hsame : x.entry (skill ++ [clawhub, originJson]) = s.entry (skill ++ [clawhub, originJson]) := by
    rcases hx with rfl | rfl
    · rfl
    · exact put_entry_of_ne _ (by simp)
  have hstat := stat_name (stat_extends hgrows.extends hcopied.stat) clawhub_proper (by simp) hxdir
  obtain ⟨opened, hopened, hfile⟩ := openWrite_name [] (hgrows.extends.some hstart) hstat
    originJson_proper (by rw [← hsplit, hsame]; exact hfree.originJson_free hsettled hcopied)
  have hpath : (destPath installDir slug).tail ++ [clawhub] ++ [originJson] =
      (destPath installDir slug).tail ++ [clawhub, originJson] := by simp
  rw [hpath, ← hsplit] at hopened
  rw [← hsplit] at hfile
  refine ((writeBytes_spec _ _ _).conseq (fun _ _ => id) ?_ ?_) l x rfl
  · rintro _ _ y ⟨-, p, opened', hopened', rfl⟩
    rw [hopened, Except.ok.injEq, Prod.mk.injEq] at hopened'
    obtain ⟨rfl, rfl⟩ := hopened'
    have hwritten := (openWrite_written (hgrows.extends.some hstart) hopened).put
      (host.dumps (.obj [("version", .num "1"), ("registry", .str "https://clawhub.ai"),
        ("slug", .str slug), ("installedVersion", .str version), ("installedAt", .num (toString host.now))]))
    exact ⟨(hsettled.grows hgrows).written (List.prefix_append _ _) hwritten, _, put_entry_of_file hfile _⟩
  · rintro _ _ y (⟨-, h | ⟨why, h⟩⟩ | ⟨h, -⟩)
    · rw [hopen] at h
      cases h
    · rw [hopened] at h
      cases h
    · rw [hwrite] at h
      cases h

/-- A usable lock file is read. -/
theorem readLock_usable {workspace : PurePath} {lock : Place} {content : List UInt8} {data : Json}
    (hstat : s.stat (host.start workspace) (lockTail workspace) = .entry lock (.file content))
    (hloads : host.loads content = some data) (hread : refuses .readLock = false) :
    Triple (fun _ x => x = s) (host.readLock refuses workspace) (fun found _ x => x = s ∧ found = data)
      (fun _ _ _ => False) := by
  refine get_spec ?_
  rw [if_pos (pathExists_of_stat hstat)]
  have hopen : s.openRead (host.start workspace) (lockTail workspace) = .ok (lock, content) := by
    rw [openRead, hstat]
  refine Triple.andThen (Q := fun found _ x => x = s ∧ found = content) ?_ fun found => ?_
  · refine (readBytes_spec _).conseq (fun _ _ => id) ?_ ?_
    · rintro found _ x ⟨rfl, p, hfound⟩
      rw [hopen, Except.ok.injEq, Prod.mk.injEq] at hfound
      exact ⟨rfl, hfound.2.symm⟩
    · rintro _ _ x ⟨-, h | ⟨why, h⟩⟩
      · rw [hread] at h
        cases h
      · rw [hopen] at h
        cases h
  · rintro l x ⟨rfl, rfl⟩
    rw [hloads]
    exact (Triple.ret fun _ _ hy => ⟨hy, rfl⟩ : Triple (fun _ y => y = x) (ret data)
      (fun found _ y => y = x ∧ found = data) fun _ _ _ => False) l x rfl

/-- A lock file that is there is opened before the host refuses to write it. -/
theorem updateLockJson_emptied (hP : host.Promises fs installDir slug) (hsettled : Settled host fs skill s)
    {lock : Place} {content : List UInt8} {data : Json}
    (hstat : fs.stat (host.start installDir.parent) (lockTail installDir.parent) = .entry lock (.file content))
    (hloads : host.loads content = some data) (hupdated : (host.lockUpdated slug version data).isSome) :
    Triple (fun _ x => x = s)
      (host.updateLockJson (fun step => step = .writeLock) installDir.parent slug version)
      (fun _ _ _ => False) (fun _ _ x => x.entry lock = some (.file [])) := by
  have hpath : lockTail installDir.parent = installDir.parent.tail ++ [clawhub] ++ ["lock.json".toList] := by
    simp [lockTail]
  have hextends := hsettled.extends hP
  have hstart := hextends.some (hP.start_dir installDir.parent)
  have hlock := stat_extends hextends hstat
  -- the directory of the lock file is there
  have hdirs := hlock
  rw [hpath] at hdirs
  obtain ⟨clawhubDir, hclawhub⟩ := stat_init hdirs
  obtain ⟨workspace, hworkspace⟩ := stat_init hclawhub
  have hentry : s.entry (workspace ++ [clawhub]) ≠ none := by
    intro hnone
    have := stat_name_missing hworkspace clawhub_proper hstart hnone
    rw [hclawhub] at this
    cases this
  obtain ⟨updated, hupdated⟩ := Option.isSome_iff_exists.mp hupdated
  have hopened : s.openWrite (host.start installDir.parent) (lockTail installDir.parent) [] =
      .ok (s.put lock (.file []), lock) := by
    rw [openWrite, hlock]
  refine Triple.andThen ((permit_spec _ _).conseq (fun _ _ => id) (fun _ _ _ hx => hx.1) ?_) fun _ => ?_
  · rintro _ _ x ⟨-, h⟩
    simp at h
  refine Triple.andThen ((mkdirParents_existing hworkspace hentry hclawhub).conseq (fun _ _ => id)
    (fun _ _ _ => id) fun _ _ _ h => h.elim) fun _ => ?_
  refine Triple.andThen ((readLock_usable hlock hloads (by simp)).conseq (fun _ _ => id) (fun _ _ _ => id)
    fun _ _ _ h => h.elim) fun found => ?_
  rintro l x ⟨rfl, rfl⟩
  rw [hupdated]
  refine ((writeBytes_spec _ _ _).conseq (fun _ _ => id) ?_ ?_) l x rfl
  · rintro _ _ y ⟨h, -⟩
    simp at h
  · rintro _ _ y (⟨-, h | ⟨why, h⟩⟩ | ⟨-, p, h⟩)
    · simp at h
    · rw [hopened] at h
      cases h
    · rw [hopened, Except.ok.injEq, Prod.mk.injEq] at h
      rw [← h.1]
      exact put_entry_of_file (stat_sound hstart hlock).1 _

/-- There is a file at `p`. -/
structure HasFile (host : InstallHost) (p : Place) (x : FileSystem) : Prop where
  cwd_dir : x.entry host.cwd = some .dir
  file : ∃ content, x.entry p = some (.file content)

theorem HasFile.start_dir {p : Place} (h : HasFile host p x) (q : PurePath) :
    x.entry (host.start q) = some .dir := by
  rw [start]
  split
  · exact h.cwd_dir
  · exact x.root

theorem HasFile.extends {p : Place} (h : HasFile host p s) (hextends : Extends s x) : HasFile host p x := by
  obtain ⟨content, hfile⟩ := h.file
  exact ⟨hextends.some h.cwd_dir, content, hextends.some hfile⟩

theorem HasFile.remove {p : Place} (htmp : ¬ host.tmp <+: p) (hcwd : ¬ host.tmp <+: host.cwd)
    (h : HasFile host p x) : HasFile host p (x.remove host.tmp) := by
  obtain ⟨content, hfile⟩ := h.file
  exact ⟨by rw [remove_entry_of_not hcwd, h.cwd_dir], content, by rw [remove_entry_of_not htmp, hfile]⟩

theorem mkdirParents_hasFile (p start : Place) (parts : List (List Char)) :
    Preserves (fun _ x => HasFile host p x) (mkdirParents start parts) :=
  mkdirParents_preserves fun _ _ _ => mkdir_preserves fun _ _ _ hx _ _ _ hnone =>
    hx.extends (grows_put hnone).extends

theorem writeBytes_hasFile (p : Place) (q : PurePath) (noOpen noWrite : Bool) (parts : List (List Char))
    (content : List UInt8) :
    Preserves (fun _ x => HasFile host p x) (writeBytes noOpen noWrite (host.start q) parts content) := by
  intro l x hx
  have hwritten : ∀ y place, FileJob.Written x y place → HasFile host p y := by
    intro y place hy
    refine ⟨?_, ?_⟩
    · rw [hy.others host.cwd, hx.cwd_dir]
      rintro rfl
      exact hy.noDir hx.cwd_dir
    · by_cases heq : p = place
      · rcases hy.written with hsame | hfile
        · rw [heq, hsame, ← heq]
          exact hx.file
        · exact heq ▸ hfile
      · rw [hy.others p heq]
        exact hx.file
  refine ((writeBytes_written noOpen noWrite content (hx.start_dir q)).conseq (fun _ _ => id) ?_ ?_) l x rfl
  · rintro _ _ y ⟨place, -, hy⟩
    exact hwritten y place hy
  · rintro _ _ y (rfl | ⟨place, -, hy⟩)
    · exact hx
    · exact hwritten y place hy

theorem writeOriginJson_hasFile (p : Place) (skillDir : PurePath) :
    Preserves (fun _ x => HasFile host p x) (host.writeOriginJson refuses skillDir slug version) := by
  refine Triple.andThen ((permit_spec _ _).conseq (fun _ _ => id) (fun _ _ _ hx => hx.1)
    fun _ _ _ hx => hx.1) fun _ => ?_
  exact Triple.andThen (mkdirParents_hasFile p _ _) fun _ => writeBytes_hasFile p skillDir _ _ _ _

theorem updateLockJson_hasFile (p : Place) (workspace : PurePath) :
    Preserves (fun _ x => HasFile host p x) (host.updateLockJson refuses workspace slug version) := by
  refine Triple.andThen ((permit_spec _ _).conseq (fun _ _ => id) (fun _ _ _ hx => hx.1)
    fun _ _ _ hx => hx.1) fun _ => ?_
  refine Triple.andThen (mkdirParents_hasFile p _ _) fun _ => ?_
  refine Triple.andThen (Q := fun _ _ x => HasFile host p x) ?_ fun data => ?_
  · intro l x hx
    refine ((readLock_spec workspace).conseq (fun _ _ => id) ?_ ?_) l x rfl
    · rintro _ _ y ⟨rfl, -⟩
      exact hx
    · rintro _ _ y rfl
      exact hx
  · split
    · exact writeBytes_hasFile p workspace _ _ _ _
    · exact Preserves.raise

/-! ## The condition is exact -/

/-- Where a directory is at the slug, refusing the new one loses what was in it. -/
theorem unsound_of_present (hP : host.Promises fs installDir slug) {version : Option String}
    {fetched : String × List UInt8} (hfetched : host.fetch slug version = .ok fetched)
    (hroot : (host.unpack (fun _ => false) fetched.2 (host.begun fs)).result = .ok root)
    (hs : Within host.tmp fs (host.unpack (fun _ => false) fetched.2 (host.begun fs)).state)
    (hpresent : fs.pathExists (host.start (destPath installDir slug)) (destPath installDir slug).tail = true)
    (hskill : fs.lstat (host.start (destPath installDir slug)) (destPath installDir slug).tail =
      some (skill, .dir)) {old : Place} (hne : old ≠ []) (hbelow : skill <+: old) (hold : fs.entry old ≠ none) :
    ¬ host.Sound fs installDir slug version := by
  intro hsound
  have hrun := installSkill_run (fun step => step = .makeDest) hfetched rfl (fun _ => rfl) hroot rfl
    (I := fun _ => False) (J := fun x => ∃ p, skill <+: p ∧ fs.entry p ≠ none ∧ x.entry p = none)
    (fun _ h => h) ?_ (place_removed hP hs hpresent hskill hne hbelow hold)
  · obtain ⟨-, hkeeps⟩ := hsound fun step => step = .makeDest
    have hpost := hrun [] fs rfl
    match hr : host.installSkill (fun step => step = .makeDest) slug version installDir fs with
    | ⟨.ok dest, x, l⟩ =>
      rw [hr] at hpost
      exact hpost
    | ⟨.error fault, x, l⟩ =>
      rw [hr] at hpost hkeeps
      obtain ⟨p, hp, hentry, hgone⟩ := hpost
      have hreal := lstat_realpath (hP.start_dir _) hP.dest_plain hskill
      have := (hkeeps ⟨fault, rfl⟩).version skill hreal p hp hentry
      rw [hgone] at this
      exact hentry this.symm
  · rintro x ⟨p, hp, hentry, hgone⟩
    refine ⟨p, hp, hentry, ?_⟩
    rw [remove_entry_of_not (hP.not_below hentry), hgone]

theorem Promises.not_below_new (hP : host.Promises fs installDir slug)
    (hskill : host.skillPlace fs installDir slug = some skill) (hnew : fs.entry skill = none) {p : Place}
    (hp : skill <+: p) : ¬ host.tmp <+: p := by
  intro htmp
  rcases List.prefix_or_prefix_of_prefix htmp hp with h | ⟨rest, hrest⟩
  · exact hP.unknown skill hskill h
  · have hparent := hP.tmp_parent
    rcases List.eq_nil_or_concat rest with rfl | ⟨up, name, rfl⟩
    · rw [List.append_nil] at hrest
      exact hP.unknown skill hskill (hrest ▸ List.prefix_refl _)
    · rw [← hrest, List.concat_eq_append, ← List.append_assoc, List.dropLast_concat, entry_below hnew] at hparent
      cases hparent

/-- Where the directory of the slug can be made, nothing was in its place. -/
theorem skill_new (hP : host.Promises fs installDir slug) (hs : Within host.tmp fs s)
    (hresult : (makedirs (host.start (destPath installDir slug)) (destPath installDir slug).tail s).result = .ok ())
    (hskill : host.skillPlace fs installDir slug = some skill) : fs.entry skill = none := by
  have hmade := (makedirs_spec ((hP.extends_of_within hs).some (hP.start_dir (destPath installDir slug)))
    hP.dest_plain) [] s rfl
  rcases hr : makedirs (host.start (destPath installDir slug)) (destPath installDir slug).tail s with ⟨r, made, l⟩
  rw [hr] at hmade hresult
  cases hresult
  obtain ⟨skill', hmade⟩ := hmade
  have hreal := hmade.real
  rw [skillPlace_of_within hs, hskill, Option.some.injEq] at hreal
  subst hreal
  rw [← hs.outside skill (hP.unknown skill hskill), hmade.new]

/-- Below the directory of the slug some file is written that is not the lock file. -/
theorem place_hasFile (hP : host.Promises fs installDir slug) (hs : Within host.tmp fs s)
    (hroot : IsRoot host s root)
    (habsent : fs.pathExists (host.start (destPath installDir slug)) (destPath installDir slug).tail = false)
    (hresult : (makedirs (host.start (destPath installDir slug)) (destPath installDir slug).tail s).result = .ok ())
    (hskill : host.skillPlace fs installDir slug = some skill)
    (hlock : ¬ host.OnlyLock fs installDir (host.destMade installDir slug s) root skill) :
    ∃ p, skill <+: p ∧ host.lockPlace fs installDir ≠ some p ∧
      Triple (fun _ x => x = s) (host.place (fun _ => false) installDir slug version root)
        (fun _ _ x => HasFile host p x) (fun _ _ x => HasFile host p x) := by
  have hcwd : ∀ x, Settled host fs skill x → x.entry host.cwd = some .dir :=
    fun x hx => (hx.extends hP).some hP.cwd_dir
  rw [OnlyLock, not_and_or] at hlock
  rcases hlock with hfile | horigin
  · push Not at hfile
    obtain ⟨rest, content, hfile, hne⟩ := hfile
    refine ⟨skill ++ rest, List.prefix_append _ _, hne, ?_⟩
    refine place_copied hP hs hroot habsent hresult hskill rfl rfl fun x hcopied hsettled => ?_
    have hx : HasFile host (skill ++ rest) x := ⟨hcwd x hsettled, content, (hcopied.below rest).trans hfile⟩
    refine Triple.strengthen (Triple.andThen (writeOriginJson_hasFile _ _) fun _ =>
      Triple.andThen (updateLockJson_hasFile _ _) fun _ => Preserves.pure) ?_
    rintro _ _ rfl
    exact hx
  · rw [Classical.not_imp] at horigin
    refine ⟨skill ++ [clawhub, originJson], List.prefix_append _ _, horigin.2, ?_⟩
    refine place_copied hP hs hroot habsent hresult hskill rfl rfl fun x hcopied hsettled => ?_
    refine Triple.andThen ((writeOriginJson_done hP hsettled hcopied horigin.1 rfl rfl rfl).conseq
      (fun _ _ => id) (fun _ _ y hy => (⟨hcwd y hy.1, hy.2⟩ : HasFile host _ y)) fun _ _ _ h => h.elim)
      fun _ => ?_
    exact Triple.andThen (updateLockJson_hasFile _ _) fun _ => Preserves.pure

/-- A slug that leads out of the install directory puts files there. -/
theorem unsound_of_outside (hP : host.Promises fs installDir slug) {version : Option String}
    {fetched : String × List UInt8} (hfetched : host.fetch slug version = .ok fetched)
    (hunpacked : (host.unpack (fun _ => false) fetched.2 (host.begun fs)).result = .ok root)
    (hstate : (host.unpack (fun _ => false) fetched.2 (host.begun fs)).state = s)
    (hs : Within host.tmp fs s) (hroot : IsRoot host s root)
    (habsent : fs.pathExists (host.start (destPath installDir slug)) (destPath installDir slug).tail = false)
    (hresult : (makedirs (host.start (destPath installDir slug)) (destPath installDir slug).tail s).result = .ok ())
    (hskill : host.skillPlace fs installDir slug = some skill) (houtside : ¬ host.Inside fs installDir skill)
    (hlock : ¬ host.OnlyLock fs installDir (host.destMade installDir slug s) root skill) :
    ¬ host.Sound fs installDir slug version := by
  intro hsound
  have hnew := skill_new hP hs hresult hskill
  obtain ⟨p, hp, hplock, hplace⟩ := place_hasFile hP hs hroot habsent hresult hskill hlock
  have htmp := hP.not_below_new hskill hnew hp
  have hcwd : ¬ host.tmp <+: host.cwd := hP.not_below (by simp [hP.cwd_dir])
  have hrun := installSkill_run (fun _ => false) hfetched rfl (fun _ => rfl) hunpacked hstate
    (fun _ hx => hx.remove htmp hcwd) (fun _ hx => hx.remove htmp hcwd) hplace
  have hfinal : HasFile host p (host.installSkill (fun _ => false) slug version installDir fs).state :=
    Triple.finish hrun rfl
  obtain ⟨content, hfile⟩ := hfinal.file
  have hnone : fs.entry p = none := by
    obtain ⟨rest, rfl⟩ := hp
    exact entry_below hnew
  rcases (hsound fun _ => false).1 p with h | ⟨skill', hskill', hinside, -⟩ | h | h | h
  · exact htmp h
  · rw [hskill, Option.some.injEq] at hskill'
    exact houtside (hskill' ▸ hinside)
  · rw [hfile, hnone] at h
    cases h
  · rw [hfile] at h
    cases h.2
  · exact hplock h.1

/-- The host may refuse to write the lock file that it has opened. -/
theorem unsound_of_lock (hP : host.Promises fs installDir slug) {version : Option String}
    {fetched : String × List UInt8} (hfetched : host.fetch slug version = .ok fetched)
    (hunpacked : (host.unpack (fun _ => false) fetched.2 (host.begun fs)).result = .ok root)
    (hstate : (host.unpack (fun _ => false) fetched.2 (host.begun fs)).state = s)
    (hs : Within host.tmp fs s) (hroot : IsRoot host s root)
    (habsent : fs.pathExists (host.start (destPath installDir slug)) (destPath installDir slug).tail = false)
    (hresult : (makedirs (host.start (destPath installDir slug)) (destPath installDir slug).tail s).result = .ok ())
    (hskill : host.skillPlace fs installDir slug = some skill)
    (hfree : OriginFree (host.destMade installDir slug s) root)
    (husable : host.LockUsable fs installDir slug fetched.1) :
    ¬ host.Sound fs installDir slug version := by
  intro hsound
  obtain ⟨lock, content, data, hstat, hloads, hupdated⟩ := husable
  have hlockfile := (stat_sound (hP.start_dir _) hstat).1
  have hplace : Triple (fun _ x => x = s)
      (host.place (fun step => step = .writeLock) installDir slug fetched.1 root) (fun _ _ _ => False)
      (fun _ _ x => x.entry lock = some (.file [])) := by
    refine place_copied hP hs hroot habsent hresult hskill rfl rfl fun x hcopied hsettled => ?_
    refine Triple.andThen ((writeOriginJson_done hP hsettled hcopied hfree rfl rfl rfl).conseq
      (fun _ _ => id) (fun _ _ _ hy => hy.1) fun _ _ _ h => h.elim) fun _ => ?_
    intro l y hy
    refine (Triple.andThen (updateLockJson_emptied hP hy hstat hloads hupdated) fun _ _ _ h => h.elim) l y rfl
  have hrun := installSkill_run (fun step => step = .writeLock) hfetched rfl (fun _ => rfl) hunpacked
    hstate (fun _ h => h) ?_ hplace
  · obtain ⟨-, hkeeps⟩ := hsound fun step => step = .writeLock
    have hpost := hrun [] fs rfl
    match hr : host.installSkill (fun step => step = .writeLock) slug version installDir fs with
    | ⟨.ok dest, x, l⟩ =>
      rw [hr] at hpost
      exact hpost
    | ⟨.error fault, x, l⟩ =>
      rw [hr] at hpost hkeeps
      have hkept := (hkeeps ⟨fault, rfl⟩).lock lock _ hstat
      have hempty : x.entry lock = some (.file []) := hpost
      rw [hempty, Option.some.injEq, Entry.file.injEq] at hkept
      rw [← hkept, hP.loads_nil] at hloads
      cases hloads
  · intro x hx
    rw [remove_entry_of_not (hP.not_below (by simp [hlockfile])), hx]

/-- The installation is sound, whatever the host refuses in it, exactly if what is fetched is harmless at its slug. -/
theorem installSkill_sound_iff (host : InstallHost) (fs : FileSystem) (installDir : PurePath) (slug : String)
    (version : Option String) (hP : host.Promises fs installDir slug) :
    host.Sound fs installDir slug version ↔ host.Safe fs installDir slug version := by
  constructor
  · intro hsound fetched hfetched root hunpacked
    obtain ⟨hs, hroot⟩ : Within host.tmp fs (host.unpack (fun _ => false) fetched.2 (host.begun fs)).state ∧
        IsRoot host (host.unpack (fun _ => false) fetched.2 (host.begun fs)).state root := by
      have hpost := unpack_within (fun _ => false) fetched.2 [] (host.begun fs) hP.within_tmp
      match hr : host.unpack (fun _ => false) fetched.2 (host.begun fs) with
      | ⟨.ok found, x, l⟩ =>
        rw [hr] at hpost hunpacked
        obtain rfl := Except.ok.inj hunpacked
        exact hpost
      | ⟨.error fault, x, l⟩ =>
        rw [hr] at hunpacked
        cases hunpacked
    constructor
    · intro hpresent skill hskill old hne hbelow
      by_contra hold
      exact unsound_of_present hP hfetched hunpacked hs hpresent hskill hne hbelow hold hsound
    · intro habsent hresult skill hskill
      constructor
      · by_contra hnot
        rw [not_or] at hnot
        exact unsound_of_outside hP hfetched hunpacked rfl hs hroot habsent hresult hskill hnot.1 hnot.2 hsound
      · rintro ⟨hfree, husable⟩
        exact unsound_of_lock hP hfetched hunpacked rfl hs hroot habsent hresult hskill hfree husable hsound
  · intro hsafe refuses
    have hpost := sound_of_safe hP hsafe refuses [] fs rfl
    match hr : host.installSkill refuses slug version installDir fs with
    | ⟨.ok dest, x, l⟩ =>
      rw [hr] at hpost
      exact ⟨hpost, fun ⟨_, herror⟩ => by cases herror⟩
    | ⟨.error fault, x, l⟩ =>
      rw [hr] at hpost
      exact ⟨hpost.1, fun _ => hpost.2⟩

end Steps

/-! ## A failed update -/

/-- A workspace `/w` with the skill `deploy`. -/
def deployFs : FileSystem :=
  .ofEntries [(["w".toList], .dir), (["w".toList, "skills".toList], .dir),
    (["w".toList, "skills".toList, "deploy".toList], .dir),
    (["w".toList, "skills".toList, "deploy".toList, skillMd], .file [1]), (["tmp".toList], .dir)] (by decide)

/-- The service has a new version of it. -/
def deployHost : InstallHost where
  cwd := []
  tmp := ["tmp".toList, "t".toList]
  getDetail _ := .ok { latestVersion := "2", sha256hash := none }
  download _ _ := .ok [80, 75]
  hexdigest _ := ""
  lower text := text
  zipFile _ := .ok { namelist := [skillMd], getinfo := fun _ => { fileSize := 1, content := .ok [2] } }
  loads _ := none
  dumps _ := [123, 125]
  now := 0

def deployDir : PurePath := ⟨.slash, ["w".toList, "skills".toList]⟩

theorem deployHost_promises : deployHost.Promises deployFs deployDir "deploy" := by
  have hdest : destPath deployDir "deploy" =
      ⟨.slash, ["w".toList, "skills".toList, "deploy".toList]⟩ := by decide +kernel
  have hskill : deployHost.skillPlace deployFs deployDir "deploy" =
      some ["w".toList, "skills".toList, "deploy".toList] := by decide +kernel
  have hlooks : ∀ s : FileSystem, (∀ p, ¬ deployHost.tmp <+: p → s.entry p = deployFs.entry p) →
      s.stat [] ["w".toList, "skills".toList, "deploy".toList] =
          .entry ["w".toList, "skills".toList, "deploy".toList] .dir ∧
        s.lstat [] ["w".toList, "skills".toList, "deploy".toList] =
          some (["w".toList, "skills".toList, "deploy".toList], .dir) := by
    intro s hs
    have hskills : s.entry ["w".toList, "skills".toList] = some .dir := hs _ (by decide)
    have hdeploy : s.entry ["w".toList, "skills".toList, "deploy".toList] = some .dir := hs _ (by decide)
    refine ⟨stat_of_entry hdeploy (by simp), ?_⟩
    have hstat : s.stat [] ["w".toList, "skills".toList] = .entry ["w".toList, "skills".toList] .dir :=
      stat_of_entry hskills (by simp)
    have hlast : ["w".toList, "skills".toList, "deploy".toList].getLast? = some "deploy".toList := rfl
    have hinit : ["w".toList, "skills".toList, "deploy".toList].dropLast = ["w".toList, "skills".toList] := rfl
    rw [lstat, hlast, hinit]
    simp only [hstat]
    rw [if_neg (by decide)]
    exact congrArg (Option.map _) hdeploy
  have hplain : PathParts deployDir.tail := by
    intro part hpart
    rcases List.mem_cons.mp hpart with rfl | hpart
    · decide
    · rw [List.mem_singleton.mp hpart]
      decide
  refine ⟨by decide, by decide, by decide +kernel, by decide, by decide +kernel, ?_, ?_, hplain, rfl⟩
  · rw [hskill]
    rintro skill hsome
    cases hsome
    decide
  · intro s hs
    obtain ⟨hstat, hlstat⟩ := hlooks s hs
    obtain ⟨hstat', hlstat'⟩ := hlooks deployFs fun _ _ => rfl
    rw [hdest]
    exact ⟨hstat.trans hstat'.symm, hlstat.trans hlstat'.symm⟩

/-- Nothing about it is sound: what is fetched is not harmless there. -/
theorem deploy_sound_iff : deployHost.Sound deployFs deployDir "deploy" none ↔
    deployHost.Safe deployFs deployDir "deploy" none :=
  installSkill_sound_iff deployHost deployFs deployDir "deploy" none deployHost_promises

/-- The host has no room for the directory of the new version: the one before it is lost. -/
theorem deploy_lost : ¬ ∀ (host : InstallHost) (fs : FileSystem) (installDir : PurePath) (slug : String)
    (version : Option String), host.Promises fs installDir slug → host.Sound fs installDir slug version := by
  intro h
  have hsound := h deployHost deployFs deployDir "deploy" none deployHost_promises
    fun step => step = .makeDest
  have herror : (deployHost.installSkill (fun step => step = .makeDest) "deploy" none deployDir deployFs).result =
      .error .refused := by decide +kernel
  have hgone : (deployHost.installSkill (fun step => step = .makeDest) "deploy" none deployDir deployFs).state.entry
      ["w".toList, "skills".toList, "deploy".toList, skillMd] = none := by decide +kernel
  have hkeeps := (hsound.2 ⟨_, herror⟩).version ["w".toList, "skills".toList, "deploy".toList]
    (by decide +kernel) ["w".toList, "skills".toList, "deploy".toList, skillMd] (by decide) (by decide +kernel)
  rw [hgone] at hkeeps
  exact absurd hkeeps (by decide +kernel)

end InstallHost

end PyClaw
