import PyClaw.Lib.FileSystem

/-!
# Lib.FileTree

Trees in a file system: how paths go on after a change, and the calls that make, remove and copy trees.

* `Extends`, `Grows`: nothing that was there changes; only directories are new.
* `walk_extends`, `walk_append`, `real_append`: a path leads on as before, and by its parts.
-/

namespace PyClaw

namespace FileSystem

/-- What is in `fs` is in `fs'`. -/
def Extends (fs fs' : FileSystem) : Prop := ∀ place, fs.entry place ≠ none → fs'.entry place = fs.entry place

/-- Only directories are new. -/
def Grows (fs fs' : FileSystem) : Prop :=
  ∀ place, fs'.entry place = fs.entry place ∨ fs.entry place = none ∧ fs'.entry place = some .dir

section
variable {fs fs' fs'' : FileSystem} {start place dir : Place} {parts more : List (List Char)} {name : List Char}
  {e : Entry} {links : Nat} {r : Reached}

theorem Extends.trans (h : Extends fs fs') (h' : Extends fs' fs'') : Extends fs fs'' := by
  intro place hplace
  have hsame := h place hplace
  rw [h' place (hsame ▸ hplace), hsame]

theorem Extends.some (h : Extends fs fs') (hentry : fs.entry place = some e) :
    fs'.entry place = some e := by
  rw [h place (by simp [hentry]), hentry]

theorem Grows.refl (fs : FileSystem) : Grows fs fs := fun _ => .inl rfl

theorem Grows.trans (h : Grows fs fs') (h' : Grows fs' fs'') : Grows fs fs'' := by
  intro place
  rcases h place with hsame | ⟨hnone, hdir⟩
  · rw [← hsame]
    exact h' place
  · rcases h' place with hsame | ⟨hnone', -⟩
    · exact .inr ⟨hnone, hsame.trans hdir⟩
    · rw [hdir] at hnone'
      cases hnone'

theorem Grows.extends (h : Grows fs fs') : Extends fs fs' :=
  fun place hplace => (h place).resolve_right fun hnone => hplace hnone.1

theorem Grows.sameLinks (h : Grows fs fs') : SameLinks fs fs' := by
  intro place target
  rcases h place with hsame | ⟨hnone, hdir⟩
  · rw [hsame]
  · simp [hnone, hdir]

/-! ## Paths -/

theorem walkBy_extends {follow follow' : Place → List Char → List (List Char) → Reached}
    (hfollow : ∀ dir target rest, follow dir target rest = .entry place e →
      follow' dir target rest = .entry place e)
    (h : Extends fs fs') (hwalk : fs.walkBy follow start parts = .entry place e) :
    fs'.walkBy follow' start parts = .entry place e := by
  induction parts generalizing start with
  | nil =>
    rw [walkBy] at hwalk ⊢
    cases hentry : fs.entry start with
    | none => simp [hentry] at hwalk
    | some found => simpa [hentry, h.some hentry] using hwalk
  | cons part rest ih =>
    rw [walkBy] at hwalk ⊢
    split at hwalk
    · cases hwalk
    · rename_i hdir
      rw [not_not] at hdir
      rw [if_neg (by simp [h.some hdir])]
      split at hwalk
      · rename_i hskip
        rw [if_pos hskip]
        exact ih hwalk
      · rename_i hskip
        rw [if_neg hskip]
        split at hwalk
        · rename_i hup
          rw [if_pos hup]
          exact ih hwalk
        · rename_i hup
          rw [if_neg hup]
          cases hentry : fs.entry (start ++ [part]) with
          | none =>
            simp only [hentry] at hwalk
            split at hwalk <;> cases hwalk
          | some found =>
            cases found with
            | dir => simpa only [h.some hentry] using ih (by simpa only [hentry] using hwalk)
            | file content => simpa only [h.some hentry] using ih (by simpa only [hentry] using hwalk)
            | link target => simpa only [h.some hentry] using hfollow _ _ _ (by simpa only [hentry] using hwalk)

/-- What a path leads to it leads to still. -/
theorem walk_extends (h : Extends fs fs') (hwalk : fs.walk links start parts = .entry place e) :
    fs'.walk links start parts = .entry place e := by
  induction links generalizing start parts with
  | zero => exact walkBy_extends (fun _ _ _ hnever => by cases hnever) h hwalk
  | succ links ih => exact walkBy_extends (fun _ _ _ hrest => ih hrest) h hwalk

theorem stat_extends (h : Extends fs fs') (hstat : fs.stat start parts = .entry place e) :
    fs'.stat start parts = .entry place e := by
  rw [stat] at hstat ⊢
  split at hstat
  · cases hstat
  · rename_i hnul
    rw [if_neg hnul]
    exact walk_extends h hstat

theorem walkBy_append {follow : Place → List Char → List (List Char) → Reached}
    (hfollow : ∀ dir' target rest, follow dir' target rest = .entry dir .dir →
      follow dir' target (rest ++ more) = r)
    (hmore : fs.walkBy follow dir more = r) (hwalk : fs.walkBy follow start parts = .entry dir .dir) :
    fs.walkBy follow start (parts ++ more) = r := by
  induction parts generalizing start with
  | nil =>
    rw [walkBy] at hwalk
    cases hentry : fs.entry start with
    | none => simp [hentry] at hwalk
    | some found =>
      simp only [hentry, Reached.entry.injEq] at hwalk
      rw [List.nil_append, hwalk.1]
      exact hmore
  | cons part rest ih =>
    rw [List.cons_append]
    rw [walkBy] at hwalk ⊢
    split at hwalk
    · cases hwalk
    · rename_i hdir
      rw [if_neg hdir]
      split at hwalk
      · rename_i hskip
        rw [if_pos hskip]
        exact ih hwalk
      · rename_i hskip
        rw [if_neg hskip]
        split at hwalk
        · rename_i hup
          rw [if_pos hup]
          exact ih hwalk
        · rename_i hup
          rw [if_neg hup]
          cases hentry : fs.entry (start ++ [part]) with
          | none =>
            simp only [hentry] at hwalk
            split at hwalk <;> cases hwalk
          | some found =>
            cases found with
            | dir => exact ih (by simpa only [hentry] using hwalk)
            | file content => exact ih (by simpa only [hentry] using hwalk)
            | link target => exact hfollow _ _ _ (by simpa only [hentry] using hwalk)

/-- From the directory that the first parts lead to, the others lead on. -/
theorem walk_append (hwalk : fs.walk links start parts = .entry dir .dir)
    (hmore : ∀ links, fs.walk links dir more = r) : fs.walk links start (parts ++ more) = r := by
  induction links generalizing start parts with
  | zero => exact walkBy_append (fun _ _ _ hnever => by cases hnever) (hmore 0) hwalk
  | succ links ih =>
    refine walkBy_append ?_ (hmore (links + 1)) hwalk
    intro dir' target rest hrest
    rw [← List.append_assoc]
    exact ih hrest

theorem realBy_append {follow : Place → List Char → List (List Char) → Option Place} {found : Option Place}
    (hfollow : ∀ dir' target rest, follow dir' target rest = some dir →
      follow dir' target (rest ++ more) = found)
    (hmore : fs.realBy follow dir more = found) (hreal : fs.realBy follow start parts = some dir) :
    fs.realBy follow start (parts ++ more) = found := by
  induction parts generalizing start with
  | nil =>
    rw [realBy, Option.some.injEq] at hreal
    rw [List.nil_append, hreal]
    exact hmore
  | cons part rest ih =>
    rw [List.cons_append]
    rw [realBy] at hreal ⊢
    split at hreal
    · rename_i hskip
      rw [if_pos hskip]
      exact ih hreal
    · rename_i hskip
      rw [if_neg hskip]
      split at hreal
      · rename_i hup
        rw [if_pos hup]
        exact ih hreal
      · rename_i hup
        rw [if_neg hup]
        cases hentry : fs.entry (start ++ [part]) with
        | none => exact ih (by simpa only [hentry] using hreal)
        | some found =>
          cases found with
          | dir => exact ih (by simpa only [hentry] using hreal)
          | file content => exact ih (by simpa only [hentry] using hreal)
          | link target => exact hfollow _ _ _ (by simpa only [hentry] using hreal)

theorem real_append {found : Option Place} (hreal : fs.real links start parts = some dir)
    (hmore : ∀ links, fs.real links dir more = found) : fs.real links start (parts ++ more) = found := by
  induction links generalizing start parts with
  | zero => exact realBy_append (fun _ _ _ hnever => by cases hnever) (hmore 0) hreal
  | succ links ih =>
    refine realBy_append ?_ (hmore (links + 1)) hreal
    intro dir' target rest hrest
    rw [← List.append_assoc]
    exact ih hrest

theorem walkBy_init {follow : Place → List Char → List (List Char) → Reached}
    (hfollow : ∀ dir' target rest, follow dir' target (rest ++ [name]) = .entry place e →
      ∃ dir, follow dir' target rest = .entry dir .dir)
    (hwalk : fs.walkBy follow start (parts ++ [name]) = .entry place e) :
    ∃ dir, fs.walkBy follow start parts = .entry dir .dir := by
  induction parts generalizing start with
  | nil =>
    rw [List.nil_append, walkBy] at hwalk
    split at hwalk
    · cases hwalk
    · rename_i hdir
      rw [not_not] at hdir
      exact ⟨start, by rw [walkBy, hdir]⟩
  | cons part rest ih =>
    rw [List.cons_append, walkBy] at hwalk
    rw [walkBy]
    split at hwalk
    · cases hwalk
    · rename_i hdir
      rw [if_neg hdir]
      split at hwalk
      · rename_i hskip
        rw [if_pos hskip]
        exact ih hwalk
      · rename_i hskip
        rw [if_neg hskip]
        split at hwalk
        · rename_i hup
          rw [if_pos hup]
          exact ih hwalk
        · rename_i hup
          rw [if_neg hup]
          cases hentry : fs.entry (start ++ [part]) with
          | none =>
            simp only [hentry] at hwalk
            split at hwalk <;> cases hwalk
          | some found =>
            cases found with
            | dir => exact ih (by simpa only [hentry] using hwalk)
            | file content => exact ih (by simpa only [hentry] using hwalk)
            | link target => exact hfollow _ _ _ (by simpa only [hentry] using hwalk)

/-- What a path leads to stands in a directory that the path without its last part leads to. -/
theorem walk_init (hwalk : fs.walk links start (parts ++ [name]) = .entry place e) :
    ∃ dir, fs.walk links start parts = .entry dir .dir := by
  induction links generalizing start parts with
  | zero => exact walkBy_init (fun _ _ _ hnever => by cases hnever) hwalk
  | succ links ih =>
    refine walkBy_init ?_ hwalk
    intro dir' target rest hrest
    rw [← List.append_assoc] at hrest
    exact ih hrest

theorem walkBy_missing {follow : Place → List Char → List (List Char) → Reached}
    (hfollow : ∀ dir' target rest, follow dir' target rest = .missing dir name →
      fs.entry (dir ++ [name]) = none)
    (hwalk : fs.walkBy follow start parts = .missing dir name) : fs.entry (dir ++ [name]) = none := by
  induction parts generalizing start with
  | nil =>
    rw [walkBy] at hwalk
    split at hwalk <;> cases hwalk
  | cons part rest ih =>
    rw [walkBy] at hwalk
    split at hwalk
    · cases hwalk
    · split at hwalk
      · exact ih hwalk
      · split at hwalk
        · exact ih hwalk
        · split at hwalk
          · rename_i hnone
            split at hwalk
            · rw [Reached.missing.injEq] at hwalk
              rw [← hwalk.1, ← hwalk.2]
              exact hnone
            · cases hwalk
          · exact hfollow _ _ _ hwalk
          · exact ih hwalk
          · exact ih hwalk

theorem walk_missing (hwalk : fs.walk links start parts = .missing dir name) :
    fs.entry (dir ++ [name]) = none := by
  induction links generalizing start parts with
  | zero => exact walkBy_missing (fun _ _ _ hnever => by cases hnever) hwalk
  | succ links ih => exact walkBy_missing (fun _ _ _ hrest => ih hrest) hwalk

theorem stat_missing (hstat : fs.stat start parts = .missing dir name) :
    fs.entry (dir ++ [name]) = none := by
  rw [stat] at hstat
  split at hstat
  · cases hstat
  · exact walk_missing hstat

/-- The path has no part that no entry can have for a NUL. -/
def NulFree (parts : List (List Char)) : Prop := ¬ (parts.any (·.contains '\x00')) = true

theorem nulFree_append : NulFree (parts ++ more) ↔ NulFree parts ∧ NulFree more := by
  simp only [NulFree, List.any_append, Bool.or_eq_true, not_or]

theorem nulFree_of_stat (hstat : fs.stat start parts = .entry place e) : NulFree parts := by
  intro hnul
  rw [stat, if_pos hnul] at hstat
  cases hstat

theorem nulFree_of_realpath (hreal : fs.realpath start parts = some place) : NulFree parts := by
  intro hnul
  rw [realpath, if_pos hnul] at hreal
  cases hreal

theorem stat_append (hstat : fs.stat start parts = .entry dir .dir) (hnul : NulFree more)
    (hmore : ∀ links, fs.walk links dir more = r) : fs.stat start (parts ++ more) = r := by
  have hfree := nulFree_append.mpr ⟨nulFree_of_stat hstat, hnul⟩
  rw [stat, if_neg (nulFree_of_stat hstat)] at hstat
  rw [stat, if_neg hfree]
  exact walk_append hstat hmore

theorem realpath_append {found : Option Place} (hreal : fs.realpath start parts = some dir)
    (hnul : NulFree more) (hmore : ∀ links, fs.real links dir more = found) :
    fs.realpath start (parts ++ more) = found := by
  rw [realpath] at hreal
  split at hreal
  · cases hreal
  · rename_i hparts
    rw [realpath, if_neg (nulFree_append.mpr ⟨hparts, hnul⟩)]
    exact real_append hreal hmore

theorem realpath_of_stat (hstat : fs.stat start parts = .entry place e) :
    fs.realpath start parts = some place :=
  realpath_of_reached (by rw [hstat]; rfl)

theorem stat_init (hstat : fs.stat start (parts ++ [name]) = .entry place e) :
    ∃ dir, fs.stat start parts = .entry dir .dir := by
  have hnul := nulFree_append.mp (nulFree_of_stat hstat)
  rw [stat, if_neg (nulFree_of_stat hstat)] at hstat
  rw [stat, if_neg hnul.1]
  exact walk_init hstat

/-- A name in a directory leads to what the directory holds under it. -/
theorem stat_name (hstat : fs.stat start parts = .entry dir .dir) (hname : ProperName name)
    (he : ∀ target, e ≠ .link target) (hentry : fs.entry (dir ++ [name]) = some e) :
    fs.stat start (parts ++ [name]) = .entry (dir ++ [name]) e := by
  refine stat_append hstat (nul_free (by simpa using hname)) fun links => ?_
  exact walk_of_entry hentry he

theorem stat_name_missing (hstat : fs.stat start parts = .entry dir .dir) (hname : ProperName name)
    (hstart : fs.entry start = some .dir) (hentry : fs.entry (dir ++ [name]) = none) :
    fs.stat start (parts ++ [name]) = .missing dir name := by
  have hdir := (stat_sound hstart hstat).1
  refine stat_append hstat (nul_free (by simpa using hname)) fun links => ?_
  obtain ⟨hempty, hdot, hup, -, -⟩ := hname
  obtain ⟨follow, hfollow⟩ := walk_eq_walkBy fs links
  rw [hfollow, walkBy, if_neg (by simp [hdir]), if_neg (by simp [hempty, hdot]), if_neg hup]
  simp [hentry]

/-- A file can be opened for writing in a directory where nothing, or a file, has its name. -/
theorem openWrite_name (content : List UInt8) (hstart : fs.entry start = some .dir)
    (hstat : fs.stat start parts = .entry dir .dir) (hname : ProperName name)
    (hfree : fs.entry (dir ++ [name]) = none ∨ ∃ old, fs.entry (dir ++ [name]) = some (.file old)) :
    ∃ fs', fs.openWrite start (parts ++ [name]) content = .ok (fs', dir ++ [name]) ∧
      fs'.entry (dir ++ [name]) = some (.file content) := by
  have hdir := (stat_sound hstart hstat).1
  rcases hfree with hentry | ⟨old, hentry⟩
  · rw [openWrite, stat_name_missing hstat hname hstart hentry]
    exact ⟨_, rfl, put_entry hdir hname (by rw [hentry]; simp) _⟩
  · rw [openWrite, stat_name hstat hname (by simp) hentry]
    exact ⟨_, rfl, put_entry_of_file hentry _⟩

theorem realpath_name (hreal : fs.realpath start parts = some dir) (hname : ProperName name)
    (hentry : ∀ target, fs.entry (dir ++ [name]) ≠ some (.link target)) :
    fs.realpath start (parts ++ [name]) = some (dir ++ [name]) := by
  refine realpath_append hreal (nul_free (by simpa using hname)) fun links => ?_
  obtain ⟨hempty, hdot, hup, -, -⟩ := hname
  obtain ⟨follow, hfollow⟩ := real_eq_realBy fs links
  rw [hfollow, realBy, if_neg (by simp [hempty, hdot]), if_neg hup]
  cases hfound : fs.entry (dir ++ [name]) with
  | none => rfl
  | some found =>
    cases found with
    | dir => rfl
    | file content => rfl
    | link target => exact absurd hfound (hentry target)

theorem realpath_up (hreal : fs.realpath start parts = some dir) :
    fs.realpath start (parts ++ [['.', '.']]) = some dir.dropLast := by
  refine realpath_append hreal (by simp [NulFree]) fun links => ?_
  obtain ⟨follow, hfollow⟩ := real_eq_realBy fs links
  rw [hfollow, realBy, if_neg (by simp), if_pos rfl, realBy]

end

/-! ## Trees -/

/-- The directory `top` without what is below it. -/
def clear (fs : FileSystem) (top : Place) : FileSystem where
  entry place := if top <+: place ∧ place ≠ top then none else fs.entry place
  root := by
    rw [if_neg, fs.root]
    rintro ⟨hpre, hne⟩
    exact hne (List.prefix_nil.mp hpre).symm
  parent place name h := by
    split at h
    · exact absurd rfl h
    · rename_i hout
      rw [if_neg, fs.parent place name h]
      rintro ⟨hpre, -⟩
      refine hout ⟨hpre.trans (List.prefix_append _ _), ?_⟩
      rintro heq
      have hlen := hpre.length_le
      rw [← heq, List.length_append, List.length_singleton] at hlen
      omega
  proper place name h := by
    split at h
    · exact absurd rfl h
    · exact fs.proper place name h

/-- `fs` without `top` and what is below it; the root stays. -/
def remove (fs : FileSystem) (top : Place) : FileSystem where
  entry place := if top <+: place ∧ place ≠ [] then none else fs.entry place
  root := by
    rw [if_neg, fs.root]
    exact fun h => h.2 rfl
  parent place name h := by
    split at h
    · exact absurd rfl h
    · rename_i hout
      rw [if_neg, fs.parent place name h]
      rintro ⟨hpre, -⟩
      exact hout ⟨hpre.trans (List.prefix_append _ _), by simp⟩
  proper place name h := by
    split at h
    · exact absurd rfl h
    · exact fs.proper place name h

/-- The directory `top` with a copy of the tree at `source` for all that is below it. -/
def fill (fs : FileSystem) (source top : Place) : FileSystem :=
  if h : fs.entry source = some .dir ∧ fs.entry top = some .dir then
    { entry := fun place =>
        if top <+: place then fs.entry (source ++ place.drop top.length) else fs.entry place
      root := by
        split
        · rename_i hpre
          rw [List.prefix_nil.mp hpre, List.length_nil, List.drop_nil, List.append_nil]
          exact h.1
        · exact fs.root
      parent := by
        intro place name hentry
        by_cases hpre : top <+: place
        · obtain ⟨rest, rfl⟩ := hpre
          rw [if_pos (List.prefix_append _ _), List.drop_left]
          rw [if_pos (by simp), List.append_assoc, List.drop_left, ← List.append_assoc] at hentry
          exact fs.parent _ name hentry
        · rw [if_neg hpre]
          split at hentry
          · rename_i hnew
            rcases List.prefix_concat_iff.mp hnew with heq | hbelow
            · exact fs.parent place name (by rw [← heq, h.2]; simp)
            · exact absurd hbelow hpre
          · exact fs.parent place name hentry
      proper := by
        intro place name hentry
        split at hentry
        · rename_i hnew
          rcases List.prefix_concat_iff.mp hnew with heq | ⟨rest, rfl⟩
          · exact fs.proper place name (by rw [← heq, h.2]; simp)
          · rw [List.append_assoc, List.drop_left, ← List.append_assoc] at hentry
            exact fs.proper _ name hentry
        · exact fs.proper place name hentry }
  else fs

section
variable {fs : FileSystem} {top source place : Place}

theorem clear_entry_of_not (h : ¬ (top <+: place ∧ place ≠ top)) :
    (fs.clear top).entry place = fs.entry place := if_neg h

theorem clear_entry_below (h : top <+: place) (hne : place ≠ top) : (fs.clear top).entry place = none :=
  if_pos ⟨h, hne⟩

theorem remove_entry_of_not (h : ¬ top <+: place) : (fs.remove top).entry place = fs.entry place :=
  if_neg fun hin => h hin.1

theorem remove_entry (h : top <+: place) (hne : place ≠ []) : (fs.remove top).entry place = none :=
  if_pos ⟨h, hne⟩

theorem fill_entry_of_not (h : ¬ top <+: place) : (fs.fill source top).entry place = fs.entry place := by
  simp only [fill]
  split
  · exact if_neg h
  · rfl

theorem fill_entry (hsource : fs.entry source = some .dir) (htop : fs.entry top = some .dir)
    (rest : List (List Char)) : (fs.fill source top).entry (top ++ rest) = fs.entry (source ++ rest) := by
  rw [fill, dif_pos ⟨hsource, htop⟩]
  simp

end

/-! ## Looking at a path -/

/-- `os.path.exists`. -/
def pathExists (fs : FileSystem) (start : Place) (parts : List (List Char)) : Bool :=
  match fs.stat start parts with
  | .entry _ _ => true
  | _ => false

/-- `os.lstat`: the entry that the last part names in its directory, also where it is a link. -/
def lstat (fs : FileSystem) (start : Place) (parts : List (List Char)) : Option (Place × Entry) :=
  match parts.getLast? with
  | none => (fs.entry start).map (start, ·)
  | some name =>
    match fs.stat start parts.dropLast with
    | .entry dir .dir =>
      if name = ['.', '.'] then some (dir.dropLast, .dir)
      else (fs.entry (dir ++ [name])).map (dir ++ [name], ·)
    | _ => none

/-- What `PurePath` makes of a text has such parts. -/
def PathParts (parts : List (List Char)) : Prop := ∀ part ∈ parts, part ≠ [] ∧ part ≠ ['.'] ∧ '/' ∉ part

section
variable {fs s : FileSystem} {start place dir : Place} {parts : List (List Char)} {e : Entry}

theorem pathExists_of_stat (h : fs.stat start parts = .entry place e) : fs.pathExists start parts = true := by
  rw [pathExists, h]

theorem stat_of_pathExists (h : fs.pathExists start parts = true) :
    ∃ place e, fs.stat start parts = .entry place e := by
  rw [pathExists] at h
  split at h
  · exact ⟨_, _, ‹_›⟩
  · cases h

theorem stat_of_isDir (h : fs.isDir start parts = true) : ∃ place, fs.stat start parts = .entry place .dir := by
  rw [isDir] at h
  split at h
  · exact ⟨_, ‹_›⟩
  · cases h

theorem isDir_of_stat (h : fs.stat start parts = .entry place .dir) : fs.isDir start parts = true := by
  rw [isDir, h]

theorem lstat_sound (hstart : fs.entry start = some .dir) (h : fs.lstat start parts = some (place, e)) :
    fs.entry place = some e := by
  rw [lstat] at h
  split at h
  · rw [hstart, Option.map_some, Option.some.injEq, Prod.mk.injEq] at h
    rw [← h.1, ← h.2, hstart]
  · split at h
    · rename_i dir hstat
      split at h
      · rw [Option.some.injEq, Prod.mk.injEq] at h
        rw [← h.1, ← h.2]
        exact dropLast_dir (stat_sound hstart hstat).1
      · obtain ⟨found, hfound, hpair⟩ := Option.map_eq_some_iff.mp h
        rw [Prod.mk.injEq] at hpair
        rw [← hpair.1, ← hpair.2, hfound]
    · cases h

/-- A directory that is no link is at the real place of its path. -/
theorem lstat_realpath (hstart : fs.entry start = some .dir) (hparts : PathParts parts)
    (h : fs.lstat start parts = some (place, .dir)) : fs.realpath start parts = some place := by
  have hentry := lstat_sound hstart h
  rcases List.eq_nil_or_concat parts with rfl | ⟨up, name, rfl⟩
  · rw [lstat, List.getLast?_nil, hstart, Option.map_some, Option.some.injEq, Prod.mk.injEq] at h
    rw [← h.1]
    exact realpath_of_stat (e := .dir) (by simp [stat, maxLinks, walk, walkBy, hstart])
  · rw [List.concat_eq_append] at hparts h ⊢
    rw [lstat, List.getLast?_concat, List.dropLast_concat] at h
    simp only at h
    split at h
    · rename_i dir hstat
      have hreal := realpath_of_stat hstat
      split at h
      · rename_i hup
        rw [Option.some.injEq, Prod.mk.injEq] at h
        rw [hup, realpath_up hreal, h.1]
      · obtain ⟨found, hfound, hpair⟩ := Option.map_eq_some_iff.mp h
        rw [Prod.mk.injEq] at hpair
        rw [← hpair.1, realpath_name hreal (fs.proper dir name (by simp [hfound]))]
        rw [hfound, hpair.2]
        simp
    · cases h

end

end FileSystem

end PyClaw
