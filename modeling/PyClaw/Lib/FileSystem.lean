import Mathlib.Data.List.Infix

/-!
# Lib.FileSystem

A POSIX file system with symbolic links. A place is the list of names from the root, and `FileSystem.entry`
tells what is there; every entry stands in a directory and has a name that a directory can hold.

* `walk`: path resolution as the kernel does it, part by part through the links, with a bound on the
  number of links that one path may follow.
* `realpath`: the real place of a path, whose missing parts are taken as they are.
* `realpath_of_reached`: where a walk arrives, or would create the last part, is the real place.
* `walk_of_entry`: the place of an entry, read as a path, leads to that entry.
* `makeDirectories`, `openRead`, `openWrite`: `mkdir -p` and opening; `openWrite_realpath` and
  `makeDirectories_realpath` say that none of them leaves the real place of its path.
-/

namespace PyClaw

/-- A place: the names on the way from the root. -/
abbrev Place := List (List Char)

inductive Entry where
  | dir
  | file (content : List UInt8)
  | link (target : List Char)
  deriving DecidableEq

/-- A name that a directory can hold. -/
def ProperName (name : List Char) : Prop :=
  name ≠ [] ∧ name ≠ ['.'] ∧ name ≠ ['.', '.'] ∧ '/' ∉ name ∧ '\x00' ∉ name

instance (name : List Char) : Decidable (ProperName name) := inferInstanceAs (Decidable (_ ∧ _))

structure FileSystem where
  entry : Place → Option Entry
  root : entry [] = some .dir
  parent : ∀ place name, entry (place ++ [name]) ≠ none → entry place = some .dir
  proper : ∀ place name, entry (place ++ [name]) ≠ none → ProperName name

/-- Why a call fails: an `errno`, or the `ValueError` for a path with a NUL. -/
inductive Failure where
  | noEntry
  | notDirectory
  | isDirectory
  | exists
  | loop
  | nul
  deriving DecidableEq, Repr

/-- Where a path leads: to an entry that is no link, or to a name that its directory does not hold. -/
inductive Reached where
  | entry (place : Place) (e : Entry)
  | missing (dir : Place) (name : List Char)
  | failed (why : Failure)
  deriving DecidableEq

/-- The place that a walk ends at, or would create. -/
def Reached.place? : Reached → Option Place
  | .entry place _ => some place
  | .missing dir name => some (dir ++ [name])
  | .failed _ => none

/-- Where the target of a link that stands in `dir` starts. -/
def startOf (dir : Place) (path : List Char) : Place := if path.head? = some '/' then [] else dir

namespace FileSystem

theorem mem_of_lookup {entries : List (Place × Entry)} {place : Place} {e : Entry}
    (h : entries.lookup place = some e) : (place, e) ∈ entries := by
  obtain ⟨before, after, rfl, -⟩ := List.lookup_eq_some_iff.mp h
  simp

/-- The file system with the given entries below the root. -/
def ofEntries (entries : List (Place × Entry))
    (hentries : ∀ p ∈ entries, p.1 ≠ [] ∧ (∀ name ∈ p.1.getLast?, ProperName name) ∧
      (p.1.dropLast = [] ∨ entries.lookup p.1.dropLast = some .dir)) : FileSystem where
  entry place := if place = [] then some .dir else entries.lookup place
  root := if_pos rfl
  parent place name h := by
    rw [if_neg (by simp)] at h
    obtain ⟨e, he⟩ := Option.ne_none_iff_exists'.mp h
    have hparent := (hentries _ (mem_of_lookup he)).2.2
    simp only [List.dropLast_concat] at hparent
    rcases hparent with hroot | hparent
    · exact if_pos hroot
    · split
      · rfl
      · exact hparent
  proper place name h := by
    rw [if_neg (by simp)] at h
    obtain ⟨e, he⟩ := Option.ne_none_iff_exists'.mp h
    exact (hentries _ (mem_of_lookup he)).2.1 name (by simp)

/-- Path resolution; `follow dir target rest` goes on at a link that stands in `dir`. -/
def walkBy (fs : FileSystem) (follow : Place → List Char → List (List Char) → Reached) :
    Place → List (List Char) → Reached
  | cur, [] =>
    match fs.entry cur with
    | some e => .entry cur e
    | none => .failed .noEntry
  | cur, part :: rest =>
    if fs.entry cur ≠ some .dir then .failed .notDirectory
    else if part = [] ∨ part = ['.'] then walkBy fs follow cur rest
    else if part = ['.', '.'] then walkBy fs follow cur.dropLast rest
    else
      match fs.entry (cur ++ [part]) with
      | none => if rest = [] then .missing cur part else .failed .noEntry
      | some (.link target) => follow cur target rest
      | some .dir | some (.file _) => walkBy fs follow (cur ++ [part]) rest

/-- Path resolution that follows at most `links` links. -/
def walk (fs : FileSystem) : Nat → Place → List (List Char) → Reached
  | 0 => fs.walkBy fun _ _ _ => .failed .loop
  | links + 1 => fs.walkBy fun dir target rest =>
      walk fs links (startOf dir target) (target.splitOn '/' ++ rest)

/-- As `walkBy`, but a part that is not a link is taken as it is. -/
def realBy (fs : FileSystem) (follow : Place → List Char → List (List Char) → Option Place) :
    Place → List (List Char) → Option Place
  | cur, [] => some cur
  | cur, part :: rest =>
    if part = [] ∨ part = ['.'] then realBy fs follow cur rest
    else if part = ['.', '.'] then realBy fs follow cur.dropLast rest
    else
      match fs.entry (cur ++ [part]) with
      | some (.link target) => follow cur target rest
      | _ => realBy fs follow (cur ++ [part]) rest

def real (fs : FileSystem) : Nat → Place → List (List Char) → Option Place
  | 0 => fs.realBy fun _ _ _ => none
  | links + 1 => fs.realBy fun dir target rest =>
      real fs links (startOf dir target) (target.splitOn '/' ++ rest)

/-- The links that one path may follow. -/
def maxLinks : Nat := 40

/-- `os.stat` of the path `parts` from `start`. -/
def stat (fs : FileSystem) (start : Place) (parts : List (List Char)) : Reached :=
  if parts.any (·.contains '\x00') then .failed .nul else fs.walk maxLinks start parts

/-- `os.path.realpath`. -/
def realpath (fs : FileSystem) (start : Place) (parts : List (List Char)) : Option Place :=
  if parts.any (·.contains '\x00') then none else fs.real maxLinks start parts

def isDir (fs : FileSystem) (start : Place) (parts : List (List Char)) : Bool :=
  match fs.stat start parts with
  | .entry _ .dir => true
  | _ => false

/-- The file system with `e` at `place`, where a directory holds it and none is replaced. -/
def put (fs : FileSystem) (place : Place) (e : Entry) : FileSystem :=
  if h : fs.entry place.dropLast = some .dir ∧ (∀ name ∈ place.getLast?, ProperName name) ∧
      place ≠ [] ∧ fs.entry place ≠ some .dir then
    { entry := fun other => if other = place then some e else fs.entry other
      root := by
        rw [if_neg (Ne.symm h.2.2.1)]
        exact fs.root
      parent := by
        intro dir name hentry
        have hdir : fs.entry dir = some .dir := by
          by_cases heq : dir ++ [name] = place
          · have hparent := h.1
            rwa [← heq, List.dropLast_concat] at hparent
          · rw [if_neg heq] at hentry
            exact fs.parent dir name hentry
        rw [if_neg, hdir]
        rintro rfl
        exact h.2.2.2 hdir
      proper := by
        intro dir name hentry
        by_cases heq : dir ++ [name] = place
        · exact h.2.1 name (by rw [← heq]; simp)
        · rw [if_neg heq] at hentry
          exact fs.proper dir name hentry }
  else fs

/-- `os.mkdir` of `name` in the directory that `parts` leads to. -/
def makeDirectory (fs : FileSystem) (start : Place) (parts : List (List Char)) (name : List Char) :
    Except Failure FileSystem :=
  match fs.stat start parts with
  | .entry dir .dir =>
    if name = ['.', '.'] ∨ fs.entry (dir ++ [name]) ≠ none then .error .exists
    else .ok (fs.put (dir ++ [name]) .dir)
  | .entry _ _ => .error .notDirectory
  | .missing _ _ => .error .noEntry
  | .failed why => .error why

/-- What `exist_ok=True` makes of a failure. -/
def existOk (fs : FileSystem) (start : Place) (parts : List (List Char)) (why : Failure) :
    Except Failure FileSystem :=
  if fs.isDir start parts then .ok fs else .error why

/-- `Path.mkdir(parents=True, exist_ok=True)`, on the parts of the path from its last one. -/
def makeDirectoriesRev (fs : FileSystem) (start : Place) : List (List Char) → Except Failure FileSystem
  | [] => .ok fs
  | name :: up =>
    match fs.makeDirectory start up.reverse name with
    | .ok fs' => .ok fs'
    | .error .noEntry =>
      match makeDirectoriesRev fs start up with
      | .error why => .error why
      | .ok fs' =>
        match fs'.makeDirectory start up.reverse name with
        | .ok fs'' => .ok fs''
        | .error .noEntry => .error .noEntry
        | .error why => fs'.existOk start (name :: up).reverse why
    | .error why => fs.existOk start (name :: up).reverse why

def makeDirectories (fs : FileSystem) (start : Place) (parts : List (List Char)) :
    Except Failure FileSystem :=
  if parts.any (·.contains '\x00') then .error .nul else fs.makeDirectoriesRev start parts.reverse

/-- Opening for reading: the file, and its content. -/
def openRead (fs : FileSystem) (start : Place) (parts : List (List Char)) :
    Except Failure (Place × List UInt8) :=
  match fs.stat start parts with
  | .entry place (.file content) => .ok (place, content)
  | .entry _ .dir => .error .isDirectory
  | .entry _ (.link _) => .error .loop
  | .missing _ _ => .error .noEntry
  | .failed why => .error why

/-- Opening for writing, which creates a missing file, and the content written. -/
def openWrite (fs : FileSystem) (start : Place) (parts : List (List Char)) (content : List UInt8) :
    Except Failure (FileSystem × Place) :=
  match fs.stat start parts with
  | .entry place (.file _) => .ok (fs.put place (.file content), place)
  | .entry _ .dir => .error .isDirectory
  | .entry _ (.link _) => .error .loop
  | .missing dir name => .ok (fs.put (dir ++ [name]) (.file content), dir ++ [name])
  | .failed why => .error why

/-! ## Entries -/

section
variable {fs : FileSystem} {place dir : Place} {name : List Char} {e : Entry}

theorem dir_of_below {rest : List (List Char)} (h : fs.entry (place ++ rest) ≠ none) (hne : rest ≠ []) :
    fs.entry place = some .dir := by
  induction rest using List.reverseRecOn with
  | nil => exact absurd rfl hne
  | append_singleton rest name ih =>
    rw [← List.append_assoc] at h
    have hdir := fs.parent _ _ h
    by_cases hrest : rest = []
    · rwa [hrest, List.append_nil] at hdir
    · exact ih (by rw [hdir]; exact Option.some_ne_none _) hrest

theorem dropLast_dir (h : fs.entry place = some .dir) : fs.entry place.dropLast = some .dir := by
  rcases List.eq_nil_or_concat place with rfl | ⟨dir, name, rfl⟩
  · exact h
  · rw [List.concat_eq_append, List.dropLast_concat]
    rw [List.concat_eq_append] at h
    exact fs.parent dir name (by rw [h]; exact Option.some_ne_none _)

theorem proper_of_mem {name : List Char} (h : fs.entry place ≠ none) (hmem : name ∈ place) :
    ProperName name := by
  obtain ⟨before, after, rfl⟩ := List.append_of_mem hmem
  refine fs.proper before name fun hnone => ?_
  by_cases hafter : after = []
  · exact h (hafter ▸ hnone)
  · rw [List.append_cons] at h
    rw [dir_of_below h hafter] at hnone
    cases hnone

theorem nul_free {parts : List (List Char)} (h : ∀ part ∈ parts, ProperName part) :
    ¬ (parts.any (·.contains '\x00')) = true := by
  rw [List.any_eq_true]
  rintro ⟨name, hname, hcontains⟩
  obtain ⟨-, -, -, -, hnul⟩ := h name hname
  exact hnul (by simpa using hcontains)

theorem put_entry_of_ne (e : Entry) {other : Place} (h : other ≠ place) :
    (fs.put place e).entry other = fs.entry other := by
  simp only [put]
  split
  · exact if_neg h
  · rfl

theorem put_entry (hdir : fs.entry dir = some .dir) (hname : ProperName name)
    (hno : fs.entry (dir ++ [name]) ≠ some .dir) (e : Entry) :
    (fs.put (dir ++ [name]) e).entry (dir ++ [name]) = some e := by
  rw [put, dif_pos]
  · exact if_pos rfl
  · simp [hdir, hname, hno]

/-- A file is replaced where it stands. -/
theorem put_entry_of_file {content : List UInt8} (h : fs.entry place = some (.file content)) (e : Entry) :
    (fs.put place e).entry place = some e := by
  rcases List.eq_nil_or_concat place with rfl | ⟨dir, name, rfl⟩
  · rw [fs.root] at h
    cases h
  · rw [List.concat_eq_append] at h ⊢
    have hne : fs.entry (dir ++ [name]) ≠ none := by simp [h]
    exact put_entry (fs.parent dir name hne) (fs.proper dir name hne) (by simp [h]) e

end

/-! ## Walks -/

section
variable {fs : FileSystem} {start place : Place} {parts : List (List Char)} {e : Entry} {links : Nat}
  {follow : Place → List Char → List (List Char) → Reached}

theorem walk_eq_walkBy (fs : FileSystem) (links : Nat) : ∃ follow, fs.walk links = fs.walkBy follow := by
  cases links with
  | zero => exact ⟨_, rfl⟩
  | succ links => exact ⟨_, rfl⟩

theorem real_eq_realBy (fs : FileSystem) (links : Nat) : ∃ follow, fs.real links = fs.realBy follow := by
  cases links with
  | zero => exact ⟨_, rfl⟩
  | succ links => exact ⟨_, rfl⟩

theorem walkBy_sound
    (hfollow : ∀ dir target rest, fs.entry dir = some .dir → follow dir target rest = .entry place e →
      fs.entry place = some e ∧ ∀ target, e ≠ .link target)
    (hstart : ∀ target, fs.entry start ≠ some (.link target))
    (h : fs.walkBy follow start parts = .entry place e) :
    fs.entry place = some e ∧ ∀ target, e ≠ .link target := by
  induction parts generalizing start with
  | nil =>
    rw [walkBy] at h
    cases hentry : fs.entry start with
    | none => simp [hentry] at h
    | some found =>
      simp only [hentry, Reached.entry.injEq] at h
      obtain ⟨rfl, rfl⟩ := h
      refine ⟨hentry, ?_⟩
      rintro target rfl
      exact hstart target hentry
  | cons part rest ih =>
    rw [walkBy] at h
    split at h
    · cases h
    · rename_i hdir
      rw [not_not] at hdir
      split at h
      · exact ih hstart h
      · split at h
        · exact ih (by simp [dropLast_dir hdir]) h
        · split at h
          · split at h <;> cases h
          · exact hfollow _ _ _ hdir h
          · rename_i hentry
            exact ih (by simp [hentry]) h
          · rename_i hentry
            exact ih (by simp [hentry]) h

/-- What a walk reaches is there, and is no link. -/
theorem walk_sound (hstart : fs.entry start = some .dir) (h : fs.walk links start parts = .entry place e) :
    fs.entry place = some e ∧ ∀ target, e ≠ .link target := by
  induction links generalizing start parts with
  | zero =>
    refine walkBy_sound ?_ (by simp [hstart]) h
    intro dir target rest _ hnever
    cases hnever
  | succ links ih =>
    refine walkBy_sound ?_ (by simp [hstart]) h
    intro dir target rest hdir hrest
    refine ih ?_ hrest
    rw [startOf]
    split
    · exact fs.root
    · exact hdir

/-- The place of an entry, read as a path, leads to it. -/
theorem walk_of_entry (h : fs.entry (start ++ parts) = some e) (he : ∀ target, e ≠ .link target) :
    fs.walk links start parts = .entry (start ++ parts) e := by
  obtain ⟨follow, hfollow⟩ := walk_eq_walkBy fs links
  rw [hfollow]
  induction parts generalizing start with
  | nil =>
    rw [List.append_nil] at h ⊢
    simp [walkBy, h]
  | cons part rest ih =>
    have hdir : fs.entry start = some .dir := dir_of_below (by rw [h]; simp) (by simp)
    obtain ⟨hempty, hdot, hup, -, -⟩ : ProperName part :=
      @proper_of_mem fs (start ++ part :: rest) part (by rw [h]; simp) (by simp)
    have hsplit : start ++ part :: rest = start ++ [part] ++ rest := List.append_cons ..
    rw [hsplit] at h ⊢
    have hrest := ih h
    rw [walkBy, if_neg (by simp [hdir]), if_neg (by simp [hempty, hdot]), if_neg hup]
    by_cases hlast : rest = []
    · subst hlast
      rw [List.append_nil] at h
      cases e with
      | link target => exact absurd rfl (he target)
      | dir => simpa [h] using hrest
      | file content => simpa [h] using hrest
    · rw [dir_of_below (by rw [h]; simp) hlast]
      exact hrest

theorem realBy_of_reached {follow' : Place → List Char → List (List Char) → Option Place}
    (hfollow : ∀ dir target rest, (follow dir target rest).place? = some place →
      follow' dir target rest = some place)
    (h : (fs.walkBy follow start parts).place? = some place) :
    fs.realBy follow' start parts = some place := by
  induction parts generalizing start with
  | nil =>
    rw [walkBy] at h
    rw [realBy]
    cases hentry : fs.entry start with
    | none => simp [hentry, Reached.place?] at h
    | some found => simpa [hentry, Reached.place?] using h
  | cons part rest ih =>
    rw [walkBy] at h
    rw [realBy]
    split at h
    · cases h
    · split at h
      · rename_i hskip
        rw [if_pos hskip]
        exact ih h
      · rename_i hskip
        rw [if_neg hskip]
        split at h
        · rename_i hup
          rw [if_pos hup]
          exact ih h
        · rename_i hup
          rw [if_neg hup]
          cases hentry : fs.entry (start ++ [part]) with
          | none =>
            simp only [hentry] at h ⊢
            split at h
            · rename_i hlast
              subst hlast
              exact h
            · cases h
          | some found =>
            cases found with
            | dir => simpa only [hentry] using ih (by simpa only [hentry] using h)
            | file content => simpa only [hentry] using ih (by simpa only [hentry] using h)
            | link target => simpa only [hentry] using hfollow _ _ _ (by simpa only [hentry] using h)

theorem real_of_reached (h : (fs.walk links start parts).place? = some place) :
    fs.real links start parts = some place := by
  induction links generalizing start parts with
  | zero => exact realBy_of_reached (fun _ _ _ hnever => by cases hnever) h
  | succ links ih => exact realBy_of_reached (fun _ _ _ hrest => ih hrest) h

/-- Where a walk arrives, or would create the last part, is the real place of its path. -/
theorem realpath_of_reached (h : (fs.stat start parts).place? = some place) :
    fs.realpath start parts = some place := by
  rw [stat] at h
  rw [realpath]
  split at h
  · cases h
  · rename_i hnul
    rw [if_neg hnul]
    exact real_of_reached h

/-- Without a link on the way and without dots the real place is what the path says. -/
theorem real_of_unlinked (hproper : ∀ part ∈ parts, ProperName part)
    (hlinks : ∀ place, place <+: start ++ parts → ∀ target, fs.entry place ≠ some (.link target)) :
    fs.real links start parts = some (start ++ parts) := by
  obtain ⟨follow, hfollow⟩ := real_eq_realBy fs links
  rw [hfollow]
  induction parts generalizing start with
  | nil => rw [realBy, List.append_nil]
  | cons part rest ih =>
    obtain ⟨hempty, hdot, hup, -, -⟩ := hproper part List.mem_cons_self
    have hsplit : start ++ part :: rest = start ++ [part] ++ rest := List.append_cons ..
    rw [hsplit] at hlinks ⊢
    have hrest := ih (fun p hp => hproper p (List.mem_cons_of_mem part hp)) hlinks
    have hpart := hlinks (start ++ [part]) (List.prefix_append _ _)
    rw [realBy, if_neg (by simp [hempty, hdot]), if_neg hup]
    cases hentry : fs.entry (start ++ [part]) with
    | none => exact hrest
    | some found =>
      cases found with
      | dir => exact hrest
      | file content => exact hrest
      | link target => exact absurd hentry (hpart target)

theorem realpath_of_unlinked (hproper : ∀ part ∈ parts, ProperName part)
    (hlinks : ∀ place, place <+: start ++ parts → ∀ target, fs.entry place ≠ some (.link target)) :
    fs.realpath start parts = some (start ++ parts) := by
  rw [realpath, if_neg (nul_free hproper)]
  exact real_of_unlinked hproper hlinks

theorem stat_sound (hstart : fs.entry start = some .dir) (h : fs.stat start parts = .entry place e) :
    fs.entry place = some e ∧ ∀ target, e ≠ .link target := by
  rw [stat] at h
  split at h
  · cases h
  · exact walk_sound hstart h

theorem stat_of_entry (h : fs.entry place = some e) (he : ∀ target, e ≠ .link target) :
    fs.stat [] place = .entry place e := by
  have hproper : ∀ name ∈ place, ProperName name := fun name => proper_of_mem (by rw [h]; simp)
  rw [stat, if_neg (nul_free hproper)]
  exact walk_of_entry (by simpa using h) he

/-- The real place of an entry is itself. -/
theorem realpath_of_entry (h : fs.entry place = some e) (he : ∀ target, e ≠ .link target) :
    fs.realpath [] place = some place :=
  realpath_of_reached (by rw [stat_of_entry h he]; rfl)

end

/-! ## Changes -/

/-- The two file systems have the same links. -/
def SameLinks (fs fs' : FileSystem) : Prop :=
  ∀ place target, fs'.entry place = some (.link target) ↔ fs.entry place = some (.link target)

section
variable {fs fs' fs'' : FileSystem} {start place : Place} {parts : List (List Char)} {name : List Char}

theorem SameLinks.trans (h : SameLinks fs fs') (h' : SameLinks fs' fs'') : SameLinks fs fs'' :=
  fun place target => (h' place target).trans (h place target)

theorem SameLinks.realBy (h : SameLinks fs fs')
    {follow : Place → List Char → List (List Char) → Option Place} :
    fs'.realBy follow start parts = fs.realBy follow start parts := by
  induction parts generalizing start with
  | nil => rfl
  | cons part rest ih =>
    rw [FileSystem.realBy, FileSystem.realBy, ih, ih, ih]
    have hsame := h (start ++ [part])
    congr 2
    cases hentry : fs.entry (start ++ [part]) with
    | none =>
      cases hentry' : fs'.entry (start ++ [part]) with
      | none => rfl
      | some found => cases found <;> simp_all
    | some found =>
      cases hentry' : fs'.entry (start ++ [part]) with
      | none => cases found <;> simp_all
      | some found' => cases found <;> cases found' <;> simp_all

theorem SameLinks.real (h : SameLinks fs fs') (links : Nat) :
    fs'.real links start parts = fs.real links start parts := by
  induction links generalizing start parts with
  | zero => exact h.realBy
  | succ links ih =>
    simp only [FileSystem.real, ih]
    exact h.realBy

theorem SameLinks.realpath (h : SameLinks fs fs') : fs'.realpath start parts = fs.realpath start parts := by
  simp only [FileSystem.realpath, h.real]

/-- Where there was nothing, a directory or a file adds no link. -/
theorem sameLinks_put {e : Entry} (hnone : ∀ target, fs.entry place ≠ some (.link target))
    (he : ∀ target, e ≠ .link target) : SameLinks fs (fs.put place e) := by
  intro other target
  by_cases heq : other = place
  · subst heq
    simp only [put]
    split
    · simp [hnone target, he target]
    · rfl
  · rw [put_entry_of_ne e heq]

theorem makeDirectory_sameLinks (h : fs.makeDirectory start parts name = .ok fs') : SameLinks fs fs' := by
  rw [makeDirectory] at h
  split at h
  · rename_i dir _
    split at h
    · cases h
    · rename_i hfree
      rw [not_or, not_not] at hfree
      obtain rfl := Except.ok.inj h
      exact sameLinks_put (by simp [hfree.2]) (by simp)
  all_goals cases h

theorem existOk_eq {why : Failure} (h : fs.existOk start parts why = .ok fs') : fs' = fs := by
  rw [existOk] at h
  split at h
  · exact (Except.ok.inj h).symm
  · cases h

theorem makeDirectoriesRev_sameLinks (h : fs.makeDirectoriesRev start parts = .ok fs') :
    SameLinks fs fs' := by
  induction parts generalizing fs' with
  | nil =>
    obtain rfl := Except.ok.inj h
    exact fun _ _ => Iff.rfl
  | cons name up ih =>
    rw [makeDirectoriesRev] at h
    split at h
    · rename_i hmade
      obtain rfl := Except.ok.inj h
      exact makeDirectory_sameLinks hmade
    · split at h
      · cases h
      · rename_i hup
        split at h
        · rename_i hmade
          obtain rfl := Except.ok.inj h
          exact (ih hup).trans (makeDirectory_sameLinks hmade)
        · cases h
        · obtain rfl := existOk_eq h
          exact ih hup
    · obtain rfl := existOk_eq h
      exact fun _ _ => Iff.rfl

/-- Making the directories of a path changes no real place. -/
theorem makeDirectories_sameLinks (h : fs.makeDirectories start parts = .ok fs') : SameLinks fs fs' := by
  rw [makeDirectories] at h
  split at h
  · cases h
  · exact makeDirectoriesRev_sameLinks h

theorem openRead_realpath {content : List UInt8} (h : fs.openRead start parts = .ok (place, content)) :
    fs.realpath start parts = some place := by
  apply realpath_of_reached
  rw [openRead] at h
  split at h
  · rename_i hstat
    rw [hstat]
    rw [Except.ok.injEq, Prod.mk.injEq] at h
    rw [Reached.place?, h.1]
  all_goals cases h

/-- What is open for reading can be opened for writing, at the same place. -/
theorem openWrite_of_openRead {content : List UInt8} (hstart : fs.entry start = some .dir)
    (h : fs.openRead start parts = .ok (place, content)) (bytes : List UInt8) :
    fs.entry place = some (.file content) ∧
      fs.openWrite start parts bytes = .ok (fs.put place (.file bytes), place) := by
  rw [openRead] at h
  split at h
  · rename_i hstat
    rw [Except.ok.injEq, Prod.mk.injEq] at h
    obtain ⟨rfl, rfl⟩ := h
    refine ⟨(stat_sound hstart hstat).1, ?_⟩
    rw [openWrite, hstat]
  all_goals cases h

theorem openWrite_realpath {content : List UInt8}
    (h : fs.openWrite start parts content = .ok (fs', place)) :
    fs.realpath start parts = some place := by
  apply realpath_of_reached
  rw [openWrite] at h
  split at h
  · rename_i hstat
    rw [hstat]
    rw [Except.ok.injEq, Prod.mk.injEq] at h
    rw [Reached.place?, h.2]
  · cases h
  · cases h
  · rename_i hstat
    rw [hstat]
    rw [Except.ok.injEq, Prod.mk.injEq] at h
    rw [Reached.place?, h.2]
  · cases h

end

end FileSystem

end PyClaw
