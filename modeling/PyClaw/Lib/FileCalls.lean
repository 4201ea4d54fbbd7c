import PyClaw.Lib.FileTree
import PyClaw.Lib.Prog

/-!
# Lib.FileCalls

The calls that make, remove, copy and write files and directories, as programs on a file system. A call can
fail as the file system says, and the host can refuse it.

* `makedirs_spec`, `rmtree_spec`, `copytree_spec`, `writeBytes_spec`: what each call does.
* `mkdirParents_within`, `writeBytes_within`: a path that leads into a directory changes nothing outside of it.
-/

namespace PyClaw

/-- Why a program on files stops: a call fails, the host refuses it, or the program raises. -/
inductive Fault where
  | os (why : Failure)
  | refused
  | raised (message : String)
  deriving DecidableEq

abbrev FileJob (α : Type) := Prog Empty FileSystem Fault α

namespace FileJob

open Prog FileSystem

/-- A call that the host may refuse. -/
def permit (refused : Bool) : FileJob Unit := if refused then raise .refused else ret ()

/-- A change that fails or is done. -/
def change (f : FileSystem → Except Failure FileSystem) : FileJob Unit := fun fs =>
  match f fs with
  | .ok fs' => ⟨.ok (), fs', []⟩
  | .error why => ⟨.error (.os why), fs, []⟩

/-- `os.mkdir`. -/
def mkdir (start : Place) (up : List (List Char)) (name : List Char) : FileJob Unit :=
  change fun fs => if name.contains '\x00' then .error .nul else fs.makeDirectory start up name

/-- What `exist_ok=True` makes of a failure. -/
def existing (start : Place) (parts : List (List Char)) (fault : Fault) : FileJob Unit := fun fs =>
  if fs.isDir start parts then ⟨.ok (), fs, []⟩ else ⟨.error fault, fs, []⟩

/-- `Path.mkdir(parents=True, exist_ok=True)`, on the parts from the last one. -/
def mkdirParentsRev (start : Place) : List (List Char) → FileJob Unit
  | [] => ret ()
  | name :: up => andThen (caught (mkdir start up.reverse name)) fun
    | .ok () => ret ()
    | .error (.os .noEntry) => andThen (mkdirParentsRev start up) fun _ =>
        andThen (caught (mkdir start up.reverse name)) fun
          | .ok () => ret ()
          | .error (.os .noEntry) => raise (.os .noEntry)
          | .error fault => existing start (name :: up).reverse fault
    | .error fault => existing start (name :: up).reverse fault

def mkdirParents (start : Place) (parts : List (List Char)) : FileJob Unit :=
  mkdirParentsRev start parts.reverse

/-- `os.makedirs`, on the parts from the last one. -/
def makedirsRev (start : Place) : List (List Char) → FileJob Unit
  | [] => raise (.os .exists)
  | name :: up => andThen get fun fs =>
      andThen
        (if up ≠ [] ∧ fs.pathExists start up.reverse = false then
          andThen (caught (makedirsRev start up)) fun
            | .ok () => ret ()
            | .error (.os .exists) => ret ()
            | .error fault => raise fault
        else ret ())
        fun _ => mkdir start up.reverse name

def makedirs (start : Place) (parts : List (List Char)) : FileJob Unit := makedirsRev start parts.reverse

/-- `shutil.rmtree`: the contents, and then the directory, if its path still leads there. -/
def rmtree (noClear noRemove : Bool) (start : Place) (parts : List (List Char)) : FileJob Unit :=
  andThen get fun fs =>
    match fs.lstat start parts with
    | some (place, .dir) =>
      andThen (permit noClear) fun _ =>
        andThen (modify (·.clear place)) fun _ =>
          andThen (permit noRemove) fun _ =>
            change fun fs =>
              if fs.lstat start parts = some (place, .dir) ∧ place ≠ [] ∧
                  parts.getLast? ≠ some ['.', '.'] then .ok (fs.remove place)
              else .error .noEntry
    | some _ => raise (.os .notDirectory)
    | none => raise (.os .noEntry)

/-- `shutil.copytree` of the directory at `source`, to a path that does not lead into it. -/
def copytree (noMake noCopy : Bool) (source : List (List Char)) (start : Place)
    (parts : List (List Char)) : FileJob Unit :=
  andThen get fun fs =>
    match fs.stat [] source with
    | .entry sourcePlace .dir =>
      andThen (permit noMake) fun _ =>
        andThen (makedirs start parts) fun _ =>
          andThen (permit noCopy) fun _ =>
            change fun fs =>
              match fs.stat start parts with
              | .entry place .dir => .ok (fs.fill sourcePlace place)
              | _ => .error .noEntry
    | _ => raise (.os .notDirectory)

/-- `Path.write_bytes`: opening, which empties the file, and writing. -/
def writeBytes (noOpen noWrite : Bool) (start : Place) (parts : List (List Char))
    (content : List UInt8) : FileJob Unit :=
  andThen (permit noOpen) fun _ =>
    andThen get fun fs =>
      match fs.openWrite start parts [] with
      | .error why => raise (.os why)
      | .ok (fs', place) =>
        andThen (modify fun _ => fs') fun _ =>
          andThen (permit noWrite) fun _ => modify (·.put place (.file content))

/-- `Path.read_bytes`. -/
def readBytes (noRead : Bool) (start : Place) (parts : List (List Char)) : FileJob (List UInt8) :=
  andThen (permit noRead) fun _ =>
    andThen get fun fs =>
      match fs.openRead start parts with
      | .error why => raise (.os why)
      | .ok (_, content) => ret content

/-! ## What the calls do -/

section
variable {fs s : FileSystem} {start place dir : Place} {up parts : List (List Char)} {name : List Char}
  {I : List Empty → FileSystem → Prop}

theorem mkdir_made {l : List Empty} (h : mkdir start up name fs = ⟨.ok (), s, l⟩) :
    ∃ dir, fs.stat start up = .entry dir .dir ∧ name ≠ ['.', '.'] ∧ '\x00' ∉ name ∧
      fs.entry (dir ++ [name]) = none ∧ s = fs.put (dir ++ [name]) .dir := by
  rw [mkdir, change] at h
  split at h
  · rename_i fs' hmade
    obtain ⟨-, rfl, -⟩ := Outcome.mk.inj h
    split at hmade
    · cases hmade
    · rename_i hnul
      rw [makeDirectory] at hmade
      split at hmade
      · rename_i dir hstat
        split at hmade
        · cases hmade
        · rename_i hfree
          rw [not_or, not_not] at hfree
          exact ⟨dir, hstat, hfree.1, by simpa using hnul, hfree.2, (Except.ok.inj hmade).symm⟩
      all_goals cases hmade
  · cases (Outcome.mk.inj h).1

theorem mkdir_failed {l : List Empty} {fault : Fault} (h : mkdir start up name fs = ⟨.error fault, s, l⟩) :
    s = fs := by
  rw [mkdir, change] at h
  split at h
  · cases (Outcome.mk.inj h).1
  · exact (Outcome.mk.inj h).2.1.symm

/-- What making a directory where nothing is keeps, `os.mkdir` keeps. -/
theorem mkdir_preserves
    (h : ∀ l s dir, I l s → s.stat start up = .entry dir .dir → name ≠ ['.', '.'] → '\x00' ∉ name →
      s.entry (dir ++ [name]) = none → I l (s.put (dir ++ [name]) .dir)) :
    Preserves I (mkdir start up name) := by
  intro l s hs
  match hr : mkdir start up name s with
  | ⟨.ok (), s', l'⟩ =>
    obtain ⟨dir, hstat, hup, hnul, hnone, rfl⟩ := mkdir_made hr
    cases l' with
    | nil =>
      show I (l ++ []) _
      rw [List.append_nil]
      exact h l s dir hs hstat hup hnul hnone
    | cons never rest => exact never.elim
  | ⟨.error fault, s', l'⟩ =>
    obtain rfl := mkdir_failed hr
    cases l' with
    | nil =>
      show I (l ++ []) _
      rwa [List.append_nil]
    | cons never rest => exact never.elim

theorem existing_preserves (parts : List (List Char)) (fault : Fault) :
    Preserves I (existing start parts fault) := by
  intro l s hs
  rw [existing]
  split
  · show I (l ++ []) s
    rwa [List.append_nil]
  · show I (l ++ []) s
    rwa [List.append_nil]

theorem mkdirParentsRev_preserves {rev : List (List Char)}
    (h : ∀ up name, up ++ [name] <+: rev.reverse → Preserves I (mkdir start up name)) :
    Preserves I (mkdirParentsRev start rev) := by
  induction rev with
  | nil => exact Preserves.pure
  | cons name up ih =>
    have hmkdir : Preserves I (mkdir start up.reverse name) := h _ _ (by simp)
    have hcaught := hmkdir.caught
    have hup : Preserves I (mkdirParentsRev start up) := by
      refine ih fun up' name' hpre => h up' name' (hpre.trans ?_)
      rw [List.reverse_cons]
      exact List.prefix_append _ _
    refine Triple.andThen hcaught fun r => ?_
    split
    · exact Preserves.pure
    · refine Triple.andThen hup fun _ => Triple.andThen hcaught fun r' => ?_
      split
      · exact Preserves.pure
      · exact Preserves.raise
      · exact existing_preserves _ _
    · exact existing_preserves _ _

theorem mkdirParents_preserves
    (h : ∀ up name, up ++ [name] <+: parts → Preserves I (mkdir start up name)) :
    Preserves I (mkdirParents start parts) :=
  mkdirParentsRev_preserves (by simpa using h)

theorem makedirsRev_preserves {rev : List (List Char)}
    (h : ∀ up name, Preserves I (mkdir start up name)) : Preserves I (makedirsRev start rev) := by
  induction rev with
  | nil => exact Preserves.raise
  | cons name up ih =>
    refine Triple.andThen Preserves.get fun fs => Triple.andThen ?_ fun _ => h _ _
    refine Triple.ite (fun _ => ?_) fun _ => Preserves.pure
    refine Triple.andThen ih.caught fun r => ?_
    split
    · exact Preserves.pure
    · exact Preserves.pure
    · exact Preserves.raise

/-- A new directory where nothing is. -/
theorem grows_put (hnone : s.entry place = none) : Grows s (s.put place .dir) := by
  intro other
  by_cases heq : other = place
  · subst heq
    simp only [put]
    split
    · exact .inr ⟨hnone, if_pos rfl⟩
    · exact .inl rfl
  · exact .inl (put_entry_of_ne _ heq)

/-- A directory that is there, or is made where nothing or a directory is. -/
theorem grows_of_made {x : FileSystem} (hx : x = s ∨ x = s.put place .dir)
    (hfree : s.entry place = none ∨ s.entry place = some .dir) (hdir : x.entry place = some .dir) : Grows s x := by
  rcases hx with rfl | rfl
  · exact Grows.refl x
  · rcases hfree with hnone | hold
    · exact grows_put hnone
    · intro p
      by_cases heq : p = place
      · exact .inl (by rw [heq, hdir, hold])
      · exact .inl (put_entry_of_ne _ heq)

theorem mkdir_grows (fs : FileSystem) : Preserves (fun _ s => Grows fs s) (mkdir start up name) :=
  mkdir_preserves fun _ _ _ hgrows _ _ _ hnone => hgrows.trans (grows_put hnone)

/-- After it the path leads to a directory that is new. -/
structure Made (fs s : FileSystem) (start : Place) (parts : List (List Char)) (place : Place) : Prop where
  grows : Grows fs s
  real : fs.realpath start parts = some place
  new : fs.entry place = none
  stat : s.stat start parts = .entry place .dir
  below : ∀ rest, rest ≠ [] → s.entry (place ++ rest) = none

theorem mkdir_made' (hstart : fs.entry start = some .dir) (hgrows : Grows fs s)
    (hname : name ≠ [] ∧ name ≠ ['.'] ∧ '/' ∉ name) {s' : FileSystem} {l : List Empty}
    (h : mkdir start up name s = ⟨.ok (), s', l⟩) : ∃ place, Made fs s' start (up ++ [name]) place := by
  obtain ⟨dir, hstat, hup, hnul, hnone, rfl⟩ := mkdir_made h
  have hproper : ProperName name := ⟨hname.1, hname.2.1, hup, hname.2.2, hnul⟩
  have hdir := (stat_sound (hgrows.extends.some hstart) hstat).1
  have hput := put_entry hdir hproper (by simp [hnone]) .dir
  refine ⟨dir ++ [name], hgrows.trans (grows_put hnone), ?_, ?_, ?_, ?_⟩
  · rw [← hgrows.sameLinks.realpath]
    exact realpath_name (realpath_of_stat hstat) hproper (by simp [hnone])
  · by_contra hne
    exact hne (by rw [← hgrows.extends _ hne, hnone])
  · exact stat_name (stat_extends (grows_put hnone).extends hstat) hproper (by simp) hput
  · intro rest hrest
    rw [put_entry_of_ne _ (by simpa using hrest)]
    by_contra hne
    rw [dir_of_below hne hrest] at hnone
    cases hnone

theorem entry_below {rest : List (List Char)} (h : fs.entry place = none) :
    fs.entry (place ++ rest) = none := by
  by_contra hne
  by_cases hrest : rest = []
  · exact hne (by rw [hrest, List.append_nil, h])
  · rw [dir_of_below hne hrest] at h
    cases h

/-- Where nothing is, the real place of the rest of a path is what it says. -/
theorem realpath_into_missing {rest : List (List Char)} (hreal : fs.realpath start parts = some place)
    (hnone : fs.entry place = none) (hdir : fs.entry place.dropLast = some .dir)
    (hrest : ∀ part ∈ rest, ProperName part) : fs.realpath start (parts ++ rest) = some (place ++ rest) := by
  refine realpath_append hreal (nul_free hrest) fun links => ?_
  refine real_of_unlinked hrest fun other hpre target hlink => ?_
  rcases List.prefix_or_prefix_of_prefix hpre (List.prefix_append place rest) with hup | ⟨more, rfl⟩
  · rcases List.eq_nil_or_concat place with rfl | ⟨dir, name, rfl⟩
    · rw [List.prefix_nil.mp hup, fs.root] at hlink
      cases hlink
    · rw [List.concat_eq_append] at hup hnone hdir
      rw [List.dropLast_concat] at hdir
      rcases List.prefix_concat_iff.mp hup with rfl | ⟨more, rfl⟩
      · rw [hnone] at hlink
        cases hlink
      · by_cases hmore : more = []
        · rw [hmore, List.append_nil] at hdir
          rw [hdir] at hlink
          cases hlink
        · rw [dir_of_below (by rw [hdir]; simp) hmore] at hlink
          cases hlink
  · rw [entry_below hnone] at hlink
    cases hlink

/-- What is known of the result is known after a return. -/
theorem result_spec {α : Type} {m : FileJob α} {Q : α → List Empty → FileSystem → Prop}
    {E : Fault → List Empty → FileSystem → Prop} (h : Triple (fun _ s => s = fs) m Q E) :
    Triple (fun _ s => s = fs) m
      (fun a l s => Q a l s ∧ (m fs).result = .ok a ∧ (m fs).state = s) E := by
  rintro l s rfl
  have hpost := h l s rfl
  match hr : m s with
  | ⟨.ok a, s', l'⟩ =>
    rw [hr] at hpost
    exact ⟨hpost, rfl, rfl⟩
  | ⟨.error fault, s', l'⟩ =>
    rw [hr] at hpost
    exact hpost

theorem error_spec {α : Type} {m : FileJob α} {Q : α → List Empty → FileSystem → Prop}
    {E : Fault → List Empty → FileSystem → Prop} (h : Triple (fun _ s => s = fs) m Q E) :
    Triple (fun _ s => s = fs) m Q (fun fault l s => E fault l s ∧ ∀ a, (m fs).result ≠ .ok a) := by
  rintro l s rfl
  have hpost := h l s rfl
  match hr : m s with
  | ⟨.ok a, s', l'⟩ =>
    rw [hr] at hpost
    exact hpost
  | ⟨.error fault, s', l'⟩ =>
    rw [hr] at hpost
    exact ⟨hpost, fun _ hok => by cases hok⟩

theorem makedirs_spec (hstart : fs.entry start = some .dir) (hparts : PathParts parts) :
    Triple (fun _ s => s = fs) (makedirs start parts) (fun _ _ s => ∃ place, Made fs s start parts place)
      (fun _ _ s => Grows fs s) := by
  have hrev : parts = parts.reverse.reverse := (List.reverse_reverse _).symm
  rw [makedirs]
  cases hcase : parts.reverse with
  | nil => exact Triple.raise fun _ _ h => h ▸ Grows.refl _
  | cons name up =>
    rw [hcase, List.reverse_cons] at hrev
    have hname := hparts name (by rw [hrev]; simp)
    have hup : Preserves (fun _ s => Grows fs s) (makedirsRev start up) :=
      makedirsRev_preserves fun _ _ => mkdir_grows fs
    refine Triple.strengthen ?_ (fun _ s (h : s = fs) => (h ▸ Grows.refl fs : Grows fs s))
    refine Triple.andThen Preserves.get fun _ => ?_
    refine Triple.andThen (R := fun _ _ s => ∃ place, Made fs s start parts place)
      (Q := fun _ _ s => Grows fs s) ?_ fun _ => ?_
    · refine Triple.ite (fun _ => ?_) fun _ => Preserves.pure
      refine Triple.andThen hup.caught fun r => ?_
      split
      · exact Preserves.pure
      · exact Preserves.pure
      · exact Preserves.raise
    · intro l s hgrows
      match hr : mkdir start up.reverse name s with
      | ⟨.ok (), s', l'⟩ => exact hrev ▸ mkdir_made' hstart hgrows hname hr
      | ⟨.error fault, s', l'⟩ => exact mkdir_failed hr ▸ hgrows

theorem permit_spec (refused : Bool) (P : List Empty → FileSystem → Prop) :
    Triple P (permit refused) (fun _ l s => P l s ∧ refused = false) (fun _ l s => P l s ∧ refused = true) := by
  cases refused with
  | true => exact Triple.raise fun _ _ h => ⟨h, rfl⟩
  | false => exact Triple.ret fun _ _ h => ⟨h, rfl⟩

theorem change_spec (f : FileSystem → Except Failure FileSystem) (fs : FileSystem) :
    Triple (fun _ s => s = fs) (change f) (fun _ _ s => f fs = .ok s)
      (fun fault _ s => s = fs ∧ ∃ why, f fs = .error why ∧ fault = .os why) := by
  rintro l s rfl
  rw [change]
  cases hf : f s with
  | ok s' => exact rfl
  | error why => exact ⟨rfl, why, rfl, rfl⟩

/-- A directory that is there is left as it is. -/
theorem mkdirParents_existing (hup : fs.stat start parts = .entry dir .dir)
    (hentry : fs.entry (dir ++ [name]) ≠ none) (hstat : fs.stat start (parts ++ [name]) = .entry place .dir) :
    Triple (fun _ s => s = fs) (mkdirParents start (parts ++ [name])) (fun _ _ s => s = fs)
      (fun _ _ _ => False) := by
  have hnul : '\x00' ∉ name := by
    have := (nulFree_append.mp (nulFree_of_stat hstat)).2
    simpa [NulFree] using this
  rintro l s rfl
  have hexists : mkdir start parts name s = ⟨.error (.os .exists), s, []⟩ := by
    simp [mkdir, change, hnul, makeDirectory, hup, hentry]
  rw [mkdirParents, List.reverse_append, List.reverse_singleton, List.singleton_append, mkdirParentsRev,
    List.reverse_reverse]
  simp only [andThen, caught, hexists, existing, List.reverse_cons, List.reverse_reverse,
    isDir_of_stat hstat, if_true]
  exact rfl

theorem get_spec {α : Type} {k : FileSystem → FileJob α} {Q : α → List Empty → FileSystem → Prop}
    {E : Fault → List Empty → FileSystem → Prop} (h : Triple (fun _ s => s = fs) (k fs) Q E) :
    Triple (fun _ s => s = fs) (andThen get k) Q E := by
  refine Triple.getBind fun s₀ => ?_
  rintro l s ⟨hs, hs₀⟩
  rw [hs] at hs₀
  rw [← hs₀]
  exact h l s hs

/-- After it the path leads to a directory. -/
theorem mkdirParents_spec (hstart : fs.entry start = some .dir) (hparts : PathParts parts) :
    Triple (fun _ s => s = fs) (mkdirParents start parts)
      (fun _ _ s => Grows fs s ∧ s.isDir start parts = true) (fun _ _ s => Grows fs s) := by
  have hrev : parts = parts.reverse.reverse := (List.reverse_reverse _).symm
  rw [mkdirParents]
  cases hcase : parts.reverse with
  | nil =>
    rw [hcase] at hrev
    refine Triple.ret fun _ s hs => ?_
    subst hs
    refine ⟨Grows.refl s, ?_⟩
    rw [hrev]
    simp [isDir, stat, maxLinks, FileSystem.walk, walkBy, hstart]
  | cons name up =>
    rw [hcase, List.reverse_cons] at hrev
    have hname := hparts name (by rw [hrev]; simp)
    have hup : Preserves (fun _ s => Grows fs s) (mkdirParentsRev start up) :=
      mkdirParentsRev_preserves fun _ _ _ => mkdir_grows fs
    have hmkdir : Triple (fun _ s => Grows fs s) (caught (mkdir start up.reverse name))
        (fun r _ s => Grows fs s ∧ (r = .ok () → s.isDir start parts = true)) (fun _ _ s => Grows fs s) := by
      refine Triple.caught ?_
      intro l s hgrows
      rcases hr : mkdir start up.reverse name s with ⟨r, s', l'⟩
      cases r with
      | ok _ =>
        obtain ⟨place, hmade⟩ := mkdir_made' hstart hgrows hname hr
        exact ⟨hmade.grows, fun _ => hrev ▸ isDir_of_stat hmade.stat⟩
      | error fault => exact ⟨mkdir_failed hr ▸ hgrows, fun hok => by cases hok⟩
    have hexisting : ∀ fault, Triple (fun _ s => Grows fs s) (existing start (name :: up).reverse fault)
        (fun _ _ s => Grows fs s ∧ s.isDir start parts = true) (fun _ _ s => Grows fs s) := by
      intro fault l s hgrows
      rw [existing, List.reverse_cons, ← hrev]
      split
      · rename_i hdir
        exact ⟨hgrows, hdir⟩
      · exact hgrows
    refine Triple.strengthen ?_ (fun _ s (h : s = fs) => (h ▸ Grows.refl fs : Grows fs s))
    refine Triple.andThen hmkdir fun r => ?_
    split
    · exact Triple.ret fun _ _ hs => ⟨hs.1, hs.2 rfl⟩
    · refine Triple.andThen (hup.strengthen fun _ _ hs => hs.1) fun _ => Triple.andThen hmkdir fun r' => ?_
      split
      · exact Triple.ret fun _ _ hs => ⟨hs.1, hs.2 rfl⟩
      · exact Triple.raise fun _ _ hs => hs.1
      · exact (hexisting _).strengthen fun _ _ hs => hs.1
    · exact (hexisting _).strengthen fun _ _ hs => hs.1

/-- A name that is free or a directory can be made a directory. -/
theorem mkdirParents_name (hstart : fs.entry start = some .dir) (hstat : fs.stat start parts = .entry dir .dir)
    (hname : ProperName name) (hfree : fs.entry (dir ++ [name]) = none ∨ fs.entry (dir ++ [name]) = some .dir) :
    Triple (fun _ s => s = fs) (mkdirParents start (parts ++ [name]))
      (fun _ _ s => (s = fs ∨ s = fs.put (dir ++ [name]) .dir) ∧ s.entry (dir ++ [name]) = some .dir)
      (fun _ _ _ => False) := by
  have hdir := (stat_sound hstart hstat).1
  obtain ⟨-, -, hup, -, hnul⟩ := id hname
  rintro l s rfl
  rw [mkdirParents, List.reverse_append, List.reverse_singleton, List.singleton_append, mkdirParentsRev,
    List.reverse_reverse]
  rcases hfree with hnone | hisdir
  · have hmade : mkdir start parts name s = ⟨.ok (), s.put (dir ++ [name]) .dir, []⟩ := by
      simp [mkdir, change, hnul, makeDirectory, hstat, hnone, hup]
    simp only [andThen, caught, hmade]
    exact ⟨.inr rfl, put_entry hdir hname (by simp [hnone]) .dir⟩
  · have hexists : mkdir start parts name s = ⟨.error (.os .exists), s, []⟩ := by
      simp [mkdir, change, hnul, makeDirectory, hstat, hisdir]
    have hstat' := stat_name hstat hname (by simp) hisdir
    simp only [andThen, caught, hexists, existing, List.reverse_cons, List.reverse_reverse,
      isDir_of_stat hstat', if_true]
    exact ⟨.inl rfl, hisdir⟩

/-- Without its contents the directory at `place` is still where the path leads, and can be removed. -/
def Removable (fs : FileSystem) (start : Place) (parts : List (List Char)) (place : Place) : Prop :=
  (fs.clear place).lstat start parts = some (place, .dir) ∧ place ≠ [] ∧
    parts.getLast? ≠ some ['.', '.']

theorem rmtree_spec (noClear noRemove : Bool) (h : fs.lstat start parts = some (place, .dir)) :
    Triple (fun _ s => s = fs) (rmtree noClear noRemove start parts)
      (fun _ _ s => Removable fs start parts place ∧ s = (fs.clear place).remove place)
      (fun _ _ s => noClear = true ∧ s = fs ∨
        (noRemove = true ∨ ¬ Removable fs start parts place) ∧ s = fs.clear place) := by
  refine get_spec ?_
  simp only [h]
  refine Triple.andThen ((permit_spec noClear _).conseq (fun _ _ => id) (fun _ _ _ => id)
    fun _ _ _ hs => .inl ⟨hs.2, hs.1⟩) fun _ => ?_
  refine Triple.andThen (Triple.modify (Q := fun _ _ s => s = fs.clear place)
    fun _ _ hs => congrArg (·.clear place) hs.1) fun _ => ?_
  refine Triple.andThen ((permit_spec noRemove _).conseq (fun _ _ => id) (fun _ _ _ => id)
    fun _ _ _ hs => .inr ⟨.inl hs.2, hs.1⟩) fun _ => ?_
  refine (change_spec _ (fs.clear place)).conseq (fun _ _ hs => hs.1) ?_ ?_
  · intro _ _ s hok
    split at hok
    · rename_i hremovable
      exact ⟨hremovable, (Except.ok.inj hok).symm⟩
    · cases hok
  · rintro _ _ s ⟨rfl, why, herr, -⟩
    split at herr
    · cases herr
    · rename_i hnot
      exact .inr ⟨.inr hnot, rfl⟩

/-- Nothing but a directory is removed. -/
theorem rmtree_refused (noClear noRemove : Bool) (h : ∀ place, fs.lstat start parts ≠ some (place, .dir)) :
    Triple (fun _ s => s = fs) (rmtree noClear noRemove start parts) (fun _ _ _ => False)
      (fun _ _ s => s = fs) := by
  refine get_spec ?_
  rintro l s rfl
  cases hfound : s.lstat start parts with
  | none => exact rfl
  | some found =>
    obtain ⟨place, e⟩ := found
    cases e with
    | dir => exact absurd hfound (h place)
    | file content => exact rfl
    | link target => exact rfl

/-- After it the path leads to a new directory with a copy of the tree at `source`. -/
theorem copytree_spec (noMake noCopy : Bool) (source : List (List Char)) (hstart : fs.entry start = some .dir)
    (hparts : PathParts parts) :
    Triple (fun _ s => s = fs) (copytree noMake noCopy source start parts)
      (fun _ _ s => (makedirs start parts fs).result = .ok () ∧
        ∃ sourcePlace place, fs.stat [] source = .entry sourcePlace .dir ∧
          Made fs (makedirs start parts fs).state start parts place ∧
            s = (makedirs start parts fs).state.fill sourcePlace place)
      (fun _ _ s => Grows fs s ∧ (noMake = true ∨ noCopy = true ∨
        (∀ place, fs.stat [] source ≠ .entry place .dir) ∨ (makedirs start parts fs).result ≠ .ok ())) := by
  refine get_spec ?_
  split
  · rename_i sourcePlace hsource
    refine Triple.andThen ((permit_spec noMake _).conseq (fun _ _ => id) (fun _ _ _ => id)
      fun _ _ _ hs => ⟨hs.1 ▸ Grows.refl fs, .inl hs.2⟩) fun _ => ?_
    refine Triple.strengthen ?_ fun _ _ hs => hs.1
    refine Triple.andThen ((result_spec (error_spec (makedirs_spec hstart hparts))).conseq
      (fun _ _ => id) (fun _ _ _ => id) fun _ _ _ hs => ⟨hs.1, .inr (.inr (.inr (hs.2 ())))⟩) fun _ => ?_
    refine Triple.andThen ((permit_spec noCopy _).conseq (fun _ _ => id) (fun _ _ _ => id)
      fun _ _ _ hs => ⟨hs.1.1.choose_spec.grows, .inr (.inl hs.2)⟩) fun _ => ?_
    rintro l made ⟨⟨⟨place, hmade⟩, hresult, rfl⟩, -⟩
    refine ((change_spec _ _).conseq (fun _ _ => id) ?_ ?_) l _ rfl
    · intro _ _ s hok
      simp only [hmade.stat] at hok
      exact ⟨hresult, sourcePlace, place, hsource, hmade, (Except.ok.inj hok).symm⟩
    · rintro _ _ s ⟨-, why, herr, -⟩
      simp only [hmade.stat] at herr
      cases herr
  · rename_i hnot
    exact Triple.raise fun _ _ hs => ⟨hs ▸ Grows.refl fs, .inr (.inr (.inl hnot))⟩

theorem copytree_unmade (noCopy : Bool) (source : List (List Char)) :
    Triple (fun _ s => s = fs) (copytree true noCopy source start parts) (fun _ _ _ => False)
      (fun _ _ s => s = fs) := by
  refine get_spec ?_
  split
  · exact Triple.andThen ((permit_spec true _).conseq (fun _ _ => id) (fun _ _ _ hs => hs)
      fun _ _ _ hs => hs.1) fun _ _ _ hs => absurd hs.2 (by simp)
  · exact Triple.raise fun _ _ hs => hs

/-- What writing to the file at `place` changes. -/
structure Written (fs s : FileSystem) (place : Place) : Prop where
  others : ∀ other, other ≠ place → s.entry other = fs.entry other
  written : s.entry place = fs.entry place ∨ ∃ content, s.entry place = some (.file content)
  noLink : ∀ target, fs.entry place ≠ some (.link target)
  noDir : fs.entry place ≠ some .dir

theorem Written.sameLinks (h : Written fs s place) : SameLinks fs s := by
  intro other target
  by_cases heq : other = place
  · subst heq
    rcases h.written with hsame | ⟨content, hfile⟩
    · rw [hsame]
    · simp [hfile, h.noLink target]
  · rw [h.others other heq]

theorem written_put (content : List UInt8) (hlink : ∀ target, fs.entry place ≠ some (.link target))
    (hdir : fs.entry place ≠ some .dir) : Written fs (fs.put place (.file content)) place := by
  refine ⟨fun other hne => put_entry_of_ne _ hne, ?_, hlink, hdir⟩
  simp only [put]
  split
  · exact .inr ⟨content, if_pos rfl⟩
  · exact .inl rfl

theorem Written.put (h : Written fs s place) (content : List UInt8) :
    Written fs (s.put place (.file content)) place := by
  have hlink : ∀ target, s.entry place ≠ some (.link target) :=
    fun target hs => h.noLink target ((h.sameLinks place target).mp hs)
  have hdir : s.entry place ≠ some .dir := by
    rcases h.written with hsame | ⟨content', hfile⟩
    · rw [hsame]
      exact h.noDir
    · simp [hfile]
  have hput := written_put content hlink hdir
  refine ⟨fun other hne => (hput.others other hne).trans (h.others other hne), ?_, h.noLink, h.noDir⟩
  rcases hput.written with hsame | hfile
  · rw [hsame]
    exact h.written
  · exact .inr hfile

theorem openWrite_written {content : List UInt8} (hstart : fs.entry start = some .dir)
    (h : fs.openWrite start parts content = .ok (s, place)) : Written fs s place := by
  rw [openWrite] at h
  split at h
  · rename_i hstat
    rw [Except.ok.injEq, Prod.mk.injEq] at h
    obtain ⟨rfl, rfl⟩ := h
    have hfile := (stat_sound hstart hstat).1
    exact written_put content (by simp [hfile]) (by simp [hfile])
  · cases h
  · cases h
  · rename_i hstat
    rw [Except.ok.injEq, Prod.mk.injEq] at h
    obtain ⟨rfl, rfl⟩ := h
    have hnone := stat_missing hstat
    exact written_put content (by simp [hnone]) (by simp [hnone])
  · cases h

/-- The file is where its path leads; a refused call may leave it empty. -/
theorem writeBytes_spec (noOpen noWrite : Bool) (content : List UInt8) :
    Triple (fun _ s => s = fs) (writeBytes noOpen noWrite start parts content)
      (fun _ _ s => noWrite = false ∧ ∃ place opened, fs.openWrite start parts [] = .ok (opened, place) ∧
        s = opened.put place (.file content))
      (fun _ _ s => s = fs ∧ (noOpen = true ∨ ∃ why, fs.openWrite start parts [] = .error why) ∨
        noWrite = true ∧ ∃ place, fs.openWrite start parts [] = .ok (s, place)) := by
  refine Triple.andThen ((permit_spec noOpen _).conseq (fun _ _ => id) (fun _ _ _ => id)
    fun _ _ _ hs => .inl ⟨hs.1, .inl hs.2⟩) fun _ => ?_
  refine (get_spec ?_ : Triple (fun _ s => s = fs) _ _ _).strengthen fun _ _ hs => hs.1
  cases hopen : fs.openWrite start parts [] with
  | error why => exact Triple.raise fun _ _ hs => .inl ⟨hs, .inr ⟨why, rfl⟩⟩
  | ok found =>
    obtain ⟨opened, place⟩ := found
    refine Triple.andThen (Triple.modify (Q := fun _ _ s => s = opened) fun _ _ _ => rfl) fun _ => ?_
    refine Triple.andThen ((permit_spec noWrite _).conseq (fun _ _ => id) (fun _ _ _ => id)
      fun _ _ _ hs => .inr ⟨hs.2, place, by rw [hs.1]⟩) fun _ => ?_
    exact Triple.modify fun _ _ hs => ⟨hs.2, place, opened, rfl, by rw [hs.1]⟩

/-- Whether or not it is done, writing changes the file alone. -/
theorem writeBytes_written (noOpen noWrite : Bool) (content : List UInt8)
    (hstart : fs.entry start = some .dir) :
    Triple (fun _ s => s = fs) (writeBytes noOpen noWrite start parts content)
      (fun _ _ s => ∃ place, fs.realpath start parts = some place ∧ Written fs s place)
      (fun _ _ s => s = fs ∨ ∃ place, fs.realpath start parts = some place ∧ Written fs s place) := by
  refine (writeBytes_spec noOpen noWrite content).conseq (fun _ _ => id) ?_ ?_
  · rintro _ _ s ⟨-, place, opened, hopen, rfl⟩
    exact ⟨place, openWrite_realpath hopen, (openWrite_written hstart hopen).put content⟩
  · rintro _ _ s (⟨hs, -⟩ | ⟨-, place, hopen⟩)
    · exact .inl hs
    · exact .inr ⟨place, openWrite_realpath hopen, openWrite_written hstart hopen⟩

/-- Outside of `top` nothing is changed. -/
structure Within (top : Place) (fs s : FileSystem) : Prop where
  links : SameLinks fs s
  outside : ∀ place, ¬ top <+: place → s.entry place = fs.entry place
  top_dir : s.entry top = some .dir

/-- A path into `top` without dots makes its directories in `top`. -/
structure LeadsInto (top : Place) (fs : FileSystem) (parts : List (List Char)) : Prop where
  plain : PathParts parts
  dots : ['.', '.'] ∉ parts
  real : ∃ full, fs.realpath [] parts = some full ∧ top <+: full

theorem LeadsInto.proper {top : Place} (h : LeadsInto top fs parts) : ∀ part ∈ parts, ProperName part := by
  obtain ⟨full, hreal, -⟩ := h.real
  intro part hpart
  obtain ⟨hempty, hdot, hslash⟩ := h.plain part hpart
  refine ⟨hempty, hdot, ?_, hslash, ?_⟩
  · rintro rfl
    exact h.dots hpart
  · intro hnul
    refine nulFree_of_realpath hreal ?_
    rw [List.any_eq_true]
    exact ⟨part, hpart, by simpa using hnul⟩

theorem Within.put {top : Place} (hs : Within top fs s) (hplace : top <+: place)
    (hnone : s.entry place = none) : Within top fs (s.put place .dir) := by
  have hgrows := grows_put hnone
  refine ⟨hs.links.trans hgrows.sameLinks, fun other hother => ?_, hgrows.extends.some hs.top_dir⟩
  rw [put_entry_of_ne, hs.outside other hother]
  rintro rfl
  exact hother hplace

theorem mkdir_within {top : Place} (h : LeadsInto top fs parts) (hpre : up ++ [name] <+: parts) :
    Preserves (fun _ s => Within top fs s) (mkdir [] up name) := by
  refine mkdir_preserves fun _ s dir hs hstat _ _ hnone => hs.put ?_ hnone
  obtain ⟨rest, rfl⟩ := hpre
  obtain ⟨full, hreal, htop⟩ := h.real
  have hproper := h.proper
  have hname : fs.realpath [] (up ++ [name]) = some (dir ++ [name]) := by
    rw [← hs.links.realpath]
    exact realpath_name (realpath_of_stat hstat) (hproper name (by simp)) (by simp [hnone])
  have hdir : s.entry dir = some .dir := (stat_sound s.root hstat).1
  have hfull : full = dir ++ [name] ++ rest := by
    have hmissing : s.realpath [] (up ++ [name] ++ rest) = some (dir ++ [name] ++ rest) := by
      refine realpath_into_missing ?_ hnone (by simpa using hdir) fun part hpart => hproper part (by simp [hpart])
      rw [hs.links.realpath, hname]
    rw [hs.links.realpath, hreal] at hmissing
    exact Option.some.inj hmissing
  rw [hfull] at htop
  rcases List.prefix_or_prefix_of_prefix htop (List.prefix_append (dir ++ [name]) rest) with hin | ⟨more, hout⟩
  · exact hin
  · have hbelow : s.entry (dir ++ [name] ++ more) = none := entry_below hnone
    rw [hout, hs.top_dir] at hbelow
    cases hbelow

theorem mkdirParents_within {top : Place} (h : LeadsInto top fs parts) {made : List (List Char)}
    (hpre : made <+: parts) : Preserves (fun _ s => Within top fs s) (mkdirParents [] made) :=
  mkdirParents_preserves fun _ _ hup => mkdir_within h (hup.trans hpre)

theorem writeBytes_within {top : Place} (h : LeadsInto top fs parts) (noOpen noWrite : Bool)
    (content : List UInt8) :
    Preserves (fun _ s => Within top fs s) (writeBytes noOpen noWrite [] parts content) := by
  obtain ⟨full, hreal, htop⟩ := h.real
  intro l s hs
  have hwritten : ∀ s' place, s.realpath [] parts = some place → Written s s' place →
      Within top fs s' := by
    intro s' place hplace hwritten
    rw [hs.links.realpath, hreal, Option.some.injEq] at hplace
    subst hplace
    refine ⟨hs.links.trans hwritten.sameLinks, fun other hother => ?_, ?_⟩
    · rw [hwritten.others other, hs.outside other hother]
      rintro rfl
      exact hother htop
    · rw [hwritten.others top, hs.top_dir]
      rintro rfl
      exact hwritten.noDir hs.top_dir
  refine ((writeBytes_written noOpen noWrite content s.root).conseq (fun _ _ => id) ?_ ?_) l s rfl
  · rintro _ _ s' ⟨place, hplace, hw⟩
    exact hwritten s' place hplace hw
  · rintro _ _ s' (rfl | ⟨place, hplace, hw⟩)
    · exact hs
    · exact hwritten s' place hplace hw

theorem readBytes_spec (noRead : Bool) :
    Triple (fun _ s => s = fs) (readBytes noRead start parts)
      (fun content _ s => s = fs ∧ ∃ place, fs.openRead start parts = .ok (place, content))
      (fun _ _ s => s = fs ∧ (noRead = true ∨ ∃ why, fs.openRead start parts = .error why)) := by
  refine Triple.andThen ((permit_spec noRead _).conseq (fun _ _ => id) (fun _ _ _ => id)
    fun _ _ _ hs => ⟨hs.1, .inl hs.2⟩) fun _ => ?_
  refine (get_spec ?_ : Triple (fun _ s => s = fs) _ _ _).strengthen fun _ _ hs => hs.1
  cases hopen : fs.openRead start parts with
  | error why => exact Triple.raise fun _ _ hs => ⟨hs, .inr ⟨why, rfl⟩⟩
  | ok found => exact Triple.ret fun _ _ hs => ⟨hs, found.1, rfl⟩

end

/-! ## Programs that are refused less -/

/-- What `m` returns, `m'` returns. -/
def Refines {α : Type} (m m' : FileJob α) : Prop :=
  ∀ s a s' l, m s = ⟨.ok a, s', l⟩ → m' s = ⟨.ok a, s', l⟩

section
variable {α β : Type} {m m' : FileJob α} {k k' : α → FileJob β}

theorem Refines.refl (m : FileJob α) : Refines m m := fun _ _ _ _ => id

theorem Refines.andThen (h : Refines m m') (hk : ∀ a, Refines (k a) (k' a)) :
    Refines (Prog.andThen m k) (Prog.andThen m' k') := by
  intro s b s' l hb
  unfold Prog.andThen at hb ⊢
  match hr : m s with
  | ⟨.ok a, s₁, l₁⟩ =>
    rw [hr] at hb
    rw [h s a s₁ l₁ hr]
    dsimp only at hb ⊢
    match hr' : k a s₁ with
    | ⟨.ok b', s₂, l₂⟩ =>
      rw [hr'] at hb
      rw [hk a s₁ b' s₂ l₂ hr']
      exact hb
    | ⟨.error fault, s₂, l₂⟩ =>
      rw [hr'] at hb
      cases (Outcome.mk.inj hb).1
  | ⟨.error fault, s₁, l₁⟩ =>
    rw [hr] at hb
    cases (Outcome.mk.inj hb).1

theorem refines_permit (refused : Bool) : Refines (permit refused) (permit false) := by
  cases refused with
  | true =>
    intro s a s' l h
    cases (Outcome.mk.inj h).1
  | false => exact Refines.refl _

theorem result_of_refines {s : FileSystem} (h : Refines m m') {a : α}
    (ha : (m s).result = .ok a) : (m' s).result = .ok a ∧ (m' s).state = (m s).state := by
  match hr : m s with
  | ⟨.ok b, s', l⟩ =>
    rw [hr] at ha
    rw [h s b s' l hr]
    exact ⟨ha, rfl⟩
  | ⟨.error fault, s', l⟩ =>
    rw [hr] at ha
    cases ha

end

end FileJob

end PyClaw
