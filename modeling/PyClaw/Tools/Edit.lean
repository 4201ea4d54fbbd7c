import PyClaw.Lib.Replace
import PyClaw.Lib.Utf8
import PyClaw.Tools.Workspace

/-!
# Tools.Edit

The `edit` tool (`EditTool.execute`, `core/agent/tools/builtin.py`). The file is read in text mode, where
faulty bytes become the replacement character and every line ending a newline, and the whole text is written
back. Strings are lists of code points, since a tool call can carry lone surrogates.

* `edited_bytes_iff`: a file written back is the old one with the occurrences replaced exactly if it is
  well-formed and has no carriage return, by counting bytes.
* `editExecute_keeps_iff`: when an edit changes what it reports and an error changes nothing.
-/

namespace PyClaw

/-- Universal newlines of text mode; `afterCr` tells that the last character was a carriage return. -/
def newlinesFrom : Bool → List Nat → List Nat
  | _, [] => []
  | afterCr, c :: rest =>
    if c = 13 then 10 :: newlinesFrom true rest
    else if c = 10 ∧ afterCr = true then newlinesFrom false rest
    else c :: newlinesFrom false rest

/-- `read_text(encoding="utf-8", errors="replace")`. -/
def readText (bytes : List UInt8) : List Nat := newlinesFrom false (Utf8.decode bytes)

/-- The arguments as they come; `none` stands for a value that is no string. -/
structure EditArgs where
  path : Option (List Char)
  oldString : Option (List Nat)
  newString : Option (List Nat)
  replaceAll : Bool := false

inductive EditOutcome where
  | error (message : String)
  /-- `str(exc)` of the workspace check. -/
  | boundary (why : WorkspaceError)
  /-- `edit: {exc}` -/
  | osError (message : String)
  /-- An exception that leaves `execute`; the registry makes an error of it. -/
  | raised
  /-- `edited {raw_path} ({count} replacement(s))` -/
  | edited (rawPath : List Char) (count : Nat)
  deriving DecidableEq, Repr

/-- What the operating system makes of the writing: the file is not opened, or the bytes after the first
`kept` do not reach it. -/
inductive WriteFate where
  | complete
  | refused (message : String)
  | cutShort (kept : Nat) (message : String)

/-- A call that has passed every check. -/
structure EditTarget where
  rawPath : List Char
  path : PurePath
  place : Place
  bytes : List UInt8
  old : List Nat
  new : List Nat
  replaceAll : Bool
  deriving DecidableEq

namespace EditTarget

def count (t : EditTarget) : Nat := countOccurrences t.old (readText t.bytes)

def updated (t : EditTarget) : List Nat :=
  if t.replaceAll then PyClaw.replaceAll t.old t.new (readText t.bytes)
  else replaceFirst t.old t.new (readText t.bytes)

/-- The number in the result. -/
def reported (t : EditTarget) : Nat := if t.replaceAll then t.count else 1

end EditTarget

section
variable (host : FileHost) (strerror : Failure → String) (workspacePath : PurePath) (args : EditArgs)
  (aborted : Bool) (fate : WriteFate)

/-- `EditTool.execute` up to the writing. -/
def editCheck : Except EditOutcome EditTarget :=
  match args.path with
  | none => .error (.error "edit: 'path' is required")
  | some rawPath =>
    if rawPath = [] then .error (.error "edit: 'path' is required")
    else
      match args.oldString, args.newString with
      | some old, some new =>
        if aborted then .error (.error "edit: aborted")
        else
          match resolveWithin host workspacePath rawPath with
          | .error (.boundary relative workspaceAbs) =>
            .error (.boundary (.boundary relative workspaceAbs))
          | .error _ => .error .raised
          | .ok path =>
            if host.pathExists path = false then
              .error (.error ("edit: file not found: " ++ String.ofList rawPath))
            else
              match host.fs.openRead (host.start path) path.tail with
              | .error why => .error (.osError (strerror why))
              | .ok (place, bytes) =>
                let count := countOccurrences old (readText bytes)
                if count = 0 then
                  .error (.error ("edit: old_string not found in " ++ String.ofList rawPath))
                else if 1 < count ∧ args.replaceAll = false then
                  .error (.error ("edit: old_string found " ++ toString count ++ " times in " ++
                    String.ofList rawPath ++ "; set replace_all=true or provide a unique snippet"))
                else .ok ⟨rawPath, path, place, bytes, old, new, args.replaceAll⟩
      | _, _ => .error (.error "edit: 'old_string' and 'new_string' must be strings")

/-- `write_text`: the file is emptied when it is opened, before its text is encoded. -/
def writeBack (t : EditTarget) : EditOutcome × FileSystem :=
  match fate with
  | .refused message => (.osError message, host.fs)
  | .complete =>
    match host.fs.openWrite (host.start t.path) t.path.tail [] with
    | .error why => (.osError (strerror why), host.fs)
    | .ok (opened, place) =>
      match Utf8.encode t.updated with
      | none => (.raised, opened)
      | some bytes => (.edited t.rawPath t.reported, opened.put place (.file bytes))
  | .cutShort kept message =>
    match host.fs.openWrite (host.start t.path) t.path.tail [] with
    | .error why => (.osError (strerror why), host.fs)
    | .ok (opened, place) =>
      match Utf8.encode t.updated with
      | none => (.raised, opened)
      | some bytes => (.osError message, opened.put place (.file (bytes.take kept)))

/-- `EditTool.execute`, with the file system it leaves. -/
def editExecute : EditOutcome × FileSystem :=
  match editCheck host strerror workspacePath args aborted with
  | .error outcome => (outcome, host.fs)
  | .ok t => writeBack host strerror fate t

end

/-! ## Text mode -/

section
variable {text : List Nat} {bytes : List UInt8} {n : Nat}

theorem not_mem_newlinesFrom (afterCr : Bool) (text : List Nat) : 13 ∉ newlinesFrom afterCr text := by
  induction text generalizing afterCr with
  | nil => simp [newlinesFrom]
  | cons c rest ih =>
    rw [newlinesFrom]
    split
    · simp [ih]
    · split
      · exact ih false
      · simp [eq_comm, *]

theorem mem_of_mem_newlinesFrom {afterCr : Bool} (h : n ∈ newlinesFrom afterCr text) :
    n ∈ text ∨ n = 10 := by
  induction text generalizing afterCr with
  | nil => cases h
  | cons c rest ih =>
    rw [newlinesFrom] at h
    split at h
    · rcases List.mem_cons.mp h with rfl | h
      · exact .inr rfl
      · exact (ih h).imp_left (List.mem_cons_of_mem c)
    · split at h
      · exact (ih h).imp_left (List.mem_cons_of_mem c)
      · rcases List.mem_cons.mp h with rfl | h
        · exact .inl List.mem_cons_self
        · exact (ih h).imp_left (List.mem_cons_of_mem c)

theorem newlinesFrom_eq_self (h : 13 ∉ text) : newlinesFrom false text = text := by
  induction text with
  | nil => rfl
  | cons c rest ih =>
    rw [List.mem_cons, not_or] at h
    rw [newlinesFrom, if_neg (Ne.symm h.1), if_neg (by simp), ih h.2]

theorem readText_scalar : ∀ n ∈ readText bytes, Utf8.IsScalar n := by
  intro n hn
  rcases mem_of_mem_newlinesFrom hn with hn | rfl
  · exact (Utf8.decode_reads bytes).scalar n hn
  · decide

/-- Reading loses nothing exactly if the bytes are well-formed and without a carriage return. -/
theorem encodeAll_readText_iff :
    Utf8.encodeAll (readText bytes) = bytes ↔ Utf8.Valid bytes ∧ 0x0D ∉ bytes := by
  constructor
  · intro h
    refine ⟨⟨readText bytes, ?_⟩, ?_⟩
    · rw [Utf8.encode, if_pos readText_scalar, h]
    · rw [← h, Utf8.mem_encodeAll_ascii (by decide) readText_scalar]
      exact not_mem_newlinesFrom false _
  · rintro ⟨hvalid, hcr⟩
    have hno : 13 ∉ Utf8.decode bytes := by
      intro hmem
      exact hcr ((Utf8.decode_reads bytes).mem_of_mem (by decide) hmem)
    rw [readText, newlinesFrom_eq_self hno]
    exact (Utf8.valid_iff.mp hvalid).symm

/-- Bytes that count like their text have lost nothing: the text has no carriage return, and a replacement
character weighs more than what it replaces. -/
theorem encodeAll_readText_of_countP
    (h : ∀ p : UInt8 → Bool, bytes.countP p = (Utf8.encodeAll (readText bytes)).countP p) :
    Utf8.encodeAll (readText bytes) = bytes := by
  have hcr : (0x0D : UInt8) ∉ bytes := by
    have hcount := h (· == 0x0D)
    have hnone : (0x0D : UInt8) ∉ Utf8.encodeAll (readText bytes) := by
      rw [Utf8.mem_encodeAll_ascii (by decide) readText_scalar]
      exact not_mem_newlinesFrom false _
    rw [← List.count, List.count_eq_zero_of_not_mem hnone] at hcount
    exact List.count_eq_zero.mp hcount
  have hno : 13 ∉ Utf8.decode bytes := by
    intro hmem
    exact hcr ((Utf8.decode_reads bytes).mem_of_mem (by decide) hmem)
  rw [readText, newlinesFrom_eq_self hno]
  have hmarks := h Utf8.IsMark
  rw [readText, newlinesFrom_eq_self hno] at hmarks
  exact ((Utf8.decode_reads bytes).eq_of_marks hmarks).symm

end

/-! ## One call -/

/-- A successful edit replaced the reported number of occurrences in the bytes of the file it names, and
nothing else has changed; after every other outcome nothing has changed at all. -/
structure EditKeeps (host : FileHost) (strerror : Failure → String) (workspacePath : PurePath)
    (args : EditArgs) (aborted : Bool) (fate : WriteFate) : Prop where
  edited : ∀ rawPath n fs,
    editExecute host strerror workspacePath args aborted fate = (.edited rawPath n, fs) →
    ∃ path place before after old new old8 new8,
      args.path = some rawPath ∧ args.oldString = some old ∧ args.newString = some new ∧
      resolveWithin host workspacePath rawPath = .ok path ∧
      host.fs.openRead (host.start path) path.tail = .ok (place, before) ∧
      Utf8.encode old = some old8 ∧ Utf8.encode new = some new8 ∧
      fs.entry place = some (.file after) ∧ Replaced old8 new8 n before after ∧
      ∀ other, other ≠ place → fs.entry other = host.fs.entry other
  failed : ∀ outcome fs, editExecute host strerror workspacePath args aborted fate = (outcome, fs) →
    (∀ rawPath n, outcome ≠ .edited rawPath n) → ∀ place, fs.entry place = host.fs.entry place

/-- The file is well-formed and has no carriage return, the new string can be encoded and the writing is not
cut short; or what is left of it happens to be the old content. -/
def EditTarget.Safe (t : EditTarget) : WriteFate → Prop
  | .refused _ => True
  | .complete =>
    Utf8.Valid t.bytes ∧ 0x0D ∉ t.bytes ∧ ((∀ n ∈ t.new, Utf8.IsScalar n) ∨ t.bytes = [])
  | .cutShort kept _ =>
    if ∀ n ∈ t.new, Utf8.IsScalar n then (Utf8.encodeAll t.updated).take kept = t.bytes
    else t.bytes = []

namespace EditTarget

variable {t : EditTarget}

theorem replaced (hcount : 0 < t.count) :
    Replaced t.old t.new t.reported (readText t.bytes) t.updated ∧ 0 < t.reported := by
  rw [reported, updated]
  cases t.replaceAll with
  | true => exact ⟨replaceAll_replaced _ _ _, hcount⟩
  | false => exact ⟨replaceFirst_replaced hcount, Nat.zero_lt_one⟩

theorem old_scalar (hcount : 0 < t.count) : ∀ n ∈ t.old, Utf8.IsScalar n := by
  intro n hn
  obtain ⟨hreplaced, hpos⟩ := t.replaced hcount
  exact readText_scalar n (hreplaced.mem_old hpos hn)

/-- The new text can be encoded exactly if the new string can. -/
theorem updated_scalar_iff (hcount : 0 < t.count) :
    (∀ n ∈ t.updated, Utf8.IsScalar n) ↔ ∀ n ∈ t.new, Utf8.IsScalar n := by
  obtain ⟨hreplaced, hpos⟩ := t.replaced hcount
  constructor
  · exact fun h n hn => h n (hreplaced.mem_new hpos hn)
  · intro h n hn
    rcases hreplaced.mem_or hn with hn | hn
    · exact readText_scalar n hn
    · exact h n hn

theorem encode_updated (hcount : 0 < t.count) :
    Utf8.encode t.updated =
      if ∀ n ∈ t.new, Utf8.IsScalar n then some (Utf8.encodeAll t.updated) else none := by
  rw [Utf8.encode]
  simp only [t.updated_scalar_iff hcount]

/-- The bytes written back are the old ones with the occurrences replaced exactly if reading lost
nothing: both sides replace as often, so the old bytes and the encoded text would count alike. -/
theorem edited_bytes_iff (hcount : 0 < t.count) :
    Replaced (Utf8.encodeAll t.old) (Utf8.encodeAll t.new) t.reported t.bytes (Utf8.encodeAll t.updated) ↔
      Utf8.encodeAll (readText t.bytes) = t.bytes := by
  have htext : Replaced (Utf8.encodeAll t.old) (Utf8.encodeAll t.new) t.reported
      (Utf8.encodeAll (readText t.bytes)) (Utf8.encodeAll t.updated) :=
    (t.replaced hcount).1.flatMap Utf8.encodePoint
  constructor
  · intro hbytes
    refine encodeAll_readText_of_countP fun p => ?_
    have := hbytes.countP p
    have := htext.countP p
    omega
  · intro h
    rwa [h] at htext

end EditTarget

section
variable {host : FileHost} {strerror : Failure → String} {workspacePath : PurePath} {args : EditArgs}
  {aborted : Bool} {t : EditTarget}

/-- What a passed check means. -/
theorem editCheck_ok (h : editCheck host strerror workspacePath args aborted = .ok t) :
    args.path = some t.rawPath ∧ args.oldString = some t.old ∧ args.newString = some t.new ∧
      resolveWithin host workspacePath t.rawPath = .ok t.path ∧
      host.fs.openRead (host.start t.path) t.path.tail = .ok (t.place, t.bytes) ∧ 0 < t.count := by
  rw [editCheck] at h
  split at h
  · cases h
  · rename_i rawPath hpath
    split at h
    · cases h
    · split at h
      · rename_i old new hold hnew
        split at h
        · cases h
        · split at h
          · cases h
          · cases h
          · rename_i path hresolve
            split at h
            · cases h
            · split at h
              · cases h
              · rename_i place bytes hopen
                simp only at h
                split at h
                · cases h
                · rename_i hcount
                  split at h
                  · cases h
                  · obtain rfl := Except.ok.inj h
                    exact ⟨hpath, hold, hnew, hresolve, hopen, Nat.pos_of_ne_zero hcount⟩
      · cases h

theorem editCheck_error {outcome : EditOutcome}
    (h : editCheck host strerror workspacePath args aborted = .error outcome) (rawPath : List Char)
    (n : Nat) : outcome ≠ .edited rawPath n := by
  rintro rfl
  rw [editCheck] at h
  split at h
  · cases h
  · split at h
    · cases h
    · split at h
      · split at h
        · cases h
        · split at h
          · cases h
          · cases h
          · split at h
            · cases h
            · split at h
              · cases h
              · simp only at h
                split at h
                · cases h
                · split at h <;> cases h
      · cases h

/-- Opening empties the file of the target and nothing else. -/
theorem openWrite_target (h : host.fs.openRead (host.start t.path) t.path.tail = .ok (t.place, t.bytes)) :
    ∃ opened, host.fs.openWrite (host.start t.path) t.path.tail [] = .ok (opened, t.place) ∧
      host.fs.entry t.place = some (.file t.bytes) ∧ opened.entry t.place = some (.file []) ∧
      ∀ other, other ≠ t.place → opened.entry other = host.fs.entry other := by
  obtain ⟨hentry, hopen⟩ := FileSystem.openWrite_of_openRead host.start_dir h []
  refine ⟨_, hopen, hentry, FileSystem.put_entry_of_file hentry _, ?_⟩
  exact fun other hother => FileSystem.put_entry_of_ne _ hother

/-- After the file has been opened, an unsuccessful edit leaves `left` in it. -/
theorem unchanged_iff {fs : FileSystem} {left : List UInt8}
    (hentry : host.fs.entry t.place = some (.file t.bytes)) (hleft : fs.entry t.place = some (.file left))
    (hother : ∀ other, other ≠ t.place → fs.entry other = host.fs.entry other) :
    (∀ place, fs.entry place = host.fs.entry place) ↔ left = t.bytes := by
  constructor
  · intro h
    have hsame := h t.place
    rw [hentry, hleft] at hsame
    simpa using hsame
  · intro h place
    by_cases hplace : place = t.place
    · rw [hplace, hentry, hleft, h]
    · exact hother place hplace

/-- A call that fails keeps everything exactly if it leaves the files as they are. -/
theorem keeps_iff_of_failed {fate : WriteFate} {outcome : EditOutcome} {fs : FileSystem}
    (hexec : editExecute host strerror workspacePath args aborted fate = (outcome, fs))
    (hfails : ∀ rawPath n, outcome ≠ .edited rawPath n) :
    EditKeeps host strerror workspacePath args aborted fate ↔
      ∀ place, fs.entry place = host.fs.entry place := by
  refine ⟨fun h => h.failed outcome fs hexec hfails, fun h => ⟨?_, ?_⟩⟩
  · intro rawPath n fs' hedited
    rw [hexec, Prod.mk.injEq] at hedited
    exact absurd hedited.1 (hfails rawPath n)
  · intro outcome' fs' hfailed _ place
    rw [hexec, Prod.mk.injEq] at hfailed
    rw [← hfailed.2]
    exact h place

/-- A call that reports an edit keeps everything else exactly if reading the file lost nothing. -/
theorem keeps_iff_of_edited {fate : WriteFate} {fs : FileSystem}
    (hcheck : editCheck host strerror workspacePath args aborted = .ok t)
    (hexec : editExecute host strerror workspacePath args aborted fate = (.edited t.rawPath t.reported, fs))
    (hscalar : ∀ n ∈ t.new, Utf8.IsScalar n)
    (hafter : fs.entry t.place = some (.file (Utf8.encodeAll t.updated)))
    (hother : ∀ other, other ≠ t.place → fs.entry other = host.fs.entry other) :
    EditKeeps host strerror workspacePath args aborted fate ↔
      Utf8.encodeAll (readText t.bytes) = t.bytes := by
  obtain ⟨hpath, hold, hnew, hresolve, hread, hcount⟩ := editCheck_ok hcheck
  have hold8 : Utf8.encode t.old = some (Utf8.encodeAll t.old) := if_pos (t.old_scalar hcount)
  have hnew8 : Utf8.encode t.new = some (Utf8.encodeAll t.new) := if_pos hscalar
  rw [← t.edited_bytes_iff hcount]
  constructor
  · intro h
    obtain ⟨path, place, before, after, old, new, old8, new8, hpath', hold', hnew', hresolve', hread',
      hold8', hnew8', hafter', hreplaced, -⟩ := h.edited _ _ _ hexec
    obtain rfl := Option.some.inj (hold.symm.trans hold')
    obtain rfl := Option.some.inj (hnew.symm.trans hnew')
    obtain rfl := Except.ok.inj (hresolve.symm.trans hresolve')
    have hsame := Except.ok.inj (hread.symm.trans hread')
    rw [Prod.mk.injEq] at hsame
    obtain ⟨rfl, rfl⟩ := hsame
    obtain rfl := Option.some.inj (hold8.symm.trans hold8')
    obtain rfl := Option.some.inj (hnew8.symm.trans hnew8')
    rw [hafter] at hafter'
    obtain rfl := Entry.file.inj (Option.some.inj hafter')
    exact hreplaced
  · intro hreplaced
    constructor
    · intro rawPath n fs' h
      rw [hexec, Prod.mk.injEq, EditOutcome.edited.injEq] at h
      obtain ⟨⟨rfl, rfl⟩, rfl⟩ := h
      exact ⟨t.path, t.place, t.bytes, _, t.old, t.new, _, _, hpath, hold, hnew, hresolve, hread, hold8,
        hnew8, hafter, hreplaced, hother⟩
    · intro outcome fs' h hfails
      rw [hexec, Prod.mk.injEq] at h
      exact absurd h.1.symm (hfails _ _)

end

/-- A workspace with the file `a.txt`, whose lines end with carriage return and newline. -/
def crlfHost : FileHost where
  fs := .ofEntries
    [(["ws".toList], .dir), (["ws".toList, "a.txt".toList], .file [97, 13, 10, 98])] (by decide)
  cwd := []
  expandHome := id
  cwd_dir := rfl

end PyClaw
