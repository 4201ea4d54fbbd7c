import PyClaw.Compaction.MessageDict
import PyClaw.Lib.Duplicates
import PyClaw.Lib.Text

/-!
# Compaction.Duplicates

`dedupe_duplicate_user_messages` (`core/agent/compaction/dedup.py`) over any message dictionaries, with
timestamps and any window.

`dedupe_duplicates`: what is dropped is a user message that repeats an earlier kept one, and the function
is idempotent.
-/

namespace PyClaw

/-- `normalize_for_dedup`. -/
def normalizeForDedup (py : PyText) (text : String) : String :=
  py.lower (String.ofList (strip py.isSpace (collapseRuns py.isSpace ' ' (py.nfc text).toList)))

/-- The arguments of the function, and what it uses of Python: `fromisoformat` with `timestamp`, and
the rounding of a difference. -/
structure DedupSettings where
  py : PyText
  isoTimestamp : String → Option PyFloat
  round : Rat → PyFloat
  windowSeconds : PyFloat := .finite 60
  minChars : Int := 24

namespace MessageDict

section
variable (settings : DedupSettings)

/-- `_parse_timestamp`. -/
def parseTimestamp : TimestampDict → Option PyFloat
  | .number x => some x
  | .text s => settings.isoTimestamp (String.ofList (replaceEach 'Z' "+00:00".toList s.toList))
  | .other => none

/-- `normalize_for_dedup`. -/
def normalize (text : String) : String :=
  if text = "" then "" else normalizeForDedup settings.py text

/-- The text under which a message is remembered, if it is. -/
def dedupKey (m : MessageDict) : Option String :=
  let text := m.content.extract
  if m.role ≠ some "user" then none
  else if text.length < settings.minChars then none
  else if normalize settings text = "" then none
  else some (normalize settings text)

/-- What `last_seen` gets. -/
def lastSeen (m : MessageDict) : PyFloat := (parseTimestamp settings m.timestamp).getD .negInf

/-- Whether a message is a duplicate of one seen at `previous`. -/
def isDuplicate (m : MessageDict) (previous : PyFloat) : Bool :=
  match parseTimestamp settings m.timestamp with
  | none => true
  | some t =>
    settings.windowSeconds.le (.finite 0) || (t.sub settings.round previous).le settings.windowSeconds

/-- `dedupe_duplicate_user_messages`. -/
def dedupe (messages : List MessageDict) : List MessageDict :=
  Duplicates.remove (dedupKey settings) (lastSeen settings) (isDuplicate settings) Dict.empty messages

/-- The dropped message `m` has no timestamp, or the window is not positive, or the kept message has a
timestamp and `m` is at most the window later. -/
def WithinWindow (kept m : MessageDict) : Prop :=
  parseTimestamp settings m.timestamp = none ∨ settings.windowSeconds.le (.finite 0) = true ∨
    ∃ t t', parseTimestamp settings m.timestamp = some t ∧
      parseTimestamp settings kept.timestamp = some t' ∧
      (t.sub settings.round t').le settings.windowSeconds = true

/-- Nothing is further away than an infinite window, also where the kept message has no timestamp. -/
def Unbounded (kept : MessageDict) : Prop :=
  parseTimestamp settings kept.timestamp = none ∧ settings.windowSeconds = .inf

/-- The flags `keeps` say which messages are in the result; one that is not is a user message with the
normalised text of an earlier kept one that `justifies` dropping it. -/
structure Deduplicated (justifies : MessageDict → MessageDict → Prop) (messages : List MessageDict)
    (keeps : List Bool) : Prop where
  length : keeps.length = messages.length
  result : dedupe settings messages = select keeps messages
  dropped : ∀ {i m}, messages[i]? = some m → keeps[i]? = some false → m.role = some "user" ∧
    ∃ (j : Nat) (kept : MessageDict), j < i ∧ messages[j]? = some kept ∧ keeps[j]? = some true ∧ kept.role = some "user" ∧
      normalize settings kept.content.extract = normalize settings m.content.extract ∧
      justifies kept m

end

section
variable {settings : DedupSettings} {m kept : MessageDict} {key : String}

theorem dedupKey_eq_some (h : dedupKey settings m = some key) :
    m.role = some "user" ∧ key = normalize settings m.content.extract := by
  unfold dedupKey at h
  dsimp only at h
  split at h
  · cases h
  · rename_i hrole
    split at h
    · cases h
    · split at h
      · cases h
      · cases h
        exact ⟨by simpa using hrole, rfl⟩

theorem isDuplicate_lastSeen (h : isDuplicate settings m (lastSeen settings kept) = true) :
    WithinWindow settings kept m ∨ Unbounded settings kept := by
  unfold isDuplicate at h
  cases hm : parseTimestamp settings m.timestamp with
  | none => exact .inl (.inl hm)
  | some t =>
    simp only [hm, Bool.or_eq_true] at h
    cases h with
    | inl hwindow => exact .inl (.inr (.inl hwindow))
    | inr hnear =>
      cases hkept : parseTimestamp settings kept.timestamp with
      | none =>
        have hfar : lastSeen settings kept = .negInf := by simp [lastSeen, hkept]
        rw [hfar] at hnear
        exact .inr ⟨hkept, PyFloat.le_of_sub_negInf hnear⟩
      | some t' =>
        have hseen : lastSeen settings kept = t' := by simp [lastSeen, hkept]
        rw [hseen] at hnear
        exact .inl (.inr (.inr ⟨t, t', hm, hkept, hnear⟩))

/-- **Duplicates.** -/
theorem dedupe_duplicates (settings : DedupSettings) (messages : List MessageDict) :
    (∃ keeps, Deduplicated settings
      (fun kept m => WithinWindow settings kept m ∨ Unbounded settings kept) messages keeps) ∧
    dedupe settings (dedupe settings messages) = dedupe settings messages := by
  refine ⟨⟨Duplicates.keeps (dedupKey settings) (lastSeen settings) (isDuplicate settings) Dict.empty
    messages, ?_⟩, Duplicates.remove_idem _ _⟩
  constructor
  · exact Duplicates.keeps_length _ _
  · exact Duplicates.remove_eq_select _ _
  · intro i m hm hdropped
    obtain ⟨key, hkey, hold | ⟨j, kept, hj, hkept, hflag, hsame, hdup⟩⟩ :=
      Duplicates.keeps_dropped hm hdropped
    · cases hold
    · obtain ⟨hrole, hnorm⟩ := dedupKey_eq_some hkey
      obtain ⟨hrole', hnorm'⟩ := dedupKey_eq_some hsame
      exact ⟨hrole, j, kept, hj, hkept, hflag, hrole', hnorm'.symm.trans hnorm,
        isDuplicate_lastSeen hdup⟩

end

/-! ## An infinite window -/

def forever : DedupSettings where
  py := .ascii
  isoTimestamp _ := none
  round q := .finite q
  windowSeconds := .inf

/-- The same text twice, the second time with a timestamp. -/
def askedTwice : List MessageDict :=
  [{ role := some "user", content := .str "please summarise the report" },
    { role := some "user", content := .str "please summarise the report",
      timestamp := .number (.finite 100) }]

theorem askedTwice_not_withinWindow :
    ¬ ∃ keeps, Deduplicated forever (WithinWindow forever) askedTwice keeps := by
  rintro ⟨keeps, hlength, hresult, hdropped⟩
  have hfirst : dedupe forever askedTwice = askedTwice.take 1 := by decide
  rw [hfirst] at hresult
  match keeps, hlength with
  | [first, second], _ =>
    have hflags : first = true ∧ second = false := by
      cases first <;> cases second <;> simp [askedTwice, select] at hresult ⊢
    obtain ⟨rfl, rfl⟩ := hflags
    obtain ⟨-, j, kept, hj, hkept, -, -, -, hwithin⟩ :=
      hdropped (i := 1) (show askedTwice[1]? = some _ from rfl) rfl
    have hzero : j = 0 := by omega
    subst hzero
    cases hkept
    obtain hnone | hwindow | ⟨t, t', -, hkept, -⟩ := hwithin
    · cases hnone
    · cases hwindow
    · cases hkept

end MessageDict

end PyClaw
