import Mathlib.Data.List.Basic
import Mathlib.Data.List.TakeWhile

/-!
# Lib.Yaml

Block mappings of one entry a line, whose values are plain words or double-quoted scalars. `scanQuoted`
is the reading of a double-quoted scalar that stays on its line; `YamlLoader` is a loader of whole
documents, known by what the rules of YAML say of documents of this form.
-/

namespace PyClaw

inductive YamlValue where
  | null
  | bool (b : Bool)
  | int (n : Int)
  | str (s : List Char)
  /-- A timestamp or another scalar, none of them false. -/
  | other (text : List Char)
  | map (entries : List (List Char × YamlValue))

/-- Whether Python takes the value for true. -/
def YamlValue.truthy : YamlValue → Bool
  | .null => false
  | .bool b => b
  | .int n => n ≠ 0
  | .str s => s ≠ []
  | .other _ => true
  | .map entries => !entries.isEmpty

namespace Yaml

/-! ## Characters -/

def printable (c : Char) : Bool :=
  c = '\t' || c = '\n' || c = '\r' || (0x20 ≤ c.toNat && c.toNat ≤ 0x7e) || c.toNat = 0x85 ||
    (0xa0 ≤ c.toNat && c.toNat ≤ 0xd7ff) || (0xe000 ≤ c.toNat && c.toNat ≤ 0xfffd) ||
    0x10000 ≤ c.toNat

def lineBreak (c : Char) : Bool :=
  c = '\n' || c = '\r' || c.toNat = 0x85 || c.toNat = 0x2028 || c.toNat = 0x2029

/-- A character of a line. -/
def lineChar (c : Char) : Bool := printable c && !lineBreak c

/-! ## Double-quoted scalars -/

def simpleEscape : Char → Option Char
  | '0' => some (Char.ofNat 0)
  | 'a' => some (Char.ofNat 7)
  | 'b' => some (Char.ofNat 8)
  | 't' => some '\t'
  | '\t' => some '\t'
  | 'n' => some '\n'
  | 'v' => some (Char.ofNat 11)
  | 'f' => some (Char.ofNat 12)
  | 'r' => some '\r'
  | 'e' => some (Char.ofNat 27)
  | ' ' => some ' '
  | '"' => some '"'
  | '\\' => some '\\'
  | '/' => some '/'
  | 'N' => some (Char.ofNat 0x85)
  | '_' => some (Char.ofNat 0xa0)
  | 'L' => some (Char.ofNat 0x2028)
  | 'P' => some (Char.ofNat 0x2029)
  | _ => none

/-- How many digits follow `\x`, `\u` and `\U`. -/
def hexWidth : Char → Option Nat
  | 'x' => some 2
  | 'u' => some 4
  | 'U' => some 8
  | _ => none

def hexValue (c : Char) : Option Nat :=
  if c.isDigit then some (c.toNat - '0'.toNat)
  else if 'a' ≤ c ∧ c ≤ 'f' then some (c.toNat - 'a'.toNat + 10)
  else if 'A' ≤ c ∧ c ≤ 'F' then some (c.toNat - 'A'.toNat + 10)
  else none

/-- The character of a code, which is no surrogate. -/
def charOfCode (code : Nat) : Option Char :=
  if code.isValidChar then some (Char.ofNat code) else none

inductive EscapeState where
  | text
  | backslash
  /-- In an escape of which `left + 1` digits are to come. -/
  | hex (left code : Nat)
  deriving DecidableEq, Repr

inductive QuotedScan where
  | closed (value rest : List Char)
  | unclosed
  | malformed
  deriving DecidableEq, Repr

def QuotedScan.push (c : Char) : QuotedScan → QuotedScan
  | .closed value rest => .closed (c :: value) rest
  | .unclosed => .unclosed
  | .malformed => .malformed

/-- Reads what is behind the opening quote, up to the end of the line. -/
def scanQuoted : EscapeState → List Char → QuotedScan
  | .text, [] | .backslash, [] => .unclosed
  | .hex _ _, [] => .malformed
  | .text, c :: rest =>
    if c = '"' then .closed [] rest
    else if c = '\\' then scanQuoted .backslash rest
    else (scanQuoted .text rest).push c
  | .backslash, c :: rest =>
    match hexWidth c with
    | some width => scanQuoted (.hex (width - 1) 0) rest
    | none =>
      match simpleEscape c with
      | some x => (scanQuoted .text rest).push x
      | none => .malformed
  | .hex left code, c :: rest =>
    match hexValue c with
    | none => .malformed
    | some digit =>
      match left with
      | left + 1 => scanQuoted (.hex left (code * 16 + digit)) rest
      | 0 =>
        match charOfCode (code * 16 + digit) with
        | some x => (scanQuoted .text rest).push x
        | none => .malformed

theorem push_eq_closed {c : Char} {scan : QuotedScan} {value rest : List Char} :
    scan.push c = .closed value rest ↔ ∃ tail, value = c :: tail ∧ scan = .closed tail rest := by
  cases scan with
  | closed value' rest' =>
    simp only [QuotedScan.push, QuotedScan.closed.injEq]
    constructor
    · rintro ⟨rfl, rfl⟩
      exact ⟨_, rfl, rfl, rfl⟩
    · rintro ⟨_, rfl, rfl, rfl⟩
      exact ⟨rfl, rfl⟩
  | unclosed => simp [QuotedScan.push]
  | malformed => simp [QuotedScan.push]

/-- What is behind the closing quote plays no part. -/
theorem scanQuoted_append {state : EscapeState} {text value rest : List Char} (more : List Char)
    (h : scanQuoted state text = .closed value rest) :
    scanQuoted state (text ++ more) = .closed value (rest ++ more) := by
  induction text generalizing state value with
  | nil => cases state <;> cases h
  | cons c text ih =>
    rw [List.cons_append]
    cases state with
    | text =>
      simp only [scanQuoted] at h ⊢
      split_ifs at h ⊢
      · cases h
        rfl
      · exact ih h
      · obtain ⟨tail, rfl, hscan⟩ := push_eq_closed.mp h
        exact push_eq_closed.mpr ⟨tail, rfl, ih hscan⟩
    | backslash =>
      simp only [scanQuoted] at h ⊢
      split at h
      · exact ih h
      · split at h
        · obtain ⟨tail, rfl, hscan⟩ := push_eq_closed.mp h
          exact push_eq_closed.mpr ⟨tail, rfl, ih hscan⟩
        · cases h
    | hex left code =>
      simp only [scanQuoted] at h ⊢
      split at h
      · cases h
      · split at h
        · exact ih h
        · split at h
          · obtain ⟨tail, rfl, hscan⟩ := push_eq_closed.mp h
            exact push_eq_closed.mpr ⟨tail, rfl, ih hscan⟩
          · cases h

/-! ## Lines -/

inductive Scalar where
  | plain (text : List Char)
  /-- The text behind the opening quote, up to the end of the line. -/
  | quoted (text : List Char)
  deriving DecidableEq, Repr

def Scalar.text : Scalar → List Char
  | .plain text => text
  | .quoted text => '"' :: text

structure Line where
  key : List Char
  scalar : Scalar
  deriving DecidableEq, Repr

def Line.text (l : Line) : List Char := l.key ++ ':' :: ' ' :: l.scalar.text

/-- `[a-z0-9][a-z0-9-]*`. -/
def plainWord : List Char → Bool
  | [] => false
  | c :: rest => (c.isLower || c.isDigit) && rest.all fun c => c.isLower || c.isDigit || c = '-'

/-- The lines joined by line breaks. -/
def joinLines : List Line → List Char
  | [] => []
  | [l] => l.text
  | l :: rest => l.text ++ '\n' :: joinLines rest

theorem joinLines_cons (l : Line) {lines : List Line} (h : lines ≠ []) :
    joinLines (l :: lines) = l.text ++ '\n' :: joinLines lines := by
  cases lines with
  | nil => exact absurd rfl h
  | cons l' rest => rfl

theorem joinLines_append {a b : List Line} (ha : a ≠ []) (hb : b ≠ []) :
    joinLines (a ++ b) = joinLines a ++ '\n' :: joinLines b := by
  induction a with
  | nil => exact absurd rfl ha
  | cons l rest ih =>
    by_cases hrest : rest = []
    · rw [hrest]
      exact joinLines_cons l hb
    · rw [List.cons_append, joinLines_cons _ (by simp [hrest]), ih hrest, joinLines_cons _ hrest,
        List.append_assoc, List.cons_append]

theorem mem_joinLines {l : Line} {lines : List Line} {c : Char} (hl : l ∈ lines) (hc : c ∈ l.text) :
    c ∈ joinLines lines := by
  induction lines with
  | nil => cases hl
  | cons l' rest ih =>
    by_cases hrest : rest = []
    · rw [hrest] at hl ⊢
      rwa [List.mem_singleton.mp hl] at hc
    · rw [joinLines_cons l' hrest]
      rcases List.mem_cons.mp hl with rfl | hl
      · exact List.mem_append_left _ hc
      · exact List.mem_append_right _ (List.mem_cons_of_mem _ (ih hl))

/-- The words that plain scalars are not read as strings. -/
def reserved : List (List Char) :=
  ["null", "true", "false", "yes", "no", "on", "off", "y", "n"].map String.toList

def keyWord (key : List Char) : Bool :=
  key ≠ [] && key.all (fun c => c.isLower || c = '_') && !reserved.contains key

/-- A line of the form that the rules are about. -/
def Line.Simple (l : Line) : Prop :=
  keyWord l.key = true ∧
    match l.scalar with
    | .plain text => plainWord text = true
    | .quoted text => (∀ c ∈ text, lineChar c = true) ∧ scanQuoted .text text ≠ .unclosed

/-- The value of a line; none if the scalar is malformed. -/
def Line.value (resolve : List Char → Option YamlValue) (l : Line) : Option YamlValue :=
  match l.scalar with
  | .plain text => resolve text
  | .quoted text =>
    match scanQuoted .text text with
    | .closed value _ => some (.str value)
    | .unclosed | .malformed => none

/-- Blanks, and a comment. -/
def trailing (rest : List Char) : Bool :=
  match rest.dropWhile (· = ' ') with
  | [] => true
  | c :: _ => c = '#'

/-- Nothing but a comment follows the scalar. -/
def Line.Ends (l : Line) : Prop :=
  ∀ text, l.scalar = .quoted text →
    ∃ value rest, scanQuoted .text text = .closed value rest ∧ trailing rest = true

def entries (resolve : List Char → Option YamlValue) (lines : List Line) :
    Option (List (List Char × YamlValue)) :=
  lines.mapM fun l => (l.value resolve).map fun v => (l.key, v)

theorem mapM_eq_some_cons {β γ : Type} {f : β → Option γ} {a : β} {as : List β} {bs : List γ} :
    (a :: as).mapM f = some bs ↔ ∃ b bs', bs = b :: bs' ∧ f a = some b ∧ as.mapM f = some bs' := by
  rw [List.mapM_cons]
  simp only [Option.bind_eq_bind, Option.bind_eq_some_iff, Option.pure_def, Option.some.injEq]
  constructor
  · rintro ⟨b, hb, bs', hbs', rfl⟩
    exact ⟨b, bs', rfl, hb, hbs'⟩
  · rintro ⟨b, bs', rfl, hb, hbs'⟩
    exact ⟨b, hb, bs', hbs', rfl⟩

theorem mapM_isSome {β γ : Type} {f : β → Option γ} {as : List β} {bs : List γ} {a : β}
    (h : as.mapM f = some bs) (ha : a ∈ as) : ∃ b, f a = some b := by
  induction as generalizing bs with
  | nil => cases ha
  | cons a' as ih =>
    obtain ⟨b, bs', rfl, hb, hbs'⟩ := mapM_eq_some_cons.mp h
    rcases List.mem_cons.mp ha with rfl | ha
    · exact ⟨b, hb⟩
    · exact ih hbs' ha

theorem entries_cons {resolve : List Char → Option YamlValue} {l : Line} {lines : List Line}
    {es : List (List Char × YamlValue)} : entries resolve (l :: lines) = some es ↔
      ∃ v es', l.value resolve = some v ∧ entries resolve lines = some es' ∧ es = (l.key, v) :: es' := by
  unfold entries
  rw [mapM_eq_some_cons]
  simp only [Option.map_eq_some_iff]
  constructor
  · rintro ⟨_, es', rfl, ⟨v, hv, rfl⟩, hes⟩
    exact ⟨v, es', hv, hes, rfl⟩
  · rintro ⟨v, es', hv, hes, rfl⟩
    exact ⟨_, es', rfl, ⟨v, hv, rfl⟩, hes⟩

/-- Text that cannot end the scalar before it: its first quote, if there is one, is not escaped, and a
letter or a digit follows it. -/
def LeavesOpen (text : List Char) : Prop :=
  (text = [] ∨ text.head? = some '\n') ∧ '\\' ∉ text.takeWhile (· ≠ '"') ∧
    (text.dropWhile (· ≠ '"') = [] ∨
      ∃ c rest, text.dropWhile (· ≠ '"') = '"' :: c :: rest ∧ c.isAlphanum = true)

theorem leavesOpen_append {a rest : List Char} {c : Char} (hhead : a.head? = some '\n') (hquote : '"' ∉ a)
    (hbackslash : '\\' ∉ a) (hc : c.isAlphanum = true) : LeavesOpen (a ++ '"' :: c :: rest) := by
  have hpos : ∀ x ∈ a, decide (x ≠ '"') = true := by
    intro x hx
    refine decide_eq_true ?_
    rintro rfl
    exact hquote hx
  have htake : (a ++ '"' :: c :: rest).takeWhile (· ≠ '"') = a := by
    rw [List.takeWhile_append_of_pos hpos]
    simp
  have hdrop : (a ++ '"' :: c :: rest).dropWhile (· ≠ '"') = '"' :: c :: rest := by
    rw [List.dropWhile_append_of_pos hpos]
    simp
  refine ⟨.inr ?_, htake.symm ▸ hbackslash, .inr ⟨c, rest, hdrop, hc⟩⟩
  cases a with
  | nil => cases hhead
  | cons x a => exact hhead

end Yaml

/-- `yaml.safe_load`, with the resolution of plain scalars. -/
structure YamlLoader where
  /-- None for a plain scalar of which no value can be made, a date that does not exist. -/
  resolve : List Char → Option YamlValue
  safeLoad : List Char → Except String YamlValue
  /-- A plain scalar that is read as a string is read as it is. -/
  resolve_str : ∀ text s, resolve text = some (.str s) → s = text
  resolve_word : ∀ key, Yaml.keyWord key = true → resolve key = some (.str key)
  resolve_true : resolve "true".toList = some (.bool true)
  /-- A line for each entry, and nothing but a value and a comment on it. -/
  load_lines : ∀ lines v, lines ≠ [] → (lines.map Yaml.Line.key).Nodup → (∀ l ∈ lines, l.Simple) →
    (safeLoad (Yaml.joinLines lines) = .ok v ↔
      (∀ l ∈ lines, l.Ends) ∧ ∃ es, Yaml.entries resolve lines = some es ∧ v = .map es)
  /-- A scalar that is not closed on its line, nor by what follows. -/
  load_unclosed : ∀ lines key text after, (∀ l ∈ lines, l.Simple) → Yaml.keyWord key = true →
    (∀ c ∈ text, Yaml.lineChar c = true) → Yaml.scanQuoted .text text = .unclosed →
      Yaml.LeavesOpen after → ∃ e,
        safeLoad (Yaml.joinLines (lines ++ [{ key, scalar := .quoted text }]) ++ after) = .error e
  load_printable : ∀ text v, safeLoad text = .ok v → ∀ c ∈ text, Yaml.printable c = true

end PyClaw
