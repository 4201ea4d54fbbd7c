import PyClaw.Lib.Dict
import PyClaw.Lib.Machine
import PyClaw.Lib.Yaml

/-!
# Lib.Json

JSON as Python writes and reads it: `json.dumps` with its default separators and `json.loads`, for texts
without lone surrogates. The reader is a machine that takes one character at a time; what is open is on its
stack. Of numbers that are no integers it keeps the literal.

`loads_dumps`: what is written is read back.
-/

namespace PyClaw

inductive JsonValue where
  | null
  | bool (b : Bool)
  | int (n : Int)
  | float (literal : List Char)
  | str (s : List Char)
  | arr (items : List JsonValue)
  | obj (entries : List (List Char × JsonValue))

namespace Json

/-! ## Writing -/

def hex4 (n : Nat) : List Char :=
  [Nat.digitChar (n / 4096 % 16), Nat.digitChar (n / 256 % 16), Nat.digitChar (n / 16 % 16),
    Nat.digitChar (n % 16)]

def unicodeEscape (n : Nat) : List Char := '\\' :: 'u' :: hex4 n

/-- `ESCAPE_DCT`, and for all other characters `\uXXXX` where they are not written as they are. -/
def escapeChar (ensureAscii : Bool) (c : Char) : List Char :=
  if c = '"' then ['\\', '"']
  else if c = '\\' then ['\\', '\\']
  else if c = '\n' then ['\\', 'n']
  else if c = '\r' then ['\\', 'r']
  else if c = '\t' then ['\\', 't']
  else if c.toNat = 0x08 then ['\\', 'b']
  else if c.toNat = 0x0c then ['\\', 'f']
  else if c.toNat < 0x20 || (ensureAscii && 0x7e < c.toNat) then
    if c.toNat < 0x10000 then unicodeEscape c.toNat
    else
      unicodeEscape (0xD800 + (c.toNat - 0x10000) / 0x400) ++
        unicodeEscape (0xDC00 + (c.toNat - 0x10000) % 0x400)
  else [c]

def quote (ensureAscii : Bool) (s : List Char) : List Char :=
  '"' :: s.flatMap (escapeChar ensureAscii) ++ ['"']

def intText (n : Int) : List Char :=
  match n with
  | .ofNat n => Nat.toDigits 10 n
  | .negSucc n => '-' :: Nat.toDigits 10 (n + 1)

mutual

def dumps (ensureAscii : Bool) : JsonValue → List Char
  | .null => ['n', 'u', 'l', 'l']
  | .bool true => ['t', 'r', 'u', 'e']
  | .bool false => ['f', 'a', 'l', 's', 'e']
  | .int n => intText n
  | .float literal => literal
  | .str s => quote ensureAscii s
  | .arr items => '[' :: dumpsItems ensureAscii items
  | .obj entries => '{' :: dumpsEntries ensureAscii entries

/-- The items, with what separates and closes them. -/
def dumpsItems (ensureAscii : Bool) : List JsonValue → List Char
  | [] => [']']
  | v :: rest => dumps ensureAscii v ++ dumpsTail ensureAscii rest

def dumpsTail (ensureAscii : Bool) : List JsonValue → List Char
  | [] => [']']
  | v :: rest => ',' :: ' ' :: (dumps ensureAscii v ++ dumpsTail ensureAscii rest)

def dumpsEntries (ensureAscii : Bool) : List (List Char × JsonValue) → List Char
  | [] => ['}']
  | (k, v) :: rest => quote ensureAscii k ++ ':' :: ' ' :: (dumps ensureAscii v ++ dumpsMore ensureAscii rest)

def dumpsMore (ensureAscii : Bool) : List (List Char × JsonValue) → List Char
  | [] => ['}']
  | (k, v) :: rest =>
    ',' :: ' ' :: (quote ensureAscii k ++ ':' :: ' ' :: (dumps ensureAscii v ++ dumpsMore ensureAscii rest))

end

/-! ## Reading -/

/-- In an array or, behind a key, in an object. -/
inductive Frame where
  | items (items : List JsonValue)
  | entries (entries : List (List Char × JsonValue)) (key : List Char)

inductive Escape where
  | plain
  | backslash
  /-- In `\uXXXX`, of which `left + 1` digits are to come, behind a high surrogate or not. -/
  | hex (left code : Nat) (high : Option Nat)
  /-- Behind a high surrogate. -/
  | pair (high : Nat)
  | pairBackslash (high : Nat)
  deriving DecidableEq

inductive Mode where
  | value
  /-- Behind `[`. -/
  | firstItem
  | nextItem (items : List JsonValue)
  /-- Where a key must come, or behind `{` the end of the object may. -/
  | key (first : Bool) (entries : List (List Char × JsonValue))
  | colon (entries : List (List Char × JsonValue)) (key : List Char)
  | nextEntry (entries : List (List Char × JsonValue))
  /-- In a string, which is the key of an object with these entries or a value. -/
  | text (entries : Option (List (List Char × JsonValue))) (read : List Char) (escape : Escape)
  | number (literal : List Char)
  | word (left : List Char) (v : JsonValue)
  | done (v : JsonValue)

structure State where
  stack : List Frame := []
  mode : Mode := .value

def isSpace (c : Char) : Bool := c = ' ' || c = '\t' || c = '\n' || c = '\r'

def numberChar (c : Char) : Bool := c.isDigit || c = '-' || c = '+' || c = '.' || c = 'e' || c = 'E'

def exponent : List Char → Bool
  | [] => true
  | c :: rest =>
    let digits := match rest with
      | '+' :: digits => digits
      | '-' :: digits => digits
      | digits => digits
    (c = 'e' || c = 'E') && digits ≠ [] && digits.all Char.isDigit

/-- `(\.[0-9]+)?([eE][-+]?[0-9]+)?`. -/
def fraction : List Char → Bool
  | '.' :: rest => rest.takeWhile Char.isDigit ≠ [] && exponent (rest.dropWhile Char.isDigit)
  | rest => exponent rest

/-- Whether there is a minus, and what is behind it. -/
def sign : List Char → Bool × List Char
  | '-' :: body => (true, body)
  | body => (false, body)

/-- A literal of `-?(0|[1-9][0-9]*)`, an integer if nothing follows. -/
def numberOf (literal : List Char) : Option JsonValue :=
  let (negative, body) := sign literal
  let whole := body.takeWhile Char.isDigit
  let rest := body.dropWhile Char.isDigit
  if whole = [] || (whole.head? = some '0' && whole.length ≠ 1) then none
  else if rest = [] then
    let n : Int := Nat.ofDigitChars 10 whole 0
    some (.int (if negative then -n else n))
  else if fraction rest then some (.float literal)
  else none

def finish : List Frame → JsonValue → State
  | [], v => { stack := [], mode := .done v }
  | .items items :: stack, v => { stack, mode := .nextItem (items ++ [v]) }
  | .entries entries key :: stack, v => { stack, mode := .nextEntry (Dict.assign key v entries) }

/-- The first character of a value. -/
def start (stack : List Frame) (c : Char) : Option State :=
  if c = '"' then some { stack, mode := .text none [] .plain }
  else if c = '[' then some { stack, mode := .firstItem }
  else if c = '{' then some { stack, mode := .key true [] }
  else if c = 'n' then some { stack, mode := .word ['u', 'l', 'l'] .null }
  else if c = 't' then some { stack, mode := .word ['r', 'u', 'e'] (.bool true) }
  else if c = 'f' then some { stack, mode := .word ['a', 'l', 's', 'e'] (.bool false) }
  else if c = 'N' then some { stack, mode := .word ['a', 'N'] (.float ['N', 'a', 'N']) }
  else if c = 'I' then some { stack, mode := .word "nfinity".toList (.float "Infinity".toList) }
  else if c.isDigit || c = '-' then some { stack, mode := .number [c] }
  else none

/-- A character behind a value. -/
def behind (s : State) (c : Char) : Option State :=
  if isSpace c then some s
  else
    match s.mode with
    | .nextItem items =>
      if c = ',' then some { stack := .items items :: s.stack, mode := .value }
      else if c = ']' then some (finish s.stack (.arr items))
      else none
    | .nextEntry entries =>
      if c = ',' then some { s with mode := .key false entries }
      else if c = '}' then some (finish s.stack (.obj entries))
      else none
    | _ => none

def simpleEscape : Char → Option Char
  | '"' => some '"'
  | '\\' => some '\\'
  | '/' => some '/'
  | 'b' => some (Char.ofNat 0x08)
  | 'f' => some (Char.ofNat 0x0c)
  | 'n' => some '\n'
  | 'r' => some '\r'
  | 't' => some '\t'
  | _ => none

/-- What `\uXXXX` stands for: a character, or the first half of one. -/
def unescape (read : List Char) (code : Nat) : Option Nat → Option (List Char × Escape)
  | none =>
    if 0xD800 ≤ code ∧ code ≤ 0xDBFF then some (read, .pair code)
    else (Yaml.charOfCode code).map fun c => (read ++ [c], .plain)
  | some high =>
    if 0xDC00 ≤ code ∧ code ≤ 0xDFFF then
      some (read ++ [Char.ofNat (0x10000 + (high - 0xD800) * 0x400 + (code - 0xDC00))], .plain)
    else none

/-- A character of a string that does not end it. -/
def textStep (read : List Char) (c : Char) : Escape → Option (List Char × Escape)
  | .plain => if c = '\\' then some (read, .backslash) else if c.toNat < 0x20 then none else some (read ++ [c], .plain)
  | .backslash =>
    if c = 'u' then some (read, .hex 3 0 none) else (simpleEscape c).map fun x => (read ++ [x], .plain)
  | .hex left code high =>
    (Yaml.hexValue c).bind fun digit =>
      match left with
      | left + 1 => some (read, .hex left (code * 16 + digit) high)
      | 0 => unescape read (code * 16 + digit) high
  | .pair high => if c = '\\' then some (read, .pairBackslash high) else none
  | .pairBackslash high => if c = 'u' then some (read, .hex 3 0 (some high)) else none

def step (s : State) (c : Char) : Option State :=
  match s.mode with
  | .value => if isSpace c then some s else start s.stack c
  | .firstItem =>
    if isSpace c then some s
    else if c = ']' then some (finish s.stack (.arr []))
    else start (.items [] :: s.stack) c
  | .key first entries =>
    if isSpace c then some s
    else if c = '"' then some { s with mode := .text (some entries) [] .plain }
    else if first && c = '}' then some (finish s.stack (.obj entries))
    else none
  | .colon entries key =>
    if isSpace c then some s
    else if c = ':' then some { stack := .entries entries key :: s.stack, mode := .value }
    else none
  | .text entries read escape =>
    if escape = .plain ∧ c = '"' then
      match entries with
      | none => some (finish s.stack (.str read))
      | some entries => some { s with mode := .colon entries read }
    else (textStep read c escape).map fun (read, escape) => { s with mode := .text entries read escape }
  | .number literal =>
    if numberChar c then some { s with mode := .number (literal ++ [c]) }
    else if literal = ['-'] ∧ c = 'I' then
      some { s with mode := .word "nfinity".toList (.float "-Infinity".toList) }
    else (numberOf literal).bind fun v => behind (finish s.stack v) c
  | .word left v =>
    match left with
    | [] => none
    | x :: left =>
      if c = x then some (if left = [] then finish s.stack v else { s with mode := .word left v }) else none
  | .nextItem _ | .nextEntry _ | .done _ => behind s c

/-- The value that has been read, at the end of the text. -/
def State.result (s : State) : Option JsonValue :=
  match s.stack, s.mode with
  | [], .done v => some v
  | [], .number literal => numberOf literal
  | _, _ => none

def read (s : State) (text : List Char) : Option JsonValue := (tryFrom step s text).bind State.result

def loads (text : List Char) : Option JsonValue := read {} text

/-! ## Values that can be written -/

/-- The literal of a number. -/
def IsNumber (literal : List Char) : Prop :=
  (∃ c more, literal = c :: more ∧ (c.isDigit || c = '-') = true) ∧ literal.all numberChar = true

/-- How a float is written that is no number. -/
def nonNumbers : List (List Char) := [['N', 'a', 'N'], "Infinity".toList, "-Infinity".toList]

def IsFloat (literal : List Char) : Prop :=
  IsNumber literal ∧ numberOf literal = some (.float literal) ∨ literal ∈ nonNumbers

mutual

/-- Objects have no key twice, and floats have their literal. -/
def Proper : JsonValue → Prop
  | .float literal => IsFloat literal
  | .arr items => ProperItems items
  | .obj entries => (entries.map Prod.fst).Nodup ∧ ProperEntries entries
  | _ => True

def ProperItems : List JsonValue → Prop
  | [] => True
  | v :: rest => Proper v ∧ ProperItems rest

def ProperEntries : List (List Char × JsonValue) → Prop
  | [] => True
  | (_, v) :: rest => Proper v ∧ ProperEntries rest

end

/-! ## Strings are read back -/

variable {stack : List Frame} {rest : List Char} {a : Bool}

theorem read_cons (s : State) (c : Char) (text : List Char) :
    read s (c :: text) = (step s c).bind fun s' => read s' text := by
  rw [read, tryFrom, Option.bind_assoc]
  rfl

theorem read_of_step {s t : State} {c : Char} (h : step s c = some t) (text : List Char) :
    read s (c :: text) = read t text := by
  rw [read_cons, h, Option.bind_some]

theorem hexValue_digitChar : ∀ d < 16, Yaml.hexValue (Nat.digitChar d) = some d := by decide

section
variable (entries : Option (List (List Char × JsonValue))) (acc : List Char)

/-- In a string. -/
def inText (stack : List Frame) (entries : Option (List (List Char × JsonValue))) (acc : List Char)
    (escape : Escape) : State := { stack, mode := .text entries acc escape }

theorem read_text {escape escape' : Escape} {acc' : List Char} {c : Char} (hc : escape ≠ .plain ∨ c ≠ '"')
    (h : textStep acc c escape = some (acc', escape')) (text : List Char) :
    read (inText stack entries acc escape) (c :: text) = read (inText stack entries acc' escape') text := by
  refine read_of_step ?_ text
  have hnot : ¬ (escape = .plain ∧ c = '"') := by
    rintro ⟨he, rfl⟩
    rcases hc with h | h
    · exact h he
    · exact h rfl
  rw [step, inText]
  simp only [hnot, if_false, h, Option.map_some]
  rfl

theorem read_hex {n : Nat} (hn : n < 0x10000) (high : Option Nat) {acc' : List Char} {escape : Escape}
    (h : unescape acc n high = some (acc', escape)) (text : List Char) :
    read (inText stack entries acc (.hex 3 0 high)) (hex4 n ++ text) =
      read (inText stack entries acc' escape) text := by
  have hstep : ∀ left code d, d < 16 →
      textStep acc (Nat.digitChar d) (.hex (left + 1) code high) = some (acc, .hex left (code * 16 + d) high) := by
    intro left code d hd
    rw [textStep, hexValue_digitChar d hd]
    rfl
  have hlast : textStep acc (Nat.digitChar (n % 16))
      (.hex 0 (((0 * 16 + n / 4096 % 16) * 16 + n / 256 % 16) * 16 + n / 16 % 16) high) = some (acc', escape) := by
    have hvalue : (((0 * 16 + n / 4096 % 16) * 16 + n / 256 % 16) * 16 + n / 16 % 16) * 16 + n % 16 = n := by
      omega
    rw [textStep, hexValue_digitChar _ (by omega), Option.bind_some]
    show unescape acc _ high = _
    rw [hvalue, h]
  rw [hex4, List.cons_append, read_text entries acc (.inl (by simp)) (hstep 2 0 _ (by omega)),
    List.cons_append, read_text entries acc (.inl (by simp)) (hstep 1 _ _ (by omega)),
    List.cons_append, read_text entries acc (.inl (by simp)) (hstep 0 _ _ (by omega)),
    List.cons_append, read_text entries acc (.inl (by simp)) hlast, List.nil_append]

theorem read_backslash (text : List Char) :
    read (inText stack entries acc .plain) ('\\' :: text) =
      read (inText stack entries acc .backslash) text :=
  read_text entries acc (.inr (by decide)) rfl text

theorem read_simpleEscape {x c : Char} (hx : x ≠ 'u') (h : simpleEscape x = some c) (text : List Char) :
    read (inText stack entries acc .plain) ('\\' :: x :: text) =
      read (inText stack entries (acc ++ [c]) .plain) text := by
  rw [read_backslash]
  refine read_text entries acc (.inl (by simp)) ?_ text
  rw [textStep, if_neg hx, h]
  rfl

theorem toNat_valid (c : Char) : c.toNat < 0xD800 ∨ 0xDFFF < c.toNat ∧ c.toNat < 0x110000 := c.valid

theorem charOfCode_toNat (c : Char) : Yaml.charOfCode c.toNat = some c := by
  have hvalid : c.toNat.isValidChar := c.valid
  rw [Yaml.charOfCode, if_pos hvalid, Char.ofNat_toNat]

theorem read_unicodeEscape {c : Char} (hc : c.toNat < 0x10000) (text : List Char) :
    read (inText stack entries acc .plain) (unicodeEscape c.toNat ++ text) =
      read (inText stack entries (acc ++ [c]) .plain) text := by
  have hsurrogate : ¬ (0xD800 ≤ c.toNat ∧ c.toNat ≤ 0xDBFF) := by
    have := toNat_valid c
    omega
  have hunescape : unescape acc c.toNat none = some (acc ++ [c], .plain) := by
    rw [unescape, if_neg hsurrogate, charOfCode_toNat]
    rfl
  rw [unicodeEscape, List.cons_append, List.cons_append, read_backslash,
    read_text entries acc (.inl (by simp)) (c := 'u') rfl, read_hex entries acc hc none hunescape]

/-- A character outside the first plane is written as two halves. -/
theorem read_surrogates {c : Char} (hc : 0x10000 ≤ c.toNat) (text : List Char) :
    read (inText stack entries acc .plain) (unicodeEscape (0xD800 + (c.toNat - 0x10000) / 0x400) ++
        (unicodeEscape (0xDC00 + (c.toNat - 0x10000) % 0x400) ++ text)) =
      read (inText stack entries (acc ++ [c]) .plain) text := by
  have hvalid := toNat_valid c
  have hhigh : unescape acc (0xD800 + (c.toNat - 0x10000) / 0x400) none =
      some (acc, .pair (0xD800 + (c.toNat - 0x10000) / 0x400)) := by
    rw [unescape, if_pos (by omega)]
  have hlow : unescape acc (0xDC00 + (c.toNat - 0x10000) % 0x400)
      (some (0xD800 + (c.toNat - 0x10000) / 0x400)) = some (acc ++ [c], .plain) := by
    have hcode : 0x10000 + (0xD800 + (c.toNat - 0x10000) / 0x400 - 0xD800) * 0x400 +
        (0xDC00 + (c.toNat - 0x10000) % 0x400 - 0xDC00) = c.toNat := by omega
    rw [unescape, if_pos (by omega), hcode, Char.ofNat_toNat]
  rw [unicodeEscape, List.cons_append, List.cons_append, read_backslash,
    read_text entries acc (.inl (by simp)) (c := 'u') rfl, read_hex entries acc (by omega) none hhigh,
    unicodeEscape, List.cons_append, List.cons_append,
    read_text entries acc (.inl (by simp)) (c := '\\') rfl,
    read_text entries acc (.inl (by simp)) (c := 'u') rfl, read_hex entries acc (by omega) _ hlow]

theorem read_escapeChar (c : Char) (text : List Char) :
    read (inText stack entries acc .plain) (escapeChar a c ++ text) =
      read (inText stack entries (acc ++ [c]) .plain) text := by
  unfold escapeChar
  split_ifs with h₁ h₂ h₃ h₄ h₅ h₆ h₇ h₈ h₉
  · rw [h₁]
    exact read_simpleEscape entries acc (by decide) rfl text
  · rw [h₂]
    exact read_simpleEscape entries acc (by decide) rfl text
  · rw [h₃]
    exact read_simpleEscape entries acc (by decide) rfl text
  · rw [h₄]
    exact read_simpleEscape entries acc (by decide) rfl text
  · rw [h₅]
    exact read_simpleEscape entries acc (by decide) rfl text
  · have hb : simpleEscape 'b' = some c := by rw [← Char.ofNat_toNat c, h₆]; rfl
    exact read_simpleEscape entries acc (by decide) hb text
  · have hf : simpleEscape 'f' = some c := by rw [← Char.ofNat_toNat c, h₇]; rfl
    exact read_simpleEscape entries acc (by decide) hf text
  · exact read_unicodeEscape entries acc h₉ text
  · rw [List.append_assoc]
    exact read_surrogates entries acc (by omega) text
  · refine read_text entries acc (.inr h₁) ?_ text
    have hlow : ¬ c.toNat < 0x20 := by
      intro hlow
      simp [hlow] at h₈
    rw [textStep, if_neg h₂, if_neg hlow]

theorem read_escaped (s : List Char) (text : List Char) :
    read (inText stack entries acc .plain) (s.flatMap (escapeChar a) ++ text) =
      read (inText stack entries (acc ++ s) .plain) text := by
  induction s generalizing acc with
  | nil => simp
  | cons c s ih =>
    rw [List.flatMap_cons, List.append_assoc, read_escapeChar, ih, List.append_assoc]
    rfl

end

/-! ## Numbers are read back -/

/-- What may come behind a value: a number ends before it. -/
def Delimits (rest : List Char) : Prop :=
  ∀ c text, rest = c :: text → numberChar c = false ∧ c ≠ 'I'

theorem delimits_nil : Delimits [] := fun _ _ h => nomatch h

theorem delimits_cons {c : Char} (hc : numberChar c = false) (hI : c ≠ 'I') (text : List Char) :
    Delimits (c :: text) := by
  rintro c' text' h
  cases h
  exact ⟨hc, hI⟩

/-- Behind a value the machine does not look back. -/
theorem step_finish (stack : List Frame) (v : JsonValue) (c : Char) :
    step (finish stack v) c = behind (finish stack v) c := by
  match stack with
  | [] | .items _ :: _ | .entries _ _ :: _ => rfl

theorem result_finish (stack : List Frame) (v : JsonValue) :
    (finish stack v).result = if stack.isEmpty then some v else none := by
  match stack with
  | [] => rfl
  | .items _ :: stack | .entries _ _ :: stack => cases stack <;> rfl

theorem read_numberEnd {literal : List Char} {v : JsonValue} (hv : numberOf literal = some v)
    (hrest : Delimits rest) :
    read { stack, mode := .number literal } rest = read (finish stack v) rest := by
  cases rest with
  | nil =>
    show State.result _ = State.result _
    rw [result_finish]
    cases stack with
    | nil => exact hv
    | cons frame stack => rfl
  | cons c text =>
    obtain ⟨hc, hI⟩ := hrest c text rfl
    rw [read_cons, read_cons, step_finish, step]
    simp only [hc, Bool.false_eq_true, if_false, hI, and_false, hv, Option.bind_some]

theorem read_numberChars {literal more : List Char} {v : JsonValue} (hmore : more.all numberChar = true)
    (hv : numberOf (literal ++ more) = some v) (hrest : Delimits rest) :
    read { stack, mode := .number literal } (more ++ rest) = read (finish stack v) rest := by
  induction more generalizing literal with
  | nil => exact read_numberEnd (by simpa using hv) hrest
  | cons c more ih =>
    rw [List.all_cons, Bool.and_eq_true] at hmore
    have hstep : step { stack, mode := .number literal } c =
        some { stack, mode := .number (literal ++ [c]) } := if_pos hmore.1
    rw [List.cons_append, read_of_step hstep]
    exact ih hmore.2 (by simpa using hv)

theorem start_number {c : Char} (hc : (c.isDigit || c = '-') = true) (stack : List Frame) :
    start stack c = some { stack, mode := .number [c] } ∧ isSpace c = false ∧ c ≠ ']' := by
  have hne : ∀ x : Char, (x.isDigit || x = '-') = false → c ≠ x := by
    rintro x hx rfl
    rw [hc] at hx
    cases hx
  simp [start, isSpace, hc, hne '"' (by decide), hne '[' (by decide), hne '{' (by decide), hne 'n' (by decide),
    hne 't' (by decide), hne 'f' (by decide), hne 'N' (by decide), hne 'I' (by decide), hne ' ' (by decide),
    hne '\t' (by decide), hne '\n' (by decide), hne '\r' (by decide), hne ']' (by decide)]

/-- Where a value begins. -/
theorem read_start {t : State} {c : Char} (hc : isSpace c = false) (h : start stack c = some t)
    (text : List Char) : read { stack, mode := .value } (c :: text) = read t text := by
  refine read_of_step ?_ text
  rw [step]
  simp [hc, h]

theorem read_number {c : Char} {more : List Char} {v : JsonValue} (hc : (c.isDigit || c = '-') = true)
    (hmore : more.all numberChar = true) (hv : numberOf (c :: more) = some v) (hrest : Delimits rest) :
    read { stack, mode := .value } (c :: more ++ rest) = read (finish stack v) rest := by
  obtain ⟨hstart, hspace, -⟩ := start_number hc stack
  rw [List.cons_append, read_start hspace hstart]
  exact read_numberChars hmore hv hrest

/-- A positive number does not begin with a zero. -/
theorem head?_toDigits {n : Nat} (hn : 0 < n) : (Nat.toDigits 10 n).head? ≠ some '0' := by
  induction n using Nat.strongRecOn with
  | ind n ih =>
    by_cases hlt : n < 10
    · have hsmall : ∀ n < 10, 0 < n → (Nat.toDigits 10 n).head? ≠ some '0' := by decide
      exact hsmall n hlt hn
    · rw [Nat.toDigits_of_base_le (by omega) (by omega), List.head?_append_of_ne_nil _ Nat.toDigits_ne_nil]
      exact ih (n / 10) (by omega) (by omega)

theorem all_isDigit_toDigits (n : Nat) : (Nat.toDigits 10 n).all Char.isDigit = true :=
  List.all_eq_true.mpr fun _ hc => Nat.isDigit_of_mem_toDigits (by omega) (by omega) hc

/-- The digits of a number are its whole literal, with no zero in front. -/
theorem whole_toDigits (n : Nat) :
    (Nat.toDigits 10 n).takeWhile Char.isDigit = Nat.toDigits 10 n ∧
      (Nat.toDigits 10 n).dropWhile Char.isDigit = [] ∧
      ((Nat.toDigits 10 n) = [] ||
        ((Nat.toDigits 10 n).head? = some '0' && (Nat.toDigits 10 n).length ≠ 1)) = false := by
  have hall := List.all_eq_true.mp (all_isDigit_toDigits n)
  refine ⟨List.takeWhile_eq_self_iff.mpr hall, List.dropWhile_eq_nil_iff.mpr hall, ?_⟩
  rcases Nat.eq_zero_or_pos n with rfl | hn
  · decide
  · simp [Nat.toDigits_ne_nil, head?_toDigits hn]

theorem numberOf_toDigits (n : Nat) : numberOf (Nat.toDigits 10 n) = some (.int n) := by
  obtain ⟨htake, hdrop, hzero⟩ := whole_toDigits n
  have hsign : sign (Nat.toDigits 10 n) = (false, Nat.toDigits 10 n) := by
    have hdigit := all_isDigit_toDigits n
    unfold sign
    split
    · rename_i body h
      rw [h] at hdigit
      simp at hdigit
    · rfl
  simp only [numberOf, hsign, htake, hdrop, hzero, Bool.false_eq_true, if_false, if_true,
    Nat.ofDigitChars_ten_toDigits]

theorem numberOf_minus (n : Nat) : numberOf ('-' :: Nat.toDigits 10 (n + 1)) = some (.int (.negSucc n)) := by
  obtain ⟨htake, hdrop, hzero⟩ := whole_toDigits (n + 1)
  simp only [numberOf, sign, htake, hdrop, hzero, Bool.false_eq_true, if_false, if_true,
    Nat.ofDigitChars_ten_toDigits]
  rfl

theorem intText_number (n : Int) : ∃ c more, intText n = c :: more ∧ (c.isDigit || c = '-') = true ∧
    more.all numberChar = true ∧ numberOf (c :: more) = some (.int n) := by
  have hchars : ∀ n, (Nat.toDigits 10 n).all numberChar = true := fun n =>
    List.all_eq_true.mpr fun c hc => by simp [numberChar, List.all_eq_true.mp (all_isDigit_toDigits n) c hc]
  cases n with
  | ofNat n =>
    cases hdigits : Nat.toDigits 10 n with
    | nil => exact absurd hdigits Nat.toDigits_ne_nil
    | cons c more =>
      have hdigit := all_isDigit_toDigits n
      have hnumber := hchars n
      rw [hdigits, List.all_cons, Bool.and_eq_true] at hdigit hnumber
      exact ⟨c, more, hdigits, by simp [hdigit.1], hnumber.2, hdigits ▸ numberOf_toDigits n⟩
  | negSucc n => exact ⟨'-', _, rfl, rfl, hchars (n + 1), numberOf_minus n⟩

/-! ## Values are read back -/

theorem delimits_items (items : List JsonValue) (rest : List Char) :
    Delimits (dumpsTail a items ++ rest) := by
  cases items with
  | nil => exact delimits_cons (by decide) (by decide) _
  | cons v items => exact delimits_cons (by decide) (by decide) _

theorem delimits_entries (entries : List (List Char × JsonValue)) (rest : List Char) :
    Delimits (dumpsMore a entries ++ rest) := by
  cases entries with
  | nil => exact delimits_cons (by decide) (by decide) _
  | cons e entries => exact delimits_cons (by decide) (by decide) _

/-- A value begins with a character that is no blank and no bracket. -/
theorem dumps_head {v : JsonValue} (hv : Proper v) :
    ∃ c more, dumps a v = c :: more ∧ isSpace c = false ∧ c ≠ ']' := by
  cases v with
  | null => exact ⟨_, _, rfl, by decide, by decide⟩
  | bool b => cases b <;> exact ⟨_, _, rfl, by decide, by decide⟩
  | int n =>
    obtain ⟨c, more, he, hc, -⟩ := intText_number n
    obtain ⟨-, hspace, hbracket⟩ := start_number hc []
    exact ⟨c, more, he, hspace, hbracket⟩
  | float literal =>
    rcases hv with ⟨⟨⟨c, more, rfl, hc⟩, -⟩, -⟩ | hv
    · obtain ⟨-, hspace, hbracket⟩ := start_number hc []
      exact ⟨c, more, rfl, hspace, hbracket⟩
    · simp only [nonNumbers, List.mem_cons, List.not_mem_nil, or_false] at hv
      rcases hv with rfl | rfl | rfl <;> exact ⟨_, _, rfl, by decide, by decide⟩
  | str s => exact ⟨_, _, rfl, by decide, by decide⟩
  | arr items => exact ⟨_, _, rfl, by decide, by decide⟩
  | obj entries => exact ⟨_, _, rfl, by decide, by decide⟩

/-- Behind `[` a value is read as in any other place. -/
theorem read_firstItem {c : Char} (hspace : isSpace c = false) (hc : c ≠ ']') (text : List Char) :
    read { stack, mode := .firstItem } (c :: text) =
      read { stack := .items [] :: stack, mode := .value } (c :: text) := by
  rw [read_cons, read_cons, step, step]
  simp [hspace, hc]

/-- A string that is a value. -/
theorem read_quote (s : List Char) (rest : List Char) :
    read { stack, mode := .value } (quote a s ++ rest) = read (finish stack (.str s)) rest := by
  rw [quote, List.cons_append, List.cons_append,
    read_start (by decide) (t := inText stack none [] .plain) rfl, List.append_assoc, read_escaped]
  exact read_of_step rfl rest

/-- A string that is a key, with the colon. -/
theorem read_key {s : State} {entries : List (List Char × JsonValue)} {first : Bool}
    (hs : s = { stack, mode := .key first entries }) (key rest : List Char) :
    read s (quote a key ++ ':' :: ' ' :: rest) =
      read { stack := .entries entries key :: stack, mode := .value } rest := by
  subst hs
  rw [quote, List.cons_append, List.cons_append,
    read_of_step (t := inText stack (some entries) [] .plain) rfl, List.append_assoc, read_escaped]
  rw [List.singleton_append, read_of_step (t := { stack, mode := .colon entries key }) rfl,
    read_of_step (t := { stack := .entries entries key :: stack, mode := .value }) rfl,
    read_of_step (t := { stack := .entries entries key :: stack, mode := .value }) rfl]

mutual

theorem read_dumps (v : JsonValue) (hv : Proper v) (stack : List Frame) (rest : List Char)
    (hrest : Delimits rest) :
    read { stack, mode := .value } (dumps a v ++ rest) = read (finish stack v) rest := by
  match v with
  | .null | .bool true | .bool false => rfl
  | .int n =>
    obtain ⟨c, more, he, hc, hmore, hnumber⟩ := intText_number n
    rw [dumps, he]
    exact read_number hc hmore hnumber hrest
  | .float literal =>
    rcases hv with ⟨⟨⟨c, more, rfl, hc⟩, hmore⟩, hnumber⟩ | hv
    · rw [List.all_cons, Bool.and_eq_true] at hmore
      exact read_number hc hmore.2 hnumber hrest
    · simp only [nonNumbers, List.mem_cons, List.not_mem_nil, or_false] at hv
      rcases hv with rfl | rfl | rfl <;> rfl
  | .str s => exact read_quote s rest
  | .arr items =>
    rw [dumps, List.cons_append, read_start (by decide) (t := { stack, mode := .firstItem }) rfl]
    exact read_dumpsItems items hv stack rest
  | .obj entries =>
    rw [dumps, List.cons_append, read_start (by decide) (t := { stack, mode := .key true [] }) rfl]
    exact read_dumpsEntries entries hv.1 hv.2 stack rest

theorem read_dumpsItems (items : List JsonValue) (hitems : ProperItems items) (stack : List Frame)
    (rest : List Char) :
    read { stack, mode := .firstItem } (dumpsItems a items ++ rest) = read (finish stack (.arr items)) rest := by
  match items with
  | [] => rfl
  | v :: items =>
    obtain ⟨c, more, he, hspace, hc⟩ := dumps_head (a := a) hitems.1
    have hfirst : ∀ text, read { stack, mode := .firstItem } (dumps a v ++ text) =
        read { stack := .items [] :: stack, mode := .value } (dumps a v ++ text) := fun text => by
      rw [he]
      exact read_firstItem hspace hc _
    rw [dumpsItems, List.append_assoc, hfirst,
      read_dumps v hitems.1 (.items [] :: stack) _ (delimits_items items rest)]
    exact read_dumpsTail items hitems.2 [v] stack rest

theorem read_dumpsTail (items : List JsonValue) (hitems : ProperItems items) (before : List JsonValue)
    (stack : List Frame) (rest : List Char) :
    read { stack, mode := .nextItem before } (dumpsTail a items ++ rest) =
      read (finish stack (.arr (before ++ items))) rest := by
  match items with
  | [] =>
    rw [List.append_nil]
    rfl
  | v :: items =>
    rw [dumpsTail, List.cons_append, List.cons_append,
      read_of_step (t := { stack := .items before :: stack, mode := .value }) rfl,
      read_of_step (t := { stack := .items before :: stack, mode := .value }) rfl, List.append_assoc,
      read_dumps v hitems.1 (.items before :: stack) _ (delimits_items items rest), finish,
      read_dumpsTail items hitems.2 (before ++ [v]) stack rest, List.append_assoc, List.singleton_append]

theorem read_dumpsEntries (entries : List (List Char × JsonValue)) (hkeys : (entries.map Prod.fst).Nodup)
    (hentries : ProperEntries entries) (stack : List Frame) (rest : List Char) :
    read { stack, mode := .key true [] } (dumpsEntries a entries ++ rest) =
      read (finish stack (.obj entries)) rest := by
  match entries with
  | [] => rfl
  | (k, v) :: entries =>
    rw [dumpsEntries, List.append_assoc, List.cons_append, List.cons_append, read_key rfl, List.append_assoc,
      read_dumps v hentries.1 (.entries [] k :: stack) _ (delimits_entries entries rest)]
    exact read_dumpsMore entries [(k, v)] hkeys hentries.2 stack rest

theorem read_dumpsMore (entries before : List (List Char × JsonValue))
    (hkeys : ((before ++ entries).map Prod.fst).Nodup) (hentries : ProperEntries entries)
    (stack : List Frame) (rest : List Char) :
    read { stack, mode := .nextEntry before } (dumpsMore a entries ++ rest) =
      read (finish stack (.obj (before ++ entries))) rest := by
  match entries with
  | [] =>
    rw [List.append_nil]
    rfl
  | (k, v) :: entries =>
    have hfresh : k ∉ before.map Prod.fst := by
      rw [List.map_append, List.nodup_append] at hkeys
      exact fun hk => hkeys.2.2 k hk k List.mem_cons_self rfl
    rw [dumpsMore, List.cons_append, List.cons_append,
      read_of_step (t := { stack, mode := .key false before }) rfl,
      read_of_step (t := { stack, mode := .key false before }) rfl, List.append_assoc, List.cons_append,
      List.cons_append, read_key rfl, List.append_assoc,
      read_dumps v hentries.1 (.entries before k :: stack) _ (delimits_entries entries rest), finish,
      Dict.assign_of_not_mem v hfresh,
      read_dumpsMore entries (before ++ [(k, v)]) (by simpa using hkeys) hentries.2 stack rest,
      List.append_assoc, List.singleton_append]

end

theorem loads_dumps (a : Bool) {v : JsonValue} (hv : Proper v) : loads (dumps a v) = some v := by
  have hread := read_dumps (a := a) v hv [] [] delimits_nil
  rw [List.append_nil] at hread
  exact hread

end Json

end PyClaw
