import PyClaw.Lib.Text
import PyClaw.Lib.Yaml

/-!
# Lib.YamlLines

A loader that reads documents of lines and nothing else, `YamlLoader.lines`: a text is cut at its line
breaks, a line at its first colon.
-/

namespace PyClaw

namespace Yaml

def splitLines : List Char → List (List Char)
  | [] => [[]]
  | c :: rest =>
    if c = '\n' then [] :: splitLines rest
    else
      match splitLines rest with
      | [] => [[c]]
      | l :: ls => (c :: l) :: ls

def resolveWord (text : List Char) : YamlValue :=
  if text = "null".toList then .null
  else if ["true", "yes", "on"].any (fun w => w.toList = text) then .bool true
  else if ["false", "no", "off"].any (fun w => w.toList = text) then .bool false
  else if text.all Char.isDigit then .int (text.foldl (fun n c => n * 10 + (c.toNat - '0'.toNat : Nat)) 0)
  else .str text

def parseLine (text : List Char) : Option (List Char × YamlValue) :=
  let key := text.takeWhile (· ≠ ':')
  match text.dropWhile (· ≠ ':') with
  | ':' :: ' ' :: '"' :: quoted =>
    match scanQuoted .text quoted with
    | .closed value rest => if trailing rest then some (key, .str value) else none
    | .unclosed | .malformed => none
  | ':' :: ' ' :: plain => some (key, resolveWord plain)
  | _ => none

def loadLines (text : List Char) : Except String YamlValue :=
  if text.all printable then
    match (splitLines text).mapM parseLine with
    | some es => .ok (.map es)
    | none => .error "no line of a mapping"
  else .error "special characters are not allowed"

theorem splitLines_append {a : List Char} (b : List Char) (h : '\n' ∉ a) :
    splitLines (a ++ '\n' :: b) = a :: splitLines b := by
  induction a with
  | nil => simp [splitLines]
  | cons c a ih =>
    simp only [List.mem_cons, not_or] at h
    simp only [List.cons_append, splitLines, if_neg (Ne.symm h.1), ih h.2]

theorem splitLines_line {a : List Char} (h : '\n' ∉ a) : splitLines a = [a] := by
  induction a with
  | nil => rfl
  | cons c a ih =>
    simp only [List.mem_cons, not_or] at h
    simp only [splitLines, if_neg (Ne.symm h.1), ih h.2]

theorem lineChar_of_range {c : Char} (h : 0x20 ≤ c.toNat ∧ c.toNat ≤ 0x7e) : lineChar c = true := by
  have hbreak : lineBreak c = false := by
    simp only [lineBreak, Bool.or_eq_false_iff, decide_eq_false_iff_not]
    refine ⟨⟨⟨⟨?_, ?_⟩, ?_⟩, ?_⟩, ?_⟩
    · rintro rfl
      exact absurd h.1 (by decide)
    · rintro rfl
      exact absurd h.1 (by decide)
    all_goals omega
  have hprintable : printable c = true := by
    simp [printable, h.1, h.2]
  simp [lineChar, hprintable, hbreak]

theorem lineChar_of_word {c : Char} (h : c.isLower = true ∨ c.isDigit = true ∨ c = '-' ∨ c = '_') :
    lineChar c = true := by
  apply lineChar_of_range
  rcases h with h | h | rfl | rfl
  · rw [isLower_iff_toNat] at h
    omega
  · simp only [Char.isDigit, Bool.and_eq_true, decide_eq_true_eq, UInt32.le_iff_toNat_le] at h
    have hnat : c.toNat = c.val.toNat := rfl
    have h48 : ('0' : Char).val.toNat = 48 := rfl
    have h57 : ('9' : Char).val.toNat = 57 := rfl
    omega
  all_goals decide

section
variable {l : Line} {lines : List Line}

theorem key_chars (h : keyWord l.key = true) : ∀ c ∈ l.key, c.isLower = true ∨ c = '_' := by
  simp only [keyWord, Bool.and_eq_true, List.all_eq_true, Bool.or_eq_true, decide_eq_true_eq] at h
  exact h.1.2

theorem plainWord_chars {text : List Char} (h : plainWord text = true) :
    ∀ c ∈ text, c.isLower = true ∨ c.isDigit = true ∨ c = '-' := by
  cases text with
  | nil => cases h
  | cons c rest =>
    simp only [plainWord, Bool.and_eq_true, List.all_eq_true, Bool.or_eq_true, decide_eq_true_eq] at h
    intro x hx
    rcases List.mem_cons.mp hx with rfl | hx
    · exact h.1.imp_right .inl
    · exact or_assoc.mp (h.2 x hx)

theorem lineChar_text (hkey : keyWord l.key = true)
    (hscalar : ∀ c ∈ l.scalar.text, lineChar c = true) : ∀ c ∈ l.text, lineChar c = true := by
  intro c hc
  simp only [Line.text, List.mem_append, List.mem_cons] at hc
  rcases hc with hc | rfl | rfl | hc
  · rcases key_chars hkey c hc with h | rfl
    · exact lineChar_of_word (.inl h)
    · decide
  · decide
  · decide
  · exact hscalar c hc

theorem Line.Simple.lineChar (h : l.Simple) : ∀ c ∈ l.text, lineChar c = true := by
  refine lineChar_text h.1 fun c hc => ?_
  have hscalar := h.2
  cases hs : l.scalar with
  | plain text =>
    rw [hs] at hscalar hc
    have hword := plainWord_chars hscalar c hc
    exact lineChar_of_word (hword.imp_right (Or.imp_right .inl))
  | quoted text =>
    rw [hs] at hscalar hc
    rcases List.mem_cons.mp hc with rfl | hc
    · decide
    · exact hscalar.1 c hc

theorem not_mem_of_lineChar {text : List Char} (h : ∀ c ∈ text, lineChar c = true) : '\n' ∉ text :=
  fun hmem => absurd (h _ hmem) (by decide)

theorem parseLine_text (h : keyWord l.key = true) : parseLine l.text =
    match ':' :: ' ' :: l.scalar.text with
    | ':' :: ' ' :: '"' :: quoted =>
      match scanQuoted .text quoted with
      | .closed value rest => if trailing rest then some (l.key, .str value) else none
      | .unclosed | .malformed => none
    | ':' :: ' ' :: plain => some (l.key, resolveWord plain)
    | _ => none := by
  have hkey : ∀ c ∈ l.key, (decide (c ≠ ':')) = true := by
    intro c hc
    rcases key_chars h c hc with hlower | rfl
    · refine decide_eq_true ?_
      rintro rfl
      cases hlower
    · decide
  have htake : l.text.takeWhile (· ≠ ':') = l.key := by
    rw [Line.text, List.takeWhile_append_of_pos hkey]
    simp
  have hdrop : l.text.dropWhile (· ≠ ':') = ':' :: ' ' :: l.scalar.text := by
    rw [Line.text, List.dropWhile_append_of_pos hkey]
    simp
  unfold parseLine
  rw [htake, hdrop]

theorem parseLine_quoted {text : List Char} (h : keyWord l.key = true) (hs : l.scalar = .quoted text) :
    parseLine l.text =
      match scanQuoted .text text with
      | .closed value rest => if trailing rest then some (l.key, .str value) else none
      | .unclosed | .malformed => none := by
  rw [parseLine_text h, hs]
  rfl

theorem parseLine_plain {text : List Char} (h : keyWord l.key = true) (hs : l.scalar = .plain text)
    (hword : plainWord text = true) : parseLine l.text = some (l.key, resolveWord text) := by
  rw [parseLine_text h, hs]
  cases text with
  | nil => cases hword
  | cons c rest =>
    have hquote : c ≠ '"' := by
      rintro rfl
      simp [plainWord] at hword
    simp [Scalar.text, hquote]

/-- What is parsed from a line is its value. -/
theorem parseLine_eq_some {e : List Char × YamlValue} (h : l.Simple) : parseLine l.text = some e ↔
    l.Ends ∧ (l.value (some ∘ resolveWord)).map (fun v => (l.key, v)) = some e := by
  have hscalar := h.2
  unfold Line.value Line.Ends
  cases hs : l.scalar with
  | plain text =>
    rw [hs] at hscalar
    rw [parseLine_plain h.1 hs hscalar]
    exact (and_iff_right fun _ he => by cases he).symm
  | quoted text =>
    rw [parseLine_quoted h.1 hs]
    cases hscan : scanQuoted .text text with
    | closed value rest => simp [hscan]
    | unclosed => simp [hscan]
    | malformed => simp [hscan]

theorem parseLines_eq_some {es : List (List Char × YamlValue)} (h : ∀ l ∈ lines, l.Simple) :
    (lines.map Line.text).mapM parseLine = some es ↔
      (∀ l ∈ lines, l.Ends) ∧ entries (some ∘ resolveWord) lines = some es := by
  induction lines generalizing es with
  | nil => exact (and_iff_right fun _ hl => absurd hl List.not_mem_nil).symm
  | cons l rest ih =>
    obtain ⟨hl, hrest⟩ := List.forall_mem_cons.mp h
    rw [List.map_cons, mapM_eq_some_cons, entries, mapM_eq_some_cons, List.forall_mem_cons]
    simp only [parseLine_eq_some hl, ih hrest]
    constructor
    · rintro ⟨e, es', rfl, ⟨hends, hvalue⟩, hendsRest, hentries⟩
      exact ⟨⟨hends, hendsRest⟩, e, es', rfl, hvalue, hentries⟩
    · rintro ⟨⟨hends, hendsRest⟩, e, es', rfl, hvalue, hentries⟩
      exact ⟨e, es', rfl, ⟨hends, hvalue⟩, hendsRest, hentries⟩

theorem splitLines_joinLines (hlines : lines ≠ []) (h : ∀ l ∈ lines, '\n' ∉ l.text) :
    splitLines (joinLines lines) = lines.map Line.text := by
  induction lines with
  | nil => exact absurd rfl hlines
  | cons l rest ih =>
    have hl := h l List.mem_cons_self
    cases rest with
    | nil => exact splitLines_line hl
    | cons l' rest =>
      rw [joinLines, splitLines_append _ hl,
        ih (by simp) fun k hk => h k (List.mem_cons_of_mem _ hk)]
      · rfl
      · simp

theorem splitLines_joinLines_append (more : List Char) (hlines : lines ≠ [])
    (h : ∀ l ∈ lines, '\n' ∉ l.text) :
    splitLines (joinLines lines ++ '\n' :: more) = lines.map Line.text ++ splitLines more := by
  induction lines with
  | nil => exact absurd rfl hlines
  | cons l rest ih =>
    have hl := h l List.mem_cons_self
    cases rest with
    | nil => exact splitLines_append more hl
    | cons l' rest =>
      rw [joinLines, List.append_assoc, List.cons_append, splitLines_append _ hl,
        ih (by simp) fun k hk => h k (List.mem_cons_of_mem _ hk)]
      · rfl
      · simp

theorem loadLines_eq_ok {text : List Char} {v : YamlValue} : loadLines text = .ok v ↔
    (∀ c ∈ text, printable c = true) ∧
      ∃ es, (splitLines text).mapM parseLine = some es ∧ v = .map es := by
  unfold loadLines
  split_ifs with hprintable
  · rw [List.all_eq_true] at hprintable
    cases hes : (splitLines text).mapM parseLine with
    | none => simp
    | some es =>
      simp only [Except.ok.injEq, Option.some.injEq, exists_eq_left']
      exact ⟨fun h => ⟨hprintable, h.symm⟩, fun h => h.2.symm⟩
  · rw [List.all_eq_true] at hprintable
    exact iff_of_false (by simp) fun h => hprintable h.1

theorem printable_of_lineChar {c : Char} (h : lineChar c = true) : printable c = true :=
  (Bool.and_eq_true_iff.mp h).1

theorem printable_joinLines (h : ∀ l ∈ lines, ∀ c ∈ l.text, lineChar c = true) :
    ∀ c ∈ joinLines lines, printable c = true := by
  induction lines with
  | nil => exact fun _ hc => absurd hc List.not_mem_nil
  | cons l rest ih =>
    have hl := h l List.mem_cons_self
    cases rest with
    | nil => exact fun c hc => printable_of_lineChar (hl c hc)
    | cons l' rest =>
      intro c hc
      rw [joinLines] at hc
      rcases List.mem_append.mp hc with hc | hc
      · exact printable_of_lineChar (hl c hc)
      · rcases List.mem_cons.mp hc with rfl | hc
        · rfl
        · exact ih (fun k hk => h k (List.mem_cons_of_mem _ hk)) c hc
      · simp

theorem resolveWord_str {text s : List Char} (h : resolveWord text = .str s) : s = text := by
  unfold resolveWord at h
  split_ifs at h
  cases h
  rfl

theorem resolveWord_key {key : List Char} (h : keyWord key = true) : resolveWord key = .str key := by
  have hchars := key_chars (l := { key, scalar := .plain [] }) h
  simp only [keyWord, Bool.and_eq_true, decide_eq_true_eq, Bool.not_eq_true'] at h
  obtain ⟨⟨hne, -⟩, hreserved⟩ := h
  have hword : ∀ w ∈ ["null", "true", "false", "yes", "no", "on", "off", "y", "n"], w.toList ≠ key := by
    rintro w hw rfl
    have hmem : w.toList ∈ reserved := List.mem_map_of_mem hw
    rw [List.contains_iff_mem.mpr hmem] at hreserved
    cases hreserved
  have hdigits : key.all Char.isDigit = false := by
    cases key with
    | nil => exact absurd rfl hne
    | cons c rest =>
      rw [List.all_cons, Bool.and_eq_false_iff]
      left
      rcases hchars c List.mem_cons_self with hlower | rfl
      · rw [isLower_iff_toNat] at hlower
        rw [Bool.eq_false_iff, ne_eq, Char.isDigit_iff_toNat]
        have h57 : '9'.toNat = 57 := rfl
        omega
      · rfl
  unfold resolveWord
  rw [if_neg, if_neg, if_neg, if_neg]
  · rw [hdigits]
    exact Bool.false_ne_true
  · simp only [List.any_cons, List.any_nil, Bool.or_false, Bool.or_eq_true, decide_eq_true_eq, not_or]
    exact ⟨hword _ (by simp), hword _ (by simp), hword _ (by simp)⟩
  · simp only [List.any_cons, List.any_nil, Bool.or_false, Bool.or_eq_true, decide_eq_true_eq, not_or]
    exact ⟨hword _ (by simp), hword _ (by simp), hword _ (by simp)⟩
  · exact fun he => hword "null" (by simp) he.symm

/-- A scalar that stays open is the end of every reading by lines. -/
theorem loadLines_unclosed {key text after : List Char} (h : ∀ l ∈ lines, l.Simple)
    (hkey : keyWord key = true) (htext : ∀ c ∈ text, lineChar c = true)
    (hscan : scanQuoted .text text = .unclosed) (hafter : LeavesOpen after) : ∃ e,
      loadLines (joinLines (lines ++ [{ key, scalar := .quoted text }]) ++ after) = .error e := by
  have hbad : parseLine ({ key, scalar := .quoted text } : Line).text = none := by
    rw [parseLine_quoted hkey rfl, hscan]
  have hlines : ∀ l ∈ lines ++ [{ key, scalar := .quoted text }], '\n' ∉ l.text := by
    intro l hl
    rcases List.mem_append.mp hl with hl | hl
    · exact not_mem_of_lineChar (h l hl).lineChar
    · rw [List.mem_singleton.mp hl]
      refine not_mem_of_lineChar (lineChar_text hkey fun c hc => ?_)
      rcases List.mem_cons.mp hc with rfl | hc
      · decide
      · exact htext c hc
  have hmem : ({ key, scalar := .quoted text } : Line).text ∈
      splitLines (joinLines (lines ++ [{ key, scalar := .quoted text }]) ++ after) := by
    cases after with
    | nil =>
      rw [List.append_nil, splitLines_joinLines (by simp) hlines]
      exact List.mem_map_of_mem (by simp)
    | cons c rest =>
      have hc : c = '\n' := by simpa using hafter.1
      rw [hc, splitLines_joinLines_append rest (by simp) hlines]
      exact List.mem_append_left _ (List.mem_map_of_mem (by simp))
  cases hload : loadLines (joinLines (lines ++ [{ key, scalar := .quoted text }]) ++ after) with
  | error e => exact ⟨e, rfl⟩
  | ok v =>
    obtain ⟨-, es, hes, -⟩ := loadLines_eq_ok.mp hload
    obtain ⟨e, he⟩ := mapM_isSome hes hmem
    rw [hbad] at he
    cases he

end

end Yaml

/-- Loads documents of lines, and nothing else. -/
def YamlLoader.lines : YamlLoader where
  resolve := some ∘ Yaml.resolveWord
  safeLoad := Yaml.loadLines
  resolve_str _ _ h := Yaml.resolveWord_str (Option.some.inj h)
  resolve_word _ h := congrArg some (Yaml.resolveWord_key h)
  resolve_true := rfl
  load_lines lines v hlines _ hsimple := by
    have hline : ∀ l ∈ lines, ∀ c ∈ l.text, Yaml.lineChar c = true := fun l hl => (hsimple l hl).lineChar
    rw [Yaml.loadLines_eq_ok, Yaml.splitLines_joinLines hlines fun l hl =>
      Yaml.not_mem_of_lineChar (hline l hl)]
    simp only [Yaml.parseLines_eq_some hsimple]
    constructor
    · rintro ⟨-, es, ⟨hends, hentries⟩, rfl⟩
      exact ⟨hends, es, hentries, rfl⟩
    · rintro ⟨hends, es, hentries, rfl⟩
      exact ⟨Yaml.printable_joinLines hline, es, ⟨hends, hentries⟩, rfl⟩
  load_unclosed _ _ _ _ hsimple hkey htext hscan hafter :=
    Yaml.loadLines_unclosed hsimple hkey htext hscan hafter
  load_printable text v hload := (Yaml.loadLines_eq_ok.mp hload).1

end PyClaw
