import PyClaw.Curator.SkillFile
import PyClaw.Lib.YamlLines

/-!
# Curator.SkillFrontmatter

The front matter of a `SKILL.md` as lines, and where the reader cuts it off: at the first `---` behind
the one that the file begins with, in whichever of the texts it is. The template escapes the quotes of
the description and nothing else.
-/

namespace PyClaw

open Yaml

/-- `description.replace('"', '\\"')`. -/
def safeDesc (description : List Char) : List Char := replaceEach '"' "\\\"".toList description

/-! ## The description as a scalar -/

theorem safeDesc_cons (c : Char) (d : List Char) :
    safeDesc (c :: d) = (if c = '"' then ['\\', '"'] else [c]) ++ safeDesc d := rfl

theorem mem_safeDesc {c : Char} {d : List Char} (h : c ∈ d) : c ∈ safeDesc d := by
  induction d with
  | nil => cases h
  | cons x d ih =>
    rw [safeDesc_cons]
    rcases List.mem_cons.mp h with rfl | h
    · by_cases hc : c = '"'
      · simp [hc]
      · simp [hc]
    · exact List.mem_append_right _ (ih h)

theorem of_mem_safeDesc {c : Char} {d : List Char} (h : c ∈ safeDesc d) : c = '\\' ∨ c ∈ d := by
  induction d with
  | nil => cases h
  | cons x d ih =>
    rw [safeDesc_cons] at h
    rcases List.mem_append.mp h with h | h
    · by_cases hx : x = '"'
      · subst hx
        rw [if_pos rfl] at h
        exact (List.mem_cons.mp h).imp_right fun h => List.mem_cons.mpr (.inl (List.mem_singleton.mp h))
      · rw [if_neg hx] at h
        exact .inr (List.mem_cons.mpr (.inl (List.mem_singleton.mp h)))
    · exact (ih h).imp_right (List.mem_cons_of_mem _)

/-- Without a backslash every character is read back. -/
theorem scan_safeDesc {d : List Char} (h : '\\' ∉ d) (tail : List Char) :
    scanQuoted .text (safeDesc d ++ '"' :: tail) = .closed d tail := by
  induction d with
  | nil => rfl
  | cons c d ih =>
    simp only [List.mem_cons, not_or] at h
    rw [safeDesc_cons]
    by_cases hc : c = '"'
    · subst hc
      simp [scanQuoted, hexWidth, simpleEscape, ih h.2, QuotedScan.push]
    · simp [hc, scanQuoted, Ne.symm h.1, ih h.2, QuotedScan.push]

/-- What is read is never longer than the description, and shorter if there is a backslash in it. -/
theorem scan_safeDesc_length {d v rest : List Char} {state : EscapeState}
    (h : scanQuoted state (safeDesc d ++ ['"']) = .closed v rest) :
    v.length ≤ d.length ∧ (state = .text → '\\' ∈ d → v.length < d.length) := by
  induction d generalizing state v with
  | nil =>
    cases state with
    | text =>
      cases h
      exact ⟨Nat.le_refl _, fun _ hmem => absurd hmem List.not_mem_nil⟩
    | backslash => cases h
    | hex left code => cases h
  | cons c d ih =>
    rw [safeDesc_cons] at h
    by_cases hc : c = '"'
    · subst hc
      rw [if_pos rfl] at h
      cases state with
      | text =>
        obtain ⟨tail, rfl, hscan⟩ := push_eq_closed.mp h
        obtain ⟨hle, hlt⟩ := ih hscan
        refine ⟨Nat.succ_le_succ hle, fun _ hmem => Nat.succ_lt_succ (hlt rfl ?_)⟩
        exact (List.mem_cons.mp hmem).resolve_left (by decide)
      | backslash =>
        -- the backslash before the quote is the one that is read, and the quote ends the scalar
        cases h
        exact ⟨Nat.succ_le_succ (Nat.zero_le _), fun he => by cases he⟩
      | hex left code => cases h
    · rw [if_neg hc, List.singleton_append, List.cons_append] at h
      cases state with
      | text =>
        simp only [scanQuoted, if_neg hc] at h
        split_ifs at h with hbackslash
        · have hle := (ih h).1
          exact ⟨Nat.le_succ_of_le hle, fun _ _ => Nat.lt_succ_of_le hle⟩
        · obtain ⟨tail, rfl, hscan⟩ := push_eq_closed.mp h
          obtain ⟨hle, hlt⟩ := ih hscan
          refine ⟨Nat.succ_le_succ hle, fun _ hmem => Nat.succ_lt_succ (hlt rfl ?_)⟩
          exact (List.mem_cons.mp hmem).resolve_left fun he => hbackslash he.symm
      | backslash =>
        refine ⟨?_, fun he => by cases he⟩
        simp only [scanQuoted] at h
        split at h
        · exact Nat.le_succ_of_le (ih h).1
        · split at h
          · obtain ⟨tail, rfl, hscan⟩ := push_eq_closed.mp h
            exact Nat.succ_le_succ (ih hscan).1
          · cases h
      | hex left code =>
        refine ⟨?_, fun he => by cases he⟩
        simp only [scanQuoted] at h
        split at h
        · cases h
        · split at h
          · exact Nat.le_succ_of_le (ih h).1
          · split at h
            · obtain ⟨tail, rfl, hscan⟩ := push_eq_closed.mp h
              exact Nat.succ_le_succ (ih hscan).1
            · cases h

/-- The description comes back exactly when there is no backslash in it. -/
theorem scan_safeDesc_eq {d rest : List Char} (h : scanQuoted .text (safeDesc d ++ ['"']) = .closed d rest) :
    '\\' ∉ d ∧ rest = [] := by
  have hbackslash : '\\' ∉ d := fun hmem => absurd ((scan_safeDesc_length h).2 rfl hmem) (Nat.lt_irrefl _)
  refine ⟨hbackslash, ?_⟩
  rw [scan_safeDesc hbackslash []] at h
  cases h
  rfl

/-! ## The delimiter -/

theorem dashes_safeDesc (n : Nat) (d : List Char) :
    List.replicate n '-' <+: safeDesc d ↔ List.replicate n '-' <+: d := by
  induction n generalizing d with
  | zero => simp
  | succ n ih =>
    cases d with
    | nil => exact Iff.rfl
    | cons c d =>
      rw [safeDesc_cons, List.replicate_succ]
      by_cases hc : c = '"'
      · simp [hc, List.cons_prefix_cons]
      · rw [if_neg hc, List.singleton_append, List.cons_prefix_cons, List.cons_prefix_cons, ih]

theorem delimiter_ne_nil : "---".toList ≠ [] := by decide

theorem delimiter_safeDesc {d : List Char} : "---".toList <:+: safeDesc d ↔ "---".toList <:+: d := by
  induction d with
  | nil => exact Iff.rfl
  | cons c d ih =>
    by_cases hc : c = '"'
    · subst hc
      rw [safeDesc_cons, if_pos rfl, infix_cons_iff_of_not_mem delimiter_ne_nil (by decide), ← ih]
      exact (infix_cons_iff_of_not_mem delimiter_ne_nil (by decide)).trans
        (infix_cons_iff_of_not_mem delimiter_ne_nil (by decide))
    · have hstarts := dashes_safeDesc 3 (c :: d)
      rw [safeDesc_cons, if_neg hc] at hstarts ⊢
      rw [List.singleton_append] at hstarts ⊢
      rw [List.infix_cons_iff, List.infix_cons_iff, ih]
      exact or_congr_left hstarts

/-! ## The lines of the front matter -/

def nameLine (name : List Char) : Line := { key := "name".toList, scalar := .plain name }

def descriptionLine (text : List Char) : Line := { key := "description".toList, scalar := .quoted text }

def stampLines (generatedAt : UtcStamp) : List Line :=
  [{ key := "auto_generated".toList, scalar := .plain "true".toList },
    { key := "lifecycle".toList, scalar := .plain "active".toList },
    { key := "generated_at".toList, scalar := .quoted (generatedAt.text ++ ['"']) }]

def sessionLine (text : List Char) : Line := { key := "source_session".toList, scalar := .quoted text }

def frontLines (name description : List Char) (generatedAt : UtcStamp) (session : List Char) : List Line :=
  nameLine name :: descriptionLine description :: (stampLines generatedAt ++ [sessionLine session])

/-- The front matter up to the quote before the session key. -/
def leadText (name description : List Char) (generatedAt : UtcStamp) : List Char :=
  "\nname: ".toList ++ name ++ "\ndescription: \"".toList ++ safeDesc description ++
    "\"\nauto_generated: true\nlifecycle: active\ngenerated_at: \"".toList ++ generatedAt.text ++
    "\"\nsource_session: ".toList

theorem frontmatterText_eq (name description sessionKey : List Char) (generatedAt : UtcStamp) :
    frontmatterText name description sessionKey generatedAt =
      leadText name description generatedAt ++ '"' :: (sessionKey ++ ['"', '\n']) := by
  have hsession : "\"\nsource_session: \"".toList = "\"\nsource_session: ".toList ++ ['"'] := rfl
  have hend : "\"\n".toList = ['"', '\n'] := rfl
  unfold frontmatterText leadText safeDesc
  simp only [hsession, hend, List.append_assoc, List.cons_append, List.nil_append]

theorem leadText_eq (name description session : List Char) (generatedAt : UtcStamp) :
    leadText name description generatedAt ++ '"' :: session =
      '\n' :: joinLines (frontLines name (safeDesc description ++ ['"']) generatedAt session) := by
  have hname : "\nname: ".toList = '\n' :: ("name".toList ++ [':', ' ']) := rfl
  have hdescription : "\ndescription: \"".toList = '\n' :: ("description".toList ++ [':', ' ', '"']) := rfl
  have hgenerated : "\"\nauto_generated: true\nlifecycle: active\ngenerated_at: \"".toList =
      '"' :: '\n' :: ("auto_generated".toList ++ ':' :: ' ' :: ("true".toList ++ '\n' ::
        ("lifecycle".toList ++ ':' :: ' ' :: ("active".toList ++ '\n' ::
          ("generated_at".toList ++ [':', ' ', '"']))))) := by decide +kernel
  have hsession : "\"\nsource_session: ".toList =
      '"' :: '\n' :: ("source_session".toList ++ [':', ' ']) := rfl
  unfold leadText frontLines nameLine descriptionLine stampLines sessionLine
  simp only [hname, hdescription, hgenerated, hsession, joinLines, Line.text, Scalar.text,
    List.append_assoc, List.cons_append, List.nil_append]

section
variable {name description t value session : List Char} {generatedAt : UtcStamp}

theorem UtcStamp.lineChar (generatedAt : UtcStamp) : ∀ c ∈ generatedAt.text, lineChar c = true := by
  intro c hc
  rcases generatedAt.chars c hc with h | h
  · exact lineChar_of_word (.inr (.inl h))
  · have hall : "-T:Z".toList.all Yaml.lineChar = true := by decide
    exact List.all_eq_true.mp hall c h

theorem UtcStamp.scan (generatedAt : UtcStamp) :
    scanQuoted .text (generatedAt.text ++ ['"']) = .closed generatedAt.text [] := by
  have hnot : ∀ c ∈ ['"', '\\'], c ∉ generatedAt.text := by
    have hall : ['"', '\\'].all (fun x => !(x.isDigit || "-T:Z".toList.contains x)) = true := by decide
    intro c hc hmem
    have hc := List.all_eq_true.mp hall c hc
    have hmem := generatedAt.chars c hmem
    simp_all
  have hsafe : safeDesc generatedAt.text = generatedAt.text :=
    replaceEach_of_not_mem (hnot '"' (by simp))
  have hscan := scan_safeDesc (hnot '\\' (by simp)) []
  rwa [hsafe] at hscan

theorem slugChar_iff {c : Char} : slugChar c = true ↔ c.isLower = true ∨ c.isDigit = true := by
  simp only [slugChar, Bool.or_eq_true, Bool.and_eq_true, decide_eq_true_eq, isLower_iff_toNat,
    Char.le_def, UInt32.le_iff_toNat_le]
  exact Iff.rfl

theorem plainWord_of_valid (h : validSkillName name = true) : plainWord name = true := by
  cases name with
  | nil => cases h
  | cons c rest =>
    simp only [validSkillName, Bool.and_eq_true, List.all_eq_true, Bool.or_eq_true, slugChar_iff,
      decide_eq_true_eq] at h
    simp only [plainWord, Bool.and_eq_true, List.all_eq_true, Bool.or_eq_true, decide_eq_true_eq]
    exact ⟨h.1.1.1, h.1.1.2⟩

theorem simple_nameLine (h : plainWord name = true) : (nameLine name).Simple :=
  ⟨(by decide : keyWord "name".toList = true), h⟩

theorem simple_stampLines : ∀ l ∈ stampLines generatedAt, l.Simple := by
  have hgenerated : ∀ c ∈ generatedAt.text ++ ['"'], lineChar c = true := by
    intro c hc
    rcases List.mem_append.mp hc with hc | hc
    · exact generatedAt.lineChar c hc
    · rw [List.mem_singleton.mp hc]
      decide
  have hclosed : scanQuoted .text (generatedAt.text ++ ['"']) ≠ .unclosed := by
    rw [generatedAt.scan]
    exact QuotedScan.noConfusion
  unfold stampLines
  simp only [List.forall_mem_cons, List.not_mem_nil, false_implies, implies_true, and_true]
  exact ⟨⟨(by decide : keyWord "auto_generated".toList = true), (by decide : plainWord "true".toList = true)⟩,
    ⟨(by decide : keyWord "lifecycle".toList = true), (by decide : plainWord "active".toList = true)⟩,
    (by decide : keyWord "generated_at".toList = true), hgenerated, hclosed⟩

theorem simple_descriptionLine (ht : ∀ c ∈ t, lineChar c = true) (hscan : scanQuoted .text t ≠ .unclosed) :
    (descriptionLine t).Simple :=
  ⟨(by decide : keyWord "description".toList = true), ht, hscan⟩

theorem simple_sessionLine (ht : ∀ c ∈ t, lineChar c = true) (hscan : scanQuoted .text t ≠ .unclosed) :
    (sessionLine t).Simple :=
  ⟨(by decide : keyWord "source_session".toList = true), ht, hscan⟩

theorem simple_frontLines (generatedAt : UtcStamp) (hname : plainWord name = true) (ht : (descriptionLine t).Simple)
    (hsession : (sessionLine session).Simple) : ∀ l ∈ frontLines name t generatedAt session, l.Simple := by
  unfold frontLines
  simp only [List.forall_mem_cons, List.forall_mem_append, List.not_mem_nil, false_implies, implies_true,
    and_true]
  exact ⟨simple_nameLine hname, ht, simple_stampLines, hsession⟩

/-- Only the description and the session key can fail to end. -/
theorem ends_frontLines : (∀ l ∈ frontLines name t generatedAt session, l.Ends) ↔
    (descriptionLine t).Ends ∧ (sessionLine session).Ends := by
  have hplain : ∀ (key text : List Char), ({ key, scalar := .plain text } : Line).Ends := by
    intro key text text' he
    cases he
  have hstamp : ∀ l ∈ stampLines generatedAt, l.Ends := by
    unfold stampLines
    simp only [List.forall_mem_cons, List.not_mem_nil, false_implies, implies_true, and_true]
    refine ⟨hplain _ _, hplain _ _, fun text he => ?_⟩
    cases he
    exact ⟨_, [], generatedAt.scan, rfl⟩
  unfold frontLines
  simp only [List.forall_mem_cons, List.forall_mem_append, List.not_mem_nil, false_implies, implies_true,
    and_true]
  exact ⟨fun h => ⟨h.2.1, h.2.2.2⟩, fun h => ⟨hplain _ _, h.1, hstamp, h.2⟩⟩

theorem nodup_keys : ((frontLines name t generatedAt session).map Line.key).Nodup :=
  (by decide : ["name".toList, "description".toList, "auto_generated".toList, "lifecycle".toList,
    "generated_at".toList, "source_session".toList].Nodup)

/-- The entries of the front matter, if the description reads as `value`. -/
theorem entries_eq {yaml : YamlLoader} {nameValue : YamlValue} {keyValue rest rest' : List Char}
    (hname : yaml.resolve name = some nameValue) (hdescription : scanQuoted .text t = .closed value rest)
    (hkey : scanQuoted .text session = .closed keyValue rest') :
    entries yaml.resolve (frontLines name t generatedAt session) =
      some [("name".toList, nameValue), ("description".toList, .str value),
        ("auto_generated".toList, .bool true), ("lifecycle".toList, .str "active".toList),
        ("generated_at".toList, .str generatedAt.text), ("source_session".toList, .str keyValue)] := by
  have hactive : yaml.resolve "active".toList = some (.str "active".toList) :=
    yaml.resolve_word _ (by decide)
  unfold entries frontLines nameLine descriptionLine stampLines sessionLine
  simp only [List.cons_append, List.nil_append, List.mapM_cons, List.mapM_nil, Line.value, hname,
    hdescription, hkey, hactive, yaml.resolve_true, generatedAt.scan, Option.map_some,
    Option.bind_eq_bind, Option.bind_some, Option.pure_def]

end

/-! ## Cutting the file -/

/-- What the reader takes for white space: the line break, and no letter, digit, quote, `#` or `-`. -/
structure PyText.PlainSpaces (py : PyText) : Prop where
  newline : py.isSpace '\n' = true
  visible : ∀ c, c.isAlphanum = true ∨ c ∈ "\"#-".toList → py.isSpace c = false

theorem universalNewlines_eq_self {text : List Char} (h : '\r' ∉ text) : universalNewlines text = text := by
  induction text with
  | nil => rfl
  | cons c rest ih =>
    simp only [List.mem_cons, not_or] at h
    rw [universalNewlines, ih h.2]
    · exact fun _ hc => absurd hc.symm h.1
    · exact fun hc => absurd hc.symm h.1

theorem not_mem_universalNewlines (text : List Char) : '\r' ∉ universalNewlines text := by
  fun_induction universalNewlines text with
  | case1 rest ih => simp [ih]
  | case2 rest _ ih => simp [ih]
  | case3 c rest _ hc ih =>
    rw [List.mem_cons, not_or]
    exact ⟨fun he => hc he.symm, ih⟩
  | case4 => simp

theorem delimiter_cons {c : Char} {l : List Char} (hc : c ≠ '-') :
    "---".toList <:+: c :: l ↔ "---".toList <:+: l :=
  infix_cons_iff_of_not_mem delimiter_ne_nil (by simp [hc])

theorem delimiter_append_cons {a l : List Char} {c : Char} (hc : c ≠ '-') :
    "---".toList <:+: a ++ c :: l ↔ "---".toList <:+: a ∨ "---".toList <:+: l :=
  infix_append_cons_iff delimiter_ne_nil (by simp [hc])

section
variable {py : PyText} {name description procedure sessionKey : List Char} {generatedAt : UtcStamp}

theorem delimiter_leadText : "---".toList <:+: leadText name description generatedAt ↔
    "---".toList <:+: name ∨ "---".toList <:+: description := by
  have hwords : ∀ w ∈ ["name", "description", "auto_generated", "true", "lifecycle", "active",
      "generated_at", "source_session"], ¬ "---".toList <:+: w.toList := by decide
  have hnil : ¬ "---".toList <:+: [] := by decide
  have hstamp := generatedAt.noDelimiter
  have hquote : "---".toList <:+: leadText name description generatedAt ↔
      "---".toList <:+: leadText name description generatedAt ++ '"' :: [] := by
    rw [delimiter_append_cons (by decide)]
    simp only [hnil, or_false]
  rw [hquote, leadText_eq]
  unfold frontLines nameLine descriptionLine stampLines sessionLine
  simp only [joinLines, Line.text, Scalar.text, List.append_assoc, List.cons_append, List.nil_append]
  simp (disch := decide) only [delimiter_cons, delimiter_append_cons, delimiter_safeDesc]
  simp (disch := simp) only [hwords, hnil, hstamp, false_or, or_false]

/-- A text without white space at its ends. -/
def Stripped (py : PyText) (text : List Char) : Prop :=
  (∀ c ∈ text.head?, py.isSpace c = false) ∧ ∀ c ∈ text.getLast?, py.isSpace c = false

/-- The procedure is in the body, whatever of the file is before it. -/
theorem procedure_infix_strip (h : Stripped py procedure) (before : List Char) :
    procedure <:+: strip py.isSpace (before ++ bodyText name description procedure) := by
  unfold bodyText
  rw [← List.append_assoc, ← List.append_assoc]
  exact infix_strip _ _ h.1 h.2

/-- The front matter begins with the name. -/
theorem head_joinLines (name : List Char) (lines : List Line) : (joinLines (nameLine name :: lines)).head? = some 'n' := by
  cases lines <;> rfl

theorem notSpace_head (hpy : py.PlainSpaces) (lines : List Line) :
    ∀ c ∈ (joinLines (nameLine name :: lines)).head?, py.isSpace c = false := by
  intro c hc
  rw [head_joinLines] at hc
  cases hc
  exact hpy.visible 'n' (.inl (by decide))

/-- Only the end of what follows an opening quote is stripped. -/
theorem strip_open (hpy : py.PlainSpaces) {lines : List Line} (text : List Char)
    (hquote : (joinLines (nameLine name :: lines)).getLast? = some '"') :
    strip py.isSpace ('\n' :: (joinLines (nameLine name :: lines) ++ text)) =
      joinLines (nameLine name :: lines) ++ text.rdropWhile py.isSpace := by
  have hlast : ∀ c ∈ (joinLines (nameLine name :: lines)).getLast?, py.isSpace c = false := by
    intro c hc
    rw [hquote] at hc
    cases hc
    exact hpy.visible '"' (.inr (by decide))
  have hne : joinLines (nameLine name :: lines) ≠ [] := by
    intro h
    rw [h] at hquote
    cases hquote
  have haround := strip_around ['\n'] text hne (notSpace_head hpy lines) hlast
  have hblank : ['\n'].dropWhile py.isSpace = [] := by simp [hpy.newline]
  rwa [hblank] at haround

/-- Front matter and body are what the first delimiter separates. -/
theorem extract_of_split {front body : List Char}
    (h : splitFirst "---".toList (frontmatterText name description sessionKey generatedAt ++
      "---".toList ++ bodyText name description procedure) = some (front, body)) :
    extractFrontmatter py (generateSkillMdTemplate name description procedure sessionKey generatedAt) =
      .ok (strip py.isSpace front, strip py.isSpace body) := by
  have hdrop : (generateSkillMdTemplate name description procedure sessionKey generatedAt).drop 3 =
      frontmatterText name description sessionKey generatedAt ++ "---".toList ++
        bodyText name description procedure := by
    unfold generateSkillMdTemplate
    rw [List.append_assoc, List.append_assoc, List.append_assoc]
    exact List.drop_left' rfl
  have hstarts : "---".toList <+: generateSkillMdTemplate name description procedure sessionKey generatedAt := by
    unfold generateSkillMdTemplate
    rw [List.append_assoc, List.append_assoc]
    exact List.prefix_append _ _
  unfold extractFrontmatter
  rw [if_pos hstarts, hdrop, h]

/-- The cut in a text that follows `lead` and `c`. -/
theorem extract_cut {lead text tail front more : List Char} {c : Char}
    (htext : frontmatterText name description sessionKey generatedAt = lead ++ c :: (text ++ tail))
    (hlead : ¬ "---".toList <:+: lead) (hc : c ∉ "---".toList)
    (hcut : splitFirst "---".toList text = some (front, more)) :
    extractFrontmatter py (generateSkillMdTemplate name description procedure sessionKey generatedAt) =
      .ok (strip py.isSpace (lead ++ c :: front),
        strip py.isSpace (more ++ tail ++ "---".toList ++ bodyText name description procedure)) := by
  refine extract_of_split ?_
  rw [htext, List.append_assoc, List.append_assoc, List.cons_append, List.append_assoc,
    splitFirst_append_cons _ hlead hc, splitFirst_append_of_some _ hcut delimiter_ne_nil, Option.map_some]
  simp only [List.append_assoc]

/-- A delimiter in the name leaves one line of the front matter. -/
theorem extract_cut_name (hpy : py.PlainSpaces) {word more : List Char}
    (hcut : splitFirst "---".toList name = some (word, more))
    (hlast : ∀ c ∈ word.getLast?, py.isSpace c = false) (hne : word ≠ []) :
    ∃ before, extractFrontmatter py
        (generateSkillMdTemplate name description procedure sessionKey generatedAt) =
          .ok (joinLines [nameLine word],
            strip py.isSpace (before ++ bodyText name description procedure)) := by
  have hnot : ¬ "---".toList <:+: "\nname:".toList := by decide
  have hhead : "\nname: ".toList = "\nname:".toList ++ [' '] := rfl
  obtain ⟨tail, htail⟩ : ∃ tail, frontmatterText name description sessionKey generatedAt =
      "\nname:".toList ++ ' ' :: (name ++ tail) := by
    unfold frontmatterText
    simp only [hhead, List.append_assoc, List.cons_append, List.nil_append]
    exact ⟨_, rfl⟩
  have hfront : strip py.isSpace ("\nname:".toList ++ ' ' :: word) = joinLines [nameLine word] := by
    have hend : ∀ c ∈ (joinLines [nameLine word]).getLast?, py.isSpace c = false := by
      have htext : joinLines [nameLine word] = "name: ".toList ++ word := rfl
      rw [htext, List.getLast?_append_of_ne_nil _ hne]
      exact hlast
    have hsurrounded := strip_surrounded (a := ['\n']) (b := []) (by simpa using hpy.newline)
      (by simp) (notSpace_head hpy []) hend
    rwa [List.append_nil] at hsurrounded
  refine ⟨more ++ tail ++ "---".toList, ?_⟩
  rw [extract_cut htail hnot (by decide) hcut, hfront]

/-- A delimiter in the description leaves two, and the scalar of the second one open. -/
theorem extract_cut_description (hpy : py.PlainSpaces) {text more : List Char}
    (hname : ¬ "---".toList <:+: name)
    (hcut : splitFirst "---".toList (safeDesc description) = some (text, more)) :
    ∃ body, extractFrontmatter py
        (generateSkillMdTemplate name description procedure sessionKey generatedAt) =
          .ok (joinLines [nameLine name, descriptionLine (text.rdropWhile py.isSpace)], body) := by
  have hhead : "\nname: ".toList = "\nname:".toList ++ [' '] := rfl
  have hline : "\ndescription: ".toList = '\n' :: "description: ".toList := rfl
  have hquote : "\ndescription: \"".toList = "\ndescription: ".toList ++ ['"'] := rfl
  have hnot : ¬ "---".toList <:+: "\nname: ".toList ++ name ++ "\ndescription: ".toList := by
    have hwords : ∀ w ∈ ["\nname:", "description: "], ¬ "---".toList <:+: w.toList := by decide
    rw [hhead, hline]
    simp only [List.append_assoc, List.cons_append, List.nil_append]
    simp (disch := decide) only [delimiter_append_cons, hname]
    simp (disch := simp) only [hwords, or_self, not_false_eq_true]
  obtain ⟨tail, htail⟩ : ∃ tail, frontmatterText name description sessionKey generatedAt =
      ("\nname: ".toList ++ name ++ "\ndescription: ".toList) ++ '"' :: (safeDesc description ++ tail) := by
    unfold frontmatterText safeDesc
    simp only [hquote, List.append_assoc, List.cons_append, List.nil_append]
    exact ⟨_, rfl⟩
  have hfront : strip py.isSpace (("\nname: ".toList ++ name ++ "\ndescription: ".toList) ++ '"' :: text) =
      joinLines [nameLine name, descriptionLine (text.rdropWhile py.isSpace)] := by
    have hopen : ∀ t, joinLines [nameLine name, descriptionLine t] =
        ("name: ".toList ++ name ++ "\ndescription: ".toList) ++ ['"'] ++ t := by
      have hkey : "name: ".toList = "name".toList ++ [':', ' '] := rfl
      have hline' : "\ndescription: ".toList = '\n' :: ("description".toList ++ [':', ' ']) := rfl
      intro t
      unfold nameLine descriptionLine
      simp only [joinLines, Line.text, Scalar.text, hkey, hline', List.append_assoc, List.cons_append,
        List.nil_append]
    have hquoted := hopen []
    rw [List.append_nil] at hquoted
    have hstrip := strip_open hpy text (by rw [hquoted, List.getLast?_concat])
    have hnewline : "\nname: ".toList = '\n' :: "name: ".toList := rfl
    rw [hopen (text.rdropWhile py.isSpace), ← hquoted, ← hstrip, hquoted]
    simp only [hnewline, List.append_assoc, List.cons_append, List.nil_append]
  exact ⟨_, (extract_cut htail hnot (by decide) hcut).trans (by rw [hfront])⟩

/-- What is left of the session key and its closing quote before the first delimiter. -/
def sessionText (py : PyText) (sessionKey : List Char) : List Char :=
  match splitFirst "---".toList sessionKey with
  | some (text, _) => text.rdropWhile py.isSpace
  | none => sessionKey ++ ['"']

/-- All the lines are left, the last of them up to a delimiter in the session key. -/
theorem extract_lines (hpy : py.PlainSpaces) (hname : ¬ "---".toList <:+: name)
    (hdescription : ¬ "---".toList <:+: description) : ∃ before, extractFrontmatter py
        (generateSkillMdTemplate name description procedure sessionKey generatedAt) =
          .ok (joinLines (frontLines name (safeDesc description ++ ['"']) generatedAt
            (sessionText py sessionKey)),
            strip py.isSpace (before ++ bodyText name description procedure)) := by
  have hlead : ¬ "---".toList <:+: leadText name description generatedAt := by
    rw [delimiter_leadText]
    exact not_or_intro hname hdescription
  have hopen : ∀ text, joinLines (frontLines name (safeDesc description ++ ['"']) generatedAt text) =
      joinLines (frontLines name (safeDesc description ++ ['"']) generatedAt []) ++ text := by
    intro text
    have htext := leadText_eq name description text generatedAt
    have hnil := leadText_eq name description [] generatedAt
    have hcons : leadText name description generatedAt ++ '"' :: text =
        (leadText name description generatedAt ++ ['"']) ++ text := by
      rw [List.append_assoc, List.singleton_append]
    rw [hcons, hnil, List.cons_append] at htext
    exact (List.cons.inj htext).2.symm
  have hfront : ∀ text, strip py.isSpace (leadText name description generatedAt ++ '"' :: text) =
      joinLines (frontLines name (safeDesc description ++ ['"']) generatedAt
        (text.rdropWhile py.isSpace)) := by
    intro text
    have hne : joinLines (frontLines name (safeDesc description ++ ['"']) generatedAt []) ≠ [] := by
      intro h
      have hhead := head_joinLines name (descriptionLine (safeDesc description ++ ['"']) ::
        (stampLines generatedAt ++ [sessionLine []]))
      rw [frontLines] at h
      rw [h] at hhead
      cases hhead
    have hquote : (joinLines (frontLines name (safeDesc description ++ ['"']) generatedAt [])).getLast? =
        some '"' := by
      rw [← List.getLast?_cons_of_ne_nil (x := '\n') hne, ← leadText_eq, List.getLast?_concat]
    rw [leadText_eq, hopen text, hopen (text.rdropWhile py.isSpace)]
    exact strip_open hpy text hquote
  unfold sessionText
  cases hcut : splitFirst "---".toList sessionKey with
  | some parts =>
    obtain ⟨text, more⟩ := parts
    refine ⟨more ++ ['"', '\n'] ++ "---".toList, ?_⟩
    rw [extract_cut (frontmatterText_eq _ _ _ _) hlead (by decide) hcut, hfront]
  | none =>
    have hkey : ¬ "---".toList <:+: sessionKey := splitFirst_eq_none.mp hcut
    have hend : ¬ "---".toList <:+: '\n' :: "---".toList.dropLast := by decide
    have hsplit : splitFirst "---".toList (frontmatterText name description sessionKey generatedAt ++
        "---".toList ++ bodyText name description procedure) =
        some (frontmatterText name description sessionKey generatedAt, bodyText name description procedure) := by
      rw [splitFirst_append_iff _ delimiter_ne_nil, frontmatterText_eq, List.append_assoc, List.cons_append,
        List.append_assoc, delimiter_append_cons (by decide), List.cons_append,
        delimiter_append_cons (by decide)]
      exact not_or_intro hlead (not_or_intro hkey hend)
    refine ⟨[], (extract_of_split hsplit).trans ?_⟩
    have hquote : (sessionKey ++ ['"', '\n']).rdropWhile py.isSpace = sessionKey ++ ['"'] := by
      rw [rdropWhile_append_cons _ _ (hpy.visible '"' (.inr (by decide)))]
      simp [List.rdropWhile, hpy.newline]
    rw [frontmatterText_eq, hfront, hquote, List.nil_append]

end

end PyClaw
