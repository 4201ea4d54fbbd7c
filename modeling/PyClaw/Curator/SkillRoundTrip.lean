import PyClaw.Curator.SkillFrontmatter
import PyClaw.Lib.YamlLines

/-!
# Curator.SkillRoundTrip

What comes back of a graduated skill when its file is read. `skillMd_roundTrip`: which texts come back,
and, where description and session key are one line, that no others do.
-/

namespace PyClaw

open Yaml

/-! ## Reading the file -/

section
variable {py : PyText} {yaml : YamlLoader} {parentName file : List Char} {m : SkillManifest}

theorem parseSkillFile_eq_ok : parseSkillFile py yaml parentName file = .ok m ↔
    ∃ front body es, extractFrontmatter py (universalNewlines file) = .ok (front, body) ∧
      yaml.safeLoad front = .ok (.map es) ∧ skillManifest parentName es body = .ok m := by
  unfold parseSkillFile
  cases hextract : extractFrontmatter py (universalNewlines file) with
  | error e => exact iff_of_false (fun h => by cases h) (fun ⟨_, _, _, h, _⟩ => by cases h)
  | ok parts =>
    obtain ⟨front, body⟩ := parts
    simp only [bind, Except.bind, Except.ok.injEq, Prod.mk.injEq]
    cases hload : yaml.safeLoad front with
    | error e =>
      refine iff_of_false (fun h => by cases h) ?_
      rintro ⟨_, _, _, ⟨rfl, rfl⟩, h, -⟩
      rw [hload] at h
      cases h
    | ok v =>
      constructor
      · intro h
        cases v with
        | map es => exact ⟨front, body, es, ⟨rfl, rfl⟩, hload, h⟩
        | null => cases h
        | bool b => cases h
        | int n => cases h
        | str s => cases h
        | other text => cases h
      · rintro ⟨_, _, es, ⟨rfl, rfl⟩, h, hm⟩
        rw [hload] at h
        cases h
        exact hm

theorem skillManifest_body {es : List (List Char × YamlValue)} {body : List Char}
    (h : skillManifest parentName es body = .ok m) : m.body = body := by
  unfold skillManifest at h
  simp only [bind, Except.bind, pure, Except.pure] at h
  repeat' split at h
  all_goals cases h
  rfl

theorem extract_body_subset {content front body : List Char}
    (h : extractFrontmatter py content = .ok (front, body)) : ∀ c ∈ body, c ∈ content := by
  unfold extractFrontmatter at h
  split_ifs at h
  cases hsplit : splitFirst "---".toList (content.drop 3) with
  | none =>
    rw [hsplit] at h
    cases h
  | some parts =>
    obtain ⟨front', body'⟩ := parts
    rw [hsplit] at h
    cases h
    intro c hc
    refine List.mem_of_mem_drop (i := 3) ?_
    rw [splitFirst_sound hsplit]
    exact List.mem_append_right _ ((strip_isInfix _ _).subset hc)

/-- A carriage return never comes back. -/
theorem not_mem_body (h : parseSkillFile py yaml parentName file = .ok m) : '\r' ∉ m.body := by
  obtain ⟨front, body, es, hextract, -, hm⟩ := parseSkillFile_eq_ok.mp h
  rw [skillManifest_body hm]
  exact fun hmem => not_mem_universalNewlines file (extract_body_subset hextract _ hmem)

end

/-! ## What is read back -/

section
variable (py : PyText) (yaml : YamlLoader) (generatedAt : UtcStamp)
  (name description procedure sessionKey : List Char)

/-- The file, in the directory of the skill's name, is read as the skill. -/
def SkillRoundTrips : Prop :=
  ∃ m, parseSkillFile py yaml name
      (generateSkillMdTemplate name description procedure sessionKey generatedAt) = .ok m ∧
    m.name = name ∧ m.description = description ∧ procedure <:+: m.body

/-- The name reads as itself, or as nothing, and then it is that of the directory. -/
def NameReads : Prop :=
  yaml.resolve name = some (.str name) ∨ ∃ v, yaml.resolve name = some v ∧ v.truthy = false

/-- The description is a double-quoted scalar as it stands. -/
structure DescriptionReads : Prop where
  noDelimiter : ¬ "---".toList <:+: description
  line : ∀ c ∈ description, lineChar c = true
  noBackslash : '\\' ∉ description

/-- What is left of the session key is one double-quoted scalar, and a comment. -/
structure SessionKeyReads : Prop where
  line : ∀ c ∈ sessionText py sessionKey, lineChar c = true
  scalar : ∃ value rest, scanQuoted .text (sessionText py sessionKey) = .closed value rest ∧
    trailing rest = true

/-- The texts that come back: a name with a delimiter in it does if what is before the delimiter reads as
nothing and there is no description. -/
def SkillReadable : Prop :=
  '\r' ∉ sessionKey ∧ '\r' ∉ procedure ∧
    (¬ "---".toList <:+: name ∧ NameReads yaml name ∧ DescriptionReads description ∧
        SessionKeyReads py sessionKey ∨
      ∃ word more v, splitFirst "---".toList name = some (word, more) ∧ yaml.resolve word = some v ∧
        v.truthy = false ∧ description = [])

end

section
variable {py : PyText} {yaml : YamlLoader} {generatedAt : UtcStamp}
  {name description procedure sessionKey : List Char}

theorem asStr_eq_ok {v : YamlValue} {field : String} {s : List Char} :
    v.asStr field = .ok s ↔ v = .str s := by
  cases v with
  | str s' => simp [YamlValue.asStr]
  | null => simp [YamlValue.asStr]
  | bool b => simp [YamlValue.asStr]
  | int n => simp [YamlValue.asStr]
  | other text => simp [YamlValue.asStr]
  | map es => simp [YamlValue.asStr]

/-- What becomes of the value of the name. -/
theorem named_iff {v : YamlValue} :
    (if v.truthy then v else .str name).asStr "name" = .ok name ↔ v = .str name ∨ v.truthy = false := by
  rw [asStr_eq_ok]
  by_cases h : v.truthy = true
  · simp [h]
  · simp [h]

/-- The name is letters, digits and hyphens; the procedure has no white space at its ends. -/
theorem parseSopContent_spec {content n d p : String} (h : parseSopContent py content = some (n, d, p)) :
    plainWord n.toList = true ∧ Stripped py p.toList := by
  unfold parseSopContent at h
  split_ifs at h
  simp only [Option.bind_eq_bind, Option.bind_eq_some_iff, Prod.exists] at h
  obtain ⟨first, rest, -, second, third, -, h⟩ := h
  split_ifs at h with hvalid
  cases h
  simp only [String.toList_ofList]
  exact ⟨plainWord_of_valid hvalid.1, head?_strip, getLast?_strip⟩

theorem not_mem_plainWord (hname : plainWord name = true) {c : Char}
    (hc : ¬ (c.isLower = true ∨ c.isDigit = true ∨ c = '-')) : c ∉ name :=
  fun hmem => hc (plainWord_chars hname c hmem)

/-- A file without a carriage return is read as it is. -/
theorem not_mem_template (generatedAt : UtcStamp) (hname : plainWord name = true) (hdescription : '\r' ∉ description)
    (hkey : '\r' ∉ sessionKey) (hprocedure : '\r' ∉ procedure) :
    '\r' ∉ generateSkillMdTemplate name description procedure sessionKey generatedAt := by
  have hnameReturn : '\r' ∉ name := not_mem_plainWord hname (by decide)
  have hstamp : '\r' ∉ generatedAt.text := fun hmem => absurd (generatedAt.lineChar _ hmem) (by decide)
  have hsafe : '\r' ∉ replaceEach '"' "\\\"".toList description :=
    fun hmem => (of_mem_safeDesc hmem).elim (by decide) hdescription
  have hwords : ∀ w ∈ ["---", "\nname: ", "\ndescription: \"", "\"\nsource_session: \"", "\"\n",
      "\"\nauto_generated: true\nlifecycle: active\ngenerated_at: \"", "\n\n# ", "\n\n",
      "\n\n## Procedure\n\n", "\n"], '\r' ∉ w.toList := by decide
  unfold generateSkillMdTemplate frontmatterText bodyText
  simp only [List.mem_append, hnameReturn, hkey, hstamp, hsafe, hdescription, hprocedure, or_false]
  simp (disch := simp) only [hwords, or_self, not_false_eq_true]

/-- A manifest of nothing but a name has no description. -/
theorem manifest_name_only (v : YamlValue) (body : List Char) :
    (∃ m, skillManifest name [("name".toList, v)] body = .ok m ∧ m.name = name ∧
      m.description = description) ↔ (v = .str name ∨ v.truthy = false) ∧ description = [] := by
  have hmanifest : skillManifest name [("name".toList, v)] body =
      ((if v.truthy then v else .str name).asStr "name").bind fun name' =>
        .ok { name := name', description := [], body, autoGenerated := false,
              lifecycle := "active".toList, generatedAt := none, sourceSession := none } := rfl
  rw [hmanifest, ← named_iff]
  cases (if v.truthy then v else .str name).asStr "name" with
  | error e => simp [Except.bind]
  | ok name' => simp [Except.bind, eq_comm]

/-- The six entries of an uncut front matter. -/
theorem manifest_entries (v : YamlValue) (value generated session body : List Char) :
    (∃ m, skillManifest name [("name".toList, v), ("description".toList, .str value),
        ("auto_generated".toList, .bool true), ("lifecycle".toList, .str "active".toList),
        ("generated_at".toList, .str generated), ("source_session".toList, .str session)] body = .ok m ∧
      m.name = name ∧ m.description = description) ↔
      (v = .str name ∨ v.truthy = false) ∧ value = description := by
  have hmanifest : skillManifest name [("name".toList, v), ("description".toList, .str value),
        ("auto_generated".toList, .bool true), ("lifecycle".toList, .str "active".toList),
        ("generated_at".toList, .str generated), ("source_session".toList, .str session)] body =
      ((if v.truthy then v else .str name).asStr "name").bind fun name' =>
        .ok { name := name', description := value, body, autoGenerated := true,
              lifecycle := "active".toList, generatedAt := some generated,
              sourceSession := some session } := rfl
  rw [hmanifest, ← named_iff]
  cases (if v.truthy then v else .str name).asStr "name" with
  | error e => simp [Except.bind]
  | ok name' => simp [Except.bind]

theorem manifest_description {v : YamlValue} {value body : List Char} {m : SkillManifest}
    (h : skillManifest name [("name".toList, v), ("description".toList, .str value)] body = .ok m) :
    m.description = value := by
  have hmanifest : skillManifest name [("name".toList, v), ("description".toList, .str value)] body =
      ((if v.truthy then v else .str name).asStr "name").bind fun name' =>
        .ok { name := name', description := value, body, autoGenerated := false,
              lifecycle := "active".toList, generatedAt := none, sourceSession := none } := rfl
  rw [hmanifest] at h
  cases hname : (if v.truthy then v else .str name).asStr "name" with
  | error e =>
    rw [hname] at h
    cases h
  | ok name' =>
    rw [hname] at h
    cases h
    rfl

/-- What is loaded has no other characters than a line can have. -/
theorem lineChar_of_load {lines : List Line} {l : Line} {text : List Char} {v : YamlValue}
    (hload : yaml.safeLoad (joinLines lines) = .ok v) (hmem : l ∈ lines) (hquoted : l.scalar = .quoted text)
    (hline : ∀ c ∈ text, lineBreak c = false) : ∀ c ∈ text, lineChar c = true := by
  intro c hc
  have htext : c ∈ l.text := by
    rw [Line.text, hquoted, Scalar.text]
    simp [hc]
  have hprintable := yaml.load_printable _ _ hload c (mem_joinLines hmem htext)
  rw [lineChar, hprintable, hline c hc]
  rfl

theorem lineBreak_sessionText (h : ∀ c ∈ sessionKey, lineBreak c = false) :
    ∀ c ∈ sessionText py sessionKey, lineBreak c = false := by
  intro c hc
  unfold sessionText at hc
  cases hcut : splitFirst "---".toList sessionKey with
  | some parts =>
    obtain ⟨text, more⟩ := parts
    rw [hcut] at hc
    refine h c ?_
    rw [splitFirst_sound hcut]
    exact List.mem_append_left _ (List.mem_append_left _ ((List.rdropWhile_prefix _ _).subset hc))
  | none =>
    rw [hcut] at hc
    rcases List.mem_append.mp hc with hc | hc
    · exact h c hc
    · rw [List.mem_singleton.mp hc]
      decide

/-- The lines behind the description leave its scalar open. -/
theorem leavesOpen_stampLines (session : List Char) :
    LeavesOpen ('\n' :: joinLines (stampLines generatedAt ++ [sessionLine session])) := by
  obtain ⟨c, rest, htext, hdigit⟩ := generatedAt.begins
  have hopen : ∃ more, '\n' :: joinLines (stampLines generatedAt ++ [sessionLine session]) =
      "\nauto_generated: true\nlifecycle: active\ngenerated_at: ".toList ++ '"' :: c :: more := by
    have hwords : "\nauto_generated: true\nlifecycle: active\ngenerated_at: ".toList =
        '\n' :: ("auto_generated".toList ++ ':' :: ' ' :: ("true".toList ++ '\n' ::
          ("lifecycle".toList ++ ':' :: ' ' :: ("active".toList ++ '\n' ::
            ("generated_at".toList ++ [':', ' ']))))) := by decide +kernel
    unfold stampLines
    simp only [joinLines, Line.text, Scalar.text, hwords, htext, List.append_assoc, List.cons_append,
      List.nil_append]
    exact ⟨_, rfl⟩
  obtain ⟨more, hmore⟩ := hopen
  rw [hmore]
  exact leavesOpen_append rfl (by decide) (by decide) (by simp [Char.isAlphanum, hdigit])

/-- What is loaded has closed the scalar of the description on its line. -/
theorem description_closed {t after : List Char} {v : YamlValue} (hname : plainWord name = true)
    (ht : ∀ c ∈ t, lineChar c = true) (hafter : LeavesOpen after)
    (hload : yaml.safeLoad (joinLines [nameLine name, descriptionLine t] ++ after) = .ok v) :
    scanQuoted .text t ≠ .unclosed := by
  intro hscan
  obtain ⟨e, he⟩ := yaml.load_unclosed [nameLine name] "description".toList t after
    (by simpa using simple_nameLine hname) (by decide) ht hscan hafter
  exact absurd (he.symm.trans hload) (by simp)

theorem leavesOpen_nil : LeavesOpen [] := ⟨.inl rfl, List.not_mem_nil, .inl rfl⟩

/-- And so for the session key, whose line is the last one. -/
theorem session_closed {t session : List Char} {v : YamlValue} (hname : plainWord name = true)
    (ht : (descriptionLine t).Simple) (hsession : ∀ c ∈ session, lineChar c = true)
    (hload : yaml.safeLoad (joinLines (frontLines name t generatedAt session)) = .ok v) :
    scanQuoted .text session ≠ .unclosed := by
  intro hscan
  have hsimple : ∀ l ∈ nameLine name :: descriptionLine t :: stampLines generatedAt, l.Simple := by
    simp only [List.forall_mem_cons]
    exact ⟨simple_nameLine hname, ht, simple_stampLines⟩
  obtain ⟨e, he⟩ := yaml.load_unclosed _ "source_session".toList session [] hsimple (by decide) hsession
    hscan leavesOpen_nil
  rw [List.append_nil] at he
  exact absurd (he.symm.trans hload) (by simp)

theorem lineBreak_safeDesc (h : ∀ c ∈ description, lineBreak c = false) :
    ∀ c ∈ safeDesc description, lineBreak c = false := by
  intro c hc
  rcases of_mem_safeDesc hc with rfl | hc
  · decide
  · exact h c hc

/-! ## All the lines -/

/-- The lines of an uncut front matter are loaded as the skill. -/
def LinesRead (py : PyText) (yaml : YamlLoader) (generatedAt : UtcStamp)
    (name description sessionKey body : List Char) : Prop :=
  ∃ es m, yaml.safeLoad (joinLines (frontLines name (safeDesc description ++ ['"']) generatedAt
      (sessionText py sessionKey))) = .ok (.map es) ∧
    skillManifest name es body = .ok m ∧ m.name = name ∧ m.description = description

theorem readable_of_linesRead {body : List Char} (hname : plainWord name = true)
    (hdelimiter : ¬ "---".toList <:+: description) (hline : ∀ c ∈ description, lineBreak c = false)
    (hkeyLine : ∀ c ∈ sessionKey, lineBreak c = false)
    (h : LinesRead py yaml generatedAt name description sessionKey body) :
    NameReads yaml name ∧ DescriptionReads description ∧ SessionKeyReads py sessionKey := by
  obtain ⟨es, m, hload, hm⟩ := h
  have ht : ∀ c ∈ safeDesc description ++ ['"'], lineChar c = true := by
    have hmem : descriptionLine (safeDesc description ++ ['"']) ∈ frontLines name
        (safeDesc description ++ ['"']) generatedAt (sessionText py sessionKey) := by
      unfold frontLines
      exact List.mem_cons_of_mem _ List.mem_cons_self
    refine lineChar_of_load hload hmem rfl fun c hc => ?_
    rcases List.mem_append.mp hc with hc | hc
    · exact lineBreak_safeDesc hline c hc
    · rw [List.mem_singleton.mp hc]
      decide
  have hsession : ∀ c ∈ sessionText py sessionKey, lineChar c = true := by
    have hmem : sessionLine (sessionText py sessionKey) ∈ frontLines name
        (safeDesc description ++ ['"']) generatedAt (sessionText py sessionKey) := by
      unfold frontLines
      simp
    exact lineChar_of_load hload hmem rfl (lineBreak_sessionText hkeyLine)
  have htext : joinLines (frontLines name (safeDesc description ++ ['"']) generatedAt
      (sessionText py sessionKey)) = joinLines [nameLine name, descriptionLine (safeDesc description ++ ['"'])] ++
        '\n' :: joinLines (stampLines generatedAt ++ [sessionLine (sessionText py sessionKey)]) := by
    rw [← joinLines_append (by simp) (by simp [stampLines])]
    rfl
  have hclosed := description_closed hname ht (leavesOpen_stampLines _) (htext ▸ hload)
  have hdescriptionSimple := simple_descriptionLine ht hclosed
  have hsessionClosed := session_closed hname hdescriptionSimple hsession hload
  have hsimple := simple_frontLines generatedAt hname hdescriptionSimple
    (simple_sessionLine hsession hsessionClosed)
  obtain ⟨hends, es', hes, he⟩ :=
    (yaml.load_lines _ _ (by simp [frontLines]) nodup_keys hsimple).mp hload
  cases he
  obtain ⟨hdescriptionEnds, hsessionEnds⟩ := ends_frontLines.mp hends
  obtain ⟨value, rest, hscan, -⟩ := hdescriptionEnds _ rfl
  obtain ⟨keyValue, keyRest, hkeyScan, htrailing⟩ := hsessionEnds _ rfl
  obtain ⟨v, es₁, hv, -, -⟩ := entries_cons.mp hes
  rw [entries_eq hv hscan hkeyScan] at hes
  cases hes
  obtain ⟨hnamed, rfl⟩ := (manifest_entries v value _ _ _).mp ⟨m, hm⟩
  refine ⟨?_, ⟨hdelimiter, fun c hc => ht c (List.mem_append_left _ (mem_safeDesc hc)),
    (scan_safeDesc_eq hscan).1⟩, hsession, keyValue, keyRest, hkeyScan, htrailing⟩
  rcases hnamed with rfl | hfalse
  · exact .inl hv
  · exact .inr ⟨v, hv, hfalse⟩

theorem linesRead_of_readable (body : List Char) (hname : plainWord name = true) (hnamed : NameReads yaml name)
    (hread : DescriptionReads description) (hkeyReads : SessionKeyReads py sessionKey) :
    LinesRead py yaml generatedAt name description sessionKey body := by
  obtain ⟨v, hv, hnamed⟩ : ∃ v, yaml.resolve name = some v ∧ (v = .str name ∨ v.truthy = false) := by
    rcases hnamed with hself | ⟨v, hv, hfalse⟩
    · exact ⟨_, hself, .inl rfl⟩
    · exact ⟨v, hv, .inr hfalse⟩
  have hscan := scan_safeDesc hread.noBackslash []
  obtain ⟨keyValue, keyRest, hkeyScan, htrailing⟩ := hkeyReads.scalar
  have ht : ∀ c ∈ safeDesc description ++ ['"'], lineChar c = true := by
    intro c hc
    rcases List.mem_append.mp hc with hc | hc
    · rcases of_mem_safeDesc hc with rfl | hc
      · decide
      · exact hread.line c hc
    · rw [List.mem_singleton.mp hc]
      decide
  have hsimple : ∀ l ∈ frontLines name (safeDesc description ++ ['"']) generatedAt
      (sessionText py sessionKey), l.Simple := by
    refine simple_frontLines generatedAt hname (simple_descriptionLine ht ?_) (simple_sessionLine hkeyReads.line ?_)
    · rw [hscan]
      exact QuotedScan.noConfusion
    · rw [hkeyScan]
      exact QuotedScan.noConfusion
  have hends : (descriptionLine (safeDesc description ++ ['"'])).Ends ∧
      (sessionLine (sessionText py sessionKey)).Ends := by
    constructor
    · intro text he
      cases he
      exact ⟨description, [], hscan, rfl⟩
    · intro text he
      cases he
      exact ⟨keyValue, keyRest, hkeyScan, htrailing⟩
  obtain ⟨m, hm⟩ := (manifest_entries v description generatedAt.text keyValue body).mpr ⟨hnamed, rfl⟩
  exact ⟨_, m, (yaml.load_lines _ _ (by simp [frontLines]) nodup_keys hsimple).mpr
    ⟨ends_frontLines.mpr hends, _, entries_eq hv hscan hkeyScan, rfl⟩, hm⟩

/-- The beginning of a plain word is one too. -/
theorem plainWord_left {word more : List Char} (h : plainWord (word ++ more) = true) (hne : word ≠ []) :
    plainWord word = true := by
  cases word with
  | nil => exact absurd rfl hne
  | cons c rest =>
    simp only [plainWord, List.cons_append, List.all_append, Bool.and_eq_true] at h ⊢
    exact ⟨h.1, h.2.1⟩

theorem isSpace_of_plainWord (hpy : py.PlainSpaces) (h : plainWord name = true) :
    ∀ c ∈ name, py.isSpace c = false := by
  intro c hc
  refine hpy.visible c ?_
  rcases plainWord_chars h c hc with h | h | rfl
  · exact .inl (isAlphanum_iff.mpr (.inr (.inl h)))
  · exact .inl (isAlphanum_iff.mpr (.inr (.inr h)))
  · exact .inr (by decide)

/-- A name line alone is one entry. -/
theorem entries_nameLine (resolve : List Char → Option YamlValue) (word : List Char)
    (es : List (List Char × YamlValue)) : entries resolve [nameLine word] = some es ↔
      ∃ v, resolve word = some v ∧ es = [("name".toList, v)] := by
  rw [entries_cons]
  constructor
  · rintro ⟨v, es', hv, hes, rfl⟩
    cases hes
    exact ⟨v, hv, rfl⟩
  · rintro ⟨v, hv, rfl⟩
    exact ⟨v, [], hv, rfl, rfl⟩

section
variable {front body : List Char}
  (hreturn : '\r' ∉ generateSkillMdTemplate name description procedure sessionKey generatedAt)
include hreturn

/-- What is read is loaded from the front matter that is cut from the file. -/
theorem load_of_roundTrips (hextract : extractFrontmatter py
      (generateSkillMdTemplate name description procedure sessionKey generatedAt) = .ok (front, body))
    (h : SkillRoundTrips py yaml generatedAt name description procedure sessionKey) :
    ∃ es m, yaml.safeLoad front = .ok (.map es) ∧ skillManifest name es body = .ok m ∧
      m.name = name ∧ m.description = description := by
  obtain ⟨m, hparse, hname, hdescription, -⟩ := h
  obtain ⟨front', body', es, hextract', hload, hm⟩ := parseSkillFile_eq_ok.mp hparse
  rw [universalNewlines_eq_self hreturn, hextract] at hextract'
  cases hextract'
  exact ⟨es, m, hload, hm, hname, hdescription⟩

theorem roundTrips_iff (hbody : procedure <:+: body) (hextract : extractFrontmatter py
      (generateSkillMdTemplate name description procedure sessionKey generatedAt) = .ok (front, body)) :
    SkillRoundTrips py yaml generatedAt name description procedure sessionKey ↔
      ∃ es m, yaml.safeLoad front = .ok (.map es) ∧ skillManifest name es body = .ok m ∧
        m.name = name ∧ m.description = description := by
  refine ⟨load_of_roundTrips hreturn hextract, ?_⟩
  rintro ⟨es, m, hload, hm, hname, hdescription⟩
  refine ⟨m, parseSkillFile_eq_ok.mpr ⟨front, body, es, ?_, hload, hm⟩, hname, hdescription, ?_⟩
  · rw [universalNewlines_eq_self hreturn, hextract]
  · rw [skillManifest_body hm]
    exact hbody

/-! ### A delimiter in the name -/

theorem roundTrips_cut_name (hpy : py.PlainSpaces) (hname : plainWord name = true)
    (hprocedure : Stripped py procedure) {word more : List Char}
    (hcut : splitFirst "---".toList name = some (word, more)) :
    SkillRoundTrips py yaml generatedAt name description procedure sessionKey ↔
      ∃ v, yaml.resolve word = some v ∧ v.truthy = false ∧ description = [] := by
  have hsound : name = word ++ ("---".toList ++ more) := by
    rw [splitFirst_sound hcut, List.append_assoc]
  have hne : word ≠ [] := by
    rintro rfl
    rw [hsound] at hname
    exact absurd hname (by simp [plainWord])
  have hword : plainWord word = true := plainWord_left (hsound ▸ hname) hne
  have hchars := isSpace_of_plainWord hpy hword
  obtain ⟨before, hextract⟩ : ∃ before, extractFrontmatter py
      (generateSkillMdTemplate name description procedure sessionKey generatedAt) =
        .ok (joinLines [nameLine word], strip py.isSpace (before ++ bodyText name description procedure)) :=
    extract_cut_name hpy hcut (fun c hc => hchars c (List.mem_of_mem_getLast? hc)) hne
  rw [roundTrips_iff hreturn (procedure_infix_strip hprocedure before) hextract]
  have hsimple : ∀ l ∈ [nameLine word], l.Simple := by
    intro l hl
    rw [List.mem_singleton.mp hl]
    exact simple_nameLine hword
  constructor
  · rintro ⟨es, m, hload, hm⟩
    obtain ⟨-, es', hes, he⟩ := (yaml.load_lines _ _ (by simp) (by simp) hsimple).mp hload
    cases he
    obtain ⟨v, hv, rfl⟩ := (entries_nameLine _ _ _).mp hes
    obtain ⟨hnamed, hdescription⟩ := (manifest_name_only v _).mp ⟨m, hm⟩
    refine ⟨v, hv, hnamed.resolve_left ?_, hdescription⟩
    -- the word is shorter than the name
    rintro rfl
    have hself := congrArg List.length ((yaml.resolve_str _ _ hv).symm.trans hsound)
    simp at hself
  · rintro ⟨v, hv, hfalse, hdescription⟩
    obtain ⟨m, hm⟩ := (manifest_name_only v
      (strip py.isSpace (before ++ bodyText name description procedure))).mpr ⟨.inr hfalse, hdescription⟩
    have hends : ∀ l ∈ [nameLine word], l.Ends := by
      intro l hl text he
      rw [List.mem_singleton.mp hl] at he
      cases he
    exact ⟨_, m, (yaml.load_lines _ _ (by simp) (by simp) hsimple).mpr
      ⟨hends, _, (entries_nameLine _ _ _).mpr ⟨v, hv, rfl⟩, rfl⟩, hm⟩

/-! ### A delimiter in the description -/

theorem not_roundTrips_cut_description (hpy : py.PlainSpaces) (hname : plainWord name = true)
    (hnameDelimiter : ¬ "---".toList <:+: name) (hline : ∀ c ∈ description, lineBreak c = false)
    (hdelimiter : "---".toList <:+: description) :
    ¬ SkillRoundTrips py yaml generatedAt name description procedure sessionKey := by
  obtain ⟨⟨text, more⟩, hcut⟩ : ∃ parts, splitFirst "---".toList (safeDesc description) = some parts := by
    rw [← Option.isSome_iff_exists]
    exact occurs_iff.mpr (delimiter_safeDesc.mpr hdelimiter)
  obtain ⟨blanks, hblanks⟩ := List.rdropWhile_prefix py.isSpace text
  have hsafe : safeDesc description =
      text.rdropWhile py.isSpace ++ (blanks ++ ("---".toList ++ more)) := by
    rw [← List.append_assoc, hblanks, ← List.append_assoc, splitFirst_sound hcut]
  obtain ⟨body, hextract⟩ : ∃ body, extractFrontmatter py
      (generateSkillMdTemplate name description procedure sessionKey generatedAt) =
        .ok (joinLines [nameLine name, descriptionLine (text.rdropWhile py.isSpace)], body) :=
    extract_cut_description hpy hnameDelimiter hcut
  intro h
  obtain ⟨es, m, hload, hm, -, hdescription⟩ := load_of_roundTrips hreturn hextract h
  have ht : ∀ c ∈ text.rdropWhile py.isSpace, lineChar c = true := by
    have hmem : descriptionLine (text.rdropWhile py.isSpace) ∈
        [nameLine name, descriptionLine (text.rdropWhile py.isSpace)] := by simp
    refine lineChar_of_load hload hmem rfl fun c hc => ?_
    refine lineBreak_safeDesc hline c ?_
    rw [hsafe]
    exact List.mem_append_left _ hc
  have hkeys : ([nameLine name, descriptionLine (text.rdropWhile py.isSpace)].map Line.key).Nodup :=
    (by decide : ["name".toList, "description".toList].Nodup)
  have hclosed := description_closed hname ht leavesOpen_nil (by rwa [List.append_nil])
  have hsimple : ∀ l ∈ [nameLine name, descriptionLine (text.rdropWhile py.isSpace)], l.Simple := by
    simp only [List.forall_mem_cons, List.not_mem_nil, false_implies, implies_true, and_true]
    exact ⟨simple_nameLine hname, simple_descriptionLine ht hclosed⟩
  obtain ⟨hends, es', hes, he⟩ := (yaml.load_lines _ _ (by simp) hkeys hsimple).mp hload
  cases he
  have hmem : descriptionLine (text.rdropWhile py.isSpace) ∈
      [nameLine name, descriptionLine (text.rdropWhile py.isSpace)] := by simp
  obtain ⟨value, rest, hscan, -⟩ := hends _ hmem _ rfl
  obtain ⟨v, es₁, hv, hes₁, rfl⟩ := entries_cons.mp hes
  obtain ⟨v', es₂, hv', hes₂, rfl⟩ := entries_cons.mp hes₁
  cases hes₂
  have hstr : v' = .str value := by
    unfold Line.value descriptionLine at hv'
    simp only [hscan] at hv'
    exact (Option.some.inj hv').symm
  rw [hstr] at hm
  have hvalue := manifest_description hm
  -- the value cannot be the description: the scalar is closed before the end of it
  have hwhole := scanQuoted_append ((blanks ++ ("---".toList ++ more)) ++ ['"']) hscan
  rw [← List.append_assoc, ← hsafe, ← hvalue, hdescription] at hwhole
  exact absurd (scan_safeDesc_eq hwhole).2 (by simp)

/-! ### No delimiter in name and description -/

theorem linesRead_iff (hpy : py.PlainSpaces) (hprocedure : Stripped py procedure)
    (hnameDelimiter : ¬ "---".toList <:+: name) (hdelimiter : ¬ "---".toList <:+: description) :
    ∃ body, SkillRoundTrips py yaml generatedAt name description procedure sessionKey ↔
      LinesRead py yaml generatedAt name description sessionKey body := by
  obtain ⟨before, hextract⟩ : ∃ before, extractFrontmatter py
      (generateSkillMdTemplate name description procedure sessionKey generatedAt) =
        .ok (joinLines (frontLines name (safeDesc description ++ ['"']) generatedAt
          (sessionText py sessionKey)), strip py.isSpace (before ++ bodyText name description procedure)) :=
    extract_lines hpy hnameDelimiter hdelimiter
  exact ⟨_, roundTrips_iff hreturn (procedure_infix_strip hprocedure before) hextract⟩

end

/-! ## The round trip -/

theorem roundTrips_of_readable (hpy : py.PlainSpaces) (hname : plainWord name = true)
    (hprocedure : Stripped py procedure) (h : SkillReadable py yaml name description procedure sessionKey) :
    SkillRoundTrips py yaml generatedAt name description procedure sessionKey := by
  obtain ⟨hkeyReturn, hprocedureReturn, hcase⟩ := h
  rcases hcase with ⟨hnameDelimiter, hnamed, hread, hkeyReads⟩ | ⟨word, more, v, hcut, hv, hfalse, rfl⟩
  · have hdescriptionReturn : '\r' ∉ description := fun hmem => absurd (hread.line _ hmem) (by decide)
    have hreturn := not_mem_template generatedAt hname hdescriptionReturn hkeyReturn hprocedureReturn
    obtain ⟨body, hiff⟩ := linesRead_iff hreturn hpy hprocedure hnameDelimiter hread.noDelimiter
    exact hiff.mpr (linesRead_of_readable body hname hnamed hread hkeyReads)
  · have hreturn := not_mem_template generatedAt hname List.not_mem_nil hkeyReturn hprocedureReturn
    exact (roundTrips_cut_name hreturn hpy hname hprocedure hcut).mpr ⟨v, hv, hfalse, rfl⟩

theorem readable_of_roundTrips (hpy : py.PlainSpaces) (hname : plainWord name = true)
    (hprocedure : Stripped py procedure) (hline : ∀ c ∈ description, lineBreak c = false)
    (hkeyLine : ∀ c ∈ sessionKey, lineBreak c = false)
    (h : SkillRoundTrips py yaml generatedAt name description procedure sessionKey) :
    SkillReadable py yaml name description procedure sessionKey := by
  have hnoReturn : ∀ text : List Char, (∀ c ∈ text, lineBreak c = false) → '\r' ∉ text :=
    fun text hall hmem => absurd (hall _ hmem) (by decide)
  have hprocedureReturn : '\r' ∉ procedure := by
    obtain ⟨m, hparse, -, -, hbody⟩ := h
    exact fun hmem => not_mem_body hparse (hbody.subset hmem)
  have hreturn : '\r' ∉ generateSkillMdTemplate name description procedure sessionKey generatedAt :=
    not_mem_template generatedAt hname (hnoReturn _ hline) (hnoReturn _ hkeyLine) hprocedureReturn
  refine ⟨hnoReturn _ hkeyLine, hprocedureReturn, ?_⟩
  cases hcut : splitFirst "---".toList name with
  | some parts =>
    obtain ⟨word, more⟩ := parts
    obtain ⟨v, hv, hfalse, hempty⟩ := (roundTrips_cut_name hreturn hpy hname hprocedure hcut).mp h
    exact .inr ⟨word, more, v, rfl, hv, hfalse, hempty⟩
  | none =>
    have hnameDelimiter := splitFirst_eq_none.mp hcut
    by_cases hdelimiter : "---".toList <:+: description
    · exact absurd h (not_roundTrips_cut_description hreturn hpy hname hnameDelimiter hline hdelimiter)
    · obtain ⟨body, hiff⟩ := linesRead_iff hreturn hpy hprocedure hnameDelimiter hdelimiter
      exact .inl ⟨hnameDelimiter, readable_of_linesRead hname hdelimiter hline hkeyLine (hiff.mp h)⟩

end

/-- A readable skill comes back; and where neither the description nor the session key has a line break
in it, no other skill does. -/
theorem skillMd_roundTrip (py : PyText) (yaml : YamlLoader) (generatedAt : UtcStamp)
    (content name description procedure sessionKey : String) (hpy : py.PlainSpaces)
    (h : parseSopContent py content = some (name, description, procedure)) :
    (SkillReadable py yaml name.toList description.toList procedure.toList sessionKey.toList →
      SkillRoundTrips py yaml generatedAt name.toList description.toList procedure.toList
        sessionKey.toList) ∧
    ((∀ c ∈ description.toList ++ sessionKey.toList, lineBreak c = false) →
      (SkillRoundTrips py yaml generatedAt name.toList description.toList procedure.toList
          sessionKey.toList ↔
        SkillReadable py yaml name.toList description.toList procedure.toList sessionKey.toList)) := by
  obtain ⟨hname, hprocedure⟩ := parseSopContent_spec h
  have hforward : SkillReadable py yaml name.toList description.toList procedure.toList sessionKey.toList →
      SkillRoundTrips py yaml generatedAt name.toList description.toList procedure.toList
        sessionKey.toList := roundTrips_of_readable hpy hname hprocedure
  refine ⟨hforward, fun hline => ⟨fun hround => ?_, hforward⟩⟩
  exact readable_of_roundTrips hpy hname hprocedure
    (fun c hc => hline c (List.mem_append_left _ hc)) (fun c hc => hline c (List.mem_append_right _ hc)) hround

theorem PyText.ascii_plainSpaces : PyText.ascii.PlainSpaces := by
  refine ⟨by decide, fun c hc => decide_eq_false ?_⟩
  rcases hc with hc | hc
  · have h0 : '0'.toNat = 48 := rfl
    rw [isAlphanum_iff, isUpper_iff_toNat, isLower_iff_toNat, Char.isDigit_iff_toNat] at hc
    omega
  · have hall : "\"#-".toList.all (fun x => !decide (x.toNat ≤ 32)) = true := by decide
    simpa using List.all_eq_true.mp hall c hc

def newYear : UtcStamp where
  text := "2026-01-01T00:00:00Z".toList
  chars := by
    have hall : "2026-01-01T00:00:00Z".toList.all (fun c => c.isDigit || "-T:Z".toList.contains c) =
        true := by decide
    intro c hc
    simpa using List.all_eq_true.mp hall c hc
  begins := ⟨'2', _, rfl, rfl⟩
  noDelimiter := by decide

theorem quotedSkill_roundTrip :
    (SkillReadable .ascii .lines "deploy-app".toList "Deploy \"it\".".toList "Run the script.".toList
        "web:alice".toList →
      SkillRoundTrips .ascii .lines newYear "deploy-app".toList "Deploy \"it\".".toList
        "Run the script.".toList "web:alice".toList) ∧
    ((∀ c ∈ "Deploy \"it\".".toList ++ "web:alice".toList, lineBreak c = false) →
      (SkillRoundTrips .ascii .lines newYear "deploy-app".toList "Deploy \"it\".".toList
          "Run the script.".toList "web:alice".toList ↔
        SkillReadable .ascii .lines "deploy-app".toList "Deploy \"it\".".toList "Run the script.".toList
          "web:alice".toList)) :=
  skillMd_roundTrip .ascii .lines newYear "deploy-app\nDeploy \"it\".\nRun the script." _ _ _ "web:alice"
    PyText.ascii_plainSpaces (by decide +kernel)

/-- `\n` is a line break between the quotes. -/
theorem backslash_not_roundTrip :
    ¬ ∀ (py : PyText) (yaml : YamlLoader) (generatedAt : UtcStamp)
      (content name description procedure sessionKey : String), py.PlainSpaces →
      parseSopContent py content = some (name, description, procedure) →
      SkillRoundTrips py yaml generatedAt name.toList description.toList procedure.toList
        sessionKey.toList := by
  intro h
  obtain ⟨m, hparse, -, hdescription, -⟩ := h .ascii .lines newYear
    "deploy-app\nCopy to C:\\new.\nRun the script." "deploy-app" "Copy to C:\\new." "Run the script." "web:alice"
    PyText.ascii_plainSpaces (by decide +kernel)
  have hread : (parseSkillFile .ascii .lines "deploy-app".toList (generateSkillMdTemplate
      "deploy-app".toList "Copy to C:\\new.".toList "Run the script.".toList "web:alice".toList
      newYear)).toOption.map SkillManifest.description = some "Copy to C:\new.".toList := by
    decide +kernel
  rw [hparse] at hread
  exact absurd (hdescription.symm.trans (Option.some.inj hread)) (by decide)

end PyClaw
