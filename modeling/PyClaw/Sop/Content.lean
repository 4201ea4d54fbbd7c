import PyClaw.Curator.Operations

/-!
# Sop.Content

The text under which a procedure of the language model is stored: `_validate_sop` lets it in,
`_format_sop_content` writes name, description and procedure as lines, and `parse_sop_content` reads
them back by lines. `sopContent_readBack_iff`: they come back as they were exactly when name and
description are one line each, unless the first line of the name is refused.
-/

namespace PyClaw

/-! ## Validation -/

/-- The letter of an ASCII pattern that `re.IGNORECASE` lets a character match. -/
def foldAscii (c : Char) : Char :=
  if c.isUpper then c.toLower
  else if c.toNat = 0x130 ∨ c.toNat = 0x131 then 'i'
  else if c.toNat = 0x17f then 's'
  else if c.toNat = 0x212a then 'k'
  else c

/-- What follows the literal. -/
def after (literal : String) (text : List Char) : Option (List Char) :=
  if literal.toList <+: text then some (text.drop literal.toList.length) else none

/-- `sk-[A-Za-z0-9]{20,}`. -/
def apiKeyAt (text : List Char) : Bool :=
  match after "sk-" text with
  | some rest => (rest.takeWhile slugChar).length ≥ 20
  | none => false

/-- `.*\|\s*sh`. -/
def pipeToShellAt (isSpace : Char → Bool) : List Char → Bool
  | [] => false
  | c :: rest =>
    (c = '|' && (after "sh" (rest.dropWhile isSpace)).isSome) ||
      (c ≠ '\n' && pipeToShellAt isSpace rest)

/-- `curl\s+.*\|\s*sh`; all the white space goes to `\s+`, which loses no match. -/
def curlAt (isSpace : Char → Bool) (text : List Char) : Bool :=
  match after "curl" text with
  | some (c :: rest) => isSpace c && pipeToShellAt isSpace (rest.dropWhile isSpace)
  | _ => false

/-- One of the four hosts, and `[/:?#]|$`. -/
def allowedHostAt (text : List Char) : Bool :=
  ["github.com", "docs.python.org", "docs.djangoproject.com", "stackoverflow.com"].any fun host =>
    match after host text with
    | some [] => true
    | some (c :: rest) => "/:?#".toList.contains c || (c = '\n' && rest = [])
    | none => false

def foreignUrlAt (isSpace : Char → Bool) (text : List Char) : Bool :=
  match (after "http://" text).or (after "https://" text) with
  | some (c :: rest) => !allowedHostAt (c :: rest) && !isSpace c
  | _ => false

/-- `_DANGEROUS_RE.search`. -/
def dangerous (isSpace : Char → Bool) (text : List Char) : Bool :=
  (text.map foldAscii).tails.any fun rest =>
    (after "~/.ssh" rest).isSome || (after "id_rsa" rest).isSome ||
      (after ".aws/credentials" rest).isSome || apiKeyAt rest || curlAt isSpace rest ||
      foreignUrlAt isSpace rest

/-- `type(value).__name__` of what `json.loads` made, or of the `None` of a missing field. -/
def typeName : Option Json → String
  | none | some .null => "NoneType"
  | some (.bool _) => "bool"
  | some (.num literal) =>
    if literal.toList.all fun c => c.isDigit || c = '-' then "int" else "float"
  | some (.str _) => "str"
  | some (.arr _) => "list"
  | some (.obj _) => "dict"

/-- `_validate_sop`; an error is the reason. -/
def validateSop (py : PyText) (sop : Json) (descriptionMaxChars procedureMaxChars : Int) :
    Except String Unit :=
  match sop with
  | .obj fields =>
    match fields.lookup "name" with
    | some (.str name) =>
      if strip py.isSpace name.toList = [] then .error "missing or invalid 'name'"
      else if name.toList.length > 80 then .error "name too long (>80 chars)"
      else
        match fields.lookup "description" with
        | some (.str description) =>
          if description.toList.length > descriptionMaxChars then
            .error ("description too long (>" ++ toString descriptionMaxChars ++ " chars)")
          else
            match fields.lookup "procedure" with
            | some (.str procedure) =>
              if strip py.isSpace procedure.toList = [] then .error "procedure is empty"
              else if procedure.toList.length > procedureMaxChars then
                .error ("procedure too long (>" ++ toString procedureMaxChars ++ " chars)")
              else if dangerous py.isSpace (name ++ "\n" ++ description ++ "\n" ++ procedure).toList then
                .error "contains dangerous pattern (PII/credentials/external URL)"
              else .ok ()
            | other => .error ("'procedure' MUST be a string (got " ++ typeName other ++ ")")
        | _ => .error "'description' not a string"
    | _ => .error "missing or invalid 'name'"
  | _ => .error "not a dict"

/-! ## Format -/

/-- The three fields of a valid SOP. -/
structure SopFields where
  name : String
  description : String
  procedure : String
  deriving DecidableEq, Repr

def Json.sopFields? : Json → Option SopFields
  | .obj fields =>
    match fields.lookup "name", fields.lookup "description", fields.lookup "procedure" with
    | some (.str name), some (.str description), some (.str procedure) =>
      some { name, description, procedure }
    | _, _, _ => none
  | _ => none

namespace SopFields

def strippedName (py : PyText) (sop : SopFields) : List Char := strip py.isSpace sop.name.toList

def strippedDescription (py : PyText) (sop : SopFields) : List Char :=
  strip py.isSpace sop.description.toList

def strippedProcedure (py : PyText) (sop : SopFields) : List Char :=
  strip py.isSpace sop.procedure.toList

/-- The three fields, without the white space around them. -/
def content (py : PyText) (sop : SopFields) : String :=
  String.ofList (sop.strippedName py ++ '\n' ::
    (sop.strippedDescription py ++ '\n' :: sop.strippedProcedure py))

end SopFields

/-- `_format_sop_content`, which raises when a field is missing or no string. -/
def formatSopContent (py : PyText) (sop : Json) : Option String :=
  sop.sopFields?.map (SopFields.content py)

theorem sopFields?_of_valid {py : PyText} {sop : Json} {descriptionMax procedureMax : Int}
    (h : validateSop py sop descriptionMax procedureMax = .ok ()) :
    ∃ fields, sop.sopFields? = some fields ∧ fields.strippedName py ≠ [] ∧
      fields.strippedProcedure py ≠ [] := by
  unfold validateSop at h
  split at h
  · rename_i fields
    split at h
    · rename_i name hname
      split_ifs at h with hblank hlong
      split at h
      · rename_i description hdescription
        split_ifs at h with hdescriptionLong
        split at h
        · rename_i procedure hprocedure
          split_ifs at h with hempty
          refine ⟨{ name, description, procedure }, ?_, hblank, hempty⟩
          simp only [Json.sopFields?, hname, hdescription, hprocedure]
        · cases h
      · cases h
    · cases h
  · cases h

/-! ## Reading back -/

def firstLine (text : List Char) : List Char := text.takeWhile (· ≠ '\n')

theorem strip_firstLine (py : PyText) {text : List Char} (h : '\n' ∉ strip py.isSpace text) :
    strip py.isSpace (firstLine (strip py.isSpace text)) = strip py.isSpace text := by
  rw [firstLine, takeWhile_eq_self h, strip_strip]

theorem not_mem_strip_firstLine (py : PyText) (text : List Char) :
    '\n' ∉ strip py.isSpace (firstLine text) :=
  fun h => not_mem_takeWhile _ _ ((strip_isInfix _ _).subset h)

theorem not_mem_of_validSkillName {name : List Char} (h : validSkillName name = true) :
    '\n' ∉ name := by
  cases name with
  | nil => exact List.not_mem_nil
  | cons c rest =>
    simp only [validSkillName, Bool.and_eq_true, List.all_eq_true] at h
    obtain ⟨⟨⟨hfirst, hrest⟩, -⟩, -⟩ := h
    intro hmem
    rcases List.mem_cons.mp hmem with rfl | hmem
    · exact absurd hfirst (by decide)
    · exact absurd (hrest _ hmem) (by decide)

/-- What `parse_sop_content` makes of three parts joined by line breaks: its lines are the first line of
the first part, and of the others where there was no line break before. -/
theorem parseSopContent_join {py : PyText} {name : List Char} (description : List Char)
    {procedure : List Char} (hname : ∃ c ∈ name, py.isSpace c = false)
    (hprocedure : ∃ c ∈ procedure, py.isSpace c = false) :
    ∃ second third, parseSopContent py
        (String.ofList (name ++ '\n' :: (description ++ '\n' :: procedure))) =
        (if validSkillName (strip py.isSpace (firstLine name)) = true then
          some (String.ofList (strip py.isSpace (firstLine name)),
            String.ofList (strip py.isSpace second), String.ofList (strip py.isSpace third))
        else none) ∧
      '\n' ∉ second ∧
      ('\n' ∉ name → second = firstLine description ∧ ('\n' ∉ description → third = procedure)) := by
  obtain ⟨rest, hfirst, ⟨before, hbefore⟩, hrest⟩ :=
    splitFirst_singleton '\n' name (description ++ '\n' :: procedure)
  rw [← List.append_assoc] at hbefore
  obtain ⟨third, hsecond, hsuffix, hthird⟩ :=
    splitFirst_singleton '\n' (before ++ description) procedure
  rw [hbefore] at hsecond
  refine ⟨firstLine (before ++ description), third, ?_, not_mem_takeWhile _ _, fun hline => ?_⟩
  · have hblank : (name ++ '\n' :: (description ++ '\n' :: procedure)).all py.isSpace = false := by
      obtain ⟨c, hc, hspace⟩ := hname
      rw [List.all_eq_false]
      exact ⟨c, List.mem_append_left _ hc, by rw [hspace]; exact Bool.false_ne_true⟩
    have hempty : strip py.isSpace third ≠ [] := by
      obtain ⟨c, hc, hspace⟩ := hprocedure
      intro h
      rw [strip_eq_nil.mp h c (hsuffix.subset hc)] at hspace
      cases hspace
    unfold parseSopContent
    rw [String.toList_ofList, hblank, if_neg Bool.false_ne_true, hfirst]
    simp only [Option.bind_eq_bind, Option.bind_some, hsecond]
    by_cases hvalid : validSkillName (strip py.isSpace (firstLine name)) = true
    · rw [if_pos hvalid]
      exact if_pos ⟨hvalid, hempty⟩
    · rw [if_neg hvalid]
      exact if_neg fun h => hvalid h.1
  · have hnil : before = [] := by
      have hlength := congrArg List.length (hbefore.trans (hrest hline))
      simp only [List.length_append, List.length_cons] at hlength
      exact List.eq_nil_of_length_eq_zero (by omega)
    rw [hnil, List.nil_append] at hthird
    rw [hnil]
    exact ⟨rfl, hthird⟩

/-! ## The round trip -/

theorem exists_of_strip_ne_nil {p : Char → Bool} {text : List Char} (h : strip p text ≠ []) :
    ∃ c ∈ strip p text, p c = false := by
  by_contra hall
  have hblank : ∀ c ∈ strip p text, p c = true := by
    intro c hc
    cases hp : p c with
    | true => rfl
    | false => exact absurd ⟨c, hc, hp⟩ hall
  rw [← strip_eq_nil, strip_strip] at hblank
  exact h hblank

namespace SopFields

variable {py : PyText} {sop : SopFields}

/-- The fields have been read as `_format_sop_content` stripped them; or nothing has been read, and
the name is not in kebab case. -/
def ReadAs (py : PyText) (sop : SopFields) (read : Option (String × String × String)) : Prop :=
  read = some (String.ofList (sop.strippedName py), String.ofList (sop.strippedDescription py),
      String.ofList (sop.strippedProcedure py)) ∨
    read = none ∧ validSkillName (sop.strippedName py) = false

/-- The first line of the name is refused, or name and description are one line. -/
def OneLineEach (py : PyText) (sop : SopFields) : Prop :=
  validSkillName (strip py.isSpace (firstLine (sop.strippedName py))) = true →
    '\n' ∉ sop.strippedName py ∧ '\n' ∉ sop.strippedDescription py

theorem readAs_iff (hname : sop.strippedName py ≠ []) (hprocedure : sop.strippedProcedure py ≠ []) :
    sop.ReadAs py (parseSopContent py (sop.content py)) ↔ sop.OneLineEach py := by
  obtain ⟨second, third, hparse, hsecond, hlines⟩ :=
    parseSopContent_join (sop.strippedDescription py)
      (exists_of_strip_ne_nil hname) (exists_of_strip_ne_nil hprocedure)
  unfold ReadAs OneLineEach
  by_cases hvalid : validSkillName (strip py.isSpace (firstLine (sop.strippedName py))) = true
  · have hread := hparse.trans (if_pos hvalid)
    constructor
    · rintro (hsame | ⟨hnone, -⟩) -
      · -- neither the first line nor the second one has a line break in it
        have hfields := Option.some.inj (hread.symm.trans hsame)
        simp only [Prod.mk.injEq, String.ofList_inj] at hfields
        obtain ⟨hn, hd, -⟩ := hfields
        constructor
        · rw [← hn]
          exact not_mem_strip_firstLine py _
        · rw [← hd]
          exact fun h => hsecond ((strip_isInfix _ _).subset h)
      · exact absurd (hread.symm.trans hnone) (by simp)
    · intro hline
      obtain ⟨hn, hd⟩ := hline hvalid
      obtain ⟨rfl, hthird⟩ := hlines hn
      left
      refine hread.trans ?_
      rw [hthird hd, strippedName, strippedDescription, strip_firstLine py hn, strip_firstLine py hd,
        strippedProcedure, strip_strip]
  · -- the first line is refused, and so is a name that is one line
    have hread := hparse.trans (if_neg hvalid)
    refine iff_of_true (.inr ⟨hread, ?_⟩) fun hyes => absurd hyes hvalid
    cases hkebab : validSkillName (sop.strippedName py) with
    | false => rfl
    | true =>
      have hself := strip_firstLine py (not_mem_of_validSkillName hkebab)
      exact absurd (hself ▸ hkebab) hvalid

end SopFields

/-- What was stored of an SOP that the validator accepts reads back as the SOP exactly when its name and
its description are one line each, or the first line of its name is refused. -/
theorem sopContent_readBack_iff (py : PyText) (sop : Json)
    (descriptionMaxChars procedureMaxChars : Int)
    (h : validateSop py sop descriptionMaxChars procedureMaxChars = .ok ()) :
    (∃ fields content, sop.sopFields? = some fields ∧ formatSopContent py sop = some content ∧
      fields.ReadAs py (parseSopContent py content)) ↔
    ∀ fields ∈ sop.sopFields?, fields.OneLineEach py := by
  obtain ⟨fields, hfields, hname, hprocedure⟩ := sopFields?_of_valid h
  have hread := SopFields.readAs_iff hname hprocedure
  simp only [formatSopContent, hfields, Option.map_some, Option.some.injEq, Option.mem_some_iff,
    exists_and_left, exists_eq_left', forall_eq', hread]

def sopOf (name description procedure : String) : Json :=
  .obj [("name", .str name), ("description", .str description), ("procedure", .str procedure)]

def oneLineSop : Json := sopOf "deploy-app" "Deploy, then check." "Run the script."

theorem oneLineSop_readBack :
    validateSop .ascii oneLineSop 150 5000 = .ok () ∧
      ((∃ fields content, oneLineSop.sopFields? = some fields ∧
          formatSopContent .ascii oneLineSop = some content ∧
          fields.ReadAs .ascii (parseSopContent .ascii content)) ↔
        ∀ fields ∈ oneLineSop.sopFields?, fields.OneLineEach .ascii) :=
  have hvalid : validateSop .ascii oneLineSop 150 5000 = .ok () := by decide +kernel
  ⟨hvalid, sopContent_readBack_iff .ascii oneLineSop 150 5000 hvalid⟩

/-- The second line of the description becomes part of the procedure. -/
def twoLineSop : Json := sopOf "deploy-app" "Deploy.\nThen check." "Run the script."

theorem twoLineSop_not_readBack :
    ¬ ∀ (py : PyText) (sop : Json) (descriptionMaxChars procedureMaxChars : Int),
      validateSop py sop descriptionMaxChars procedureMaxChars = .ok () →
      ∃ fields content, sop.sopFields? = some fields ∧ formatSopContent py sop = some content ∧
        fields.ReadAs py (parseSopContent py content) := by
  intro h
  obtain ⟨fields, content, hfields, hformat, hread⟩ :=
    h .ascii twoLineSop 150 5000 (by decide +kernel)
  cases hfields
  cases hformat
  rcases hread with hsame | ⟨-, hname⟩
  · revert hsame
    decide +kernel
  · revert hname
    decide +kernel

end PyClaw
