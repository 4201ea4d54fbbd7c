import PyClaw.Curator.Operations
import PyClaw.Lib.Yaml

/-!
# Curator.SkillFile

The `SKILL.md` of a graduated skill: `generate_skill_md_template` writes it, `parse_skill_file` reads it
back as front matter, which a YAML loader reads, and body.
-/

namespace PyClaw

/-! ## Writing -/

/-- The text of `strftime("%Y-%m-%dT%H:%M:%SZ")`. -/
structure UtcStamp where
  text : List Char
  chars : ∀ c ∈ text, c.isDigit = true ∨ c ∈ "-T:Z".toList
  begins : ∃ c rest, text = c :: rest ∧ c.isDigit = true
  noDelimiter : ¬ "---".toList <:+: text

/-- What stands between the two delimiters. -/
def frontmatterText (name description sessionKey : List Char) (generatedAt : UtcStamp) : List Char :=
  "\nname: ".toList ++ name ++ "\ndescription: \"".toList ++ replaceEach '"' "\\\"".toList description ++
    "\"\nauto_generated: true\nlifecycle: active\ngenerated_at: \"".toList ++ generatedAt.text ++
    "\"\nsource_session: \"".toList ++ sessionKey ++ "\"\n".toList

def bodyText (name description procedure : List Char) : List Char :=
  "\n\n# ".toList ++ name ++ "\n\n".toList ++ description ++ "\n\n## Procedure\n\n".toList ++ procedure ++
    "\n".toList

def generateSkillMdTemplate (name description procedure sessionKey : List Char)
    (generatedAt : UtcStamp) : List Char :=
  "---".toList ++ frontmatterText name description sessionKey generatedAt ++ "---".toList ++
    bodyText name description procedure

/-! ## Reading -/

/-- What `read_text` makes of the line endings `\r\n` and `\r`. -/
def universalNewlines : List Char → List Char
  | '\r' :: '\n' :: rest => '\n' :: universalNewlines rest
  | '\r' :: rest => '\n' :: universalNewlines rest
  | c :: rest => c :: universalNewlines rest
  | [] => []

/-- `_extract_frontmatter`. -/
def extractFrontmatter (py : PyText) (content : List Char) : Except String (List Char × List Char) :=
  if "---".toList <+: content then
    match splitFirst "---".toList (content.drop 3) with
    | some (front, body) => .ok (strip py.isSpace front, strip py.isSpace body)
    | none => .error "No closing --- for YAML frontmatter"
  else .error "No YAML frontmatter found (file must start with ---)"

/-- `SkillManifest`, without the path and what `metadata` gives. -/
structure SkillManifest where
  name : List Char
  description : List Char
  body : List Char
  autoGenerated : Bool
  lifecycle : List Char
  generatedAt : Option (List Char)
  sourceSession : Option (List Char)

namespace YamlValue

def lookup (key : String) (entries : List (List Char × YamlValue)) : Option YamlValue :=
  (entries.find? fun e => e.1 = key.toList).map Prod.snd

/-- A field that has to be a string. -/
def asStr (field : String) : YamlValue → Except String (List Char)
  | .str s => .ok s
  | _ => .error (field ++ ": Input should be a valid string")

def asOptionalStr (field : String) : Option YamlValue → Except String (Option (List Char))
  | none | some .null => .ok none
  | some v => (v.asStr field).map some

end YamlValue

/-- `SkillManifest(...)` of the front matter. -/
def skillManifest (parentName : List Char) (entries : List (List Char × YamlValue)) (body : List Char) :
    Except String SkillManifest := do
  let name :=
    match YamlValue.lookup "name" entries with
    | some v => if v.truthy then v else .str parentName
    | none => .str parentName
  return {
    name := ← name.asStr "name"
    description := ← ((YamlValue.lookup "description" entries).getD (.str [])).asStr "description"
    body := body
    autoGenerated := ((YamlValue.lookup "auto_generated" entries).getD (.bool false)).truthy
    lifecycle := ← ((YamlValue.lookup "lifecycle" entries).getD (.str "active".toList)).asStr "lifecycle"
    generatedAt := ← YamlValue.asOptionalStr "generated_at" (YamlValue.lookup "generated_at" entries)
    sourceSession := ← YamlValue.asOptionalStr "source_session" (YamlValue.lookup "source_session" entries) }

/-- `parse_skill_file` of a file in the directory `parentName`. -/
def parseSkillFile (py : PyText) (yaml : YamlLoader) (parentName file : List Char) :
    Except String SkillManifest := do
  let (front, body) ← extractFrontmatter py (universalNewlines file)
  match yaml.safeLoad front with
  | .error e => .error ("Invalid YAML: " ++ e)
  | .ok (.map entries) => skillManifest parentName entries body
  | .ok _ => .error "Frontmatter is not a YAML mapping"

end PyClaw
