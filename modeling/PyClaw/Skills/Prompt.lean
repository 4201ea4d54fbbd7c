import Mathlib.Algebra.BigOperators.Group.List.Basic
import Mathlib.Data.Nat.Digits.Defs
import PyClaw.Lib.Bisect
import PyClaw.Lib.Text
import PyClaw.Skills.Provider

/-!
# Skills.Prompt

`build_skills_prompt`: the skills as text, in full if that fits into the limit, else without the descriptions, and
then as many skills as fit. The number is found by a binary search on the length of the text.

* `length_formatSkills`: the length is a sum over the skills, so it grows with them.
* `count_formatSkillsCompact`: the count of tags that the warning states is the number of skills.
* `buildSkillsPrompt_fits`: the text fits, and the skills in it are as many as fit.
-/

namespace PyClaw

structure PromptSettings where
  maxSkillsInPrompt : Int := 150
  maxSkillsPromptChars : Int := 18000

def overheadReserve : Int := 150

def fullPreamble : String :=
  "\n\nThe following skills provide specialized instructions for specific tasks.\n" ++
    "Use the read tool to load a skill's file when the task matches its description.\n" ++
    "When a skill file references a relative path, resolve it against the skill " ++
    "directory (parent of SKILL.md / dirname of the path) and use that absolute " ++
    "path in tool commands."

def compactPreamble : String :=
  "\n\nThe following skills provide specialized instructions for specific tasks.\n" ++
    "Use the read tool to load a skill's file when the task matches its name.\n" ++
    "When a skill file references a relative path, resolve it against the skill " ++
    "directory (parent of SKILL.md / dirname of the path) and use that absolute " ++
    "path in tool commands."

/-- `_compact_home_path`. -/
def compactHomePath (home filePath : String) : String :=
  if (home ++ "/").toList.isPrefixOf filePath.toList then
    "~/" ++ String.ofList (filePath.toList.drop (home ++ "/").length)
  else filePath

/-- `_render_skill_full`. -/
def renderSkillFull (skill : Skill) : String :=
  String.intercalate "\n"
    ["  <skill>",
      "    <name>" ++ String.ofList (xmlEscape skill.name) ++ "</name>",
      "    <description>" ++ String.ofList (xmlEscape skill.description) ++ "</description>",
      "    <location>" ++ String.ofList (xmlEscape skill.filePath.toList) ++ "</location>",
      "  </skill>"]

/-- `_render_skill_compact`. -/
def renderSkillCompact (skill : Skill) : String :=
  String.intercalate "\n"
    ["  <skill>",
      "    <name>" ++ String.ofList (xmlEscape skill.name) ++ "</name>",
      "    <location>" ++ String.ofList (xmlEscape skill.filePath.toList) ++ "</location>",
      "  </skill>"]

def formatSkills (preamble : String) (render : Skill → String) (skills : List Skill) : String :=
  if skills.isEmpty then ""
  else
    String.intercalate "\n" ([preamble, "", "<available_skills>"] ++ skills.map render ++
      ["</available_skills>"])

def formatSkillsFull : List Skill → String := formatSkills fullPreamble renderSkillFull

def formatSkillsCompact : List Skill → String := formatSkills compactPreamble renderSkillCompact

/-- `str.count` for a text that is not empty: `skip` characters belong to the occurrence before. -/
def countFrom (sub : List Char) : Nat → List Char → Nat
  | _, [] => 0
  | skip + 1, _ :: l => countFrom sub skip l
  | 0, c :: l =>
    if sub.isPrefixOf (c :: l) then 1 + countFrom sub (sub.length - 1) l else countFrom sub 0 l

def countTags (text : String) : Nat := countFrom "<skill>".toList 0 text.toList

def truncationWarning (included total : Nat) : String :=
  "⚠️ Skills truncated: included " ++ toString included ++ " of " ++ toString total ++
    " (compact format, descriptions omitted)."

def compactWarning : String := "⚠️ Skills catalog using compact format (descriptions omitted)."

def withWarning (warning rendered : String) : String :=
  if rendered = "" then warning else warning ++ "\n" ++ rendered

/-- The skills by name, with the home directory of their paths shortened. -/
def compactedSkills (home : String) (skills : List Skill) : List Skill :=
  (skills.insertionSort fun a b => a.name ≤ b.name).map fun s =>
    { s with filePath := compactHomePath home s.filePath }

/-- The first `max_skills_in_prompt` of them. -/
def promptSkills (home : String) (settings : PromptSettings) (skills : List Skill) : List Skill :=
  let compacted := compactedSkills home skills
  if settings.maxSkillsInPrompt < compacted.length then sliceTo settings.maxSkillsInPrompt compacted
  else compacted

/-- `fuel` bounds the rounds of the search; the middle of two numbers below 2^52 is exact as a float. -/
def buildSkillsPrompt (fuel : Nat) (home : String) (settings : PromptSettings) (skills : List Skill) :
    Option String :=
  if skills.isEmpty then some ""
  else
    let total := skills.length
    let compacted := promptSkills home settings skills
    let fullText := formatSkillsFull compacted
    if (fullText.length : Int) ≤ settings.maxSkillsPromptChars then some fullText
    else
      let compactBudget := settings.maxSkillsPromptChars - overheadReserve
      let compactText := formatSkillsCompact compacted
      if (compactText.length : Int) ≤ compactBudget then
        if settings.maxSkillsInPrompt < total then
          some (withWarning (truncationWarning (countTags compactText) total) compactText)
        else some (withWarning compactWarning compactText)
      else
        (bisect (fun mid => (formatSkillsCompact (compacted.take mid)).length ≤ compactBudget) fuel 0
          compacted.length 0).map fun best =>
            let rendered := if 0 < best then formatSkillsCompact (compacted.take best) else ""
            withWarning (truncationWarning (countTags rendered) total) rendered

/-! ## Lengths -/

section
variable {skills : List Skill} {preamble : String} {render : Skill → String}

theorem length_intercalate (sep : String) {parts : List String} (h : parts ≠ []) :
    (String.intercalate sep parts).length + sep.length = (parts.map fun p => p.length + sep.length).sum := by
  induction parts with
  | nil => exact absurd rfl h
  | cons p rest ih =>
    cases rest with
    | nil => simp
    | cons q rest =>
      rw [String.intercalate_cons_cons, List.map_cons, List.sum_cons, ← ih (List.cons_ne_nil _ _)]
      simp only [String.length_append]
      omega

theorem length_append_five (a b c d e : String) :
    (a ++ b ++ c ++ d ++ e).length = a.length + b.length + c.length + d.length + e.length := by
  simp only [String.length_append]

theorem length_formatSkills (h : skills ≠ []) :
    (formatSkills preamble render skills).length =
      preamble.length + 40 + (skills.map fun s => (render s).length + 1).sum := by
  have hempty : skills.isEmpty = false := by simpa using h
  have hparts : [preamble, "", "<available_skills>"] ++ skills.map render ++ ["</available_skills>"] ≠ [] := by
    simp
  have hlen := length_intercalate "\n" hparts
  rw [List.map_append, List.map_append, List.sum_append, List.sum_append, List.map_map] at hlen
  have hopen : "<available_skills>".length = 18 := by decide
  have hclose : "</available_skills>".length = 19 := by decide
  have hbreak : "\n".length = 1 := by decide
  simp only [List.map_cons, List.map_nil, List.sum_cons, List.sum_nil, hopen, hclose, hbreak,
    String.length_empty] at hlen
  simp only [formatSkills, hempty, Bool.false_eq_true, if_false]
  have hsum : (skills.map ((fun p : String => p.length + 1) ∘ render)).sum =
      (skills.map fun s => (render s).length + 1).sum := rfl
  omega

theorem length_formatSkills_singleton (preamble : String) (render : Skill → String) (skill : Skill) :
    (formatSkills preamble render [skill]).length = preamble.length + 41 + (render skill).length := by
  rw [length_formatSkills (List.cons_ne_nil _ _), List.map_cons, List.map_nil, List.sum_cons, List.sum_nil]
  omega

theorem length_formatSkills_take_le {m k : Nat} (hpos : 0 < m) (hle : m ≤ k) :
    (formatSkills preamble render (skills.take m)).length ≤
      (formatSkills preamble render (skills.take k)).length := by
  cases skills with
  | nil => simp
  | cons s rest =>
    have hm : (s :: rest).take m ≠ [] := by simpa using Nat.ne_of_gt hpos
    have hk : (s :: rest).take k ≠ [] := by simpa using Nat.ne_of_gt (Nat.lt_of_lt_of_le hpos hle)
    have hsplit : (s :: rest).take k = (s :: rest).take m ++ ((s :: rest).take k).drop m := by
      conv_lhs => rw [← List.take_append_drop m ((s :: rest).take k), List.take_take, Nat.min_eq_left hle]
    rw [length_formatSkills hm, length_formatSkills hk]
    rw [hsplit, List.map_append, List.sum_append]
    omega

end

/-! ## Counting tags -/

/-- In front of any text, `a` adds `k` to the count. -/
def Counts (a : List Char) (k : Nat) : Prop :=
  ∀ b, countFrom "<skill>".toList 0 (a ++ b) = k + countFrom "<skill>".toList 0 b

/-- No `<` is the last character or stands before an `s`. -/
def untagged : List Char → Bool
  | [] => true
  | [c] => c ≠ '<'
  | c :: d :: rest => (c ≠ '<' || d ≠ 's') && untagged (d :: rest)

theorem not_prefix_of_untagged {c : Char} {rest b : List Char} (h : untagged (c :: rest) = true) :
    "<skill>".toList.isPrefixOf (c :: (rest ++ b)) = false := by
  cases rest with
  | nil =>
    have hc : c ≠ '<' := by simpa [untagged] using h
    simp [List.isPrefixOf, Ne.symm hc]
  | cons d rest =>
    simp only [untagged, Bool.and_eq_true, Bool.or_eq_true, decide_eq_true_eq] at h
    rcases h.1 with hc | hd
    · simp [List.isPrefixOf, Ne.symm hc]
    · simp [List.isPrefixOf, Ne.symm hd]

theorem untagged_tail {c : Char} {rest : List Char} (h : untagged (c :: rest) = true) :
    untagged rest = true := by
  cases rest with
  | nil => rfl
  | cons d rest =>
    simp only [untagged, Bool.and_eq_true] at h
    exact h.2

theorem counts_of_untagged {a : List Char} (h : untagged a = true) : Counts a 0 := by
  intro b
  rw [Nat.zero_add]
  induction a with
  | nil => rfl
  | cons c rest ih =>
    rw [List.cons_append, countFrom, not_prefix_of_untagged h]
    exact ih (untagged_tail h)

theorem untagged_of_not_mem {a : List Char} (h : '<' ∉ a) : untagged a = true := by
  induction a with
  | nil => rfl
  | cons c rest ih =>
    have hc : c ≠ '<' := fun heq => h (heq ▸ List.mem_cons_self)
    have hrest : untagged rest = true := ih fun hmem => h (List.mem_cons_of_mem _ hmem)
    cases rest with
    | nil => simpa [untagged] using hc
    | cons d rest => simpa [untagged, hc] using hrest

theorem Counts.append {a a' : List Char} {k k' : Nat} (h : Counts a k) (h' : Counts a' k') :
    Counts (a ++ a') (k + k') := by
  intro b
  rw [List.append_assoc, h, h', Nat.add_assoc]

theorem counts_tag : Counts "<skill>".toList 1 := by
  intro b
  rfl

theorem counts_intercalate {sep : List Char} (hsep : Counts sep 0) {parts : List (List Char)}
    {ks : List Nat} (h : List.Forall₂ Counts parts ks) : Counts (sep.intercalate parts) ks.sum := by
  induction h with
  | nil => exact counts_of_untagged rfl
  | @cons p k rest ks hp hrest ih =>
    cases hrest with
    | nil => simpa using hp
    | cons hq hrest =>
      rw [List.intercalate_cons_cons, List.sum_cons]
      have := (hp.append hsep).append ih
      rwa [Nat.add_zero] at this

theorem mem_xmlEscape (l : List Char) : '<' ∉ xmlEscape l := by
  intro h
  obtain ⟨c, -, hc⟩ := List.mem_flatMap.mp h
  split at hc
  case h_6 hlt _ _ _ => exact hlt (List.mem_singleton.mp hc).symm
  all_goals simp at hc

theorem counts_xmlEscape (l : List Char) : Counts (xmlEscape l) 0 :=
  counts_of_untagged (untagged_of_not_mem (mem_xmlEscape l))

theorem counts_renderSkillCompact (skill : Skill) : Counts (renderSkillCompact skill).toList 1 := by
  have hshape : (renderSkillCompact skill).toList =
      "  ".toList ++ "<skill>".toList ++ "\n    <name>".toList ++ xmlEscape skill.name ++
        "</name>\n    <location>".toList ++ xmlEscape skill.filePath.toList ++
        "</location>\n  </skill>".toList := by
    simp [renderSkillCompact]
  rw [hshape]
  have hopen := (counts_of_untagged (a := "  ".toList) (by decide)).append counts_tag
  have hname := (hopen.append (counts_of_untagged (a := "\n    <name>".toList) (by decide))).append
    (counts_xmlEscape skill.name)
  have hlocation := (hname.append
    (counts_of_untagged (a := "</name>\n    <location>".toList) (by decide))).append
    (counts_xmlEscape skill.filePath.toList)
  exact hlocation.append (counts_of_untagged (a := "</location>\n  </skill>".toList) (by decide))

theorem counts_append {a b : String} (ha : Counts a.toList 0) (hb : Counts b.toList 0) :
    Counts (a ++ b).toList 0 := by
  rw [String.toList_append]
  exact ha.append hb

theorem counts_compactPreamble : Counts compactPreamble.toList 0 := by
  refine counts_append (counts_append (counts_append (counts_append ?_ ?_) ?_) ?_) ?_
  all_goals
    apply counts_of_untagged
    decide +kernel

theorem forall₂_counts_compact (skills : List Skill) :
    List.Forall₂ Counts (skills.map fun s => (renderSkillCompact s).toList) (skills.map fun _ => 1) := by
  induction skills with
  | nil => exact .nil
  | cons s rest ih => exact .cons (counts_renderSkillCompact s) ih

theorem countTags_formatSkillsCompact (skills : List Skill) :
    countTags (formatSkillsCompact skills) = skills.length := by
  cases hskills : skills with
  | nil => decide
  | cons s rest =>
    have hends : List.Forall₂ Counts
        ([compactPreamble, "", "<available_skills>"].map String.toList ++
          (skills.map fun s => (renderSkillCompact s).toList) ++ ["</available_skills>".toList])
        ([0, 0, 0] ++ (skills.map fun _ => 1) ++ [0]) := by
      have hfront : List.Forall₂ Counts ([compactPreamble, "", "<available_skills>"].map String.toList)
          [0, 0, 0] := by
        refine .cons counts_compactPreamble (.cons (counts_of_untagged ?_)
          (.cons (counts_of_untagged ?_) .nil))
        all_goals decide
      refine List.rel_append (List.rel_append hfront (forall₂_counts_compact skills)) (.cons ?_ .nil)
      exact counts_of_untagged (by decide)
    have hcount := counts_intercalate (counts_of_untagged (a := "\n".toList) (by decide)) hends []
    have hempty : skills.isEmpty = false := by rw [hskills]; rfl
    have htext : (formatSkillsCompact skills).toList = "\n".toList.intercalate
        ([compactPreamble, "", "<available_skills>"].map String.toList ++
          (skills.map fun s => (renderSkillCompact s).toList) ++ ["</available_skills>".toList]) := by
      simp only [formatSkillsCompact, formatSkills, hempty, Bool.false_eq_true, if_false,
        String.toList_intercalate, List.map_append, List.map_map]
      rfl
    rw [← hskills, countTags, htext]
    rw [List.append_nil] at hcount
    rw [hcount]
    simp [countFrom]

/-! ## The prompt -/

theorem length_toString_le {n : Nat} (h : n < 2 ^ 52) : (toString n).length ≤ 16 :=
  Nat.repr_length n 16 (by decide) (by omega)

theorem length_truncationWarning_lt {included total : Nat} (hincluded : included ≤ total)
    (htotal : total < 2 ^ 52) : (truncationWarning included total).length < 150 := by
  have hinc := length_toString_le (Nat.lt_of_le_of_lt hincluded htotal)
  have htot := length_toString_le htotal
  have hfirst : "⚠️ Skills truncated: included ".length = 30 := by decide +kernel
  have hlast : " (compact format, descriptions omitted).".length = 40 := by decide +kernel
  have hof : " of ".length = 4 := by decide
  have hlength : (truncationWarning included total).length =
      "⚠️ Skills truncated: included ".length + (toString included).length + " of ".length +
        (toString total).length + " (compact format, descriptions omitted).".length :=
    length_append_five _ _ _ _ _
  generalize "⚠️ Skills truncated: included ".length = first at *
  generalize " (compact format, descriptions omitted).".length = last at *
  omega

theorem length_compactWarning : compactWarning.length = 62 := by decide +kernel

theorem length_withWarning (warning : String) {rendered : String} (h : rendered ≠ "") :
    (withWarning warning rendered).length = warning.length + 1 + rendered.length := by
  rw [withWarning, if_neg h, String.length_append, String.length_append]
  rfl

theorem length_withWarning_le (warning rendered : String) :
    (withWarning warning rendered).length ≤ warning.length + 1 + rendered.length := by
  by_cases h : rendered = ""
  · rw [withWarning, if_pos h]
    omega
  · rw [length_withWarning warning h]

theorem length_promptSkills_le (home : String) (settings : PromptSettings) (skills : List Skill) :
    (promptSkills home settings skills).length ≤ skills.length := by
  have hall : (compactedSkills home skills).length = skills.length := by
    simp [compactedSkills, List.length_insertionSort]
  unfold promptSkills
  simp only [hall]
  split
  · unfold sliceTo
    split
    all_goals
      simp only [List.length_take, hall]
      omega
  · exact Nat.le_of_eq hall

theorem length_promptSkills_lt_iff (home : String) (settings : PromptSettings) {skills : List Skill}
    (h : skills ≠ []) :
    (promptSkills home settings skills).length < skills.length ↔
      settings.maxSkillsInPrompt < skills.length := by
  have hall : (compactedSkills home skills).length = skills.length := by
    simp [compactedSkills, List.length_insertionSort]
  have hpos := List.length_pos_of_ne_nil h
  unfold promptSkills
  simp only [hall]
  split
  · unfold sliceTo
    split
    all_goals
      simp only [List.length_take, hall]
      omega
  · simp only [hall]
    omega

/-- The first `n` skills are as many as fit into the budget in compact form. -/
structure LongestFitting (budget : Int) (first : List Skill) (n : Nat) : Prop where
  le : n ≤ first.length
  fits : ((formatSkillsCompact (first.take n)).length : Int) ≤ budget
  longest : ∀ m, n < m → m ≤ first.length → budget < (formatSkillsCompact (first.take m)).length

theorem rendered_eq (first : List Skill) (best : Nat) :
    (if 0 < best then formatSkillsCompact (first.take best) else "") =
      formatSkillsCompact (first.take best) := by
  split
  · rfl
  · have : best = 0 := by omega
    rw [this]
    rfl

section
variable (home : String) (settings : PromptSettings) {skills : List Skill}

/-- The text in compact form, with `n` of the skills. -/
def compactPrompt (home : String) (settings : PromptSettings) (skills : List Skill) (n : Nat) : String :=
  withWarning (if n < skills.length then truncationWarning n skills.length else compactWarning)
    (formatSkillsCompact ((promptSkills home settings skills).take n))

/-- In the end the search has found the greatest number that fits. -/
theorem search_longestFitting (first : List Skill) {budget : Int} (hbudget : 0 ≤ budget) :
    ∃ n, LongestFitting budget first n ∧ ∀ fuel, first.length + 1 < fuel →
      bisect (fun mid => (formatSkillsCompact (first.take mid)).length ≤ budget) fuel 0 first.length 0 =
        some n := by
  have hmono : ∀ m k, 0 < m → m ≤ k →
      decide (((formatSkillsCompact (first.take k)).length : Int) ≤ budget) = true →
        decide (((formatSkillsCompact (first.take m)).length : Int) ≤ budget) = true := by
    intro m k hpos hle hk
    have hlength : (formatSkillsCompact (first.take m)).length ≤ (formatSkillsCompact (first.take k)).length :=
      length_formatSkills_take_le hpos hle
    rw [decide_eq_true_eq] at *
    omega
  obtain ⟨n, hn, hend⟩ := bisect_greatest hmono first.length
  refine ⟨n, ⟨hn.le, ?_, fun m hlt hle => ?_⟩, hend⟩
  · rcases hn.fitting with rfl | hfits
    · exact hbudget
    · simpa using hfits
  · simpa using hn.greatest m hlt hle

theorem length_compactPrompt_le {n : Nat} (hlen : skills.length < 2 ^ 52)
    (hfits : ((formatSkillsCompact ((promptSkills home settings skills).take n)).length : Int) ≤
      settings.maxSkillsPromptChars - overheadReserve) :
    ((compactPrompt home settings skills n).length : Int) ≤ settings.maxSkillsPromptChars := by
  have htext := length_withWarning_le
    (if n < skills.length then truncationWarning n skills.length else compactWarning)
    (formatSkillsCompact ((promptSkills home settings skills).take n))
  have hwarning :
      (if n < skills.length then truncationWarning n skills.length else compactWarning).length < 150 := by
    split
    · exact length_truncationWarning_lt (by omega) hlen
    · rw [length_compactWarning]
      decide
  unfold compactPrompt
  unfold overheadReserve at hfits
  omega

/-- Where the full form does not fit, the text is the compact form of as many skills as fit. -/
theorem buildSkillsPrompt_compact (hne : skills ≠ []) (hlimit : 150 ≤ settings.maxSkillsPromptChars)
    (hfull : settings.maxSkillsPromptChars < (formatSkillsFull (promptSkills home settings skills)).length) :
    ∃ n, LongestFitting (settings.maxSkillsPromptChars - overheadReserve)
        (promptSkills home settings skills) n ∧
      ∀ fuel, skills.length + 1 < fuel →
        buildSkillsPrompt fuel home settings skills = some (compactPrompt home settings skills n) := by
  have hempty : skills.isEmpty = false := by simpa using hne
  have hle := length_promptSkills_le home settings skills
  have hlt := length_promptSkills_lt_iff home settings hne
  by_cases hall : ((formatSkillsCompact (promptSkills home settings skills)).length : Int) ≤
      settings.maxSkillsPromptChars - overheadReserve
  · -- all of the first skills fit: nothing is searched
    refine ⟨(promptSkills home settings skills).length, ⟨Nat.le_refl _, ?_, fun m h h' => ?_⟩,
      fun fuel _ => ?_⟩
    · rwa [List.take_length]
    · exact absurd h (Nat.not_lt.mpr h')
    · simp only [buildSkillsPrompt, hempty, Bool.false_eq_true, if_false, if_neg (Int.not_le.mpr hfull),
        if_pos hall, compactPrompt, List.take_length, countTags_formatSkillsCompact, hlt]
      split <;> rfl
  · have hbudget : 0 ≤ settings.maxSkillsPromptChars - overheadReserve := Int.sub_nonneg.mpr hlimit
    obtain ⟨n, hn, hend⟩ := search_longestFitting (promptSkills home settings skills) hbudget
    refine ⟨n, hn, fun fuel hfuel => ?_⟩
    have hnot : n ≠ (promptSkills home settings skills).length := by
      rintro rfl
      exact hall (by simpa using hn.fits)
    have hcut : n < skills.length := by
      have := hn.le
      omega
    simp only [buildSkillsPrompt, hempty, Bool.false_eq_true, if_false, if_neg (Int.not_le.mpr hfull),
      if_neg hall, hend fuel (by omega), Option.map_some, rendered_eq,
      countTags_formatSkillsCompact, List.length_take, Nat.min_eq_left hn.le, compactPrompt, if_pos hcut]

/-- The search ends and the text fits. Where the full form does not, it holds the longest prefix of the skills that
fits in compact form, and the note states their number if some are left out. -/
theorem buildSkillsPrompt_fits (skills : List Skill) (hlimit : 150 ≤ settings.maxSkillsPromptChars)
    (hlen : skills.length < 2 ^ 52) :
    ∃ text, (∀ fuel, skills.length + 1 < fuel → buildSkillsPrompt fuel home settings skills = some text) ∧
      (text.length : Int) ≤ settings.maxSkillsPromptChars ∧
      (settings.maxSkillsPromptChars < (formatSkillsFull (promptSkills home settings skills)).length →
        ∃ n, LongestFitting (settings.maxSkillsPromptChars - overheadReserve)
            (promptSkills home settings skills) n ∧
          text = withWarning
            (if n < skills.length then truncationWarning n skills.length else compactWarning)
            (formatSkillsCompact ((promptSkills home settings skills).take n))) := by
  by_cases hne : skills = []
  · subst hne
    refine ⟨"", fun fuel _ => rfl, Int.le_trans (by decide) hlimit, fun hfull => ?_⟩
    have : promptSkills home settings [] = [] := by
      have := length_promptSkills_le home settings []
      exact List.eq_nil_of_length_eq_zero (Nat.le_zero.mp this)
    rw [this] at hfull
    have hzero : (formatSkillsFull []).length = 0 := rfl
    omega
  · by_cases hfull : settings.maxSkillsPromptChars <
        (formatSkillsFull (promptSkills home settings skills)).length
    · obtain ⟨n, hn, htext⟩ := buildSkillsPrompt_compact home settings hne hlimit hfull
      exact ⟨_, htext, length_compactPrompt_le home settings hlen hn.fits, fun _ => ⟨n, hn, rfl⟩⟩
    · have hempty : skills.isEmpty = false := by simpa using hne
      refine ⟨formatSkillsFull (promptSkills home settings skills), fun fuel _ => ?_,
        Int.not_lt.mp hfull, fun h => absurd h hfull⟩
      simp only [buildSkillsPrompt, hempty, Bool.false_eq_true, if_false, if_pos (Int.not_lt.mp hfull)]

end

/-! ## A note without a number -/

theorem length_fullPreamble : fullPreamble.length = compactPreamble.length + 7 := by
  have hfull : "Use the read tool to load a skill's file when the task matches its description.\n".length = 80 := by
    decide +kernel
  have hcompact : "Use the read tool to load a skill's file when the task matches its name.\n".length = 73 := by
    decide +kernel
  have hlength : fullPreamble.length = _ := length_append_five _ _ _ _ _
  have hlength' : compactPreamble.length = _ := length_append_five _ _ _ _ _
  rw [hlength, hlength', hfull, hcompact]
  omega

theorem length_renderSkillFull (skill : Skill) :
    (renderSkillFull skill).length =
      (renderSkillCompact skill).length + (xmlEscape skill.description).length + 32 := by
  have hfull : (renderSkillFull skill).length + 1 = _ := length_intercalate "\n" (List.cons_ne_nil _ _)
  have hcompact : (renderSkillCompact skill).length + 1 = _ :=
    length_intercalate "\n" (List.cons_ne_nil _ _)
  have hline : ("    <description>" ++ String.ofList (xmlEscape skill.description) ++ "</description>").length =
      (xmlEscape skill.description).length + 31 := by
    have hopen : "    <description>".length = 17 := by decide
    have hclose : "</description>".length = 14 := by decide
    rw [String.length_append, String.length_append, hopen, hclose, String.length_ofList]
    omega
  have hbreak : "\n".length = 1 := by decide
  simp only [List.map_cons, List.map_nil, List.sum_cons, List.sum_nil, hline, hbreak] at hfull hcompact
  omega

/-- A skill whose description is longer than the reserve. -/
def wordySkill : Skill where
  name := "n".toList
  description := List.replicate 200 'a'
  filePath := "/s/SKILL.md"
  body := []
  autoGenerated := false
  lifecycle := "active".toList
  generatedAt := none
  sourceSession := none

/-- Room for the compact form of it. -/
def wordySettings : PromptSettings where
  maxSkillsPromptChars := (formatSkillsCompact [wordySkill]).length + overheadReserve

theorem promptSkills_wordy : promptSkills "/root" wordySettings [wordySkill] = [wordySkill] := by
  rfl

theorem wordy_limit : 150 ≤ wordySettings.maxSkillsPromptChars := by
  simp only [wordySettings, overheadReserve]
  omega

theorem wordy_budget : wordySettings.maxSkillsPromptChars - overheadReserve =
    (formatSkillsCompact [wordySkill]).length := by
  simp only [wordySettings]
  omega

theorem wordy_full : wordySettings.maxSkillsPromptChars < (formatSkillsFull [wordySkill]).length := by
  have hfull := length_formatSkills_singleton fullPreamble renderSkillFull wordySkill
  have hcompact := length_formatSkills_singleton compactPreamble renderSkillCompact wordySkill
  have hbudget := wordy_budget
  have hescape : (xmlEscape wordySkill.description).length = 200 := by decide +kernel
  rw [length_renderSkillFull, length_fullPreamble, hescape] at hfull
  unfold overheadReserve formatSkillsCompact at hbudget
  unfold formatSkillsFull
  omega

theorem wordySkill_fits : ∃ text,
    (∀ fuel, 2 < fuel → buildSkillsPrompt fuel "/root" wordySettings [wordySkill] = some text) ∧
      (text.length : Int) ≤ wordySettings.maxSkillsPromptChars ∧
      (wordySettings.maxSkillsPromptChars <
          (formatSkillsFull (promptSkills "/root" wordySettings [wordySkill])).length →
        ∃ n, LongestFitting (wordySettings.maxSkillsPromptChars - overheadReserve)
            (promptSkills "/root" wordySettings [wordySkill]) n ∧
          text = withWarning (if n < 1 then truncationWarning n 1 else compactWarning)
            (formatSkillsCompact ((promptSkills "/root" wordySettings [wordySkill]).take n))) :=
  buildSkillsPrompt_fits "/root" wordySettings [wordySkill] wordy_limit (by decide)

/-- The compact form holds the skill, and the note says no number. -/
theorem wordySkill_no_number : ¬ ∀ home settings skills, 150 ≤ settings.maxSkillsPromptChars →
    settings.maxSkillsPromptChars < (formatSkillsFull (promptSkills home settings skills)).length →
    ∀ n, LongestFitting (settings.maxSkillsPromptChars - overheadReserve)
      (promptSkills home settings skills) n →
    ∀ fuel, skills.length + 1 < fuel → buildSkillsPrompt fuel home settings skills =
      some (withWarning (truncationWarning n skills.length)
        (formatSkillsCompact ((promptSkills home settings skills).take n))) := by
  intro h
  have hfits : LongestFitting (wordySettings.maxSkillsPromptChars - overheadReserve)
      (promptSkills "/root" wordySettings [wordySkill]) 1 := by
    refine ⟨Nat.le_refl 1, ?_, fun m hlt hle => absurd hlt (Nat.not_lt.mpr hle)⟩
    rw [promptSkills_wordy, wordy_budget, List.take_succ_cons, List.take_zero]
  have htext := h "/root" wordySettings [wordySkill] wordy_limit (promptSkills_wordy ▸ wordy_full) 1
    hfits 3 (by decide)
  have hbuild : buildSkillsPrompt 3 "/root" wordySettings [wordySkill] =
      some (withWarning compactWarning (formatSkillsCompact [wordySkill])) := by
    have hempty : [wordySkill].isEmpty = false := rfl
    have hmax : ¬ wordySettings.maxSkillsInPrompt < ([wordySkill].length : Int) := by decide
    simp only [buildSkillsPrompt, hempty, Bool.false_eq_true, if_false, promptSkills_wordy,
      if_neg (Int.not_le.mpr wordy_full), wordy_budget, Int.le_refl, if_true, if_neg hmax]
  rw [hbuild, promptSkills_wordy, List.take_succ_cons, List.take_zero, Option.some.injEq] at htext
  have hne : formatSkillsCompact [wordySkill] ≠ "" := by
    intro hempty
    have hlength := length_formatSkills_singleton compactPreamble renderSkillCompact wordySkill
    rw [← formatSkillsCompact, hempty, String.length_empty] at hlength
    omega
  have hlength := congrArg String.length htext
  have hnote : (truncationWarning 1 1).length = 76 := by decide +kernel
  rw [length_withWarning _ hne, length_withWarning _ hne, length_compactWarning] at hlength
  have hone : [wordySkill].length = 1 := rfl
  rw [hone, hnote] at hlength
  omega

end PyClaw
