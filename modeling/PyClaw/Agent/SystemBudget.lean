import Mathlib.Algebra.BigOperators.Group.List.Basic
import Mathlib.Algebra.Order.Group.Int
import Mathlib.Algebra.Ring.Int.Defs
import Mathlib.Data.List.Infix
import Mathlib.Data.List.Nodup

/-!
# Agent.SystemBudget

The token budget of the system prompt (`enforce_system_budget`, `core/agent/system_prompt.py`). A section
is estimated at a quarter of its characters, rounded down, and the sections are emptied in the order of
`truncationPriority` until the overflow is gone; the last one visited is cut by what is left of it.

* `truncate_total`: visiting a section takes exactly as many tokens out of the prompt as out of the overflow.
* `Truncation`: the loop invariant, with the sections so far as an image of the given ones.
* `enforceSystemBudget_truncates`: what holds of the sections that are returned.
* `buildFrozenPrefix_le`: the prefix that the agent sends exceeds the budget only by identity and tools.
-/

namespace PyClaw

structure PromptSection where
  name : String
  text : List Char
  truncatable : Bool := true
  deriving DecidableEq, Repr

namespace PromptSection

/-- `len(text) // 4`, set once by `__post_init__`. -/
def estimatedTokens (s : PromptSection) : Int := (s.text.length : Int) / 4

/-- What the loop puts in the place of a section it visits, and the overflow that is left. -/
def truncate (overflow : Int) (s : PromptSection) : PromptSection × Int :=
  if s.estimatedTokens ≤ overflow then ({ s with text := [] }, overflow - s.estimatedTokens)
  else ({ s with text := s.text.take (max 0 ((s.text.length : Int) - overflow * 4)).toNat }, 0)

end PromptSection

def totalTokens (sections : List PromptSection) : Int := (sections.map (·.estimatedTokens)).sum

/-- `_TRUNCATION_PRIORITY`. -/
def truncationPriority : List String := ["skills", "bootstrap", "l1_snapshot", "workspace"]

/-- The inner loop: the first truncatable section of the name is visited, then `break`. -/
def truncateFirst (name : String) (overflow : Int) : List PromptSection → List PromptSection × Int
  | [] => ([], overflow)
  | s :: rest =>
    if s.name ≠ name ∨ s.truncatable = false then
      (s :: (truncateFirst name overflow rest).1, (truncateFirst name overflow rest).2)
    else ((s.truncate overflow).1 :: rest, (s.truncate overflow).2)

/-- One round of the outer loop, on `(result, overflow)`. -/
def truncateRound (acc : List PromptSection × Int) (name : String) : List PromptSection × Int :=
  if acc.2 ≤ 0 then acc else truncateFirst name acc.2 acc.1

def enforceSystemBudget (sections : List PromptSection) (budget : Int) : List PromptSection :=
  if totalTokens sections ≤ budget then sections
  else
    (truncationPriority.foldl truncateRound (sections, totalTokens sections - budget)).1.filter
      fun s => s.text ≠ []

/-! ## One section -/

namespace PromptSection

variable {s : PromptSection} {overflow : Int}

theorem estimatedTokens_eq_zero (h : s.text = []) : s.estimatedTokens = 0 := by
  simp [estimatedTokens, h]

@[simp] theorem truncate_name : (s.truncate overflow).1.name = s.name := by
  simp only [truncate]
  split <;> rfl

@[simp] theorem truncate_truncatable : (s.truncate overflow).1.truncatable = s.truncatable := by
  simp only [truncate]
  split <;> rfl

theorem truncate_text_prefix : (s.truncate overflow).1.text <+: s.text := by
  simp only [truncate]
  split
  · exact List.nil_prefix
  · exact List.take_prefix _ _

theorem truncate_nonneg : 0 ≤ (s.truncate overflow).2 := by
  simp only [truncate]
  split <;> simp_all

/-- Cutting `4 * overflow` characters lowers the estimate by `overflow`, whatever the rounding. -/
theorem truncate_total (hpos : 0 < overflow) :
    (s.truncate overflow).1.estimatedTokens - (s.truncate overflow).2 =
      s.estimatedTokens - overflow := by
  simp only [truncate]
  split
  · simp only [estimatedTokens, List.length_nil]
    omega
  · rename_i hgt
    simp only [estimatedTokens] at hgt
    simp only [estimatedTokens, List.length_take]
    omega

/-- Some overflow is left only by a section that has been emptied. -/
theorem truncate_text_eq_nil (h : 0 < (s.truncate overflow).2) :
    (s.truncate overflow).1.text = [] := by
  simp only [truncate] at h ⊢
  split
  · rfl
  · rename_i hgt
    rw [if_neg hgt] at h
    simp at h

end PromptSection

/-! ## One round -/

theorem totalTokens_cons (s : PromptSection) (rest : List PromptSection) :
    totalTokens (s :: rest) = s.estimatedTokens + totalTokens rest := by
  simp [totalTokens]

/-- Empty sections weigh nothing, so dropping them does not change the total. -/
theorem totalTokens_filter_nonempty (sections : List PromptSection) :
    totalTokens (sections.filter fun s => s.text ≠ []) = totalTokens sections := by
  induction sections with
  | nil => rfl
  | cons s rest ih =>
    by_cases h : s.text = []
    · rw [List.filter_cons_of_neg (by simpa using h), ih, totalTokens_cons,
        PromptSection.estimatedTokens_eq_zero h]
      omega
    · rw [List.filter_cons_of_pos (by simpa using h), totalTokens_cons, totalTokens_cons, ih]

section Round

variable {name : String} {overflow : Int} {sections : List PromptSection}

theorem truncateFirst_total (hpos : 0 < overflow) :
    totalTokens (truncateFirst name overflow sections).1 - (truncateFirst name overflow sections).2 =
      totalTokens sections - overflow := by
  induction sections with
  | nil => rfl
  | cons s rest ih =>
    simp only [truncateFirst]
    split
    · simp only [totalTokens_cons]
      omega
    · have hs := PromptSection.truncate_total (s := s) hpos
      simp only [totalTokens_cons]
      omega

/-- A round visits no section, or, when the names are distinct, the only one of its name. -/
theorem truncateFirst_cases (hnames : (sections.map (·.name)).Nodup) :
    ((∀ s ∈ sections, s.name = name → s.truncatable = false) ∧
      truncateFirst name overflow sections = (sections, overflow)) ∨
    ∃ s ∈ sections, s.name = name ∧ s.truncatable = true ∧
      truncateFirst name overflow sections =
        (sections.map fun t => if t.name = name then (t.truncate overflow).1 else t,
          (s.truncate overflow).2) := by
  induction sections with
  | nil => exact .inl ⟨by simp, rfl⟩
  | cons s rest ih =>
    rw [List.map_cons, List.nodup_cons] at hnames
    obtain ⟨hfresh, hrest⟩ := hnames
    by_cases hskip : s.name ≠ name ∨ s.truncatable = false
    · rw [truncateFirst, if_pos hskip]
      rcases ih hrest with ⟨hnone, heq⟩ | ⟨t, ht, htn, htt, heq⟩
      · refine .inl ⟨?_, by rw [heq]⟩
        intro t ht htn
        rcases List.mem_cons.mp ht with rfl | ht
        · exact hskip.resolve_left (not_not_intro htn)
        · exact hnone t ht htn
      · have hsn : s.name ≠ name := by
          rintro rfl
          exact hfresh (htn ▸ List.mem_map_of_mem ht)
        refine .inr ⟨t, List.mem_cons_of_mem s ht, htn, htt, ?_⟩
        rw [heq, List.map_cons, if_neg hsn]
    · rw [truncateFirst, if_neg hskip]
      rw [not_or, not_not, Bool.not_eq_false] at hskip
      obtain ⟨rfl, htt⟩ := hskip
      refine .inr ⟨s, List.mem_cons_self, rfl, htt, ?_⟩
      have hsame : (rest.map fun t => if t.name = s.name then (t.truncate overflow).1 else t) = rest := by
        refine (List.map_congr_left fun t ht => ?_).trans (List.map_id' rest)
        refine if_neg fun hname : t.name = s.name => hfresh ?_
        rw [← hname]
        exact List.mem_map_of_mem ht
      rw [List.map_cons, if_pos rfl, hsame]

end Round

/-! ## The loop -/

/-- After the rounds of `done` the result is `sections.map keep` and `overflow` tokens are left over. -/
structure Truncation (sections : List PromptSection) (budget : Int) (done : List String)
    (keep : PromptSection → PromptSection) (overflow : Int) : Prop where
  name : ∀ s, (keep s).name = s.name
  truncatable : ∀ s, (keep s).truncatable = s.truncatable
  isPrefix : ∀ s, (keep s).text <+: s.text
  nonneg : 0 ≤ overflow
  total : totalTokens (sections.map keep) = budget + overflow
  emptied : 0 < overflow →
    ∀ s ∈ sections, s.truncatable = true → s.name ∈ done → (keep s).text = []
  ordered : ∀ s ∈ sections, keep s ≠ s → s.truncatable = true ∧
    ∀ t ∈ sections, t.truncatable = true →
      truncationPriority.idxOf t.name < truncationPriority.idxOf s.name → (keep t).text = []

namespace Truncation

variable {sections : List PromptSection} {budget : Int} {done : List String}
  {keep : PromptSection → PromptSection} {overflow : Int}

theorem start (h : budget < totalTokens sections) :
    Truncation sections budget [] id (totalTokens sections - budget) where
  name _ := rfl
  truncatable _ := rfl
  isPrefix _ := List.prefix_rfl
  nonneg := by omega
  total := by
    rw [List.map_id]
    omega
  emptied _ s _ _ hdone := absurd hdone List.not_mem_nil
  ordered s _ hne := absurd rfl hne

theorem mem_of_idxOf_lt {name earlier : String} {rest : List String}
    (h : (done ++ name :: rest).idxOf earlier < (done ++ name :: rest).idxOf name) :
    earlier ∈ done := by
  by_contra hnot
  have hname : (done ++ name :: rest).idxOf name ≤ done.length := by
    by_cases hmem : name ∈ done
    · rw [List.idxOf_append_of_mem hmem]
      exact (List.idxOf_lt_length_of_mem hmem).le
    · rw [List.idxOf_append_of_notMem hmem, List.idxOf_cons_self]
      omega
  rw [List.idxOf_append_of_notMem hnot] at h
  omega

theorem nodup_map (ht : Truncation sections budget done keep overflow)
    (hnames : (sections.map (·.name)).Nodup) : ((sections.map keep).map (·.name)).Nodup := by
  have heq : (sections.map keep).map (·.name) = sections.map (·.name) := by
    rw [List.map_map]
    exact List.map_congr_left fun s _ => ht.name s
  rw [heq]
  exact hnames

/-- The sections after a round that has visited the one called `name`, as an image of the given ones. -/
def visit (name : String) (overflow : Int) (keep : PromptSection → PromptSection) (s : PromptSection) :
    PromptSection :=
  if s.name = name then ((keep s).truncate overflow).1 else keep s

theorem visit_text_prefix (name : String) (overflow : Int) (keep : PromptSection → PromptSection)
    (s : PromptSection) : (visit name overflow keep s).text <+: (keep s).text := by
  unfold visit
  split
  · exact PromptSection.truncate_text_prefix
  · exact List.prefix_rfl

theorem map_visit (ht : Truncation sections budget done keep overflow) (name : String) :
    (sections.map keep).map (fun t => if t.name = name then (t.truncate overflow).1 else t) =
      sections.map (visit name overflow keep) := by
  rw [List.map_map]
  refine List.map_congr_left fun s _ => ?_
  simp only [Function.comp_apply, ht.name, visit]

/-- A round that visits `origin` keeps the invariant. -/
theorem visited (ht : Truncation sections budget done keep overflow)
    (hnames : (sections.map (·.name)).Nodup) {origin : PromptSection} {rest : List String}
    (hpriority : truncationPriority = done ++ origin.name :: rest) (hpos : 0 < overflow)
    (horigin : origin ∈ sections) (htruncatable : origin.truncatable = true)
    (htotal : totalTokens (sections.map (visit origin.name overflow keep)) -
      ((keep origin).truncate overflow).2 = totalTokens (sections.map keep) - overflow) :
    Truncation sections budget (done ++ [origin.name]) (visit origin.name overflow keep)
      ((keep origin).truncate overflow).2 := by
  have hsame : ∀ s ∈ sections, s.name = origin.name → s = origin :=
    fun s hs hsn => List.inj_on_of_nodup_map hnames hs horigin hsn
  have hpre := visit_text_prefix origin.name overflow keep
  refine ⟨?_, ?_, fun s => (hpre s).trans (ht.isPrefix s), PromptSection.truncate_nonneg, ?_, ?_, ?_⟩
  · intro s
    unfold visit
    split <;> simp [ht.name]
  · intro s
    unfold visit
    split <;> simp [ht.truncatable]
  · have := ht.total
    omega
  · intro hleft s hs htrunc hname
    unfold visit
    by_cases hsn : s.name = origin.name
    · obtain rfl := hsame s hs hsn
      rw [if_pos rfl]
      exact PromptSection.truncate_text_eq_nil hleft
    · have hdone : s.name ∈ done := by simpa [hsn] using hname
      rw [if_neg hsn]
      exact ht.emptied hpos s hs htrunc hdone
  · intro s hs hne
    by_cases hsn : s.name = origin.name
    · obtain rfl := hsame s hs hsn
      refine ⟨htruncatable, fun t htmem htrunc hlt => ?_⟩
      rw [hpriority] at hlt
      have hempty := ht.emptied hpos t htmem htrunc (mem_of_idxOf_lt hlt)
      exact List.prefix_nil.mp (hempty ▸ hpre t)
    · unfold visit at hne
      rw [if_neg hsn] at hne
      obtain ⟨htrunc, hbefore⟩ := ht.ordered s hs hne
      refine ⟨htrunc, fun t htmem httrunc hlt => ?_⟩
      exact List.prefix_nil.mp (hbefore t htmem httrunc hlt ▸ hpre t)

/-- One round keeps the invariant. -/
theorem round (ht : Truncation sections budget done keep overflow)
    (hnames : (sections.map (·.name)).Nodup) {name : String} {rest : List String}
    (hpriority : truncationPriority = done ++ name :: rest) :
    ∃ keep' overflow', truncateRound (sections.map keep, overflow) name =
        (sections.map keep', overflow') ∧
      Truncation sections budget (done ++ [name]) keep' overflow' := by
  by_cases hpos : overflow ≤ 0
  · refine ⟨keep, overflow, if_pos hpos, ?_⟩
    exact { ht with emptied := fun h => by omega }
  have hround : truncateRound (sections.map keep, overflow) name =
      truncateFirst name overflow (sections.map keep) := if_neg hpos
  have htotal := @truncateFirst_total name overflow (sections.map keep) (not_le.mp hpos)
  rcases @truncateFirst_cases name overflow _ (ht.nodup_map hnames) with
    ⟨hnone, heq⟩ | ⟨visited, hvisited, hvn, hvt, heq⟩
  · refine ⟨keep, overflow, hround.trans heq, { ht with emptied := ?_ }⟩
    intro h s hs htrunc hname
    rcases List.mem_append.mp hname with hdone | hnew
    · exact ht.emptied h s hs htrunc hdone
    · have := hnone (keep s) (List.mem_map_of_mem hs) (by simpa [ht.name] using hnew)
      rw [ht.truncatable, htrunc] at this
      cases this
  · obtain ⟨origin, horigin, rfl⟩ := List.mem_map.mp hvisited
    rw [ht.truncatable] at hvt
    obtain rfl : origin.name = name := (ht.name origin).symm.trans hvn
    rw [ht.map_visit] at heq
    rw [heq] at htotal
    exact ⟨_, _, hround.trans heq, ht.visited hnames hpriority (not_le.mp hpos) horigin hvt htotal⟩

/-- The rounds that are left, by induction on them. -/
theorem rounds (ht : Truncation sections budget done keep overflow)
    (hnames : (sections.map (·.name)).Nodup) {rest : List String}
    (hpriority : truncationPriority = done ++ rest) :
    ∃ keep' overflow', rest.foldl truncateRound (sections.map keep, overflow) =
        (sections.map keep', overflow') ∧
      Truncation sections budget truncationPriority keep' overflow' := by
  induction rest generalizing done keep overflow with
  | nil =>
    rw [List.append_nil] at hpriority
    exact ⟨keep, overflow, rfl, hpriority ▸ ht⟩
  | cons name rest ih =>
    obtain ⟨keep', overflow', heq, ht'⟩ := ht.round hnames hpriority
    rw [List.foldl_cons, heq]
    exact ih ht' (by simpa using hpriority)

/-- A section that keeps its place without its text is dropped; every other one is still there. -/
theorem mem_iff (ht : Truncation sections budget done keep overflow)
    (hnames : (sections.map (·.name)).Nodup) {s : PromptSection} (hs : s ∈ sections) :
    s.name ∈ ((sections.map keep).filter fun s => s.text ≠ []).map (·.name) ↔ (keep s).text ≠ [] := by
  constructor
  · intro h
    obtain ⟨r, hr, hname⟩ := List.mem_map.mp h
    obtain ⟨hr, hne⟩ := List.mem_filter.mp hr
    obtain ⟨t, htmem, rfl⟩ := List.mem_map.mp hr
    rw [ht.name] at hname
    obtain rfl := List.inj_on_of_nodup_map hnames htmem hs hname
    simpa using hne
  · intro h
    refine List.mem_map.mpr ⟨keep s, ?_, ht.name s⟩
    exact List.mem_filter.mpr ⟨List.mem_map_of_mem hs, by simpa using h⟩

theorem total_le (ht : Truncation sections budget truncationPriority keep overflow)
    (hlisted : ∀ s ∈ sections, s.truncatable = true → s.name ∈ truncationPriority) :
    totalTokens (sections.map keep) ≤
      max budget (totalTokens (sections.filter fun s => !s.truncatable)) := by
  rcases ht.nonneg.eq_or_lt with hzero | hpos
  · have := ht.total
    omega
  · -- Every truncatable section is empty now.
    refine le_max_of_le_right ?_
    have hempty := fun s hs htrunc => ht.emptied hpos s hs htrunc (hlisted s hs htrunc)
    have hfixed : ∀ s ∈ sections, s.truncatable = false → keep s = s := by
      intro s hs hfixed
      by_contra hne
      rw [(ht.ordered s hs hne).1] at hfixed
      cases hfixed
    clear ht hlisted
    induction sections with
    | nil => exact le_rfl
    | cons s rest ih =>
      have hrest := ih (fun t h => hempty t (List.mem_cons_of_mem s h))
        (fun t h => hfixed t (List.mem_cons_of_mem s h))
      rw [List.map_cons, totalTokens_cons]
      cases htrunc : s.truncatable with
      | true =>
        rw [PromptSection.estimatedTokens_eq_zero (hempty s List.mem_cons_self htrunc),
          List.filter_cons_of_neg (by simp [htrunc])]
        omega
      | false =>
        rw [hfixed s List.mem_cons_self htrunc, List.filter_cons_of_pos (by simp [htrunc]),
          totalTokens_cons]
        omega

end Truncation

/-! ## The sections returned -/

/-- The enforced sections are the given ones, or the image of them under a finished truncation. -/
theorem enforceSystemBudget_cases {sections : List PromptSection} {budget : Int}
    (hnames : (sections.map (·.name)).Nodup) :
    (totalTokens sections ≤ budget ∧ enforceSystemBudget sections budget = sections) ∨
    ∃ keep overflow, Truncation sections budget truncationPriority keep overflow ∧
      enforceSystemBudget sections budget = (sections.map keep).filter fun s => s.text ≠ [] := by
  by_cases hfits : totalTokens sections ≤ budget
  · exact .inl ⟨hfits, if_pos hfits⟩
  · obtain ⟨keep, overflow, heq, ht⟩ :=
      (Truncation.start (not_le.mp hfits)).rounds hnames (List.nil_append _).symm
    rw [List.map_id] at heq
    refine .inr ⟨keep, overflow, ht, ?_⟩
    rw [enforceSystemBudget, if_neg hfits, heq]

theorem enforceSystemBudget_le {sections : List PromptSection} {budget : Int}
    (hnames : (sections.map (·.name)).Nodup)
    (hlisted : ∀ s ∈ sections, s.truncatable = true → s.name ∈ truncationPriority) :
    totalTokens (enforceSystemBudget sections budget) ≤
      max budget (totalTokens (sections.filter fun s => !s.truncatable)) := by
  rcases @enforceSystemBudget_cases sections budget hnames with ⟨hfits, heq⟩ | ⟨keep, overflow, ht, heq⟩
  · rw [heq]
    exact le_max_of_le_left hfits
  · rw [heq, totalTokens_filter_nonempty]
    exact ht.total_le hlisted

/-- The budget holds up to the sections that may not be cut; a section loses text only when every section
before it in the truncation order is gone, and what it keeps is a prefix; every other section that has a
text is returned as it was given; and the sections stay in their order. -/
theorem enforceSystemBudget_truncates (sections : List PromptSection) (budget : Int)
    (hnames : (sections.map (·.name)).Nodup)
    (hlisted : ∀ s ∈ sections, s.truncatable = true → s.name ∈ truncationPriority) :
    totalTokens (enforceSystemBudget sections budget) ≤
        max budget (totalTokens (sections.filter fun s => !s.truncatable)) ∧
      (∀ s ∈ sections, s.text ≠ [] → s ∉ enforceSystemBudget sections budget →
        s.truncatable = true ∧ ∀ t ∈ sections, t.truncatable = true →
          truncationPriority.idxOf t.name < truncationPriority.idxOf s.name →
          t.name ∉ (enforceSystemBudget sections budget).map (·.name)) ∧
      (∀ r ∈ enforceSystemBudget sections budget, ∃ s ∈ sections, r.name = s.name ∧
        r.truncatable = s.truncatable ∧ r.text <+: s.text) ∧
      ((enforceSystemBudget sections budget).map (·.name)).Sublist (sections.map (·.name)) := by
  refine ⟨enforceSystemBudget_le hnames hlisted, ?_⟩
  rcases @enforceSystemBudget_cases sections budget hnames with ⟨-, heq⟩ | ⟨keep, overflow, ht, heq⟩
  · rw [heq]
    refine ⟨fun s hs _ hnot => absurd hs hnot, ?_, List.Sublist.refl _⟩
    exact fun r hr => ⟨r, hr, rfl, rfl, List.prefix_rfl⟩
  · rw [heq]
    refine ⟨?_, ?_, ?_⟩
    · intro s hs hne hnot
      have hchanged : keep s ≠ s := by
        intro hsame
        refine hnot (List.mem_filter.mpr ⟨?_, by simpa using hne⟩)
        exact List.mem_map.mpr ⟨s, hs, hsame⟩
      obtain ⟨htrunc, hbefore⟩ := ht.ordered s hs hchanged
      refine ⟨htrunc, fun t htmem httrunc hlt hmem => ?_⟩
      exact (ht.mem_iff hnames htmem).mp hmem (hbefore t htmem httrunc hlt)
    · intro r hr
      obtain ⟨s, hs, rfl⟩ := List.mem_map.mp (List.mem_filter.mp hr).1
      exact ⟨s, hs, ht.name s, ht.truncatable s, ht.isPrefix s⟩
    · have hmap : (sections.map keep).map (·.name) = sections.map (·.name) := by
        rw [List.map_map]
        exact List.map_congr_left fun s _ => ht.name s
      rw [← hmap]
      exact List.filter_sublist.map _

/-- Two sections over the budget of five tokens: the skills go first, the workspace is cut. -/
def overBudget : List PromptSection :=
  [⟨"identity", "You are PyClaw.".toList, false⟩, ⟨"skills", "## Skills".toList, true⟩,
    ⟨"workspace", "## Workspace /srv".toList, true⟩]

theorem overBudget_truncates :
    (enforceSystemBudget overBudget 5).map (·.text) = ["You are PyClaw.".toList, "## Worksp".toList] ∧
      totalTokens (enforceSystemBudget overBudget 5) ≤
        max 5 (totalTokens (overBudget.filter fun s => !s.truncatable)) :=
  ⟨by decide, (enforceSystemBudget_truncates overBudget 5 (by decide) (by decide)).1⟩

/-! ## The frozen prefix -/

/-- The texts of the sections: `identity_section`, `tooling_section`, `skills_prompt` or
`skills_section`, `workspace_section`, and the two that the caller passes. -/
structure PromptTexts where
  identity : List Char
  tools : Option (List Char) := none
  skills : Option (List Char) := none
  workspace : Option (List Char) := none
  bootstrap : Option (List Char) := none
  l1Snapshot : Option (List Char) := none

structure SystemPromptResult where
  text : List Char
  sections : List PromptSection
  tokenBreakdown : List (String × Int)

/-- `from_sections`. -/
def SystemPromptResult.ofSections (sections : List PromptSection) : SystemPromptResult where
  text := "\n\n".toList.intercalate (sections.map (·.text))
  sections := sections
  tokenBreakdown := sections.map fun s => (s.name, s.estimatedTokens)

/-- A section is appended only if it has a text. -/
def optionalSection (name : String) (text : Option (List Char)) (truncatable : Bool) : List PromptSection :=
  match text with
  | none => []
  | some text => if text = [] then [] else [⟨name, text, truncatable⟩]

namespace PromptTexts

def sections (texts : PromptTexts) : List PromptSection :=
  optionalSection "identity" (some texts.identity) false ++
    optionalSection "tools" texts.tools false ++
    optionalSection "skills" texts.skills true ++
    optionalSection "workspace" texts.workspace true ++
    optionalSection "bootstrap" texts.bootstrap true ++
    optionalSection "l1_snapshot" texts.l1Snapshot true

def buildFrozenPrefix (texts : PromptTexts) (budget : Option Int) : SystemPromptResult :=
  match budget with
  | none => .ofSections texts.sections
  | some budget => .ofSections (enforceSystemBudget texts.sections budget)

end PromptTexts

theorem optionalSection_sublist (name : String) (text : Option (List Char)) (truncatable : Bool) :
    ((optionalSection name text truncatable).map (·.name)).Sublist [name] := by
  cases text with
  | none => simp [optionalSection]
  | some text =>
    simp only [optionalSection]
    split <;> simp

theorem PromptTexts.sections_nodup (texts : PromptTexts) :
    (texts.sections.map (·.name)).Nodup := by
  have hsub : (texts.sections.map (·.name)).Sublist
      (["identity"] ++ ["tools"] ++ ["skills"] ++ ["workspace"] ++ ["bootstrap"] ++ ["l1_snapshot"]) := by
    simp only [sections, List.map_append]
    exact ((((((optionalSection_sublist _ _ _).append (optionalSection_sublist _ _ _)).append
      (optionalSection_sublist _ _ _)).append (optionalSection_sublist _ _ _)).append
      (optionalSection_sublist _ _ _)).append (optionalSection_sublist _ _ _))
  exact hsub.nodup (by decide)

theorem eq_of_mem_optionalSection {name : String} {text : Option (List Char)} {truncatable : Bool}
    {s : PromptSection} (h : s ∈ optionalSection name text truncatable) :
    s.name = name ∧ s.truncatable = truncatable := by
  cases text with
  | none => simp [optionalSection] at h
  | some text =>
    simp only [optionalSection] at h
    split at h
    · cases h
    · obtain rfl := List.mem_singleton.mp h
      exact ⟨rfl, rfl⟩

/-- A frozen prefix exceeds its budget only if identity and tools alone do. -/
theorem PromptTexts.buildFrozenPrefix_le (texts : PromptTexts) (budget : Int) :
    totalTokens (texts.buildFrozenPrefix (some budget)).sections ≤
      max budget (totalTokens (texts.sections.filter fun s => !s.truncatable)) := by
  refine enforceSystemBudget_le texts.sections_nodup fun s hs htrunc => ?_
  simp only [sections, List.mem_append] at hs
  rcases hs with ((((hs | hs) | hs) | hs) | hs) | hs <;>
    obtain ⟨hname, ht⟩ := eq_of_mem_optionalSection hs <;> rw [ht] at htrunc
  · cases htrunc
  · cases htrunc
  all_goals
    rw [hname]
    decide

end PyClaw
