import PyClaw.Tools.Dispatch

/-!
# Tools.Truncation

What `truncate_tool_result` keeps of a result whose text is too long. A cut goes through the texts as if they
were one, past the images between them.

`truncateToolResult_faithful`: the text that is kept is the first `max_chars` characters, and the marker
counts the others.
-/

namespace PyClaw

/-! ## Text, images, order -/

def ContentBlock.chars : ContentBlock → List Char
  | .text t => t.toList
  | .image _ _ => []

def ContentBlock.isImage : ContentBlock → Bool
  | .text _ => false
  | .image _ _ => true

/-- The texts of the blocks, one after the other. -/
def contentChars (blocks : List ContentBlock) : List Char := blocks.flatMap ContentBlock.chars

def contentImages (blocks : List ContentBlock) : List ContentBlock := blocks.filter ContentBlock.isImage

/-- The second block is what is left of the first. -/
inductive CutOf : ContentBlock → ContentBlock → Prop where
  | text {t s : String} (h : s.toList <+: t.toList) : CutOf (.text t) (.text s)
  | image {data mimeType : String} : CutOf (.image data mimeType) (.image data mimeType)

/-- Every kept block is what is left of one of the blocks, and they stand in the order of these. -/
def KeptInOrder (blocks kept : List ContentBlock) : Prop :=
  ∃ origins, origins.Sublist blocks ∧ List.Forall₂ CutOf origins kept

/-- `_marker`, on its own line. -/
def markerBlock (dropped : Nat) : ContentBlock :=
  .text ("\n[... " ++ toString dropped ++ " more characters truncated]")

section
variable {t data mimeType : String} {rest : List ContentBlock}

@[simp] theorem contentChars_nil : contentChars [] = [] := rfl

@[simp] theorem contentChars_text : contentChars (.text t :: rest) = t.toList ++ contentChars rest := rfl

@[simp] theorem contentChars_image : contentChars (.image data mimeType :: rest) = contentChars rest := rfl

@[simp] theorem contentImages_text : contentImages (.text t :: rest) = contentImages rest := rfl

@[simp] theorem contentImages_image :
    contentImages (.image data mimeType :: rest) = .image data mimeType :: contentImages rest := rfl

end

theorem textLength_eq (blocks : List ContentBlock) : textLength blocks = (contentChars blocks).length := by
  induction blocks with
  | nil => rfl
  | cons b rest ih =>
    simp only [textLength, List.map_cons, List.sum_cons] at ih ⊢
    cases b with
    | text t => simp [ih, String.length_toList]
    | image data mimeType => simp [ih]

theorem KeptInOrder.cons {b b' : ContentBlock} {rest kept : List ContentBlock} (hcut : CutOf b b')
    (h : KeptInOrder rest kept) : KeptInOrder (b :: rest) (b' :: kept) := by
  obtain ⟨origins, hsub, hcuts⟩ := h
  exact ⟨b :: origins, hsub.cons_cons b, .cons hcut hcuts⟩

theorem KeptInOrder.skip {b : ContentBlock} {rest kept : List ContentBlock} (h : KeptInOrder rest kept) :
    KeptInOrder (b :: rest) kept := by
  obtain ⟨origins, hsub, hcuts⟩ := h
  exact ⟨origins, hsub.cons b, hcuts⟩

/-! ## The loop over the blocks -/

/-- The budget that is left runs through the texts as through one. -/
theorem contentChars_truncateBlocks (blocks : List ContentBlock) (remaining : Nat) :
    contentChars (truncateBlocks blocks remaining) = (contentChars blocks).take remaining := by
  induction blocks generalizing remaining with
  | nil => simp [truncateBlocks]
  | cons b rest ih =>
    cases b with
    | image data mimeType => simpa [truncateBlocks] using ih remaining
    | text t =>
      rw [truncateBlocks]
      split
      · rename_i hzero
        rw [ih 0, hzero, List.take_zero, List.take_zero]
      · split
        · rename_i hfits
          have hwhole : t.toList.take remaining = t.toList := by
            rw [← String.length_toList] at hfits
            exact List.take_of_length_le hfits
          rw [contentChars_text, contentChars_text, ih, List.take_append, hwhole, String.length_toList]
        · rename_i hlong
          have hinside : remaining ≤ t.toList.length := by
            rw [String.length_toList]
            omega
          rw [contentChars_text, contentChars_text, ih 0, String.toList_ofList, List.take_zero, List.append_nil,
            List.take_append_of_le_length hinside]

theorem contentImages_truncateBlocks (blocks : List ContentBlock) (remaining : Nat) :
    contentImages (truncateBlocks blocks remaining) = contentImages blocks := by
  induction blocks generalizing remaining with
  | nil => rfl
  | cons b rest ih =>
    cases b with
    | image data mimeType => simp only [truncateBlocks, contentImages_image, ih]
    | text t =>
      rw [truncateBlocks]
      split
      · simp only [contentImages_text, ih]
      · split
        · simp only [contentImages_text, ih]
        · simp only [contentImages_text, ih]

theorem truncateBlocks_inOrder (blocks : List ContentBlock) (remaining : Nat) :
    KeptInOrder blocks (truncateBlocks blocks remaining) := by
  induction blocks generalizing remaining with
  | nil => exact ⟨[], .refl [], .nil⟩
  | cons b rest ih =>
    cases b with
    | image data mimeType => exact (ih remaining).cons .image
    | text t =>
      rw [truncateBlocks]
      split
      · exact (ih 0).skip
      · split
        · exact (ih _).cons (.text (List.prefix_refl _))
        · refine (ih 0).cons (.text ?_)
          rw [String.toList_ofList]
          exact List.take_prefix remaining t.toList

/-! ## The whole result -/

/-- What a cap on the text of a result asks for: one that fits is left alone; of another the first `cap`
characters stay, in blocks that stand in their order among all the images, and a marker counts the rest. -/
structure FaithfulCut (cap : Int) (r cut : ToolResult) : Prop where
  fits : (contentChars r.content).length ≤ cap → cut = r
  cuts : cap < (contentChars r.content).length →
    ∃ kept, cut = { r with content := kept ++
        [markerBlock ((contentChars r.content).length - (contentChars kept).length)] } ∧
      contentChars kept <+: contentChars r.content ∧ (contentChars kept).length = cap ∧
      contentImages kept = contentImages r.content ∧ KeptInOrder r.content kept

theorem truncateToolResult_faithful (r : ToolResult) (maxChars : Int) (hcap : 0 < maxChars) :
    FaithfulCut maxChars r (truncateToolResult r maxChars) := by
  have hpos : ¬ maxChars ≤ 0 := by omega
  rw [truncateToolResult, if_neg hpos, textLength_eq]
  constructor
  · intro hfits
    have hle : (contentChars r.content).length ≤ maxChars.toNat := by omega
    rw [if_pos hle]
  · intro hlong
    have hgt : ¬ (contentChars r.content).length ≤ maxChars.toNat := by omega
    have hkept := contentChars_truncateBlocks r.content maxChars.toNat
    have hlength : (contentChars (truncateBlocks r.content maxChars.toNat)).length = maxChars.toNat := by
      rw [hkept, List.length_take]
      omega
    refine ⟨truncateBlocks r.content maxChars.toNat, ?_, ?_, ?_, ?_, ?_⟩
    · rw [if_neg hgt, hlength, markerBlock]
    · rw [hkept]
      exact List.take_prefix _ _
    · rw [hlength]
      omega
    · exact contentImages_truncateBlocks _ _
    · exact truncateBlocks_inOrder _ _

/-- The cut falls behind the image, inside the second text; the third goes. -/
def mixedResult : ToolResult where
  toolCallId := "call"
  content := [.text "one", .image "data" "image/png", .text "two", .text "three"]

theorem mixedResult_faithful :
    0 < (4 : Int) ∧ FaithfulCut 4 mixedResult (truncateToolResult mixedResult 4) :=
  ⟨by decide, truncateToolResult_faithful mixedResult 4 (by decide)⟩

example : truncateToolResult mixedResult 4 = { mixedResult with
    content := [.text "one", .image "data" "image/png", .text "t", markerBlock 7] } := by decide

end PyClaw
