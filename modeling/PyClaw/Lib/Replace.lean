import Mathlib.Algebra.BigOperators.Group.List.Basic
import Mathlib.Algebra.Ring.Nat
import PyClaw.Lib.Text

/-!
# Lib.Replace

`str.count` and `str.replace` over lists, and what replacing means: `Replaced old new n text text'` says that
`text'` is `text` with `n` occurrences of `old` replaced by `new` and everything between them kept.

* `replaceAll_replaced`, `replaceFirst_replaced`: the two modes of `str.replace`.
* `Replaced.countP`: replacing adds, for each occurrence, what `new` counts more than `old`.
* `Replaced.flatMap`: replacing in a text replaces in its encoding.
-/

namespace PyClaw

section
variable {α : Type} [DecidableEq α]

/-- `l.split(sep)` for a non-empty `sep`; `skip` elements of the last occurrence are left. -/
def splitAllFrom (sep : List α) : Nat → List α → List (List α)
  | _, [] => [[]]
  | skip + 1, _ :: rest => splitAllFrom sep skip rest
  | 0, c :: rest =>
    if sep <+: c :: rest then [] :: splitAllFrom sep (sep.length - 1) rest
    else (splitAllFrom sep 0 rest).modifyHead (c :: ·)

def splitAll (sep l : List α) : List (List α) := splitAllFrom sep 0 l

/-- `l.count(sep)`; an empty `sep` occurs around every element. -/
def countOccurrences (sep l : List α) : Nat :=
  if sep = [] then l.length + 1 else (splitAll sep l).length - 1

/-- `l.replace(sep, by)`. -/
def replaceAll (sep by_ l : List α) : List α :=
  if sep = [] then by_ ++ l.flatMap fun c => c :: by_ else by_.intercalate (splitAll sep l)

end

/-- `n` occurrences of `old` in `text` are replaced by `new`; the pieces between them are kept. -/
def Replaced {α : Type} (old new : List α) (n : Nat) (text text' : List α) : Prop :=
  ∃ pieces : List (List α), pieces.length = n + 1 ∧ text = old.intercalate pieces ∧
    text' = new.intercalate pieces

/-! ## Pieces -/

section
variable {α β : Type} {sep : List α} {pieces : List (List α)}

theorem mem_intercalate {x : α} :
    x ∈ sep.intercalate pieces ↔ (∃ piece ∈ pieces, x ∈ piece) ∨ x ∈ sep ∧ 2 ≤ pieces.length := by
  induction pieces with
  | nil => simp
  | cons piece rest ih =>
    by_cases hrest : rest = []
    · subst hrest
      simp
    · rw [List.intercalate_cons_of_ne_nil hrest, List.mem_append, List.mem_append, ih]
      have hlen : 1 ≤ rest.length := List.length_pos_iff.mpr hrest
      have htwo : 2 ≤ (piece :: rest).length := by simpa using hlen
      simp only [List.mem_cons, exists_eq_or_imp, htwo, and_true]
      generalize (∃ piece, piece ∈ rest ∧ x ∈ piece) = inRest
      tauto

theorem countP_intercalate (p : α → Bool) (hne : pieces ≠ []) :
    (sep.intercalate pieces).countP p + sep.countP p =
      (pieces.map (List.countP p)).sum + pieces.length * sep.countP p := by
  induction pieces with
  | nil => exact absurd rfl hne
  | cons piece rest ih =>
    by_cases hrest : rest = []
    · subst hrest
      simp
    · rw [List.intercalate_cons_of_ne_nil hrest, List.countP_append, List.countP_append,
        List.map_cons, List.sum_cons, List.length_cons]
      have := ih hrest
      rw [Nat.add_mul, Nat.one_mul]
      omega

theorem intercalate_modifyHead (c : α) (h : pieces ≠ []) :
    sep.intercalate (pieces.modifyHead (c :: ·)) = c :: sep.intercalate pieces := by
  cases pieces with
  | nil => exact absurd rfl h
  | cons piece rest => cases rest <;> simp [List.modifyHead]

theorem flatMap_intercalate (f : α → List β) :
    (sep.intercalate pieces).flatMap f = (sep.flatMap f).intercalate (pieces.map (List.flatMap f)) := by
  induction pieces with
  | nil => rfl
  | cons piece rest ih =>
    by_cases hrest : rest = []
    · subst hrest
      simp
    · rw [List.intercalate_cons_of_ne_nil hrest, List.map_cons,
        List.intercalate_cons_of_ne_nil (by simpa using hrest), List.flatMap_append,
        List.flatMap_append, ih]

end

/-! ## Replacing -/

namespace Replaced

variable {α β : Type} {old new text text' : List α} {n : Nat}

/-- Each occurrence changes a count by the difference of `new` and `old`. -/
theorem countP (h : Replaced old new n text text') (p : α → Bool) :
    text'.countP p + n * old.countP p = text.countP p + n * new.countP p := by
  obtain ⟨pieces, hlen, rfl, rfl⟩ := h
  have hne : pieces ≠ [] := by
    rintro rfl
    cases hlen
  have hold := @countP_intercalate α old pieces p hne
  have hnew := @countP_intercalate α new pieces p hne
  rw [hlen, Nat.add_mul, Nat.one_mul] at hold hnew
  omega

theorem flatMap (h : Replaced old new n text text') (f : α → List β) :
    Replaced (old.flatMap f) (new.flatMap f) n (text.flatMap f) (text'.flatMap f) := by
  obtain ⟨pieces, hlen, rfl, rfl⟩ := h
  exact ⟨pieces.map (List.flatMap f), by rw [List.length_map, hlen], flatMap_intercalate f,
    flatMap_intercalate f⟩

theorem mem_old (h : Replaced old new n text text') (hn : 0 < n) {x : α} (hx : x ∈ old) : x ∈ text := by
  obtain ⟨pieces, hlen, rfl, -⟩ := h
  exact mem_intercalate.mpr (.inr ⟨hx, by omega⟩)

theorem mem_new (h : Replaced old new n text text') (hn : 0 < n) {x : α} (hx : x ∈ new) : x ∈ text' := by
  obtain ⟨pieces, hlen, -, rfl⟩ := h
  exact mem_intercalate.mpr (.inr ⟨hx, by omega⟩)

theorem mem_or (h : Replaced old new n text text') {x : α} (hx : x ∈ text') : x ∈ text ∨ x ∈ new := by
  obtain ⟨pieces, -, rfl, rfl⟩ := h
  rcases mem_intercalate.mp hx with hpiece | ⟨hnew, -⟩
  · exact .inl (mem_intercalate.mpr (.inl hpiece))
  · exact .inr hnew

end Replaced

section
variable {α : Type} [DecidableEq α] {sep l : List α}

theorem splitAllFrom_ne_nil (sep : List α) (skip : Nat) (l : List α) : splitAllFrom sep skip l ≠ [] := by
  induction l generalizing skip with
  | nil => simp [splitAllFrom]
  | cons c rest ih =>
    cases skip with
    | succ skip => exact ih skip
    | zero =>
      rw [splitAllFrom]
      split
      · simp
      · simpa using ih 0

/-- The pieces with `sep` between them are the text, from where the last occurrence ends. -/
theorem intercalate_splitAllFrom (hsep : sep ≠ []) (skip : Nat) (l : List α) :
    sep.intercalate (splitAllFrom sep skip l) = l.drop skip := by
  induction l generalizing skip with
  | nil => simp [splitAllFrom]
  | cons c rest ih =>
    cases skip with
    | succ skip => exact ih skip
    | zero =>
      rw [splitAllFrom]
      split
      · rename_i hstarts
        obtain ⟨after, hafter⟩ := hstarts
        rw [List.intercalate_cons_of_ne_nil (splitAllFrom_ne_nil _ _ _), ih, List.nil_append,
          List.drop_zero, ← hafter]
        cases sep with
        | nil => exact absurd rfl hsep
        | cons d tail =>
          rw [List.cons_append, List.cons.injEq] at hafter
          simp [← hafter.2]
      · rw [intercalate_modifyHead c (splitAllFrom_ne_nil _ _ _), ih]
        rfl

theorem replaceAll_replaced (sep by_ l : List α) :
    Replaced sep by_ (countOccurrences sep l) l (replaceAll sep by_ l) := by
  by_cases hsep : sep = []
  · subst hsep
    have hfold : ∀ (by_ l : List α), by_.intercalate ([] :: (l.map ([·]) ++ [[]])) =
        by_ ++ l.flatMap fun c => c :: by_ := by
      intro by_ l
      induction l with
      | nil => simp
      | cons c rest ih =>
        rw [List.intercalate_cons_of_ne_nil (by simp)] at ih ⊢
        rw [List.map_cons, List.cons_append, List.intercalate_cons_of_ne_nil (by simp),
          List.flatMap_cons]
        simp only [List.nil_append, List.append_cancel_left_eq] at ih ⊢
        simp [ih]
    refine ⟨[] :: (l.map ([·]) ++ [[]]), by simp [countOccurrences], ?_, ?_⟩
    · rw [hfold]
      simp
    · rw [hfold, replaceAll, if_pos rfl]
  · refine ⟨splitAll sep l, ?_, ?_, ?_⟩
    · rw [countOccurrences, if_neg hsep]
      have := List.length_pos_iff.mpr (splitAllFrom_ne_nil sep 0 l)
      rw [splitAll]
      omega
    · rw [splitAll, intercalate_splitAllFrom hsep]
      rfl
    · rw [replaceAll, if_neg hsep]

/-- What occurs is found. -/
theorem replaceFirst_replaced {by_ : List α} (h : 0 < countOccurrences sep l) :
    Replaced sep by_ 1 l (replaceFirst sep by_ l) := by
  obtain ⟨pieces, hlen, htext, -⟩ := replaceAll_replaced sep [] l
  have hoccurs : sep <:+: l := by
    match pieces, hlen with
    | [], hlen => cases hlen
    | [_], hlen =>
      rw [← Nat.succ.inj hlen] at h
      exact absurd h (Nat.lt_irrefl 0)
    | piece :: piece' :: rest, _ =>
      rw [htext, List.intercalate_cons_cons, List.append_assoc]
      exact ⟨piece, _, List.append_assoc ..⟩
  rw [replaceFirst]
  cases hfound : splitFirst sep l with
  | none => exact absurd hoccurs (splitFirst_eq_none.mp hfound)
  | some p =>
    obtain ⟨a, b⟩ := p
    have htext := splitFirst_sound hfound
    exact ⟨[a, b], rfl, by rw [htext]; simp [List.intercalate], by simp [List.intercalate]⟩

end

end PyClaw
