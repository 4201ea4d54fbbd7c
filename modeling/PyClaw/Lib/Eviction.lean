import Mathlib.Data.List.Infix
import Mathlib.Order.Defs.LinearOrder

/-!
# Lib.Eviction

Taking elements off the front of a list as long as it is too much. `popWhile excess l` splits `l` into what
is popped and what is left (`popWhile_append`); what is left is not too much unless it is empty, and
everything is left if it was not too much before. Of a sorted list the elements popped are the least ones.
-/

namespace PyClaw

variable {α β : Type}

/-- `while excess(l) and l: l.pop(0)`: what is popped, and what is left. -/
def popWhile (excess : List α → Bool) : List α → List α × List α
  | [] => ([], [])
  | a :: rest =>
    if excess (a :: rest) then (a :: (popWhile excess rest).1, (popWhile excess rest).2) else ([], a :: rest)

variable {excess : List α → Bool} {l : List α}

theorem popWhile_append (excess : List α → Bool) (l : List α) :
    (popWhile excess l).1 ++ (popWhile excess l).2 = l := by
  induction l with
  | nil => rfl
  | cons a rest ih =>
    rw [popWhile]
    split
    · rw [List.cons_append, ih]
    · rfl

theorem popWhile_suffix (excess : List α → Bool) (l : List α) : (popWhile excess l).2 <:+ l :=
  ⟨_, popWhile_append excess l⟩

/-- The loop ends with an empty list, or with one that is not too much. -/
theorem popWhile_fits (excess : List α → Bool) (l : List α) :
    (popWhile excess l).2 = [] ∨ excess (popWhile excess l).2 = false := by
  induction l with
  | nil => exact .inl rfl
  | cons a rest ih =>
    rw [popWhile]
    split
    · exact ih
    · rename_i hfits
      right
      simpa using hfits

theorem popWhile_of_fits (h : excess l = false) : popWhile excess l = ([], l) := by
  cases l with
  | nil => rfl
  | cons a rest => rw [popWhile, if_neg (by simp [h])]

/-- Popping as long as there are more than `n` elements. -/
theorem popWhile_length {n : Nat} (h : ∀ l, excess l = true ↔ n < l.length) (l : List α) :
    popWhile excess l = (l.take (l.length - n), l.drop (l.length - n)) := by
  induction l with
  | nil => simp [popWhile]
  | cons a rest ih =>
    rw [popWhile, ih]
    by_cases hover : n < (a :: rest).length
    · rw [if_pos ((h _).mpr hover)]
      rw [List.length_cons] at hover ⊢
      rw [Nat.sub_add_comm (by omega)]
      rfl
    · rw [if_neg fun hpop => hover ((h _).mp hpop), Nat.sub_eq_zero_of_le (by omega)]
      rfl

/-- Splitting a sorted list leaves the greatest elements. -/
theorem le_of_pairwise_append [LE β] {key : α → β} {popped left : List α}
    (h : (popped ++ left).Pairwise fun a b => key a ≤ key b) {a b : α} (ha : a ∈ popped) (hb : b ∈ left) :
    key a ≤ key b :=
  (List.pairwise_append.mp h).2.2 a ha b hb

end PyClaw
