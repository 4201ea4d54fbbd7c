import Mathlib.Data.List.Basic

/-!
# Lib.Alignment

Two sequences written beside one another: each step adds an element to both, or to one of them.
What only one side has is all that tells them apart: elements of a kind that the right side never
has alone stand on the left in the same order, with more between them (`filter_sublist_lefts`),
and without one-sided steps the sequences are equal (`lefts_eq_rights`).
-/

namespace PyClaw

inductive Side (α : Type) where
  | both (a : α)
  | left (a : α)
  | right (a : α)

namespace Side

variable {α : Type}

def left? : Side α → Option α
  | .both a => some a
  | .left a => some a
  | .right _ => none

def right? : Side α → Option α
  | .both a => some a
  | .left _ => none
  | .right a => some a

def isBoth : Side α → Bool
  | .both _ => true
  | _ => false

def swap : Side α → Side α
  | .both a => .both a
  | .left a => .right a
  | .right a => .left a

@[simp] theorem left?_swap (s : Side α) : s.swap.left? = s.right? := by cases s <;> rfl

@[simp] theorem right?_swap (s : Side α) : s.swap.right? = s.left? := by cases s <;> rfl

theorem swap_eq_right {s : Side α} {a : α} : s.swap = .right a ↔ s = .left a := by
  cases s <;> simp [swap]

end Side

section
variable {α : Type}

def lefts (steps : List (Side α)) : List α := steps.filterMap Side.left?

def rights (steps : List (Side α)) : List α := steps.filterMap Side.right?

@[simp] theorem lefts_append (steps more : List (Side α)) :
    lefts (steps ++ more) = lefts steps ++ lefts more := by simp [lefts]

@[simp] theorem rights_append (steps more : List (Side α)) :
    rights (steps ++ more) = rights steps ++ rights more := by simp [rights]

@[simp] theorem lefts_both (l : List α) : lefts (l.map Side.both) = l := by
  simp [lefts, List.filterMap_map, Function.comp_def, Side.left?]

@[simp] theorem rights_both (l : List α) : rights (l.map Side.both) = l := by
  simp [rights, List.filterMap_map, Function.comp_def, Side.right?]

@[simp] theorem lefts_left (l : List α) : lefts (l.map Side.left) = l := by
  simp [lefts, List.filterMap_map, Function.comp_def, Side.left?]

@[simp] theorem rights_left (l : List α) : rights (l.map Side.left) = [] := by
  simp [rights, List.filterMap_map, Function.comp_def, Side.right?]

@[simp] theorem lefts_right (l : List α) : lefts (l.map Side.right) = [] := by
  simp [lefts, List.filterMap_map, Function.comp_def, Side.left?]

@[simp] theorem rights_right (l : List α) : rights (l.map Side.right) = l := by
  simp [rights, List.filterMap_map, Function.comp_def, Side.right?]

theorem lefts_swap (steps : List (Side α)) : lefts (steps.map Side.swap) = rights steps := by
  simp [lefts, rights, List.filterMap_map]

theorem rights_swap (steps : List (Side α)) : rights (steps.map Side.swap) = lefts steps := by
  simp [lefts, rights, List.filterMap_map]

theorem lefts_eq_rights {steps : List (Side α)} (h : ∀ s ∈ steps, s.isBoth = true) :
    lefts steps = rights steps := by
  refine List.filterMap_congr fun s hs => ?_
  cases s with
  | both a => rfl
  | left a => cases h _ hs
  | right a => cases h _ hs

/-- What the right side never has alone. -/
theorem filter_sublist_lefts {steps : List (Side α)} {p : α → Bool}
    (h : ∀ a, Side.right a ∈ steps → p a = false) :
    ((rights steps).filter p).Sublist ((lefts steps).filter p) := by
  induction steps with
  | nil => simp [lefts, rights]
  | cons s steps ih =>
    have ih := ih fun a ha => h a (List.mem_cons_of_mem s ha)
    cases s with
    | both a =>
      simp only [lefts, rights, List.filterMap_cons, Side.left?, Side.right?, List.filter_cons]
      split
      · exact ih.cons_cons a
      · exact ih
    | left a =>
      simp only [lefts, rights, List.filterMap_cons, Side.left?, Side.right?]
      exact ih.trans ((List.sublist_cons_self a (lefts steps)).filter p)
    | right a =>
      have ha : p a = false := h a List.mem_cons_self
      simp only [lefts, rights, List.filterMap_cons, Side.left?, Side.right?]
      rw [List.filter_cons, ha]
      exact ih

/-- What the left side never has alone. -/
theorem filter_sublist_rights {steps : List (Side α)} {p : α → Bool}
    (h : ∀ a, Side.left a ∈ steps → p a = false) :
    ((lefts steps).filter p).Sublist ((rights steps).filter p) := by
  have hswap : ((rights (steps.map Side.swap)).filter p).Sublist
      ((lefts (steps.map Side.swap)).filter p) := by
    refine filter_sublist_lefts fun a ha => ?_
    obtain ⟨s, hs, heq⟩ := List.mem_map.mp ha
    rw [Side.swap_eq_right.mp heq] at hs
    exact h a hs
  rwa [rights_swap, lefts_swap] at hswap

/-- What neither side has alone. -/
theorem filter_eq_of_shared {steps : List (Side α)} {p : α → Bool}
    (hleft : ∀ a, Side.left a ∈ steps → p a = false)
    (hright : ∀ a, Side.right a ∈ steps → p a = false) :
    (lefts steps).filter p = (rights steps).filter p :=
  (filter_sublist_rights hleft).antisymm (filter_sublist_lefts hright)

end

end PyClaw
