import Mathlib.Algebra.Ring.Int.Defs

/-!
# Lib.Packing

Consecutive groups of the items of a list, each within a budget; only a group of one item may go over it.

`IsPacking.snoc`, `IsPacking.grow`: the two ways to take in one more item.
-/

namespace PyClaw

namespace Packing

variable {α : Type} (weight : α → Int) (budget : Int)

def load (group : List α) : Int := (group.map weight).sum

/-- The groups are `xs` cut into pieces. -/
structure IsPacking (xs : List α) (groups : List (List α)) : Prop where
  joined : groups.flatten = xs
  nonempty : ∀ g ∈ groups, g ≠ []
  within : ∀ g ∈ groups, load weight g ≤ budget ∨ g.length = 1

variable {weight budget} {xs g : List α} {groups : List (List α)} {x : α}

@[simp] theorem load_nil : load weight [] = 0 := rfl

@[simp] theorem load_snoc : load weight (g ++ [x]) = load weight g + weight x := by
  simp [load]

theorem IsPacking.nil : IsPacking weight budget [] [] :=
  ⟨rfl, fun _ h => by simp at h, fun _ h => by simp at h⟩

/-- The item begins a group, and may be over the budget alone. -/
theorem IsPacking.snoc (h : IsPacking weight budget xs groups) :
    IsPacking weight budget (xs ++ [x]) (groups ++ [[x]]) := by
  constructor
  · simp [h.joined]
  · intro g' hg
    rcases List.mem_append.mp hg with hold | hnew
    · exact h.nonempty g' hold
    · rw [List.mem_singleton.mp hnew]
      simp
  · intro g' hg
    rcases List.mem_append.mp hg with hold | hnew
    · exact h.within g' hold
    · right
      rw [List.mem_singleton.mp hnew]
      rfl

/-- The item joins the last group, where there is room for it. -/
theorem IsPacking.grow (h : IsPacking weight budget xs (groups ++ [g]))
    (hroom : load weight g + weight x ≤ budget) :
    IsPacking weight budget (xs ++ [x]) (groups ++ [g ++ [x]]) := by
  constructor
  · rw [← h.joined]
    simp
  · intro g' hg
    rcases List.mem_append.mp hg with hold | hnew
    · exact h.nonempty g' (List.mem_append_left _ hold)
    · rw [List.mem_singleton.mp hnew]
      simp
  · intro g' hg
    rcases List.mem_append.mp hg with hold | hnew
    · exact h.within g' (List.mem_append_left _ hold)
    · left
      rw [List.mem_singleton.mp hnew, load_snoc]
      exact hroom

end Packing

end PyClaw
