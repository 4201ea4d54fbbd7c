import Mathlib.Data.List.Induction
import PyClaw.Lib.Chain
import PyClaw.Lib.Log

/-!
# Lib.Trail

A log whose items point back to the item before them, and a store that holds any part of it: the walk
from the newest item visits an end of the log (`path_suffix`).
-/

namespace PyClaw

section
variable {κ ν : Type} {key : ν → κ} {parent : ν → Option κ} {get : κ → Option ν} {l : List ν} {x : ν}

/-- An item points to the newest one, or to none. -/
def PointsBack (key : ν → κ) (parent : ν → Option κ) (before : List ν) (x : ν) : Prop :=
  parent x = none ∨ parent x = before.getLast?.map key

/-- The store has nothing else under the keys of the log. -/
def Holds (key : ν → κ) (get : κ → Option ν) (l : List ν) : Prop :=
  ∀ x ∈ l, ∀ y, get (key x) = some y → y = x

theorem path_suffix (hlinked : AtEach (PointsBack key parent) l) (h : Holds key get l) :
    ∃ p, Path get parent (l.getLast?.map key) p ∧ p.reverse <:+ l := by
  induction l using List.reverseRecOn with
  | nil => exact ⟨[], .root, List.suffix_refl _⟩
  | append_singleton l x ih =>
    obtain ⟨hbefore, hx⟩ := atEach_snoc.mp hlinked
    rw [List.getLast?_concat, Option.map_some]
    cases hget : get (key x) with
    | none => exact ⟨[], .missing hget, List.nil_suffix⟩
    | some y =>
      obtain rfl := h x (List.mem_append_right l List.mem_cons_self) y hget
      rcases hx with hroot | hlast
      · exact ⟨[y], .step hget (hroot ▸ .root), List.suffix_append l [y]⟩
      · obtain ⟨p, hp, before, rfl⟩ := ih hbefore fun x hx => h x (List.mem_append_left _ hx)
        exact ⟨y :: p, .step hget (hlast ▸ hp), before, by simp⟩

end

end PyClaw
