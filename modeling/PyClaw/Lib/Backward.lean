import Mathlib.Algebra.BigOperators.Group.List.Basic
import Mathlib.Algebra.Order.Ring.Int
import Mathlib.Order.Bounds.Basic

/-!
# Lib.Backward

Walks from the end of a list. `reach` looks for the last index from which on the weights of the
elements add up to a bound, `skip` moves an index back over blocked positions. The one after the other
finds the last position that is not blocked and from which on the bound is reached
(`skip_isGreatest`, `no_candidate`).
-/

namespace PyClaw
namespace Backward

section
variable {α : Type} (weight : α → Int) (xs : List α)

def total (xs : List α) : Int := (xs.map weight).sum

/-- `sum` is the weight from the current index on. -/
def reach (bound : Int) : Nat → Int → Option Nat
  | 0, _ => none
  | i + 1, sum =>
    let sum := sum + (xs[i]?.map weight).getD 0
    if bound ≤ sum then some i else reach bound i sum

def skip (blocked : Nat → Bool) : Nat → Nat
  | 0 => 0
  | i + 1 => if blocked (i + 1) then skip blocked i else i + 1

/-- A position inside the list, not blocked, from which on the bound is reached. -/
def Candidate (blocked : Nat → Bool) (bound : Int) (k : Nat) : Prop :=
  0 < k ∧ k < xs.length ∧ blocked k = false ∧ bound ≤ total weight (xs.drop k)

end

section
variable {α : Type} {weight : α → Int} {xs : List α} {bound : Int} {blocked : Nat → Bool}
  {i j k n : Nat}

theorem total_drop (weight : α → Int) (h : i < xs.length) :
    total weight (xs.drop i) = (xs[i]?.map weight).getD 0 + total weight (xs.drop (i + 1)) := by
  rw [List.drop_eq_getElem_cons h, List.getElem?_eq_getElem h]
  simp only [total, List.map_cons, List.sum_cons, Option.map_some, Option.getD_some]

theorem total_nonneg (hweight : ∀ x, 0 ≤ weight x) (xs : List α) : 0 ≤ total weight xs := by
  induction xs with
  | nil => simp [total]
  | cons x xs ih =>
    have hx := hweight x
    simp only [total, List.map_cons, List.sum_cons] at ih ⊢
    omega

/-- More elements weigh at least as much. -/
theorem total_drop_le (xs : List α) (hweight : ∀ x, 0 ≤ weight x) (hij : i ≤ j) :
    total weight (xs.drop j) ≤ total weight (xs.drop i) := by
  have hsplit : total weight (xs.drop i) =
      total weight ((xs.drop i).take (j - i)) + total weight (xs.drop j) := by
    have hdrop : (xs.drop i).drop (j - i) = xs.drop j := by
      rw [List.drop_drop]
      congr 1
      omega
    rw [← hdrop, total, total, total, ← List.sum_append, ← List.map_append, List.take_append_drop]
  have htake := total_nonneg hweight ((xs.drop i).take (j - i))
  omega

/-! ## `reach` -/

theorem reach_eq_some (hn : n ≤ xs.length) :
    reach weight xs bound n (total weight (xs.drop n)) = some i ↔
      i < n ∧ bound ≤ total weight (xs.drop i) ∧
        ∀ j, i < j → j < n → total weight (xs.drop j) < bound := by
  induction n with
  | zero => simp [reach]
  | succ n ih =>
    have hsum := total_drop weight (show n < xs.length by omega)
    simp only [reach]
    rw [Int.add_comm, ← hsum]
    split
    · rename_i hreached
      constructor
      · intro h
        cases h
        exact ⟨by omega, hreached, fun j _ _ => by omega⟩
      · rintro ⟨hlt, -, hlast⟩
        by_contra hne
        have hin : i < n := by
          have : n ≠ i := fun h => hne (congrArg some h)
          omega
        have := hlast n hin (by omega)
        omega
    · rename_i hshort
      rw [ih (by omega)]
      constructor
      · rintro ⟨hlt, hreached, hlast⟩
        refine ⟨by omega, hreached, fun j hij hjn => ?_⟩
        by_cases hj : j = n
        · subst hj
          omega
        · exact hlast j hij (by omega)
      · rintro ⟨hlt, hreached, hlast⟩
        have hin : i ≠ n := by
          rintro rfl
          exact hshort hreached
        exact ⟨by omega, hreached, fun j hij hjn => hlast j hij (by omega)⟩

theorem reach_eq_none (hn : n ≤ xs.length) :
    reach weight xs bound n (total weight (xs.drop n)) = none ↔
      ∀ j < n, total weight (xs.drop j) < bound := by
  induction n with
  | zero => simp [reach]
  | succ n ih =>
    have hsum := total_drop weight (show n < xs.length by omega)
    simp only [reach]
    rw [Int.add_comm, ← hsum]
    split
    · rename_i hreached
      simp only [reduceCtorEq, false_iff, not_forall]
      exact ⟨n, by omega, by omega⟩
    · rename_i hshort
      rw [ih (by omega)]
      constructor
      · intro h j hj
        by_cases hjn : j = n
        · subst hjn
          omega
        · exact h j (by omega)
      · intro h j hj
        exact h j (by omega)

/-! ## `skip` -/

theorem skip_le (blocked : Nat → Bool) (i : Nat) : skip blocked i ≤ i := by
  induction i with
  | zero => simp [skip]
  | succ i ih =>
    simp only [skip]
    split
    · omega
    · omega

theorem skip_free (h : 0 < skip blocked i) : blocked (skip blocked i) = false := by
  induction i with
  | zero => simp [skip] at h
  | succ i ih =>
    simp only [skip] at h ⊢
    split
    · rename_i hblocked
      rw [if_pos hblocked] at h
      exact ih h
    · rename_i hfree
      simpa using hfree

theorem skip_blocked (hlt : skip blocked i < j) (hle : j ≤ i) : blocked j = true := by
  induction i with
  | zero => omega
  | succ i ih =>
    simp only [skip] at hlt
    split at hlt
    · rename_i hblocked
      by_cases hj : j = i + 1
      · rw [hj]
        exact hblocked
      · exact ih hlt (by omega)
    · omega

/-! ## The one after the other -/

theorem candidate_le (h : reach weight xs bound xs.length 0 = some i)
    (hk : Candidate weight xs blocked bound k) : k ≤ skip blocked i := by
  obtain ⟨-, hlen, hfree, hreached⟩ := hk
  have hsome := (reach_eq_some (Nat.le_refl xs.length)).mp (by simpa [total] using h)
  have hki : k ≤ i := by
    by_contra hlt
    have := hsome.2.2 k (by omega) hlen
    omega
  by_contra hlt
  have hblocked : blocked k = true := skip_blocked (i := i) (by omega) hki
  simp [hfree] at hblocked

theorem skip_isGreatest (hweight : ∀ x, 0 ≤ weight x)
    (h : reach weight xs bound xs.length 0 = some i) (hpos : 0 < skip blocked i) :
    IsGreatest {k | Candidate weight xs blocked bound k} (skip blocked i) := by
  have hsome := (reach_eq_some (Nat.le_refl xs.length)).mp (by simpa [total] using h)
  have hle := skip_le blocked i
  have htotal := total_drop_le xs hweight hle
  refine ⟨⟨hpos, by omega, skip_free hpos, by omega⟩, ?_⟩
  intro k hk
  exact candidate_le h hk

theorem no_candidate (h : reach weight xs bound xs.length 0 = none ∨
      ∃ i, reach weight xs bound xs.length 0 = some i ∧ skip blocked i = 0) (k : Nat) :
    ¬ Candidate weight xs blocked bound k := by
  intro hk
  cases h with
  | inl hnone =>
    have hnone := (reach_eq_none (Nat.le_refl xs.length)).mp (by simpa [total] using hnone)
    have := hnone k hk.2.1
    have := hk.2.2.2
    omega
  | inr hsome =>
    obtain ⟨i, hreach, hskip⟩ := hsome
    have hle := candidate_le hreach hk
    have := hk.1
    omega

end

end Backward
end PyClaw
