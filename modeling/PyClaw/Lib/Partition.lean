import Mathlib.Data.Set.Basic
import Mathlib.Logic.Function.Basic
import PyClaw.Lib.Machine

/-!
# Lib.Partition

A store cut into cells: a request of key `k` reads and writes the cell `part k` only. Keys that
share a cell share what is in it. `cell_run_own`: where `part` separates the keys in use, the cell
of a key is what the requests of that key alone have made of it.
-/

namespace PyClaw

namespace Partition

variable {κ ν σ α ρ : Type} [DecidableEq ν]

/-- Different keys of `K` have different cells. -/
def SeparatedOn (part : κ → Option ν) (K : Set κ) : Prop :=
  ∀ k ∈ K, ∀ k' ∈ K, ∀ p, part k = some p → part k' = some p → k = k'

variable (part : κ → Option ν) (act : κ → α → σ → ρ × σ)

/-- Serves one request; a key without a cell changes nothing. -/
def step (s : ν → σ) (op : κ × α) : ν → σ :=
  match part op.1 with
  | none => s
  | some p => Function.update s p (act op.1 op.2 (s p)).2

/-- One cell serves one request. -/
def cellStep (d : σ) (op : κ × α) : σ := (act op.1 op.2 d).2

variable {part act} {s : ν → σ} {ops : List (κ × α)}

theorem step_of_part {op : κ × α} {p : ν} (h : part op.1 = some p) :
    step part act s op p = cellStep act (s p) op := by
  rw [step, h]
  exact Function.update_self ..

theorem step_of_ne {op : κ × α} {p : ν} (h : part op.1 ≠ some p) :
    step part act s op p = s p := by
  cases hq : part op.1 with
  | none => rw [step, hq]
  | some q =>
    have hne : p ≠ q := by
      rintro rfl
      exact h hq
    rw [step, hq]
    exact Function.update_of_ne hne ..

/-- A cell has seen the requests of its own keys, in order. -/
theorem cell_run (p : ν) :
    runFrom (step part act) s ops p =
      runFrom (cellStep act) (s p) (ops.filter fun op => part op.1 = some p) := by
  induction ops generalizing s with
  | nil => rfl
  | cons op ops ih =>
    rw [runFrom, ih]
    by_cases h : part op.1 = some p
    · rw [step_of_part h, List.filter_cons_of_pos (by simpa using h), runFrom]
    · rw [step_of_ne h, List.filter_cons_of_neg (by simpa using h)]

variable [DecidableEq κ]

theorem cell_run_own {K : Set κ} (hsep : SeparatedOn part K) (hops : ∀ op ∈ ops, op.1 ∈ K) {k : κ}
    (hk : k ∈ K) {p : ν} (hp : part k = some p) :
    runFrom (step part act) s ops p =
      runFrom (cellStep act) (s p) (ops.filter fun op => op.1 = k) := by
  rw [cell_run]
  congr 1
  refine List.filter_congr fun op hop => ?_
  have : part op.1 = some p ↔ op.1 = k := by
    constructor
    · intro h
      exact hsep op.1 (hops op hop) k hk p h hp
    · intro h
      rw [h, hp]
  simp [this]

end Partition

end PyClaw
