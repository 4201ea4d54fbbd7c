import Mathlib.Logic.Function.Basic

/-!
# Lib.Table

Tables as functions to `Option`, written with `Function.update`: where the entries of a table come
from that was just written.
-/

namespace PyClaw

variable {κ ν : Type} [DecidableEq κ] {t : κ → Option ν} {k k' : κ} {v : Option ν} {x : ν}

theorem update_eq_some :
    Function.update t k v k' = some x ↔ k' = k ∧ v = some x ∨ k' ≠ k ∧ t k' = some x := by
  by_cases hk : k' = k
  · subst hk
    simp
  · simp [hk]

theorem update_none_eq_some :
    Function.update t k none k' = some x ↔ k' ≠ k ∧ t k' = some x := by
  simp [update_eq_some]

end PyClaw
