import PyClaw.Lib.Machine

/-!
# Lib.Unwinding

Noninterference by unwinding. A run of a machine is compared with the run in which the hidden inputs
were never made: a relation that hidden inputs keep on the left side alone, and visible ones on both
sides, relates the two results.
-/

namespace PyClaw

section
variable {σ α : Type} {step : σ → α → σ} {hidden : α → Bool} {C : σ → α → Prop} {R : σ → σ → Prop}

/-- The inputs that are not hidden. -/
def purge (hidden : α → Bool) (as : List α) : List α := as.filter fun a => !hidden a

theorem unwinding (hhidden : ∀ s s' a, R s s' → hidden a = true → C s a → R (step s a) s')
    (hvisible : ∀ s s' a, R s s' → hidden a = false → R (step s a) (step s' a))
    {s s' : σ} {as : List α} (h : R s s') (hC : Along step C s as) :
    R (runFrom step s as) (runFrom step s' (purge hidden as)) := by
  induction as generalizing s s' with
  | nil => exact h
  | cons a as ih =>
    cases ha : hidden a with
    | true =>
      have hpurge : purge hidden (a :: as) = purge hidden as := by simp [purge, ha]
      rw [hpurge]
      exact ih (hhidden s s' a h ha hC.1) hC.2
    | false =>
      have hpurge : purge hidden (a :: as) = a :: purge hidden as := by simp [purge, ha]
      rw [hpurge]
      exact ih (hvisible s s' a h ha) hC.2

end

end PyClaw
