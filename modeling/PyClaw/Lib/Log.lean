import Mathlib.Data.List.Induction

/-!
# Lib.Log

Properties of growing logs: what holds of every item given the items before it.
-/

namespace PyClaw

section
variable {α : Type} {P Q : List α → α → Prop} {l : List α} {x : α}

/-- A position of `l ++ [x]` is the last one or a position of `l`. -/
theorem snoc_eq_append_cons {before after : List α} {p : α} (h : l ++ [x] = before ++ p :: after) :
    (before = l ∧ p = x ∧ after = []) ∨ ∃ after', l = before ++ p :: after' := by
  rcases List.append_eq_append_iff.mp h with ⟨mid, hb, hp⟩ | ⟨mid, hb, hp⟩
  · cases mid with
    | nil =>
      simp only [List.nil_append, List.cons.injEq] at hp
      exact .inl ⟨by rw [hb, List.append_nil], hp.1.symm, hp.2.symm⟩
    | cons q mid => simp at hp
  · cases mid with
    | nil =>
      simp only [List.nil_append, List.cons.injEq] at hp
      exact .inl ⟨by rw [hb, List.append_nil], hp.1, hp.2⟩
    | cons q mid =>
      simp only [List.cons_append, List.cons.injEq] at hp
      exact .inr ⟨mid, by rw [hb, hp.1]⟩

theorem filterMap_snoc {β : Type} (f : α → Option β) (l : List α) (x : α) :
    (l ++ [x]).filterMap f = l.filterMap f ++ (f x).toList := by
  rw [List.filterMap_append]
  cases hx : f x <;> simp [hx]

/-- `P before x` at every position `x` of the log. -/
def AtEach (P : List α → α → Prop) (l : List α) : Prop :=
  ∀ before x after, l = before ++ x :: after → P before x

theorem atEach_nil : AtEach P [] := fun before x after h => by simp at h

theorem atEach_snoc : AtEach P (l ++ [x]) ↔ AtEach P l ∧ P l x := by
  constructor
  · intro h
    exact ⟨fun before y after he => h before y (after ++ [x]) (by simp [he]), h l x [] rfl⟩
  · rintro ⟨hl, hx⟩ before y after he
    rcases snoc_eq_append_cons he with ⟨rfl, rfl, -⟩ | ⟨after', hold⟩
    · exact hx
    · exact hl before y after' hold

theorem AtEach.imp (h : AtEach P l) (hPQ : ∀ before, ∀ x ∈ l, P before x → Q before x) :
    AtEach Q l := by
  intro before x after he
  exact hPQ before x (he ▸ List.mem_append_right _ List.mem_cons_self) (h before x after he)

end

end PyClaw
