import PyClaw.Lib.Dict

/-!
# Lib.Duplicates

Removing repeated items from a list. `key` tells under which key an item is remembered, if under any,
`stamp` what is remembered of it, and `drops x v` whether `x` repeats what is remembered as `v`. A
dropped item does not change what is remembered.

* `keeps_dropped`: a dropped item repeats one that is kept before it.
* `remove_idem`: what is left has no more repetitions.
* `remove_map`, `remove_sublist`: the items that are left keep their order, and tags on the items do not matter.
-/

namespace PyClaw

/-- The elements whose flag is set. -/
def select {α : Type} : List Bool → List α → List α
  | true :: flags, x :: xs => x :: select flags xs
  | false :: flags, _ :: xs => select flags xs
  | _, _ => []

namespace Duplicates

section
variable {α κ β : Type} [DecidableEq κ] (key : α → Option κ) (stamp : α → β) (drops : α → β → Bool)

/-- `x` repeats what `seen` has under its key. -/
def repeats (seen : Dict κ β) (x : α) (k : κ) : Bool := (seen.get? k).any (drops x)

def remove (seen : Dict κ β) : List α → List α
  | [] => []
  | x :: rest =>
    match key x with
    | none => x :: remove seen rest
    | some k =>
      if repeats drops seen x k then remove seen rest
      else x :: remove (seen.set k (stamp x)) rest

/-- Which of the items are kept. -/
def keeps (seen : Dict κ β) : List α → List Bool
  | [] => []
  | x :: rest =>
    match key x with
    | none => true :: keeps seen rest
    | some k =>
      if repeats drops seen x k then false :: keeps seen rest
      else true :: keeps (seen.set k (stamp x)) rest

end

section
variable {α κ β : Type} [DecidableEq κ] {key : α → Option κ} {stamp : α → β} {drops : α → β → Bool}

theorem keeps_length (seen : Dict κ β) (xs : List α) :
    (keeps key stamp drops seen xs).length = xs.length := by
  induction xs generalizing seen with
  | nil => rfl
  | cons x rest ih =>
    simp only [keeps]
    split
    · simp [ih]
    · split
      · simp [ih]
      · simp [ih]

theorem remove_eq_select (seen : Dict κ β) (xs : List α) :
    remove key stamp drops seen xs = select (keeps key stamp drops seen xs) xs := by
  induction xs generalizing seen with
  | nil => rfl
  | cons x rest ih =>
    simp only [remove, keeps]
    split
    · simp [select, ih]
    · split
      · simp [select, ih]
      · simp [select, ih]

theorem remove_sublist (seen : Dict κ β) (xs : List α) : (remove key stamp drops seen xs).Sublist xs := by
  induction xs generalizing seen with
  | nil => exact .slnil
  | cons x rest ih =>
    simp only [remove]
    split
    · exact (ih seen).cons_cons x
    · split
      · exact (ih seen).cons x
      · exact (ih _).cons_cons x

theorem remove_map {γ : Type} (f : γ → α) (seen : Dict κ β) (xs : List γ) :
    (remove (key ∘ f) (stamp ∘ f) (drops ∘ f) seen xs).map f = remove key stamp drops seen (xs.map f) := by
  induction xs generalizing seen with
  | nil => rfl
  | cons x rest ih =>
    simp only [List.map_cons, remove, Function.comp_apply]
    split
    · rw [List.map_cons, ih]
    · rename_i k hk
      have hsame : repeats (drops ∘ f) seen x k = repeats drops seen (f x) k := rfl
      rw [hsame]
      split
      · exact ih seen
      · rw [List.map_cons, ih]

/-- What is left is left again, from any memory. -/
theorem remove_idem (seen : Dict κ β) (xs : List α) :
    remove key stamp drops seen (remove key stamp drops seen xs) = remove key stamp drops seen xs := by
  induction xs generalizing seen with
  | nil => rfl
  | cons x rest ih =>
    cases hkey : key x with
    | none => simp [remove, hkey, ih]
    | some k =>
      cases hrep : repeats drops seen x k with
      | true => simp [remove, hkey, hrep, ih]
      | false => simp [remove, hkey, hrep, ih]

/-- What a dropped item repeats: something remembered from before the list, or an item kept in it. -/
theorem keeps_dropped {seen : Dict κ β} {xs : List α} {i : Nat} {x : α} (hx : xs[i]? = some x)
    (hdropped : (keeps key stamp drops seen xs)[i]? = some false) :
    ∃ k, key x = some k ∧ (repeats drops seen x k = true ∨
      ∃ j y, j < i ∧ xs[j]? = some y ∧ (keeps key stamp drops seen xs)[j]? = some true ∧
        key y = some k ∧ drops x (stamp y) = true) := by
  induction xs generalizing seen i with
  | nil => simp at hx
  | cons head rest ih =>
    cases hkey : key head with
    | none =>
      simp only [keeps, hkey] at hdropped ⊢
      cases i with
      | zero => simp at hdropped
      | succ i =>
        obtain ⟨k, hk, hrep | ⟨j, y, hj, hy, hkept, hrest⟩⟩ := ih hx hdropped
        · exact ⟨k, hk, .inl hrep⟩
        · exact ⟨k, hk, .inr ⟨j + 1, y, by omega, hy, hkept, hrest⟩⟩
    | some kh =>
      cases hhead : repeats drops seen head kh with
      | true =>
        simp only [keeps, hkey, hhead, if_true] at hdropped ⊢
        cases i with
        | zero =>
          cases hx
          exact ⟨kh, hkey, .inl hhead⟩
        | succ i =>
          obtain ⟨k, hk, hrep | ⟨j, y, hj, hy, hkept, hrest⟩⟩ := ih hx hdropped
          · exact ⟨k, hk, .inl hrep⟩
          · exact ⟨k, hk, .inr ⟨j + 1, y, by omega, hy, hkept, hrest⟩⟩
      | false =>
        simp only [keeps, hkey, hhead, Bool.false_eq_true, if_false] at hdropped ⊢
        cases i with
        | zero => simp at hdropped
        | succ i =>
          obtain ⟨k, hk, hrep | ⟨j, y, hj, hy, hkept, hrest⟩⟩ := ih hx hdropped
          · by_cases hsame : kh = k
            · -- The memory of `k` is the one of the head, which is kept.
              subst hsame
              rw [repeats, Dict.get?_set_self] at hrep
              exact ⟨kh, hk, .inr ⟨0, head, by omega, rfl, rfl, hkey, by simpa using hrep⟩⟩
            · rw [repeats, Dict.get?_set_ne _ _ hsame] at hrep
              exact ⟨k, hk, .inl hrep⟩
          · exact ⟨k, hk, .inr ⟨j + 1, y, by omega, hy, hkept, hrest⟩⟩

end

end Duplicates

end PyClaw
