import Mathlib.Data.List.Infix
import Mathlib.Data.List.Sort
import PyClaw.Lib.Dict

/-!
# Lib.Sql

The parts of SQL that statements over a keyed table use: `LIKE`, `ORDER BY .. DESC`, `LIMIT`, and
`INSERT .. ON CONFLICT(id) DO UPDATE`. A table is a `Dict` from its primary key, in rowid order.
-/

namespace PyClaw

namespace Sql

/-- `text LIKE pattern`: `%` is any text, `_` any one character, letters compare without their
ASCII case. -/
def like : List Char → List Char → Bool
  | [] => List.isEmpty
  | p :: pattern => fun text =>
    if p = '%' then text.tails.any (like pattern)
    else match text with
      | [] => false
      | c :: rest => (p = '_' || p.toLower = c.toLower) && like pattern rest

/-- `n` negative: no limit. -/
def limit {α : Type} (n : Int) (rows : List α) : List α :=
  if n < 0 then rows else rows.take n.toNat

/-- `ORDER BY key DESC`, rows of one key in the order of the table. -/
def orderDesc {α : Type} (key : α → Int) (rows : List α) : List α :=
  rows.insertionSort fun a b => key b ≤ key a

section
variable {α κ ν : Type}

theorem mem_of_mem_limit {n : Int} {rows : List α} {x : α} (h : x ∈ limit n rows) : x ∈ rows := by
  unfold limit at h
  split at h
  · exact h
  · exact List.mem_of_mem_take h

theorem limit_map {β : Type} (f : α → β) (n : Int) (rows : List α) :
    (limit n rows).map f = limit n (rows.map f) := by
  unfold limit
  split
  · rfl
  · exact List.map_take

theorem mem_orderDesc {key : α → Int} {rows : List α} {x : α} :
    x ∈ orderDesc key rows ↔ x ∈ rows := List.mem_insertionSort _

/-! The first row of `ORDER BY key DESC`. -/

section
variable {key : α → Int} {rows : List α} {x y : α}

theorem pairwise_orderDesc (key : α → Int) (rows : List α) :
    (orderDesc key rows).Pairwise fun x y => key y ≤ key x := by
  have htrans : IsTrans α fun x y => key y ≤ key x := ⟨fun _ _ _ hxy hyz => Int.le_trans hyz hxy⟩
  have htotal : Std.Total fun x y : α => key y ≤ key x := ⟨fun _ _ => Int.le_total _ _⟩
  exact List.pairwise_insertionSort _ rows

theorem exists_head?_orderDesc (key : α → Int) (h : x ∈ rows) :
    ∃ first, (orderDesc key rows).head? = some first := by
  have hmem : x ∈ orderDesc key rows := mem_orderDesc.mpr h
  cases hsorted : orderDesc key rows with
  | nil =>
    rw [hsorted] at hmem
    cases hmem
  | cons first rest => exact ⟨first, rfl⟩

theorem mem_of_head?_orderDesc (h : (orderDesc key rows).head? = some x) : x ∈ rows :=
  mem_orderDesc.mp (List.mem_of_mem_head? h)

theorem le_of_head?_orderDesc (h : (orderDesc key rows).head? = some x) (hy : y ∈ rows) :
    key y ≤ key x := by
  have hsorted := pairwise_orderDesc key rows
  have hmem : y ∈ orderDesc key rows := mem_orderDesc.mpr hy
  obtain ⟨rest, hrest⟩ := List.head?_eq_some_iff.mp h
  rw [hrest] at hsorted hmem
  rcases List.mem_cons.mp hmem with rfl | hmem
  · exact Int.le_refl _
  · exact List.rel_of_pairwise_cons hsorted hmem

/-- A row with one before it whose key is not less is not the first. -/
theorem head?_orderDesc_ne (hnodup : rows.Nodup) (hbefore : [y, x].Sublist rows) (hle : key x ≤ key y) :
    (orderDesc key rows).head? ≠ some x := by
  intro hfirst
  have hsub : [y, x].Sublist (orderDesc key rows) := List.pair_sublist_insertionSort hle hbefore
  have hsorted : (orderDesc key rows).Nodup := (List.perm_insertionSort _ rows).nodup_iff.mpr hnodup
  obtain ⟨rest, hrest⟩ := List.head?_eq_some_iff.mp hfirst
  rw [hrest] at hsub hsorted
  have hx : x ∈ rest := by
    cases hsub with
    | cons _ h => exact h.subset (by simp)
    | cons_cons _ h => exact h.subset (by simp)
  exact (List.nodup_cons.mp hsorted).1 hx

end

variable [DecidableEq κ]

def upsert (t : Dict κ ν) (id : κ) (row : ν) (update : ν → ν) : Dict κ ν :=
  match t.get? id with
  | none => t.set id row
  | some old => t.set id (update old)

theorem mem_upsert {t : Dict κ ν} {id k : κ} {row w : ν} {update : ν → ν}
    (h : (k, w) ∈ (upsert t id row update).items) :
    k = id ∧ (w = row ∨ ∃ old, (id, old) ∈ t.items ∧ w = update old) ∨ (k, w) ∈ t.items := by
  unfold upsert at h
  cases hold : t.get? id with
  | none =>
    rw [hold] at h
    rcases Dict.mem_items_set h with ⟨hk, hw⟩ | hmem
    · exact .inl ⟨hk, .inl hw⟩
    · exact .inr hmem
  | some old =>
    rw [hold] at h
    rcases Dict.mem_items_set h with ⟨hk, hw⟩ | hmem
    · exact .inl ⟨hk, .inr ⟨old, Dict.get?_eq_some.mp hold, hw⟩⟩
    · exact .inr hmem

end

end Sql

end PyClaw
