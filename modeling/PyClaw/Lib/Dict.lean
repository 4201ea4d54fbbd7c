import Mathlib.Data.List.Nodup
import Mathlib.Data.List.Perm.Basic

/-!
# Lib.Dict

Dictionaries with distinct keys that remember insertion order: assigning to a present key keeps
its place, assigning to an absent key puts it last. The distinctness of the keys is a field, so
no operation has to re-prove it.
-/

namespace PyClaw

structure Dict (κ ν : Type) where
  items : List (κ × ν)
  nodup : (items.map Prod.fst).Nodup
  deriving DecidableEq

namespace Dict

variable {κ ν : Type}

def empty : Dict κ ν := ⟨[], List.nodup_nil⟩

def keys (d : Dict κ ν) : List κ := d.items.map Prod.fst

def values (d : Dict κ ν) : List ν := d.items.map Prod.snd

@[simp] theorem keys_empty : (empty : Dict κ ν).keys = [] := rfl
@[simp] theorem items_empty : (empty : Dict κ ν).items = [] := rfl

theorem keys_nodup (d : Dict κ ν) : d.keys.Nodup := d.nodup

theorem mem_keys_of_mem {d : Dict κ ν} {k : κ} {v : ν} (h : (k, v) ∈ d.items) : k ∈ d.keys :=
  List.mem_map.mpr ⟨(k, v), h, rfl⟩

/-! ## Rewriting the values -/

def mapValues (f : κ → ν → ν) (d : Dict κ ν) : Dict κ ν :=
  ⟨d.items.map fun p => (p.1, f p.1 p.2), by
    rw [List.map_map]
    exact d.nodup⟩

theorem mem_items_mapValues {f : κ → ν → ν} {d : Dict κ ν} {k : κ} {w : ν}
    (h : (k, w) ∈ (d.mapValues f).items) : ∃ v, (k, v) ∈ d.items ∧ w = f k v := by
  obtain ⟨⟨k', v⟩, hv, he⟩ := List.mem_map.mp h
  cases he
  exact ⟨v, hv, rfl⟩

section
variable [DecidableEq κ]

/-! ## Lookup -/

theorem lookup_cons_ite (k k' : κ) (v : ν) (l : List (κ × ν)) :
    ((k, v) :: l).lookup k' = if k = k' then some v else l.lookup k' := by
  by_cases h : k = k'
  · rw [if_pos h, h, List.lookup_cons_self]
  · have : (k' == k) = false := beq_eq_false_iff_ne.mpr fun e => h e.symm
    rw [if_neg h, List.lookup_cons, this]

def get? (d : Dict κ ν) (k : κ) : Option ν := d.items.lookup k

def contains (d : Dict κ ν) (k : κ) : Bool := (d.get? k).isSome

theorem get?_eq_none {d : Dict κ ν} {k : κ} : d.get? k = none ↔ k ∉ d.keys := by
  rw [get?, List.lookup_eq_none_iff, keys, List.mem_map]
  constructor
  · rintro h ⟨p, hp, rfl⟩
    simpa using h p hp
  · intro h p hp
    have hne : k ≠ p.1 := by rintro rfl; exact h ⟨p, hp, rfl⟩
    simpa using hne

theorem mem_items_of_get? {d : Dict κ ν} {k : κ} {v : ν} (h : d.get? k = some v) :
    (k, v) ∈ d.items := by
  obtain ⟨l₁, l₂, he, -⟩ := List.lookup_eq_some_iff.mp h
  rw [he]; exact List.mem_append_right _ List.mem_cons_self

theorem mem_keys_of_get? {d : Dict κ ν} {k : κ} {v : ν} (h : d.get? k = some v) : k ∈ d.keys :=
  mem_keys_of_mem (mem_items_of_get? h)

/-- With distinct keys a pair that is listed is the one that lookup finds. -/
theorem get?_of_mem_items {d : Dict κ ν} {k : κ} {v : ν} (h : (k, v) ∈ d.items) :
    d.get? k = some v := by
  obtain ⟨l₁, l₂, he⟩ := List.append_of_mem h
  refine List.lookup_eq_some_iff.mpr ⟨l₁, l₂, he, fun p hp => ?_⟩
  have hnd := d.nodup
  rw [he, List.map_append, List.map_cons, List.nodup_append] at hnd
  have hne : k ≠ p.1 := (hnd.2.2 _ (List.mem_map_of_mem hp) _ List.mem_cons_self).symm
  simpa using hne

theorem get?_eq_some {d : Dict κ ν} {k : κ} {v : ν} : d.get? k = some v ↔ (k, v) ∈ d.items :=
  ⟨mem_items_of_get?, get?_of_mem_items⟩

theorem exists_get?_of_mem_keys {d : Dict κ ν} {k : κ} (h : k ∈ d.keys) :
    ∃ v, d.get? k = some v := by
  cases hg : d.get? k with
  | none => exact absurd h (get?_eq_none.mp hg)
  | some v => exact ⟨v, rfl⟩

theorem mem_values {d : Dict κ ν} {v : ν} : v ∈ d.values ↔ ∃ k, d.get? k = some v := by
  rw [values, List.mem_map]
  constructor
  · rintro ⟨⟨k, v⟩, hmem, rfl⟩
    exact ⟨k, get?_of_mem_items hmem⟩
  · rintro ⟨k, h⟩
    exact ⟨(k, v), mem_items_of_get? h, rfl⟩

theorem contains_iff {d : Dict κ ν} {k : κ} : d.contains k = true ↔ k ∈ d.keys := by
  rw [contains, Option.isSome_iff_exists]
  exact ⟨fun ⟨_, h⟩ => mem_keys_of_get? h, exists_get?_of_mem_keys⟩

theorem contains_eq_false {d : Dict κ ν} {k : κ} : d.contains k = false ↔ k ∉ d.keys := by
  rw [← contains_iff]; simp

/-- Looking up all keys in order gives the values. -/
theorem filterMap_keys_get? (d : Dict κ ν) : d.keys.filterMap d.get? = d.values := by
  rw [keys, values, List.filterMap_map, ← List.filterMap_eq_map]
  refine List.filterMap_congr fun p hp => ?_
  exact get?_of_mem_items hp

/-! ## Assignment -/

def assign (k : κ) (v : ν) : List (κ × ν) → List (κ × ν)
  | [] => [(k, v)]
  | (k', v') :: rest => if k' = k then (k', v) :: rest else (k', v') :: assign k v rest

theorem map_fst_assign (k : κ) (v : ν) (l : List (κ × ν)) :
    (assign k v l).map Prod.fst =
      if k ∈ l.map Prod.fst then l.map Prod.fst else l.map Prod.fst ++ [k] := by
  induction l with
  | nil => rfl
  | cons p rest ih =>
    obtain ⟨k', v'⟩ := p
    by_cases h : k' = k
    · simp [assign, h]
    · have h' : ¬ k = k' := fun e => h e.symm
      simp only [assign, if_neg h, List.map_cons, ih, List.mem_cons, h', false_or]
      split <;> rfl

theorem nodup_assign (k : κ) (v : ν) {l : List (κ × ν)} (h : (l.map Prod.fst).Nodup) :
    ((assign k v l).map Prod.fst).Nodup := by
  rw [map_fst_assign]
  split
  · exact h
  · rename_i hk
    exact List.nodup_append.mpr ⟨h, List.nodup_singleton k,
      fun a ha b hb => by rw [List.mem_singleton] at hb; rintro rfl; exact hk (hb ▸ ha)⟩

theorem assign_of_not_mem {k : κ} (v : ν) {l : List (κ × ν)} (h : k ∉ l.map Prod.fst) :
    assign k v l = l ++ [(k, v)] := by
  induction l with
  | nil => rfl
  | cons p rest ih =>
    obtain ⟨k', v'⟩ := p
    simp only [List.map_cons, List.mem_cons, not_or] at h
    simp only [assign, if_neg (fun e => h.1 e.symm : ¬ k' = k), List.cons_append, ih h.2]

theorem assign_of_mem {k : κ} (v : ν) {l : List (κ × ν)} (hnodup : (l.map Prod.fst).Nodup)
    (h : k ∈ l.map Prod.fst) : assign k v l = l.map fun p => if p.1 = k then (k, v) else p := by
  induction l with
  | nil => cases h
  | cons p rest ih =>
    obtain ⟨k', v'⟩ := p
    rw [List.map_cons, List.nodup_cons] at hnodup
    by_cases hk : k' = k
    · subst hk
      have hrest : rest.map (fun p => if p.1 = k' then (k', v) else p) = rest := by
        refine (List.map_congr_left fun p hp => ?_).trans (List.map_id rest)
        have hne : p.1 ≠ k' := fun e => hnodup.1 (e ▸ List.mem_map.mpr ⟨p, hp, rfl⟩)
        rw [if_neg hne, id]
      rw [assign, if_pos rfl, List.map_cons, if_pos rfl, hrest]
    · have hmem : k ∈ rest.map Prod.fst := (List.mem_cons.mp h).resolve_left fun e => hk e.symm
      rw [assign, if_neg hk, ih hnodup.2 hmem, List.map_cons, if_neg hk]

theorem lookup_assign (k k' : κ) (v : ν) (l : List (κ × ν)) :
    (assign k v l).lookup k' = if k = k' then some v else l.lookup k' := by
  induction l with
  | nil => rw [assign, lookup_cons_ite]
  | cons p rest ih =>
    obtain ⟨j, w⟩ := p
    by_cases hj : j = k
    · subst hj
      rw [assign, if_pos rfl, lookup_cons_ite, lookup_cons_ite]
      split <;> rfl
    · rw [assign, if_neg hj, lookup_cons_ite, lookup_cons_ite, ih]
      by_cases hk : j = k'
      · have : ¬ k = k' := fun e => hj (hk.trans e.symm)
        simp [hk, this]
      · simp [hk]

/-- `d[k] = v`. -/
def set (d : Dict κ ν) (k : κ) (v : ν) : Dict κ ν := ⟨assign k v d.items, nodup_assign k v d.nodup⟩

theorem get?_set (d : Dict κ ν) (k k' : κ) (v : ν) :
    (d.set k v).get? k' = if k = k' then some v else d.get? k' := lookup_assign k k' v d.items

@[simp] theorem get?_set_self (d : Dict κ ν) (k : κ) (v : ν) : (d.set k v).get? k = some v := by
  rw [get?_set, if_pos rfl]

theorem get?_set_ne (d : Dict κ ν) {k k' : κ} (v : ν) (h : k ≠ k') :
    (d.set k v).get? k' = d.get? k' := by
  rw [get?_set, if_neg h]

theorem items_set_of_not_mem {d : Dict κ ν} {k : κ} (v : ν) (h : k ∉ d.keys) :
    (d.set k v).items = d.items ++ [(k, v)] := assign_of_not_mem v h

theorem items_set_of_mem {d : Dict κ ν} {k : κ} (v : ν) (h : k ∈ d.keys) :
    (d.set k v).items = d.items.map fun p => if p.1 = k then (k, v) else p :=
  assign_of_mem v d.nodup h

theorem keys_set_of_not_mem {d : Dict κ ν} {k : κ} (v : ν) (h : k ∉ d.keys) :
    (d.set k v).keys = d.keys ++ [k] := by
  rw [keys, items_set_of_not_mem v h, List.map_append]; rfl

theorem mem_keys_set {d : Dict κ ν} {k k' : κ} {v : ν} :
    k' ∈ (d.set k v).keys ↔ k' = k ∨ k' ∈ d.keys := by
  rw [← contains_iff, contains, get?_set]
  by_cases h : k = k'
  · simp [h]
  · rw [if_neg h, ← contains, contains_iff]
    exact ⟨.inr, fun h' => h'.resolve_left fun e => h e.symm⟩

theorem mem_items_set {d : Dict κ ν} {k k' : κ} {v w : ν} (h : (k', w) ∈ (d.set k v).items) :
    k' = k ∧ w = v ∨ (k', w) ∈ d.items := by
  rw [← get?_eq_some, get?_set] at h
  split at h
  · rename_i hk
    cases h
    exact .inl ⟨hk.symm, rfl⟩
  · exact .inr (get?_eq_some.mp h)

theorem get?_mapValues {f : κ → ν → ν} {d : Dict κ ν} {k : κ} :
    (d.mapValues f).get? k = (d.get? k).map (f k) := by
  apply Option.ext
  intro w
  rw [get?_eq_some, Option.map_eq_some_iff]
  constructor
  · intro h
    obtain ⟨v, hv, hw⟩ := mem_items_mapValues h
    exact ⟨v, get?_eq_some.mpr hv, hw.symm⟩
  · rintro ⟨v, hv, rfl⟩
    exact List.mem_map.mpr ⟨(k, v), get?_eq_some.mp hv, rfl⟩

/-! ## Deletion -/

/-- `del d[k]`, or nothing when `k` is absent. -/
def erase (d : Dict κ ν) (k : κ) : Dict κ ν :=
  ⟨d.items.filter (fun p => p.1 ≠ k),
    d.nodup.sublist (List.Sublist.map _ List.filter_sublist)⟩

/-- The pairs that satisfy `p`. -/
def retain (p : κ → ν → Bool) (d : Dict κ ν) : Dict κ ν :=
  ⟨d.items.filter (fun e => p e.1 e.2), d.nodup.sublist (List.Sublist.map _ List.filter_sublist)⟩

theorem get?_retain {p : κ → ν → Bool} {d : Dict κ ν} {k : κ} :
    (d.retain p).get? k = (d.get? k).filter (p k) := by
  apply Option.ext
  intro v
  rw [get?_eq_some, Option.filter_eq_some_iff, get?_eq_some]
  exact List.mem_filter

theorem mem_items_erase {d : Dict κ ν} {k k' : κ} {v : ν} :
    (k', v) ∈ (d.erase k).items ↔ (k', v) ∈ d.items ∧ k' ≠ k := by
  simp [erase]

theorem mem_keys_erase {d : Dict κ ν} {k k' : κ} : k' ∈ (d.erase k).keys ↔ k' ≠ k ∧ k' ∈ d.keys := by
  constructor
  · intro h
    obtain ⟨⟨_, v⟩, hmem, rfl⟩ := List.mem_map.mp h
    obtain ⟨hold, hne⟩ := mem_items_erase.mp hmem
    exact ⟨hne, mem_keys_of_mem hold⟩
  · rintro ⟨hne, h⟩
    obtain ⟨⟨_, v⟩, hmem, rfl⟩ := List.mem_map.mp h
    exact mem_keys_of_mem (mem_items_erase.mpr ⟨hmem, hne⟩)

theorem get?_erase_ne {d : Dict κ ν} {k k' : κ} (h : k' ≠ k) :
    (d.erase k).get? k' = d.get? k' := by
  apply Option.ext
  intro v
  rw [get?_eq_some, get?_eq_some, mem_items_erase]
  exact ⟨And.left, fun hm => ⟨hm, h⟩⟩

theorem get?_erase_self (d : Dict κ ν) (k : κ) : (d.erase k).get? k = none := by
  cases h : (d.erase k).get? k with
  | none => rfl
  | some v => exact absurd rfl (mem_items_erase.mp (get?_eq_some.mp h)).2

end

end Dict

end PyClaw
