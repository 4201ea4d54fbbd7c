import Mathlib.Data.List.Sort
import Mathlib.Order.Defs.LinearOrder
import PyClaw.Lib.Sql

/-!
# Lib.SortedSet

Sorted sets: members with scores, the highest score first. Added to under growing scores, a sorted set
lists what a log of the additions lists newest first, but each member once (`newestOnce`).
-/

namespace PyClaw

section
variable {μ : Type}

/-! ## Logs, newest first -/

/-- Each member where it is first. -/
def newestOnce [DecidableEq μ] : List (Int × μ) → List (Int × μ)
  | [] => []
  | p :: rest => p :: (newestOnce rest).filter fun q => q.2 ≠ p.2

section
variable [DecidableEq μ] {log : List (Int × μ)} {p : Int × μ}

theorem mem_of_mem_newestOnce (h : p ∈ newestOnce log) : p ∈ log := by
  induction log with
  | nil => exact h
  | cons q rest ih =>
    rcases List.mem_cons.mp h with rfl | h
    · exact List.mem_cons_self
    · exact List.mem_cons_of_mem _ (ih (List.mem_of_mem_filter h))

theorem newestOnce_filter (m : μ) :
    newestOnce (log.filter fun q => q.2 ≠ m) = (newestOnce log).filter fun q => q.2 ≠ m := by
  induction log with
  | nil => rfl
  | cons p rest ih =>
    by_cases hp : p.2 = m
    · -- the members equal to `m` are gone already
      subst hp
      rw [List.filter_cons_of_neg (by simp), ih, newestOnce, List.filter_cons_of_neg (by simp),
        List.filter_filter]
      simp only [Bool.and_self]
    · simp only [newestOnce, List.filter_cons, hp, ne_eq, not_false_eq_true, decide_true, if_true, ih,
        List.filter_filter, Bool.and_comm]

theorem take_filter {α : Type} {q : α → Bool} {l : List α} {n : Nat} (h : ∀ x ∈ l.take n, q x = true) :
    (l.filter q).take n = l.take n := by
  induction l generalizing n with
  | nil => rfl
  | cons x rest ih =>
    cases n with
    | zero => rfl
    | succ n =>
      rw [List.take_succ_cons] at h
      rw [List.filter_cons_of_pos (h x List.mem_cons_self), List.take_succ_cons, List.take_succ_cons,
        ih fun y hy => h y (List.mem_cons_of_mem _ hy)]

/-- As long as no member comes twice, listing each once changes nothing. -/
theorem take_newestOnce {n : Nat} (h : ((log.take n).map Prod.snd).Nodup) :
    (newestOnce log).take n = log.take n := by
  induction log generalizing n with
  | nil => rfl
  | cons p rest ih =>
    cases n with
    | zero => rfl
    | succ n =>
      rw [List.take_succ_cons, List.map_cons, List.nodup_cons] at h
      have hrest := ih h.2
      have hother : ∀ q ∈ (newestOnce rest).take n, decide (q.2 ≠ p.2) = true := by
        intro q hq
        rw [hrest] at hq
        exact decide_eq_true fun he => h.1 (he ▸ List.mem_map_of_mem hq)
      rw [newestOnce, List.take_succ_cons, List.take_succ_cons, take_filter hother, hrest]

omit [DecidableEq μ] in
/-- A log that grew in the order of its times, sorted by them. -/
theorem orderDesc_of_increasing (h : log.Pairwise fun a b => a.1 < b.1) :
    Sql.orderDesc Prod.fst log = log.reverse := by
  induction log with
  | nil => rfl
  | cons p rest ih =>
    obtain ⟨hp, hrest⟩ := List.pairwise_cons.mp h
    have hlast : ∀ l : List (Int × μ), (∀ q ∈ l, p.1 < q.1) →
        l.orderedInsert (fun a b => b.1 ≤ a.1) p = l ++ [p] := by
      intro l hl
      induction l with
      | nil => rfl
      | cons q l ihl =>
        have hq : ¬ q.1 ≤ p.1 := not_le.mpr (hl q List.mem_cons_self)
        rw [List.orderedInsert_cons, if_neg hq, ihl fun x hx => hl x (List.mem_cons_of_mem _ hx),
          List.cons_append]
    have hsort : Sql.orderDesc Prod.fst (p :: rest) =
        (Sql.orderDesc Prod.fst rest).orderedInsert (fun a b => b.1 ≤ a.1) p := rfl
    rw [hsort, ih hrest, hlast _ fun q hq => hp q (List.mem_reverse.mp hq), List.reverse_cons]

end

/-! ## Sorted sets -/

variable [LinearOrder μ]

/-- The higher score; of one score the greater member. -/
def Above (a b : Int × μ) : Prop := b.1 < a.1 ∨ b.1 = a.1 ∧ b.2 ≤ a.2

instance (a b : Int × μ) : Decidable (Above a b) := inferInstanceAs (Decidable (_ ∨ _))

instance : Std.Total (Above (μ := μ)) where
  total a b := by
    rcases lt_trichotomy a.1 b.1 with h | h | h
    · exact .inr (.inl h)
    · rcases le_total a.2 b.2 with hle | hle
      · exact .inr (.inr ⟨h, hle⟩)
      · exact .inl (.inr ⟨h.symm, hle⟩)
    · exact .inl (.inl h)

instance : IsTrans (Int × μ) Above where
  trans := by
    rintro a b c (hab | ⟨hab, hle⟩) (hbc | ⟨hbc, hle'⟩)
    · exact .inl (hbc.trans hab)
    · exact .inl (hbc ▸ hab)
    · exact .inl (hab ▸ hbc)
    · exact .inr ⟨hbc.trans hab, hle'.trans hle⟩

structure SortedSet (μ : Type) [LinearOrder μ] where
  items : List (Int × μ)
  sorted : items.Pairwise Above
  nodup : (items.map Prod.snd).Nodup

namespace SortedSet

def empty : SortedSet μ := ⟨[], .nil, List.nodup_nil⟩

/-- `ZREM`. -/
def zrem (s : SortedSet μ) (m : μ) : SortedSet μ where
  items := s.items.filter fun p => p.2 ≠ m
  sorted := s.sorted.filter _
  nodup := s.nodup.sublist (List.filter_sublist.map _)

/-- `ZADD`, which moves a member that is there. -/
def zadd (s : SortedSet μ) (score : Int) (m : μ) : SortedSet μ where
  items := (s.zrem m).items.orderedInsert Above (score, m)
  sorted := (s.zrem m).sorted.orderedInsert _ _
  nodup := by
    rw [(((s.zrem m).items.perm_orderedInsert Above (score, m)).map Prod.snd).nodup_iff, List.map_cons,
      List.nodup_cons]
    refine ⟨fun hmem => ?_, (s.zrem m).nodup⟩
    obtain ⟨p, hp, he⟩ := List.mem_map.mp hmem
    exact absurd he (by simpa using List.of_mem_filter hp)

/-- `ZREVRANGEBYSCORE +inf -inf LIMIT 0 num`: all of them if `num` is negative. -/
def zrevrange (s : SortedSet μ) (num : Int) : List μ := (Sql.limit num s.items).map Prod.snd

@[simp] theorem items_empty : (empty : SortedSet μ).items = [] := rfl

theorem items_zrem (s : SortedSet μ) (m : μ) : (s.zrem m).items = s.items.filter fun p => p.2 ≠ m := rfl

/-- A score above all others puts the member first. -/
theorem items_zadd_of_above {s : SortedSet μ} {score : Int} (m : μ) (h : ∀ p ∈ s.items, p.1 < score) :
    (s.zadd score m).items = (score, m) :: s.items.filter fun p => p.2 ≠ m := by
  have hitems : (s.zadd score m).items = (s.items.filter fun p => p.2 ≠ m).orderedInsert Above (score, m) :=
    rfl
  rw [hitems]
  cases hfilter : s.items.filter fun p => p.2 ≠ m with
  | nil => rfl
  | cons p rest =>
    have hp : p ∈ s.items := List.mem_of_mem_filter (hfilter ▸ List.mem_cons_self)
    exact List.orderedInsert_cons_of_le _ _ (.inl (h p hp))

end SortedSet

end

end PyClaw
