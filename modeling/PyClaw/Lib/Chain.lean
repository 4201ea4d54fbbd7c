import Mathlib.Data.List.Nodup
import Mathlib.Data.List.Perm.Subperm

/-!
# Lib.Chain

Following parent pointers in a keyed store.

* `Path s p`: the walk from `s` visits the values `p` and then ends, at a root or at a key that
  is not stored. A walk on a cycle has no `Path`.
* `walk`: the fuel-bounded executable version; `walk_eq_some_iff` says that one unit of fuel more
  than there are keys decides whether the walk ends.
* `Path.of_rank`: pointers that decrease a rank make every walk end.
-/

namespace PyClaw

section
variable {κ ν : Type} {entry : κ → Option ν} {parent : ν → Option κ}

inductive Path (entry : κ → Option ν) (parent : ν → Option κ) : Option κ → List ν → Prop where
  | root : Path entry parent none []
  | missing {k : κ} : entry k = none → Path entry parent (some k) []
  | step {k : κ} {v : ν} {p : List ν} :
      entry k = some v → Path entry parent (parent v) p → Path entry parent (some k) (v :: p)

/-- `none` means that the fuel ran out before the walk ended. -/
def walk (entry : κ → Option ν) (parent : ν → Option κ) : Nat → Option κ → Option (List ν)
  | _, none => some []
  | 0, some _ => none
  | fuel + 1, some k =>
    match entry k with
    | none => some []
    | some v => (walk entry parent fuel (parent v)).map (v :: ·)

theorem Path.unique {s : Option κ} {p q : List ν} (hp : Path entry parent s p)
    (hq : Path entry parent s q) : p = q := by
  induction hp generalizing q with
  | root => cases hq; rfl
  | missing hn =>
    cases hq with
    | missing _ => rfl
    | step hs _ => rw [hn] at hs; cases hs
  | step hs _ ih =>
    cases hq with
    | missing hn => rw [hs] at hn; cases hn
    | step hs' hq' => rw [hs] at hs'; cases hs'; rw [ih hq']

theorem walk_sound {fuel : Nat} {s : Option κ} {p : List ν}
    (h : walk entry parent fuel s = some p) : Path entry parent s p := by
  induction fuel generalizing s p with
  | zero =>
    cases s with
    | none => simp only [walk] at h; cases h; exact .root
    | some k => simp [walk] at h
  | succ f ih =>
    cases s with
    | none => simp only [walk] at h; cases h; exact .root
    | some k =>
      simp only [walk] at h
      split at h
      · rename_i hn; cases h; exact .missing hn
      · rename_i v hv
        obtain ⟨q, hq, rfl⟩ := Option.map_eq_some_iff.mp h
        exact .step hv (ih hq)

theorem walk_of_path {s : Option κ} {p : List ν} (h : Path entry parent s p) :
    ∀ fuel, p.length < fuel → walk entry parent fuel s = some p := by
  induction h with
  | root => intro fuel _; cases fuel <;> rfl
  | missing hn =>
    intro fuel hf
    cases fuel with
    | zero => cases hf
    | succ f => simp [walk, hn]
  | step hs _ ih =>
    intro fuel hf
    cases fuel with
    | zero => cases hf
    | succ f => simp [walk, hs, ih f (by simpa using hf)]

/-- The keys a walk visits are distinct: revisiting one would give two walks from it of
different lengths. -/
theorem Path.visited {s : Option κ} {p : List ν} (h : Path entry parent s p) :
    ∃ ks : List κ, ks.length = p.length ∧ ks.Nodup ∧
      ∀ k ∈ ks, (∃ v, entry k = some v) ∧ ∃ q, Path entry parent (some k) q ∧ q.length ≤ p.length := by
  induction h with
  | root => exact ⟨[], rfl, List.nodup_nil, fun _ hk => absurd hk List.not_mem_nil⟩
  | missing _ => exact ⟨[], rfl, List.nodup_nil, fun _ hk => absurd hk List.not_mem_nil⟩
  | @step k v p hs hp ih =>
    obtain ⟨ks, hlen, hnd, hks⟩ := ih
    have hself : Path entry parent (some k) (v :: p) := .step hs hp
    refine ⟨k :: ks, by simp [hlen], List.nodup_cons.mpr ⟨fun hk => ?_, hnd⟩, fun j hj => ?_⟩
    · obtain ⟨-, q, hq, hle⟩ := hks k hk
      have := hq.unique hself
      subst this
      simp only [List.length_cons] at hle
      omega
    · rcases List.mem_cons.mp hj with rfl | hj
      · exact ⟨⟨v, hs⟩, v :: p, hself, Nat.le_refl _⟩
      · obtain ⟨hv, q, hq, hle⟩ := hks j hj
        exact ⟨hv, q, hq, by simp only [List.length_cons]; omega⟩

theorem Path.length_le {s : Option κ} {p : List ν} (h : Path entry parent s p) {keys : List κ}
    (hkeys : ∀ k v, entry k = some v → k ∈ keys) : p.length ≤ keys.length := by
  obtain ⟨ks, hlen, hnd, hks⟩ := h.visited
  have hsub : ks ⊆ keys := fun k hk => by
    obtain ⟨⟨v, hv⟩, -⟩ := hks k hk
    exact hkeys k v hv
  rw [← hlen]
  exact (List.subperm_of_subset hnd hsub).length_le

/-- With more fuel than keys, the bounded walk returns exactly when the walk ends. -/
theorem walk_eq_some_iff {s : Option κ} {p : List ν} {keys : List κ}
    (hkeys : ∀ k v, entry k = some v → k ∈ keys) :
    walk entry parent (keys.length + 1) s = some p ↔ Path entry parent s p :=
  ⟨walk_sound, fun h => walk_of_path h _ (Nat.lt_succ_of_le (h.length_le hkeys))⟩

theorem Path.of_rank {rank : κ → Nat}
    (h : ∀ k v, entry k = some v → ∀ k', parent v = some k' → rank k' < rank k) (s : Option κ) :
    ∃ p, Path entry parent s p := by
  suffices ∀ n k, rank k < n → ∃ p, Path entry parent (some k) p by
    cases s with
    | none => exact ⟨[], .root⟩
    | some k => exact this (rank k + 1) k (Nat.lt_succ_self _)
  intro n
  induction n with
  | zero => intro k hk; cases hk
  | succ n ih =>
    intro k hk
    cases he : entry k with
    | none => exact ⟨[], .missing he⟩
    | some v =>
      cases hp : parent v with
      | none => exact ⟨[v], .step he (hp ▸ .root)⟩
      | some k' =>
        obtain ⟨p, hpath⟩ := ih k' (by have := h k v he k' hp; omega)
        exact ⟨v :: p, .step he (hp ▸ hpath)⟩

/-- Storing a value under a key that no pointer names leaves every walk that does not start
there as it was. -/
theorem Path.extend {entry' : κ → Option ν} {k₀ : κ} {s : Option κ} {p : List ν}
    (h : Path entry parent s p) (hsame : ∀ k, k ≠ k₀ → entry' k = entry k) (hs : s ≠ some k₀)
    (hnp : ∀ k v, entry k = some v → parent v ≠ some k₀) : Path entry' parent s p := by
  induction h with
  | root => exact .root
  | @missing k hn => exact .missing (by rw [hsame k fun e => hs (congrArg some e)]; exact hn)
  | @step k v p hv _ ih =>
    have hk : entry' k = some v := by rw [hsame k fun e => hs (congrArg some e)]; exact hv
    exact .step hk (ih (hnp k v hv))

end

end PyClaw
