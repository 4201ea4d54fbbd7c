/-!
# Lib.Bisect

Binary search for the greatest number that fits, where with a number all smaller positive ones fit. The search
keeps the bounds `lo` and `hi` and the best number so far, and takes the middle rounded up; zero is passed over
without a look. `bisect_greatest`: it ends, after at most `hi + 1 - lo` rounds, with the greatest number.
-/

namespace PyClaw

/-- One round for each unit of fuel; `none` when the fuel runs out. -/
def bisect (fits : Nat → Bool) : Nat → Nat → Nat → Nat → Option Nat
  | 0, _, _, _ => none
  | fuel + 1, lo, hi, best =>
    if lo ≤ hi then
      let mid := (lo + hi + 1) / 2
      if mid = 0 then bisect fits fuel (mid + 1) hi best
      else if fits mid then bisect fits fuel (mid + 1) hi mid
      else bisect fits fuel lo (mid - 1) best
    else some best

/-- The greatest number up to `n` that fits; zero is taken to fit. -/
structure Greatest (fits : Nat → Bool) (n r : Nat) : Prop where
  le : r ≤ n
  fitting : r = 0 ∨ fits r = true
  greatest : ∀ m, r < m → m ≤ n → fits m = false

variable {fits : Nat → Bool} {lo hi best n : Nat}

/-- What holds before each round: everything below `lo` fits, and nothing above `hi` does. -/
structure Bracket (fits : Nat → Bool) (n lo hi best : Nat) : Prop where
  hi_le : hi ≤ n
  lo_le : lo ≤ hi + 1
  best_eq : best = lo - 1
  fitting : best = 0 ∨ fits best = true
  above : ∀ m, hi < m → m ≤ n → fits m = false

theorem bracket_start (fits : Nat → Bool) (n : Nat) : Bracket fits n 0 n 0 :=
  ⟨Nat.le_refl n, Nat.zero_le _, rfl, .inl rfl, fun _ hlt hle => absurd hlt (Nat.not_lt.mpr hle)⟩

theorem Bracket.lower (h : Bracket fits n lo hi best) {mid : Nat} (hmid : mid ≤ hi)
    (hfits : mid = 0 ∨ fits mid = true) : Bracket fits n (mid + 1) hi mid :=
  ⟨h.hi_le, by omega, by omega, hfits, h.above⟩

theorem Bracket.upper (hmono : ∀ m k, 0 < m → m ≤ k → fits k = true → fits m = true)
    (h : Bracket fits n lo hi best) {mid : Nat} (hpos : 0 < mid) (hlo : lo ≤ mid) (hmid : mid ≤ hi)
    (hfits : fits mid = false) : Bracket fits n lo (mid - 1) best := by
  refine ⟨by have := h.hi_le; omega, by omega, h.best_eq, h.fitting, fun m hm hn => ?_⟩
  cases hm' : fits m with
  | false => rfl
  | true =>
    rw [hmono mid m hpos (by omega) hm'] at hfits
    cases hfits

theorem Bracket.greatest (h : Bracket fits n lo hi best) (hdone : hi < lo) : Greatest fits n best := by
  have hlo := h.lo_le
  have hhi := h.hi_le
  have hbest := h.best_eq
  exact ⟨by omega, h.fitting, fun m hm hn => h.above m (by omega) hn⟩

/-- The search ends with the greatest number that fits. -/
theorem bisect_of_bracket (hmono : ∀ m k, 0 < m → m ≤ k → fits k = true → fits m = true)
    (h : Bracket fits n lo hi best) :
    ∃ r, Greatest fits n r ∧ ∀ fuel, hi + 1 - lo < fuel → bisect fits fuel lo hi best = some r := by
  induction hk : hi + 1 - lo using Nat.strongRecOn generalizing lo hi best with
  | ind k ih =>
    by_cases hdone : hi < lo
    · refine ⟨best, h.greatest hdone, fun fuel hfuel => ?_⟩
      obtain ⟨fuel, rfl⟩ := Nat.exists_eq_add_of_lt (Nat.lt_of_le_of_lt (Nat.zero_le _) hfuel)
      rw [Nat.zero_add, bisect, if_neg (by omega)]
    · let mid := (lo + hi + 1) / 2
      have hmid : mid = (lo + hi + 1) / 2 := rfl
      -- the three ways a round can go, each with smaller bounds
      obtain ⟨lo', hi', best', hbracket, hless, hround⟩ : ∃ lo' hi' best', Bracket fits n lo' hi' best' ∧
          hi' + 1 - lo' < hi + 1 - lo ∧
            ∀ fuel, bisect fits (fuel + 1) lo hi best = bisect fits fuel lo' hi' best' := by
        by_cases hzero : mid = 0
        · refine ⟨mid + 1, hi, best, ?_, by omega, fun fuel => ?_⟩
          · have hbest : best = mid := by have := h.best_eq; omega
            rw [hbest]
            exact h.lower (by omega) (.inl hzero)
          · rw [bisect, if_pos (by omega), if_pos (hmid ▸ hzero)]
        · cases hfits : fits mid with
          | true =>
            refine ⟨mid + 1, hi, mid, h.lower (by omega) (.inr hfits), by omega, fun fuel => ?_⟩
            rw [bisect, if_pos (by omega), if_neg (hmid ▸ hzero), if_pos (hmid ▸ hfits)]
          | false =>
            refine ⟨lo, mid - 1, best, h.upper hmono (by omega) (by omega) (by omega) hfits, by omega,
              fun fuel => ?_⟩
            rw [bisect, if_pos (by omega), if_neg (hmid ▸ hzero), if_neg (by rw [← hmid, hfits]; simp)]
      obtain ⟨r, hr, hend⟩ := ih _ (hk ▸ hless) hbracket rfl
      refine ⟨r, hr, fun fuel hfuel => ?_⟩
      obtain ⟨fuel, rfl⟩ := Nat.exists_eq_add_of_lt (Nat.lt_of_le_of_lt (Nat.zero_le _) hfuel)
      rw [Nat.zero_add, hround]
      exact hend fuel (by omega)

theorem bisect_greatest (hmono : ∀ m k, 0 < m → m ≤ k → fits k = true → fits m = true) (n : Nat) :
    ∃ r, Greatest fits n r ∧ ∀ fuel, n + 1 < fuel → bisect fits fuel 0 n 0 = some r :=
  bisect_of_bracket hmono (bracket_start fits n)

end PyClaw
