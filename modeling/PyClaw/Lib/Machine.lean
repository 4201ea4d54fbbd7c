/-!
# Lib.Machine

Runs of a deterministic step function over a list of inputs. `Along step C s as` says that each
step of the run from `s` meets the condition `C` on the state before it; an invariant that such
steps keep then holds along the whole run (`Along.invariant`). For a step function that is not
total, `history_invariant` carries an invariant of the steps so far and the state they led to.
-/

namespace PyClaw

variable {σ τ α : Type}

def runFrom (step : σ → α → σ) : σ → List α → σ
  | s, [] => s
  | s, a :: as => runFrom step (step s a) as

def Along (step : σ → α → σ) (C : σ → α → Prop) : σ → List α → Prop
  | _, [] => True
  | s, a :: as => C s a ∧ Along step C (step s a) as

section
variable {step : σ → α → σ} {C D : σ → α → Prop} {I : σ → Prop} {s : σ} {as bs : List α}

instance decidableAlong [∀ s a, Decidable (C s a)] : ∀ s as, Decidable (Along step C s as)
  | _, [] => .isTrue trivial
  | s, a :: as => @instDecidableAnd _ _ _ (decidableAlong (step s a) as)

theorem runFrom_append : runFrom step s (as ++ bs) = runFrom step (runFrom step s as) bs := by
  induction as generalizing s with
  | nil => rfl
  | cons a as ih => exact ih

theorem along_append :
    Along step C s (as ++ bs) ↔ Along step C s as ∧ Along step C (runFrom step s as) bs := by
  induction as generalizing s with
  | nil => simp [Along, runFrom]
  | cons a as ih => simp only [List.cons_append, Along, runFrom, ih, and_assoc]

theorem along_of_forall (h : ∀ s a, C s a) : Along step C s as := by
  induction as generalizing s with
  | nil => trivial
  | cons a as ih => exact ⟨h s a, ih⟩

theorem Along.invariant (hstep : ∀ s a, I s → C s a → I (step s a)) (hs : I s)
    (h : Along step C s as) : I (runFrom step s as) := by
  induction as generalizing s with
  | nil => exact hs
  | cons a as ih => exact ih (hstep s a hs h.1) h.2

theorem runFrom_invariant (hstep : ∀ s a, I s → I (step s a)) (hs : I s) : I (runFrom step s as) := by
  induction as generalizing s with
  | nil => exact hs
  | cons a as ih => exact ih (hstep s a hs)

/-- A machine that `f` maps to another one, in the states of an invariant. -/
theorem runFrom_simulates {step' : τ → α → τ} {f : σ → τ} (hinv : ∀ s a, I s → I (step s a))
    (hsim : ∀ s a, I s → f (step s a) = step' (f s) a) (hs : I s) :
    f (runFrom step s as) = runFrom step' (f s) as := by
  induction as generalizing s with
  | nil => rfl
  | cons a as ih => rw [runFrom, runFrom, ih (hinv s a hs), hsim s a hs]

/-- Steps that meet `C` from states of the invariant meet `D`. -/
theorem Along.of_invariant (hstep : ∀ s a, I s → C s a → I (step s a) ∧ D s a) (hs : I s)
    (h : Along step C s as) : Along step D s as := by
  induction as generalizing s with
  | nil => trivial
  | cons a as ih =>
    obtain ⟨hnext, hd⟩ := hstep s a hs h.1
    exact ⟨hd, ih hnext h.2⟩

/-- Two conditions that say the same in the states of the invariant hold along the same runs. -/
theorem along_iff_of_invariant (hiff : ∀ s a, I s → (C s a ↔ D s a))
    (hstep : ∀ s a, I s → D s a → I (step s a)) (hs : I s) :
    Along step C s as ↔ Along step D s as := by
  constructor
  · refine Along.of_invariant (fun s a h hc => ?_) hs
    have hd := (hiff s a h).mp hc
    exact ⟨hstep s a h hd, hd⟩
  · exact Along.of_invariant (fun s a h hd => ⟨hstep s a h hd, (hiff s a h).mpr hd⟩) hs

theorem along_and :
    Along step (fun s a => C s a ∧ D s a) s as ↔ Along step C s as ∧ Along step D s as := by
  induction as generalizing s with
  | nil => simp [Along]
  | cons a as ih =>
    simp only [Along, ih]
    exact and_and_and_comm

/-- A run that does not meet `C` has a first step that does not. -/
theorem exists_first_of_not_along (h : ¬ Along step C s as) :
    ∃ before a after, as = before ++ a :: after ∧ Along step C s before ∧
      ¬ C (runFrom step s before) a := by
  induction as generalizing s with
  | nil => exact absurd trivial h
  | cons a as ih =>
    by_cases ha : C s a
    · obtain ⟨before, x, after, rfl, hbefore, hx⟩ := ih fun hrest => h ⟨ha, hrest⟩
      exact ⟨a :: before, x, after, rfl, ⟨ha, hbefore⟩, hx⟩
    · exact ⟨[], a, as, rfl, trivial, ha⟩

/-- Where a step that does not meet `C` leads to a state of `L`, and nothing leads out of `L`. -/
theorem along_iff_not_of_absorbing {L : σ → Prop} (hI : ∀ s a, I s → I (step s a))
    (hL : ∀ s a, L s → L (step s a)) (hC : ∀ s a, I s → ¬ L s → (C s a ↔ ¬ L (step s a))) (hs : I s)
    (hnot : ¬ L s) : Along step C s as ↔ ¬ L (runFrom step s as) := by
  induction as generalizing s with
  | nil => exact iff_of_true trivial hnot
  | cons a as ih =>
    by_cases ha : C s a
    · rw [Along, runFrom, ← ih (hI s a hs) ((hC s a hs hnot).mp ha)]
      exact ⟨And.right, fun h => ⟨ha, h⟩⟩
    · have hlost : L (step s a) := Classical.not_not.mp fun h => ha ((hC s a hs hnot).mpr h)
      have hend : L (runFrom step (step s a) as) := runFrom_invariant hL hlost
      exact iff_of_false (fun h => ha h.1) fun h => h hend

end

/-! ## Outputs -/

/-- What the steps of a run give back. -/
def outputsFrom {ω : Type} (step : σ → α → ω × σ) : σ → List α → List ω
  | _, [] => []
  | s, a :: as => (step s a).1 :: outputsFrom step (step s a).2 as

/-- Two machines whose steps from related states give back the same and keep the states related. -/
theorem outputsFrom_eq_of_related {ω : Type} {step : σ → α → ω × σ} {step' : τ → α → ω × τ}
    {R : σ → τ → Prop} {C : σ → α → Prop} {s : σ} {t : τ} {as : List α}
    (hstep : ∀ s t a, R s t → C s a → (step s a).1 = (step' t a).1 ∧ R (step s a).2 (step' t a).2)
    (hR : R s t) (h : Along (fun s a => (step s a).2) C s as) :
    outputsFrom step s as = outputsFrom step' t as := by
  induction as generalizing s t with
  | nil => rfl
  | cons a as ih =>
    obtain ⟨houtput, hnext⟩ := hstep s t a hR h.1
    rw [outputsFrom, outputsFrom, houtput, ih hnext h.2]

/-! ## Partial steps -/

def tryFrom (step : σ → α → Option σ) : σ → List α → Option σ
  | s, [] => some s
  | s, a :: as => (step s a).bind fun s' => tryFrom step s' as

theorem tryFrom_append {step : σ → α → Option σ} {s : σ} {as bs : List α} :
    tryFrom step s (as ++ bs) = (tryFrom step s as).bind fun t => tryFrom step t bs := by
  induction as generalizing s with
  | nil => rfl
  | cons a as ih =>
    simp only [List.cons_append, tryFrom, Option.bind_assoc]
    congr 1
    funext s'
    exact ih

theorem history_invariant {step : σ → α → Option σ} {I : List α → σ → Prop} {past as : List α}
    {s t : σ} (hstep : ∀ past s a s', I past s → step s a = some s' → I (past ++ [a]) s')
    (hs : I past s) (h : tryFrom step s as = some t) : I (past ++ as) t := by
  induction as generalizing past s with
  | nil =>
    cases h
    simpa using hs
  | cons a as ih =>
    obtain ⟨s', hs', hrest⟩ := Option.bind_eq_some_iff.mp h
    have hnext := ih (hstep past s a s' hs hs') hrest
    simpa using hnext

/-! A measure that every step lowers: runs are bounded by it, and go on until nothing can happen. -/

section
variable {step : σ → α → Option σ} {f : σ → Nat} {s t : σ} {as : List α}

theorem length_add_le_of_measure (hstep : ∀ s a s', step s a = some s' → f s' < f s)
    (h : tryFrom step s as = some t) : as.length + f t ≤ f s := by
  induction as generalizing s with
  | nil =>
    cases h
    simp
  | cons a as ih =>
    obtain ⟨s', hs', hrest⟩ := Option.bind_eq_some_iff.mp h
    have hlt := hstep s a s' hs'
    have hle := ih hrest
    rw [List.length_cons]
    omega

theorem exists_stuck_of_measure (hstep : ∀ s a s', step s a = some s' → f s' < f s) (s : σ) :
    ∃ as t, tryFrom step s as = some t ∧ ∀ a, step t a = none := by
  induction hn : f s using Nat.strongRecOn generalizing s with
  | ind n ih =>
    by_cases hstuck : ∀ a, step s a = none
    · exact ⟨[], s, rfl, hstuck⟩
    · obtain ⟨a, ha⟩ := Classical.not_forall.mp hstuck
      obtain ⟨s', hs'⟩ := Option.ne_none_iff_exists'.mp ha
      have hlt : f s' < n := hn ▸ hstep s a s' hs'
      obtain ⟨as, t, hrun, ht⟩ := ih (f s') hlt s' rfl
      refine ⟨a :: as, t, ?_, ht⟩
      rw [tryFrom, hs']
      exact hrun

end

end PyClaw
