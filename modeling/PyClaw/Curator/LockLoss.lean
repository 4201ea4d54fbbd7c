import PyClaw.Curator.Cycle

/-!
# Curator.LockLoss

What a cycle does once its lock is lost. The checks inside the scan of a database are gathered with
their exceptions, so such a loss is an error of the report, and only a check of the review can still
end the cycle. `honoursLoss_iff` says which cycles report the loss and write no mark.
-/

namespace PyClaw

namespace CuratorCycle

/-- A check has failed. -/
def Lost (l : List CycleEvent) : Prop := .checked false ∈ l

instance (l : List CycleEvent) : Decidable (Lost l) := inferInstanceAs (Decidable (_ ∈ l))

def Marked (l : List CycleEvent) : Prop := .scanMarked ∈ l ∨ .reviewMarked ∈ l

variable (cycle : CuratorCycle) (world : CycleWorld)

/-- If a check fails, the report says so and no mark is written. -/
def HonoursLoss : Prop :=
  Lost (cycle.execute world).2 →
    (cycle.execute world).1.error = some .lockLost ∧ ¬ Marked (cycle.execute world).2

/-- The first check to fail is one of those for the scan of a database. -/
def LosesInScan : Prop :=
  cycle.mode = .scanAndReview ∧ 2 ≤ world.aliveChecks ∧
    world.aliveChecks < 2 + world.scanFiles.length

/-- The interval between two reviews has passed. -/
def IntervalPassed : Prop :=
  ∃ lastRun, world.lastReviewAt = some lastRun ∧
    ∀ t ∈ lastRun, ¬ world.now - t < cycle.settings.llmReviewIntervalSeconds

/-- The review gets as far as a check. -/
def ReviewChecks : Prop :=
  cycle.settings.llmReviewEnabled = true ∧ (cycle.hasLlmClient = true ∧ cycle.hasWorkspace = true) ∧
    (cycle.forceReview = true ∨ cycle.IntervalPassed world) ∧ world.reviewFiles ≠ []

/-! ## Checks -/

variable {cycle world}

theorem lost_checked {l : List CycleEvent} {alive : Bool} :
    Lost (l ++ [.checked alive]) ↔ Lost l ∨ alive = false := by
  simp [Lost]

@[simp] theorem marked_checked {l : List CycleEvent} {alive : Bool} :
    Marked (l ++ [.checked alive]) ↔ Marked l := by
  simp [Marked]

theorem checkAlive_triple {P : List CycleEvent → CycleState → Prop}
    {Q : Unit → List CycleEvent → CycleState → Prop}
    {E : CycleException → List CycleEvent → CycleState → Prop}
    (hok : ∀ l s k, P l s → s.aliveChecks = k + 1 →
      Q () (l ++ [.checked true]) { s with aliveChecks := k })
    (hlost : ∀ l s, P l s → s.aliveChecks = 0 → E .lockLost (l ++ [.checked false]) s) :
    Prog.Triple P checkAlive Q E := by
  refine Prog.Triple.getBind fun s₀ => ?_
  cases hchecks : s₀.aliveChecks with
  | zero =>
    refine Prog.Triple.bind (Prog.Triple.emit (Q := fun _ => E .lockLost) ?_) fun _ =>
      Prog.Triple.raise fun _ _ => id
    rintro l s ⟨hs, rfl⟩
    exact hlost l s hs hchecks
  | succ k =>
    refine Prog.Triple.bind (Prog.Triple.modify
      (Q := fun _ l s => Q () (l ++ [.checked true]) s) ?_) fun _ => Prog.Triple.emit fun _ _ => id
    rintro l s ⟨hs, rfl⟩
    exact hok l s k hs hchecks

theorem orRaise_triple {α : Type} {o : Option α} {P : List CycleEvent → CycleState → Prop}
    {Q : α → List CycleEvent → CycleState → Prop}
    {E : CycleException → List CycleEvent → CycleState → Prop}
    (hsome : ∀ a, o = some a → ∀ l s, P l s → Q a l s)
    (hnone : o = none → ∀ l s, P l s → E .other l s) : Prog.Triple P (orRaise o) Q E := by
  cases o with
  | some a => exact Prog.Triple.pure (hsome a rfl)
  | none => exact Prog.Triple.raise (hnone rfl)

/-! ## The scan -/

/-- After the scans of the first databases, with `k` checks left at the start. -/
structure Scanned (k : Nat) (done : List String) (l : List CycleEvent) (s : CycleState) : Prop where
  error : s.error = none
  unmarked : ¬ Marked l
  checks : s.aliveChecks = k - done.length
  lost : Lost l ↔ k < done.length

theorem Scanned.ok {k : Nat} {done : List String} {l : List CycleEvent} {s : CycleState}
    (h : Scanned k done l s) {n : Nat} (hchecks : s.aliveChecks = n + 1) (dbFile : String) :
    Scanned k (done ++ [dbFile]) (l ++ [.checked true]) { s with aliveChecks := n } := by
  have hleft := h.checks
  refine ⟨h.error, by rw [marked_checked]; exact h.unmarked, ?_, ?_⟩
  · rw [List.length_append, List.length_singleton]
    show n = _
    omega
  · rw [lost_checked, h.lost, List.length_append, List.length_singleton]
    constructor
    · rintro (hlt | hfalse)
      · omega
      · cases hfalse
    · intro hlt
      left
      omega

theorem Scanned.fails {k : Nat} {done : List String} {l : List CycleEvent} {s : CycleState}
    (h : Scanned k done l s) (hchecks : s.aliveChecks = 0) (dbFile : String) :
    Scanned k (done ++ [dbFile]) (l ++ [.checked false]) s := by
  have hleft := h.checks
  refine ⟨h.error, by rw [marked_checked]; exact h.unmarked, ?_, ?_⟩
  · rw [List.length_append, List.length_singleton]
    omega
  · rw [lost_checked, List.length_append, List.length_singleton]
    constructor
    · intro _
      omega
    · exact fun _ => .inr rfl

/-- A scan of a database spends one check, and raises nothing. -/
theorem gathered_triple {k : Nat} {done : List String} (dbFile : String) :
    Prog.Triple (Scanned k done)
      (Prog.caught (boundedScan world dbFile))
      (fun _ => Scanned k (done ++ [dbFile])) (fun _ _ _ => False) := by
  refine Prog.Triple.caught (Prog.Triple.bind (Q := fun _ => Scanned k (done ++ [dbFile])) ?_ ?_)
  · exact checkAlive_triple (fun l s n h hchecks => h.ok hchecks dbFile)
      fun l s h hchecks => h.fails hchecks dbFile
  · exact fun _ => orRaise_triple (fun _ _ _ _ => id) fun _ _ _ => id

/-- After the scan: a loss in it has left no checks. -/
structure AfterScan (cycle : CuratorCycle) (world : CycleWorld) (l : List CycleEvent)
    (s : CycleState) : Prop where
  error : s.error = none
  unmarked : ¬ Marked l
  lost : Lost l ↔ cycle.LosesInScan world
  checks : Lost l → s.aliveChecks = 0

/-- Before the gathered scans: `spent` checks have succeeded. -/
structure Begun (world : CycleWorld) (spent : Nat) (l : List CycleEvent) (s : CycleState) : Prop where
  error : s.error = none
  unmarked : ¬ Marked l
  found : ¬ Lost l
  checks : s.aliveChecks + spent = world.aliveChecks

/-- A check before the gathered scans ends the scan when it fails. -/
theorem begun_triple {spent : Nat} (hspent : spent < 2) :
    Prog.Triple (Begun world spent) checkAlive (fun _ => Begun world (spent + 1))
      (fun e l _ => e = .lockLost ∧ ¬ cycle.LosesInScan world ∧ ¬ Marked l) := by
  refine checkAlive_triple (fun l s k h hchecks => ?_) fun l s h hchecks => ?_
  · have hleft := h.checks
    refine ⟨h.error, by rw [marked_checked]; exact h.unmarked, ?_, ?_⟩
    · rw [lost_checked]
      simpa using h.found
    · show k + (spent + 1) = _
      omega
  · have hleft := h.checks
    refine ⟨rfl, fun hscan => ?_, by rw [marked_checked]; exact h.unmarked⟩
    have htwo := hscan.2.1
    omega

theorem Begun.scanned {l : List CycleEvent} {s : CycleState} (h : Begun world 2 l s) :
    2 ≤ world.aliveChecks ∧ Scanned (world.aliveChecks - 2) [] l s := by
  have hchecks := h.checks
  refine ⟨by omega, h.error, h.unmarked, ?_, ?_⟩
  · rw [List.length_nil]
    omega
  · exact iff_of_false h.found (Nat.not_lt_zero _)

theorem Scanned.afterScan {l : List CycleEvent} {s : CycleState} (hmode : cycle.mode = .scanAndReview)
    (htwo : 2 ≤ world.aliveChecks) (h : Scanned (world.aliveChecks - 2) world.scanFiles l s) :
    cycle.AfterScan world l s := by
  have hlost : Lost l ↔ cycle.LosesInScan world := by
    rw [h.lost, LosesInScan]
    constructor
    · intro hlt
      exact ⟨hmode, htwo, by omega⟩
    · rintro ⟨-, -, hlt⟩
      omega
  refine ⟨h.error, h.unmarked, hlost, fun hloss => ?_⟩
  have hlt := h.lost.mp hloss
  rw [h.checks]
  omega

theorem runCuratorScan_triple (hmode : cycle.mode = .scanAndReview) :
    Prog.Triple (Begun world 1) (runCuratorScan world) (fun _ => cycle.AfterScan world)
      (fun e l _ => e = .lockLost ∧ ¬ cycle.LosesInScan world ∧ ¬ Marked l) := by
  refine Prog.Triple.bind (begun_triple (by decide)) fun _ => ?_
  refine Prog.Triple.strengthen ?_ fun l s => Begun.scanned
  refine Prog.Triple.assume fun htwo => ?_
  refine Prog.Triple.bind
    (Q := fun _ => Scanned (world.aliveChecks - 2) world.scanFiles) ?_ fun results => ?_
  · refine (Prog.Triple.mapEach world.scanFiles fun done dbFile rest _ => ?_).conseq
      (fun _ _ => id) (fun _ _ _ => id) fun _ _ _ => False.elim
    exact Prog.Triple.bind (gathered_triple dbFile) fun _ => Prog.Triple.pure fun _ _ => id
  · exact Prog.Triple.pure fun l s => Scanned.afterScan hmode htwo

theorem runScan_triple (hmode : cycle.mode = .scanAndReview) :
    Prog.Triple (Begun world 0) (runScan world) (fun _ => cycle.AfterScan world)
      (fun e l _ => e = .lockLost ∧ ¬ cycle.LosesInScan world ∧ ¬ Marked l) := by
  refine Prog.Triple.bind (begun_triple (by decide)) fun _ => ?_
  refine Prog.Triple.bind (runCuratorScan_triple hmode) fun report => Prog.Triple.modify ?_
  exact fun l s h => ⟨h.error, h.unmarked, h.lost, h.checks⟩

/-! ## The review -/

/-- No check has failed, and nothing is marked. -/
structure Sound (l : List CycleEvent) (s : CycleState) : Prop where
  error : s.error ≠ some .lockLost
  unmarked : ¬ Marked l
  found : ¬ Lost l

/-- What is left of `Sound` when the lock is lost, or something else is raised. -/
def Raised (e : CycleException) (l : List CycleEvent) (s : CycleState) : Prop :=
  ¬ Marked l ∧ (e = .other → Sound l s)

theorem check_triple : Prog.Triple Sound checkAlive (fun _ => Sound) Raised := by
  refine checkAlive_triple (fun l s k h _ => ?_) fun l s h _ => ?_
  · exact ⟨h.error, by rw [marked_checked]; exact h.unmarked, by
      rw [lost_checked]
      simpa using h.found⟩
  · exact ⟨by rw [marked_checked]; exact h.unmarked, fun he => by cases he⟩

theorem orRaise_sound {α : Type} (o : Option α) :
    Prog.Triple Sound (orRaise o) (fun _ => Sound) Raised :=
  orRaise_triple (fun _ _ _ _ => id) fun _ _ _ h => ⟨h.unmarked, fun _ => h⟩

theorem applyDecisions_triple (w : ReviewWorld) (entries : List String)
    (decisions : List ReviewDecision) (outcome : ReviewOutcome) :
    Prog.Triple Sound (cycle.applyDecisions w entries decisions outcome) (fun _ => Sound)
      Raised := by
  induction decisions generalizing outcome with
  | nil => exact Prog.Triple.pure fun _ _ => id
  | cons d rest ih =>
    have hwrite : ∀ outcome', Prog.Triple Sound (do
        checkAlive
        orRaise (if w.updates d then some () else none)
        cycle.applyDecisions w entries rest outcome') (fun _ => Sound) Raised :=
      fun outcome' => Prog.Triple.bind check_triple fun _ =>
        Prog.Triple.bind (orRaise_sound _) fun _ => ih outcome'
    rw [applyDecisions]
    refine Prog.Triple.ite (fun _ => ih outcome) fun _ => ?_
    refine Prog.Triple.ite (fun _ => ?_) fun _ => ?_
    · refine Prog.Triple.ite (fun _ => ?_) fun _ => ih outcome
      exact Prog.Triple.ite (fun _ => hwrite _) fun _ => ih _
    · exact Prog.Triple.ite (fun _ => hwrite _) fun _ => ih outcome

theorem runLlmReview_triple (w : ReviewWorld) :
    Prog.Triple Sound (cycle.runLlmReview w) (fun _ => Sound) Raised := by
  refine Prog.Triple.bind check_triple fun _ => ?_
  refine Prog.Triple.bind (orRaise_sound _) fun entries => ?_
  refine Prog.Triple.ite (fun _ => Prog.Triple.pure fun _ _ => id) fun _ => ?_
  refine Prog.Triple.bind check_triple fun _ => ?_
  cases w.reply with
  | none => exact Prog.Triple.pure fun _ _ => id
  | some decisions => exact applyDecisions_triple w entries decisions _

theorem reviewDb_triple (dbFile : String) :
    Prog.Triple Sound (cycle.reviewDb world dbFile) (fun _ => Sound) Raised := by
  refine Prog.Triple.bind check_triple fun _ => ?_
  refine Prog.Triple.bind (Q := fun r l s => ¬ Marked l ∧ (r ≠ .error .lockLost → Sound l s)) ?_ ?_
  · refine Prog.Triple.caught ((runLlmReview_triple _).conseq (fun _ _ => id) ?_ ?_)
    · exact fun _ _ _ h => ⟨h.unmarked, fun _ => h⟩
    · rintro e l s ⟨hunmarked, hother⟩
      refine ⟨hunmarked, fun hne => hother ?_⟩
      cases e with
      | lockLost => exact absurd rfl hne
      | other => rfl
  · intro r
    cases r with
    | ok outcome =>
      refine Prog.Triple.modify fun l s h => ?_
      have hsound := h.2 (by simp)
      exact ⟨hsound.error, hsound.unmarked, hsound.found⟩
    | error e =>
      cases e with
      | lockLost => exact Prog.Triple.raise fun l s h => ⟨h.1, fun he => by cases he⟩
      | other => exact Prog.Triple.pure fun l s h => h.2 (by simp)

theorem reviewAll_triple :
    Prog.Triple Sound (cycle.reviewAll world) (fun _ => Sound) Raised := by
  refine Prog.Triple.ite (fun _ => Prog.Triple.pure fun _ _ => id) fun _ => ?_
  refine Prog.Triple.bind check_triple fun _ => ?_
  refine Prog.Triple.bind (Q := fun _ => Sound) ?_ fun _ => ?_
  · exact Prog.Triple.forEach (I := fun _ => Sound) _ fun _ dbFile _ _ => reviewDb_triple dbFile
  · exact Prog.Triple.modify fun l s h => ⟨h.error, h.unmarked, h.found⟩

/-- The decision whether to review makes no check. -/
theorem should_triple {P : List CycleEvent → CycleState → Prop}
    (henabled : cycle.settings.llmReviewEnabled = true) :
    Prog.Triple P (cycle.reviewDue world)
      (fun should l s => (should = true ↔ cycle.forceReview = true ∨ cycle.IntervalPassed world) ∧
        P l s)
      (fun e l s => ¬ (cycle.forceReview = true ∨ cycle.IntervalPassed world) ∧ e = .other ∧
        P l s) := by
  refine Prog.Triple.ite (fun hforce => Prog.Triple.pure fun l s h => ?_) fun hforce => ?_
  · exact ⟨iff_of_true rfl (.inl hforce), h⟩
  · rw [shouldRunLlmReview, if_pos henabled]
    refine Prog.Triple.bind (Q := fun lastRun l s => world.lastReviewAt = some lastRun ∧ P l s)
      ?_ fun lastRun => ?_
    · refine orRaise_triple (fun lastRun hlast l s h => ⟨hlast, h⟩) fun hnone l s h => ⟨?_, rfl, h⟩
      rintro (hf | ⟨lastRun, hlast, -⟩)
      · exact hforce hf
      · rw [hnone] at hlast
        cases hlast
    · refine Prog.Triple.assume fun hlast => ?_
      have hpassed : cycle.IntervalPassed world ↔
          ∀ t ∈ lastRun, ¬ world.now - t < cycle.settings.llmReviewIntervalSeconds := by
        rw [IntervalPassed, hlast]
        simp
      cases lastRun with
      | none =>
        refine Prog.Triple.pure fun l s h => ⟨iff_of_true rfl (.inr (hpassed.mpr ?_)), h⟩
        simp
      | some t =>
        refine Prog.Triple.pure fun l s h => ⟨?_, h⟩
        rw [hpassed]
        simp [hforce]

theorem skipReview_triple {P : List CycleEvent → Prop} {E : CycleException → List CycleEvent →
    CycleState → Prop} :
    Prog.Triple (fun l _ => P l) skipReview (fun _ l s => P l ∧ s.error ≠ some .lockLost) E :=
  Prog.Triple.modify fun l s h => ⟨h, by simp⟩

/-- As long as no check has failed, a loss during the review is raised. -/
theorem review_sound :
    Prog.Triple Sound (cycle.runReviewIfPermitted world) (fun _ => Sound) Raised := by
  have hskip : Prog.Triple Sound skipReview (fun _ => Sound) Raised :=
    Prog.Triple.modify fun l s h => ⟨by simp, h.unmarked, h.found⟩
  refine Prog.Triple.ite (fun henabled => ?_) fun _ => hskip
  refine Prog.Triple.ite (fun _ => ?_) fun _ => Prog.Triple.pure fun _ _ => id
  refine Prog.Triple.bind (Q := fun _ => Sound) ?_ fun should => ?_
  · exact (should_triple henabled).conseq (fun _ _ => id) (fun _ _ _ => And.right)
      fun _ _ _ h => ⟨h.2.2.unmarked, fun _ => h.2.2⟩
  exact Prog.Triple.ite (fun _ => reviewAll_triple) fun _ => hskip

/-- A review that makes a check finds out that the lock is lost. -/
theorem review_lost (hchecks : cycle.ReviewChecks world) :
    Prog.Triple (fun l s => ¬ Marked l ∧ s.aliveChecks = 0) (cycle.runReviewIfPermitted world)
      (fun _ _ _ => False) (fun e l _ => e = .lockLost ∧ ¬ Marked l) := by
  obtain ⟨henabled, hready, hdue, hfiles⟩ := hchecks
  rw [runReviewIfPermitted, if_pos henabled, if_pos hready]
  refine Prog.Triple.bind ((should_triple henabled).conseq (fun _ _ => id) (fun _ _ _ => id)
    fun _ _ _ h => absurd hdue h.1) fun should => ?_
  refine Prog.Triple.assume fun hshould => ?_
  rw [if_pos (hshould.mpr hdue), reviewAll, if_neg hfiles]
  refine Prog.Triple.bind (Q := fun _ _ _ => False) (checkAlive_triple ?_ ?_) fun _ => ?_
  · intro l s k h hleft
    rw [h.2] at hleft
    cases hleft
  · exact fun l s h _ => ⟨rfl, by rw [marked_checked]; exact h.1⟩
  · exact fun _ _ => False.elim

/-- A review that makes no check lets the cycle go on. -/
theorem review_unnoticed (hchecks : ¬ cycle.ReviewChecks world) :
    Prog.Triple (fun l s => Lost l ∧ s.error ≠ some .lockLost) (cycle.runReviewIfPermitted world)
      (fun _ l s => Lost l ∧ s.error ≠ some .lockLost)
      (fun e l s => e = .other ∧ Lost l ∧ s.error ≠ some .lockLost) := by
  have hskip : Prog.Triple (fun l s => Lost l ∧ s.error ≠ some .lockLost) skipReview
      (fun _ l s => Lost l ∧ s.error ≠ some .lockLost)
      (fun e l s => e = .other ∧ Lost l ∧ s.error ≠ some .lockLost) :=
    skipReview_triple.strengthen fun _ _ => And.left
  refine Prog.Triple.ite (fun henabled => ?_) fun _ => hskip
  refine Prog.Triple.ite (fun hready => ?_) fun _ => Prog.Triple.pure fun _ _ => id
  refine Prog.Triple.bind ((should_triple henabled).conseq (fun _ _ => id) (fun _ _ _ => id)
    fun _ _ _ => And.right) fun should => ?_
  refine Prog.Triple.assume fun hshould => Prog.Triple.ite (fun htrue => ?_) fun _ => hskip
  have hnofiles : world.reviewFiles = [] := Classical.byContradiction fun hfiles =>
    hchecks ⟨henabled, hready, hshould.mp htrue, hfiles⟩
  rw [reviewAll, if_pos hnofiles]
  exact Prog.Triple.pure fun _ _ => id

/-! ## The cycle -/

theorem mark_triple {due succeeds : Bool} {event : CycleEvent}
    {P : List CycleEvent → CycleState → Prop} (h : ∀ l s, P l s → P (l ++ [event]) s) :
    Prog.Triple P (mark due succeeds event) (fun _ => P) (fun e l s => e = .other ∧ P l s) := by
  refine Prog.Triple.ite (fun _ => ?_) fun _ => Prog.Triple.pure fun _ _ => id
  exact Prog.Triple.ite (fun _ => Prog.Triple.emit h) fun _ => Prog.Triple.raise fun _ _ h => ⟨rfl, h⟩

/-- The marks make no check and leave the error of the report alone. -/
theorem markCompletion_triple {P : List CycleEvent → CycleState → Prop}
    (hscan : ∀ l s, P l s → P (l ++ [.scanMarked]) s)
    (hreview : ∀ l s, P l s → P (l ++ [.reviewMarked]) s) :
    Prog.Triple P (cycle.markCompletion world) (fun _ => P) (fun e l s => e = .other ∧ P l s) := by
  refine Prog.Triple.getBind fun s₀ => Prog.Triple.strengthen ?_ fun _ _ => And.left
  refine Prog.Triple.ite (fun _ => Prog.Triple.pure fun _ _ => id) fun _ => ?_
  exact Prog.Triple.bind (mark_triple hscan) fun _ => mark_triple hreview

theorem lost_mark {l : List CycleEvent} {event : CycleEvent} (h : event ≠ .checked false) :
    Lost (l ++ [event]) ↔ Lost l := by
  simp [Lost, h.symm]

/-- A cycle that does not lose its lock in the scan of a database raises every loss. -/
theorem critical_sound (hscan : ¬ cycle.LosesInScan world) :
    Prog.Triple (Begun world 0) (cycle.criticalSection world) (fun _ l _ => ¬ Lost l)
      (fun e l _ => e = .lockLost ∧ ¬ Marked l ∨ e = .other ∧ ¬ Lost l) := by
  refine Prog.Triple.bind (Q := fun _ => Sound) ?_ fun _ =>
    Prog.Triple.bind (Q := fun _ l _ => ¬ Lost l) ?_ fun _ => ?_
  · refine Prog.Triple.ite (fun hmode => ?_) fun _ => Prog.Triple.pure fun l s h => ?_
    · refine (runScan_triple hmode).conseq (fun _ _ => id) (fun _ l s h => ?_)
        fun e l s h => .inl ⟨h.1, h.2.2⟩
      exact ⟨by rw [h.error]; simp, h.unmarked, fun hlost => hscan (h.lost.mp hlost)⟩
    · exact ⟨by rw [h.error]; simp, h.unmarked, h.found⟩
  · refine review_sound.conseq (fun _ _ => id) (fun _ _ _ h => h.found) fun e l s h => ?_
    cases e with
    | lockLost => exact .inl ⟨rfl, h.1⟩
    | other => exact .inr ⟨rfl, (h.2 rfl).found⟩
  · refine (markCompletion_triple (P := fun l _ => ¬ Lost l) ?_ ?_).conseq (fun _ _ => id)
      (fun _ _ _ => id) fun _ _ _ => .inr
    · exact fun l _ h => by rwa [lost_mark (by simp)]
    · exact fun l _ h => by rwa [lost_mark (by simp)]

theorem afterScan_of_loses (hscan : cycle.LosesInScan world) :
    Prog.Triple (Begun world 0) (cycle.scanIfDue world)
      (fun _ l s => cycle.AfterScan world l s ∧ Lost l) (fun _ _ _ => False) := by
  rw [scanIfDue, if_pos hscan.1]
  exact (runScan_triple hscan.1).conseq (fun _ _ => id) (fun _ _ _ h => ⟨h, h.lost.mpr hscan⟩)
    fun _ _ _ h => absurd hscan h.2.1

/-- A loss in the scan that the review finds out. -/
theorem critical_found (hscan : cycle.LosesInScan world) (hchecks : cycle.ReviewChecks world) :
    Prog.Triple (Begun world 0) (cycle.criticalSection world) (fun _ _ _ => False)
      (fun e l _ => e = .lockLost ∧ ¬ Marked l) := by
  refine Prog.Triple.bind ((afterScan_of_loses hscan).conseq (fun _ _ => id)
    (fun _ l s h => (⟨h.1.unmarked, h.1.checks h.2⟩ : ¬ Marked l ∧ s.aliveChecks = 0))
    fun _ _ _ => False.elim) fun _ => ?_
  exact Prog.Triple.bind (review_lost hchecks) fun _ _ _ => False.elim

/-- A loss in the scan that nothing finds out. -/
theorem critical_unnoticed (hscan : cycle.LosesInScan world) (hchecks : ¬ cycle.ReviewChecks world) :
    Prog.Triple (Begun world 0) (cycle.criticalSection world)
      (fun _ l s => Lost l ∧ s.error ≠ some .lockLost)
      (fun e l s => e = .other ∧ Lost l ∧ s.error ≠ some .lockLost) := by
  refine Prog.Triple.bind ((afterScan_of_loses hscan).conseq (fun _ _ => id)
    (fun _ l s h => (⟨h.2, by rw [h.1.error]; simp⟩ : Lost l ∧ s.error ≠ some .lockLost))
    fun _ _ _ => False.elim) fun _ => ?_
  refine Prog.Triple.bind (review_unnoticed hchecks) fun _ => markCompletion_triple ?_ ?_
  · exact fun l s h => ⟨(lost_mark (by simp)).mpr h.1, h.2⟩
  · exact fun l s h => ⟨(lost_mark (by simp)).mpr h.1, h.2⟩

/-- What the end of the critical section makes of a loss. -/
theorem runCriticalSection_post {R : List CycleEvent → CycleState → Prop}
    {Q : Unit → List CycleEvent → CycleState → Prop}
    {E : CycleException → List CycleEvent → CycleState → Prop}
    (h : Prog.Triple (Begun world 0) (cycle.criticalSection world) Q E)
    (hok : ∀ l s, Q () l s → R l s)
    (hlost : ∀ l s, E .lockLost l s → R l { s with error := some .lockLost })
    (hother : ∀ l s, E .other l s → R l { s with unexpectedException := true }) :
    R (cycle.runCriticalSection world { aliveChecks := world.aliveChecks }).log
      (cycle.runCriticalSection world { aliveChecks := world.aliveChecks }).state := by
  refine Prog.Triple.finish (P := Begun world 0) ?_
    ⟨rfl, by simp [Marked], by simp [Lost], rfl⟩
  refine Prog.Triple.bind (Prog.Triple.caught (Q := fun r l s => match r with
    | .ok u => Q u l s
    | .error e => E e l s) h) fun r => ?_
  cases r with
  | ok u => exact Prog.Triple.pure hok
  | error e =>
    cases e with
    | lockLost => exact Prog.Triple.modify hlost
    | other => exact Prog.Triple.modify hother

/-- A cycle reports every failed check and writes no mark after it, exactly when its lock is not lost
in the scan of a database, or the review that follows gets as far as a check. -/
theorem honoursLoss_iff (cycle : CuratorCycle) (world : CycleWorld) :
    cycle.HonoursLoss world ↔ (cycle.LosesInScan world → cycle.ReviewChecks world) := by
  by_cases hscan : cycle.LosesInScan world
  · by_cases hchecks : cycle.ReviewChecks world
    · refine iff_of_true (fun _ => ?_) fun _ => hchecks
      refine runCriticalSection_post (R := fun l s => s.error = some .lockLost ∧ ¬ Marked l)
        (critical_found hscan hchecks) (fun _ _ => False.elim) (fun _ _ h => ⟨rfl, h.2⟩) ?_
      rintro l s ⟨he, -⟩
      cases he
    · refine iff_of_false (fun hhonours => ?_) fun himp => hchecks (himp hscan)
      have hpost := runCriticalSection_post (R := fun l s => Lost l ∧ s.error ≠ some .lockLost)
        (critical_unnoticed hscan hchecks) (fun _ _ => id) (fun l s h => by cases h.1)
        fun _ _ h => h.2
      exact hpost.2 (hhonours hpost.1).1
  · refine iff_of_true ?_ fun h => absurd h hscan
    refine runCriticalSection_post
      (R := fun l s => Lost l → s.error = some .lockLost ∧ ¬ Marked l) (critical_sound hscan) ?_ ?_ ?_
    · exact fun _ _ h hlost => absurd hlost h
    · rintro l s (⟨-, h⟩ | ⟨he, -⟩) _
      · exact ⟨rfl, h⟩
      · cases he
    · rintro l s (⟨he, -⟩ | ⟨-, h⟩) hlost
      · cases he
      · exact absurd hlost h

/-- The defaults, without a review: a lock lost before the scan of the only database. -/
theorem lostInScan_marked :
    let cycle : CuratorCycle := {}
    let world : CycleWorld :=
      { aliveChecks := 2, scanFiles := ["a.db"], scanSingleDb := fun _ => some (0, 0)
        lastReviewAt := some none, now := 0, reviewFiles := ["a.db"]
        review := fun _ =>
          { entries := some [], reply := none, graduates := fun _ => true, updates := fun _ => true } }
    Lost (cycle.execute world).2 ∧
      (cycle.execute world).1.error = some .reviewSkippedInterval ∧
        CycleEvent.scanMarked ∈ (cycle.execute world).2 := by
  decide +kernel

end CuratorCycle

end PyClaw
