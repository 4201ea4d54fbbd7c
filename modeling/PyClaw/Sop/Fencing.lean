import PyClaw.Sop.ExtractionLock

/-!
# Sop.Fencing

Which runs keep the extraction lock fenced. The lock in the store does not tell whose it is, so an
extraction that comes late deletes the lock of another one. `fenced_iff`: the extractions exclude
each other and delete only their own lock exactly in the runs in which every release that meets a
lock comes before the lock of that extraction has expired.
-/

namespace PyClaw

namespace ExtractionState

variable (settings : EvolutionSettings) (sessionId : String)

/-- The lock in the store, with the time at which it expires. -/
def lock (s : ExtractionState) : Option (String × Int) :=
  s.redis.find (extractingLockKey sessionId)

/-- The extraction runs, and the lock that it acquired has not expired. -/
def Guarded (s : ExtractionState) (n : Nat) : Prop :=
  ∃ since, s.running n = some since ∧ s.redis.now < since + extractingLockTtlMs

/-- A release that removes a lock removes the one of its own extraction, and no extraction begins
while another one is guarded. -/
def Fenced (s : ExtractionState) (a : ExtractionStep) : Prop :=
  match a with
  | .releases n delivery =>
    s.running n ≠ none → delivery.sent = true → s.lock sessionId ≠ none → s.holder = some n
  | .attempts n _ _ _ _ =>
    s.running n = none → (s.step settings sessionId a).running n ≠ none → ∀ m, ¬ s.Guarded m
  | _ => True

/-- A release that meets a lock comes from an extraction whose own lock has not expired. -/
def InTime (s : ExtractionState) (a : ExtractionStep) : Prop :=
  match a with
  | .releases n delivery =>
    s.running n ≠ none → delivery.sent = true → s.lock sessionId ≠ none → s.Guarded n
  | _ => True

/-- The lock of a guarded extraction is in the store; the lock of its holder is as old as it. -/
structure Owned (s : ExtractionState) : Prop where
  guarded : ∀ n, s.Guarded n → s.lock sessionId ≠ none ∧ s.holder = some n
  holder : ∀ n since, s.holder = some n → s.running n = some since →
    ∀ c, s.lock sessionId = some c → c.2 = since + extractingLockTtlMs

variable {settings} {sessionId} {s : ExtractionState} {n m : Nat}

/-! ## Guarded extractions -/

theorem Owned.unique (h : s.Owned sessionId) (hn : s.Guarded n) (hm : s.Guarded m) : n = m := by
  have hholder := (h.guarded n hn).2
  rw [(h.guarded m hm).2] at hholder
  exact (Option.some.inj hholder).symm

/-- Meeting a lock, an extraction is its holder exactly when it is still guarded. -/
theorem Owned.holder_iff (h : s.Owned sessionId) (hrunning : s.running n ≠ none)
    (hlock : s.lock sessionId ≠ none) : s.holder = some n ↔ s.Guarded n := by
  constructor
  · intro hholder
    obtain ⟨since, hsince⟩ := Option.ne_none_iff_exists'.mp hrunning
    obtain ⟨c, hc⟩ := Option.ne_none_iff_exists'.mp hlock
    have hdeadline := h.holder n since hholder hsince c hc
    have hlive := (KeySpace.find_eq_some.mp hc).2
    exact ⟨since, hsince, hdeadline ▸ hlive⟩
  · exact fun hguarded => (h.guarded n hguarded).2

theorem running_ends {since : Int} :
    (s.ends m).running n = some since ↔ s.running n = some since ∧ n ≠ m := by
  by_cases he : n = m
  · simp [ends, he]
  · simp [ends, he]

theorem guarded_ends (h : (s.ends m).Guarded n) : s.Guarded n ∧ n ≠ m := by
  obtain ⟨since, hsince, hlive⟩ := h
  obtain ⟨hrunning, hne⟩ := running_ends.mp hsince
  exact ⟨⟨since, hrunning, hlive⟩, hne⟩

theorem Owned.ends (h : s.Owned sessionId) (m : Nat) : (s.ends m).Owned sessionId where
  guarded n hn := h.guarded n (guarded_ends hn).1
  holder n since hholder hrunning := h.holder n since hholder (running_ends.mp hrunning).1

theorem Owned.passes (h : s.Owned sessionId) (ms : Nat) :
    Owned sessionId { s with redis := s.redis.pass ms } := by
  have hearlier : ∀ n, Guarded { s with redis := s.redis.pass ms } n → s.Guarded n := by
    rintro n ⟨since, hsince, hlive⟩
    refine ⟨since, hsince, ?_⟩
    rw [KeySpace.pass_now] at hlive
    omega
  have hfind : ∀ c, (s.redis.pass ms).find (extractingLockKey sessionId) = some c →
      s.lock sessionId = some c := by
    intro c hc
    obtain ⟨hcell, hlive⟩ := KeySpace.find_eq_some.mp hc
    refine KeySpace.find_eq_some.mpr ⟨hcell, ?_⟩
    rw [KeySpace.pass_now] at hlive
    omega
  constructor
  · intro n hn
    obtain ⟨hlock, hholder⟩ := h.guarded n (hearlier n hn)
    refine ⟨?_, hholder⟩
    obtain ⟨since, hsince, hlive⟩ := hn
    obtain ⟨c, hc⟩ := Option.ne_none_iff_exists'.mp hlock
    have hdeadline := h.holder n since hholder hsince c hc
    have hafter : (s.redis.pass ms).find (extractingLockKey sessionId) = some c :=
      KeySpace.find_eq_some.mpr ⟨(KeySpace.find_eq_some.mp hc).1, by rw [hdeadline]; exact hlive⟩
    rw [lock, hafter]
    exact Option.some_ne_none c
  · intro n since hholder hrunning c hc
    exact h.holder n since hholder hrunning c (hfind c hc)

/-! ## Acquiring and releasing -/

theorem setLock_of_lock (h : s.lock sessionId ≠ none) (n : Nat) :
    s.setLock sessionId n = (false, s) := by
  obtain ⟨c, hc⟩ := Option.ne_none_iff_exists'.mp h
  rw [setLock, KeySpace.setNx_of_find hc]
  rfl

/-- The state in which the lock has just been set. -/
def taken (s : ExtractionState) (sessionId : String) (n : Nat) : ExtractionState :=
  { s with
    redis := s.redis.put (extractingLockKey sessionId)
      (some ("1", s.redis.now + extractingLockTtlMs))
    holder := some n }

theorem setLock_of_free (h : s.lock sessionId = none) (n : Nat) :
    s.setLock sessionId n = (true, s.taken sessionId n) := by
  have hfind : s.redis.find (extractingLockKey sessionId) = none := h
  rw [setLock, KeySpace.setNx, hfind]
  rfl

theorem lock_taken : (s.taken sessionId n).lock sessionId =
    some ("1", s.redis.now + extractingLockTtlMs) := by
  refine KeySpace.find_of_cell (KeySpace.put_cells_self _) ?_
  rw [taken, KeySpace.put_now, extractingLockTtlMs]
  omega

/-- The state after the release of an extraction. -/
def released (s : ExtractionState) (sessionId : String) (n : Nat) : ExtractionState :=
  { s.ends n with redis := (s.redis.del (extractingLockKey sessionId)).2 }

theorem lock_released : (s.released sessionId n).lock sessionId = none := by
  rw [released, lock, KeySpace.find, KeySpace.del, KeySpace.put_cells_self]
  rfl

/-- A free lock means that nobody is guarded, and `n` takes it without an extraction of its own. -/
theorem Owned.taken (h : s.Owned sessionId) (hfree : s.lock sessionId = none)
    (hidle : s.running n = none) : (s.taken sessionId n).Owned sessionId where
  guarded m hm := absurd hfree (h.guarded m hm).1
  holder m since hholder hrunning := by
    cases hholder
    rw [ExtractionState.taken, hidle] at hrunning
    cases hrunning

/-- The state in which the extraction that took the lock begins. -/
def begun (s : ExtractionState) (sessionId : String) (n : Nat) : ExtractionState :=
  { s.taken sessionId n with running := Function.update s.running n (some s.redis.now) }

theorem lock_begun : (s.begun sessionId n).lock sessionId =
    some ("1", s.redis.now + extractingLockTtlMs) :=
  lock_taken (n := n)

theorem running_begun {since : Int} (h : (s.begun sessionId n).running m = some since) :
    m = n ∧ since = s.redis.now ∨ m ≠ n ∧ s.running m = some since := by
  by_cases he : m = n
  · left
    have hnow : since = s.redis.now := by simpa [begun, he] using h.symm
    exact ⟨he, hnow⟩
  · right
    exact ⟨he, by simpa [begun, he] using h⟩

theorem Owned.begun (h : s.Owned sessionId) (hfree : s.lock sessionId = none) :
    (s.begun sessionId n).Owned sessionId where
  guarded m hm := by
    obtain ⟨since, hsince, hlive⟩ := hm
    rcases running_begun hsince with ⟨rfl, -⟩ | ⟨-, hrunning⟩
    · rw [lock_begun]
      exact ⟨Option.some_ne_none _, rfl⟩
    · exact absurd hfree (h.guarded m ⟨since, hrunning, hlive⟩).1
  holder m since hholder hrunning c hc := by
    cases hholder
    rw [lock_begun] at hc
    cases hc
    rcases running_begun hrunning with ⟨-, rfl⟩ | ⟨hne, -⟩
    · rfl
    · exact absurd rfl hne

theorem Owned.attempt (h : s.Owned sessionId) (hidle : s.running n = none) (delivery : Delivery) :
    (s.attempt sessionId n delivery).Owned sessionId ∧
      ((s.attempt sessionId n delivery).running n ≠ none → s.lock sessionId = none) := by
  cases hlock : s.lock sessionId with
  | none =>
    refine ⟨?_, fun _ => rfl⟩
    cases delivery with
    | answered =>
      simp only [ExtractionState.attempt, setLock_of_free hlock, if_true]
      exact h.begun hlock
    | unsent => exact h
    | unanswered =>
      simp only [ExtractionState.attempt, setLock_of_free hlock]
      exact h.taken hlock hidle
  | some c =>
    have hsame : s.attempt sessionId n delivery = s := by
      have hset := setLock_of_lock (s := s) (by rw [hlock]; exact Option.some_ne_none c) n
      cases delivery <;> simp [ExtractionState.attempt, hset]
    rw [hsame]
    exact ⟨h, fun hrunning => absurd hidle hrunning⟩

/-- A release that meets no lock or the own one leaves the lock of nobody behind. -/
theorem Owned.released (h : s.Owned sessionId)
    (hown : s.lock sessionId ≠ none → s.Guarded n) : (s.released sessionId n).Owned sessionId where
  guarded m hm := by
    obtain ⟨since, hsince, hlive⟩ := hm
    obtain ⟨hrunning, hne⟩ := running_ends.mp hsince
    have hguarded : s.Guarded m := ⟨since, hrunning, hlive⟩
    exact absurd (h.unique hguarded (hown (h.guarded m hguarded).1)) hne
  holder m since _ _ c hc := by
    rw [lock_released] at hc
    cases hc

theorem Owned.step (h : s.Owned sessionId) {a : ExtractionStep} (hin : s.InTime sessionId a) :
    (s.step settings sessionId a).Owned sessionId := by
  cases a with
  | attempts n path minToolCalls entries delivery =>
    simp only [ExtractionState.step]
    split
    · rename_i hidle _
      exact (h.attempt hidle delivery).1
    · exact h
  | releases n delivery =>
    simp only [ExtractionState.step]
    split
    · exact h
    · rename_i since hrunning
      split
      · rename_i hsent
        exact h.released (hin (by rw [hrunning]; exact Option.some_ne_none since) hsent)
      · exact h.ends n
  | dies n => exact h.ends n
  | passes ms => exact h.passes ms

theorem Owned.fenced_step_iff (h : s.Owned sessionId) (a : ExtractionStep) :
    s.Fenced settings sessionId a ↔ s.InTime sessionId a := by
  cases a with
  | attempts n path minToolCalls entries delivery =>
    refine iff_of_true (fun hidle hruns m hm => ?_) trivial
    simp only [ExtractionState.step] at hruns
    split at hruns
    · exact (h.guarded m hm).1 ((h.attempt hidle delivery).2 hruns)
    · exact hruns hidle
  | releases n delivery =>
    constructor
    · exact fun hfenced hrunning hsent hlock =>
        (h.holder_iff hrunning hlock).mp (hfenced hrunning hsent hlock)
    · exact fun hin hrunning hsent hlock =>
        (h.holder_iff hrunning hlock).mpr (hin hrunning hsent hlock)
  | dies n => exact iff_of_true trivial trivial
  | passes ms => exact iff_of_true trivial trivial

/-- In every run of the extractions of a session: every release removes only its own lock, and no
extraction begins while another one runs under an unexpired lock, exactly when every release that
meets a lock comes before the extraction's own lock has expired. -/
theorem fenced_iff (settings : EvolutionSettings) (sessionId : String) (steps : List ExtractionStep) :
    Along (step settings sessionId) (Fenced settings sessionId) {} steps ↔
      Along (step settings sessionId) (InTime sessionId) {} steps := by
  have hstart : Owned sessionId {} := by
    refine ⟨fun n hn => ?_, fun n since hholder => by cases hholder⟩
    obtain ⟨since, hsince, -⟩ := hn
    cases hsince
  exact along_iff_of_invariant (fun s a h => h.fenced_step_iff a) (fun s a h hin => h.step hin) hstart

/-- A first extraction outlives its lock, deletes the lock of the second one, and a third one begins
while the second one runs under an unexpired lock. -/
theorem third_extraction_begins :
    let entries : Dict String SopCandidate := Dict.empty.set "call_a"
      { turnId := "call_a", userMsg := "", toolNames := ["bash", "read"], timestamp := 0 }
    let begins := fun n => ExtractionStep.attempts n .maybeSpawnExtraction none (some entries) .answered
    let run := runFrom (step {} "s1") {}
    let late := run [begins 1, .passes 600000, begins 2]
    let third := run [begins 1, .passes 600000, begins 2, .releases 1 .answered, begins 3]
    late.lock "s1" ≠ none ∧ late.holder = some 2 ∧ late.running 1 = some 0 ∧
      third.running 3 = some 600000 ∧ third.running 2 = some 600000 ∧
        third.redis.now < 600000 + extractingLockTtlMs := by
  decide +kernel

end ExtractionState

end PyClaw
