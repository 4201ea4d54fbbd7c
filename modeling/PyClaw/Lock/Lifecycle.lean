import PyClaw.Lock.Mutex

/-!
# Lock.Lifecycle

What the flags of a mutex say over its life, and what it leaves behind. Inside the body `lost` is
right in every run (`Sound`); `lifecycle_iff`: the rest of the promises holds exactly in the runs
that come to no clean exit and in which entering does not raise with the lock in hand.
-/

namespace PyClaw

/-- The phases between the `acquire` and the end of the `async with`. -/
def MutexPhase.entered : MutexPhase → Bool
  | .outside | .raised => false
  | _ => true

namespace MutexState

variable (mutex : DistributedMutex)

/-- `lost` is false before entering and after a clean exit, and true inside the body once a renewal
has failed or the heartbeat has ended. -/
structure Honest (s : MutexState) : Prop where
  outside : s.phase = .outside → s.lost = false
  exited : s.phase = .exited true → s.lost = false
  inside : s.phase = .inside → s.renewFailed = true ∨ s.heartbeatTaskFinished = true → s.lost = true

/-- The token that entering has drawn by the end of the step. -/
def drawn (s : MutexState) : MutexStep → Option String
  | .acquires token _ => some token
  | _ => s.token

/-- If the step makes `__aenter__` raise, the lock in the store is not the one it acquired. -/
def LeavesNothing (s : MutexState) (a : MutexStep) : Prop :=
  s.phase ≠ .raised → (s.step mutex a).phase = .raised →
    ∀ token ∈ s.drawn a, (s.step mutex a).stored mutex ≠ some token

def Keeps (s : MutexState) (a : MutexStep) : Prop :=
  (s.step mutex a).Honest ∧ s.LeavesNothing mutex a

/-- The step does not make entering raise with the lock in hand. -/
def EntersFine (s : MutexState) : MutexStep → Prop
  | .acquires token delivery =>
    s.phase = .outside → s.stored mutex ≠ some token ∧
      (delivery = .unanswered → s.stored mutex ≠ none)
  | .spawns accepted =>
    s.phase = .spawning → accepted = false → ∀ token ∈ s.token, s.stored mutex ≠ some token
  | .starts interrupted =>
    s.phase = .starting → interrupted = true → ∀ token ∈ s.token, s.stored mutex ≠ some token
  | _ => True

/-- The step is not the end of a clean exit: the release of a lock that was never lost. -/
def ExitsUnclean (s : MutexState) : MutexStep → Prop
  | .releases delivery =>
    s.phase = .releasing true → delivery = .answered → ∀ token ∈ s.token, s.stored mutex ≠ some token
  | _ => True

def Fine (s : MutexState) (a : MutexStep) : Prop := s.EntersFine mutex a ∧ s.ExitsUnclean mutex a

/-! ## The flags -/

structure Sound (s : MutexState) : Prop where
  outside : s.phase = .outside → s.lostEvent = none
  entered : s.phase.entered = true → s.lostEvent ≠ none
  beating : s.heartbeat ≠ none → s.lostEvent ≠ none
  unspawned : s.phase = .outside ∨ s.phase = .spawning → s.heartbeat = none
  failed : s.renewFailed = true → s.heartbeatTaskFinished = true
  /-- An exit is only clean when it has ended the heartbeat. -/
  ended : s.phase = .releasing true ∨ s.phase = .exited true → s.heartbeatTaskFinished = true

variable {mutex} {s : MutexState} {a : MutexStep}

theorem lost_of_finished (hevent : s.lostEvent ≠ none) (h : s.heartbeatTaskFinished = true) :
    s.lost = true := by
  unfold lost
  cases he : s.lostEvent with
  | none => exact absurd he hevent
  | some set =>
    cases set with
    | true => rfl
    | false => exact h

theorem Sound.honest_iff (h : s.Sound) : s.Honest ↔ s.phase ≠ .exited true := by
  constructor
  · intro hhonest hphase
    have hevent := h.entered (by rw [hphase]; rfl)
    have hlost := lost_of_finished hevent (h.ended (.inr hphase))
    rw [hhonest.exited hphase] at hlost
    cases hlost
  · intro hphase
    refine ⟨fun hout => ?_, fun hexit => absurd hexit hphase, fun hin hcause => ?_⟩
    · rw [lost, h.outside hout]
    · have hevent := h.entered (by rw [hin]; rfl)
      exact lost_of_finished hevent (hcause.elim h.failed id)

theorem sound_start (store : KeySpace String String) : Sound { store := store } where
  outside _ := rfl
  entered h := by cases h
  beating h := absurd rfl h
  unspawned _ := rfl
  failed h := by cases h
  ended h := by rcases h with h | h <;> cases h

/-- A step of the `async with` itself, which leaves flags and heartbeat alone. -/
theorem Sound.move (h : s.Sound) (store : KeySpace String String) {phase : MutexPhase}
    (hout : phase ≠ .outside) (hspawn : phase ≠ .spawning)
    (hentered : phase.entered = true → s.phase.entered = true)
    (hended : phase = .releasing true ∨ phase = .exited true → s.heartbeatTaskFinished = true) :
    Sound { s with store := store, phase := phase } where
  outside hphase := absurd hphase hout
  entered hent := h.entered (hentered hent)
  beating := h.beating
  unspawned hphase := by
    rcases hphase with hphase | hphase
    · exact absurd hphase hout
    · exact absurd hphase hspawn
  failed := h.failed
  ended := hended

theorem Sound.raise (h : s.Sound) (store : KeySpace String String) :
    Sound { s with store := store, phase := .raised } :=
  h.move store (by simp) (by simp) (fun hent => by cases hent) fun hend => by simp at hend

/-- The heartbeat task ends, whether or not the event is set. -/
theorem Sound.heartbeatOver (h : s.Sound) (store : KeySpace String String) {event : Option Bool}
    {state : Option TaskState} {failed : Bool} {phase : MutexPhase} (hbeating : s.heartbeat ≠ none)
    (hstate : state ≠ some .running) (hevent : s.lostEvent ≠ none → event ≠ none)
    (hout : phase ≠ .outside) (hspawn : phase ≠ .spawning) :
    Sound { s with
      store := store, phase := phase, lostEvent := event, heartbeat := some state
      renewFailed := failed } := by
  have hset := h.beating hbeating
  have hfinished : ∀ t : MutexState, t.heartbeat = some state → t.heartbeatTaskFinished = true := by
    intro t ht
    rw [heartbeatTaskFinished, ht]
    cases state with
    | none => rfl
    | some st => simpa using hstate
  refine ⟨fun hphase => absurd hphase hout, fun _ => hevent hset, fun _ => hevent hset,
    fun hphase => ?_, fun _ => hfinished _ rfl, fun _ => hfinished _ rfl⟩
  rcases hphase with hphase | hphase
  · exact absurd hphase hout
  · exact absurd hphase hspawn

theorem Sound.phase_ne (h : s.Sound) (hbeating : s.heartbeat ≠ none) :
    s.phase ≠ .outside ∧ s.phase ≠ .spawning :=
  ⟨fun hphase => hbeating (h.unspawned (.inl hphase)),
    fun hphase => hbeating (h.unspawned (.inr hphase))⟩

theorem phase_beat {token : String} {network : Bool} {delivery : Delivery} :
    (s.beat mutex token network delivery).phase = s.phase := by
  cases delivery with
  | answered =>
    unfold MutexState.beat
    dsimp only
    split <;> rfl
  | unsent => rfl
  | unanswered => rfl

theorem Sound.acquire (h : s.Sound) (hphase : s.phase = .outside) (token : String)
    (delivery : Delivery) : (s.acquire mutex token delivery).Sound := by
  cases delivery with
  | answered =>
    unfold MutexState.acquire
    dsimp only
    split
    · have hheartbeat := h.unspawned (.inl hphase)
      refine ⟨fun hout => ?_, fun _ => by simp, fun _ => by simp, fun _ => hheartbeat, h.failed,
        fun hend => ?_⟩
      · cases hout
      · rcases hend with hend | hend <;> cases hend
    · exact h.raise _
  | unsent => exact h.raise s.store
  | unanswered => exact h.raise _

theorem Sound.spawn (h : s.Sound) (hphase : s.phase = .spawning) :
    Sound { s with heartbeat := some (some .running), phase := .starting } := by
  have hevent := h.entered (by rw [hphase]; rfl)
  have hheartbeat := h.unspawned (.inr hphase)
  refine ⟨fun hout => ?_, fun _ => hevent, fun _ => hevent, fun hout => ?_, fun hfailed => ?_,
    fun hend => ?_⟩
  · cases hout
  · rcases hout with hout | hout <;> cases hout
  · -- no renewal has been tried yet
    have hfinished := h.failed hfailed
    rw [heartbeatTaskFinished, hheartbeat] at hfinished
    cases hfinished
  · rcases hend with hend | hend <;> cases hend

theorem Sound.beat (h : s.Sound) (hrunning : s.heartbeat = some (some .running)) (token : String)
    (network : Bool) (delivery : Delivery) : (s.beat mutex token network delivery).Sound := by
  have hbeating : s.heartbeat ≠ none := by simp [hrunning]
  obtain ⟨hout, hspawn⟩ := h.phase_ne hbeating
  cases delivery with
  | answered =>
    unfold MutexState.beat
    dsimp only
    split
    · exact ⟨h.outside, h.entered, h.beating, h.unspawned, h.failed, h.ended⟩
    · exact h.heartbeatOver _ hbeating (by simp) (by simp) hout hspawn
  | unsent => exact h.heartbeatOver s.store hbeating (by simp) (by cases network <;> simp) hout hspawn
  | unanswered => exact h.heartbeatOver _ hbeating (by simp) (by cases network <;> simp) hout hspawn

theorem Sound.cancelReturns (h : s.Sound) (ended : Bool) :
    (s.step mutex (.cancelReturns ended)).Sound := by
  simp only [MutexState.step]
  split
  · rename_i hphase hrunning
    split
    · exact h.heartbeatOver s.store (by simp [hrunning]) (by simp) id (by simp) (by simp)
    · exact h.move s.store (by simp) (by simp) (fun _ => by rw [hphase]; rfl) (by simp)
  · rename_i hphase _
    exact h.move s.store (by simp) (by simp) (fun _ => by rw [hphase]; rfl) (by simp)
  · exact h

theorem Sound.release (h : s.Sound) {clean : Bool} (hphase : s.phase = .releasing clean) (token : String)
    (delivery : Delivery) : (s.release mutex token clean delivery).Sound := by
  have hentered : s.phase.entered = true := by rw [hphase]; rfl
  cases delivery with
  | answered =>
    refine h.move _ (by simp) (by simp) (fun _ => hentered) fun hend => ?_
    have hclean : clean = true := by
      simp only [reduceCtorEq, false_or, MutexPhase.exited.injEq, Bool.and_eq_true] at hend
      exact hend.1
    exact h.ended (.inl (hclean ▸ hphase))
  | unsent => exact h.move s.store (by simp) (by simp) (fun _ => hentered) (by simp)
  | unanswered => exact h.move _ (by simp) (by simp) (fun _ => hentered) (by simp)

theorem Sound.step (h : s.Sound) (a : MutexStep) : (s.step mutex a).Sound := by
  cases a with
  | acquires token delivery =>
    simp only [MutexState.step]
    split
    · rename_i hphase
      exact h.acquire hphase token delivery
    · exact h
  | spawns accepted =>
    simp only [MutexState.step]
    split
    · rename_i hphase
      split
      · exact h.spawn hphase
      · exact h.raise s.store
    · exact h
  | starts interrupted =>
    simp only [MutexState.step]
    split
    · rename_i hphase
      have hentered : s.phase.entered = true := by rw [hphase]; rfl
      cases interrupted with
      | true => exact h.raise s.store
      | false => exact h.move s.store (by simp) (by simp) (fun _ => hentered) (by simp)
    · exact h
  | beats delivery network =>
    simp only [MutexState.step]
    split
    · rename_i hrunning _
      exact h.beat hrunning _ network delivery
    · exact h
  | heartbeatEnds state =>
    simp only [MutexState.step]
    split
    · rename_i hrunning
      have hbeating : s.heartbeat ≠ none := by simp [hrunning]
      obtain ⟨hout, hspawn⟩ := h.phase_ne hbeating
      by_cases hstate : state = .running
      · rw [hstate, ← hrunning]
        exact h
      · exact h.heartbeatOver s.store hbeating (by simpa using hstate) id hout hspawn
    · exact h
  | prunes =>
    simp only [MutexState.step]
    split
    · exact h
    · exact h
    · rename_i hheartbeat
      have hbeating : s.heartbeat ≠ none := by simp [hheartbeat]
      obtain ⟨hout, hspawn⟩ := h.phase_ne hbeating
      exact h.heartbeatOver s.store hbeating (by simp) id hout hspawn
  | leaves =>
    simp only [MutexState.step]
    split
    · rename_i hphase
      exact h.move s.store (by simp) (by simp) (fun _ => by rw [hphase]; rfl) (by simp)
    · exact h
  | cancelReturns ended => exact h.cancelReturns ended
  | exitInterrupted =>
    simp only [MutexState.step]
    split
    · rename_i hphase
      exact h.move s.store (by simp) (by simp) (fun _ => by rw [hphase]; rfl) (by simp)
    · exact h
  | releases delivery =>
    simp only [MutexState.step]
    split
    · rename_i hphase _
      exact h.release hphase _ delivery
    · exact h
  | others a => exact ⟨h.outside, h.entered, h.beating, h.unspawned, h.failed, h.ended⟩

/-! ## Entering and leaving -/

theorem raised_or_spawning (token : String) (delivery : Delivery) :
    (s.acquire mutex token delivery).phase = .raised ∨
      (s.acquire mutex token delivery).phase = .spawning := by
  cases delivery with
  | answered =>
    unfold acquire
    dsimp only
    split
    · exact .inr rfl
    · exact .inl rfl
  | unsent => exact .inl rfl
  | unanswered => exact .inl rfl

theorem stored_acquire (token : String) :
    mutex.manager.stored (mutex.manager.acquire s.store mutex.key token mutex.ttlMs).2 mutex.key =
      some ((s.stored mutex).getD token) := by
  cases hstored : s.stored mutex with
  | none =>
    have hfind : s.store.find (mutex.manager.fullKey mutex.key) = none :=
      KeySpace.get_eq_none.mp hstored
    rw [RedisLockManager.acquire, if_pos mutex.ttl_pos, KeySpace.setNx, hfind]
    have hput : (s.store.put (mutex.manager.fullKey mutex.key)
        (some (token, s.store.now + mutex.ttlMs))).find (mutex.manager.fullKey mutex.key) =
          some (token, s.store.now + mutex.ttlMs) := by
      refine KeySpace.find_of_cell (KeySpace.put_cells_self _) ?_
      have hpos := mutex.ttl_pos
      rw [KeySpace.put_now]
      omega
    simp [RedisLockManager.stored, KeySpace.get, hput]
  | some held =>
    have hne : mutex.manager.stored s.store mutex.key ≠ none := by
      rw [stored] at hstored
      simp [hstored]
    rw [(RedisLockManager.acquire_of_stored hne).2]
    exact hstored

theorem stored_ne_none_of_error {token : String} {e : LockError}
    (h : (mutex.manager.acquire s.store mutex.key token mutex.ttlMs).1 = .error e) :
    s.stored mutex ≠ none := by
  intro hnone
  have hfind : s.store.find (mutex.manager.fullKey mutex.key) = none :=
    KeySpace.get_eq_none.mp hnone
  rw [RedisLockManager.acquire, if_pos mutex.ttl_pos, KeySpace.setNx, hfind] at h
  cases h

theorem leavesNothing_acquires {token : String} {delivery : Delivery} (hphase : s.phase = .outside) :
    s.LeavesNothing mutex (.acquires token delivery) ↔
      s.stored mutex ≠ some token ∧ (delivery = .unanswered → s.stored mutex ≠ none) := by
  have hstep : s.step mutex (.acquires token delivery) = s.acquire mutex token delivery := by
    simp only [MutexState.step, hphase]
  have hdrawn : (∀ t ∈ s.drawn (.acquires token delivery),
      (s.acquire mutex token delivery).stored mutex ≠ some t) ↔
        (s.acquire mutex token delivery).stored mutex ≠ some token := by
    simp [drawn]
  rw [LeavesNothing, hstep, hdrawn, hphase]
  cases delivery with
  | answered =>
    cases hr : (mutex.manager.acquire s.store mutex.key token mutex.ttlMs).1 with
    | ok t =>
      -- the lock was free, and entering goes on
      have hfree : s.stored mutex = none := KeySpace.get_eq_none.mpr (RedisLockManager.acquire_ok hr).2.2.1
      simp [acquire, hr, hfree]
    | error e =>
      have hheld := stored_ne_none_of_error hr
      have hstore : (mutex.manager.acquire s.store mutex.key token mutex.ttlMs).2 = s.store :=
        (RedisLockManager.acquire_of_stored hheld).2
      simp [acquire, hr, hstore, stored]
  | unsent => simp [acquire, stored]
  | unanswered =>
    have hafter := @stored_acquire mutex s token
    cases hstored : s.stored mutex with
    | none => simp_all [acquire, stored]
    | some held => simp_all [acquire, stored]

/-- Past `__aenter__`, and in the heartbeat, nothing makes entering raise. -/
theorem leavesNothing_of_phase (h : (s.step mutex a).phase = .raised → s.phase = .raised) :
    s.LeavesNothing mutex a :=
  fun hphase hraised => absurd (h hraised) hphase

theorem leavesNothing_iff : s.LeavesNothing mutex a ↔ s.EntersFine mutex a := by
  cases a with
  | acquires token delivery =>
    by_cases hphase : s.phase = .outside
    · simp only [leavesNothing_acquires hphase, EntersFine, hphase, forall_const]
    · refine iff_of_true (leavesNothing_of_phase ?_) fun h => absurd h hphase
      simp only [MutexState.step]
      exact id
  | spawns accepted =>
    by_cases hphase : s.phase = .spawning
    · cases accepted <;> simp [LeavesNothing, EntersFine, MutexState.step, drawn, hphase, stored]
    · refine iff_of_true (leavesNothing_of_phase ?_) fun h => absurd h hphase
      simp only [MutexState.step]
      exact id
  | starts interrupted =>
    by_cases hphase : s.phase = .starting
    · cases interrupted <;> simp [LeavesNothing, EntersFine, MutexState.step, drawn, hphase, stored]
    · refine iff_of_true (leavesNothing_of_phase ?_) fun h => absurd h hphase
      simp only [MutexState.step]
      exact id
  | beats delivery network =>
    refine iff_of_true (leavesNothing_of_phase ?_) trivial
    simp only [MutexState.step]
    split
    · rw [phase_beat]
      exact id
    · exact id
  | heartbeatEnds state =>
    refine iff_of_true (leavesNothing_of_phase ?_) trivial
    simp only [MutexState.step]
    split <;> exact id
  | prunes =>
    refine iff_of_true (leavesNothing_of_phase ?_) trivial
    simp only [MutexState.step]
    split <;> exact id
  | leaves =>
    refine iff_of_true (leavesNothing_of_phase ?_) trivial
    simp only [MutexState.step]
    split
    · simp
    · exact id
  | cancelReturns ended =>
    refine iff_of_true (leavesNothing_of_phase ?_) trivial
    simp only [MutexState.step]
    split
    · cases ended <;> simp
    · simp
    · exact id
  | exitInterrupted =>
    refine iff_of_true (leavesNothing_of_phase ?_) trivial
    simp only [MutexState.step]
    split
    · simp
    · exact id
  | releases delivery =>
    refine iff_of_true (leavesNothing_of_phase ?_) trivial
    simp only [MutexState.step]
    split
    · cases delivery <;> simp [MutexState.release]
    · exact id
  | others a => exact iff_of_true (leavesNothing_of_phase id) trivial

theorem release_eq_true (token : String) :
    (mutex.manager.release s.store mutex.key token).1 = true ↔ s.stored mutex = some token := by
  constructor
  · intro h
    by_contra hne
    rw [RedisLockManager.release_of_ne hne] at h
    cases h
  · intro h
    have hget : s.store.get (mutex.manager.fullKey mutex.key) = some token := h
    rw [RedisLockManager.release, if_pos hget, KeySpace.del]
    cases hfind : s.store.find (mutex.manager.fullKey mutex.key) with
    | none =>
      rw [KeySpace.get_eq_none.mpr hfind] at hget
      cases hget
    | some c => rfl

theorem exited_releases {token : String} {clean : Bool} {delivery : Delivery}
    (hphase : s.phase = .releasing clean) (htoken : s.token = some token) :
    (s.step mutex (.releases delivery)).phase ≠ .exited true ↔
      (clean = true → delivery = .answered → s.stored mutex ≠ some token) := by
  have hrelease := @release_eq_true mutex s token
  simp only [MutexState.step, hphase, htoken]
  cases delivery with
  | answered =>
    simp only [MutexState.release, ne_eq, MutexPhase.exited.injEq, Bool.and_eq_true, hrelease,
      not_and, forall_const]
  | unsent => simp [MutexState.release]
  | unanswered => simp [MutexState.release]

/-- A clean exit, where `lost` goes wrong, ends with the release. -/
theorem exited_iff (hphase : s.phase ≠ .exited true) :
    (s.step mutex a).phase ≠ .exited true ↔ s.ExitsUnclean mutex a := by
  cases a with
  | releases delivery =>
    cases hs : s.phase with
    | releasing clean =>
      cases htoken : s.token with
      | none => simp [ExitsUnclean, MutexState.step, hs, htoken]
      | some token =>
        rw [exited_releases hs htoken]
        simp [ExitsUnclean, hs, htoken]
    | _ => simp_all [ExitsUnclean, MutexState.step]
  | acquires token delivery =>
    refine iff_of_true ?_ trivial
    simp only [MutexState.step]
    split
    · rcases @raised_or_spawning mutex s token delivery with h | h <;> simp [h]
    · exact hphase
  | spawns accepted =>
    refine iff_of_true ?_ trivial
    simp only [MutexState.step]
    split
    · cases accepted <;> simp
    · exact hphase
  | starts interrupted =>
    refine iff_of_true ?_ trivial
    simp only [MutexState.step]
    split
    · cases interrupted <;> simp
    · exact hphase
  | beats delivery network =>
    refine iff_of_true ?_ trivial
    simp only [MutexState.step]
    split
    · rw [phase_beat]
      exact hphase
    · exact hphase
  | heartbeatEnds state =>
    refine iff_of_true ?_ trivial
    simp only [MutexState.step]
    split <;> exact hphase
  | prunes =>
    refine iff_of_true ?_ trivial
    simp only [MutexState.step]
    split <;> exact hphase
  | leaves =>
    refine iff_of_true ?_ trivial
    simp only [MutexState.step]
    split
    · simp
    · exact hphase
  | cancelReturns ended =>
    refine iff_of_true ?_ trivial
    simp only [MutexState.step]
    split
    · cases ended <;> simp
    · simp
    · exact hphase
  | exitInterrupted =>
    refine iff_of_true ?_ trivial
    simp only [MutexState.step]
    split
    · simp
    · exact hphase
  | others a => exact iff_of_true hphase trivial

theorem Sound.keeps_step_iff (h : s.Sound) (hphase : s.phase ≠ .exited true) :
    s.Keeps mutex a ↔ s.Fine mutex a := by
  rw [Keeps, Fine, (h.step a).honest_iff, exited_iff hphase, leavesNothing_iff]
  exact and_comm

/-- In every run of a mutex: the flags are right after each step, and entering never leaves a lock
behind, exactly when no step makes entering raise with the lock in hand or ends a clean exit. -/
theorem lifecycle_iff (mutex : DistributedMutex) (store : KeySpace String String)
    (steps : List MutexStep) :
    Along (step mutex) (Keeps mutex) { store := store } steps ↔
      Along (step mutex) (Fine mutex) { store := store } steps := by
  have hstart : Sound { store := store } ∧ MutexState.phase { store := store } ≠ .exited true :=
    ⟨sound_start store, by simp⟩
  have hnext : ∀ s a, (Sound s ∧ s.phase ≠ .exited true) → s.Fine mutex a →
      (s.step mutex a).Sound ∧ (s.step mutex a).phase ≠ .exited true :=
    fun s a hs hfine => ⟨hs.1.step a, (exited_iff hs.2).mpr hfine.2⟩
  exact along_iff_of_invariant (fun s a hs => hs.1.keeps_step_iff hs.2) hnext hstart

/-- After a clean exit `lost` is true, and a refused spawn leaves the acquired lock in the store. -/
theorem cleanExit_lost :
    let mutex : DistributedMutex := { key := "my:lock" }
    let exited := runFrom (step mutex) {} [.acquires "t1" .answered, .spawns true, .starts false,
      .leaves, .cancelReturns true, .releases .answered]
    let refused := runFrom (step mutex) {} [.acquires "t1" .answered, .spawns false]
    (exited.phase = .exited true ∧ exited.lost = true ∧ ¬ exited.Honest) ∧
      refused.phase = .raised ∧ refused.stored mutex = some "t1" := by
  refine ⟨⟨by decide +kernel, by decide +kernel, fun h => ?_⟩, by decide +kernel, by decide +kernel⟩
  have hlost := h.exited (by decide +kernel)
  revert hlost
  decide +kernel

end MutexState

end PyClaw
