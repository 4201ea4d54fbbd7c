import PyClaw.Lock.RedisLock

/-!
# Lock.Exclusion

What a lock promises to the client that acquired it. A `Lease` is what that client may count on,
worked out from its own calls and the clock alone; `stored_of_alive`: as long as the lease runs, the
store holds its token, whatever the other clients send. `mutualExclusion` puts the promises together.
-/

namespace PyClaw

/-- A client's hold on a lock: until when, and whether it has been given back. -/
structure Lease where
  now : Int
  deadline : Int
  released : Bool := false

namespace Lease

variable (client key token : String)

def alive (l : Lease) : Prop := l.released = false ∧ l.now < l.deadline

instance (l : Lease) : Decidable l.alive := inferInstanceAs (Decidable (_ ∧ _))

/-- The lease after a step: only the client's own calls with its token count. -/
def step (l : Lease) : LockStep → Lease
  | .passes ms => { l with now := l.now + ms }
  | .renews c k t ttlMs =>
    if c = client ∧ k = key ∧ t = token ∧ l.now < l.deadline then
      { l with deadline := if 0 < ttlMs then l.now + ttlMs else l.now }
    else l
  | .releases c k t => if c = client ∧ k = key ∧ t = token then { l with released := true } else l
  | .acquires _ _ _ _ => l

end Lease

/-- The client, if the step sends the token for the lock. -/
def LockStep.sender (key token : String) : LockStep → Option String
  | .renews c k t _ => if k = key ∧ t = token then some c else none
  | .releases c k t => if k = key ∧ t = token then some c else none
  | _ => none

section
variable {m : RedisLockManager} {client key token : String} {l : Lease} {ks : KeySpace String String}
  {a : LockStep} {steps : List LockStep}

theorem Lease.alive_of_step (h : (l.step client key token a).alive) : l.alive := by
  obtain ⟨hreleased, hlive⟩ := h
  cases a with
  | passes ms =>
    simp only [Lease.step] at hreleased hlive
    exact ⟨hreleased, by omega⟩
  | renews c k t ttlMs =>
    simp only [Lease.step] at hreleased hlive
    split at hreleased
    · rename_i hown
      exact ⟨hreleased, hown.2.2.2⟩
    · rename_i hother
      rw [if_neg hother] at hlive
      exact ⟨hreleased, hlive⟩
  | releases c k t =>
    simp only [Lease.step] at hreleased hlive
    split at hreleased
    · cases hreleased
    · rename_i hother
      rw [if_neg hother] at hlive
      exact ⟨hreleased, hlive⟩
  | acquires => exact ⟨hreleased, hlive⟩

/-- The store and the lease have the same clock, and the lease that runs is the cell of the lock. -/
structure Leased (m : RedisLockManager) (key token : String) (ks : KeySpace String String) (l : Lease) :
    Prop where
  now : l.now = ks.now
  cell : l.alive → ks.cells (m.fullKey key) = some (token, l.deadline)

theorem Leased.find (h : Leased m key token ks l) (hl : l.alive) :
    ks.find (m.fullKey key) = some (token, l.deadline) :=
  KeySpace.find_of_cell (h.cell hl) (h.now ▸ hl.2)

theorem Leased.stored (h : Leased m key token ks l) (hl : l.alive) : m.stored ks key = some token := by
  rw [RedisLockManager.stored, KeySpace.get, h.find hl]
  rfl

theorem Leased.acquires (h : Leased m key token ks l) (k t : String) (ttlMs : Int) :
    Leased m key token (m.acquire ks k t ttlMs).2 l where
  now := by rw [RedisLockManager.acquire_now, h.now]
  cell hl := by
    by_cases hk : key = k
    · subst hk
      have hstored : m.stored ks key ≠ none := by simp [h.stored hl]
      rw [(RedisLockManager.acquire_of_stored hstored).2]
      exact h.cell hl
    · rw [RedisLockManager.acquire_cells_ne hk]
      exact h.cell hl

theorem Leased.releases (h : Leased m key token ks l) {c k t : String}
    (hown : ∀ sender ∈ (LockStep.releases c k t).sender key token, sender = client) :
    Leased m key token (m.release ks k t).2 (l.step client key token (.releases c k t)) where
  now := by
    simp only [Lease.step, RedisLockManager.release_now]
    split <;> exact h.now
  cell hl := by
    have hbefore := Lease.alive_of_step hl
    have hforeign : ¬ (k = key ∧ t = token) := by
      rintro ⟨rfl, rfl⟩
      have hc : c = client := hown c (by simp [LockStep.sender])
      have hreleased := hl.1
      simp [Lease.step, hc] at hreleased
    have hsame : l.step client key token (.releases c k t) = l :=
      if_neg fun hall => hforeign hall.2
    rw [hsame] at hl ⊢
    by_cases hk : key = k
    · subst hk
      have hne : m.stored ks key ≠ some t := by
        rw [h.stored hl]
        rintro he
        exact hforeign ⟨rfl, (Option.some.inj he).symm⟩
      rw [RedisLockManager.release_of_ne hne]
      exact h.cell hl
    · rw [RedisLockManager.release_cells_ne hk]
      exact h.cell hl

theorem Leased.renews (h : Leased m key token ks l) {c k t : String} {ttlMs : Int}
    (hown : ∀ sender ∈ (LockStep.renews c k t ttlMs).sender key token, sender = client) :
    Leased m key token (m.renew ks k t ttlMs).2 (l.step client key token (.renews c k t ttlMs)) where
  now := by
    simp only [Lease.step, RedisLockManager.renew_now]
    split <;> exact h.now
  cell hl := by
    have hbefore := Lease.alive_of_step hl
    by_cases hmine : k = key ∧ t = token
    · obtain ⟨rfl, rfl⟩ := hmine
      have hc : c = client := hown c (by simp [LockStep.sender])
      have hstep : l.step client k t (.renews c k t ttlMs) =
          { l with deadline := if 0 < ttlMs then l.now + ttlMs else l.now } :=
        if_pos ⟨hc, rfl, rfl, hbefore.2⟩
      rw [hstep] at hl ⊢
      have hpos : 0 < ttlMs := by
        by_contra hneg
        have hlive := hl.2
        simp only [if_neg hneg] at hlive
        omega
      have hget : ks.get (m.fullKey k) = some t := h.stored hbefore
      rw [RedisLockManager.renew, if_pos hget, KeySpace.pexpire, h.find hbefore]
      simp only [if_pos hpos, KeySpace.put_cells_self, h.now]
    · have hsame : l.step client key token (.renews c k t ttlMs) = l :=
        if_neg fun hall => hmine ⟨hall.2.1, hall.2.2.1⟩
      rw [hsame] at hl ⊢
      by_cases hk : key = k
      · subst hk
        have hne : m.stored ks key ≠ some t := by
          rw [h.stored hl]
          rintro he
          exact hmine ⟨rfl, (Option.some.inj he).symm⟩
        rw [RedisLockManager.renew_of_ne hne]
        exact h.cell hl
      · rw [RedisLockManager.renew_cells_ne hk]
        exact h.cell hl

theorem Leased.step (h : Leased m key token ks l) (hown : ∀ sender ∈ a.sender key token, sender = client) :
    Leased m key token (m.step ks a) (l.step client key token a) := by
  cases a with
  | acquires c k t ttlMs => exact h.acquires k t ttlMs
  | releases c k t => exact h.releases hown
  | renews c k t ttlMs => exact h.renews hown
  | passes ms =>
    refine ⟨?_, fun hl => h.cell (Lease.alive_of_step hl)⟩
    simp only [Lease.step, RedisLockManager.step, KeySpace.pass_now, h.now]

theorem Leased.run (h : Leased m key token ks l)
    (hown : ∀ a ∈ steps, ∀ sender ∈ a.sender key token, sender = client) :
    Leased m key token (runFrom m.step ks steps) (runFrom (Lease.step client key token) l steps) := by
  induction steps generalizing ks l with
  | nil => exact h
  | cons a steps ih =>
    exact ih (h.step (hown a List.mem_cons_self)) fun b hb => hown b (List.mem_cons_of_mem a hb)

/-- What an `acquire` at this moment grants. -/
def Lease.start (ks : KeySpace String String) (ttlMs : Int) : Lease where
  now := ks.now
  deadline := ks.now + ttlMs

theorem Leased.start {ttlMs : Int} {t : String} (h : (m.acquire ks key token ttlMs).1 = .ok t) :
    Leased m key token (m.acquire ks key token ttlMs).2 (Lease.start ks ttlMs) where
  now := (RedisLockManager.acquire_now).symm
  cell _ := by
    rw [(RedisLockManager.acquire_ok h).2.2.2, KeySpace.put_cells_self]
    rfl

/-- In every state of the store: `acquire` succeeds only where no token is stored; a token that is
not the stored one releases and renews nothing; and while the lease of a successful `acquire` runs,
nobody else acquires the lock. -/
theorem mutualExclusion (m : RedisLockManager) (ks : KeySpace String String) (key : String) :
    (∀ token ttlMs t, (m.acquire ks key token ttlMs).1 = .ok t →
      m.stored ks key = none ∧ m.stored (m.acquire ks key token ttlMs).2 key = some t) ∧
    (∀ token, m.stored ks key ≠ some token → m.release ks key token = (false, ks) ∧
      ∀ ttlMs, m.renew ks key token ttlMs = (false, ks)) ∧
    ∀ client token ttlMs, (m.acquire ks key token ttlMs).1 = .ok token →
      ∀ between : List LockStep,
        (∀ a ∈ between, ∀ sender ∈ a.sender key token, sender = client) →
        (runFrom (Lease.step client key token) (Lease.start ks ttlMs) between).alive →
        m.stored (runFrom m.step (m.acquire ks key token ttlMs).2 between) key = some token ∧
          ∀ token' ttlMs' t,
            (m.acquire (runFrom m.step (m.acquire ks key token ttlMs).2 between) key token' ttlMs').1 ≠
              .ok t := by
  refine ⟨fun token ttlMs t hok => ?_, fun token hne => ?_, ?_⟩
  · obtain ⟨rfl, hpos, hnone, hput⟩ := RedisLockManager.acquire_ok hok
    refine ⟨KeySpace.get_eq_none.mpr hnone, ?_⟩
    have halive : (Lease.start ks ttlMs).alive := ⟨rfl, by simp only [Lease.start]; omega⟩
    exact (Leased.start hok).stored halive
  · exact ⟨RedisLockManager.release_of_ne hne, fun _ => RedisLockManager.renew_of_ne hne⟩
  · intro client token ttlMs hok between hown halive
    have hstored := ((Leased.start hok).run hown).stored halive
    refine ⟨hstored, ?_⟩
    intro token' ttlMs' t
    exact (RedisLockManager.acquire_of_stored (by simp [hstored])).1 t

end

end PyClaw
