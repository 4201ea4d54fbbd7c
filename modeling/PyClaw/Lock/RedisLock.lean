import PyClaw.Lib.Redis

/-!
# Lock.RedisLock

`RedisLockManager`: a lock is a key that holds the token drawn by the one who acquired it. The two
Lua scripts compare the token before they touch the key.
-/

namespace PyClaw

inductive LockError where
  /-- `LockAcquireError`. -/
  | acquire (key : String)
  /-- What Redis answers to a command it refuses. -/
  | redis (message : String)
  deriving DecidableEq, Repr

structure RedisLockManager where
  keyPrefix : String := "pyclaw:"

namespace RedisLockManager

variable (m : RedisLockManager) (ks : KeySpace String String)

def fullKey (key : String) : String := m.keyPrefix ++ key

/-- The token stored for a lock. -/
def stored (key : String) : Option String := ks.get (m.fullKey key)

/-- `acquire`, with the token it draws. -/
def acquire (key token : String) (ttlMs : Int) : Except LockError String × KeySpace String String :=
  if 0 < ttlMs then
    let r := ks.setNx (m.fullKey key) token ttlMs
    (if r.1 then .ok token else .error (.acquire (m.fullKey key)), r.2)
  else (.error (.redis "ERR invalid expire time in 'set' command"), ks)

/-- `release`: `_RELEASE_SCRIPT`. -/
def release (key token : String) : Bool × KeySpace String String :=
  if ks.get (m.fullKey key) = some token then ks.del (m.fullKey key) else (false, ks)

/-- `renew`: `_RENEW_SCRIPT`. -/
def renew (key token : String) (ttlMs : Int) : Bool × KeySpace String String :=
  if ks.get (m.fullKey key) = some token then ks.pexpire (m.fullKey key) ttlMs else (false, ks)

end RedisLockManager

/-- What happens to the locks: the calls of the clients, and the passing of time. -/
inductive LockStep where
  | acquires (client key token : String) (ttlMs : Int)
  | releases (client key token : String)
  | renews (client key token : String) (ttlMs : Int)
  | passes (ms : Nat)
  deriving DecidableEq, Repr

namespace RedisLockManager

def step (m : RedisLockManager) (ks : KeySpace String String) : LockStep → KeySpace String String
  | .acquires _ key token ttlMs => (m.acquire ks key token ttlMs).2
  | .releases _ key token => (m.release ks key token).2
  | .renews _ key token ttlMs => (m.renew ks key token ttlMs).2
  | .passes ms => ks.pass ms

/-! ## Specifications -/

variable {m : RedisLockManager} {ks : KeySpace String String} {key key' token t : String}
  {ttlMs : Int}

theorem fullKey_inj : m.fullKey key = m.fullKey key' ↔ key = key' := by
  constructor
  · intro h
    have hlist := congrArg String.toList h
    rw [fullKey, fullKey, String.toList_append, String.toList_append] at hlist
    exact String.toList_inj.mp (List.append_cancel_left hlist)
  · rintro rfl
    rfl

theorem acquire_ok (h : (m.acquire ks key token ttlMs).1 = .ok t) :
    t = token ∧ 0 < ttlMs ∧ ks.find (m.fullKey key) = none ∧
      (m.acquire ks key token ttlMs).2 =
        ks.put (m.fullKey key) (some (token, ks.now + ttlMs)) := by
  unfold acquire at h ⊢
  split at h
  · rename_i hpos
    rw [if_pos hpos]
    dsimp only at h ⊢
    split at h
    · rename_i hset
      obtain ⟨hnone, hput⟩ := KeySpace.setNx_eq_true hset
      cases h
      exact ⟨rfl, hpos, hnone, hput⟩
    · cases h
  · cases h

theorem acquire_of_stored (h : m.stored ks key ≠ none) :
    (∀ t, (m.acquire ks key token ttlMs).1 ≠ .ok t) ∧ (m.acquire ks key token ttlMs).2 = ks := by
  have hfind : ks.find (m.fullKey key) ≠ none := fun hnone => h (KeySpace.get_eq_none.mpr hnone)
  obtain ⟨c, hc⟩ := Option.ne_none_iff_exists'.mp hfind
  constructor
  · intro t hok
    rw [(acquire_ok hok).2.2.1] at hc
    cases hc
  · unfold acquire
    split
    · rw [KeySpace.setNx_of_find hc]
    · rfl

theorem release_of_ne (h : m.stored ks key ≠ some token) : m.release ks key token = (false, ks) :=
  if_neg h

theorem renew_of_ne (h : m.stored ks key ≠ some token) :
    m.renew ks key token ttlMs = (false, ks) :=
  if_neg h

theorem acquire_cells_ne (h : key' ≠ key) :
    (m.acquire ks key token ttlMs).2.cells (m.fullKey key') = ks.cells (m.fullKey key') := by
  unfold acquire
  split
  · exact KeySpace.setNx_cells_ne fun he => h (fullKey_inj.mp he)
  · rfl

theorem release_cells_ne (h : key' ≠ key) :
    (m.release ks key token).2.cells (m.fullKey key') = ks.cells (m.fullKey key') := by
  unfold release
  split
  · exact KeySpace.put_cells_ne _ fun he => h (fullKey_inj.mp he)
  · rfl

theorem renew_cells_ne (h : key' ≠ key) :
    (m.renew ks key token ttlMs).2.cells (m.fullKey key') = ks.cells (m.fullKey key') := by
  unfold renew
  split
  · exact KeySpace.pexpire_cells_ne fun he => h (fullKey_inj.mp he)
  · rfl

@[simp] theorem acquire_now : (m.acquire ks key token ttlMs).2.now = ks.now := by
  unfold acquire
  split
  · exact KeySpace.setNx_now
  · rfl

@[simp] theorem release_now : (m.release ks key token).2.now = ks.now := by
  unfold release
  split <;> rfl

@[simp] theorem renew_now : (m.renew ks key token ttlMs).2.now = ks.now := by
  unfold renew
  split
  · exact KeySpace.pexpire_now
  · rfl

end RedisLockManager

end PyClaw
