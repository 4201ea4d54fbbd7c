import PyClaw.Lib.Redis

/-!
# Channels.FeishuDedup

`FeishuDedup` (`channels/feishu/dedup.py`): Redis keeps the ids of messages for a retention time, and a table
of the process stands in for it while it fails. Neither knows what the other has seen.

`newAtMostOnce_iff`: a message is new once as long as no message goes from the one to the other.
-/

namespace PyClaw

/-- `redis` tells whether there is a client. -/
structure FeishuDedup where
  redis : Bool := true
  keyPrefix : String := "pyclaw:"
  ttlSeconds : Int := 43200

/-- The server and the table, and what has been reported. -/
structure DedupState where
  server : KeySpace String String := {}
  /-- `_seen`, with the time when an id came in, which the code does not keep. -/
  seen : String → Option Int := fun _ => none
  /-- The ids that were reported as new, and when. -/
  news : List (String × Int) := []

inductive DedupStep where
  | delivers (messageId : String) (fate : Delivery)
  | passes (ms : Nat)
  deriving DecidableEq, Repr

namespace FeishuDedup

variable (d : FeishuDedup)

def key (messageId : String) : String := d.keyPrefix ++ ("feishu:dedup:" ++ messageId)

/-- `ex`, in milliseconds. -/
def retention : Int := 1000 * d.ttlSeconds

/-- The server takes the command; it refuses an expire time that is not positive. -/
def takes : Bool := d.redis && decide (0 < d.ttlSeconds)

/-- `await self._redis.set(key, "1", nx=True, ex=self._ttl)`: whether it has set the key, and `none` where it
raises or there is no client. -/
def redisSet (fate : Delivery) (messageId : String) (ks : KeySpace String String) :
    Option Bool × KeySpace String String :=
  if d.takes then
    let (set, ks') := ks.setNx (d.key messageId) "1" d.retention
    match fate with
    | .answered => (some set, ks')
    | .unsent => (none, ks)
    | .unanswered => (none, ks')
  else (none, ks)

/-- `is_duplicate`. -/
def isDuplicate (fate : Delivery) (messageId : String) (s : DedupState) : Bool × DedupState :=
  let (set, server) := d.redisSet fate messageId s.server
  match set with
  | some set => (!set, { s with server })
  | none =>
    if (s.seen messageId).isSome then (true, { s with server })
    else (false, { s with server, seen := Function.update s.seen messageId (some s.server.now) })

def step (s : DedupState) : DedupStep → DedupState
  | .delivers messageId fate =>
    let (duplicate, s') := d.isDuplicate fate messageId s
    if duplicate then s' else { s' with news := s'.news ++ [(messageId, s.server.now)] }
  | .passes ms => { s with server := s.server.pass ms }

/-- Between two reports of one id as new lies the retention time. -/
def NewAtMostOnce (s : DedupState) : Prop :=
  s.news.Pairwise fun a b => a.1 = b.1 → d.retention ≤ b.2 - a.2

instance (s : DedupState) : Decidable (d.NewAtMostOnce s) := inferInstanceAs (Decidable (List.Pairwise _ _))

/-- The answer comes from Redis. -/
def answers (fate : Delivery) : Bool := d.takes && fate = .answered

/-- The side that is asked about a message, Redis or the table, knows it, or the other one does not. -/
def AsksTheRight (s : DedupState) : DedupStep → Prop
  | .delivers messageId fate =>
    if d.answers fate then
      (s.server.find (d.key messageId)).isSome ∨
        ∀ since, s.seen messageId = some since → d.retention ≤ s.server.now - since
    else (s.seen messageId).isSome ∨ s.server.find (d.key messageId) = none
  | .passes _ => True

/-! ## What a delivery does -/

variable {d} {s : DedupState} {messageId : String} {fate : Delivery}

theorem key_inj {id id' : String} : d.key id = d.key id' ↔ id = id' := by
  simp [key, ← String.toList_inj]

/-- The server has been left alone, or has set the key. -/
inductive Served (d : FeishuDedup) (ks : KeySpace String String) (messageId : String) :
    KeySpace String String → Prop where
  | kept : Served d ks messageId ks
  | set (h : ks.find (d.key messageId) = none) :
      Served d ks messageId (ks.put (d.key messageId) (some ("1", ks.now + d.retention)))

theorem served_setNx (ks : KeySpace String String) :
    Served d ks messageId (ks.setNx (d.key messageId) "1" d.retention).2 := by
  rw [KeySpace.setNx]
  split
  · exact .kept
  · rename_i hfree
    exact .set hfree

theorem redisSet_answered (messageId : String) (hasked : d.answers fate = true) (ks : KeySpace String String) :
    d.redisSet fate messageId ks =
      (some (ks.setNx (d.key messageId) "1" d.retention).1, (ks.setNx (d.key messageId) "1" d.retention).2) := by
  rw [answers, Bool.and_eq_true, decide_eq_true_eq] at hasked
  obtain ⟨htakes, rfl⟩ := hasked
  rw [redisSet, if_pos htakes]

theorem redisSet_failed (messageId : String) (hasked : d.answers fate = false) (ks : KeySpace String String) :
    ∃ server, d.redisSet fate messageId ks = (none, server) ∧ Served d ks messageId server := by
  rw [redisSet]
  split
  · rename_i htakes
    cases fate with
    | answered => simp [answers, htakes] at hasked
    | unsent => exact ⟨ks, rfl, .kept⟩
    | unanswered => exact ⟨_, rfl, served_setNx ks⟩
  · exact ⟨ks, rfl, .kept⟩

/-- A delivery by its outcome: Redis knows the id or sets its key, or the table knows it or takes it in. -/
inductive Delivered (d : FeishuDedup) (s : DedupState) (messageId : String) (fate : Delivery) :
    DedupState → Prop where
  | known (hasked : d.answers fate = true) (hlive : (s.server.find (d.key messageId)).isSome) :
      Delivered d s messageId fate s
  | sets (hasked : d.answers fate = true) (hfree : s.server.find (d.key messageId) = none) :
      Delivered d s messageId fate
        { s with server := s.server.put (d.key messageId) (some ("1", s.server.now + d.retention))
                 news := s.news ++ [(messageId, s.server.now)] }
  | seen {server : KeySpace String String} (hasked : d.answers fate = false)
      (hserved : Served d s.server messageId server) (hseen : (s.seen messageId).isSome) :
      Delivered d s messageId fate { s with server }
  | takes {server : KeySpace String String} (hasked : d.answers fate = false)
      (hserved : Served d s.server messageId server) (hunseen : s.seen messageId = none) :
      Delivered d s messageId fate
        { s with server, seen := Function.update s.seen messageId (some s.server.now)
                 news := s.news ++ [(messageId, s.server.now)] }

theorem delivered_step : Delivered d s messageId fate (d.step s (.delivers messageId fate)) := by
  cases hasked : d.answers fate with
  | true =>
    have hset := redisSet_answered messageId hasked s.server
    cases hfind : s.server.find (d.key messageId) with
    | some c =>
      rw [KeySpace.setNx_of_find hfind] at hset
      simp only [step, isDuplicate, hset]
      exact .known hasked (by rw [hfind]; rfl)
    | none =>
      rw [KeySpace.setNx, hfind] at hset
      simp only [step, isDuplicate, hset]
      exact .sets hasked hfind
  | false =>
    obtain ⟨server, hset, hserved⟩ := redisSet_failed messageId hasked s.server
    cases hseen : s.seen messageId with
    | some since =>
      simp only [step, isDuplicate, hset, hseen]
      exact .seen hasked hserved (by rw [hseen]; rfl)
    | none =>
      simp only [step, isDuplicate, hset, hseen]
      exact .takes hasked hserved hseen

/-! ## What Redis and the table remember -/

structure Inv (d : FeishuDedup) (s : DedupState) : Prop where
  past : ∀ r ∈ s.news, r.2 ≤ s.server.now
  recorded : ∀ id since, s.seen id = some since → (id, since) ∈ s.news
  remembered : ∀ r ∈ s.news, s.seen r.1 = some r.2 ∨
    ∃ v deadline, s.server.cells (d.key r.1) = some (v, deadline) ∧ r.2 + d.retention ≤ deadline
  held : ∀ id v deadline, s.server.cells (d.key id) = some (v, deadline) →
    (s.seen id).isSome ∨ (id, deadline - d.retention) ∈ s.news

section
variable {ks server : KeySpace String String}

theorem Served.now (h : Served d ks messageId server) : server.now = ks.now := by
  cases h with
  | kept => rfl
  | set _ => rfl

/-- A cell stays or is set anew. -/
theorem Served.cells (h : Served d ks messageId server) (id : String) :
    server.cells (d.key id) = ks.cells (d.key id) ∨
      (id = messageId ∧ server.cells (d.key id) = some ("1", ks.now + d.retention)) := by
  cases h with
  | kept => exact Or.inl rfl
  | set _ =>
    by_cases hid : id = messageId
    · right
      rw [hid]
      exact ⟨rfl, KeySpace.put_cells_self _⟩
    · left
      exact KeySpace.put_cells_ne _ fun hkey => hid (key_inj.mp hkey)

end

/-- What a delivery may do: the server is as `Served` says, and the table and the reports only grow. -/
theorem Inv.deliver {server : KeySpace String String} {seen : String → Option Int}
    {news : List (String × Int)} (h : Inv d s) (hserved : Served d s.server messageId server)
    (hseen : ∀ id since, s.seen id = some since → seen id = some since)
    (hrecorded : ∀ id since, seen id = some since → (id, since) ∈ news) (hgrows : ∀ r ∈ s.news, r ∈ news)
    (hnews : ∀ r ∈ news, r ∈ s.news ∨ (r = (messageId, s.server.now) ∧ (seen messageId = some s.server.now ∨
      server.cells (d.key messageId) = some ("1", s.server.now + d.retention))))
    (hset : (seen messageId).isSome ∨ (messageId, s.server.now) ∈ news) :
    Inv d { server, seen, news } := by
  constructor
  · intro r hr
    show r.2 ≤ server.now
    rw [hserved.now]
    rcases hnews r hr with hold | ⟨rfl, -⟩
    · exact h.past r hold
    · exact Int.le_refl _
  · exact hrecorded
  · intro r hr
    rcases hnews r hr with hold | ⟨rfl, hin | hcell⟩
    · rcases h.remembered r hold with hin | ⟨v, deadline, hcell, hlong⟩
      · exact Or.inl (hseen _ _ hin)
      · right
        have hpast := h.past r hold
        rcases hserved.cells r.1 with hsame | ⟨-, hnew⟩
        · exact ⟨v, deadline, hsame.trans hcell, hlong⟩
        · exact ⟨"1", _, hnew, by omega⟩
    · exact Or.inl hin
    · exact Or.inr ⟨"1", _, hcell, Int.le_refl _⟩
  · intro id v deadline hcell
    change server.cells (d.key id) = some (v, deadline) at hcell
    show (seen id).isSome ∨ (id, deadline - d.retention) ∈ news
    rcases hserved.cells id with hsame | ⟨rfl, hnew⟩
    · rcases h.held id v deadline (hsame.symm.trans hcell) with hin | hin
      · obtain ⟨since, hsince⟩ := Option.isSome_iff_exists.mp hin
        left
        rw [hseen id since hsince]
        rfl
      · exact Or.inr (hgrows _ hin)
    · rw [hnew] at hcell
      cases hcell
      simpa using hset

theorem Inv.start : Inv d {} where
  past r hr := by cases hr
  recorded id since hin := by cases hin
  remembered r hr := by cases hr
  held id v deadline hcell := by cases hcell

theorem Inv.pass (h : Inv d s) (ms : Nat) : Inv d { s with server := s.server.pass ms } := by
  refine ⟨fun r hr => ?_, h.recorded, h.remembered, h.held⟩
  have hpast := h.past r hr
  show r.2 ≤ s.server.now + ms
  omega

theorem Inv.step (h : Inv d s) (a : DedupStep) : Inv d (d.step s a) := by
  cases a with
  | passes ms => exact h.pass ms
  | delivers messageId fate =>
    have hstep : Delivered d s messageId fate (d.step s (.delivers messageId fate)) := delivered_step
    generalize d.step s (.delivers messageId fate) = s' at hstep
    cases hstep with
    | known hasked hlive => exact h
    | sets hasked hfree =>
      refine h.deliver (.set hfree) (fun _ _ => id) ?_ ?_ ?_ ?_
      · intro id since hin
        exact List.mem_append_left _ (h.recorded id since hin)
      · intro r hr
        exact List.mem_append_left _ hr
      · intro r hr
        rcases List.mem_append.mp hr with hold | hnew
        · exact Or.inl hold
        · exact Or.inr ⟨List.mem_singleton.mp hnew, Or.inr (KeySpace.put_cells_self _)⟩
      · exact Or.inr (List.mem_append_right _ (List.mem_singleton.mpr rfl))
    | seen hasked hserved hseen =>
      exact h.deliver hserved (fun _ _ => id) h.recorded (fun _ => id) (fun _ => Or.inl) (Or.inl hseen)
    | takes hasked hserved hunseen =>
      refine h.deliver hserved ?_ ?_ ?_ ?_ ?_
      · intro id since hin
        rw [Function.update_of_ne _, hin]
        rintro rfl
        rw [hunseen] at hin
        cases hin
      · intro id since hin
        by_cases hid : id = messageId
        · rw [hid, Function.update_self] at hin
          cases hin
          rw [hid]
          exact List.mem_append_right _ (List.mem_singleton.mpr rfl)
        · rw [Function.update_of_ne hid] at hin
          exact List.mem_append_left _ (h.recorded id since hin)
      · intro r hr
        exact List.mem_append_left _ hr
      · intro r hr
        rcases List.mem_append.mp hr with hold | hnew
        · exact Or.inl hold
        · exact Or.inr ⟨List.mem_singleton.mp hnew, Or.inl (Function.update_self ..)⟩
      · left
        rw [Function.update_self]
        rfl

/-! ## New at most once -/

theorem newAtMostOnce_snoc {server : KeySpace String String} {seen : String → Option Int} {now : Int}
    (h : d.NewAtMostOnce s) :
    d.NewAtMostOnce { server, seen, news := s.news ++ [(messageId, now)] } ↔
      ∀ since, (messageId, since) ∈ s.news → d.retention ≤ now - since := by
  simp only [NewAtMostOnce, List.pairwise_append]
  constructor
  · rintro ⟨-, -, hnew⟩ since hin
    exact hnew _ hin _ (List.mem_singleton.mpr rfl) rfl
  · intro hlong
    refine ⟨h, List.pairwise_singleton .., ?_⟩
    rintro ⟨id, since⟩ hin r hr hid
    rw [List.mem_singleton.mp hr] at hid ⊢
    change id = messageId at hid
    subst hid
    exact hlong since hin

/-- An id that Redis does not know and the table has not taken in lately was not reported lately. -/
theorem Inv.unreported (h : Inv d s) (hfree : s.server.find (d.key messageId) = none)
    (hseen : ∀ since, s.seen messageId = some since → d.retention ≤ s.server.now - since) (since : Int)
    (hin : (messageId, since) ∈ s.news) : d.retention ≤ s.server.now - since := by
  rcases h.remembered _ hin with htable | ⟨v, deadline, hcell, hlong⟩
  · exact hseen since htable
  · by_contra hshort
    have hlive : s.server.now < deadline := by
      dsimp only at hlong
      omega
    rw [KeySpace.find_of_cell hcell hlive] at hfree
    cases hfree

/-- A live key that the table does not know is that of a late report. -/
theorem Inv.reported (h : Inv d s) (hunseen : s.seen messageId = none)
    (hlong : ∀ since, (messageId, since) ∈ s.news → d.retention ≤ s.server.now - since) :
    s.server.find (d.key messageId) = none := by
  rw [Option.eq_none_iff_forall_ne_some]
  rintro ⟨v, deadline⟩ hfind
  obtain ⟨hcell, hlive⟩ := KeySpace.find_eq_some.mp hfind
  rcases h.held messageId v deadline hcell with hin | hin
  · rw [hunseen] at hin
    cases hin
  · have hold := hlong _ hin
    dsimp only at hlive
    omega

theorem asksTheRight_iff (h : Inv d s) (honce : d.NewAtMostOnce s) (a : DedupStep) :
    d.AsksTheRight s a ↔ d.NewAtMostOnce (d.step s a) := by
  cases a with
  | passes ms => exact iff_of_true trivial honce
  | delivers messageId fate =>
    have hstep : Delivered d s messageId fate (d.step s (.delivers messageId fate)) := delivered_step
    generalize d.step s (.delivers messageId fate) = s' at hstep
    rw [AsksTheRight]
    cases hstep with
    | known hasked hlive =>
      rw [if_pos hasked]
      exact iff_of_true (Or.inl hlive) honce
    | sets hasked hfree =>
      rw [if_pos hasked, newAtMostOnce_snoc honce, hfree]
      constructor
      · rintro (hlive | hseen)
        · cases hlive
        · exact h.unreported hfree hseen
      · intro hlong
        right
        intro since hin
        exact hlong since (h.recorded _ since hin)
    | seen hasked hserved hseen =>
      rw [if_neg (by simp [hasked])]
      exact iff_of_true (Or.inl hseen) honce
    | takes hasked hserved hunseen =>
      rw [if_neg (by simp [hasked]), newAtMostOnce_snoc honce, hunseen]
      constructor
      · rintro (hseen | hfree)
        · cases hseen
        · refine h.unreported hfree ?_
          intro since hin
          rw [hunseen] at hin
          cases hin
      · intro hlong
        exact Or.inr (h.reported hunseen hlong)

/-- A second report that comes too soon stays in the history. -/
theorem newAtMostOnce_of_step {a : DedupStep} (h : d.NewAtMostOnce (d.step s a)) : d.NewAtMostOnce s := by
  cases a with
  | passes ms => exact h
  | delivers messageId fate =>
    have hstep : Delivered d s messageId fate (d.step s (.delivers messageId fate)) := delivered_step
    generalize d.step s (.delivers messageId fate) = s' at hstep h
    cases hstep with
    | known _ _ => exact h
    | seen _ _ _ => exact h
    | sets _ _ => exact (List.pairwise_append.mp h).1
    | takes _ _ _ => exact (List.pairwise_append.mp h).1

theorem newAtMostOnce_iff (d : FeishuDedup) (steps : List DedupStep) :
    d.NewAtMostOnce (runFrom d.step {} steps) ↔ Along d.step d.AsksTheRight {} steps := by
  have hempty : d.NewAtMostOnce {} := List.Pairwise.nil
  have halong : Along d.step d.AsksTheRight {} steps ↔ ¬ ¬ d.NewAtMostOnce (runFrom d.step {} steps) := by
    refine along_iff_not_of_absorbing (L := fun s => ¬ d.NewAtMostOnce s) (fun s a h => h.step a) ?_ ?_
      Inv.start (not_not.mpr hempty)
    · intro s a hbad hnext
      exact hbad (newAtMostOnce_of_step hnext)
    · intro s a h hnot
      rw [not_not] at hnot ⊢
      exact asksTheRight_iff h hnot a
  rw [halong, not_not]

/-- Redis sets the key and fails at the second delivery: the table does not know the id. -/
theorem failingRedis_new_twice :
    ¬ ({} : FeishuDedup).NewAtMostOnce
      (runFrom ({} : FeishuDedup).step {}
        [.delivers "om_1" .answered, .passes 1000, .delivers "om_1" .unsent]) := by
  decide

end FeishuDedup

end PyClaw
