import PyClaw.Channels.Consumers
import PyClaw.Lib.Table

/-!
# Channels.FeishuQueue

The `FeishuQueueRegistry`: the queues of the sessions and the tasks that consume them. A queue is read by
the one task that was spawned with it, so both have one number. The task stays registered when it dies, and
a cleanup forgets it while its handler may go on. `Inv` is what the operations keep where no handler is put
before a dead consumer, and none is left behind by one.
-/

namespace PyClaw

inductive FeishuConsumerPhase (μ : Type) where
  | spawned
  /-- In `q.get()`. -/
  | waiting
  /-- Cancelled before its start or in `q.get()`, and not resumed since. -/
  | cancelled
  | handling (coro : μ)
  | ended
  deriving DecidableEq, Repr

namespace FeishuConsumerPhase

variable {μ : Type}

def live : FeishuConsumerPhase μ → Bool
  | .ended => false
  | _ => true

/-- The consumer will ask its queue for more. -/
def serves : FeishuConsumerPhase μ → Bool
  | .spawned | .waiting | .handling _ => true
  | .cancelled | .ended => false

def handles : FeishuConsumerPhase μ → Bool
  | .handling _ => true
  | _ => false

/-- `task.cancel()`: a handler that is cancelled ends in its own way. -/
def cancel : FeishuConsumerPhase μ → FeishuConsumerPhase μ
  | .spawned | .waiting => .cancelled
  | phase => phase

end FeishuConsumerPhase

structure FeishuConsumer (μ : Type) where
  sessionId : String
  queue : List μ := []
  phase : FeishuConsumerPhase μ := .spawned
  deriving DecidableEq, Repr

/-- The table of the registry, the consumers in the order of their creation, and the handlers of each
session that were accepted and that were started. -/
structure FeishuQueueRegistry (μ : Type) where
  /-- The task manager spawns no more tasks. -/
  closed : Bool := false
  entries : String → Option Nat := fun _ => none
  consumers : Nat → Option (FeishuConsumer μ) := fun _ => none
  created : Nat := 0
  accepted : String → List μ := fun _ => []
  started : String → List μ := fun _ => []

inductive FeishuTaskEvent where
  /-- The task runs for the first time. -/
  | begins
  /-- An item has arrived for a task in `q.get()`. -/
  | takes
  /-- `TaskManager.cancel`, up to its wait. -/
  | cancels
  /-- A cancelled task is resumed. -/
  | resumes
  | finishes (how : HandlerEnd)
  deriving DecidableEq, Repr

namespace FeishuQueueRegistry

variable {μ : Type}

section
variable (r : FeishuQueueRegistry μ)

def moves (t : Nat) (c : FeishuConsumer μ) : FeishuQueueRegistry μ :=
  { r with consumers := Function.update r.consumers t (some c) }

/-- `await q.get()`: the next handler starts, or the task waits for one. -/
def get (t : Nat) (c : FeishuConsumer μ) : FeishuQueueRegistry μ :=
  match c.queue with
  | coro :: rest =>
    { r.moves t { c with queue := rest, phase := .handling coro } with
      started := Function.update r.started c.sessionId (r.started c.sessionId ++ [coro]) }
  | [] => r.moves t { c with phase := .waiting }

def spawn (sessionId : String) : FeishuQueueRegistry μ :=
  { r.moves r.created { sessionId } with
    entries := Function.update r.entries sessionId (some r.created)
    created := r.created + 1 }

/-- `queue.put(coro)`, which an unbounded queue never blocks. -/
def put (sessionId : String) (coro : μ) : FeishuQueueRegistry μ :=
  match r.entries sessionId with
  | some t =>
    match r.consumers t with
    | some c =>
      { r.moves t { c with queue := c.queue ++ [coro] } with
        accepted := Function.update r.accepted sessionId (r.accepted sessionId ++ [coro]) }
    | none => r
  | none => r

/-- A closed task manager raises from `spawn`. -/
def enqueue (sessionId : String) (coro : μ) : FeishuQueueRegistry μ :=
  match r.entries sessionId with
  | some _ => r.put sessionId coro
  | none => if r.closed then r else (r.spawn sessionId).put sessionId coro

/-- `TaskManager.cancel`; a task that is done stays as it is. -/
def cancel (t : Nat) : FeishuQueueRegistry μ :=
  match r.consumers t with
  | some c => r.moves t { c with phase := c.phase.cancel }
  | none => r

def cleanupSession (sessionId : String) : FeishuQueueRegistry μ :=
  match r.entries sessionId with
  | some t => { r with entries := Function.update r.entries sessionId none }.cancel t
  | none => r

/-- `_consume`, from one suspension to the next. -/
def stepTask (t : Nat) (c : FeishuConsumer μ) : FeishuTaskEvent → FeishuQueueRegistry μ
  | .begins =>
    match c.phase with
    | .spawned => r.get t c
    | _ => r
  | .takes =>
    match c.phase with
    | .waiting => r.get t c
    | _ => r
  | .cancels => r.cancel t
  | .resumes =>
    match c.phase with
    | .cancelled => r.moves t { c with phase := .ended }
    | _ => r
  | .finishes how =>
    match c.phase with
    | .handling _ =>
      match how with
      -- `except Exception` does not catch a CancelledError
      | .cancelled => r.moves t { c with phase := .ended }
      | .returns | .fails => r.get t c
    | _ => r

/-! ## Serial handling -/

def Handles (t : Nat) (sid : String) : Prop :=
  ∃ c ∈ r.consumers t, c.sessionId = sid ∧ c.phase.handles = true

/-- The handlers of a session run one at a time, in the order in which they were accepted. -/
structure Serial : Prop where
  oneAtATime : ∀ sid t t', r.Handles t sid → r.Handles t' sid → t = t'
  ordered : ∀ sid, r.started sid <+: r.accepted sid

/-- Every handler that was accepted was started, or is in the queue of a live consumer. -/
def Kept : Prop :=
  ∀ sid, r.accepted sid = r.started sid ∨ ∃ t < r.created, ∃ c ∈ r.consumers t,
    c.sessionId = sid ∧ c.phase.live = true ∧ r.accepted sid = r.started sid ++ c.queue

/-- The registered consumer of the session will serve another handler. Where there is none and one is
spawned, no handler of the session is running. -/
def Accepts (sid : String) : Prop :=
  (∀ t ∈ r.entries sid, ∀ c ∈ r.consumers t, c.phase.serves = true) ∧
    (r.entries sid = none →
      ∀ t < r.created, ∀ c ∈ r.consumers t, c.sessionId = sid → c.phase.handles = false)

/-- A cancellation finds the task in a handler, or nothing in its queue. -/
def Cancellable (t : Nat) : Prop := ∀ c ∈ r.consumers t, c.phase.handles = false → c.queue = []

/-- No handler is left in the queue of a consumer that this ends. -/
def Permits (t : Nat) : FeishuTaskEvent → Prop
  | .cancels => r.Cancellable t
  | .finishes .cancelled => ∀ c ∈ r.consumers t, c.phase.handles = true → c.queue = []
  | .begins | .takes | .resumes | .finishes .returns | .finishes .fails => True

instance (sid : String) : Decidable (r.Accepts sid) :=
  inferInstanceAs (Decidable ((∀ t ∈ r.entries sid, ∀ c ∈ r.consumers t, c.phase.serves = true) ∧
    (r.entries sid = none →
      ∀ t < r.created, ∀ c ∈ r.consumers t, c.sessionId = sid → c.phase.handles = false)))

instance (t : Nat) [DecidableEq μ] : Decidable (r.Cancellable t) :=
  inferInstanceAs (Decidable (∀ c ∈ r.consumers t, c.phase.handles = false → c.queue = []))

instance (t : Nat) (event : FeishuTaskEvent) [DecidableEq μ] : Decidable (r.Permits t event) :=
  match event with
  | .cancels => inferInstanceAs (Decidable (r.Cancellable t))
  | .finishes .cancelled =>
    inferInstanceAs (Decidable (∀ c ∈ r.consumers t, c.phase.handles = true → c.queue = []))
  | .begins | .takes | .resumes | .finishes .returns | .finishes .fails => .isTrue trivial

/-! ## What the operations keep -/

/-- The consumer is in a handler, or has more to start. -/
def Engaged (c : FeishuConsumer μ) : Prop := c.phase.handles = true ∨ c.queue ≠ []

structure Shape : Prop where
  known : ∀ sid t, r.entries sid = some t → ∃ c, r.consumers t = some c ∧ c.sessionId = sid
  fresh : ∀ t, r.created ≤ t → r.consumers t = none
  served : ∀ t c, r.consumers t = some c → c.queue ≠ [] → c.phase.serves = true
  /-- What waits in a queue that is not registered waits behind a handler. -/
  orphan : ∀ t c, r.consumers t = some c → r.entries c.sessionId ≠ some t → c.queue ≠ [] →
    c.phase.handles = true
  single : ∀ t t' c c', r.consumers t = some c → r.consumers t' = some c' →
    c.sessionId = c'.sessionId → Engaged c → Engaged c' → t = t'
  registered : ∀ t t' c, r.consumers t' = some c → r.entries c.sessionId = some t → Engaged c → t' = t

/-- What was accepted was started, or it waits. -/
structure Ledger : Prop where
  backlog : ∀ t c, r.consumers t = some c → c.queue ≠ [] →
    r.accepted c.sessionId = r.started c.sessionId ++ c.queue
  settled : ∀ sid, (∀ t c, r.consumers t = some c → c.sessionId = sid → c.queue = []) →
    r.accepted sid = r.started sid

structure Inv : Prop where
  shape : r.Shape
  ledger : r.Ledger

end

section
variable {r : FeishuQueueRegistry μ} {t : Nat} {c e : FeishuConsumer μ} {sid : String} {coro : μ}
  {phase : FeishuConsumerPhase μ}

/-! ### One consumer -/

theorem Shape.frame (h : r.Shape) (closed : Bool) (accepted started : String → List μ) :
    Shape { r with closed, accepted, started } :=
  ⟨h.known, h.fresh, h.served, h.orphan, h.single, h.registered⟩

theorem Shape.lt_created (h : r.Shape) (hc : r.consumers t = some c) : t < r.created := by
  by_contra hge
  rw [h.fresh t (Nat.le_of_not_lt hge)] at hc
  cases hc

/-- A consumer that is engaged, or registered, is the only one of its session in use. -/
theorem Shape.alone (h : r.Shape) (hc : r.consumers t = some c)
    (hactive : Engaged c ∨ r.entries c.sessionId = some t) {u : Nat} {d : FeishuConsumer μ}
    (hd : r.consumers u = some d) (hsame : d.sessionId = c.sessionId) (hdeng : Engaged d) : u = t := by
  rcases hactive with hceng | hentry
  · exact h.single u t d c hd hc hsame hdeng hceng
  · exact h.registered t u d hd (hsame ▸ hentry) hdeng

theorem Shape.change (h : r.Shape) (hc : r.consumers t = some c) (hsid : e.sessionId = c.sessionId)
    (hengaged : Engaged e → Engaged c ∨ r.entries c.sessionId = some t)
    (hserved : e.queue ≠ [] → e.phase.serves = true)
    (horphan : r.entries c.sessionId ≠ some t → e.queue ≠ [] → e.phase.handles = true) :
    (r.moves t e).Shape := by
  have halone : Engaged e → ∀ u d, r.consumers u = some d → d.sessionId = c.sessionId →
      Engaged d → u = t := fun he u d hd hsame hdeng => h.alone hc (hengaged he) hd hsame hdeng
  refine ⟨?_, ?_, ?_, ?_, ?_, ?_⟩
  · intro sid u hu
    obtain ⟨d, hd, hdsid⟩ := h.known sid u hu
    by_cases hut : u = t
    · subst hut
      rw [hc] at hd
      cases hd
      exact ⟨e, Function.update_self .., hsid.trans hdsid⟩
    · exact ⟨d, (Function.update_of_ne hut ..).trans hd, hdsid⟩
  · intro u hu
    have hne : u ≠ t := by
      have hlt := h.lt_created hc
      have hle : r.created ≤ u := hu
      omega
    exact (Function.update_of_ne hne ..).trans (h.fresh u hu)
  · intro u d hd hne
    rcases update_eq_some.mp hd with ⟨-, hnew⟩ | ⟨-, hold⟩
    · cases hnew
      exact hserved hne
    · exact h.served u d hold hne
  · intro u d hd hentry hne
    rcases update_eq_some.mp hd with ⟨hut, hnew⟩ | ⟨-, hold⟩
    · cases hnew
      rw [hsid, hut] at hentry
      exact horphan hentry hne
    · exact h.orphan u d hold hentry hne
  · intro u u' d d' hd hd' hsame hdeng hdeng'
    rcases update_eq_some.mp hd with ⟨hut, hnew⟩ | ⟨-, hold⟩
    · cases hnew
      rcases update_eq_some.mp hd' with ⟨hut', -⟩ | ⟨-, hold'⟩
      · rw [hut, hut']
      · rw [hut, halone hdeng u' d' hold' (hsame.symm.trans hsid) hdeng']
    · rcases update_eq_some.mp hd' with ⟨hut', hnew⟩ | ⟨-, hold'⟩
      · cases hnew
        rw [hut', halone hdeng' u d hold (hsame.trans hsid) hdeng]
      · exact h.single u u' d d' hold hold' hsame hdeng hdeng'
  · intro v u d hd hentry hdeng
    rcases update_eq_some.mp hd with ⟨hut, hnew⟩ | ⟨-, hold⟩
    · cases hnew
      rw [hsid] at hentry
      rcases hengaged hdeng with hceng | hown
      · rw [hut, h.registered v t c hc hentry hceng]
      · exact hut.trans (Option.some.inj (hown.symm.trans hentry))
    · exact h.registered v u d hold hentry hdeng

theorem Inv.balance (h : r.Inv) (hc : r.consumers t = some c)
    (hactive : Engaged c ∨ r.entries c.sessionId = some t) :
    r.accepted c.sessionId = r.started c.sessionId ++ c.queue := by
  by_cases hnil : c.queue = []
  · rw [hnil, List.append_nil]
    refine h.ledger.settled _ fun u d hd hsame => ?_
    by_contra hne
    have hut := h.shape.alone hc hactive hd hsame (.inr hne)
    subst hut
    rw [hc] at hd
    cases hd
    exact hne hnil
  · exact h.ledger.backlog t c hc hnil

/-- The consumer in use accepts or starts handlers. -/
theorem Inv.ledger_change (h : r.Inv) (hc : r.consumers t = some c) (hsid : e.sessionId = c.sessionId)
    (hactive : Engaged c ∨ r.entries c.sessionId = some t) {accepted started : List μ}
    (hbalance : accepted = started ++ e.queue) :
    Ledger { r.moves t e with
      accepted := Function.update r.accepted c.sessionId accepted
      started := Function.update r.started c.sessionId started } := by
  refine ⟨?_, ?_⟩
  · intro u d hd hne
    rcases update_eq_some.mp hd with ⟨-, hnew⟩ | ⟨hut, hold⟩
    · cases hnew
      simpa [hsid] using hbalance
    · by_cases hsame : d.sessionId = c.sessionId
      · exact absurd (h.shape.alone hc hactive hold hsame (.inr hne)) hut
      · simpa [hsame, moves] using h.ledger.backlog u d hold hne
  · intro sid hnil
    by_cases hsame : sid = c.sessionId
    · have hself := hnil t e (Function.update_self ..) (hsid.trans hsame.symm)
      rw [hself, List.append_nil] at hbalance
      simpa [hsame] using hbalance
    · simp only [Function.update_of_ne hsame]
      refine h.ledger.settled sid fun u d hd hdsid => ?_
      by_cases hut : u = t
      · subst hut
        rw [hc] at hd
        cases hd
        exact absurd hdsid.symm hsame
      · exact hnil u d ((Function.update_of_ne hut ..).trans hd) hdsid

theorem Ledger.moves (h : r.Ledger) (hc : r.consumers t = some c) (phase : FeishuConsumerPhase μ) :
    (r.moves t { c with phase }).Ledger := by
  refine ⟨?_, ?_⟩
  · intro u d hd hne
    rcases update_eq_some.mp hd with ⟨-, hnew⟩ | ⟨-, hold⟩
    · cases hnew
      exact h.backlog t c hc hne
    · exact h.backlog u d hold hne
  · intro sid hnil
    refine h.settled sid fun u d hd hdsid => ?_
    by_cases hut : u = t
    · subst hut
      rw [hc] at hd
      cases hd
      exact hnil u { c with phase } (Function.update_self ..) hdsid
    · exact hnil u d ((Function.update_of_ne hut ..).trans hd) hdsid

/-- A consumer changes its phase. -/
theorem Inv.moves (h : r.Inv) (hc : r.consumers t = some c)
    (hhandles : phase.handles = true → c.phase.handles = true)
    (hserved : c.queue ≠ [] → phase.serves = true)
    (horphan : r.entries c.sessionId ≠ some t → c.queue ≠ [] → phase.handles = true) :
    (r.moves t { c with phase }).Inv :=
  ⟨h.shape.change hc rfl (fun heng => .inl (heng.imp hhandles id)) hserved horphan,
    h.ledger.moves hc phase⟩

theorem Inv.get (h : r.Inv) (hc : r.consumers t = some c) : (r.get t c).Inv := by
  unfold FeishuQueueRegistry.get
  split
  · rename_i coro rest hqueue
    have hengaged : Engaged c := .inr (by simp [hqueue])
    have hbalance : r.accepted c.sessionId = r.started c.sessionId ++ [coro] ++ rest := by
      rw [List.append_assoc, List.singleton_append, ← hqueue]
      exact h.balance hc (.inl hengaged)
    have hledger := h.ledger_change (e := { c with queue := rest, phase := .handling coro }) hc rfl
      (.inl hengaged) hbalance
    rw [Function.update_eq_self] at hledger
    have hshape := h.shape.change (e := { c with queue := rest, phase := .handling coro }) hc rfl
      (fun _ => .inl hengaged) (fun _ => rfl) fun _ _ => rfl
    exact ⟨hshape.frame _ _ _, hledger⟩
  · rename_i hqueue
    exact h.moves hc (fun hhandles => by cases hhandles) (fun hne => absurd hqueue hne)
      fun _ hne => absurd hqueue hne

theorem Inv.cancel (h : r.Inv) (hsafe : r.Cancellable t) :
    (r.cancel t).Inv := by
  unfold FeishuQueueRegistry.cancel
  split
  · rename_i c hc
    have hhandles : c.phase.cancel.handles = c.phase.handles := by cases c.phase <;> rfl
    have hrunning : c.queue ≠ [] → c.phase.handles = true := fun hne => by
      by_contra hidle
      exact hne (hsafe c hc (by simpa using hidle))
    refine h.moves hc (fun heng => hhandles ▸ heng) (fun hne => ?_)
      fun _ hne => hhandles.trans (hrunning hne)
    have hhandling := hrunning hne
    cases hphase : c.phase with
    | handling coro => rfl
    | spawned => rw [hphase] at hhandling; cases hhandling
    | waiting => rw [hphase] at hhandling; cases hhandling
    | cancelled => rw [hphase] at hhandling; cases hhandling
    | ended => rw [hphase] at hhandling; cases hhandling
  · exact h

/-- The registry forgets a session. -/
theorem Inv.forget (h : r.Inv) (hentry : r.entries sid = some t)
    (hsafe : r.Cancellable t) :
    Inv { r with entries := Function.update r.entries sid none } := by
  refine ⟨⟨?_, h.shape.fresh, h.shape.served, ?_, h.shape.single, ?_⟩, h.ledger.backlog,
    h.ledger.settled⟩
  · intro sid' u hu
    exact h.shape.known sid' u (update_none_eq_some.mp hu).2
  · intro u c hc hne hqueue
    by_cases hsid : c.sessionId = sid
    · by_cases hut : u = t
      · subst hut
        by_contra hidle
        exact hqueue (hsafe c hc (by simpa using hidle))
      · refine h.shape.orphan u c hc (fun hu => hut ?_) hqueue
        rw [hsid, hentry] at hu
        exact (Option.some.inj hu).symm
    · simp only [Function.update_of_ne hsid] at hne
      exact h.shape.orphan u c hc hne hqueue
  · intro u u' c hc hu heng
    exact h.shape.registered u u' c hc (update_none_eq_some.mp hu).2 heng

theorem Inv.cleanupSession (h : r.Inv) (hsafe : ∀ t ∈ r.entries sid, r.Cancellable t) :
    (r.cleanupSession sid).Inv := by
  unfold FeishuQueueRegistry.cleanupSession
  split
  · rename_i t hentry
    exact (h.forget hentry (hsafe t hentry)).cancel (hsafe t hentry)
  · exact h

/-- A session without a registered consumer in which nothing is handled has nothing in use. -/
theorem Shape.quiet (h : r.Shape) (hnone : r.entries sid = none)
    (hidle : ∀ t c, r.consumers t = some c → c.sessionId = sid → c.phase.handles = false) (t : Nat)
    (c : FeishuConsumer μ) (hc : r.consumers t = some c) (hsid : c.sessionId = sid) : ¬ Engaged c := by
  intro heng
  have hoff := hidle t c hc hsid
  rcases heng with hhandles | hqueue
  · rw [hoff] at hhandles
    cases hhandles
  · have hentry : r.entries c.sessionId ≠ some t := by rw [hsid, hnone]; nofun
    rw [h.orphan t c hc hentry hqueue] at hoff
    cases hoff

theorem Shape.spawn (h : r.Shape)
    (hquiet : ∀ t c, r.consumers t = some c → c.sessionId = sid → ¬ Engaged c) : (r.spawn sid).Shape := by
  have hnew : ¬ Engaged ({ sessionId := sid } : FeishuConsumer μ) := by
    rintro (hhandles | hqueue)
    · cases hhandles
    · exact hqueue rfl
  refine ⟨?_, ?_, ?_, ?_, ?_, ?_⟩
  · intro sid' u hu
    rcases update_eq_some.mp hu with ⟨hsid, hu⟩ | ⟨-, hu⟩
    · cases hu
      exact ⟨_, Function.update_self .., hsid.symm⟩
    · obtain ⟨c, hc, hcsid⟩ := h.known sid' u hu
      exact ⟨c, (Function.update_of_ne (Nat.ne_of_lt (h.lt_created hc)) ..).trans hc, hcsid⟩
  · intro u hu
    have hne : u ≠ r.created := Nat.ne_of_gt hu
    exact (Function.update_of_ne hne ..).trans (h.fresh u (Nat.le_of_succ_le hu))
  · intro u c hc hne
    rcases update_eq_some.mp hc with ⟨-, hc⟩ | ⟨-, hc⟩
    · cases hc
      exact absurd rfl hne
    · exact h.served u c hc hne
  · intro u c hc hentry hne
    rcases update_eq_some.mp hc with ⟨-, hc⟩ | ⟨-, hc⟩
    · cases hc
      exact absurd rfl hne
    · by_cases hsid : c.sessionId = sid
      · exact absurd (.inr hne) (hquiet u c hc hsid)
      · refine h.orphan u c hc (fun hu => hentry ?_) hne
        exact (Function.update_of_ne hsid ..).trans hu
  · intro u u' c c' hc hc' hsame heng heng'
    rcases update_eq_some.mp hc with ⟨-, hc⟩ | ⟨-, hc⟩
    · cases hc
      exact absurd heng hnew
    · rcases update_eq_some.mp hc' with ⟨-, hc'⟩ | ⟨-, hc'⟩
      · cases hc'
        exact absurd heng' hnew
      · exact h.single u u' c c' hc hc' hsame heng heng'
  · intro u u' c hc hentry heng
    rcases update_eq_some.mp hc with ⟨-, hc⟩ | ⟨-, hc⟩
    · cases hc
      exact absurd heng hnew
    · rcases update_eq_some.mp hentry with ⟨hsid, -⟩ | ⟨-, hentry⟩
      · exact absurd heng (hquiet u' c hc hsid)
      · exact h.registered u u' c hc hentry heng

theorem Ledger.spawn (h : r.Ledger) (hshape : r.Shape) : (r.spawn sid).Ledger := by
  constructor
  · intro u c hc hne
    rcases update_eq_some.mp hc with ⟨-, hc⟩ | ⟨-, hc⟩
    · cases hc
      exact absurd rfl hne
    · exact h.backlog u c hc hne
  · intro sid' hnil
    refine h.settled sid' fun u c hc hsid => ?_
    exact hnil u c ((Function.update_of_ne (Nat.ne_of_lt (hshape.lt_created hc)) ..).trans hc) hsid

/-- A consumer is spawned for a session with no other consumer in use. -/
theorem Inv.spawn (h : r.Inv) (hnone : r.entries sid = none)
    (hidle : ∀ t c, r.consumers t = some c → c.sessionId = sid → c.phase.handles = false) :
    (r.spawn sid).Inv :=
  ⟨h.shape.spawn (h.shape.quiet hnone hidle), h.ledger.spawn h.shape⟩

theorem Inv.put (h : r.Inv)
    (hserves : ∀ t ∈ r.entries sid, ∀ c ∈ r.consumers t, c.phase.serves = true) (coro : μ) :
    (r.put sid coro).Inv := by
  unfold FeishuQueueRegistry.put
  split
  · rename_i t hentry
    split
    · rename_i c hc
      obtain ⟨d, hd, hsid⟩ := h.shape.known sid t hentry
      rw [hc] at hd
      cases hd
      subst hsid
      have hbalance : r.accepted c.sessionId ++ [coro] = r.started c.sessionId ++ (c.queue ++ [coro]) := by
        rw [h.balance hc (.inr hentry), List.append_assoc]
      have hledger := h.ledger_change (e := { c with queue := c.queue ++ [coro] }) hc rfl (.inr hentry)
        hbalance
      rw [Function.update_eq_self c.sessionId r.started] at hledger
      have hshape := h.shape.change (e := { c with queue := c.queue ++ [coro] }) hc rfl (fun _ => .inr hentry)
        (fun _ => hserves t hentry c hc) fun hne => absurd hentry hne
      exact ⟨hshape.frame _ _ _, hledger⟩
    · exact h
  · exact h

theorem Inv.enqueue (h : r.Inv) (haccepts : r.Accepts sid) (coro : μ) : (r.enqueue sid coro).Inv := by
  unfold FeishuQueueRegistry.enqueue
  cases hentry : r.entries sid with
  | some t => exact h.put haccepts.1 coro
  | none =>
    have hidle : ∀ t c, r.consumers t = some c → c.sessionId = sid → c.phase.handles = false := by
      intro t c hc hsid
      have hlt := h.shape.lt_created hc
      exact haccepts.2 hentry t hlt c hc hsid
    simp only
    split
    · exact h
    · refine (h.spawn hentry hidle).put (fun u hu c hc => ?_) coro
      rcases update_eq_some.mp hu with ⟨-, hnew⟩ | ⟨hne, -⟩
      · cases hnew
        rcases update_eq_some.mp hc with ⟨-, hspawned⟩ | ⟨hne, -⟩
        · cases hspawned
          rfl
        · exact absurd rfl hne
      · exact absurd rfl hne

theorem Inv.close (h : r.Inv) : Inv { r with closed := true } :=
  ⟨h.shape.frame _ _ _, h.ledger.backlog, h.ledger.settled⟩

theorem Inv.stepTask (h : r.Inv) (hc : r.consumers t = some c) {event : FeishuTaskEvent}
    (hpermits : r.Permits t event) : (r.stepTask t c event).Inv := by
  cases event with
  | begins =>
    simp only [FeishuQueueRegistry.stepTask]
    split
    · exact h.get hc
    · exact h
  | takes =>
    simp only [FeishuQueueRegistry.stepTask]
    split
    · exact h.get hc
    · exact h
  | cancels => exact h.cancel hpermits
  | resumes =>
    simp only [FeishuQueueRegistry.stepTask]
    split
    · rename_i hphase
      have hnil : c.queue = [] := by
        by_contra hne
        have hserves := h.shape.served t c hc hne
        rw [hphase] at hserves
        cases hserves
      exact h.moves hc (fun hhandles => by cases hhandles) (fun hne => absurd hnil hne)
        fun _ hne => absurd hnil hne
    · exact h
  | finishes how =>
    simp only [FeishuQueueRegistry.stepTask]
    split
    · rename_i coro hphase
      split
      · have hnil : c.queue = [] := hpermits c hc (by rw [hphase]; rfl)
        exact h.moves hc (fun hhandles => by cases hhandles) (fun hne => absurd hnil hne)
          fun _ hne => absurd hnil hne
      all_goals exact h.get hc
    · exact h

theorem start_inv : ({} : FeishuQueueRegistry μ).Inv where
  shape := {
    known := nofun
    fresh := fun _ _ => rfl
    served := nofun
    orphan := nofun
    single := nofun
    registered := nofun }
  ledger := { backlog := nofun, settled := fun _ _ => rfl }

theorem Inv.kept (h : r.Inv) : r.Kept := by
  intro sid
  by_cases hnil : ∀ t c, r.consumers t = some c → c.sessionId = sid → c.queue = []
  · exact .inl (h.ledger.settled sid hnil)
  · right
    simp only [not_forall] at hnil
    obtain ⟨t, c, hc, hsid, hne⟩ := hnil
    have hlt := h.shape.lt_created hc
    have hlive : c.phase.live = true := by
      have hserves := h.shape.served t c hc hne
      cases hphase : c.phase with
      | ended => rw [hphase] at hserves; cases hserves
      | spawned | waiting | cancelled | handling => rfl
    subst hsid
    exact ⟨t, hlt, c, hc, rfl, hlive, h.ledger.backlog t c hc hne⟩

theorem Inv.serial (h : r.Inv) : r.Serial where
  oneAtATime := by
    rintro sid t t' ⟨c, hc, hsid, hhandles⟩ ⟨c', hc', hsid', hhandles'⟩
    exact h.shape.single t t' c c' hc hc' (hsid.trans hsid'.symm) (.inl hhandles) (.inl hhandles')
  ordered sid := by
    rcases h.kept sid with heq | ⟨t, -, c, -, -, -, heq⟩
    · exact heq ▸ List.prefix_rfl
    · exact heq ▸ List.prefix_append ..

end

end FeishuQueueRegistry

end PyClaw
