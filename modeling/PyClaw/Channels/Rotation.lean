import PyClaw.Channels.FeishuQueue
import PyClaw.Lib.Machine

/-!
# Channels.Rotation

The Feishu channel around its queues: messages, reactions and command follow-ups read the current session
of their key and enqueue a handler to it some time later, and `SessionRouter.rotate` makes another session
current before it cleans up the queue of the old one. `FeishuChannel.queues_serial_of_admitted`: the queues are
serial and lose nothing as long as no handler comes to a session whose old consumer is still in a handler or
whose registered one is dying, and no consumer ends with handlers in its queue.
-/

namespace PyClaw

/-- A call of `rotate`; `newId` is set once the new session is current. -/
structure Rotation where
  sessionKey : String
  oldId : Option String
  newId : Option String := none
  deriving DecidableEq, Repr

/-- The current session of each key in the store, the session that each caller has read, and the calls of
`rotate` in progress. -/
structure FeishuChannel (μ : Type) where
  registry : FeishuQueueRegistry μ := {}
  current : String → Option String := fun _ => none
  resolved : Nat → Option String := fun _ => none
  rotations : Nat → Option Rotation := fun _ => none

inductive FeishuChannelStep (μ : Type) where
  /-- `resolve_or_create` of a message, with the session that it creates if there is none. -/
  | arrives (caller : Nat) (sessionKey newId : String)
  /-- `get_current_session_id` of a reaction. -/
  | reacts (caller : Nat) (sessionKey : String)
  /-- `dispatch_user_message` of a command: the current session, or else the one it had. -/
  | follows (caller : Nat) (sessionKey : String)
  | enqueues (caller : Nat) (coro : μ)
  | rotateBegins (caller : Nat) (sessionKey : String)
  /-- `create_new_session` -/
  | rotateCreates (caller : Nat) (newId : String)
  /-- `on_session_rotated` of the old session. -/
  | rotateEnds (caller : Nat)
  | task (t : Nat) (event : FeishuTaskEvent)
  /-- The task manager shuts down; the cancellations follow. -/
  | closes

namespace FeishuChannel

variable {μ : Type}

section
variable (s : FeishuChannel μ)

def resolve (caller : Nat) (sessionId : Option String) : FeishuChannel μ :=
  { s with resolved := Function.update s.resolved caller sessionId }

def setCurrent (sessionKey newId : String) : FeishuChannel μ :=
  { s with current := Function.update s.current sessionKey (some newId) }

def setRotation (caller : Nat) (rotation : Option Rotation) : FeishuChannel μ :=
  { s with rotations := Function.update s.rotations caller rotation }

def step : FeishuChannelStep μ → FeishuChannel μ
  | .arrives caller sessionKey newId =>
    match s.current sessionKey with
    | some sid => s.resolve caller (some sid)
    | none => (s.setCurrent sessionKey newId).resolve caller (some newId)
  | .reacts caller sessionKey => s.resolve caller (s.current sessionKey)
  | .follows caller sessionKey => s.resolve caller (s.current sessionKey <|> s.resolved caller)
  | .enqueues caller coro =>
    match s.resolved caller with
    | some sid => { s with registry := s.registry.enqueue sid coro }
    | none => s
  | .rotateBegins caller sessionKey =>
    s.setRotation caller (some { sessionKey, oldId := s.current sessionKey })
  | .rotateCreates caller newId =>
    match s.rotations caller with
    | some rotation =>
      (s.setCurrent rotation.sessionKey newId).setRotation caller (some { rotation with newId := some newId })
    | none => s
  | .rotateEnds caller =>
    match s.rotations caller with
    | some { oldId, newId := some newId, .. } =>
      let s := (s.setRotation caller none).resolve caller (some newId)
      match oldId with
      | some old => { s with registry := s.registry.cleanupSession old }
      | none => s
    | _ => s
  | .task t event =>
    match s.registry.consumers t with
    | some c => { s with registry := s.registry.stepTask t c event }
    | none => s
  | .closes => { s with registry := { s.registry with closed := true } }

/-- A handler is enqueued while its session can take it, and no consumer ends with handlers in its queue. -/
def Admitted : FeishuChannelStep μ → Prop
  | .enqueues caller _ => ∀ sid ∈ s.resolved caller, s.registry.Accepts sid
  | .rotateEnds caller => ∀ rotation ∈ s.rotations caller, ∀ old ∈ rotation.oldId,
    ∀ t ∈ s.registry.entries old, s.registry.Cancellable t
  | .task t event => s.registry.Permits t event
  | .arrives .. | .reacts .. | .follows .. | .rotateBegins .. | .rotateCreates .. | .closes => True

instance (a : FeishuChannelStep μ) [DecidableEq μ] : Decidable (s.Admitted a) :=
  match a with
  | .enqueues caller _ => inferInstanceAs (Decidable (∀ sid ∈ s.resolved caller, s.registry.Accepts sid))
  | .rotateEnds caller =>
    inferInstanceAs (Decidable (∀ rotation ∈ s.rotations caller, ∀ old ∈ rotation.oldId,
      ∀ t ∈ s.registry.entries old, s.registry.Cancellable t))
  | .task t event => inferInstanceAs (Decidable (s.registry.Permits t event))
  | .arrives .. | .reacts .. | .follows .. | .rotateBegins .. | .rotateCreates .. | .closes => .isTrue trivial

end

section
variable {s : FeishuChannel μ}

theorem inv_step (h : s.registry.Inv) {a : FeishuChannelStep μ} (ha : s.Admitted a) :
    (s.step a).registry.Inv := by
  cases a with
  | arrives caller sessionKey newId =>
    simp only [step]
    split <;> exact h
  | reacts caller sessionKey => exact h
  | follows caller sessionKey => exact h
  | enqueues caller coro =>
    simp only [step]
    split
    · rename_i sid hsid
      exact h.enqueue (ha sid hsid) coro
    · exact h
  | rotateBegins caller sessionKey => exact h
  | rotateCreates caller newId =>
    simp only [step]
    split <;> exact h
  | rotateEnds caller =>
    simp only [step]
    split
    · rename_i sessionKey oldId newId hrotation
      split
      · rename_i old
        exact h.cleanupSession fun t ht => ha _ hrotation old rfl t ht
      · exact h
    · exact h
  | task t event =>
    simp only [step]
    split
    · rename_i c hc
      exact h.stepTask hc ha
    · exact h
  | closes => exact h.close

/-- Along admitted steps the handlers of a session run one at a time and in order, and none is lost. -/
theorem queues_serial_of_admitted (steps : List (FeishuChannelStep μ))
    (h : Along step Admitted ({} : FeishuChannel μ) steps) :
    (runFrom step ({} : FeishuChannel μ) steps).registry.Serial ∧
      (runFrom step ({} : FeishuChannel μ) steps).registry.Kept := by
  have hinv := h.invariant (I := fun s : FeishuChannel μ => s.registry.Inv) (fun s a hs ha => inv_step hs ha)
    FeishuQueueRegistry.start_inv
  exact ⟨hinv.serial, hinv.kept⟩

end

/-- A message is handled, `/new` rotates the idle session away, and its follow-up and a reaction come to the
new one. -/
def idleRotation : List (FeishuChannelStep Nat) :=
  [.arrives 0 "k" "s1", .enqueues 0 0, .task 0 .begins, .task 0 (.finishes .returns), .rotateBegins 1 "k",
    .rotateCreates 1 "s2", .rotateEnds 1, .follows 1 "k", .enqueues 1 1, .reacts 2 "k", .enqueues 2 2,
    .task 0 .resumes, .task 1 .begins]

theorem idleRotation_served : (runFrom step {} idleRotation).registry.Serial ∧
    (runFrom step {} idleRotation).registry.Kept :=
  queues_serial_of_admitted idleRotation (by decide)

/-! ## A rotation while a handler runs -/

/-- The idle check of a third message rotates the session away, with the first one's handler running and
the second one behind it. -/
def busyRotation : List (FeishuChannelStep Nat) :=
  [.arrives 0 "k" "s1", .enqueues 0 0, .task 0 .begins, .arrives 1 "k" "s1", .enqueues 1 1,
    .arrives 2 "k" "s1", .rotateBegins 2 "k", .rotateCreates 2 "s2", .rotateEnds 2,
    .task 0 (.finishes .cancelled)]

/-- The second message has read the old session, and comes to it while the first one's handler is still in
its `finally`. -/
def lateEnqueue : List (FeishuChannelStep Nat) :=
  [.arrives 0 "k" "s1", .enqueues 0 0, .task 0 .begins, .arrives 1 "k" "s1", .arrives 2 "k" "s1",
    .rotateBegins 2 "k", .rotateCreates 2 "s2", .rotateEnds 2, .enqueues 1 1, .task 1 .begins]

theorem busyRotation_fails :
    (¬ ∀ steps : List (FeishuChannelStep Nat), (runFrom step {} steps).registry.Kept) ∧
      ¬ ∀ steps : List (FeishuChannelStep Nat), (runFrom step {} steps).registry.Serial := by
  constructor
  · intro h
    have hkept := h busyRotation "s1"
    revert hkept
    decide
  · intro h
    have hone := (h lateEnqueue).oneAtATime "s1" 0 1 ⟨_, rfl, rfl, rfl⟩ ⟨_, rfl, rfl, rfl⟩
    cases hone

end FeishuChannel

end PyClaw
