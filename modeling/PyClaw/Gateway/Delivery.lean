import PyClaw.Channels.FeishuDedup
import PyClaw.Gateway.Router

/-!
# Gateway.Delivery

Feishu messages at several workers that share one Redis: `handle_feishu_message` routes a message, possibly
over the forward channel of another worker, where it is routed again, and then asks the deduplication
whether to process it. Every Redis command may fail or stay without an answer, and workers and
subscriptions may be lost.
-/

namespace PyClaw

/-- An event that reaches the bot, with the key that `build_session_key` gives it. -/
structure RoutedEvent where
  messageId : String
  sessionKey : String
  deriving DecidableEq, Repr

structure AffinityRegistry where
  workerId : String
  keyPrefix : String := "pyclaw:"
  ttlSeconds : Int := 300

namespace AffinityRegistry

variable (a : AffinityRegistry)

def key (sessionKey : String) : String := a.keyPrefix ++ ("affinity:" ++ sessionKey)

def ttl : Int := 1000 * a.ttlSeconds

def isMine (owner : Option String) : Bool := owner = some a.workerId

/-- What the server does with the next command of `_route_inner`, and how the worker goes on with its answer;
`none` where the answer is an error, to an expire time that is not positive. -/
def serve (sessionKey : String) (subscribed : String → Bool) (ks : KeySpace String String) :
    RouteState → Option RouteState × KeySpace String String
  | .resolving =>
    match ks.get (a.key sessionKey) with
    | some owner => (some (if a.isMine (some owner) then .renewing else .forwarding owner), ks)
    | none => (some .claiming, ks)
  | .renewing => (some (.returned .local), (ks.pexpire (a.key sessionKey) a.ttl).2)
  | .claiming =>
    if 0 < a.ttlSeconds then
      let (claimed, ks) := ks.setNx (a.key sessionKey) a.workerId a.ttl
      (some (if claimed then .returned .local else .resolvingAgain), ks)
    else (none, ks)
  | .resolvingAgain =>
    match ks.get (a.key sessionKey) with
    | some owner => (some (if a.isMine (some owner) then .returned .local else .forwarding owner), ks)
    | none => (some (.returned .local), ks)
  | .forwarding owner =>
    (some (if subscribed owner then .returned .forwarded else .forceClaiming owner), ks)
  | .forceClaiming _ =>
    if 0 < a.ttlSeconds then
      (some (.returned .local), ks.put (a.key sessionKey) (some (a.workerId, ks.now + a.ttl)))
    else (none, ks)
  | .returned _ | .ended => (none, ks)

/-- One command of `route`: `caught` tells whether `route` catches the error of a command without answer. -/
def route (sessionKey : String) (subscribed : String → Bool) (state : RouteState) (fate : Delivery)
    (caught : Bool) (ks : KeySpace String String) : Option RouteState × KeySpace String String :=
  let failed := if caught then some (.returned .local) else none
  match fate with
  | .answered => a.serve sessionKey subscribed ks state
  | .unsent => (failed, ks)
  | .unanswered => (failed, (a.serve sessionKey subscribed ks state).2)

end AffinityRegistry

/-- Where `handle_feishu_message` stands. -/
inductive HandlingState where
  | routing (state : RouteState)
  /-- `is_duplicate`. -/
  | deduping
  | ended
  deriving DecidableEq, Repr

structure Handling where
  worker : String
  event : RoutedEvent
  /-- The forward consumer of the worker waits for it. -/
  forwarded : Bool
  state : HandlingState := .routing .resolving
  deriving DecidableEq, Repr

structure FeishuWorkers where
  server : KeySpace String String := {}
  /-- `_seen` of each worker's deduplication. -/
  seen : String → String → Option Int := fun _ _ => none
  /-- The messages that are processed, and since when. -/
  news : List (String × Int) := []
  subscribed : String → Bool := fun _ => false
  /-- What a worker's subscription has received. -/
  inbox : String → List RoutedEvent := fun _ => []
  handlings : List Handling := []
  /-- The events that Feishu has sent to some worker. -/
  arrived : List RoutedEvent := []
  /-- The events that an error, the loss of a subscription or the end of a worker has dropped. -/
  lost : List RoutedEvent := []

inductive FeishuWorkersStep where
  | arrives (worker : String) (event : RoutedEvent)
  /-- Handling `i` sends its next command of `route`. -/
  | routes (i : Nat) (fate : Delivery) (caught : Bool)
  | dedups (i : Nat) (fate : Delivery)
  /-- The forward consumer takes the next message, once the handling before has ended. -/
  | consumes (worker : String)
  /-- `_affinity_renew_loop` of a session key. -/
  | renews (sessionKey : String)
  | subscribes (worker : String)
  /-- A subscription is lost, with what it has received. -/
  | unsubscribes (worker : String)
  | crashes (worker : String)
  | passes (ms : Nat)
  deriving DecidableEq, Repr

namespace FeishuWorkers

-- `settings.affinity.ttl_seconds`, the same at all workers
variable (ttlSeconds : Int) (d : FeishuWorkers)

def setState (i : Nat) (h : Handling) (state : HandlingState) : FeishuWorkers :=
  { d with handlings := d.handlings.set i { h with state } }

/-- `PUBLISH`, where it reaches the server and a subscriber. -/
def publish (state : RouteState) (fate : Delivery) (event : RoutedEvent) : FeishuWorkers :=
  match state with
  | .forwarding owner =>
    if fate.sent && d.subscribed owner then
      { d with inbox := Function.update d.inbox owner (d.inbox owner ++ [event]) }
    else d
  | _ => d

def route (i : Nat) (h : Handling) (state : RouteState) (fate : Delivery) (caught : Bool) : FeishuWorkers :=
  let (next, server) :=
    ({ workerId := h.worker, ttlSeconds } : AffinityRegistry).route h.event.sessionKey d.subscribed state fate caught d.server
  let d := { d.publish state fate h.event with server }
  match next with
  | none => { d with lost := d.lost ++ [h.event] }.setState i h .ended
  | some (.returned .local) => d.setState i h .deduping
  | some (.returned .forwarded) => d.setState i h .ended
  | some state => d.setState i h (.routing state)

def dedup (i : Nat) (h : Handling) (fate : Delivery) : FeishuWorkers :=
  let s := FeishuDedup.step {} { server := d.server, seen := d.seen h.worker, news := d.news }
    (.delivers h.event.messageId fate)
  { d with server := s.server, seen := Function.update d.seen h.worker s.seen, news := s.news }.setState i h
    .ended

/-- The messages whose handling has not ended. -/
def underWay : List Handling := d.handlings.filter fun h => h.state ≠ .ended

def step : FeishuWorkersStep → FeishuWorkers
  | .arrives worker event =>
    { d with
      arrived := d.arrived ++ [event]
      handlings := d.handlings ++ [{ worker, event, forwarded := false }] }
  | .routes i fate caught =>
    match d.handlings[i]? with
    | some h =>
      match h.state with
      | .routing state => d.route ttlSeconds i h state fate caught
      | _ => d
    | none => d
  | .dedups i fate =>
    match d.handlings[i]? with
    | some h => if h.state = .deduping then d.dedup i h fate else d
    | none => d
  | .consumes worker =>
    if d.underWay.any fun h => h.forwarded && h.worker = worker then d
    else
      match d.inbox worker with
      | [] => d
      | event :: rest =>
        { d with
          inbox := Function.update d.inbox worker rest
          handlings := d.handlings ++ [{ worker, event, forwarded := true }] }
  | .renews sessionKey =>
    let a : AffinityRegistry := { workerId := "", ttlSeconds }
    { d with server := (d.server.pexpire (a.key sessionKey) a.ttl).2 }
  | .subscribes worker => { d with subscribed := Function.update d.subscribed worker true }
  | .unsubscribes worker =>
    { d with
      subscribed := Function.update d.subscribed worker false
      inbox := Function.update d.inbox worker []
      lost := d.lost ++ d.inbox worker }
  | .crashes worker =>
    let gone := d.underWay.filter fun h => h.worker = worker
    { d with
      seen := Function.update d.seen worker fun _ => none
      inbox := Function.update d.inbox worker []
      lost := d.lost ++ d.inbox worker ++ gone.map Handling.event
      handlings := d.handlings.map fun h => if h.worker = worker then { h with state := .ended } else h }
  | .passes ms => { d with server := d.server.pass ms }

/-- The deduplication gets its answers from Redis. -/
def DedupAnswered : FeishuWorkersStep → Prop
  | .dedups _ fate => fate = .answered
  | _ => True

instance (a : FeishuWorkersStep) : Decidable (DedupAnswered a) := by
  cases a <;> unfold DedupAnswered <;> infer_instance

/-- The event is on its way, at a worker or in what a subscription has received. -/
def OnItsWay (event : RoutedEvent) : Prop :=
  (∃ h ∈ d.handlings, h.event = event ∧ h.state ≠ .ended) ∨ ∃ worker, event ∈ d.inbox worker

/-! ## Commands of other keys -/

theorem affinity_ne_dedup (a : AffinityRegistry) (ha : a.keyPrefix = "pyclaw:") (sessionKey id : String) :
    FeishuDedup.key {} id ≠ a.key sessionKey := by
  intro h
  have hlist := congrArg String.toList h
  simp [FeishuDedup.key, AffinityRegistry.key, ha] at hlist

/-- What a command of `route` leaves to the deduplication. -/
structure SameDedup (ks ks' : KeySpace String String) : Prop where
  cells : ∀ id, ks'.cells (FeishuDedup.key {} id) = ks.cells (FeishuDedup.key {} id)
  now : ks'.now = ks.now

theorem SameDedup.refl (ks : KeySpace String String) : SameDedup ks ks := ⟨fun _ => rfl, rfl⟩

section
variable {a : AffinityRegistry} (ha : a.keyPrefix = "pyclaw:") (sessionKey : String)
include ha

theorem sameDedup_pexpire (ks : KeySpace String String) :
    SameDedup ks (ks.pexpire (a.key sessionKey) a.ttl).2 :=
  ⟨fun id => KeySpace.pexpire_cells_ne (affinity_ne_dedup a ha sessionKey id), KeySpace.pexpire_now⟩

theorem sameDedup_serve (subscribed : String → Bool) (ks : KeySpace String String) (state : RouteState) :
    SameDedup ks (a.serve sessionKey subscribed ks state).2 := by
  have hne := affinity_ne_dedup a ha sessionKey
  cases state with
  | resolving =>
    rw [AffinityRegistry.serve]
    split <;> exact .refl ks
  | renewing => exact sameDedup_pexpire ha sessionKey ks
  | claiming =>
    rw [AffinityRegistry.serve]
    split
    · exact ⟨fun id => KeySpace.setNx_cells_ne (hne id), KeySpace.setNx_now⟩
    · exact .refl ks
  | resolvingAgain =>
    rw [AffinityRegistry.serve]
    split <;> exact .refl ks
  | forwarding owner => exact .refl ks
  | forceClaiming owner =>
    rw [AffinityRegistry.serve]
    split
    · exact ⟨fun id => KeySpace.put_cells_ne _ (hne id), rfl⟩
    · exact .refl ks
  | returned result => exact .refl ks
  | ended => exact .refl ks

theorem sameDedup_route (subscribed : String → Bool) (state : RouteState) (fate : Delivery) (caught : Bool)
    (ks : KeySpace String String) :
    SameDedup ks (a.route sessionKey subscribed state fate caught ks).2 := by
  cases fate with
  | answered => exact sameDedup_serve ha sessionKey subscribed ks state
  | unsent => exact .refl ks
  | unanswered => exact sameDedup_serve ha sessionKey subscribed ks state

end

/-- `"forwarded"` is returned only for a message that a subscriber has received. -/
theorem route_forwarded {a : AffinityRegistry} {sessionKey : String} {subscribed : String → Bool}
    {state : RouteState} {fate : Delivery} {caught : Bool} {ks : KeySpace String String}
    (h : (a.route sessionKey subscribed state fate caught ks).1 = some (.returned .forwarded)) :
    fate = .answered ∧ ∃ owner, state = .forwarding owner ∧ subscribed owner = true := by
  cases fate with
  | unsent => cases caught <;> cases h
  | unanswered => cases caught <;> cases h
  | answered =>
    refine ⟨rfl, ?_⟩
    simp only [AffinityRegistry.route] at h
    cases state with
    | forwarding owner =>
      cases hsub : subscribed owner with
      | true => exact ⟨owner, rfl, hsub⟩
      | false => simp [AffinityRegistry.serve, hsub] at h
    | resolving =>
      rw [AffinityRegistry.serve] at h
      split at h <;> (try split at h) <;> cases h
    | renewing => cases h
    | claiming =>
      simp only [AffinityRegistry.serve] at h
      split at h <;> (try split at h) <;> cases h
    | resolvingAgain =>
      rw [AffinityRegistry.serve] at h
      split at h <;> (try split at h) <;> cases h
    | forceClaiming owner =>
      rw [AffinityRegistry.serve] at h
      split at h <;> cases h
    | returned result => cases h
    | ended => cases h

/-! ## What a command of `route` leaves alone -/

/-- A `PUBLISH` leaves everything alone, or puts the event last in the owner's subscription. -/
theorem publish_cases (d : FeishuWorkers) (state : RouteState) (fate : Delivery) (e : RoutedEvent) :
    d.publish state fate e = d ∨
      ∃ owner, d.publish state fate e =
        { d with inbox := Function.update d.inbox owner (d.inbox owner ++ [e]) } := by
  cases state with
  | forwarding owner =>
    rw [publish]
    split
    · exact .inr ⟨owner, rfl⟩
    · exact .inl rfl
  | _ => exact .inl rfl

theorem publish_handlings (d : FeishuWorkers) (state : RouteState) (fate : Delivery) (e : RoutedEvent) :
    (d.publish state fate e).handlings = d.handlings := by
  rcases d.publish_cases state fate e with he | ⟨owner, he⟩ <;> rw [he]

/-- What `route` leaves alone. -/
theorem route_frame (ttlSeconds : Int) (d : FeishuWorkers) (i : Nat) (h : Handling) (state : RouteState) (fate : Delivery)
    (caught : Bool) :
    (d.route ttlSeconds i h state fate caught).seen = d.seen ∧
      (d.route ttlSeconds i h state fate caught).news = d.news ∧
      (d.route ttlSeconds i h state fate caught).arrived = d.arrived ∧
      SameDedup d.server (d.route ttlSeconds i h state fate caught).server := by
  have hsame := sameDedup_route (a := { workerId := h.worker, ttlSeconds }) rfl h.event.sessionKey d.subscribed
    state fate caught d.server
  rw [FeishuWorkers.route]
  cases hroute : AffinityRegistry.route { workerId := h.worker, ttlSeconds } h.event.sessionKey d.subscribed
    state fate caught d.server with
  | mk next server =>
    rw [hroute] at hsame
    dsimp only
    rcases d.publish_cases state fate h.event with he | ⟨owner, he⟩
    · rw [he]
      split <;> exact ⟨rfl, rfl, rfl, hsame⟩
    · rw [he]
      split <;> exact ⟨rfl, rfl, rfl, hsame⟩

end FeishuWorkers

end PyClaw
