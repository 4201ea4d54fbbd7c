import PyClaw.Lib.Machine

/-!
# Gateway.Router

`GatewayRouter.route` on one session key, one Redis command at a time, over the affinity record of
that key; every Redis command succeeds and no record expires.
-/

namespace PyClaw

inductive RouteResult where
  | local
  | forwarded
  deriving DecidableEq, Repr

/-- The next Redis command of `_route_inner`, or its result. -/
inductive RouteState where
  /-- `resolve`. -/
  | resolving
  /-- `renew`, after `is_mine`. -/
  | renewing
  | claiming
  /-- The second `resolve`, after the claim failed. -/
  | resolvingAgain
  | forwarding (owner : String)
  | forceClaiming (owner : String)
  | returned (result : RouteResult)
  /-- The message has been processed. -/
  | ended
  deriving DecidableEq, Repr

/-- A message of the key at a worker. -/
structure Route where
  worker : String
  state : RouteState := .resolving
  deriving DecidableEq, Repr

/-- The affinity record of the key, the workers whose forward channel has a subscriber, the
messages, and which worker has found which owner unreachable. -/
structure Cluster where
  owner : Option String
  subscribed : String → Bool
  routes : List Route := []
  unreachable : List (String × String) := []

inductive ClusterStep where
  /-- A message of the key reaches a worker. -/
  | arrives (worker : String)
  /-- Message `i` sends its next Redis command. -/
  | advances (i : Nat)
  /-- `_affinity_renew_loop` of message `i`, while it is processed. -/
  | renews (i : Nat)
  | ends (i : Nat)
  | subscribes (worker : String)
  | unsubscribes (worker : String)
  deriving DecidableEq, Repr

namespace Cluster

def setState (c : Cluster) (i : Nat) (r : Route) (state : RouteState) : Cluster :=
  { c with routes := c.routes.set i { r with state := state } }

/-- One Redis command of a message. -/
def advance (c : Cluster) (i : Nat) (r : Route) : Cluster :=
  match r.state with
  | .resolving =>
    match c.owner with
    | some owner =>
      if owner = r.worker then c.setState i r .renewing else c.setState i r (.forwarding owner)
    | none => c.setState i r .claiming
  | .renewing => c.setState i r (.returned .local)
  | .claiming =>
    -- `SET .. NX`
    match c.owner with
    | none => { c with owner := some r.worker }.setState i r (.returned .local)
    | some _ => c.setState i r .resolvingAgain
  | .resolvingAgain =>
    match c.owner with
    | none => c.setState i r (.returned .local)
    | some owner =>
      if owner = r.worker then c.setState i r (.returned .local)
      else c.setState i r (.forwarding owner)
  | .forwarding owner =>
    -- `PUBLISH` returns the number of subscribers
    if c.subscribed owner then c.setState i r (.returned .forwarded)
    else
      { c with unreachable := (r.worker, owner) :: c.unreachable }.setState i r
        (.forceClaiming owner)
  | .forceClaiming _ => { c with owner := some r.worker }.setState i r (.returned .local)
  | .returned _ | .ended => c

def step (c : Cluster) : ClusterStep → Cluster
  | .arrives worker => { c with routes := c.routes ++ [{ worker := worker }] }
  | .advances i =>
    match c.routes[i]? with
    | some r => c.advance i r
    | none => c
  | .renews _ => c
  | .ends i =>
    match c.routes[i]? with
    | some r => if r.state = .returned .local then c.setState i r .ended else c
    | none => c
  | .subscribes worker => { c with subscribed := fun w => w = worker || c.subscribed w }
  | .unsubscribes worker => { c with subscribed := fun w => w ≠ worker && c.subscribed w }

/-! ## What a step does -/

def route? (c : Cluster) : ClusterStep → Option Route
  | .advances i => c.routes[i]?
  | _ => none

/-- The worker and the other owner that its `force_claim` overwrites. -/
def overwrites (c : Cluster) (a : ClusterStep) : Option (String × String) :=
  (c.route? a).bind fun r =>
    match r.state, c.owner with
    | .forceClaiming _, some owner => if owner = r.worker then none else some (r.worker, owner)
    | _, _ => none

/-- The worker whose `route` returns `"local"`. -/
def toldLocal (c : Cluster) (a : ClusterStep) : Option String :=
  (c.route? a).bind fun r =>
    match r.state, c.owner with
    | .renewing, _ => some r.worker
    | .forceClaiming _, _ => some r.worker
    | .claiming, none => some r.worker
    | .resolvingAgain, none => some r.worker
    | .resolvingAgain, some owner => if owner = r.worker then some r.worker else none
    | _, _ => none

/-- The worker whose `EXPIRE` takes effect, and the owner whose claim lives longer by it. -/
def extends_ (c : Cluster) (a : ClusterStep) : Option (String × String) :=
  match a with
  | .advances i =>
    c.routes[i]?.bind fun r => if r.state = .renewing then c.owner.map (r.worker, ·) else none
  | .renews i =>
    c.routes[i]?.bind fun r =>
      if r.state = .returned .local then c.owner.map (r.worker, ·) else none
  | _ => none

/-- An owner is overwritten only by a worker that found it unreachable, nobody else is told to
process locally while a live owner is recorded, and only the owner extends its claim. -/
def KeepsOwner (c : Cluster) (a : ClusterStep) : Prop :=
  (∀ p ∈ c.overwrites a, p ∈ c.unreachable) ∧
    (∀ worker ∈ c.toldLocal a, ∀ owner ∈ c.owner, c.subscribed owner = true → owner = worker) ∧
    ∀ p ∈ c.extends_ a, p.2 = p.1

instance (c : Cluster) (a : ClusterStep) : Decidable (c.KeepsOwner a) :=
  inferInstanceAs (Decidable (_ ∧ _ ∧ _))

end Cluster

end PyClaw
