import PyClaw.Gateway.Router

/-!
# Gateway.Ownership

When the affinity record has a single owner. `force_claim` overwrites whatever the record says by
then; `keepsOwner_of_clean`: as long as every takeover replaces the very owner that was found
unreachable, and that owner is gone by then, the record keeps its promises in every run.
-/

namespace PyClaw

namespace RouteState

/-- The worker counts on the record: it is about to renew it, or it processes the message. -/
def relies : RouteState → Bool
  | .renewing => true
  | .returned .local => true
  | _ => false

end RouteState

namespace Cluster

/-- A worker overwrites its own record, or that of the owner it found unreachable, which still has
no subscriber and no message under way. -/
def Takeover (c : Cluster) (worker owner : String) : Prop :=
  c.owner = some worker ∨
    c.owner = some owner ∧ c.subscribed owner = false ∧
      ∀ r ∈ c.routes, r.worker = owner → r.state.relies = false

instance (c : Cluster) (worker owner : String) : Decidable (c.Takeover worker owner) :=
  inferInstanceAs (Decidable (_ ∨ _))

/-- If the step is a `force_claim`, it is such a takeover. -/
def Clean (c : Cluster) (a : ClusterStep) : Prop :=
  ∀ r ∈ c.route? a, ∀ owner, r.state = .forceClaiming owner → c.Takeover r.worker owner

structure Sound (c : Cluster) : Prop where
  relies : ∀ r ∈ c.routes, r.state.relies = true → c.owner = some r.worker
  failed : ∀ r ∈ c.routes, ∀ owner, r.state = .forceClaiming owner →
    (r.worker, owner) ∈ c.unreachable
  claimed : ∀ r ∈ c.routes, r.state = .resolvingAgain → c.owner ≠ none

variable {c : Cluster} {a : ClusterStep} {i : Nat} {r : Route}

/-- What a message's command may change beside its own state. -/
theorem Sound.setState (h : c.Sound) {state : RouteState}
    (hrelies : state.relies = true → c.owner = some r.worker)
    (hfailed : ∀ owner, state = .forceClaiming owner → (r.worker, owner) ∈ c.unreachable)
    (hclaimed : state = .resolvingAgain → c.owner ≠ none) : (c.setState i r state).Sound := by
  constructor
  · intro r' hr' hrel
    rcases List.mem_or_eq_of_mem_set hr' with hmem | rfl
    · exact h.relies r' hmem hrel
    · exact hrelies hrel
  · intro r' hr' owner hstate
    rcases List.mem_or_eq_of_mem_set hr' with hmem | rfl
    · exact h.failed r' hmem owner hstate
    · exact hfailed owner hstate
  · intro r' hr' hstate
    rcases List.mem_or_eq_of_mem_set hr' with hmem | rfl
    · exact h.claimed r' hmem hstate
    · exact hclaimed hstate

/-- A state that promises nothing of the record. -/
theorem Sound.setSilent (h : c.Sound) {state : RouteState} (hrelies : state.relies = false)
    (hfailed : ∀ owner, state ≠ .forceClaiming owner) (hclaimed : state ≠ .resolvingAgain) :
    (c.setState i r state).Sound := by
  refine h.setState ?_ (fun owner hs => absurd hs (hfailed owner)) fun hs => absurd hs hclaimed
  intro hrel
  rw [hrelies] at hrel
  cases hrel

/-- The state of a worker that is the recorded owner. -/
theorem Sound.setOwned (h : c.Sound) {state : RouteState} (howner : c.owner = some r.worker)
    (hfailed : ∀ owner, state ≠ .forceClaiming owner) (hclaimed : state ≠ .resolvingAgain) :
    (c.setState i r state).Sound :=
  h.setState (fun _ => howner) (fun owner hs => absurd hs (hfailed owner)) fun hs => absurd hs hclaimed

/-- A new owner is recorded while no other worker relies on the record. -/
theorem Sound.setOwner (h : c.Sound) {worker : String}
    (hfree : ∀ r ∈ c.routes, r.state.relies = true → r.worker = worker) :
    ({ c with owner := some worker } : Cluster).Sound := by
  constructor
  · intro r' hr' hrel
    exact congrArg some (hfree r' hr' hrel).symm
  · exact h.failed
  · intro _ _ _ hnone
    cases hnone

theorem Sound.fail (h : c.Sound) (p : String × String) :
    ({ c with unreachable := p :: c.unreachable } : Cluster).Sound :=
  ⟨h.relies, fun r hr owner hs => List.mem_cons_of_mem p (h.failed r hr owner hs), h.claimed⟩

/-- Nobody relies on the record of a worker other than the one that takes it over cleanly. -/
theorem Sound.free (h : c.Sound) {worker owner : String} (htake : c.Takeover worker owner) :
    ∀ r ∈ c.routes, r.state.relies = true → r.worker = worker := by
  intro r hr hrel
  have howner := h.relies r hr hrel
  rcases htake with hmine | ⟨hdead, -, hgone⟩
  · exact Option.some.inj (howner.symm.trans hmine)
  · have hworker : r.worker = owner := Option.some.inj (howner.symm.trans hdead)
    rw [hgone r hr hworker] at hrel
    cases hrel

theorem Sound.advance (h : c.Sound) (hr : r ∈ c.routes)
    (hclean : ∀ owner, r.state = .forceClaiming owner → c.Takeover r.worker owner) :
    (c.advance i r).Sound := by
  unfold Cluster.advance
  cases hstate : r.state with
  | resolving =>
    dsimp only
    split
    · rename_i owner howner
      split
      · rename_i hmine
        exact h.setOwned (hmine ▸ howner) (by simp) (by simp)
      · exact h.setSilent rfl (by simp) (by simp)
    · exact h.setSilent rfl (by simp) (by simp)
  | renewing =>
    have hmine := h.relies r hr (by rw [hstate]; rfl)
    exact h.setOwned hmine (by simp) (by simp)
  | claiming =>
    dsimp only
    split
    · rename_i hnone
      have hfree : ∀ r' ∈ c.routes, r'.state.relies = true → r'.worker = r.worker := by
        intro r' hr' hrel
        have := h.relies r' hr' hrel
        rw [hnone] at this
        cases this
      exact (h.setOwner hfree).setOwned rfl (by simp) (by simp)
    · rename_i owner howner
      refine h.setState (fun hs => by cases hs) (fun _ hs => by cases hs) fun _ hnone => ?_
      rw [howner] at hnone
      cases hnone
  | resolvingAgain =>
    dsimp only
    split
    · rename_i hnone
      exact absurd hnone (h.claimed r hr hstate)
    · rename_i owner howner
      split
      · rename_i hmine
        exact h.setOwned (hmine ▸ howner) (by simp) (by simp)
      · exact h.setSilent rfl (by simp) (by simp)
  | forwarding owner =>
    dsimp only
    split
    · exact h.setSilent rfl (by simp) (by simp)
    · refine (h.fail (r.worker, owner)).setState (fun hs => by cases hs) ?_ (fun hs => by cases hs)
      intro owner' hs
      cases hs
      exact List.mem_cons_self
  | forceClaiming owner =>
    exact (h.setOwner (h.free (hclean owner hstate))).setOwned rfl (by simp) (by simp)
  | returned result => exact h
  | ended => exact h

theorem Sound.step (h : c.Sound) (hclean : c.Clean a) : (c.step a).Sound := by
  cases a with
  | arrives worker =>
    constructor
    · intro r' hr' hrel
      rcases List.mem_append.mp hr' with hmem | hnew
      · exact h.relies r' hmem hrel
      · rw [List.mem_singleton.mp hnew] at hrel
        cases hrel
    · intro r' hr' owner hs
      rcases List.mem_append.mp hr' with hmem | hnew
      · exact h.failed r' hmem owner hs
      · rw [List.mem_singleton.mp hnew] at hs
        cases hs
    · intro r' hr' hs
      rcases List.mem_append.mp hr' with hmem | hnew
      · exact h.claimed r' hmem hs
      · rw [List.mem_singleton.mp hnew] at hs
        cases hs
  | advances i =>
    simp only [Cluster.step]
    split
    · rename_i r hget
      exact h.advance (List.mem_of_getElem? hget) (hclean r hget)
    · exact h
  | renews i => exact h
  | ends i =>
    simp only [Cluster.step]
    split
    · split
      · exact h.setSilent rfl (by simp) (by simp)
      · exact h
    · exact h
  | subscribes worker => exact ⟨h.relies, h.failed, h.claimed⟩
  | unsubscribes worker => exact ⟨h.relies, h.failed, h.claimed⟩

/-! ## One step keeps the promises -/

theorem Sound.overwrites (h : c.Sound) (hclean : c.Clean a) :
    ∀ p ∈ c.overwrites a, p ∈ c.unreachable := by
  intro p hp
  obtain ⟨r, hr, hover⟩ := Option.bind_eq_some_iff.mp hp
  have hmem : r ∈ c.routes := by
    cases a with
    | advances i => exact List.mem_of_getElem? hr
    | _ => cases hr
  split at hover
  · rename_i owner current hstate hcurrent
    split at hover
    · cases hover
    · rename_i hother
      cases hover
      have hfailed := h.failed r hmem owner hstate
      rcases hclean r hr owner hstate with hmine | ⟨hdead, -⟩
      · exact absurd (Option.some.inj (hcurrent.symm.trans hmine)) hother
      · rw [Option.some.inj (hcurrent.symm.trans hdead)]
        exact hfailed
  · cases hover

theorem Sound.toldLocal (h : c.Sound) (hclean : c.Clean a) :
    ∀ worker ∈ c.toldLocal a, ∀ owner ∈ c.owner, c.subscribed owner = true → owner = worker := by
  intro worker hw owner howner hlive
  obtain ⟨r, hr, htold⟩ := Option.bind_eq_some_iff.mp hw
  have hmem : r ∈ c.routes := by
    cases a with
    | advances i => exact List.mem_of_getElem? hr
    | _ => cases hr
  have hsame : ∀ current, c.owner = some current → owner = current := by
    intro current hcurrent
    exact Option.some.inj ((Option.mem_def.mp howner).symm.trans hcurrent)
  split at htold
  · rename_i hstate
    cases htold
    exact hsame _ (h.relies r hmem (by rw [hstate]; rfl))
  · rename_i dead hstate
    cases htold
    rcases hclean r hr dead hstate with hmine | ⟨hdead, hsub, -⟩
    · exact hsame _ hmine
    · rw [hsame dead hdead, hsub] at hlive
      cases hlive
  · rename_i hnone
    rw [Option.mem_def, hnone] at howner
    cases howner
  · rename_i hnone
    rw [Option.mem_def, hnone] at howner
    cases howner
  · rename_i current _ hcurrent
    split at htold
    · rename_i hmine
      cases htold
      rw [hsame current hcurrent, hmine]
    · cases htold
  · cases htold

theorem Sound.extends_ (h : c.Sound) : ∀ p ∈ c.extends_ a, p.2 = p.1 := by
  have hown : ∀ r ∈ c.routes, ∀ p, r.state.relies = true → c.owner.map (r.worker, ·) = some p →
      p.2 = p.1 := by
    intro r hr p hrel hp
    rw [h.relies r hr hrel] at hp
    cases hp
    rfl
  intro p hp
  cases a with
  | advances i =>
    obtain ⟨r, hr, hext⟩ := Option.bind_eq_some_iff.mp hp
    split at hext
    · rename_i hstate
      exact hown r (List.mem_of_getElem? hr) p (by rw [hstate]; rfl) hext
    · cases hext
  | renews i =>
    obtain ⟨r, hr, hext⟩ := Option.bind_eq_some_iff.mp hp
    split at hext
    · rename_i hstate
      exact hown r (List.mem_of_getElem? hr) p (by rw [hstate]; rfl) hext
    · cases hext
  | _ => cases hp

theorem Sound.keepsOwner (h : c.Sound) (hclean : c.Clean a) : c.KeepsOwner a :=
  ⟨h.overwrites hclean, h.toldLocal hclean, h.extends_⟩

/-- A key with any recorded owner and no message under way. -/
def start (owner : Option String) (subscribed : String → Bool) : Cluster where
  owner := owner
  subscribed := subscribed

theorem start_sound (owner : Option String) (subscribed : String → Bool) :
    (start owner subscribed).Sound := by
  constructor <;> intro _ h <;> cases h

/-- In a run whose takeovers are all clean, every step keeps the promises of the record. -/
theorem keepsOwner_of_clean {owner : Option String} {subscribed : String → Bool}
    {steps : List ClusterStep} (hclean : Along step Clean (start owner subscribed) steps) :
    Along step KeepsOwner (start owner subscribed) steps :=
  hclean.of_invariant (fun _ _ h hc => ⟨h.step hc, h.keepsOwner hc⟩) (start_sound owner subscribed)

/-! ## Sample runs -/

/-- Worker `a` takes the key over from the dead worker `d` and renews its claim. -/
theorem keepsOwner_takeover :
    Along step KeepsOwner (start (some "d") fun w => w = "a")
      [.arrives "a", .advances 0, .advances 0, .advances 0, .renews 0, .ends 0] := by
  refine keepsOwner_of_clean ?_
  simp only [Along, Clean, Option.mem_def]
  refine ⟨fun _ h => ?_, fun r h owner hs => ?_, fun r h owner hs => ?_, fun r h owner hs => ?_,
    fun _ h => ?_, fun _ h => ?_, trivial⟩
  · cases h
  · cases h
    cases hs
  · cases h
    cases hs
  · cases h
    cases hs
    decide
  · cases h
  · cases h

/-- Two workers find the owner dead before either of them claims the key. -/
def bothTakeOver : List ClusterStep :=
  [.arrives "a", .arrives "b", .advances 0, .advances 1, .advances 0, .advances 1, .advances 0,
    .advances 1]

/-- The second one overwrites the live first one. -/
theorem bothTakeOver_overwrites :
    ¬ Along step KeepsOwner (start (some "d") fun w => w = "a" || w = "b") bothTakeOver := by
  decide

end Cluster

end PyClaw
