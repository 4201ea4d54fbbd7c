import PyClaw.Channels.Queue

/-!
# Channels.Serial

Which traffic a worker serialises by session. A queue serialises what has its key, so two requests
of one session may run at once when their queues differ: `oneRunPerSession_iff`.
-/

namespace PyClaw

/-- Requests of one session share a queue: none of them comes through the OpenAI-compatible
endpoint, and no session has two conversation ids. -/
structure Serialised (T : Set ChannelRequest) : Prop where
  noDirect : ∀ userId suffix, ChannelRequest.openai userId suffix ∉ T
  conversation : ∀ userId conv userId' conv' sid, ChannelRequest.web userId conv ∈ T →
    ChannelRequest.web userId' conv' ∈ T → webSessionId userId conv = some sid →
    webSessionId userId' conv' = some sid → conv = conv'

namespace Queues

/-- Traffic of `T` only, and no session is rotated away during a run on it. -/
def Admitted (T : Set ChannelRequest) (q : Queues) : QueueStep → Prop
  | .arrives r => r ∈ T
  | .cleans sessionId => ∀ run ∈ q.runs, run.request.sessionId ≠ some sessionId
  | _ => True

structure Sound (T : Set ChannelRequest) (q : Queues) : Prop where
  traffic : ∀ run ∈ q.runs, run.request ∈ T ∧ run.slot = run.request.queueKey
  waiting : ∀ key, ∀ r ∈ q.waiting key, r ∈ T ∧ r.queueKey = some key
  distinct : q.runs.Pairwise fun run run' => run.slot ≠ run'.slot

end Queues

section
variable {T : Set ChannelRequest} {q : Queues} {r r' : ChannelRequest} {sid : String}

theorem webSessionId_head {userId conv : String} (h : webSessionId userId conv = some sid) :
    ∃ rest, sid.toList = 'w' :: rest := by
  have hprefix : "web:".toList = 'w' :: "eb:".toList := rfl
  unfold webSessionId at h
  split at h
  · rename_i hweb
    split at h
    · cases h
      obtain ⟨tail, htail⟩ := hweb
      exact ⟨_, htail.symm⟩
    · cases h
  · cases h
    rw [String.append_assoc, String.append_assoc]
    exact append_head hprefix _

theorem feishuSessionId_head {appId scope : String} {event : FeishuEvent} {suffix : Option String}
    (h : (ChannelRequest.feishu appId event scope suffix).sessionId = some sid) :
    ∃ rest, sid.toList = 'f' :: rest := by
  cases h
  obtain ⟨_, hkey⟩ := buildSessionKey_head appId event scope
  exact routedSessionId_head hkey suffix

/-- In serialised traffic the session determines the queue. -/
theorem Serialised.queueKey_eq (h : Serialised T) (hr : r ∈ T) (hr' : r' ∈ T)
    (hsid : r.sessionId = some sid) (hsid' : r'.sessionId = some sid) :
    r.queueKey = r'.queueKey := by
  cases r with
  | openai userId suffix => exact absurd hr (h.noDirect userId suffix)
  | web userId conv =>
    cases r' with
    | openai userId' suffix' => exact absurd hr' (h.noDirect userId' suffix')
    | web userId' conv' =>
      have hconv := h.conversation userId conv userId' conv' sid hr hr' hsid hsid'
      rw [ChannelRequest.queueKey, ChannelRequest.queueKey, hconv]
    | feishu appId event scope suffix =>
      obtain ⟨_, hw⟩ := webSessionId_head hsid
      obtain ⟨_, hf⟩ := feishuSessionId_head hsid'
      rw [hw] at hf
      exact absurd (List.cons.inj hf).1 (by decide)
  | feishu appId event scope suffix =>
    cases r' with
    | openai userId' suffix' => exact absurd hr' (h.noDirect userId' suffix')
    | web userId' conv' =>
      obtain ⟨_, hf⟩ := feishuSessionId_head hsid
      obtain ⟨_, hw⟩ := webSessionId_head hsid'
      rw [hw] at hf
      exact absurd (List.cons.inj hf).1 (by decide)
    | feishu appId' event' scope' suffix' =>
      rw [ChannelRequest.queueKey, ChannelRequest.queueKey, hsid, hsid']

theorem Serialised.queueKey_isSome (h : Serialised T) (hr : r ∈ T) : r.queueKey ≠ none := by
  cases r with
  | openai userId suffix => exact absurd hr (h.noDirect userId suffix)
  | web userId conv => exact fun hnone => by cases hnone
  | feishu appId event scope suffix => exact fun hnone => by cases hnone

namespace Queues

theorem Sound.oneRunPerSession (hT : Serialised T) (h : q.Sound T) : q.OneRunPerSession := by
  unfold OneRunPerSession
  rw [List.Nodup, List.pairwise_filterMap]
  refine h.distinct.imp_of_mem ?_
  intro run run' hrun hrun' hslot sid hsid sid' hsid' heq
  subst heq
  refine hslot ?_
  rw [(h.traffic run hrun).2, (h.traffic run' hrun').2]
  exact hT.queueKey_eq (h.traffic run hrun).1 (h.traffic run' hrun').1 hsid hsid'

theorem start_sound : ({} : Queues).Sound T where
  traffic _ h := by cases h
  waiting _ _ h := by cases h
  distinct := List.Pairwise.nil

theorem mem_update {f : QueueKey → List ChannelRequest} {key key' : QueueKey}
    {l : List ChannelRequest} (h : r ∈ Function.update f key l key') :
    key' = key ∧ r ∈ l ∨ r ∈ f key' := by
  by_cases hk : key' = key
  · rw [hk, Function.update_self] at h
    exact .inl ⟨hk, h⟩
  · rw [Function.update_of_ne hk] at h
    exact .inr h

theorem Sound.arrives (hT : Serialised T) (h : q.Sound T) (hr : r ∈ T) :
    (q.step (.arrives r)).Sound T := by
  cases hkey : r.queueKey with
  | none => exact absurd hkey (hT.queueKey_isSome hr)
  | some key =>
    simp only [step, hkey]
    refine ⟨h.traffic, ?_, h.distinct⟩
    intro key' r' hr'
    rcases mem_update hr' with ⟨rfl, hnew⟩ | hold
    · rcases List.mem_append.mp hnew with hold | hnew
      · exact h.waiting key' r' hold
      · rw [List.mem_singleton.mp hnew]
        exact ⟨hr, hkey⟩
    · exact h.waiting key' r' hold

theorem Sound.takes (h : q.Sound T) (key : QueueKey) : (q.step (.takes key)).Sound T := by
  simp only [step]
  split
  · exact h
  · rename_i hidle
    split
    · exact h
    · rename_i r rest hwait
      obtain ⟨hr, hrkey⟩ := h.waiting key r (by rw [hwait]; exact List.mem_cons_self)
      refine ⟨?_, ?_, ?_⟩
      · intro run hrun
        rcases List.mem_append.mp hrun with hold | hnew
        · exact h.traffic run hold
        · rw [List.mem_singleton.mp hnew]
          exact ⟨hr, hrkey.symm⟩
      · intro key' r' hr'
        rcases mem_update hr' with ⟨rfl, hrest⟩ | hold
        · exact h.waiting key' r' (by rw [hwait]; exact List.mem_cons_of_mem r hrest)
        · exact h.waiting key' r' hold
      · refine List.pairwise_append.mpr ⟨h.distinct, List.pairwise_singleton _ _, ?_⟩
        intro run hrun run' hrun' hslot
        rw [List.mem_singleton.mp hrun'] at hslot
        refine hidle (List.any_eq_true.mpr ⟨run, hrun, ?_⟩)
        exact decide_eq_true hslot

theorem Sound.finishes (h : q.Sound T) (i : Nat) : (q.step (.finishes i)).Sound T where
  traffic run hrun := h.traffic run (List.mem_of_mem_eraseIdx hrun)
  waiting := h.waiting
  distinct := h.distinct.sublist (List.eraseIdx_sublist _ i)

theorem sessionId_of_queueKey (h : r.queueKey = some (.feishu sid)) : r.sessionId = some sid := by
  cases r with
  | web userId conv => cases h
  | openai userId suffix => cases h
  | feishu appId event scope suffix =>
    cases h
    rfl

/-- Of a session without a run only waiting requests are dropped. -/
theorem Sound.cleans (h : q.Sound T)
    (hquiet : ∀ run ∈ q.runs, run.request.sessionId ≠ some sid) :
    (q.step (.cleans sid)).Sound T := by
  have hslot : ∀ run ∈ q.runs, run.slot ≠ some (.feishu sid) := by
    intro run hrun hslot
    rw [(h.traffic run hrun).2] at hslot
    exact hquiet run hrun (sessionId_of_queueKey hslot)
  have hruns : (q.step (.cleans sid)).runs = q.runs := by
    calc (q.step (.cleans sid)).runs = q.runs.map id :=
          List.map_congr_left fun run hrun => if_neg (hslot run hrun)
      _ = q.runs := List.map_id q.runs
  refine ⟨?_, ?_, ?_⟩
  · rw [hruns]
    exact h.traffic
  · intro key r' hr'
    rcases mem_update hr' with ⟨-, hnone⟩ | hold
    · cases hnone
    · exact h.waiting key r' hold
  · rw [hruns]
    exact h.distinct

theorem Sound.step (hT : Serialised T) (h : q.Sound T) {a : QueueStep} (ha : q.Admitted T a) :
    (q.step a).Sound T := by
  cases a with
  | arrives r => exact h.arrives hT ha
  | takes key => exact h.takes key
  | finishes i => exact h.finishes i
  | cleans sid => exact h.cleans ha

/-! ## Runs that overlap -/

/-- Two requests that start at once are on different sessions. -/
theorem OneRunPerSession.ne (h : q.OneRunPerSession) {run run' : ChannelRun}
    (hruns : q.runs = [run, run']) (hsid : run.request.sessionId = some sid) :
    run'.request.sessionId ≠ some sid := by
  intro hsid'
  simp [OneRunPerSession, hruns, hsid, hsid'] at h

theorem runs_of_two_keys {key key' : QueueKey} (hne : key ≠ key') (hr : r.queueKey = some key)
    (hr' : r'.queueKey = some key') :
    (runFrom step {} [.arrives r, .arrives r', .takes key, .takes key']).runs =
      [⟨some key, r⟩, ⟨some key', r'⟩] := by
  have hne' : ¬ key' = key := fun h => hne h.symm
  simp [runFrom, step, hr, hr', busy, Function.update_of_ne, hne, hne']

theorem runs_of_direct (hr : r.queueKey = none) :
    (runFrom step {} [.arrives r, .arrives r]).runs = [⟨none, r⟩, ⟨none, r⟩] := by
  simp [runFrom, step, hr]

/-- The traffic of `T` never has two runs on one session if and only if it is serialised. -/
theorem oneRunPerSession_iff (T : Set ChannelRequest) :
    (∀ steps, Along step (Admitted T) {} steps → (runFrom step {} steps).OneRunPerSession) ↔
      Serialised T := by
  constructor
  · intro hall
    constructor
    · intro userId suffix hmem
      have hone := hall [.arrives (.openai userId suffix), .arrives (.openai userId suffix)]
        ⟨hmem, hmem, trivial⟩
      exact hone.ne (runs_of_direct rfl) rfl rfl
    · intro userId conv userId' conv' sid hmem hmem' hsid hsid'
      by_contra hne
      have hkeys : QueueKey.web conv ≠ .web conv' := by
        intro heq
        cases heq
        exact hne rfl
      have hone := hall [.arrives (.web userId conv), .arrives (.web userId' conv'),
        .takes (.web conv), .takes (.web conv')] ⟨hmem, hmem', trivial, trivial, trivial⟩
      exact hone.ne (runs_of_two_keys hkeys rfl rfl) hsid hsid'
  · intro hT steps hsteps
    exact (hsteps.invariant (fun _ _ h ha => h.step hT ha) start_sound).oneRunPerSession hT

/-- The bare and the prefixed id of one conversation. -/
def twoIds : List QueueStep :=
  [.arrives (.web "alice" "c1"), .arrives (.web "alice" "web:alice:c1"), .takes (.web "c1"),
    .takes (.web "web:alice:c1")]

theorem twoIds_overlap : ¬ (runFrom step {} twoIds).OneRunPerSession := by
  decide

end Queues

end

end PyClaw
