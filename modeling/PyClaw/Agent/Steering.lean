import PyClaw.Channels.SessionQueue
import PyClaw.Lib.Eviction
import PyClaw.Lib.Mailbox
import PyClaw.Skills.Provider

/-!
# Agent.Steering

The messages of `/steer` and `/btw`, from the run control that buffers them to the prompt that the
`SteerHook` puts them into. The run controls are objects that the registries of two channels, the runs
in progress and the hook refer to. `Steering.run_orderly`: over every run the buffers stay within their
two limits, and what leaves them leaves in the order in which it was accepted.
-/

namespace PyClaw

/-! ## The hook -/

def sidebarInstruction : String :=
  "(Please answer the side question(s) briefly, then return to the main task.)"

def steerHeader : String :=
  "IMPORTANT: The user has issued mid-run steering directives via /steer. " ++
    "These instructions OVERRIDE any conflicting directions from the main user " ++
    "message. You MUST follow them even if they contradict what the user " ++ "originally asked for."

def SteerMessage.line (m : SteerMessage) : String := "- " ++ String.ofList (xmlEscape m.text.toList)

/-- The rendering in `before_prompt_build`, none for no message of either kind. -/
def renderSteers (msgs : List SteerMessage) : Option String :=
  let steers := msgs.filter fun m => m.kind = .steer
  let sidebars := msgs.filter fun m => m.kind = .sidebar
  let parts :=
    (if steers = [] then []
      else [String.intercalate "\n"
        (["<user_steer>", steerHeader] ++ steers.map SteerMessage.line ++ ["</user_steer>"])]) ++
    (if sidebars = [] then []
      else [String.intercalate "\n" (["<user_sidebar>"] ++ sidebars.map SteerMessage.line ++
        ["</user_sidebar>", sidebarInstruction])])
  if parts = [] then none else some (String.intercalate "\n\n" parts)

/-- `SteerHook.before_prompt_build` for the run control of the session; `renders` is false when the
rendering raises, and the messages are put back. -/
def beforePromptBuild (renders : Bool) (rc : RunControl) : RunControl × Option String :=
  if rc.pendingSteers = [] then (rc, none)
  else
    let msgs := rc.pendingSteers
    let rc := { rc with pendingSteers := [] }
    if renders then (rc, renderSteers msgs) else ({ rc with pendingSteers := msgs ++ rc.pendingSteers }, none)

theorem beforePromptBuild_eq (renders : Bool) (rc : RunControl) :
    beforePromptBuild renders rc =
      if rc.pendingSteers ≠ [] ∧ renders then
        ({ rc with pendingSteers := [] }, renderSteers rc.pendingSteers)
      else (rc, none) := by
  unfold beforePromptBuild
  by_cases hnil : rc.pendingSteers = []
  · simp [hnil]
  · cases renders <;> simp [hnil]

/-- Every message is of one of the two kinds. -/
theorem renderSteers_ne_none {msgs : List SteerMessage} (h : msgs ≠ []) : renderSteers msgs ≠ none := by
  intro hnone
  obtain ⟨m, rest, rfl⟩ := List.exists_cons_of_ne_nil h
  unfold renderSteers at hnone
  obtain ⟨kind, text⟩ := m
  cases kind <;> simp at hnone

/-! ## The system -/

/-- Whose `get_run_control` a command asks: that of the `SessionQueue`, for a conversation, or that of
the `FeishuQueueRegistry`, for a session. -/
inductive SteerProvider where
  | sessionQueue
  | queueRegistry
  deriving DecidableEq, Repr

/-- Run controls are objects, numbered in the order of their creation. `prompts` is what the hook has
added to the prompts of each session. -/
structure Steering where
  runControls : Nat → RunControl := fun _ => {}
  created : Nat := 0
  registered : SteerProvider → String → Option Nat := fun _ _ => none
  rcBySession : String → Option Nat := fun _ => none
  prompts : List (String × String) := []

inductive SteerStep where
  /-- `/steer` or `/btw`, by any of its three handlers. -/
  | command (p : SteerProvider) (key : String) (kind : SteerKind) (args : String)
  | stop (p : SteerProvider) (key : String)
  /-- `chat.abort`, which leaves the buffer as it is. -/
  | abort (conversation : String)
  | resetAbort (conversation : String)
  /-- A channel sets the flag around a run. -/
  | setActive (i : Nat) (active : Bool)
  /-- The run control a run is given; none for one of its own. -/
  | runStart (session : String) (control : Option Nat)
  | runEnd (session : String)
  | promptBuild (session : String) (renders : Bool)
  /-- The cleanup of a session, the exit of a consumer, and the reset of a registry. -/
  | forget (p : SteerProvider) (keys : String → Bool)

namespace Steering

def create (s : Steering) : Steering :=
  { s with runControls := Function.update s.runControls s.created {}, created := s.created + 1 }

/-- `get_run_control`. -/
def getRunControl (s : Steering) (p : SteerProvider) (key : String) : Nat × Steering :=
  match s.registered p key with
  | some i => (i, s)
  | none =>
    (s.created, { s.create with
      registered := Function.update s.registered p (Function.update (s.registered p) key (some s.created)) })

def set (s : Steering) (i : Nat) (rc : RunControl) : Steering :=
  if i < s.created then { s with runControls := Function.update s.runControls i rc } else s

/-- `_handle`, `_handle_injection` and `_handle_injection_feishu`. -/
def handle (py : PyText) (s : Steering) (p : SteerProvider) (key : String) (kind : SteerKind)
    (args : String) : Steering :=
  let payload := String.ofList (strip py.isSpace args.toList)
  if payload = "" then s
  else
    let (i, s) := s.getRunControl p key
    let rc := s.runControls i
    if rc.isActive then
      match enforceCap rc.pendingSteers payload with
      | some steers => s.set i { rc with pendingSteers := steers ++ [{ kind, text := payload }] }
      | none => s
    else s

def handleStop (s : Steering) (p : SteerProvider) (key : String) : Steering :=
  let (i, s) := s.getRunControl p key
  let rc := s.runControls i
  if rc.isActive then s.set i { rc with chatDoneHandledExternally := true }.stop else s

/-- `SteerHook.on_run_start`. -/
def onRunStart (s : Steering) (session : String) (i : Nat) : Steering :=
  { s.set i { s.runControls i with pendingSteers := [] } with
    rcBySession := Function.update s.rcBySession session (some i) }

def step (py : PyText) (s : Steering) : SteerStep → Steering
  | .command p key kind args => s.handle py p key kind args
  | .stop p key => s.handleStop p key
  | .abort conversation =>
    let (i, s) := s.getRunControl .sessionQueue conversation
    s.set i { s.runControls i with abort := true }
  | .resetAbort conversation =>
    match s.registered .sessionQueue conversation with
    | some i => s.set i { s.runControls i with abort := false }
    | none => s
  | .setActive i active => s.set i { s.runControls i with active }
  | .runStart session control =>
    match control with
    | some i => if i < s.created then s.onRunStart session i else s
    | none => s.create.onRunStart session s.created
  | .runEnd session => { s with rcBySession := Function.update s.rcBySession session none }
  | .promptBuild session renders =>
    match s.rcBySession session with
    | some i =>
      let (rc, append) := beforePromptBuild renders (s.runControls i)
      { s.set i rc with prompts := s.prompts ++ append.toList.map fun text => (session, text) }
    | none => s
  | .forget p keys =>
    { s with
      registered := Function.update s.registered p fun key => if keys key then none else s.registered p key }

/-! ## What happens to the buffers -/

/-- The messages of a step that leave a buffer, and the one that is accepted into it. -/
def effects (py : PyText) (s : Steering) : SteerStep → List (MailOp Nat String SteerMessage)
  | .command p key kind args =>
    let payload := String.ofList (strip py.isSpace args.toList)
    if payload = "" then []
    else
      let (i, s) := s.getRunControl p key
      let rc := s.runControls i
      if rc.isActive then
        match enforceCap rc.pendingSteers payload with
        | some steers =>
          [.evict i (rc.pendingSteers.length - steers.length), .post i { kind, text := payload }]
        | none => []
      else []
  | .stop p key =>
    let (i, s) := s.getRunControl p key
    if (s.runControls i).isActive then [.clear i] else []
  | .runStart session control =>
    match control with
    | some i => if i < s.created then [.attach session i] else []
    | none => [.attach session s.created]
  | .runEnd session => [.detach session]
  | .promptBuild session renders =>
    match s.rcBySession session with
    | some i => if (s.runControls i).pendingSteers ≠ [] ∧ renders then [.deliver session] else []
    | none => []
  | .abort _ | .resetAbort _ | .setActive _ _ | .forget _ _ => []

def allEffects (py : PyText) : Steering → List SteerStep → List (MailOp Nat String SteerMessage)
  | _, [] => []
  | s, a :: as => s.effects py a ++ allEffects py (s.step py a) as

/-- The buffers as mailboxes: every message accepted, where it waits or how it left. -/
def mail (py : PyText) (s : Steering) (steps : List SteerStep) : Mail Nat String SteerMessage :=
  runFrom Mail.step {} (s.allEffects py steps)

/-! ## Bounds -/

def bufferChars (l : List SteerMessage) : Nat := (l.map fun m => m.text.length).sum

end Steering

open Steering (bufferChars)

section
variable {steers kept : List SteerMessage} {newText : String}

theorem dropOldest_eq_popWhile (n : Nat) (l : List SteerMessage) :
    dropOldest n l = (popWhile (fun l => capChars < bufferChars l + n) l).2 := by
  induction l with
  | nil => rfl
  | cons m rest ih =>
    rw [dropOldest, popWhile, ← bufferChars]
    by_cases hover : capChars < bufferChars (m :: rest) + n
    · rw [if_pos hover, if_pos (decide_eq_true hover), ih]
    · rw [if_neg hover, if_neg (by simpa using hover)]

theorem enforceCap_suffix (h : enforceCap steers newText = some kept) : kept <:+ steers := by
  unfold enforceCap at h
  split at h
  · cases h
  · cases h
    rw [dropOldest_eq_popWhile]
    exact (popWhile_suffix _ _).trans (List.drop_suffix ..)

theorem enforceCap_bounds (h : enforceCap steers newText = some kept) :
    kept.length < capCount ∧ bufferChars kept + newText.length ≤ capChars := by
  unfold enforceCap at h
  split at h
  · cases h
  · rename_i hfits
    cases h
    rw [dropOldest_eq_popWhile]
    refine ⟨?_, ?_⟩
    · have hle := (popWhile_suffix (fun l => capChars < bufferChars l + newText.length)
        (steers.drop (steers.length + 1 - capCount))).length_le
      have hpos : 0 < capCount := by decide
      rw [List.length_drop] at hle
      omega
    · rcases popWhile_fits (fun l => capChars < bufferChars l + newText.length)
        (steers.drop (steers.length + 1 - capCount)) with hnil | hfit
      · rw [hnil]
        simpa [bufferChars] using hfits
      · simpa using hfit

end

namespace Steering

/-- The two limits, of one buffer. -/
def Fits (l : List SteerMessage) : Prop := l.length ≤ capCount ∧ bufferChars l ≤ capChars

theorem fits_nil : Fits [] := ⟨Nat.zero_le _, Nat.zero_le _⟩

def Bounded (s : Steering) : Prop := ∀ i, Fits (s.runControls i).pendingSteers

section
variable {py : PyText} {s : Steering} {p : SteerProvider} {key session : String} {i : Nat} {rc : RunControl}

theorem set_same (s : Steering) (i : Nat) : s.set i (s.runControls i) = s := by
  rw [Steering.set, Function.update_eq_self]
  exact ite_self s

theorem Bounded.set (h : s.Bounded) (i : Nat) (hrc : Fits rc.pendingSteers) : (s.set i rc).Bounded := by
  intro j
  unfold Steering.set
  split
  · by_cases he : j = i
    · subst he
      simpa using hrc
    · simpa [he] using h j
  · exact h j

theorem Bounded.create (h : s.Bounded) : s.create.Bounded := by
  intro j
  by_cases he : j = s.created
  · subst he
    simpa [Steering.create] using fits_nil
  · simpa [Steering.create, he] using h j

theorem Bounded.getRunControl (h : s.Bounded) (p : SteerProvider) (key : String) :
    (s.getRunControl p key).2.Bounded := by
  unfold Steering.getRunControl
  split
  · exact h
  · exact h.create

theorem fits_snoc {steers kept : List SteerMessage} {kind : SteerKind} {text : String}
    (h : enforceCap steers text = some kept) : Fits (kept ++ [SteerMessage.mk kind text]) := by
  obtain ⟨hlength, hchars⟩ := enforceCap_bounds h
  refine ⟨?_, ?_⟩
  · rw [List.length_append, List.length_singleton]
    omega
  · simpa [bufferChars] using hchars

theorem Bounded.onRunStart (h : s.Bounded) (session : String) (i : Nat) : (s.onRunStart session i).Bounded :=
  h.set i fits_nil

theorem Bounded.step (h : s.Bounded) (a : SteerStep) : (s.step py a).Bounded := by
  cases a with
  | command p key kind args =>
    simp only [Steering.step, handle]
    have hget := h.getRunControl p key
    split
    · exact h
    · split
      · split
        · rename_i steers hkept
          exact hget.set _ (fits_snoc hkept)
        · exact hget
      · exact hget
  | stop p key =>
    simp only [Steering.step, handleStop]
    have hget := h.getRunControl p key
    split
    · exact hget.set _ fits_nil
    · exact hget
  | abort conversation =>
    have hget := h.getRunControl .sessionQueue conversation
    exact hget.set _ (hget _)
  | resetAbort conversation =>
    simp only [Steering.step]
    split
    · exact h.set _ (h _)
    · exact h
  | setActive i active => exact h.set i (h i)
  | runStart session control =>
    simp only [Steering.step]
    split
    · split
      · exact h.onRunStart session _
      · exact h
    · exact h.create.onRunStart session _
  | runEnd session => exact h
  | promptBuild session renders =>
    simp only [Steering.step]
    split
    · rename_i i hi
      rw [beforePromptBuild_eq]
      refine h.set i ?_
      split
      · exact fits_nil
      · exact h i
    · exact h
  | forget p keys => exact h

/-! ## The mailboxes follow the buffers -/

structure Tracks (s : Steering) (m : Mail Nat String SteerMessage) : Prop where
  known : ∀ p key i, s.registered p key = some i → i < s.created
  fresh : ∀ i, s.created ≤ i → (s.runControls i).pendingSteers = []
  buffers : ∀ i, (s.runControls i).pendingSteers = (m.waiting i).map Letter.message
  hook : m.attached = s.rcBySession
  prompts : (s.prompts.map fun q => (q.1, some q.2)) =
    m.deliveries.map fun d => (d.1, renderSteers (d.2.map Letter.message))

namespace Tracks

variable {m m' : Mail Nat String SteerMessage}

/-- A step that changes one run control, and its buffer with it. -/
theorem set (h : s.Tracks m) (hi : i < s.created) (hother : ∀ j, j ≠ i → m'.waiting j = m.waiting j)
    (hown : rc.pendingSteers = (m'.waiting i).map Letter.message) (hattached : m'.attached = m.attached)
    (hdeliveries : m'.deliveries = m.deliveries) : (s.set i rc).Tracks m' := by
  rw [Steering.set, if_pos hi]
  refine ⟨h.known, ?_, ?_, hattached.trans h.hook, ?_⟩
  · intro j hj
    have hne : j ≠ i := by
      have hle : s.created ≤ j := hj
      omega
    simpa [hne] using h.fresh j hj
  · intro j
    by_cases he : j = i
    · subst he
      simpa using hown
    · simpa [he, hother j he] using h.buffers j
  · rw [hdeliveries]
    exact h.prompts

/-- A step that leaves the buffers as they are. -/
theorem keep (h : s.Tracks m) (hi : i < s.created)
    (hrc : rc.pendingSteers = (s.runControls i).pendingSteers) : (s.set i rc).Tracks m :=
  h.set hi (fun _ _ => rfl) (hrc.trans (h.buffers i)) rfl rfl

theorem create (h : s.Tracks m) : s.create.Tracks m := by
  refine ⟨fun p key i hi => Nat.lt_succ_of_lt (h.known p key i hi), ?_, ?_, h.hook, h.prompts⟩
  · intro j hj
    have hlt : s.created < j := hj
    have hne : j ≠ s.created := by omega
    simpa [Steering.create, hne] using h.fresh j (by omega)
  · intro j
    by_cases he : j = s.created
    · subst he
      simpa [Steering.create, h.fresh s.created (Nat.le_refl _)] using h.buffers s.created
    · simpa [Steering.create, he] using h.buffers j

theorem getRunControl (h : s.Tracks m) (p : SteerProvider) (key : String) :
    (s.getRunControl p key).2.Tracks m ∧ (s.getRunControl p key).1 < (s.getRunControl p key).2.created := by
  unfold Steering.getRunControl
  split
  · rename_i i hi
    exact ⟨h, h.known p key i hi⟩
  · have hcreate := h.create
    refine ⟨⟨?_, hcreate.fresh, hcreate.buffers, hcreate.hook, hcreate.prompts⟩, Nat.lt_succ_self _⟩
    intro p' key' i hi
    by_cases hp : p' = p
    · subst hp
      by_cases hk : key' = key
      · subst hk
        simp only [Function.update_self, Option.some.injEq] at hi
        subst hi
        exact Nat.lt_succ_self _
      · simp only [Function.update_self, Function.update_of_ne hk] at hi
        exact hcreate.known p' key' i hi
    · simp only [Function.update_of_ne hp] at hi
      exact hcreate.known p' key' i hi

theorem accept {kept : List SteerMessage} {kind : SteerKind} {text : String} (h : s.Tracks m)
    (hi : i < s.created) (hkept : enforceCap (s.runControls i).pendingSteers text = some kept) :
    (s.set i { s.runControls i with pendingSteers := kept ++ [{ kind, text }] }).Tracks
      ((m.step (.evict i ((s.runControls i).pendingSteers.length - kept.length))).step
        (.post i { kind, text })) := by
  have hdrop := List.suffix_iff_eq_drop.mp (enforceCap_suffix hkept)
  refine h.set hi (fun j hj => ?_) ?_ rfl (Mail.deliveries_leave fun c => nofun)
  · simp [Mail.step, Mail.post, Mail.leave, hj]
  · simp only [Mail.step, Mail.post, Mail.leave, Function.update_self, List.map_append, List.map_drop]
    rw [← h.buffers, ← hdrop]
    rfl

theorem onRunStart (h : s.Tracks m) (session : String) (hi : i < s.created) :
    (s.onRunStart session i).Tracks (m.step (.attach session i)) := by
  have hset : (s.set i { s.runControls i with pendingSteers := [] }).Tracks
      (m.leave i (m.waiting i).length .cleared) := by
    refine h.set hi (fun j hj => ?_) ?_ rfl (Mail.deliveries_leave fun c => nofun)
    · simp [Mail.leave, hj]
    · simp [Mail.leave]
  refine ⟨hset.known, hset.fresh, hset.buffers, ?_, hset.prompts⟩
  simp [Mail.step, Mail.attach, Mail.leave, Steering.onRunStart, h.hook]

theorem promptBuild (h : s.Tracks m) (hi : s.rcBySession session = some i)
    (hpending : (s.runControls i).pendingSteers ≠ []) :
    Tracks { s.set i { s.runControls i with pendingSteers := [] } with
        prompts := s.prompts ++
          (renderSteers (s.runControls i).pendingSteers).toList.map fun text => (session, text) }
      (m.step (.deliver session)) := by
  have hlt : i < s.created := by
    by_contra hge
    exact hpending (h.fresh i (Nat.le_of_not_lt hge))
  have hattached : m.attached session = some i := by rw [h.hook, hi]
  have hset : (s.set i { s.runControls i with pendingSteers := [] }).Tracks
      (m.leave i (m.waiting i).length .cleared) := by
    refine h.set hlt (fun j hj => ?_) ?_ rfl (Mail.deliveries_leave fun c => nofun)
    · simp [Mail.leave, hj]
    · simp [Mail.leave]
  obtain ⟨text, htext⟩ := Option.ne_none_iff_exists'.mp (renderSteers_ne_none hpending)
  have hstep : m.step (.deliver session) = m.leave i (m.waiting i).length (.delivered session) := by
    rw [Mail.step, hattached]
  rw [hstep]
  refine ⟨hset.known, hset.fresh, hset.buffers, hset.hook, ?_⟩
  rw [Mail.deliveries_leave_delivered, List.take_length, List.map_append, List.map_append, ← h.prompts]
  simp [← h.buffers, htext]

theorem step (h : s.Tracks m) (a : SteerStep) :
    (s.step py a).Tracks (runFrom Mail.step m (s.effects py a)) := by
  cases a with
  | command p key kind args =>
    simp only [Steering.step, handle, effects]
    obtain ⟨hget, hlt⟩ := h.getRunControl p key
    split
    · exact h
    · split
      · split
        · rename_i steers hkept
          exact hget.accept hlt hkept
        · exact hget
      · exact hget
  | stop p key =>
    simp only [Steering.step, handleStop, effects]
    obtain ⟨hget, hlt⟩ := h.getRunControl p key
    split
    · refine hget.set hlt (fun j hj => ?_) ?_ rfl (Mail.deliveries_leave fun c => nofun)
      · simp [runFrom, Mail.step, Mail.leave, hj]
      · simp [runFrom, Mail.step, Mail.leave, RunControl.stop]
    · exact hget
  | abort conversation =>
    obtain ⟨hget, hlt⟩ := h.getRunControl .sessionQueue conversation
    exact hget.keep hlt rfl
  | resetAbort conversation =>
    simp only [Steering.step, effects]
    split
    · rename_i i hi
      exact h.keep (h.known _ _ i hi) rfl
    · exact h
  | setActive i active =>
    by_cases hi : i < s.created
    · exact h.keep hi rfl
    · simpa [Steering.step, Steering.set, effects, runFrom, hi] using h
  | runStart session control =>
    cases control with
    | some i =>
      simp only [Steering.step, effects]
      split
      · rename_i hi
        exact h.onRunStart session hi
      · exact h
    | none => exact h.create.onRunStart session (Nat.lt_succ_self _)
  | runEnd session =>
    refine ⟨h.known, h.fresh, h.buffers, ?_, h.prompts⟩
    simp [Steering.step, effects, runFrom, Mail.step, Mail.attach, h.hook]
  | promptBuild session renders =>
    simp only [Steering.step, effects]
    split
    · rename_i i hi
      rw [beforePromptBuild_eq]
      by_cases hpending : (s.runControls i).pendingSteers ≠ [] ∧ renders = true
      · rw [if_pos hpending, if_pos hpending]
        exact h.promptBuild hi hpending.1
      · rw [if_neg hpending, if_neg hpending]
        simpa [set_same, runFrom] using h
    · exact h
  | forget p keys =>
    refine ⟨?_, h.fresh, h.buffers, h.hook, h.prompts⟩
    intro p' key i hi
    by_cases hp : p' = p
    · subst hp
      simp only [Steering.step, Function.update_self] at hi
      split at hi
      · cases hi
      · exact h.known p' key i hi
    · simp only [Steering.step, Function.update_of_ne hp] at hi
      exact h.known p' key i hi

theorem run (h : s.Tracks m) (steps : List SteerStep) :
    (runFrom (Steering.step py) s steps).Tracks (runFrom Mail.step m (s.allEffects py steps)) := by
  induction steps generalizing s m with
  | nil => exact h
  | cons a as ih =>
    rw [runFrom, allEffects, runFrom_append]
    exact ih (h.step a)

theorem start : Tracks {} {} := ⟨fun _ _ _ => nofun, fun _ _ => rfl, fun _ => rfl, rfl, rfl⟩

end Tracks

end

/-! ## Delivery -/

/-- What a run has made of the messages it accepted. -/
structure Orderly (s : Steering) (m : Mail Nat String SteerMessage) : Prop where
  bounded : ∀ i, (s.runControls i).pendingSteers.length ≤ capCount ∧
    bufferChars (s.runControls i).pendingSteers ≤ capChars
  /-- The messages are numbered as they were accepted. -/
  numbered : m.posted.map Letter.number = List.range m.posted.length
  buffers : ∀ i, (s.runControls i).pendingSteers = (m.waiting i).map Letter.message
  prompts : (s.prompts.map fun q => (q.1, some q.2)) =
    m.deliveries.map fun d => (d.1, renderSteers (d.2.map Letter.message))
  once : ((m.deliveries.flatMap Prod.snd).map Letter.number).Nodup
  inOrder : ∀ session kind,
    ((m.deliveredTo session).filter fun a => a.message.kind = kind).Pairwise Mail.Before
  /-- All that was accepted into a buffer before the message that goes for lack of room has left it. -/
  room : AtEach (fun before e => e.2 = .evicted →
    ∀ b ∈ m.posted, b.box = e.1.box → Mail.Before b e.1 → b ∈ before.map Prod.fst) m.gone

theorem run_orderly (py : PyText) (steps : List SteerStep) :
    Orderly (runFrom (step py) {} steps) (mail py {} steps) := by
  have hinv : (mail py {} steps).Inv := Mail.Inv.empty.run _
  have htracks : (runFrom (step py) {} steps).Tracks (mail py {} steps) := Tracks.start.run steps
  have hbounded : Bounded (runFrom (step py) {} steps) :=
    runFrom_invariant (fun s a h => Bounded.step h a) fun _ => fits_nil
  exact {
    bounded := hbounded
    numbered := hinv.numbered
    buffers := htracks.buffers
    prompts := htracks.prompts
    once := hinv.delivered_once
    inOrder := fun session kind => (hinv.ordered session).sublist List.filter_sublist
    room := hinv.leaves_in_order.imp fun before e he hleft _ => hleft }

end Steering

end PyClaw
