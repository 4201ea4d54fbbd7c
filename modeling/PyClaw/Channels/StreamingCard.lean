import PyClaw.Lib.Prog
import PyClaw.Models.Agent

/-!
# Channels.StreamingCard

`stream_agent_reply` (`channels/feishu/handler.py`) and the card it writes to (`channels/feishu/streaming.py`).
The text of a run goes to the card as it grows, throttled by a clock; `finish` and `error` write a last text and
turn the streaming mode off.

* `sequences_increase`: the requests are numbered in the order they are sent, however a run goes.
* `streamAgentReply_closed_iff`: the inputs on which the card is closed.
-/

namespace PyClaw

namespace CardStream

open Prog

/-! ## The card -/

/-- What is raised, by whether `except Exception` catches it. -/
inductive Raise where
  | exception
  | baseException
  deriving DecidableEq, Repr

inductive CardRequest where
  | content (sequence : Nat) (text : String)
  /-- `streaming_mode: False`. -/
  | settings (sequence : Nat)
  deriving DecidableEq, Repr

inductive CardReply where
  | answered (success : Bool)
  | raised (e : Raise)
  deriving DecidableEq, Repr

def CardReply.fails : CardReply → Bool
  | .answered _ => false
  | .raised _ => true

structure FeishuStreamingCard (τ : Type) where
  cardId : Option String
  seq : Nat := 1
  lastUpdate : τ

/-- `start` has returned. -/
def FeishuStreamingCard.Started {τ : Type} (card : FeishuStreamingCard τ) : Prop := card.cardId.getD "" ≠ ""

instance {τ : Type} (card : FeishuStreamingCard τ) : Decidable card.Started := inferInstanceAs (Decidable (_ ≠ _))

/-- The card and the variable `accumulated`. -/
structure ReplyState (τ : Type) where
  card : FeishuStreamingCard τ
  accumulated : String := ""

/-- What `stream_agent_reply` sends. -/
inductive Sent where
  | request (r : CardRequest)
  | fallback (text : String)
  deriving DecidableEq, Repr

/-- The client replies to a request as it likes; every request has its own number. `τ` is the type of the
numbers of the clock. -/
structure CardWorld (τ : Type) where
  throttleMs : τ
  client : CardRequest → CardReply
  /-- What `fallback_fn` raises. -/
  fallbackRaises : String → Option Raise

section

variable {τ : Type} [Sub τ] [LT τ] [DecidableLT τ] (world : CardWorld τ)

def sendRequest (r : Nat → CardRequest) : Prog Sent (ReplyState τ) Raise Unit := fun s =>
  let s' := { s with card := { s.card with seq := s.card.seq + 1 } }
  match world.client (r s.card.seq) with
  | .answered _ => ⟨.ok (), s', [.request (r s.card.seq)]⟩
  | .raised e => ⟨.error e, s', [.request (r s.card.seq)]⟩

/-- `_send_content_update`. -/
def sendContentUpdate (text : String) : Prog Sent (ReplyState τ) Raise Unit :=
  sendRequest world fun seq => .content seq text

/-- `_close_streaming`. -/
def closeStreaming : Prog Sent (ReplyState τ) Raise Unit := sendRequest world .settings

/-- `update`; the clock shows `now`. -/
def update (now : τ) (text : String) : Prog Sent (ReplyState τ) Raise Unit := do
  let s ← Prog.get
  if s.card.cardId.getD "" = "" then pure ()
  else if now - s.card.lastUpdate < world.throttleMs then pure ()
  else do
    Prog.modify fun s => { s with card := { s.card with lastUpdate := now } }
    sendContentUpdate world text

def finish (finalText : String) : Prog Sent (ReplyState τ) Raise Unit := do
  let s ← Prog.get
  if s.card.cardId.getD "" = "" then pure ()
  else do
    sendContentUpdate world finalText
    closeStreaming world

def error (message : String) : Prog Sent (ReplyState τ) Raise Unit := do
  let s ← Prog.get
  if s.card.cardId.getD "" = "" then pure ()
  else do
    sendContentUpdate world ("❌ " ++ message)
    closeStreaming world

/-! ## The reply -/

def toolLine (name : String) : String := "\n🔧 " ++ name ++ "...\n"

/-- `accumulated += piece` and `card.update(accumulated)`. -/
def showPiece (now : τ) (piece : String) : Prog Sent (ReplyState τ) Raise Unit := do
  Prog.modify fun s => { s with accumulated := s.accumulated ++ piece }
  let s ← Prog.get
  update world now s.accumulated

/-- The body of the `try`. Each event comes with what the clock shows, and `ending` is what the source raises
after them. -/
def showEvents : List (τ × AgentEvent) → Option Raise → Prog Sent (ReplyState τ) Raise Unit
  | [], some e => Prog.raise e
  | [], none => do
    let s ← Prog.get
    if s.accumulated = "" then pure () else finish world s.accumulated
  | (now, .textChunk text) :: rest, ending => do
    showPiece world now text
    showEvents rest ending
  | (now, .toolCallStart _ name _) :: rest, ending => do
    showPiece world now (toolLine name)
    showEvents rest ending
  | (_, .done finalMessage _) :: _, _ => finish world finalMessage
  | (_, .error _ message) :: _, _ => error world message
  | (_, .toolApprovalRequest _ _ _) :: rest, ending => showEvents rest ending
  | (_, .toolCallEnd _ _) :: rest, ending => showEvents rest ending

def fallbackFn (text : String) : Prog Sent (ReplyState τ) Raise Unit := fun s =>
  match world.fallbackRaises text with
  | none => ⟨.ok (), s, [.fallback text]⟩
  | some e => ⟨.error e, s, [.fallback text]⟩

/-- `except Exception` around the fallback, which it only logs. -/
def fallBack : Prog Sent (ReplyState τ) Raise Unit := do
  let s ← Prog.get
  match ← Prog.caught (fallbackFn world (if s.accumulated = "" then "(error)" else s.accumulated)) with
  | .error .baseException => Prog.raise .baseException
  | _ => pure ()

def streamAgentReply (events : List (τ × AgentEvent)) (ending : Option Raise) :
    Prog Sent (ReplyState τ) Raise Unit := do
  match ← Prog.caught (showEvents world events ending) with
  | .ok _ => pure ()
  | .error .baseException => Prog.raise .baseException
  | .error .exception => fallBack world

end

/-! ## Sequence numbers -/

def Sent.sequence? : Sent → Option Nat
  | .request (.content sequence _) => some sequence
  | .request (.settings sequence) => some sequence
  | .fallback _ => none

def sequences (sent : List Sent) : List Nat := sent.filterMap Sent.sequence?

section

variable {τ : Type} {world : CardWorld τ}

/-- The numbers grow, and the next one is greater than all of them. -/
def Numbered (sent : List Sent) (s : ReplyState τ) : Prop :=
  (sequences sent).Pairwise (· < ·) ∧ ∀ q ∈ sequences sent, q < s.card.seq

theorem Numbered.request {sent : List Sent} {s s' : ReplyState τ} {r : CardRequest} (h : Numbered sent s)
    (hr : Sent.sequence? (.request r) = some s.card.seq) (hs' : s'.card.seq = s.card.seq + 1) :
    Numbered (sent ++ [.request r]) s' := by
  have hsnoc : sequences (sent ++ [.request r]) = sequences sent ++ [s.card.seq] := by
    simp [sequences, hr]
  refine ⟨?_, ?_⟩
  · rw [hsnoc, List.pairwise_append]
    refine ⟨h.1, List.pairwise_singleton .., ?_⟩
    intro q hq q' hq'
    rw [List.mem_singleton.mp hq']
    exact h.2 q hq
  · rw [hsnoc, hs']
    intro q hq
    rcases List.mem_append.mp hq with hold | hnew
    · have hlt := h.2 q hold
      omega
    · rw [List.mem_singleton.mp hnew]
      omega

theorem sendRequest_numbered {r : Nat → CardRequest} (hr : ∀ seq, Sent.sequence? (.request (r seq)) = some seq) :
    Preserves Numbered (sendRequest world r) := by
  intro l s hs
  have hnext : Numbered (l ++ [.request (r s.card.seq)])
      { s with card := { s.card with seq := s.card.seq + 1 } } := hs.request (hr s.card.seq) rfl
  rw [sendRequest]
  cases world.client (r s.card.seq) with
  | answered success => exact hnext
  | raised e => exact hnext

theorem sendContentUpdate_numbered {text : String} : Preserves Numbered (sendContentUpdate world text) :=
  sendRequest_numbered fun _ => rfl

theorem closeStreaming_numbered : Preserves Numbered (closeStreaming world) :=
  sendRequest_numbered fun _ => rfl

theorem finish_numbered {text : String} : Preserves Numbered (finish world text) :=
  Preserves.get.bind fun _ => Preserves.ite Preserves.pure
    (sendContentUpdate_numbered.bind fun _ => closeStreaming_numbered)

theorem error_numbered {message : String} : Preserves Numbered (error world message) :=
  Preserves.get.bind fun _ => Preserves.ite Preserves.pure
    (sendContentUpdate_numbered.bind fun _ => closeStreaming_numbered)

theorem fallbackFn_numbered {text : String} : Preserves Numbered (fallbackFn world text) := by
  intro l s hs
  have hsequences : sequences (l ++ [.fallback text]) = sequences l := by
    rw [sequences, List.filterMap_append]
    exact List.append_nil _
  have hsame : Numbered (l ++ [.fallback text]) s := by
    rw [Numbered, hsequences]
    exact hs
  rw [fallbackFn]
  cases world.fallbackRaises text with
  | none => exact hsame
  | some e => exact hsame

theorem fallBack_numbered : Preserves Numbered (fallBack world) := by
  refine Preserves.get.bind fun _ => (fallbackFn_numbered.caught).bind fun _ => ?_
  split
  · exact Preserves.raise
  · exact Preserves.pure

variable [Sub τ] [LT τ] [DecidableLT τ]

theorem showPiece_numbered {now : τ} {piece : String} : Preserves Numbered (showPiece world now piece) := by
  refine Preserves.bind (Preserves.modify fun _ _ => id) fun _ => Preserves.get.bind fun _ => ?_
  refine Preserves.get.bind fun _ => Preserves.ite Preserves.pure (Preserves.ite Preserves.pure ?_)
  exact Preserves.bind (Preserves.modify fun _ _ => id) fun _ => sendContentUpdate_numbered

theorem showEvents_numbered (events : List (τ × AgentEvent)) (ending : Option Raise) :
    Preserves Numbered (showEvents world events ending) := by
  induction events with
  | nil =>
    cases ending with
    | some e => exact Preserves.raise
    | none => exact Preserves.get.bind fun _ => Preserves.ite Preserves.pure finish_numbered
  | cons event rest ih =>
    obtain ⟨now, event⟩ := event
    cases event with
    | textChunk text => exact showPiece_numbered.bind fun _ => ih
    | toolCallStart id name arguments => exact showPiece_numbered.bind fun _ => ih
    | done message usage => exact finish_numbered
    | error code message => exact error_numbered
    | _ => exact ih

/-- However the run goes, the requests for the card are numbered in the order they are sent. -/
theorem sequences_increase (events : List (τ × AgentEvent)) (ending : Option Raise) (s : ReplyState τ) :
    (sequences (streamAgentReply world events ending s).log).Pairwise (· < ·) := by
  have hreply : Preserves Numbered (streamAgentReply world events ending) := by
    refine (showEvents_numbered events ending).caught.bind fun _ => ?_
    split
    · exact Preserves.pure
    · exact Preserves.raise
    · exact fallBack_numbered
  have hstart : Numbered [] s := ⟨List.Pairwise.nil, fun q hq => by cases hq⟩
  exact (hreply.finish hstart).1

end

/-! ## The close -/

def Sent.isClosing : Sent → Bool
  | .request (.settings _) => true
  | _ => false

/-- How often the streaming mode is turned off. -/
def closings (sent : List Sent) : Nat := sent.countP Sent.isClosing

@[simp] theorem closings_nil : closings [] = 0 := rfl

@[simp] theorem closings_append (l l' : List Sent) : closings (l ++ l') = closings l + closings l' :=
  List.countP_append

@[simp] theorem closings_content (sequence : Nat) (text : String) (l : List Sent) :
    closings (.request (.content sequence text) :: l) = closings l := by
  simp [closings, Sent.isClosing]

section

variable {τ : Type}

/-- What an event adds to the text on the card. -/
def piece : AgentEvent → Option String
  | .textChunk text => some text
  | .toolCallStart _ name _ => some (toolLine name)
  | _ => none

/-- The run comes to a terminal event, or ends by itself after some visible text. -/
def ReachesClose (accumulated : String) (events : List (τ × AgentEvent)) (ending : Option Raise) : Prop :=
  (∃ e ∈ events, e.2.isTerminal = true) ∨
    (ending = none ∧ (accumulated ≠ "" ∨ ∃ e ∈ events, ∃ text, piece e.2 = some text ∧ text ≠ ""))

variable {accumulated text : String} {now : τ} {event : AgentEvent} {rest : List (τ × AgentEvent)}
  {ending : Option Raise}

theorem append_ne_empty {s t : String} : s ++ t ≠ "" ↔ s ≠ "" ∨ t ≠ "" := by
  rw [ne_eq, ne_eq, ne_eq, ← String.toList_eq_nil_iff, ← String.toList_eq_nil_iff, ← String.toList_eq_nil_iff,
    String.toList_append, List.append_eq_nil_iff, not_and_or]

theorem reachesClose_piece (hpiece : piece event = some text) :
    ReachesClose accumulated ((now, event) :: rest) ending ↔ ReachesClose (accumulated ++ text) rest ending := by
  have hopen : event.isTerminal = false := by
    cases event with
    | textChunk text => rfl
    | toolCallStart id name arguments => rfl
    | _ => cases hpiece
  rw [ReachesClose, ReachesClose, append_ne_empty]
  simp [hopen, hpiece, or_assoc]

theorem reachesClose_silent (hpiece : piece event = none) (hopen : event.isTerminal = false) :
    ReachesClose accumulated ((now, event) :: rest) ending ↔ ReachesClose accumulated rest ending := by
  simp [ReachesClose, hopen, hpiece]

theorem reachesClose_terminal (hterminal : event.isTerminal = true) :
    ReachesClose accumulated ((now, event) :: rest) ending :=
  Or.inl ⟨(now, event), List.mem_cons_self, hterminal⟩

/-! ## The run up to the close -/

variable {world : CardWorld τ} {s : ReplyState τ}

/-- The last text and then the settings: a text that raises leaves the card open. -/
theorem writeAndClose_closings :
    closings ((sendContentUpdate world text >>= fun _ => closeStreaming world) s).log = 1 ↔
      (world.client (.content s.card.seq text)).fails = false := by
  cases hreply : world.client (.content s.card.seq text) with
  | answered success =>
    have hsent : sendContentUpdate world text s =
        ⟨.ok (), { s with card := { s.card with seq := s.card.seq + 1 } },
          [.request (.content s.card.seq text)]⟩ := by
      rw [sendContentUpdate, sendRequest, hreply]
    rw [bind_ok hsent, closeStreaming, sendRequest]
    cases world.client (.settings (s.card.seq + 1)) with
    | answered success' => simp [closings, Sent.isClosing, CardReply.fails]
    | raised e => simp [closings, Sent.isClosing, CardReply.fails]
  | raised e =>
    have hsent : sendContentUpdate world text s =
        ⟨.error e, { s with card := { s.card with seq := s.card.seq + 1 } },
          [.request (.content s.card.seq text)]⟩ := by
      rw [sendContentUpdate, sendRequest, hreply]
    simp [Bind.bind, andThen, hsent, CardReply.fails]

theorem finish_closings (hstarted : s.card.Started) :
    closings (finish world text s).log = 1 ↔ (world.client (.content s.card.seq text)).fails = false := by
  rw [finish, get_bind, if_neg hstarted]
  exact writeAndClose_closings

theorem error_closings (hstarted : s.card.Started) :
    closings (error world text s).log = 1 ↔
      (world.client (.content s.card.seq ("❌ " ++ text))).fails = false := by
  rw [error, get_bind, if_neg hstarted]
  exact writeAndClose_closings

theorem fallBack_closings : closings (fallBack world s).log = 0 := by
  rw [fallBack, get_bind]
  generalize (if s.accumulated = "" then "(error)" else s.accumulated) = reply
  cases hraises : world.fallbackRaises reply with
  | none =>
    simp [fallbackFn, Prog.caught, hraises, Bind.bind, andThen, Pure.pure, Prog.ret, closings, Sent.isClosing]
  | some e =>
    cases e with
    | baseException =>
      simp [fallbackFn, Prog.caught, hraises, Bind.bind, andThen, Prog.raise, closings, Sent.isClosing]
    | exception =>
      simp [fallbackFn, Prog.caught, hraises, Bind.bind, andThen, Pure.pure, Prog.ret, closings, Sent.isClosing]

variable [Sub τ] [LT τ] [DecidableLT τ]

/-- The content requests that the throttle lets through, where none of them raises. -/
def contentRequests (throttleMs : τ) :
    FeishuStreamingCard τ → String → List (τ × AgentEvent) → List CardRequest
  | card, accumulated, [] => if accumulated = "" then [] else [.content card.seq accumulated]
  | card, _, (_, .done finalMessage _) :: _ => [.content card.seq finalMessage]
  | card, _, (_, .error _ message) :: _ => [.content card.seq ("❌ " ++ message)]
  | card, accumulated, (now, event) :: rest =>
    match piece event with
    | none => contentRequests throttleMs card accumulated rest
    | some piece =>
      if now - card.lastUpdate < throttleMs then contentRequests throttleMs card (accumulated ++ piece) rest
      else .content card.seq (accumulated ++ piece) ::
        contentRequests throttleMs { card with seq := card.seq + 1, lastUpdate := now } (accumulated ++ piece) rest

theorem showPiece_eq (hstarted : s.card.Started) :
    showPiece world now text s =
      if now - s.card.lastUpdate < world.throttleMs then
        ⟨.ok (), { s with accumulated := s.accumulated ++ text }, []⟩
      else sendContentUpdate world (s.accumulated ++ text)
        { card := { s.card with lastUpdate := now }, accumulated := s.accumulated ++ text } := by
  have hid : ¬ s.card.cardId.getD "" = "" := hstarted
  by_cases hthrottled : now - s.card.lastUpdate < world.throttleMs
  · simp [showPiece, update, Bind.bind, andThen, Prog.modify, Prog.get, hid, hthrottled, Pure.pure, Prog.ret]
  · simp [showPiece, update, Bind.bind, andThen, Prog.modify, Prog.get, hid, hthrottled]

/-- One piece more: it is held back, or it is sent and may raise. -/
theorem showPiece_closings {m : Prog Sent (ReplyState τ) Raise Unit} {P : Prop}
    {f : FeishuStreamingCard τ → List CardRequest} (hstarted : s.card.Started)
    (hm : ∀ s' : ReplyState τ, s'.card.Started → s'.accumulated = s.accumulated ++ text →
      (closings (m s').log = 1 ↔ P ∧ ∀ r ∈ f s'.card, (world.client r).fails = false)) :
    closings ((showPiece world now text >>= fun _ => m) s).log = 1 ↔
      P ∧ ∀ r ∈ (if now - s.card.lastUpdate < world.throttleMs then f s.card
        else .content s.card.seq (s.accumulated ++ text) ::
          f { s.card with seq := s.card.seq + 1, lastUpdate := now }),
        (world.client r).fails = false := by
  by_cases hthrottled : now - s.card.lastUpdate < world.throttleMs
  · have hpiece : showPiece world now text s = _ := (showPiece_eq hstarted).trans (if_pos hthrottled)
    rw [if_pos hthrottled, bind_ok hpiece]
    exact hm _ hstarted rfl
  · have hpiece : showPiece world now text s = _ := (showPiece_eq hstarted).trans (if_neg hthrottled)
    rw [sendContentUpdate, sendRequest] at hpiece
    rw [if_neg hthrottled]
    dsimp only at hpiece
    cases hreply : world.client (.content s.card.seq (s.accumulated ++ text)) with
    | answered success =>
      rw [hreply] at hpiece
      rw [bind_ok hpiece]
      have hrest := hm { card := { s.card with seq := s.card.seq + 1, lastUpdate := now },
                         accumulated := s.accumulated ++ text } hstarted rfl
      simpa [hreply, CardReply.fails] using hrest
    | raised e =>
      rw [hreply] at hpiece
      simp [Bind.bind, andThen, hpiece, hreply, CardReply.fails]

theorem showEvents_closings (events : List (τ × AgentEvent)) (hstarted : s.card.Started) :
    closings (showEvents world events ending s).log = 1 ↔
      ReachesClose s.accumulated events ending ∧
        ∀ r ∈ contentRequests world.throttleMs s.card s.accumulated events, (world.client r).fails = false := by
  induction events generalizing s with
  | nil =>
    cases ending with
    | some e => simp [showEvents, Prog.raise, ReachesClose]
    | none =>
      rw [showEvents, get_bind]
      by_cases hempty : s.accumulated = ""
      · simp [hempty, ReachesClose, Pure.pure, Prog.ret]
      · simp [hempty, ReachesClose, contentRequests, finish_closings hstarted]
  | cons e rest ih =>
    obtain ⟨now, event⟩ := e
    cases event with
    | textChunk text =>
      rw [reachesClose_piece rfl]
      refine showPiece_closings
        (f := fun card => contentRequests world.throttleMs card (s.accumulated ++ text) rest) hstarted ?_
      intro s' hstarted' hs'
      rw [← hs']
      exact ih hstarted'
    | toolCallStart id name arguments =>
      rw [reachesClose_piece rfl]
      refine showPiece_closings
        (f := fun card => contentRequests world.throttleMs card (s.accumulated ++ toolLine name) rest) hstarted ?_
      intro s' hstarted' hs'
      rw [← hs']
      exact ih hstarted'
    | done message usage =>
      rw [showEvents, finish_closings hstarted, contentRequests, List.forall_mem_singleton]
      exact ⟨fun hsent => ⟨reachesClose_terminal rfl, hsent⟩, And.right⟩
    | error code message =>
      rw [showEvents, error_closings hstarted, contentRequests, List.forall_mem_singleton]
      exact ⟨fun hsent => ⟨reachesClose_terminal rfl, hsent⟩, And.right⟩
    | _ =>
      rw [reachesClose_silent rfl rfl]
      exact ih hstarted

/-- What comes after the `try` sends nothing to the card. -/
theorem streamAgentReply_closings (events : List (τ × AgentEvent)) :
    closings (streamAgentReply world events ending s).log = closings (showEvents world events ending s).log := by
  rcases hshown : showEvents world events ending s with ⟨result, s', sent⟩
  have hcaught : Prog.caught (showEvents world events ending) s = ⟨.ok result, s', sent⟩ := by
    rw [Prog.caught, hshown]
  rw [streamAgentReply, bind_ok hcaught]
  cases result with
  | ok _ => simp [Pure.pure, Prog.ret]
  | error e =>
    cases e with
    | baseException => simp [Prog.raise]
    | exception => simp [fallBack_closings]

/-- The streaming mode of the card is turned off once, and its requests are numbered in their order. -/
structure ClosedInOrder (sent : List Sent) : Prop where
  closed : closings sent = 1
  ordered : (sequences sent).Pairwise (· < ·)

theorem streamAgentReply_closed_iff (world : CardWorld τ) (card : FeishuStreamingCard τ)
    (events : List (τ × AgentEvent)) (ending : Option Raise) (hstarted : card.Started) :
    ClosedInOrder (streamAgentReply world events ending { card }).log ↔
      ReachesClose "" events ending ∧
        ∀ r ∈ contentRequests world.throttleMs card "" events, (world.client r).fails = false := by
  have hclosed : closings (showEvents world events ending { card }).log = 1 ↔ ReachesClose "" events ending ∧
      ∀ r ∈ contentRequests world.throttleMs card "" events, (world.client r).fails = false :=
    showEvents_closings events hstarted
  rw [← streamAgentReply_closings] at hclosed
  constructor
  · intro h
    exact hclosed.mp h.closed
  · intro h
    exact ⟨hclosed.mpr h, sequences_increase events ending _⟩

end

/-! ## A run without a word -/

/-- All requests succeed. -/
def calmWorld : CardWorld Int where
  throttleMs := 100
  client _ := .answered true
  fallbackRaises _ := none

def freshCard : FeishuStreamingCard Int := { cardId := some "card", lastUpdate := 0 }

/-- The second chunk comes too soon. -/
def shortReply : List (Int × AgentEvent) :=
  [(500, .textChunk "Hel"), (550, .textChunk "lo"), (900, .done "Hello" {})]

theorem shortReply_closed_iff :
    freshCard.Started ∧
      (ClosedInOrder (streamAgentReply calmWorld shortReply none { card := freshCard }).log ↔
        ReachesClose "" shortReply none ∧
          ∀ r ∈ contentRequests calmWorld.throttleMs freshCard "" shortReply,
            (calmWorld.client r).fails = false) :=
  ⟨by decide, streamAgentReply_closed_iff calmWorld freshCard shortReply none (by decide)⟩

example : (streamAgentReply calmWorld shortReply none { card := freshCard }).log =
    [.request (.content 1 "Hel"), .request (.content 2 "Hello"), .request (.settings 3)] := by decide

/-- Nothing is sent at all, and the card goes on streaming. -/
theorem silentReply_left_open :
    freshCard.Started ∧ (∀ sequence, calmWorld.client (.settings sequence) = .answered true) ∧
      ¬ ClosedInOrder (streamAgentReply calmWorld [] none { card := freshCard }).log := by
  refine ⟨by decide, fun _ => rfl, fun h => ?_⟩
  have hclosed := h.closed
  revert hclosed
  decide

end CardStream

end PyClaw
