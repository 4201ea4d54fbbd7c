import PyClaw.Channels.FeishuApproval
import PyClaw.Lib.Machine

/-!
# Channels.FeishuAgreement

Whether the runner, the audit log, the answers to the clicks and the card agree on a Feishu approval.

`agreed_iff`: they agree on the originator's first answer exactly if his clicks are all the same, none
of them approves a call that times out, and no update of the countdown is the last to reach the card.
-/

namespace PyClaw

open FeishuApproval

/-! ## What the four observers see -/

def CardReply.answer : CardReply → Option Bool
  | .terminal _ decision => some (decision.isText "approve")
  | _ => none

def ApprovalCard.answer : ApprovalCard → Option Bool
  | .countdown _ => none
  | .resolved title _ _ => some (title = .approved)

namespace FeishuApproval

/-- The hook has returned, and nothing is on its way to the user or the card. -/
structure Settled (s : FeishuApproval) : Prop where
  returned : ∃ outcome, s.phase = .returned outcome
  replies : s.replies = []
  updates : s.updates = []

structure Agreed (s : FeishuApproval) (approved : Bool) : Prop where
  decision : ∀ outcome, s.phase = .returned outcome →
    outcome.decision = (WaitOutcome.decided approved).decision
  audit : s.audit.map (·.decision) = [(WaitOutcome.decided approved).decision]
  answers : ∀ reply ∈ s.shown, reply.answer = some approved
  card : ∀ card, s.card = some card → card.answer = some approved

end FeishuApproval

namespace ApprovalStep

/-- The steps that leave the card resolved. -/
def resolves : ApprovalStep → Bool
  | .shown _ => true
  | .patched landed => landed
  | _ => false

/-- The steps that change the card. -/
def lands : ApprovalStep → Bool
  | .appears => true
  | .updateLands _ => true
  | a => a.resolves

/-- The first click before the timeout, and deny without one. -/
def firstAnswer : List ApprovalStep → Bool
  | [] => false
  | .click approve :: _ => approve
  | .expires :: _ => false
  | _ :: steps => firstAnswer steps

/-- The last step that changes the card resolves it. -/
def resolvedLast (steps : List ApprovalStep) : Bool := ((steps.filter lands).getLast?).any resolves

/-- The timeout has run out, or the card could not be posted. -/
def Interrupted (steps : List ApprovalStep) : Prop := .expires ∈ steps ∨ .posted none ∈ steps

structure Orderly (steps : List ApprovalStep) : Prop where
  oneAnswer : ∀ approve approve', .click approve ∈ steps → .click approve' ∈ steps → approve = approve'
  inTime : Interrupted steps → .click true ∉ steps
  cardLast : .appears ∈ steps → resolvedLast steps = true

section
variable {steps : List ApprovalStep} {a : ApprovalStep}

theorem resolvedLast_snoc :
    resolvedLast (steps ++ [a]) = if a.lands then a.resolves else resolvedLast steps := by
  unfold resolvedLast
  rw [List.filter_append]
  cases ha : a.lands with
  | true => simp [ha]
  | false => simp [ha]

theorem click_of_firstAnswer (h : firstAnswer steps = true) : .click true ∈ steps := by
  fun_induction firstAnswer steps with
  | case1 => cases h
  | case2 approve _ =>
    subst h
    exact List.mem_cons_self
  | case3 => cases h
  | case4 a rest _ _ ih => exact List.mem_cons_of_mem a (ih h)

theorem firstAnswer_click {approve : Bool} (hclick : .click approve ∈ steps)
    (hexpires : .expires ∉ steps) :
    .click (firstAnswer steps) ∈ steps := by
  fun_induction firstAnswer steps with
  | case1 => cases hclick
  | case2 approve' _ => exact List.mem_cons_self
  | case3 => exact absurd List.mem_cons_self hexpires
  | case4 a rest hclick' _ ih =>
    have hrest : .click approve ∈ rest := by
      cases hclick with
      | head => exact absurd rfl (hclick' approve)
      | tail _ h => exact h
    exact List.mem_cons_of_mem a (ih hrest fun h => hexpires (List.mem_cons_of_mem a h))

end

end ApprovalStep

/-! ## The transitions -/

namespace FeishuApproval

theorem route_click (nonzero : String → Bool) (call : GatedCall) (approve : Bool) :
    route nonzero (call.click approve) =
      (.terminal (.str call.toolName) (.str (decisionText approve)),
        some
          { convId := .str call.sessionId
            toolCallId := .str call.toolCallId
            approved := approve
            operatorOpenId := call.originatorOpenId }) := by
  cases approve <;>
    simp [route, GatedCall.click, GatedCall.button, cardField, Dict.get?_set, Json.isText,
      decisionText]

/-- What the patch of a terminal card leaves of it. -/
def terminalCard (call : GatedCall) (s : FeishuApproval) (landed : Bool) (decision : String)
    (operatorOpenId : Option String) : Option ApprovalCard :=
  if landed then
    s.card.map fun _ => buildResolvedCard (.str call.toolName) (.str decision) operatorOpenId
  else s.card

theorem patchTerminal_eq {call : GatedCall} {s t : FeishuApproval} {landed : Bool} {decision : String}
    {operatorOpenId : Option String}
    (h : s.patchTerminal call landed decision operatorOpenId = some t) :
    t = { s with card := terminalCard call s landed decision operatorOpenId } := by
  unfold patchTerminal at h
  cases landed with
  | false =>
    cases h
    rfl
  | true =>
    simp only at h
    split at h
    · cases h
    · cases h
      rfl

section
variable (nonzero : String → Bool) (call : GatedCall)

/-- The transitions of a call, with what each of them changes. -/
inductive Transition (s : FeishuApproval) : ApprovalStep → FeishuApproval → Prop
  | appears (hphase : s.phase = .posting) (hcard : s.card = none) :
      Transition s .appears { s with card := some (.countdown call.timeout) }
  | posted (messageId : String) (countdown : Countdown) (hphase : s.phase = .posting) :
      Transition s (.posted (some messageId))
        { s with phase := .waiting, messageId := messageId, countdown := countdown }
  | postFailed (hphase : s.phase = .posting) :
      Transition s (.posted none)
        { (s.discard call).log .deny "auto:post-failed" with phase := .returned .postFailed }
  | click (approve : Bool) :
      Transition s (.click approve)
        { s with
          replies := s.replies ++ [.terminal (.str call.toolName) (.str (decisionText approve))]
          records := s.records ++
            [{ convId := .str call.sessionId
               toolCallId := .str call.toolCallId
               approved := approve
               operatorOpenId := call.originatorOpenId }] }
  | shown (n : Nat) (reply : CardReply) (hreply : s.replies[n]? = some reply) :
      Transition s (.shown n)
        { s with
          replies := s.replies.eraseIdx n
          shown := s.shown ++ [reply]
          card := s.card.map (·.answeredBy reply) }
  | records (r : CardRecord) (rest : List CardRecord) (hrecords : s.records = r :: rest) :
      Transition s .records { s with registry := s.registry.record r, records := rest }
  | wakes (p : FeishuPendingDecision) (hphase : s.phase = .waiting)
      (hpending : s.pending call = some p) (hevent : p.event = true) :
      Transition s .wakes
        { s with phase := .cancelling (.decided (p.approved = some true)), countdown := .ended }
  | expires (hphase : s.phase = .waiting) : Transition s .expires { s with phase := .timingOut }
  | timedOut (landed : Bool) (hphase : s.phase = .timingOut) :
      Transition s (.patched landed)
        { s with
          phase := .cancelling .timeout
          countdown := .ended
          card := terminalCard call s landed "timeout" none
          audit := s.audit ++ [⟨.deny, "auto:timeout"⟩] }
  | patched (landed approved : Bool) (operator : Option String)
      (hphase : s.phase = .patching approved operator) :
      Transition s (.patched landed)
        { s with
          phase := .returned (.decided approved)
          card := terminalCard call s landed (decisionText approved) operator
          audit := s.audit ++
            [⟨(WaitOutcome.decided approved).decision, (operator.filter (· ≠ "")).getD "user"⟩] }
  | decided (approved : Bool) (operator : Option String)
      (hphase : s.phase = .cancelling (.decided approved)) :
      Transition s .cancelled { s.discard call with phase := .patching approved operator }
  | cancelled (outcome : WaitOutcome) (hphase : s.phase = .cancelling outcome)
      (houtcome : ∀ approved, outcome ≠ .decided approved) :
      Transition s .cancelled { s.discard call with phase := .returned outcome }
  | ticks (countdown : Countdown) (updates : List Int) :
      Transition s .ticks { s with countdown := countdown, updates := updates }
  | tickReturns (countdown : Countdown) : Transition s .tickReturns { s with countdown := countdown }
  | updateLands (n : Nat) (remaining : Int) :
      Transition s (.updateLands n)
        { s with updates := s.updates.eraseIdx n, card := s.card.map fun _ => .countdown remaining }
  | updateFails (n : Nat) : Transition s (.updateFails n) { s with updates := s.updates.eraseIdx n }

variable {nonzero call} {s s' : FeishuApproval} {a : ApprovalStep}

theorem transition_of_step (h : step nonzero call s a = some s') : Transition call s a s' := by
  cases a with
  | appears =>
    obtain ⟨⟨hphase, hcard⟩, hs⟩ := Option.ite_none_right_eq_some.mp h
    cases hs
    exact .appears hphase (Option.isNone_iff_eq_none.mp hcard)
  | posted messageId =>
    cases messageId with
    | none =>
      obtain ⟨hphase, hs⟩ := Option.ite_none_right_eq_some.mp h
      cases hs
      exact .postFailed hphase
    | some messageId =>
      obtain ⟨⟨hphase, -⟩, hs⟩ := Option.ite_none_right_eq_some.mp h
      cases hs
      exact .posted messageId _ hphase
  | click approve =>
    obtain ⟨-, hs⟩ := Option.ite_none_right_eq_some.mp h
    rw [route_click] at hs
    cases hs
    exact .click approve
  | shown n =>
    obtain ⟨reply, hreply, rfl⟩ := Option.map_eq_some_iff.mp h
    exact .shown n reply hreply
  | records =>
    cases hrecords : s.records with
    | nil => simp [step, hrecords] at h
    | cons r rest =>
      simp only [step, hrecords, Option.some.injEq] at h
      subst h
      exact .records r rest hrecords
  | wakes =>
    simp only [step] at h
    split at h
    · rename_i p hphase hpending
      obtain ⟨hevent, hs⟩ := Option.ite_none_right_eq_some.mp h
      cases hs
      exact .wakes p hphase hpending hevent
    · cases h
  | expires =>
    obtain ⟨hphase, hs⟩ := Option.ite_none_right_eq_some.mp h
    cases hs
    exact .expires hphase
  | patched landed =>
    simp only [step] at h
    split at h
    · rename_i hphase
      obtain ⟨t, ht, rfl⟩ := Option.map_eq_some_iff.mp h
      rw [patchTerminal_eq ht]
      exact .timedOut landed hphase
    · rename_i approved operator hphase
      obtain ⟨t, ht, rfl⟩ := Option.map_eq_some_iff.mp h
      rw [patchTerminal_eq ht]
      exact .patched landed approved operator hphase
    · cases h
  | cancelled =>
    simp only [step] at h
    split at h
    · rename_i approved hphase
      cases h
      exact .decided approved _ hphase
    · rename_i outcome houtcome hphase
      cases h
      exact .cancelled outcome hphase fun approved heq => houtcome approved heq
    · cases h
  | ticks =>
    simp only [step] at h
    split at h
    · split at h
      · cases h
        exact .ticks _ _
      · cases h
        exact .ticks _ _
    · cases h
  | tickReturns =>
    simp only [step] at h
    split at h
    · cases h
      exact .tickReturns _
    · cases h
  | updateLands n =>
    obtain ⟨remaining, -, rfl⟩ := Option.map_eq_some_iff.mp h
    exact .updateLands n remaining
  | updateFails n =>
    obtain ⟨-, -, rfl⟩ := Option.map_eq_some_iff.mp h
    exact .updateFails n

/-! ## What the steps so far say about the state -/

/-- The answers on their way and those seen are those to the clicks. -/
structure Answered (call : GatedCall) (past : List ApprovalStep) (s : FeishuApproval) : Prop where
  clicked : ∀ reply ∈ s.replies ++ s.shown, ∃ approve, .click approve ∈ past ∧
    reply = .terminal (.str call.toolName) (.str (decisionText approve))
  answered : ∀ approve, .click approve ∈ past →
    .terminal (.str call.toolName) (.str (decisionText approve)) ∈ s.replies ++ s.shown

/-- What is recorded, or will be, is a click. -/
structure Recorded (call : GatedCall) (past : List ApprovalStep) (s : FeishuApproval) : Prop where
  records : ∀ r ∈ s.records, .click r.approved ∈ past
  decided : ∀ p, s.pending call = some p → p.event = true →
    ∃ approve, p.approved = some approve ∧ .click approve ∈ past

def Justified (past : List ApprovalStep) : WaitOutcome → Prop
  | .decided approved => ¬ ApprovalStep.Interrupted past ∧ .click approved ∈ past
  | .timeout => .expires ∈ past
  | .postFailed => .posted none ∈ past

def Concluding (past : List ApprovalStep) (audit : List FeishuAudit) : HookPhase → Prop
  | .posting | .waiting => ¬ ApprovalStep.Interrupted past ∧ audit = []
  | .timingOut => .expires ∈ past ∧ audit = []
  | .cancelling (.decided approved) | .patching approved _ =>
    Justified past (.decided approved) ∧ audit = []
  | .cancelling outcome | .returned outcome =>
    Justified past outcome ∧ audit.map (·.decision) = [outcome.decision]

def Titled (past : List ApprovalStep) : CardTitle → Prop
  | .approved => .click true ∈ past
  | .denied => .click false ∈ past
  | .timedOut => .expires ∈ past

def Displayed (past : List ApprovalStep) : Option ApprovalCard → Prop
  | none => .appears ∉ past
  | some (.countdown _) => .appears ∈ past ∧ ApprovalStep.resolvedLast past = false
  | some (.resolved title _ _) =>
    .appears ∈ past ∧ ApprovalStep.resolvedLast past = true ∧ Titled past title

variable {past : List ApprovalStep}

theorem mem_snoc {b : ApprovalStep} (h : b ∈ past) : b ∈ past ++ [a] := List.mem_append_left _ h

theorem Answered.snoc (h : Answered call past s) (ha : ∀ approve, a ≠ .click approve)
    (hmem : ∀ reply, reply ∈ s'.replies ++ s'.shown ↔ reply ∈ s.replies ++ s.shown) :
    Answered call (past ++ [a]) s' where
  clicked reply hreply := by
    obtain ⟨approve, hpast, heq⟩ := h.clicked reply ((hmem reply).mp hreply)
    exact ⟨approve, mem_snoc hpast, heq⟩
  answered approve hpast := by
    rcases List.mem_append.mp hpast with hpast | hlast
    · exact (hmem _).mpr (h.answered approve hpast)
    · exact absurd (List.mem_singleton.mp hlast).symm (ha approve)

theorem mem_shown_iff {n : Nat} {reply : CardReply} (hreply : s.replies[n]? = some reply)
    (x : CardReply) :
    x ∈ s.replies.eraseIdx n ++ (s.shown ++ [reply]) ↔ x ∈ s.replies ++ s.shown := by
  obtain ⟨hn, rfl⟩ := List.getElem?_eq_some_iff.mp hreply
  have hperm := (List.getElem_cons_eraseIdx_perm hn).mem_iff (a := x)
  simp only [List.mem_append, ← hperm, List.mem_cons, List.not_mem_nil, or_false]
  tauto

theorem answered_step (h : Answered call past s) (ht : Transition call s a s') :
    Answered call (past ++ [a]) s' := by
  cases ht with
  | click approve =>
    constructor
    · intro reply hreply
      simp only [List.mem_append, List.mem_singleton] at hreply
      rcases hreply with (hreply | rfl) | hreply
      · obtain ⟨approve', hpast, heq⟩ := h.clicked reply (List.mem_append_left _ hreply)
        exact ⟨approve', mem_snoc hpast, heq⟩
      · exact ⟨approve, by simp, rfl⟩
      · obtain ⟨approve', hpast, heq⟩ := h.clicked reply (List.mem_append_right _ hreply)
        exact ⟨approve', mem_snoc hpast, heq⟩
    · intro approve' hpast
      rcases List.mem_append.mp hpast with hpast | hlast
      · rcases List.mem_append.mp (h.answered approve' hpast) with hreply | hshown
        · exact List.mem_append_left _ (List.mem_append_left _ hreply)
        · exact List.mem_append_right _ hshown
      · cases List.mem_singleton.mp hlast
        simp
  | shown n reply hreply => exact h.snoc (by simp) (mem_shown_iff hreply)
  | _ => exact h.snoc (by simp) fun _ => Iff.rfl

theorem Recorded.snoc (h : Recorded call past s) (hrecords : s'.records = s.records)
    (hpending : s'.pending call = s.pending call) : Recorded call (past ++ [a]) s' where
  records r hr := mem_snoc (h.records r (hrecords ▸ hr))
  decided p hp hevent := by
    obtain ⟨approve, happroved, hpast⟩ := h.decided p (hpending ▸ hp) hevent
    exact ⟨approve, happroved, mem_snoc hpast⟩

theorem pending_discard : (s.discard call).pending call = none := Function.update_self _ _ _

theorem Recorded.discard (h : Recorded call past s) (hrecords : s'.records = s.records)
    (hpending : s'.pending call = none) : Recorded call (past ++ [a]) s' where
  records r hr := mem_snoc (h.records r (hrecords ▸ hr))
  decided p hp _ := by
    rw [hpending] at hp
    cases hp

/-- A record changes a pending decision into the one clicked, if at all. -/
theorem pending_record {registry : FeishuApprovalRegistry} {r : CardRecord} {key : String × String}
    {p : FeishuPendingDecision} (h : (registry.record r).pending key = some p) :
    registry.pending key = some p ∨ p.approved = some r.approved := by
  unfold FeishuApprovalRegistry.record FeishuApprovalRegistry.setDecision at h
  split at h
  · split at h
    · exact .inl h
    · dsimp only at h
      rw [Function.update_apply] at h
      split at h
      · cases h
        exact .inr rfl
      · exact .inl h
  · exact .inl h

theorem recorded_step (h : Recorded call past s) (ht : Transition call s a s') :
    Recorded call (past ++ [a]) s' := by
  cases ht with
  | click approve =>
    constructor
    · intro r hr
      rcases List.mem_append.mp hr with hr | hr
      · exact mem_snoc (h.records r hr)
      · cases List.mem_singleton.mp hr
        simp
    · intro p hp hevent
      obtain ⟨approve', happroved, hpast⟩ := h.decided p hp hevent
      exact ⟨approve', happroved, mem_snoc hpast⟩
  | records r rest hrecords =>
    have hr : .click r.approved ∈ past := h.records r (hrecords ▸ List.mem_cons_self)
    constructor
    · intro r' hr'
      exact mem_snoc (h.records r' (hrecords ▸ List.mem_cons_of_mem r hr'))
    · intro p hp hevent
      rcases pending_record hp with hp | happroved
      · obtain ⟨approve, happroved, hpast⟩ := h.decided p hp hevent
        exact ⟨approve, happroved, mem_snoc hpast⟩
      · exact ⟨r.approved, happroved, mem_snoc hr⟩
  | postFailed => exact h.discard rfl pending_discard
  | decided => exact h.discard rfl pending_discard
  | cancelled => exact h.discard rfl pending_discard
  | _ => exact h.snoc rfl rfl

theorem not_mem_snoc {b : ApprovalStep} (h : b ∉ past) (ha : a ≠ b) : b ∉ past ++ [a] := by
  intro hmem
  rcases List.mem_append.mp hmem with hmem | hlast
  · exact h hmem
  · exact ha (List.mem_singleton.mp hlast).symm

theorem not_interrupted_snoc (h : ¬ ApprovalStep.Interrupted past) (hexpires : a ≠ .expires)
    (hposted : a ≠ .posted none) : ¬ ApprovalStep.Interrupted (past ++ [a]) := by
  rintro (hmem | hmem)
  · exact not_mem_snoc (fun h' => h (.inl h')) hexpires hmem
  · exact not_mem_snoc (fun h' => h (.inr h')) hposted hmem

theorem Justified.snoc {outcome : WaitOutcome} (h : Justified past outcome) (hexpires : a ≠ .expires)
    (hposted : a ≠ .posted none) : Justified (past ++ [a]) outcome := by
  cases outcome with
  | decided approved => exact ⟨not_interrupted_snoc h.1 hexpires hposted, mem_snoc h.2⟩
  | timeout => exact List.mem_append_left _ h
  | postFailed => exact List.mem_append_left _ h

theorem Concluding.snoc {audit : List FeishuAudit} {phase : HookPhase}
    (h : Concluding past audit phase)
    (hexpires : a ≠ .expires) (hposted : a ≠ .posted none) : Concluding (past ++ [a]) audit phase := by
  cases phase with
  | posting => exact ⟨not_interrupted_snoc h.1 hexpires hposted, h.2⟩
  | waiting => exact ⟨not_interrupted_snoc h.1 hexpires hposted, h.2⟩
  | timingOut => exact ⟨mem_snoc h.1, h.2⟩
  | cancelling outcome =>
    cases outcome with
    | decided approved => exact ⟨h.1.snoc hexpires hposted, h.2⟩
    | timeout => exact ⟨h.1.snoc hexpires hposted, h.2⟩
    | postFailed => exact ⟨h.1.snoc hexpires hposted, h.2⟩
  | patching approved operator => exact ⟨h.1.snoc hexpires hposted, h.2⟩
  | returned outcome => exact ⟨h.1.snoc hexpires hposted, h.2⟩

theorem concluding_step (hr : Recorded call past s) (h : Concluding past s.audit s.phase)
    (ht : Transition call s a s') : Concluding (past ++ [a]) s'.audit s'.phase := by
  cases ht with
  | posted messageId countdown hphase =>
    rw [hphase] at h
    exact ⟨not_interrupted_snoc h.1 (by simp) (by simp), h.2⟩
  | postFailed hphase =>
    rw [hphase] at h
    refine ⟨by simp [Justified], ?_⟩
    simp [log, FeishuApproval.discard, h.2, WaitOutcome.decision]
  | wakes p hphase hpending hevent =>
    rw [hphase] at h
    obtain ⟨approve, happroved, hpast⟩ := hr.decided p hpending hevent
    refine ⟨⟨not_interrupted_snoc h.1 (by simp) (by simp), ?_⟩, h.2⟩
    cases approve with
    | true => simpa [happroved] using hpast
    | false => simpa [happroved] using hpast
  | expires hphase =>
    rw [hphase] at h
    exact ⟨by simp, h.2⟩
  | timedOut landed hphase =>
    rw [hphase] at h
    refine ⟨mem_snoc h.1, ?_⟩
    simp [h.2, WaitOutcome.decision]
  | patched landed approved operator hphase =>
    rw [hphase] at h
    refine ⟨h.1.snoc (by simp) (by simp), ?_⟩
    simp [h.2]
  | decided approved operator hphase =>
    rw [hphase] at h
    exact ⟨h.1.snoc (by simp) (by simp), h.2⟩
  | cancelled outcome hphase houtcome =>
    rw [hphase] at h
    cases outcome with
    | decided approved => exact absurd rfl (houtcome approved)
    | timeout => exact ⟨h.1.snoc (by simp) (by simp), h.2⟩
    | postFailed => exact ⟨h.1.snoc (by simp) (by simp), h.2⟩
  | _ => exact h.snoc (by simp) (by simp)

theorem Titled.snoc {title : CardTitle} (h : Titled past title) : Titled (past ++ [a]) title := by
  cases title with
  | approved => exact List.mem_append_left _ h
  | denied => exact List.mem_append_left _ h
  | timedOut => exact List.mem_append_left _ h

theorem Displayed.snoc {card : Option ApprovalCard} (h : Displayed past card)
    (hlands : a.lands = false) :
    Displayed (past ++ [a]) card := by
  have hlast : ApprovalStep.resolvedLast (past ++ [a]) = ApprovalStep.resolvedLast past := by
    rw [ApprovalStep.resolvedLast_snoc, hlands, if_neg Bool.false_ne_true]
  match card with
  | none =>
    refine not_mem_snoc h ?_
    rintro rfl
    cases hlands
  | some (.countdown _) => exact ⟨mem_snoc h.1, hlast.trans h.2⟩
  | some (.resolved title _ _) => exact ⟨mem_snoc h.1, hlast.trans h.2.1, h.2.2.snoc⟩

/-- What lands replaces the card, if there is one. -/
theorem Displayed.replace {card : Option ApprovalCard} {new : ApprovalCard} (h : Displayed past card)
    (ha : a ≠ .appears) (hnew : .appears ∈ past ++ [a] → Displayed (past ++ [a]) (some new)) :
    Displayed (past ++ [a]) (card.map fun _ => new) := by
  match card with
  | none => exact not_mem_snoc h ha
  | some (.countdown _) => exact hnew (mem_snoc h.1)
  | some (.resolved _ _ _) => exact hnew (mem_snoc h.1)

theorem resolvedLast_of_resolves (ha : a.resolves = true) :
    ApprovalStep.resolvedLast (past ++ [a]) = true := by
  have hlands : a.lands = true := by
    cases a with
    | shown => rfl
    | patched landed => exact ha
    | _ => cases ha
  rw [ApprovalStep.resolvedLast_snoc, hlands, if_pos rfl, ha]

theorem displayed_answer {toolName : Json} {approve : Bool} {operator : Option String}
    (ha : a.resolves = true) (hclick : .click approve ∈ past) (happears : .appears ∈ past ++ [a]) :
    Displayed (past ++ [a])
      (some (buildResolvedCard toolName (.str (decisionText approve)) operator)) := by
  refine ⟨happears, resolvedLast_of_resolves ha, ?_⟩
  cases approve with
  | true => exact List.mem_append_left _ hclick
  | false => exact List.mem_append_left _ hclick

theorem displayed_step (hanswered : Answered call past s)
    (hconcluding : Concluding past s.audit s.phase)
    (h : Displayed past s.card) (ht : Transition call s a s') : Displayed (past ++ [a]) s'.card := by
  cases ht with
  | appears hphase hcard =>
    refine ⟨by simp, ?_⟩
    rw [ApprovalStep.resolvedLast_snoc]
    rfl
  | shown n reply hreply =>
    obtain ⟨approve, hclick, rfl⟩ :=
      hanswered.clicked reply (List.mem_append_left _ (List.mem_of_getElem? hreply))
    exact h.replace (by simp) (displayed_answer rfl hclick)
  | timedOut landed hphase =>
    rw [hphase] at hconcluding
    cases landed with
    | false => exact h.snoc rfl
    | true =>
      refine h.replace (by simp) fun happears => ?_
      exact ⟨happears, resolvedLast_of_resolves rfl, mem_snoc hconcluding.1⟩
  | patched landed approved operator hphase =>
    rw [hphase] at hconcluding
    cases landed with
    | false => exact h.snoc rfl
    | true => exact h.replace (by simp) (displayed_answer rfl hconcluding.1.2)
  | updateLands n remaining =>
    refine h.replace (by simp) fun happears => ⟨happears, ?_⟩
    rw [ApprovalStep.resolvedLast_snoc]
    rfl
  | _ => exact h.snoc rfl

structure History (call : GatedCall) (past : List ApprovalStep) (s : FeishuApproval) : Prop where
  answered : Answered call past s
  recorded : Recorded call past s
  concluding : Concluding past s.audit s.phase
  displayed : Displayed past s.card

theorem history_start (registry : FeishuApprovalRegistry) : History call [] (start call registry) where
  answered := ⟨by simp [start], by simp⟩
  recorded := by
    refine ⟨by simp [start], ?_⟩
    intro p hp hevent
    have hstart : (start call registry).pending call =
        some { originatorOpenId := call.originatorOpenId } := Function.update_self _ _ _
    cases hstart.symm.trans hp
    cases hevent
  concluding := ⟨by simp [ApprovalStep.Interrupted], rfl⟩
  displayed := List.not_mem_nil

theorem history_step (h : History call past s) (hs : step nonzero call s a = some s') :
    History call (past ++ [a]) s' where
  answered := answered_step h.answered (transition_of_step hs)
  recorded := recorded_step h.recorded (transition_of_step hs)
  concluding := concluding_step h.recorded h.concluding (transition_of_step hs)
  displayed := displayed_step h.answered h.concluding h.displayed (transition_of_step hs)

theorem history_of_run {registry : FeishuApprovalRegistry} {steps : List ApprovalStep}
    (hrun : tryFrom (step nonzero call) (start call registry) steps = some s) :
    History call steps s := by
  have h := history_invariant (I := History call) (fun _ _ _ _ => history_step)
    (history_start registry) hrun
  simpa using h

/-! ## Agreement -/

open ApprovalStep

variable {steps : List ApprovalStep} {outcome : WaitOutcome}

theorem answer_terminal (toolName : Json) (approve : Bool) :
    (CardReply.terminal toolName (.str (decisionText approve))).answer = some approve := by
  cases approve with
  | true => rfl
  | false => rfl

theorem interrupted_or_clicked (h : Justified steps outcome) :
    Interrupted steps ∧ outcome.decision = .deny ∨
      ∃ approved, outcome = .decided approved ∧ ¬ Interrupted steps ∧ .click approved ∈ steps := by
  cases outcome with
  | decided approved => exact .inr ⟨approved, rfl, h⟩
  | timeout => exact .inl ⟨.inl h, rfl⟩
  | postFailed => exact .inl ⟨.inr h, rfl⟩

theorem click_eq_firstAnswer (h : Orderly steps) {approve : Bool} (hclick : .click approve ∈ steps) :
    approve = firstAnswer steps := by
  by_cases hexpires : .expires ∈ steps
  · have hdeny := h.inTime (.inl hexpires)
    cases approve with
    | true => exact absurd hclick hdeny
    | false =>
      cases hfirst : firstAnswer steps with
      | false => rfl
      | true => exact absurd (click_of_firstAnswer hfirst) hdeny
  · exact h.oneAnswer _ _ hclick (firstAnswer_click hclick hexpires)

theorem firstAnswer_of_interrupted (h : Orderly steps) (hinterrupted : Interrupted steps) :
    firstAnswer steps = false := by
  cases hfirst : firstAnswer steps with
  | false => rfl
  | true => exact absurd (click_of_firstAnswer hfirst) (h.inTime hinterrupted)

theorem decision_of_orderly (h : Orderly steps) (hj : Justified steps outcome) :
    outcome.decision = (WaitOutcome.decided (firstAnswer steps)).decision := by
  rcases interrupted_or_clicked hj with ⟨hinterrupted, hdeny⟩ | ⟨approved, rfl, -, hclick⟩
  · rw [hdeny, firstAnswer_of_interrupted h hinterrupted]
    rfl
  · rw [click_eq_firstAnswer h hclick]

theorem card_of_orderly (h : Orderly steps) {card : ApprovalCard} (hd : Displayed steps (some card)) :
    card.answer = some (firstAnswer steps) := by
  cases card with
  | countdown remaining =>
    obtain ⟨happears, hlast⟩ := hd
    cases hlast.symm.trans (h.cardLast happears)
  | resolved title toolName operator =>
    obtain ⟨-, -, htitle⟩ := hd
    cases title with
    | approved => rw [← click_eq_firstAnswer h htitle]; rfl
    | denied => rw [← click_eq_firstAnswer h htitle]; rfl
    | timedOut => rw [firstAnswer_of_interrupted h (.inl htitle)]; rfl

theorem orderly_of_agreed (hist : History call steps s) (hs : s.Settled)
    (hphase : s.phase = .returned outcome)
    (hjustified : Justified steps outcome) (h : s.Agreed (firstAnswer steps)) : Orderly steps := by
  have hclick : ∀ approve, .click approve ∈ steps → approve = firstAnswer steps := by
    intro approve hmem
    have hshown := hist.answered.answered approve hmem
    rw [hs.replies, List.nil_append] at hshown
    have hanswer := h.answers _ hshown
    rw [answer_terminal] at hanswer
    exact Option.some.inj hanswer
  constructor
  · intro approve approve' h₁ h₂
    exact (hclick approve h₁).trans (hclick approve' h₂).symm
  · intro hinterrupted htrue
    have hdecision := h.decision outcome hphase
    rcases interrupted_or_clicked hjustified with ⟨-, hdeny⟩ | ⟨_, -, hnot, -⟩
    · rw [hdeny, ← hclick true htrue] at hdecision
      cases hdecision
    · exact hnot hinterrupted
  · intro happears
    have hdisplayed := hist.displayed
    cases hcard : s.card with
    | none =>
      rw [hcard] at hdisplayed
      exact absurd happears hdisplayed
    | some card =>
      rw [hcard] at hdisplayed
      cases card with
      | countdown remaining => cases h.card _ hcard
      | resolved title toolName operator => exact hdisplayed.2.1

theorem agreed_of_orderly (hist : History call steps s) (hphase : s.phase = .returned outcome)
    (hjustified : Justified steps outcome) (haudit : s.audit.map (·.decision) = [outcome.decision])
    (h : Orderly steps) : s.Agreed (firstAnswer steps) := by
  have hdecision := decision_of_orderly h hjustified
  constructor
  · intro outcome' hphase'
    cases hphase.symm.trans hphase'
    exact hdecision
  · rw [haudit, hdecision]
  · intro reply hreply
    obtain ⟨approve, hclick, rfl⟩ := hist.answered.clicked reply (List.mem_append_right _ hreply)
    rw [answer_terminal, click_eq_firstAnswer h hclick]
  · intro card hcard
    have hdisplayed := hist.displayed
    rw [hcard] at hdisplayed
    exact card_of_orderly h hdisplayed

/-- Once a call has settled, the runner, the audit log, the answers and the card agree on the first
answer exactly if the steps were orderly. -/
theorem agreed_iff (nonzero : String → Bool) (call : GatedCall) (registry : FeishuApprovalRegistry)
    (steps : List ApprovalStep) (s : FeishuApproval)
    (hrun : tryFrom (step nonzero call) (start call registry) steps = some s) (hs : s.Settled) :
    s.Agreed (firstAnswer steps) ↔ Orderly steps := by
  have hist := history_of_run hrun
  obtain ⟨outcome, hphase⟩ := hs.returned
  have hconcluding := hist.concluding
  rw [hphase] at hconcluding
  obtain ⟨hjustified, haudit⟩ := hconcluding
  exact ⟨orderly_of_agreed hist hs hphase hjustified, agreed_of_orderly hist hphase hjustified haudit⟩

end

/-! ## Runs -/

open ApprovalStep

def sampleCall : GatedCall where
  sessionId := "feishu:app:ou_alice"
  toolCallId := "call_1"
  toolName := "bash"
  originatorOpenId := "ou_alice"
  timeout := 60
  taskManager := true

def runSample (steps : List ApprovalStep) : Option FeishuApproval :=
  tryFrom (step (fun _ => true) sampleCall) (start sampleCall {}) steps

/-- One click in time, and an update of the countdown before it. -/
def promptSteps : List ApprovalStep :=
  [.appears, .posted (some "om_1"), .ticks, .updateLands 0, .tickReturns, .click true, .shown 0,
    .records, .wakes, .cancelled, .patched true]

/-- The timeout runs out between the answer to the click and its record. -/
def overtakenSteps : List ApprovalStep :=
  [.appears, .posted (some "om_1"), .click true, .expires, .records, .patched true, .cancelled,
    .shown 0]

/-- The second click is recorded before the hook wakes up. -/
def overwrittenSteps : List ApprovalStep :=
  [.appears, .posted (some "om_1"), .click true, .click false, .records, .records, .wakes, .shown 0,
    .shown 0, .cancelled, .patched true]

/-- A patch of the countdown is on its way when the user clicks, and comes last. -/
def staleSteps : List ApprovalStep :=
  [.appears, .posted (some "om_1"), .ticks, .click true, .shown 0, .records, .wakes, .cancelled,
    .patched true, .updateLands 0]

theorem prompt_agrees : ∃ s, runSample promptSteps = some s ∧ s.Agreed (firstAnswer promptSteps) := by
  refine ⟨_, rfl,
    (agreed_iff (fun _ => true) sampleCall {} promptSteps _ rfl ⟨⟨_, rfl⟩, rfl, rfl⟩).mpr ?_⟩
  refine ⟨?_, ?_, fun _ => rfl⟩
  · simp [promptSteps]
  · simp [promptSteps, Interrupted]

/-- Alice is told that her approval counts, and the call is denied; she is told so of both answers; the
buttons are back on a call that has been executed. -/
theorem observers_disagree :
    (∃ s, runSample overtakenSteps = some s ∧ s.Settled ∧ ¬ s.Agreed (firstAnswer overtakenSteps)) ∧
    (∃ s, runSample overwrittenSteps = some s ∧ s.Settled ∧
      ¬ s.Agreed (firstAnswer overwrittenSteps)) ∧
    ∃ s, runSample staleSteps = some s ∧ s.Settled ∧ ¬ s.Agreed (firstAnswer staleSteps) := by
  refine ⟨⟨_, rfl, ⟨⟨_, rfl⟩, rfl, rfl⟩, fun h => ?_⟩, ⟨_, rfl, ⟨⟨_, rfl⟩, rfl, rfl⟩, fun h => ?_⟩,
    ⟨_, rfl, ⟨⟨_, rfl⟩, rfl, rfl⟩, fun h => ?_⟩⟩
  · cases h.decision _ rfl
  · cases h.decision _ rfl
  · cases h.card _ rfl

end FeishuApproval

end PyClaw
