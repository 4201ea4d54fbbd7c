import PyClaw.Agent.BatchLog

/-!
# Agent.Approval

Which calls of a batch are executed, against what the tiers and the approval hook decided.

* `executed_permitted_iff`: with distinct ids, every executed call is permitted exactly when the
  hook answers each call it was asked about with `approve` or `deny`.
* `faithful_iff`: audits, executions and `ToolCallEnd` events agree with the decisions exactly
  when no call shares its id with a denied call that it is not.
-/

namespace PyClaw

open Prog

def executedPositions (l : List Item) : List Nat := l.filterMap Item.executed?

def auditVerdicts (l : List Item) : List (Nat × AuditDecision) := l.filterMap Item.audited?

def endedIds (l : List Item) : List String := l.filterMap Item.ended?

section
variable (ctx : GateContext) (batch : List BatchCall) (reply : HookReply)

/-- What must hold of a call for its execution. -/
def Permitted (c : BatchCall) : Prop :=
  effectiveTier ctx c.call = .yolo ∨
  (effectiveTier ctx c.call = .readOnly ∧ toolClassOf ctx c.call ≠ "write") ∨
  (effectiveTier ctx c.call = .approval ∧ forcedGated ctx c.call = false ∧
    gatedByHook ctx c.call = false) ∨
  (effectiveTier ctx c.call = .approval ∧
    (forcedGated ctx c.call = true ∨ gatedByHook ctx c.call = true) ∧
    Decides ctx batch reply c .approve)

/-- One decision for each call handed to the hook, each of them `approve` or `deny`. -/
def AnswersAll : Prop :=
  handedCalls ctx batch = [] ∨
    ∃ ds, reply = .decisions ds ∧ ds.length = (handedCalls ctx batch).length ∧
      ∀ d ∈ ds, d = .approve ∨ d = .deny

end

/-! ## Positions -/

section
variable {calls : List ToolCall} {ctx : GateContext} {reply : HookReply}

theorem numberCalls_pos_nodup (calls : List ToolCall) :
    ((numberCalls calls).map BatchCall.pos).Nodup := by
  have h : (numberCalls calls).map BatchCall.pos = calls.zipIdx.map Prod.snd := by
    rw [numberCalls, List.map_map]
    rfl
  rw [h, List.zipIdx_map_snd]
  exact List.nodup_range'

theorem pos_injective {c c' : BatchCall} (hc : c ∈ numberCalls calls)
    (hc' : c' ∈ numberCalls calls) (h : c.pos = c'.pos) : c = c' :=
  List.inj_on_of_nodup_map (numberCalls_pos_nodup calls) hc hc' h

theorem handedCalls_nodup (ctx : GateContext) (calls : List ToolCall) :
    (handedCalls ctx (numberCalls calls)).Nodup :=
  (List.Nodup.of_map _ (numberCalls_pos_nodup calls)).filter _

/-- The decision at a call's own position, by index. -/
theorem decides_iff {batch : List BatchCall} {ds : List ApprovalDecision} {c : BatchCall}
    {d : ApprovalDecision} :
    Decides ctx batch (.decisions ds) c d ↔
      ∃ i : Nat, (handedCalls ctx batch)[i]? = some c ∧ ds[i]? = some d := by
  unfold Decides
  constructor
  · rintro ⟨ds', hds, hmem⟩
    cases hds
    obtain ⟨i, hi⟩ := List.mem_iff_getElem?.mp hmem
    exact ⟨i, List.getElem?_zip_eq_some.mp hi⟩
  · rintro ⟨i, hi⟩
    exact ⟨ds, rfl, List.mem_iff_getElem?.mpr ⟨i, List.getElem?_zip_eq_some.mpr hi⟩⟩

theorem Decides.unique {c : BatchCall} {d d' : ApprovalDecision}
    (h : Decides ctx (numberCalls calls) reply c d)
    (h' : Decides ctx (numberCalls calls) reply c d') : d = d' := by
  obtain ⟨ds, rfl, -⟩ := id h
  obtain ⟨i, hi, hd⟩ := decides_iff.mp h
  obtain ⟨j, hj, hd'⟩ := decides_iff.mp h'
  have hij : i = j := by
    exact (List.getElem?_inj (List.getElem?_eq_some_iff.mp hi).1 (handedCalls_nodup ctx calls)).mp
      (hi.trans hj.symm)
  subst hij
  rw [hd] at hd'
  exact Option.some.inj hd'

end

/-! ## Executed calls -/

section
variable {deps : AgentRunnerDeps} {request : RunRequest} {env : TurnEnv} {calls : List ToolCall}
  {s : RunState}

/-- What a turn from a synchronised state logs. -/
theorem toolBatch_log (hs : s.Synced) :
    (¬ Reaches deps request env calls ∧
      executedPositions (toolBatch deps request env calls s).log = [] ∧
      endedIds (toolBatch deps request env calls s).log = []) ∨
    (Reaches deps request env calls ∧ ∃ denied,
      DeniedTable (gateContext deps request env.registry) (numberCalls calls) env.hookReply
        denied ∧
      executedPositions (toolBatch deps request env calls s).log =
        (remainingCalls calls denied).map BatchCall.pos ∧
      auditVerdicts (toolBatch deps request env calls s).log =
        ((gateCalls (gateContext deps request env.registry) ((numberCalls calls).map
          (evaluated (gateContext deps request env.registry) deps.json))).audits.map
            auditVerdict) ∧
      ((∀ c ∈ remainingCalls calls denied, Dispatches deps env c) ∧
          endedIds (toolBatch deps request env calls s).log =
            (deniedCalls calls denied ++ remainingCalls calls denied).map (fun c => c.call.id) ∨
        (∃ c ∈ remainingCalls calls denied, ¬ Dispatches deps env c) ∧
          endedIds (toolBatch deps request env calls s).log =
            (deniedCalls calls denied).map fun c => c.call.id)) := by
  obtain ⟨c₀, hc₀⟩ := hs.wf.context_isSome deps.py
  have hpost := (@toolBatch_triple deps request env calls c₀).post (s := s) ⟨rfl, hs, hc₀⟩
  generalize toolBatch deps request env calls s = o at hpost
  obtain ⟨r, s', l⟩ := o
  cases r with
  | ok b =>
    obtain ⟨hreach, denied, htable, hdispatch, hlog⟩ := hpost
    exact .inr ⟨hreach, denied, htable, hlog.executed_eq, hlog.audits_eq,
      .inl ⟨hdispatch, hlog.ended_eq⟩⟩
  | error e =>
    rcases hpost with ⟨hreach, audits, hlog⟩ | ⟨hreach, denied, htable, hdispatch, hlog⟩
    · exact .inl ⟨hreach, hlog.executed_eq, hlog.ended_eq⟩
    · exact .inr ⟨hreach, denied, htable, hlog.executed_eq, hlog.audits_eq,
        .inr ⟨hdispatch, hlog.ended_eq⟩⟩

/-- The turn executes the calls whose id belongs to no denied call. -/
theorem executed_iff (hs : s.Synced) {c : BatchCall} (hc : c ∈ numberCalls calls) :
    c.pos ∈ executedPositions (toolBatch deps request env calls s).log ↔
      Reaches deps request env calls ∧ ¬ IdDenied deps request env calls c := by
  rcases @toolBatch_log deps request env calls s hs with ⟨hno, hex, -⟩ |
      ⟨hreach, denied, htable, hex, -⟩
  · simp [hex, hno]
  · rw [hex, List.mem_map]
    constructor
    · rintro ⟨c', hc', hpos⟩
      obtain ⟨hmem, hnot⟩ := (mem_remainingCalls htable).mp hc'
      rw [← pos_injective hmem hc hpos]
      exact ⟨hreach, hnot⟩
    · rintro ⟨-, hnot⟩
      exact ⟨c, (mem_remainingCalls htable).mpr ⟨hc, hnot⟩, rfl⟩

theorem idDenied_iff (hids : (calls.map ToolCall.id).Nodup) {c : BatchCall}
    (hc : c ∈ numberCalls calls) :
    IdDenied deps request env calls c ↔ DeniedItself (gateContext deps request env.registry)
      (numberCalls calls) env.hookReply c := by
  constructor
  · rintro ⟨c', hc', hd, hid⟩
    rw [← numberCalls_id] at hids
    rwa [← List.inj_on_of_nodup_map hids hc' hc hid]
  · exact fun hd => ⟨c, hc, hd, rfl⟩

end

/-! ## Fail-closed gating -/

section
variable {ctx : GateContext} {calls : List ToolCall} {reply : HookReply}

theorem handed_iff {call : ToolCall} :
    handed ctx call = true ↔ effectiveTier ctx call = .approval ∧
      (forcedGated ctx call = true ∨ gatedByHook ctx call = true) ∧ ctx.hook.isSome = true := by
  simp [handed, asks, and_assoc]

theorem not_deniedByRunner_of_handed {call : ToolCall} (h : handed ctx call = true) :
    deniedByRunner ctx call = false := by
  obtain ⟨htier, -, hhook⟩ := handed_iff.mp h
  obtain ⟨hook, hhook⟩ := Option.isSome_iff_exists.mp hhook
  simp [deniedByRunner, autoDenied, htier, hhook]

theorem mem_handedCalls {batch : List BatchCall} {c : BatchCall} :
    c ∈ handedCalls ctx batch ↔ c ∈ batch ∧ handed ctx c.call = true := by
  rw [handedCalls, List.mem_filter]

/-- A handed call that is permitted was approved. -/
theorem Permitted.approved {batch : List BatchCall} {c : BatchCall}
    (h : Permitted ctx batch reply c) (hc : handed ctx c.call = true) :
    Decides ctx batch reply c .approve := by
  obtain ⟨htier, hgate, -⟩ := handed_iff.mp hc
  rcases h with h | ⟨h, -⟩ | ⟨-, hf, hg⟩ | ⟨-, -, h⟩
  · rw [htier] at h; cases h
  · rw [htier] at h; cases h
  · rcases hgate with hgate | hgate
    · rw [hf] at hgate; cases hgate
    · rw [hg] at hgate; cases hgate
  · exact h

theorem permitted_of_answersAll (h : AnswersAll ctx (numberCalls calls) reply) {c : BatchCall}
    (hc : c ∈ numberCalls calls) (hd : ¬ DeniedItself ctx (numberCalls calls) reply c) :
    Permitted ctx (numberCalls calls) reply c := by
  unfold DeniedItself at hd
  rw [not_or] at hd
  cases htier : effectiveTier ctx c.call with
  | yolo => exact .inl htier
  | readOnly =>
    refine .inr (.inl ⟨htier, fun hcls => hd.1 ?_⟩)
    simp [deniedByRunner, autoDenied, htier, hcls]
  | approval =>
    cases hgate : forcedGated ctx c.call || gatedByHook ctx c.call with
    | false =>
      rw [Bool.or_eq_false_iff] at hgate
      exact .inr (.inr (.inl ⟨htier, hgate⟩))
    | true =>
      have hhook : ctx.hook.isSome = true := by
        by_contra hnone
        refine hd.1 ?_
        simp [deniedByRunner, asks, htier, hgate, Option.isNone_iff_eq_none.mpr (by simpa using hnone)]
      rw [Bool.or_eq_true] at hgate
      have hmem : c ∈ handedCalls ctx (numberCalls calls) :=
        mem_handedCalls.mpr ⟨hc, handed_iff.mpr ⟨htier, hgate, hhook⟩⟩
      refine .inr (.inr (.inr ⟨htier, hgate, ?_⟩))
      rcases h with hnil | ⟨ds, rfl, hlen, hall⟩
      · rw [hnil] at hmem; cases hmem
      · obtain ⟨i, hi⟩ := List.mem_iff_getElem?.mp hmem
        have hlt : i < ds.length := hlen ▸ (List.getElem?_eq_some_iff.mp hi).1
        have hds : ds[i]? = some ds[i] := List.getElem?_eq_getElem hlt
        rcases hall ds[i] (List.getElem_mem hlt) with ha | ha
        · exact decides_iff.mpr ⟨i, hi, ha ▸ hds⟩
        · exact absurd (decides_iff.mpr ⟨i, hi, ha ▸ hds⟩) hd.2

theorem answersAll_of_permitted (hanswers : HookAnswers ctx (numberCalls calls) reply)
    (h : ∀ c ∈ numberCalls calls, ¬ DeniedItself ctx (numberCalls calls) reply c →
      Permitted ctx (numberCalls calls) reply c) : AnswersAll ctx (numberCalls calls) reply := by
  rcases hanswers with hnil | ⟨ds, rfl, hlen⟩
  · exact .inl hnil
  -- every call that was handed over has a decision, `deny` or `approve`
  have hdecided : ∀ c ∈ handedCalls ctx (numberCalls calls),
      Decides ctx (numberCalls calls) (.decisions ds) c .deny ∨
        Decides ctx (numberCalls calls) (.decisions ds) c .approve := by
    intro c hc
    obtain ⟨hmem, hhanded⟩ := mem_handedCalls.mp hc
    by_cases hdeny : Decides ctx (numberCalls calls) (.decisions ds) c .deny
    · exact .inl hdeny
    · refine .inr ((h c hmem ?_).approved hhanded)
      rintro (hrunner | hd)
      · rw [not_deniedByRunner_of_handed hhanded] at hrunner; cases hrunner
      · exact hdeny hd
  have hlen' : ds.length = (handedCalls ctx (numberCalls calls)).length := by
    by_contra hne
    have hlt : ds.length < (handedCalls ctx (numberCalls calls)).length := by omega
    have hnone : ∀ d, ¬ Decides ctx (numberCalls calls) (.decisions ds)
        (handedCalls ctx (numberCalls calls))[ds.length] d := by
      intro d hdec
      obtain ⟨i, hi, hd⟩ := decides_iff.mp hdec
      obtain ⟨hil, hieq⟩ := List.getElem?_eq_some_iff.mp hi
      have := (handedCalls_nodup ctx calls).getElem_inj_iff.mp hieq
      have := (List.getElem?_eq_some_iff.mp hd).1
      omega
    rcases hdecided _ (List.getElem_mem hlt) with hdec | hdec
    · exact hnone _ hdec
    · exact hnone _ hdec
  refine .inr ⟨ds, rfl, hlen', fun d hd => ?_⟩
  obtain ⟨i, hi⟩ := List.mem_iff_getElem?.mp hd
  have hlt : i < (handedCalls ctx (numberCalls calls)).length :=
    hlen' ▸ (List.getElem?_eq_some_iff.mp hi).1
  have hown := decides_iff.mpr ⟨i, List.getElem?_eq_getElem hlt, hi⟩
  rcases hdecided _ (List.getElem_mem hlt) with hdec | hdec
  · exact .inr (hown.unique hdec)
  · exact .inl (hown.unique hdec)

end

section
variable {deps : AgentRunnerDeps} {request : RunRequest} {env : TurnEnv} {calls : List ToolCall}
  {s : RunState}

/-- **Fail-closed gating.** In a batch with distinct ids every executed call is permitted,
exactly if the turn raises before it executes any call or the hook answers each call it was asked
about with `approve` or `deny`. -/
theorem executed_permitted_iff (hids : (calls.map ToolCall.id).Nodup) (hs : s.Synced) :
    (∀ c ∈ numberCalls calls,
      c.pos ∈ executedPositions (toolBatch deps request env calls s).log →
        Permitted (gateContext deps request env.registry) (numberCalls calls) env.hookReply c) ↔
      (Reaches deps request env calls →
        AnswersAll (gateContext deps request env.registry) (numberCalls calls) env.hookReply) := by
  constructor
  · intro h hreach
    refine answersAll_of_permitted hreach.answers fun c hc hd => h c hc ?_
    rw [executed_iff hs hc, idDenied_iff hids hc]
    exact ⟨hreach, hd⟩
  · intro h c hc hex
    rw [executed_iff hs hc, idDenied_iff hids hc] at hex
    exact permitted_of_answersAll (h hex.1) hc hex.2

end

/-- The hook answers `wait` for a gated call, and the call is executed. -/
theorem wait_decision_executes :
    0 ∈ executedPositions (toolBatch sampleDeps sampleRequest (sampleEnv (.decisions [.wait]))
        [sampleCall "call_0"] (RunState.start .empty 0 sampleRequest)).log ∧
      ¬ Permitted (gateContext sampleDeps sampleRequest (sampleEnv (.decisions [.wait])).registry)
        (numberCalls [sampleCall "call_0"]) (.decisions [.wait])
        { pos := 0, call := sampleCall "call_0" } := by
  refine ⟨by decide, fun h => ?_⟩
  obtain ⟨ds, hds, hmem⟩ := h.approved (by decide)
  cases hds
  revert hmem
  decide

theorem approved_call_permitted :
    Permitted (gateContext sampleDeps sampleRequest (sampleEnv (.decisions [.approve])).registry)
      (numberCalls [sampleCall "call_0"]) (.decisions [.approve])
      { pos := 0, call := sampleCall "call_0" } := by
  have hexecuted : 0 ∈ executedPositions (toolBatch sampleDeps sampleRequest
      (sampleEnv (.decisions [.approve])) [sampleCall "call_0"]
      (RunState.start .empty 0 sampleRequest)).log := by decide
  exact (executed_permitted_iff (by decide) (RunState.start_empty_synced _)).mpr
    (fun _ => .inr ⟨[.approve], rfl, by decide, by decide⟩) _ (by decide) hexecuted

/-! ## Fidelity of audits and events -/

/-- A list with distinct keys has one item with the key of `x`. -/
theorem filter_key_eq {α κ : Type} [DecidableEq κ] {key : α → κ} {xs : List α}
    (hnd : (xs.map key).Nodup) {x : α} (hx : x ∈ xs) :
    (xs.filter fun y => key y = key x) = [x] := by
  induction xs with
  | nil => cases hx
  | cons y ys ih =>
    rw [List.map_cons, List.nodup_cons] at hnd
    rcases List.mem_cons.mp hx with rfl | hx
    · have hrest : ys.filter (fun z => key z = key x) = [] := by
        rw [List.filter_eq_nil_iff]
        intro z hz hkey
        exact hnd.1 (of_decide_eq_true hkey ▸ List.mem_map_of_mem hz)
      simp [hrest]
    · have hne : key y ≠ key x := fun he => hnd.1 (he ▸ List.mem_map_of_mem hx)
      rw [List.filter_cons_of_neg (by simpa using hne), ih hnd.2 hx]

/-- Audits, executions and `ToolCallEnd` events of a batch agree with the decisions. -/
structure Faithful (ctx : GateContext) (batch : List BatchCall) (reply : HookReply)
    (l : List Item) : Prop where
  audited : ∀ c ∈ batch, handed ctx c.call = false →
    ∃ d, (auditVerdicts l).filter (fun a => a.1 = c.pos) = [(c.pos, d)] ∧
      (d = .approve ↔ c.pos ∈ executedPositions l)
  gated : ∀ c ∈ batch, asks ctx c.call = true →
    (c.pos ∈ executedPositions l ↔ Decides ctx batch reply c .approve)
  ended : (endedIds l).Perm (batch.map fun c => c.call.id)

/-- No call shares its id with a denied call without being denied itself. -/
def NoIdCapture (ctx : GateContext) (batch : List BatchCall) (reply : HookReply) : Prop :=
  ∀ c ∈ batch, ∀ c' ∈ batch, c.call.id = c'.call.id → DeniedItself ctx batch reply c' →
    DeniedItself ctx batch reply c

section
variable {ctx : GateContext} {json : JsonModule} {calls : List ToolCall} {reply : HookReply}

theorem audit_of_silent {l : List (Nat × AuditDecision)}
    (hl : l = (gateCalls ctx ((numberCalls calls).map (evaluated ctx json))).audits.map auditVerdict)
    {c : BatchCall} (hc : c ∈ numberCalls calls) (hh : handed ctx c.call = false) :
    l.filter (fun a => a.1 = c.pos) = [(c.pos, runnerDecision ctx c.call)] := by
  have hperm := (@gateCalls_audits ctx json (numberCalls calls)).filter fun a => decide (a.1 = c.pos)
  rw [← hl] at hperm
  have hmem : c ∈ (numberCalls calls).filter fun c => !handed ctx c.call :=
    List.mem_filter.mpr ⟨hc, by simp [hh]⟩
  have hnd : (((numberCalls calls).filter fun c => !handed ctx c.call).map BatchCall.pos).Nodup :=
    (List.Nodup.sublist (List.filter_sublist.map _) (numberCalls_pos_nodup calls))
  rw [List.filter_map] at hperm
  have hone := filter_key_eq hnd hmem
  have hcomp : ((fun a : Nat × AuditDecision => decide (a.1 = c.pos)) ∘
      fun c : BatchCall => (c.pos, runnerDecision ctx c.call)) =
      fun y : BatchCall => decide (y.pos = c.pos) := rfl
  rw [hcomp, hone] at hperm
  exact List.perm_singleton.mp hperm

theorem decides_or {c : BatchCall} (h : AnswersAll ctx (numberCalls calls) reply)
    (hc : c ∈ handedCalls ctx (numberCalls calls)) :
    Decides ctx (numberCalls calls) reply c .approve ∨
      Decides ctx (numberCalls calls) reply c .deny := by
  rcases h with hnil | ⟨ds, rfl, hlen, hall⟩
  · rw [hnil] at hc; cases hc
  · obtain ⟨i, hi⟩ := List.mem_iff_getElem?.mp hc
    have hlt : i < ds.length := hlen ▸ (List.getElem?_eq_some_iff.mp hi).1
    have hds : ds[i]? = some ds[i] := List.getElem?_eq_getElem hlt
    rcases hall ds[i] (List.getElem_mem hlt) with ha | ha
    · exact .inl (decides_iff.mpr ⟨i, hi, ha ▸ hds⟩)
    · exact .inr (decides_iff.mpr ⟨i, hi, ha ▸ hds⟩)

theorem Decides.handed {batch : List BatchCall} {c : BatchCall} {d : ApprovalDecision}
    (h : Decides ctx batch reply c d) : handed ctx c.call = true := by
  obtain ⟨ds, -, hmem⟩ := h
  exact (mem_handedCalls.mp (List.of_mem_zip hmem).1).2

/-- A call handed to the hook is denied exactly when its decision is not `approve`. -/
theorem deniedItself_iff_of_handed {c : BatchCall} (h : AnswersAll ctx (numberCalls calls) reply)
    (hc : c ∈ numberCalls calls) (hh : PyClaw.handed ctx c.call = true) :
    DeniedItself ctx (numberCalls calls) reply c ↔
      ¬ Decides ctx (numberCalls calls) reply c .approve := by
  constructor
  · rintro (hr | hd) ha
    · rw [not_deniedByRunner_of_handed hh] at hr; cases hr
    · cases hd.unique ha
  · intro hna
    rcases decides_or h (mem_handedCalls.mpr ⟨hc, hh⟩) with ha | hd
    · exact absurd ha hna
    · exact .inr hd

theorem deniedItself_iff_of_silent {batch : List BatchCall} {c : BatchCall}
    (hh : PyClaw.handed ctx c.call = false) :
    DeniedItself ctx batch reply c ↔ runnerDecision ctx c.call ≠ .approve := by
  have hno : ¬ Decides ctx batch reply c .deny := fun hd => by rw [hd.handed] at hh; cases hh
  unfold DeniedItself runnerDecision
  cases deniedByRunner ctx c.call <;> simp [hno]

/-- A call that asks while no hook is configured is denied by the runner. -/
theorem deniedByRunner_of_asks {call : ToolCall} (ha : asks ctx call = true)
    (hh : PyClaw.handed ctx call = false) : deniedByRunner ctx call = true := by
  unfold PyClaw.handed at hh
  rw [ha, Bool.true_and] at hh
  simp [deniedByRunner, ha, Option.isNone_iff_eq_none.mpr (by simpa using hh)]

end

section
variable {deps : AgentRunnerDeps} {request : RunRequest} {env : TurnEnv} {calls : List ToolCall}
  {buffer : Dict Int ToolCallSlot} {s : RunState}

theorem idDenied_iff_of_noIdCapture
    (h : NoIdCapture (gateContext deps request env.registry) (numberCalls calls) env.hookReply)
    {c : BatchCall} (hc : c ∈ numberCalls calls) :
    IdDenied deps request env calls c ↔ DeniedItself (gateContext deps request env.registry)
      (numberCalls calls) env.hookReply c :=
  ⟨fun ⟨c', hc', hd, hid⟩ => h c hc c' hc' hid.symm hd, fun hd => ⟨c, hc, hd, rfl⟩⟩

/-- With one answer for each gated call, executions follow the calls' own verdicts only if no
denial captures another call's id. -/
theorem Faithful.noIdCapture (hs : s.Synced)
    (hdec : AnswersAll (gateContext deps request env.registry) (numberCalls calls) env.hookReply)
    (h : Faithful (gateContext deps request env.registry) (numberCalls calls) env.hookReply
      (toolBatch deps request env calls s).log)
    (haudits : auditVerdicts (toolBatch deps request env calls s).log =
      (gateCalls (gateContext deps request env.registry) ((numberCalls calls).map
        (evaluated (gateContext deps request env.registry) deps.json))).audits.map auditVerdict) :
    NoIdCapture (gateContext deps request env.registry) (numberCalls calls) env.hookReply := by
  intro c hc c' hc' hid hd'
  by_contra hd
  have hnot : c.pos ∉ executedPositions (toolBatch deps request env calls s).log := by
    rw [executed_iff hs hc]
    exact fun hex => hex.2 ⟨c', hc', hd', hid.symm⟩
  cases hh : handed (gateContext deps request env.registry) c.call with
  | true =>
    have hasks : asks (gateContext deps request env.registry) c.call = true := by
      simp only [handed, Bool.and_eq_true] at hh
      exact hh.1
    rw [deniedItself_iff_of_handed hdec hc hh, not_not] at hd
    exact hnot ((h.gated c hc hasks).mpr hd)
  | false =>
    obtain ⟨d, hfilter, hiff⟩ := h.audited c hc hh
    rw [audit_of_silent haudits hc hh] at hfilter
    obtain rfl : runnerDecision (gateContext deps request env.registry) c.call = d := by
      simpa using hfilter
    rw [deniedItself_iff_of_silent hh, not_not] at hd
    exact hnot (hiff.mp hd)

theorem length_denied_add_remaining (denied : Dict String String) :
    (deniedCalls calls denied).length + (remainingCalls calls denied).length =
      (numberCalls calls).length := by
  rw [← List.length_append]
  exact (List.filter_append_perm _ _).length_eq

/-- **Fidelity of a batch.** With one `approve` or `deny` for each gated call, the audits, the
executions and the `ToolCallEnd` events agree with the decisions exactly if all arguments are
objects or no JSON, no executed tool raises past `except Exception`, and no call shares its id
with a denied call without being denied itself. -/
theorem faithful_iff (hcalls : finalizeToolCalls deps.json buffer = .ok calls) (hs : s.Synced)
    (hdec : AnswersAll (gateContext deps request env.registry) (numberCalls calls) env.hookReply) :
    Faithful (gateContext deps request env.registry) (numberCalls calls) env.hookReply
        (toolBatch deps request env calls s).log ↔
      (∀ c ∈ calls, ObjectArguments deps.json c.arguments) ∧
      (∀ c ∈ numberCalls calls,
        ¬ DeniedItself (gateContext deps request env.registry) (numberCalls calls) env.hookReply c →
          ¬ Bursts env.registry c.call (env.outcome c.pos)) ∧
      NoIdCapture (gateContext deps request env.registry) (numberCalls calls) env.hookReply := by
  constructor
  · intro h
    rcases @toolBatch_log deps request env calls s hs with ⟨hno, -, hend⟩ |
        ⟨hreach, denied, htable, hex, hau, ⟨hdispatch, -⟩ | ⟨⟨c, hc, -⟩, hend⟩⟩
    · -- a turn that raises early ends no call, so there was none
      have hlen := h.ended.length_eq
      have hnil : calls = [] := by
        rw [hend, List.length_map, numberCalls, List.length_map, List.length_zipIdx] at hlen
        exact List.length_eq_zero_iff.mp hlen.symm
      subst hnil
      exact absurd ⟨fun c hc => absurd hc List.not_mem_nil, .inl rfl⟩ hno
    · have hcapture := h.noIdCapture hs hdec hau
      refine ⟨hreach.arguments, fun c hc hd => ?_, hcapture⟩
      rw [← dispatches_iff hcalls hc]
      refine hdispatch c ((mem_remainingCalls htable).mpr ⟨hc, ?_⟩)
      rwa [idDenied_iff_of_noIdCapture hcapture hc]
    · have hlen := h.ended.length_eq
      have hsum := @length_denied_add_remaining calls denied
      have hpos := List.length_pos_of_mem hc
      rw [hend, List.length_map, List.length_map] at hlen
      omega
  · rintro ⟨hargs, hburst, hcapture⟩
    have hanswers : HookAnswers (gateContext deps request env.registry) (numberCalls calls)
        env.hookReply := by
      rcases hdec with hnil | ⟨ds, hds, hlen, -⟩
      · exact .inl hnil
      · exact .inr ⟨ds, hds, hlen.le⟩
    have hreach : Reaches deps request env calls := ⟨hargs, hanswers⟩
    have hex : ∀ c ∈ numberCalls calls,
        (c.pos ∈ executedPositions (toolBatch deps request env calls s).log ↔
          ¬ DeniedItself (gateContext deps request env.registry) (numberCalls calls)
            env.hookReply c) := by
      intro c hc
      rw [executed_iff hs hc, idDenied_iff_of_noIdCapture hcapture hc]
      exact and_iff_right hreach
    rcases @toolBatch_log deps request env calls s hs with ⟨hno, -⟩ |
        ⟨-, denied, htable, -, hau, ⟨-, hend⟩ | ⟨⟨c, hc, hbad⟩, -⟩⟩
    · exact absurd hreach hno
    · refine ⟨fun c hc hh => ⟨_, audit_of_silent hau hc hh, ?_⟩, fun c hc ha => ?_, ?_⟩
      · rw [hex c hc, deniedItself_iff_of_silent hh, not_not]
      · rw [hex c hc]
        cases hh : handed (gateContext deps request env.registry) c.call with
        | true => rw [deniedItself_iff_of_handed hdec hc hh, not_not]
        | false =>
          constructor
          · exact fun hd => absurd (.inl (deniedByRunner_of_asks ha hh)) hd
          · intro happrove
            rw [happrove.handed] at hh
            cases hh
      · rw [hend]
        exact (List.filter_append_perm _ _).map _
    · obtain ⟨hmem, hnot⟩ := (mem_remainingCalls htable).mp hc
      rw [idDenied_iff_of_noIdCapture hcapture hmem] at hnot
      rw [dispatches_iff hcalls hmem] at hbad
      exact absurd (hburst c hmem hnot) hbad

end

/-- The first call's own id is the fallback id of the second. -/
def collidingBuffer : Dict Int ToolCallSlot :=
  mergeToolCallDeltas Dict.empty
    [{ index := 0, id := some "call_1", name := some "bash", arguments := "\x7b\x7d" },
     { index := 1, name := some "bash", arguments := "\x7b\x7d" }]

/-- The hook denies the first call and approves the second, and neither is executed. -/
theorem denial_captures_approved_call :
    finalizeToolCalls .brackets collidingBuffer = .ok [sampleCall "call_1", sampleCall "call_1"] ∧
      AnswersAll
        (gateContext sampleDeps sampleRequest (sampleEnv (.decisions [.deny, .approve])).registry)
        (numberCalls [sampleCall "call_1", sampleCall "call_1"]) (.decisions [.deny, .approve]) ∧
      ¬ Faithful
        (gateContext sampleDeps sampleRequest (sampleEnv (.decisions [.deny, .approve])).registry)
        (numberCalls [sampleCall "call_1", sampleCall "call_1"]) (.decisions [.deny, .approve])
        (toolBatch sampleDeps sampleRequest (sampleEnv (.decisions [.deny, .approve]))
          [sampleCall "call_1", sampleCall "call_1"]
          (RunState.start .empty 0 sampleRequest)).log := by
  refine ⟨by decide, .inr ⟨[.deny, .approve], rfl, by decide, by decide⟩, fun h => ?_⟩
  have hgated := h.gated { pos := 1, call := sampleCall "call_1" } (by decide) (by decide)
  have hexecuted := hgated.mpr (decides_iff.mpr ⟨1, by decide, by decide⟩)
  revert hexecuted
  decide

theorem faithful_distinct_ids :
    Faithful
      (gateContext sampleDeps sampleRequest (sampleEnv (.decisions [.approve])).registry)
      (numberCalls [sampleCall "call_0"]) (.decisions [.approve])
      (toolBatch sampleDeps sampleRequest (sampleEnv (.decisions [.approve]))
        [sampleCall "call_0"] (RunState.start .empty 0 sampleRequest)).log := by
  refine (@faithful_iff _ _ _ _ (mergeToolCallDeltas Dict.empty
    [{ index := 0, name := some "bash", arguments := "\x7b\x7d" }]) _ (by decide)
    (RunState.start_empty_synced _)
    (.inr ⟨[.approve], rfl, by decide, by decide⟩)).mpr ⟨by decide, fun c _ _ hburst => ?_, ?_⟩
  · cases hburst.2
  · intro c hc c' hc' _ hd
    have hsame : c = c' := by
      rw [List.mem_singleton.mp hc, List.mem_singleton.mp hc']
    rwa [hsame]

end PyClaw
