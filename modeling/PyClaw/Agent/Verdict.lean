import PyClaw.Agent.Gate

/-!
# Agent.Verdict

What the gating of a batch amounts to, call by call: which calls are handed to the approval hook,
which ones the runner denies by itself, and which ones are denied in the end.

* `gateCalls_gated`, `gateCalls_denied`, `gateCalls_audits`: the gating loop computes this.
* `applyDecisions_ok_iff`: the hook's decisions act on the calls at their own positions.
-/

namespace PyClaw

/-! ## Verdicts -/

def moreRestrictive (a b : PermissionTier) : PermissionTier := if a.rank < b.rank then b else a

section
variable (ctx : GateContext)

def effectiveTier (call : ToolCall) : PermissionTier :=
  match forcedTierOf ctx call with
  | some forced => moreRestrictive ctx.perTurnTier forced
  | none => ctx.perTurnTier

/-- The tool's forced tier is what restricts the call. -/
def forcedGated (call : ToolCall) : Bool :=
  match forcedTierOf ctx call with
  | some forced => ctx.perTurnTier.rank < forced.rank
  | none => false

def gatedByHook (call : ToolCall) : Bool :=
  match ctx.hook with
  | some hook => hook.gates (canonicalNameOf ctx call)
  | none => false

/-- The call needs an approval. -/
def asks (call : ToolCall) : Bool :=
  effectiveTier ctx call = .approval && (forcedGated ctx call || gatedByHook ctx call)

/-- The call is handed to the approval hook. -/
def handed (call : ToolCall) : Bool := asks ctx call && ctx.hook.isSome

def autoDenied (call : ToolCall) : Bool :=
  effectiveTier ctx call = .readOnly && toolClassOf ctx call = "write"

def deniedByRunner (call : ToolCall) : Bool :=
  autoDenied ctx call || (asks ctx call && ctx.hook.isNone)

def runnerDecision (call : ToolCall) : AuditDecision :=
  if deniedByRunner ctx call then .deny else .approve

/-- The calls handed to the hook, in the order in which it sees them. -/
def handedCalls (batch : List BatchCall) : List BatchCall := batch.filter fun c => handed ctx c.call

/-- The hook's decision at the call's own position is `d`. -/
def Decides (batch : List BatchCall) (reply : HookReply) (c : BatchCall) (d : ApprovalDecision) :
    Prop :=
  ∃ ds, reply = .decisions ds ∧ (c, d) ∈ (handedCalls ctx batch).zip ds

/-- The verdict on the call itself, whatever ids other calls have. -/
def DeniedItself (batch : List BatchCall) (reply : HookReply) (c : BatchCall) : Prop :=
  deniedByRunner ctx c.call = true ∨ Decides ctx batch reply c .deny

end

/-! ## The gating loop -/

section
variable {ctx : GateContext} {json : JsonModule} {c : BatchCall} {g : Gating}

/-- A call is evaluated in one of two ways: its tool's forced tier restricts it, or not. -/
theorem evaluated_cases (ctx : GateContext) (json : JsonModule) (c : BatchCall) :
    (forcedGated ctx c.call = true ∧ evaluated ctx json c =
      { toBatchCall := c, args := argsOf json c.call, canonicalName := canonicalNameOf ctx c.call,
        tier := effectiveTier ctx c.call, tierSource := .forcedByServerConfig,
        forcedServer := (ctx.registry.get c.call.name).bind Tool.serverName }) ∨
    (forcedGated ctx c.call = false ∧ evaluated ctx json c =
      { toBatchCall := c, args := argsOf json c.call, canonicalName := canonicalNameOf ctx c.call,
        tier := effectiveTier ctx c.call, tierSource := ctx.perTurnSource, forcedServer := none }) := by
  unfold evaluated evaluateCall forcedGated effectiveTier moreRestrictive
  cases hf : forcedTierOf ctx c.call with
  | none => exact .inr ⟨rfl, rfl⟩
  | some forced =>
    by_cases hlt : ctx.perTurnTier.rank < forced.rank
    · exact .inl (by simp [hlt])
    · exact .inr (by simp [hlt])

@[simp] theorem evaluated_batchCall : (evaluated ctx json c).toBatchCall = c := by
  rcases evaluated_cases ctx json c with ⟨-, h⟩ | ⟨-, h⟩ <;> rw [h]

@[simp] theorem evaluated_canonicalName :
    (evaluated ctx json c).canonicalName = canonicalNameOf ctx c.call := by
  rcases evaluated_cases ctx json c with ⟨-, h⟩ | ⟨-, h⟩ <;> rw [h]

theorem evaluated_tier : (evaluated ctx json c).tier = effectiveTier ctx c.call := by
  rcases evaluated_cases ctx json c with ⟨-, h⟩ | ⟨-, h⟩ <;> rw [h]

theorem evaluated_forced :
    (evaluated ctx json c).tierSource = .forcedByServerConfig ↔ forcedGated ctx c.call = true := by
  rcases evaluated_cases ctx json c with ⟨hf, h⟩ | ⟨hf, h⟩
  · simp [h, hf]
  · simp [h, hf, ctx.notForced]

theorem asks_eq_false_of_autoDenied {call : ToolCall} (h : autoDenied ctx call = true) :
    asks ctx call = false := by
  unfold autoDenied at h
  unfold asks
  have htier : effectiveTier ctx call = .readOnly := by
    simpa using (Bool.and_eq_true_iff.mp h).1
  simp [htier]

/-- Position and decision of an audit record. -/
def auditVerdict (a : Nat × AuditRecord) : Nat × AuditDecision := (a.1, a.2.decision)

/-- Everything one turn of the gating loop can do. -/
theorem gateCall_cases :
    (asks ctx c.call = true ∧ gateCall ctx g (evaluated ctx json c) = g.gate (evaluated ctx json c)) ∨
    (asks ctx c.call = false ∧ autoDenied ctx c.call = true ∧ ∃ reason decidedBy,
      gateCall ctx g (evaluated ctx json c) =
        (g.deny (evaluated ctx json c) reason).audit ctx (evaluated ctx json c)
          (evaluated ctx json c).tier .deny decidedBy) ∨
    (asks ctx c.call = false ∧ autoDenied ctx c.call = false ∧ ∃ decidedBy,
      gateCall ctx g (evaluated ctx json c) =
        g.audit ctx (evaluated ctx json c) (evaluated ctx json c).tier .approve decidedBy) := by
  have htier := @evaluated_tier ctx json c
  have hforced := @evaluated_forced ctx json c
  unfold gateCall asks autoDenied
  rw [evaluated_canonicalName, evaluated_batchCall]
  split
  · rename_i h
    rw [htier] at h
    exact .inr (.inr ⟨by simp [h], by simp [h], _, rfl⟩)
  · rename_i h
    rw [htier] at h
    split
    · rename_i hcls
      exact .inr (.inl ⟨by simp [h], by simp [h, hcls], _, _, rfl⟩)
    · rename_i hcls
      exact .inr (.inr ⟨by simp [h], by simp [h, hcls], _, rfl⟩)
  · rename_i h
    rw [htier] at h
    split
    · rename_i hf
      exact .inl ⟨by simp [h, hforced.mp hf], rfl⟩
    · rename_i hf
      have hf' : forcedGated ctx c.call = false := by
        rw [← Bool.not_eq_true, ← hforced]
        exact hf
      unfold gatedByHook
      cases ctx.hook with
      | none => exact .inr (.inr ⟨by simp [h, hf'], by simp [h], _, rfl⟩)
      | some hook =>
        dsimp only
        split
        · rename_i hgate
          exact .inl ⟨by simp [h, hgate], rfl⟩
        · rename_i hgate
          exact .inr (.inr ⟨by simp [h, hf', hgate], by simp [h], _, rfl⟩)

/-- What the gating loop has done to `g` after the calls `cs`. -/
structure Gated (ctx : GateContext) (json : JsonModule) (g : Gating) (cs : List BatchCall)
    (g' : Gating) : Prop where
  gated : g'.gated = g.gated ++ (cs.filter fun c => asks ctx c.call).map (evaluated ctx json)
  denied : ∀ k, k ∈ g'.denied.keys ↔
    k ∈ g.denied.keys ∨ ∃ c ∈ cs, autoDenied ctx c.call = true ∧ c.call.id = k
  audits : g'.audits.map auditVerdict = g.audits.map auditVerdict ++
    (cs.filter fun c => !asks ctx c.call).map fun c =>
      (c.pos, if autoDenied ctx c.call then .deny else .approve)

theorem Gated.step (ctx : GateContext) (json : JsonModule) (g : Gating) (c : BatchCall) :
    Gated ctx json g [c] (gateCall ctx g (evaluated ctx json c)) := by
  rcases @gateCall_cases ctx json c g with ⟨ha, h⟩ | ⟨ha, hd, reason, decidedBy, h⟩ |
      ⟨ha, hd, decidedBy, h⟩
  · have hd : autoDenied ctx c.call = false := by
      by_contra hd
      rw [asks_eq_false_of_autoDenied (by simpa using hd)] at ha
      cases ha
    rw [h]
    exact ⟨by simp [Gating.gate, ha], by simp [Gating.gate, hd], by simp [Gating.gate, ha]⟩
  · rw [h]
    refine ⟨by simp [Gating.audit, Gating.deny, ha], fun k => ?_, ?_⟩
    · simp only [Gating.audit, Gating.deny, Dict.mem_keys_set, evaluated_batchCall]
      constructor
      · rintro (rfl | hk)
        · exact .inr ⟨c, List.mem_singleton_self c, hd, rfl⟩
        · exact .inl hk
      · rintro (hk | ⟨c', hc', -, rfl⟩)
        · exact .inr hk
        · rw [List.mem_singleton.mp hc']
          exact .inl rfl
    · simp [Gating.audit, Gating.deny, ha, hd, auditVerdict, auditRecord]
  · rw [h]
    refine ⟨by simp [Gating.audit, ha], by simp [Gating.audit, hd], ?_⟩
    simp [Gating.audit, ha, hd, auditVerdict, auditRecord]

theorem Gated.trans {g₁ g₂ g₃ : Gating} {cs cs' : List BatchCall} (h : Gated ctx json g₁ cs g₂)
    (h' : Gated ctx json g₂ cs' g₃) : Gated ctx json g₁ (cs ++ cs') g₃ where
  gated := by rw [h'.gated, h.gated]; simp
  denied := fun k => by
    rw [h'.denied, h.denied]
    simp [or_and_right, exists_or, or_assoc]
  audits := by rw [h'.audits, h.audits]; simp

theorem gated_foldl (cs : List BatchCall) (g : Gating) :
    Gated ctx json g cs ((cs.map (evaluated ctx json)).foldl (gateCall ctx) g) := by
  induction cs generalizing g with
  | nil => exact ⟨by simp, by simp, by simp⟩
  | cons c cs ih => exact (Gated.step ctx json g c).trans (ih _)

/-- The loop that denies the gated calls where no hook is configured. -/
theorem denyAll_foldl (es : List EvaluatedCall) (g : Gating) :
    let g' := es.foldl (fun g e =>
      (g.deny e (noHookDenial e.canonicalName)).audit ctx e .approval .deny "auto:no-hook") g
    g'.gated = g.gated ∧
      (∀ k, k ∈ g'.denied.keys ↔ k ∈ g.denied.keys ∨ ∃ e ∈ es, e.call.id = k) ∧
      g'.audits.map auditVerdict =
        g.audits.map auditVerdict ++ es.map fun e => (e.pos, AuditDecision.deny) := by
  induction es generalizing g with
  | nil => simp
  | cons e es ih =>
    obtain ⟨hg, hd, ha⟩ := ih ((g.deny e (noHookDenial e.canonicalName)).audit ctx e .approval .deny
      "auto:no-hook")
    refine ⟨hg, fun k => ?_, ?_⟩
    · rw [List.foldl_cons, hd]
      simp [Gating.audit, Gating.deny, Dict.mem_keys_set, eq_comm, or_assoc, or_left_comm]
    · rw [List.foldl_cons, ha]
      simp [Gating.audit, Gating.deny, auditVerdict, auditRecord]

/-! ## Verdicts of the runner -/

variable {batch : List BatchCall}

theorem gateCalls_gated (hhook : ctx.hook.isSome = true) :
    (gateCalls ctx (batch.map (evaluated ctx json))).gated =
      (handedCalls ctx batch).map (evaluated ctx json) := by
  obtain ⟨hook, hhook⟩ := Option.isSome_iff_exists.mp hhook
  unfold gateCalls denyUnhooked
  rw [hhook]
  dsimp only
  rw [(gated_foldl batch {}).gated]
  simp [handedCalls, handed, hhook]

theorem gateCalls_denied (k : String) :
    k ∈ (gateCalls ctx (batch.map (evaluated ctx json))).denied.keys ↔
      ∃ c ∈ batch, deniedByRunner ctx c.call = true ∧ c.call.id = k := by
  have hloop := @gated_foldl ctx json batch {}
  unfold gateCalls denyUnhooked deniedByRunner
  cases ctx.hook with
  | some hook =>
    dsimp only
    rw [hloop.denied]
    simp
  | none =>
    dsimp only
    rw [(denyAll_foldl _ _).2.1, hloop.denied, hloop.gated]
    simp only [Dict.keys_empty, List.not_mem_nil, false_or, List.nil_append, List.mem_map,
      List.mem_filter, Option.isNone_none, Bool.and_true, Bool.or_eq_true]
    constructor
    · rintro (⟨c, hc, hd, rfl⟩ | ⟨e, ⟨c, ⟨hc, ha⟩, rfl⟩, rfl⟩)
      · exact ⟨c, hc, .inl hd, rfl⟩
      · exact ⟨c, hc, .inr ha, by rw [evaluated_batchCall]⟩
    · rintro ⟨c, hc, hd | ha, rfl⟩
      · exact .inl ⟨c, hc, hd, rfl⟩
      · exact .inr ⟨_, ⟨c, ⟨hc, ha⟩, rfl⟩, by rw [evaluated_batchCall]⟩

/-- Every call that is not handed to the hook has one audit record with the runner's decision. -/
theorem gateCalls_audits :
    ((gateCalls ctx (batch.map (evaluated ctx json))).audits.map auditVerdict).Perm
      ((batch.filter fun c => !handed ctx c.call).map fun c =>
        (c.pos, runnerDecision ctx c.call)) := by
  have hloop := @gated_foldl ctx json batch {}
  unfold gateCalls denyUnhooked runnerDecision deniedByRunner handed
  cases ctx.hook with
  | some hook =>
    dsimp only
    rw [hloop.audits]
    simp
  | none =>
    dsimp only
    rw [(denyAll_foldl _ _).2.2, hloop.audits, hloop.gated]
    let verdict : BatchCall → Nat × AuditDecision := fun c =>
      (c.pos, if autoDenied ctx c.call || asks ctx c.call then .deny else .approve)
    have hsilent : ((batch.filter fun c => !asks ctx c.call).map fun c =>
        (c.pos, if autoDenied ctx c.call = true then AuditDecision.deny else .approve)) =
        (batch.filter fun c => !asks ctx c.call).map verdict := by
      refine List.map_congr_left fun c hc => ?_
      have ha : asks ctx c.call = false := by simpa using (List.mem_filter.mp hc).2
      simp [verdict, ha]
    have hasking : (((batch.filter fun c => asks ctx c.call).map (evaluated ctx json)).map fun e =>
        (e.pos, AuditDecision.deny)) = (batch.filter fun c => asks ctx c.call).map verdict := by
      rw [List.map_map]
      refine List.map_congr_left fun c hc => ?_
      simp [verdict, (List.mem_filter.mp hc).2]
    simp only [List.map_nil, List.nil_append, hsilent, hasking, Option.isSome_none, Bool.and_false,
      Bool.not_false, List.filter_true, Option.isNone_none, Bool.and_true]
    rw [← List.map_append]
    exact (List.perm_append_comm.trans
      (List.filter_append_perm (fun c : BatchCall => asks ctx c.call) batch)).map verdict

/-! ## The hook's decisions -/

theorem applyDecisions_ok_iff {gated : List EvaluatedCall} {ds : List ApprovalDecision}
    {denied : Dict String String} :
    (∃ denied', applyDecisions gated ds denied = .ok denied') ↔ ds.length ≤ gated.length := by
  induction gated generalizing ds denied with
  | nil => cases ds <;> simp [applyDecisions]
  | cons e gated ih =>
    cases ds with
    | nil => simp [applyDecisions]
    | cons d ds => simp [applyDecisions, ih]

theorem applyDecisions_keys {gated : List EvaluatedCall} {ds : List ApprovalDecision}
    {denied denied' : Dict String String} (h : applyDecisions gated ds denied = .ok denied')
    (k : String) :
    k ∈ denied'.keys ↔
      k ∈ denied.keys ∨ ∃ e, (e, ApprovalDecision.deny) ∈ gated.zip ds ∧ e.call.id = k := by
  induction gated generalizing ds denied with
  | nil =>
    cases ds with
    | nil => cases h; simp
    | cons d ds => cases h
  | cons e gated ih =>
    cases ds with
    | nil => cases h; simp
    | cons d ds =>
      rw [ih h]
      by_cases hd : d = .deny
      · subst hd
        simp only [if_true, Dict.mem_keys_set, List.zip_cons_cons, List.mem_cons, Prod.mk.injEq]
        constructor
        · rintro ((rfl | hk) | ⟨e', he', rfl⟩)
          · exact .inr ⟨e, .inl ⟨rfl, trivial⟩, rfl⟩
          · exact .inl hk
          · exact .inr ⟨e', .inr he', rfl⟩
        · rintro (hk | ⟨e', ⟨rfl, -⟩ | he', rfl⟩)
          · exact .inl (.inr hk)
          · exact .inl (.inl rfl)
          · exact .inr ⟨e', he', rfl⟩
      · have hne : (ApprovalDecision.deny = d) = False := by simp [Ne.symm hd]
        simp [hd, hne]

/-- The ids in `denied_ids` are those of the calls that are denied themselves. -/
theorem applyDecisions_denied {ds : List ApprovalDecision} {denied : Dict String String}
    (hhook : ctx.hook.isSome = true)
    (h : applyDecisions (gateCalls ctx (batch.map (evaluated ctx json))).gated ds
      (gateCalls ctx (batch.map (evaluated ctx json))).denied = .ok denied) (k : String) :
    k ∈ denied.keys ↔
      ∃ c ∈ batch, DeniedItself ctx batch (.decisions ds) c ∧ c.call.id = k := by
  rw [applyDecisions_keys h, gateCalls_denied, gateCalls_gated hhook]
  constructor
  · rintro (⟨c, hc, hd, rfl⟩ | ⟨e, he, rfl⟩)
    · exact ⟨c, hc, .inl hd, rfl⟩
    · rw [List.zip_map_left, List.mem_map] at he
      obtain ⟨⟨c, d⟩, hcd, heq⟩ := he
      obtain ⟨rfl, rfl⟩ := Prod.mk.inj heq
      rw [evaluated_batchCall]
      refine ⟨c, ?_, .inr ⟨ds, rfl, hcd⟩, rfl⟩
      exact List.mem_of_mem_filter (List.of_mem_zip hcd).1
  · rintro ⟨c, hc, hd | ⟨ds', hds, hcd⟩, rfl⟩
    · exact .inl ⟨c, hc, hd, rfl⟩
    · cases hds
      refine .inr ⟨evaluated ctx json c, ?_, by rw [evaluated_batchCall]⟩
      rw [List.zip_map_left]
      exact List.mem_map_of_mem (f := Prod.map (evaluated ctx json) id) hcd

end

end PyClaw
