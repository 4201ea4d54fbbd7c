import PyClaw.Agent.BatchLog
import PyClaw.Agent.Invariant
import PyClaw.Session.Pairing

/-!
# Agent.Pairing

The transcript of a run. Where each response with tool calls passes the detector and all its calls
are answered (`CompleteTurn`), and nothing is compacted, every context of the run and the one it
leaves behind is well paired (`runAgentStream_paired`), whichever way the run ends by itself. A run
that is ended from outside must not be among the tool messages of a turn (`RunEnding.OutsideTools`):
the invariant is about every cut of the log (`Cuts`).
-/

namespace PyClaw

open Prog

/-- The response makes no tool call, or all its calls are answered. -/
def CompleteTurn (deps : AgentRunnerDeps) (request : RunRequest) (turn : Turn) : Prop :=
  ∀ calls, finalizeToolCalls deps.json turn.buffer = .ok calls → calls ≠ [] →
    (updateToolLoopState calls turn.registry turn.detector
      deps.config.retry.unknownToolThreshold).2 = .proceed ∧
    Answered deps request turn.toTurnEnv calls

def Item.isCompaction : Item → Bool
  | .appended e _ _ => e.isCompaction
  | _ => false

def Item.responded? : Item → Option Turn
  | .responded turn => some turn
  | _ => none

/-- Every response is complete, and nothing was compacted. -/
def CompleteLog (deps : AgentRunnerDeps) (request : RunRequest) (l : List Item) : Prop :=
  (∀ turn, .responded turn ∈ l → CompleteTurn deps request turn) ∧
    ∀ i ∈ l, i.isCompaction = false

/-- The next entry that is appended is a tool message. -/
def toolNext : List Item → Bool
  | [] => false
  | .appended e _ _ :: _ => e.isTool
  | _ :: l => toolNext l

/-- The run is not ended from outside where its next entry is a tool message, nor in the append of
one. -/
def RunEnding.OutsideTools (l : List Item) : RunEnding → Prop
  | .byItself => True
  | .after k => toolNext (l.drop k) = false
  | .inAppend k => toolNext (l.drop k) = false ∧ toolNext (l.drop (k + 1)) = false

instance (l : List Item) (ending : RunEnding) : Decidable (ending.OutsideTools l) :=
  match ending with
  | .byItself => .isTrue trivial
  | .after _ => inferInstanceAs (Decidable (_ = _))
  | .inAppend _ => inferInstanceAs (Decidable (_ ∧ _))

/-- The context of the tree is well paired. -/
def SessionTree.PairsUp (py : PyText) (tree : SessionTree) : Prop :=
  ∃ c, tree.buildSessionContext py = some c ∧ WellPaired c

/-- The contexts of the iterations, the one that the run leaves in its tree and the one that it
leaves in the store are well paired. -/
structure RunRest.Paired (py : PyText) (r : RunRest) : Prop where
  logged : ∀ c, .context c ∈ r.log → WellPaired c
  tree : r.tree.PairsUp py
  stored : ∃ tree, r.stored = some tree ∧ tree.PairsUp py

/-! ## Cut logs -/

section
variable {deps : AgentRunnerDeps} {request : RunRequest} {l l' : List Item} {t₀ : SessionTree}
  {i : Item}

theorem CompleteLog.left (h : CompleteLog deps request (l ++ l')) : CompleteLog deps request l :=
  ⟨fun turn hmem => h.1 turn (List.mem_append_left l' hmem),
    fun i hi => h.2 i (List.mem_append_left l' hi)⟩

theorem CompleteLog.take (h : CompleteLog deps request l) (k : Nat) :
    CompleteLog deps request (l.take k) := by
  rw [← List.take_append_drop k l] at h
  exact h.left

/-- Only contexts matter among the items that are added. -/
theorem logged_append (h : ∀ c, .context c ∈ l → WellPaired c)
    (h' : ∀ i ∈ l', i.isContext = false) : ∀ c, .context c ∈ l ++ l' → WellPaired c := by
  intro c hmem
  rcases List.mem_append.mp hmem with hmem | hmem
  · exact h c hmem
  · cases h' _ hmem

theorem toolNext_left (h : toolNext (l ++ l') = false) : toolNext l = false := by
  induction l with
  | nil => rfl
  | cons i l ih =>
    cases i with
    | appended e tree stored => exact h
    | _ => exact ih h

/-- Where only tool messages are appended, but not next, nothing is appended. -/
theorem not_appended_of_toolNext (hquiet : ∀ i ∈ l, i.Quiet) (h : toolNext l = false) :
    ∀ i ∈ l, i.isAppended = false := by
  induction l with
  | nil => exact fun _ hi => absurd hi List.not_mem_nil
  | cons i l ih =>
    have hrest := fun h => ih (fun j hj => hquiet j (List.mem_cons_of_mem i hj)) h
    have hi := hquiet i List.mem_cons_self
    cases i with
    | appended e tree stored => exact absurd (hi.symm.trans h) (by simp)
    | _ => exact List.forall_mem_cons.mpr ⟨rfl, hrest h⟩

theorem treeAfter_append (tree : SessionTree) (l l' : List Item) :
    treeAfter tree (l ++ l') = treeAfter (treeAfter tree l) l' :=
  List.foldl_append

theorem treeAfter_snoc (hi : i.isAppended = false) : treeAfter t₀ (l ++ [i]) = treeAfter t₀ l := by
  rw [treeAfter_append]
  cases i <;> first | rfl | cases hi

theorem treeAfter_of_not_appended (h : ∀ i ∈ l, i.isAppended = false) : treeAfter t₀ l = t₀ := by
  induction l with
  | nil => rfl
  | cons i l ih =>
    have hi := h i List.mem_cons_self
    cases i with
    | appended e tree stored => cases hi
    | _ => exact ih fun j hj => h j (List.mem_cons_of_mem _ hj)

/-- Where each append is stored, the store has the tree of the run. -/
theorem storedAfter_eq (h : ∀ e tree stored, .appended e tree stored ∈ l → stored = some tree) :
    storedAfter (some t₀) l = some (treeAfter t₀ l) := by
  induction l generalizing t₀ with
  | nil => rfl
  | cons i l ih =>
    have hrest : ∀ e tree stored, .appended e tree stored ∈ l → stored = some tree :=
      fun e tree stored hmem => h e tree stored (List.mem_cons_of_mem i hmem)
    cases i with
    | appended e tree stored =>
      obtain rfl := h e tree stored List.mem_cons_self
      exact ih hrest
    | _ => exact ih hrest

/-- Wherever the log is cut: as long as every response was complete, its contexts are well paired,
and so is the tree if the next entry is no tool message. -/
def Cuts (deps : AgentRunnerDeps) (request : RunRequest) (t₀ : SessionTree) (l : List Item) : Prop :=
  ∀ l₁ l₂, l = l₁ ++ l₂ → CompleteLog deps request l₁ →
    (∀ c, .context c ∈ l₁ → WellPaired c) ∧
      (toolNext l₂ = false → (treeAfter t₀ l₁).PairsUp deps.py)

theorem Cuts.logged (h : Cuts deps request t₀ l) (hlog : CompleteLog deps request l) :
    ∀ c, .context c ∈ l → WellPaired c :=
  (h l [] (List.append_nil l).symm hlog).1

theorem Cuts.now (h : Cuts deps request t₀ l) (hlog : CompleteLog deps request l) :
    (treeAfter t₀ l).PairsUp deps.py :=
  (h l [] (List.append_nil l).symm hlog).2 rfl

/-- A cut of a longer log is one of the log, or it is among the new items. -/
theorem Cuts.append (h : Cuts deps request t₀ l)
    (hnew : ∀ l₁ l₂, l' = l₁ ++ l₂ → l₁ ≠ [] → CompleteLog deps request (l ++ l₁) →
      (∀ c, .context c ∈ l ++ l₁ → WellPaired c) ∧
        (toolNext l₂ = false → (treeAfter t₀ (l ++ l₁)).PairsUp deps.py)) :
    Cuts deps request t₀ (l ++ l') := by
  intro a b hab hlog
  rcases List.append_eq_append_iff.mp hab with ⟨l₁, rfl, hl'⟩ | ⟨l₂, rfl, rfl⟩
  · by_cases hnil : l₁ = []
    · subst hnil
      rw [List.append_nil] at hlog ⊢
      exact ⟨h.logged hlog, fun _ => h.now hlog⟩
    · exact hnew l₁ b hl' hnil hlog
  · exact (h a l₂ rfl hlog).imp_right fun hcut hnext => hcut (toolNext_left hnext)

theorem Cuts.snoc (h : Cuts deps request t₀ l)
    (hnew : CompleteLog deps request (l ++ [i]) →
      (∀ c, .context c ∈ l ++ [i] → WellPaired c) ∧ (treeAfter t₀ (l ++ [i])).PairsUp deps.py) :
    Cuts deps request t₀ (l ++ [i]) := by
  refine h.append fun l₁ l₂ hsplit hne hlog => ?_
  obtain ⟨rfl, rfl⟩ | ⟨rfl, -⟩ := List.append_eq_singleton_iff.mp hsplit.symm
  · exact absurd rfl hne
  · exact (hnew hlog).imp_right fun htree _ => htree

theorem Cuts.emit (h : Cuts deps request t₀ l) (hi : i.isAppended = false)
    (hcontext : i.isContext = false) : Cuts deps request t₀ (l ++ [i]) := by
  refine h.snoc fun hlog => ⟨logged_append (h.logged hlog.left) fun j hj => ?_, ?_⟩
  · rw [List.mem_singleton.mp hj]
    exact hcontext
  · rw [treeAfter_snoc hi]
    exact h.now hlog.left

/-- A log that has gone on after an incomplete response. -/
def Spoilt (deps : AgentRunnerDeps) (request : RunRequest) (t₀ : SessionTree) (l : List Item) :
    Prop :=
  ∃ l₀ turn l₁, l = l₀ ++ .responded turn :: l₁ ∧ Cuts deps request t₀ l₀ ∧
    ¬ CompleteTurn deps request turn

theorem Spoilt.cuts (h : Spoilt deps request t₀ l) : Cuts deps request t₀ l := by
  obtain ⟨l₀, turn, l₁, rfl, hcuts, hturn⟩ := h
  refine hcuts.append fun a b hsplit hne hlog => ?_
  obtain ⟨i, rest, rfl⟩ := List.exists_cons_of_ne_nil hne
  obtain ⟨rfl, -⟩ := List.cons.inj hsplit
  exact absurd (hlog.1 turn (List.mem_append_right l₀ List.mem_cons_self)) hturn

end

/-! ## Plain entries -/

/-- The trees that the log shows are those of the run and of the store. -/
structure Tracked (t₀ : SessionTree) (l : List Item) (s : RunState) : Prop where
  synced : s.Synced
  tree : treeAfter t₀ l = s.tree
  saved : ∀ e tree stored, .appended e tree stored ∈ l → stored = some tree

/-- Paired at every cut, in a session that has a leaf. -/
structure KeepsPaired (deps : AgentRunnerDeps) (request : RunRequest) (t₀ : SessionTree)
    (l : List Item) (s : RunState) : Prop extends Tracked t₀ l s where
  leaf : s.tree.leafId.isSome = true
  cuts : Cuts deps request t₀ l

section
variable {deps : AgentRunnerDeps} {request : RunRequest} {l l' : List Item} {s s' : RunState}
  {e : SessionEntry} {i : Item} {t₀ : SessionTree}

theorem Tracked.append (h : Tracked t₀ l s) (happ : Appended s e s')
    (hrefs : ∀ k ∈ SessionTree.refs e, k ∈ s.tree.order) :
    Tracked t₀ (l ++ [.appended e s'.tree (some s'.tree)]) s' where
  synced := happ.synced h.synced hrefs
  tree := by
    rw [treeAfter_append]
    rfl
  saved := by
    intro e' tree stored hmem
    rcases List.mem_append.mp hmem with hmem | hmem
    · exact h.saved e' tree stored hmem
    · cases List.mem_singleton.mp hmem
      rfl

theorem Tracked.emit (h : Tracked t₀ l s) (hi : i.isAppended = false) : Tracked t₀ (l ++ [i]) s where
  synced := h.synced
  tree := (treeAfter_snoc hi).trans h.tree
  saved := by
    intro e tree stored hmem
    rcases List.mem_append.mp hmem with hmem | hmem
    · exact h.saved e tree stored hmem
    · rw [← List.mem_singleton.mp hmem] at hi
      cases hi

theorem stable_tracked (deps : AgentRunnerDeps) (t₀ : SessionTree) :
    Stable deps AnyBody fun l s => Tracked t₀ l s ∧ s.tree.leafId.isSome = true where
  plain := fun _ => trivial
  synced := fun h => h.1.synced
  leaf := fun h => h.2
  terminate := fun h => ⟨⟨⟨h.1.synced.wf, h.1.synced.stored⟩, h.1.tree, h.1.saved⟩, h.2⟩
  append := fun h happ _ hrefs => ⟨h.1.append happ hrefs, by rw [happ.tree]; rfl⟩
  emit := fun h hi _ => ⟨h.1.emit hi, h.2⟩
  context := fun h _ => ⟨h.1.emit rfl, h.2⟩

/-- A message without calls that is no tool message keeps the tree paired. -/
theorem Tracked.pairsUp_push (h : Tracked t₀ l s) (hnow : (treeAfter t₀ l).PairsUp deps.py)
    (happ : Appended s e s') {m : MessageBody} (hm : e.body = .message m)
    (hplain : EntryBody.Plain (.message m)) : s'.tree.PairsUp deps.py := by
  rw [h.tree] at hnow
  obtain ⟨c, hc, hpaired⟩ := hnow
  refine ⟨c ++ [messageEntryToDict deps.py m], ?_, ?_⟩
  · rw [happ.tree]
    exact h.synced.wf.context_push hm happ.fresh happ.parent hc
  · exact hpaired.append (wellPaired_singleton hplain.1 hplain.2)

theorem Cuts.push (hcuts : Cuts deps request t₀ l) (h : Tracked t₀ l s) (happ : Appended s e s')
    (hplain : e.body.Plain) :
    Cuts deps request t₀ (l ++ [.appended e s'.tree (some s'.tree)]) := by
  refine hcuts.snoc fun hlog => ?_
  rw [treeAfter_append]
  refine ⟨logged_append (hcuts.logged hlog.left) fun j hj => by rw [List.mem_singleton.mp hj]; rfl, ?_⟩
  cases hbody : e.body with
  | message m =>
    rw [hbody] at hplain
    exact h.pairsUp_push (hcuts.now hlog.left) happ hbody hplain
  | compaction summary kept tokens =>
    have hno := hlog.2 _ (List.mem_append_right l List.mem_cons_self)
    simp [Item.isCompaction, SessionEntry.isCompaction, hbody] at hno
  | modelChange _ _ | custom _ =>
    rw [hbody] at hplain
    exact hplain.elim

theorem KeepsPaired.context {c : List Message} (h : KeepsPaired deps request t₀ l s)
    (hc : s.tree.buildSessionContext deps.py = some c) :
    KeepsPaired deps request t₀ (l ++ [.context c]) s where
  toTracked := h.toTracked.emit rfl
  leaf := h.leaf
  cuts := by
    refine h.cuts.snoc fun hlog => ?_
    have hnow := h.cuts.now hlog.left
    rw [treeAfter_snoc rfl]
    refine ⟨fun c' hmem => ?_, hnow⟩
    rcases List.mem_append.mp hmem with hmem | hmem
    · exact h.cuts.logged hlog.left c' hmem
    · obtain ⟨c'', hc'', hpaired⟩ := hnow
      rw [h.tree, hc] at hc''
      cases hc''
      cases List.mem_singleton.mp hmem
      exact hpaired

theorem stable_keepsPaired : Stable deps EntryBody.Plain (KeepsPaired deps request t₀) where
  plain := id
  synced := fun h => h.synced
  leaf := fun h => h.leaf
  terminate := fun h =>
    ⟨⟨⟨h.synced.wf, h.synced.stored⟩, h.tree, h.saved⟩, h.leaf, h.cuts⟩
  append := fun h happ hplain hrefs =>
    ⟨h.toTracked.append happ hrefs, by rw [happ.tree]; rfl, h.cuts.push h.toTracked happ hplain⟩
  emit := fun h hi hcontext => ⟨h.toTracked.emit hi, h.leaf, h.cuts.emit hi hcontext⟩
  context := fun h hc => h.context hc

/-! ## Tool calls -/

/-- Paired at every cut but for the calls of the message `a`, which has just been appended. -/
structure Awaits (deps : AgentRunnerDeps) (request : RunRequest) (t₀ : SessionTree) (a : Message)
    (l : List Item) (s : RunState) : Prop extends Tracked t₀ l s where
  leaf : s.tree.leafId.isSome = true
  before : ∃ l₀ e tree stored, l = l₀ ++ [.appended e tree stored] ∧ Cuts deps request t₀ l₀ ∧
    (CompleteLog deps request l₀ →
      ∃ c, s.tree.buildSessionContext deps.py = some (c ++ [a]) ∧ WellPaired c)

theorem KeepsPaired.awaits (h : KeepsPaired deps request t₀ l s) (happ : Appended s e s')
    {m : MessageBody} (hm : e.body = .message m) :
    Awaits deps request t₀ (messageEntryToDict deps.py m)
      (l ++ [.appended e s'.tree (some s'.tree)]) s' where
  toTracked := h.toTracked.append happ (happ.message_refs h.synced hm)
  leaf := by rw [happ.tree]; rfl
  before := by
    refine ⟨l, e, _, _, rfl, h.cuts, fun hlog => ?_⟩
    have hnow := h.cuts.now hlog
    rw [h.tree] at hnow
    obtain ⟨c, hc, hpaired⟩ := hnow
    refine ⟨c, ?_, hpaired⟩
    rw [happ.tree]
    exact h.synced.wf.context_push hm happ.fresh happ.parent hc

theorem Item.Quiet.not_context (h : i.Quiet) : i.isContext = false := by
  cases i <;> first | rfl | cases h

/-- The tool messages answer the calls of `a`. -/
theorem wellPaired_answered {a : Message} {c msgs : List Message} {ids : List String}
    {calls : List ToolCall} (hc : WellPaired c) (ha : a.role = .assistant)
    (hcalls : a.toolCalls = calls) (hne : ∀ x ∈ calls, x.id ≠ "") (hmsgs : ToolMessages ids msgs)
    (hperm : ids.Perm (calls.map ToolCall.id)) : WellPaired ((c ++ [a]) ++ msgs) := by
  rw [List.append_assoc, List.singleton_append]
  refine hc.append (wellPaired_turn ha hmsgs.1 ?_)
  rw [hmsgs.2, hcalls]
  have hids : (calls.map fun x => SessionTree.truthy (some x.id)) = calls.map fun x => some x.id :=
    List.map_congr_left fun x hx => by simp [SessionTree.truthy, hne x hx]
  have hmap := hperm.map fun id => SessionTree.truthy (some id)
  rw [List.map_map] at hmap
  exact hids ▸ hmap

/-- After an assistant message and the tool messages of its turn: a cut that is not before one of
them is after the last. -/
theorem Cuts.answered {l₀ : List Item} {tree : SessionTree} {stored : Option SessionTree}
    (h : Cuts deps request t₀ l₀) (hquiet : ∀ i ∈ l', i.Quiet)
    (hend : CompleteLog deps request l₀ →
      (treeAfter t₀ ((l₀ ++ [.appended e tree stored]) ++ l')).PairsUp deps.py) :
    Cuts deps request t₀ ((l₀ ++ [.appended e tree stored]) ++ l') := by
  rw [List.append_assoc, List.singleton_append] at hend ⊢
  refine h.append fun l₁ l₂ hsplit hne hlog => ?_
  obtain ⟨i, b, rfl⟩ := List.exists_cons_of_ne_nil hne
  obtain ⟨rfl, hl'⟩ := List.cons.inj hsplit
  replace hl' : l' = b ++ l₂ := hl'
  subst hl'
  refine ⟨logged_append (h.logged hlog.left) fun j hj => ?_, fun hnext => ?_⟩
  · rcases List.mem_cons.mp hj with rfl | hj
    · rfl
    · exact (hquiet j (List.mem_append_left l₂ hj)).not_context
  · have hrest := not_appended_of_toolNext
      (fun j hj => hquiet j (List.mem_append_right b hj)) hnext
    have hpaired := hend hlog.left
    rw [← List.cons_append, ← List.append_assoc, treeAfter_append,
      treeAfter_of_not_appended hrest] at hpaired
    exact hpaired

theorem answerCalls_keepsPaired {env : TurnEnv} {vars : LoopVars} {text : String}
    {buffer : Dict Int ToolCallSlot} {calls : List ToolCall}
    (hcalls : finalizeToolCalls deps.json buffer = .ok calls)
    (hproceed : (updateToolLoopState calls env.registry vars.detector
      deps.config.retry.unknownToolThreshold).2 = .proceed)
    (hanswered : Answered deps request env calls) :
    Preserves (KeepsPaired deps request t₀) (answerCalls deps request env vars text calls) := by
  have ha : (messageEntryToDict deps.py (assistantMessage text calls)).role = .assistant := rfl
  generalize hmsg : messageEntryToDict deps.py (assistantMessage text calls) = a at ha
  have hacalls : a.toolCalls = calls := by rw [← hmsg]; rfl
  refine Triple.bind (Q := fun _ => Awaits deps request t₀ a)
    (appendMessage_triple (fun _ _ h => h.synced) fun _ _ _ _ h hm happ =>
      hmsg ▸ h.awaits happ hm) fun _ => ?_
  dsimp only
  rw [hproceed]
  refine Triple.bind (Q := fun _ => KeepsPaired deps request t₀) ?_ fun _ => Triple.pure fun _ _ h => h
  intro l s h
  obtain ⟨c₀, hc₀⟩ := h.synced.wf.context_isSome deps.py
  have hturn := @toolBatch_answered deps request env calls buffer c₀ (· = l) hcalls
  refine ((hturn.and ((stable_tracked deps t₀).toolBatch env calls)) l s
    ⟨⟨rfl, h.synced, hc₀⟩, h.toTracked, h.leaf⟩).imp ?_ fun _ _ _ hno => absurd hanswered hno.1
  rintro _ l' s' ⟨⟨-, l₀, l₁, rfl, rfl, hquiet, -, msgs, ids, hctx, hmsgs, hperm⟩, htracked, hleaf'⟩
  refine ⟨htracked, hleaf', ?_⟩
  obtain ⟨l₀', e, tree, stored, rfl, hcuts, hbefore⟩ := h.before
  refine hcuts.answered hquiet fun hlog => ?_
  obtain ⟨c, hc, hnow⟩ := hbefore hlog
  rw [hc₀] at hc
  cases hc
  rw [htracked.tree]
  exact ⟨_, hctx, wellPaired_answered hnow ha hacalls (finalized_id_ne_empty hcalls) hmsgs hperm⟩

theorem handleResponse_keepsPaired (env : TurnEnv) (vars : LoopVars) (acc : StreamAcc) :
    Preserves (KeepsPaired deps request t₀) (handleResponse deps request env vars acc) := by
  by_cases hcomplete : CompleteTurn deps request
      { env with buffer := acc.buffer, detector := vars.detector }
  · refine Preserves.bind (Preserves.emit fun _ _ h => stable_keepsPaired.emit h rfl rfl) fun _ => ?_
    refine Triple.bind (Q := fun calls l s =>
        finalizeToolCalls deps.json acc.buffer = .ok calls ∧ KeepsPaired deps request t₀ l s)
      (Triple.ofExcept (fun _ hc _ _ h => ⟨hc, h⟩) fun _ _ _ _ h => h) fun calls => ?_
    refine Triple.assume fun hcalls => Triple.ite (fun _ => ?_) fun hne => ?_
    · exact stable_keepsPaired.answerText _ _
    · obtain ⟨hproceed, hanswered⟩ := hcomplete calls hcalls hne
      exact answerCalls_keepsPaired hcalls hproceed hanswered
  · -- from here on the log holds an incomplete response
    have htracked := @Stable.handleResponse _ deps request (stable_tracked deps t₀) env vars acc
    have hspoilt : Triple (fun l _ => Cuts deps request t₀ l)
        (handleResponse deps request env vars acc)
        (fun _ l _ => Spoilt deps request t₀ l) (fun _ l _ => Spoilt deps request t₀ l) := by
      refine Triple.bind (Q := fun _ l _ => Spoilt deps request t₀ l)
        (Triple.emit fun l _ h => ⟨l, _, [], rfl, h, hcomplete⟩) fun _ => Preserves.log ?_
      rintro _ l' ⟨l₀, turn, l₁, rfl, h⟩
      exact ⟨l₀, turn, l₁ ++ l', by simp, h⟩
    exact (htracked.and hspoilt).conseq (fun _ _ h => ⟨⟨h.toTracked, h.leaf⟩, h.cuts⟩)
      (fun _ _ _ h => ⟨h.1.1, h.1.2, h.2.cuts⟩) fun _ _ _ h => ⟨h.1.1, h.1.2, h.2.cuts⟩

/-! ## Runs -/

theorem runBody_paired (world : Nat → IterEnv) :
    Preserves (fun l s => Tracked t₀ l s ∧ Cuts deps request t₀ l) (runBody deps request world) := by
  refine Preserves.bind Preserves.get fun s₀ => ?_
  refine Preserves.bind Preserves.ofExcept fun blocked => Preserves.ite ?_ ?_
  · exact Preserves.emit fun _ _ h => ⟨h.1.emit rfl, h.2.emit rfl rfl⟩
  · refine Triple.bind (Q := fun _ => KeepsPaired deps request t₀) ?_ fun _ => ?_
    · refine appendMessage_triple (fun _ _ h => h.1.synced) fun l s e s' h hm happ => ?_
      refine ⟨h.1.append happ (happ.message_refs h.1.synced hm), by rw [happ.tree]; rfl, ?_⟩
      exact h.2.push h.1 happ (hm ▸ ⟨nofun, rfl⟩)
    · exact (stable_keepsPaired.runLoop handleResponse_keepsPaired world _ _ _).conseq
        (fun _ _ h => h) (fun _ _ _ h => ⟨h.toTracked, h.cuts⟩) fun _ _ _ h => ⟨h.toTracked, h.cuts⟩

theorem runAgentStream_cuts (world : Nat → IterEnv) {store : InMemorySessionStore} (draws : Nat)
    (hstore : ∀ t, store.load request.sessionId = some t → t.Wf ∧ t.PairsUp deps.py) :
    Tracked (RunState.start store draws request).tree
        (runAgentStream deps request world store draws).log
        (runAgentStream deps request world store draws).state ∧
      Cuts deps request (RunState.start store draws request).tree
        (runAgentStream deps request world store draws).log := by
  have hpaired : (RunState.start store draws request).tree.PairsUp deps.py := by
    unfold RunState.start ensureSession
    cases hload : store.load request.sessionId with
    | some t => exact (hstore t hload).2
    | none => exact ⟨[], rfl, rfl⟩
  have hstart : Tracked (RunState.start store draws request).tree []
      (RunState.start store draws request) :=
    ⟨RunState.start_synced fun t ht => (hstore t ht).1, rfl, fun _ _ _ h => absurd h List.not_mem_nil⟩
  have hcuts : Cuts deps request (RunState.start store draws request).tree [] := by
    intro l₁ l₂ hsplit _
    obtain ⟨rfl, rfl⟩ := List.append_eq_nil_iff.mp hsplit.symm
    exact ⟨fun _ hc => absurd hc List.not_mem_nil, fun _ => hpaired⟩
  refine Triple.finish (Preserves.tryFinally (runBody_paired world) ?_) ⟨hstart, hcuts⟩
  exact Preserves.bind Preserves.get fun s => Preserves.emit fun _ _ h =>
    ⟨h.1.emit rfl, h.2.emit rfl rfl⟩

/-- **Tool calls stay paired.** A run on a session whose context is well paired, in which every
response is complete and nothing is compacted, and which is not ended from outside among the tool
messages of a turn: every context of an iteration is well paired, and so are the one that it leaves
in its tree and the one that it leaves in the store. -/
theorem runAgentStream_paired {world : Nat → IterEnv} {store : InMemorySessionStore} {draws : Nat}
    {ending : RunEnding}
    (hstore : ∀ t, store.load request.sessionId = some t → t.Wf ∧ t.PairsUp deps.py)
    (hlog : CompleteLog deps request (runAgentStreamUntil deps request world store draws ending).log)
    (hending : ending.OutsideTools (runAgentStream deps request world store draws).log) :
    (runAgentStreamUntil deps request world store draws ending).Paired deps.py := by
  obtain ⟨htracked, hcuts⟩ := runAgentStream_cuts world draws hstore
  generalize hs₀ : RunState.start store draws request = s₀ at htracked hcuts
  have hstored : s₀.store.load s₀.tree.header.id = some s₀.tree :=
    hs₀ ▸ (RunState.start_synced fun t ht => (hstore t ht).1).stored
  generalize ho : runAgentStream deps request world store draws = o at htracked hcuts
  -- what a cut after `k` items leaves
  have hcut := fun k => hcuts _ _ (List.take_append_drop k o.log).symm
  have hsaved : ∀ k, storedAfter (some s₀.tree) (o.log.take k) = some (treeAfter s₀.tree (o.log.take k)) :=
    fun k => storedAfter_eq fun e tree stored hmem =>
      htracked.saved e tree stored (List.mem_of_mem_take hmem)
  rw [ho] at hending
  simp only [runAgentStreamUntil, ho, hs₀] at hlog ⊢
  cases ending with
  | byItself =>
    have hnow := hcuts.now hlog
    rw [htracked.tree] at hnow
    exact ⟨hcuts.logged hlog, hnow, _, htracked.synced.stored, hnow⟩
  | after k =>
    obtain ⟨hlogged, htree⟩ := hcut k hlog
    refine ⟨hlogged, htree hending, treeAfter s₀.tree (o.log.take k), ?_, htree hending⟩
    rw [hstored]
    exact hsaved k
  | inAppend k =>
    obtain ⟨hlogged, htree⟩ := hcut (k + 1) hlog
    have hbefore := hlog.take k
    rw [List.take_take, Nat.min_eq_left (Nat.le_succ k)] at hbefore
    have hstore := (hcut k hbefore).2 hending.1
    refine ⟨hlogged, htree hending.2, treeAfter s₀.tree (o.log.take k), ?_, hstore⟩
    rw [hstored]
    exact hsaved k

end

/-! ## Sample runs -/

/-- Two calls with one id, of which the hook denies the second, and then an answer. -/
def callTwiceThenAnswer : Nat → IterEnv
  | 0 => answering "" [{ index := 0, id := some "x", name := some "bash" },
      { index := 1, id := some "x", name := some "bash" }] (sampleEnv (.decisions [.approve, .deny])) 0
  | i + 1 => answering "hi" [] (sampleEnv (.decisions [])) i

/-- The first response of that run. -/
def twoCalls : Turn where
  toTurnEnv := sampleEnv (.decisions [.approve, .deny])
  buffer := mergeToolCallDeltas Dict.empty [{ index := 0, id := some "x", name := some "bash" },
    { index := 1, id := some "x", name := some "bash" }]
  detector := {}

theorem twoCalls_complete : CompleteTurn sampleDeps sampleRequest twoCalls := by
  intro calls hcalls _
  have heq : calls = [sampleCall "x", sampleCall "x"] := Except.ok.inj (hcalls.symm.trans rfl)
  subst heq
  refine ⟨rfl, ⟨by decide, .inr ⟨_, rfl, by decide⟩⟩, fun c _ _ hburst => ?_⟩
  exact nomatch hburst.2

/-- The run, also where the append of its answer fails. -/
theorem runAgentStream_paired_two_calls :
    (runAgentStreamUntil sampleDeps sampleRequest callTwiceThenAnswer .empty 0 .byItself).Paired
        .ascii ∧
      (runAgentStreamUntil sampleDeps sampleRequest callTwiceThenAnswer .empty 0
        (.inAppend 15)).Paired .ascii := by
  have hlog : CompleteLog sampleDeps sampleRequest
      (runAgentStream sampleDeps sampleRequest callTwiceThenAnswer .empty 0).log := by
    refine ⟨?_, by decide⟩
    have hturns : (runAgentStream sampleDeps sampleRequest callTwiceThenAnswer .empty
        0).log.filterMap Item.responded? =
          [twoCalls, { sampleEnv (.decisions []) with buffer := Dict.empty, detector := {} }] := by
      rfl
    intro turn hmem
    have hturn := List.mem_filterMap.mpr ⟨_, hmem, show Item.responded? _ = some turn from rfl⟩
    rw [hturns] at hturn
    rcases List.mem_pair.mp hturn with rfl | rfl
    · exact twoCalls_complete
    · exact fun calls hcalls hne => absurd (Except.ok.inj (hcalls.symm.trans rfl)) hne
  exact ⟨@runAgentStream_paired sampleDeps sampleRequest _ _ _ _ (fun _ h => by cases h) hlog trivial,
    @runAgentStream_paired sampleDeps sampleRequest _ _ _ _ (fun _ h => by cases h) (hlog.take 16)
      (by decide)⟩

/-- An assistant message whose call only draws guidance stays unanswered, and so do the calls of a
run that its consumer closes at the first `ToolCallStart`. -/
theorem calls_left_unanswered :
    (let r := runAgentStreamUntil sampleDeps sampleRequest (answering ""
      [{ index := 0, id := some "x", name := some "nope" }] (sampleEnv (.decisions [.approve])))
      .empty 0 .byItself
    (∀ i ∈ r.log, i.isCompaction = false) ∧
      ∃ c, r.tree.buildSessionContext .ascii = some c ∧ ¬ WellPaired c) ∧
    let r := runAgentStreamUntil sampleDeps sampleRequest callTwiceThenAnswer .empty 0 (.after 5)
    (∀ i ∈ r.log, i.isCompaction = false) ∧
      ∃ c, r.tree.buildSessionContext .ascii = some c ∧ ¬ WellPaired c := by
  refine ⟨⟨by decide, _, rfl, ?_⟩, by decide, _, rfl, ?_⟩
  · decide
  · decide

end PyClaw
