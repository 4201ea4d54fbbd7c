import PyClaw.Agent.Invariant
import PyClaw.Compaction.Engine
import PyClaw.Session.Pairing

/-!
# Compaction.Loss

What `_try_compaction` with the default engine does to the context. The planner keeps the messages
from its cut point on, but the compaction entry names the leaf as the first kept entry, so the new
context holds the summary and at most the leaf's message (`contextItems_push_compaction`).
`compaction_losesNothing_iff`: nothing else is lost exactly when the leaf is the one message to keep.
-/

namespace PyClaw

open MessageDict

/-! ## Contexts with their entries -/

/-- The messages of `build_session_context`, each with the entry it stems from. -/
def contextItems (py : PyText) (branch : List SessionEntry) : List (SessionEntry × Message) :=
  match lastCompaction branch with
  | some (_, c, after) =>
    match c.body with
    | .compaction summary firstKept _ =>
      (c, summaryMessage summary) ::
        (keptTail branch after firstKept).filterMap fun e => (keptMessage? py c e).map (e, ·)
    | _ => []
  | none => branch.filterMap fun e => (entryMessage? py e).map (e, ·)

section
variable {py : PyText} {b b₀ : List SessionEntry} {e last : SessionEntry}

theorem contextItems_messages (py : PyText) (b : List SessionEntry) :
    (contextItems py b).map Prod.snd = branchContext py b := by
  have hmap : ∀ (f : SessionEntry → Option Message) (l : List SessionEntry),
      (l.filterMap fun e => (f e).map (e, ·)).map Prod.snd = l.filterMap f := by
    intro f l
    rw [List.map_filterMap]
    congr 1
    funext e
    cases f e <;> rfl
  unfold contextItems branchContext
  cases lastCompaction b with
  | none => exact hmap _ _
  | some r =>
    obtain ⟨before, c, after⟩ := r
    dsimp only
    cases c.body with
    | compaction summary firstKept tokens => rw [List.map_cons, hmap]
    | message _ | modelChange _ _ | custom _ => rfl

theorem keptTail_subset {after : List SessionEntry} {firstKept : String} (hafter : after ⊆ b) :
    keptTail b after firstKept ⊆ b := by
  unfold keptTail
  split
  · exact hafter
  · exact (List.dropWhile_sublist _).subset

/-- After the first item, the items are messages of the branch. -/
theorem contextItems_tail {x : SessionEntry × Message} (hx : x ∈ (contextItems py b).tail) :
    x.1 ∈ b ∧ entryMessage? py x.1 = some x.2 := by
  unfold contextItems at hx
  split at hx
  · rename_i before c after hlast
    obtain ⟨hsplit, -⟩ := lastCompaction_sound hlast
    split at hx
    · rw [List.tail_cons, List.mem_filterMap] at hx
      obtain ⟨e, he, hitem⟩ := hx
      obtain ⟨m, hm, rfl⟩ := Option.map_eq_some_iff.mp hitem
      refine ⟨keptTail_subset (fun y hy => ?_) he, ?_⟩
      · rw [hsplit]
        exact List.mem_append_right _ (List.mem_cons_of_mem _ hy)
      · unfold keptMessage? at hm
        split at hm
        · cases hm
        · exact hm
    · cases hx
  · obtain ⟨e, he, hitem⟩ := List.mem_filterMap.mp (List.mem_of_mem_tail hx)
    obtain ⟨m, hm, rfl⟩ := Option.map_eq_some_iff.mp hitem
    exact ⟨he, hm⟩

/-- The context after a compaction that keeps the leaf: the summary, and the leaf's message if it
has one. -/
theorem contextItems_push_compaction {summary : String} {tokens : Int}
    (he : e.body = .compaction summary last.id tokens) (hb₀ : ∀ x ∈ b₀, x.id ≠ last.id)
    (hne : last.id ≠ e.id) :
    contextItems py ((b₀ ++ [last]) ++ [e]) =
      (e, summaryMessage summary) :: ((entryMessage? py last).map (last, ·)).toList := by
  have hc : e.isCompaction = true := by rw [SessionEntry.isCompaction, he]
  have htail : keptTail ((b₀ ++ [last]) ++ [e]) [] last.id = [last, e] := by
    have hdrop : (b₀ ++ ([last] ++ [e])).dropWhile (fun x => decide (x.id ≠ last.id)) = [last, e] := by
      rw [List.dropWhile_append_of_pos (by simpa using hb₀)]
      simp
    rw [keptTail, List.append_assoc, hdrop]
  unfold contextItems
  rw [lastCompaction_append_compaction hc]
  dsimp only
  rw [he]
  dsimp only
  rw [htail]
  simp only [List.filterMap_cons, List.filterMap_nil, keptMessage?, if_neg hne, if_pos]
  cases entryMessage? py last <;> rfl

end

/-! ## What a compaction should keep -/

section
variable (py : PyText) (engine : DefaultContextEngine)

/-- An item as the engine reads it. -/
def itemDict (x : SessionEntry × Message) : MessageDict := x.2.toDict

/-- The items of a context without the dropped duplicates; the planner cuts this list. -/
def dedupedItems (branch : List SessionEntry) : List (SessionEntry × Message) :=
  Duplicates.remove (dedupKey engine.settings ∘ itemDict) (lastSeen engine.settings ∘ itemDict)
    (isDuplicate engine.settings ∘ itemDict) Dict.empty (contextItems py branch)

theorem dedupedItems_messages (b : List SessionEntry) :
    (dedupedItems py engine b).map itemDict =
      dedupe engine.settings ((branchContext py b).map Message.toDict) := by
  rw [dedupedItems, Duplicates.remove_map, ← contextItems_messages, List.map_map]
  rfl

/-- Every tool message answers a call of an assistant message before it. -/
def NoStrayTools (c : List Message) : Prop :=
  ∀ before m after, c = before ++ m :: after → m.role = .tool →
    ∃ a ∈ before, ∃ call ∈ a.toolCalls, m.toolCallId = some call.id

/-- The messages before the cut were summarised, and the others are in the new context, in order;
a context that was well paired has no stray tool message. -/
def LosesNothing (t t' : SessionTree) : Prop :=
  ∃ b b' cut, t.getBranch = some b ∧ t'.getBranch = some b' ∧
    findCutPoint ((dedupedItems py engine b).map itemDict) engine.keepRecentTokens = some cut ∧
    ((dedupedItems py engine b).drop cut).Sublist (contextItems py b') ∧
    (WellPaired (branchContext py b) → NoStrayTools (branchContext py b'))

/-- The leaf is a message, neither a dropped duplicate nor a tool message, that by itself has the
tokens to be kept. -/
def LeafFillsKept (t : SessionTree) : Prop :=
  ∃ b x, t.getBranch = some b ∧ (dedupedItems py engine b).getLast? = some x ∧ t.leafId = some x.1.id ∧
    x.2.role ≠ .tool ∧ engine.keepRecentTokens ≤ x.2.toDict.estimateTokens

variable {py engine} {b : List SessionEntry} {cut : Nat} {t : SessionTree} {e : SessionEntry}

theorem kept_mem (hcut : 0 < cut) {x : SessionEntry × Message}
    (hx : x ∈ (dedupedItems py engine b).drop cut) : x.1 ∈ b ∧ entryMessage? py x.1 = some x.2 := by
  have hsub : ((dedupedItems py engine b).drop cut).Sublist (contextItems py b).tail := by
    have hdrop := List.drop_sublist_drop_left (dedupedItems py engine b) hcut
    rw [List.drop_one] at hdrop
    exact hdrop.trans (Duplicates.remove_sublist _ _).tail
  exact contextItems_tail (hsub.subset hx)

theorem dedupedItems_nil : dedupedItems py engine [] = [] := rfl

/-- Two messages without tool messages. -/
theorem noStrayTools_pair {m₁ m₂ : Message} (h₁ : m₁.role ≠ .tool) (h₂ : m₂.role ≠ .tool) :
    NoStrayTools [m₁, m₂] := by
  intro before m after heq hrole
  have hm : m ∈ [m₁, m₂] := heq ▸ List.mem_append_right before List.mem_cons_self
  rcases List.mem_pair.mp hm with rfl | rfl
  · exact absurd hrole h₁
  · exact absurd hrole h₂

/-- A branch that can be cut has a leaf. -/
theorem exists_leaf_of_cut (hb : t.getBranch = some b) (hlt : cut < (dedupedItems py engine b).length) :
    ∃ leaf, t.leafId = some leaf := by
  cases hleaf : t.leafId with
  | some leaf => exact ⟨leaf, rfl⟩
  | none =>
    have hnil : b.reverse = [] := by
      rw [SessionTree.getBranch_eq_some, hleaf] at hb
      exact hb.unique .root
    rw [List.reverse_eq_nil_iff.mp hnil, dedupedItems_nil] at hlt
    cases hlt

theorem getLast?_drop_cut (hlt : cut < (dedupedItems py engine b).length) :
    ((dedupedItems py engine b).drop cut).getLast? = (dedupedItems py engine b).getLast? := by
  rw [List.getLast?_drop, if_neg (by omega)]

/-- What is kept and still in a context of the compaction and the leaf is the leaf's message. -/
theorem kept_eq_leaf {last : SessionEntry} {summary : Message} (hpos : 0 < cut)
    (hlt : cut < (dedupedItems py engine b).length) (hfresh : ∀ x ∈ b, x.id ≠ e.id)
    (hsub : ((dedupedItems py engine b).drop cut).Sublist
      ((e, summary) :: ((entryMessage? py last).map (last, ·)).toList)) :
    ∃ m, (dedupedItems py engine b).drop cut = [(last, m)] := by
  -- the new entry is not among the kept ones
  have hsub : ((dedupedItems py engine b).drop cut).Sublist
      ((entryMessage? py last).map (last, ·)).toList := by
    rcases List.sublist_cons_iff.mp hsub with hsub | ⟨r, hr, -⟩
    · exact hsub
    · have hmem := (kept_mem hpos (hr ▸ List.mem_cons_self)).1
      exact absurd rfl (hfresh e hmem)
  have hlen := hsub.length_le
  rw [List.length_drop] at hlen
  cases hm : entryMessage? py last with
  | none =>
    rw [hm] at hlen
    simp at hlen
    omega
  | some m =>
    rw [hm] at hsub
    refine ⟨m, hsub.eq_of_length_le ?_⟩
    simp
    omega

theorem drop_eq_last {x : SessionEntry × Message} (hlen : cut + 1 = (dedupedItems py engine b).length)
    (hlast : (dedupedItems py engine b).getLast? = some x) : (dedupedItems py engine b).drop cut = [x] := by
  obtain ⟨y, hy⟩ : ∃ y, (dedupedItems py engine b).drop cut = [y] := by
    rw [← List.length_eq_one_iff, List.length_drop]
    omega
  have hlt : cut < (dedupedItems py engine b).length := by omega
  rw [← getLast?_drop_cut hlt, hy] at hlast
  cases hlast
  exact hy

theorem losesNothing_iff {t' : SessionTree} {b' : List SessionEntry} (hb : t.getBranch = some b)
    (hb' : t'.getBranch = some b')
    (hcut : findCutPoint ((dedupedItems py engine b).map itemDict) engine.keepRecentTokens = some cut) :
    LosesNothing py engine t t' ↔
      ((dedupedItems py engine b).drop cut).Sublist (contextItems py b') ∧
        (WellPaired (branchContext py b) → NoStrayTools (branchContext py b')) := by
  constructor
  · rintro ⟨b₁, b'₁, cut', hb₁, hb'₁, hcut', hkept⟩
    rw [hb] at hb₁
    cases hb₁
    rw [hb'] at hb'₁
    cases hb'₁
    rw [hcut] at hcut'
    cases hcut'
    exact hkept
  · exact fun hkept => ⟨b, b', cut, hb, hb', hcut, hkept⟩

theorem leafFillsKept_iff (hb : t.getBranch = some b) :
    LeafFillsKept py engine t ↔
      ∃ x, (dedupedItems py engine b).getLast? = some x ∧ t.leafId = some x.1.id ∧
        x.2.role ≠ .tool ∧ engine.keepRecentTokens ≤ x.2.toDict.estimateTokens := by
  constructor
  · rintro ⟨b₁, x, hb₁, hx⟩
    rw [hb] at hb₁
    cases hb₁
    exact ⟨x, hx⟩
  · exact fun ⟨x, hx⟩ => ⟨b, x, hb, hx⟩

/-- Only the leaf's message survives a compaction entry that names the leaf as first kept. -/
theorem losesNothing_push_iff {summary : String} {tokens : Int} (hw : t.Wf)
    (hb : t.getBranch = some b) (hfresh : e.id ∉ t.order) (hparent : e.parentId = t.leafId)
    (he : e.body = .compaction summary (orElseText t.leafId "") tokens)
    (hcut : findCutPoint ((dedupedItems py engine b).map itemDict) engine.keepRecentTokens = some cut) :
    LosesNothing py engine t (t.push e) ↔ LeafFillsKept py engine t := by
  obtain ⟨hpos, hlt⟩ := findCutPoint_lt hcut
  rw [List.length_map] at hlt
  have hfreshb : ∀ x ∈ b, x.id ≠ e.id := by
    intro x hx hid
    rw [hw.order_eq] at hfresh
    exact hfresh (hid ▸ Dict.mem_keys_of_get? (hw.branch_mem hb hx))
  obtain ⟨leaf, hleaf⟩ := exists_leaf_of_cut hb hlt
  obtain ⟨b₀, last, rfl, rfl, hb₀⟩ := hw.branch_leaf hleaf hb
  have hkept : orElseText t.leafId "" = last.id := by
    rw [hleaf, orElseText]
    split
    · exact Eq.symm ‹_›
    · rfl
  rw [hkept] at he
  have hlast : last ∈ b₀ ++ [last] := List.mem_append_right _ List.mem_cons_self
  have hb' := hw.getBranch_push hfresh hparent hb
  have hitems := @contextItems_push_compaction py _ _ _ _ _ he hb₀ (hfreshb last hlast)
  rw [losesNothing_iff hb hb' hcut, leafFillsKept_iff hb]
  constructor
  · rintro ⟨hsub, -⟩
    rw [hitems] at hsub
    obtain ⟨m, hdrop⟩ := kept_eq_leaf hpos hlt hfreshb hsub
    have hgetLast : (dedupedItems py engine (b₀ ++ [last])).getLast? = some (last, m) := by
      rw [← getLast?_drop_cut hlt, hdrop]
      rfl
    have hone : cut + 1 = ((dedupedItems py engine (b₀ ++ [last])).map itemDict).length := by
      have hlen := congrArg List.length hdrop
      simp at hlen ⊢
      omega
    obtain ⟨m', hm', hrole, hkeep⟩ := (findCutPoint_last hcut).mp hone
    rw [List.getLast?_map, hgetLast] at hm'
    cases hm'
    exact ⟨(last, m), hgetLast, hleaf, fun htool => hrole (m.toDict_tool.mpr htool), hkeep⟩
  · rintro ⟨⟨y, m⟩, hy, hyleaf, hrole, hkeep⟩
    have hone := (findCutPoint_last hcut).mpr ⟨m.toDict, by rw [List.getLast?_map, hy]; rfl,
      fun htool => hrole (m.toDict_tool.mp htool), hkeep⟩
    rw [List.length_map] at hone
    have hdrop := drop_eq_last hone hy
    obtain ⟨hmem, hm⟩ := kept_mem hpos (hdrop ▸ List.mem_cons_self)
    obtain rfl : y = last := hw.branch_inj hb hmem hlast (Option.some.inj (hyleaf.symm.trans hleaf))
    rw [hm, Option.map_some, Option.toList_some] at hitems
    refine ⟨?_, fun _ => ?_⟩
    · rw [hitems, hdrop]
      exact List.sublist_cons_self _ _
    · rw [← contextItems_messages, hitems]
      refine noStrayTools_pair ?_ hrole
      intro hsummary
      cases hsummary

end

/-! ## `_try_compaction` -/

section
variable {deps : AgentRunnerDeps} {engine : DefaultContextEngine} {s : RunState}
  {c : List Message} {o : CompactionOutcome}

/-- **Compaction.** A successful `_try_compaction` with the default engine, on any well-formed
session, loses nothing if and only if the leaf alone is what the planner keeps. -/
theorem compaction_losesNothing_iff {tokenBudget : Int} {force aborted : Bool} (hs : s.Synced)
    (hc : s.tree.buildSessionContext deps.py = some c)
    (hok : (tryCompaction deps (fun messages =>
      .returns (engine.compact tokenBudget force aborted (messages.map Message.toDict))) c s).result = .ok o)
    (hcompacted : o.compacted = true) :
    LosesNothing deps.py engine s.tree (tryCompaction deps (fun messages =>
      .returns (engine.compact tokenBudget force aborted (messages.map Message.toDict))) c s).state.tree ↔
    LeafFillsKept deps.py engine s.tree := by
  have htriple : Prog.Triple (fun _ s' => s' = s)
      (tryCompaction deps (fun messages =>
        .returns (engine.compact tokenBudget force aborted (messages.map Message.toDict))) c)
      (fun o _ s' => o.compacted = true →
        (LosesNothing deps.py engine s.tree s'.tree ↔ LeafFillsKept deps.py engine s.tree))
      (fun _ _ _ => False) := by
    refine tryCompaction_triple (fun _ _ h => h ▸ hs) (fun o _ _ hno _ hyes => ?_) ?_
    · rw [hno] at hyes
      cases hyes
    · rintro l s' e s'' r hr hrc rfl happ hbody -
      cases hr
      obtain ⟨b, hb, rfl⟩ := Option.map_eq_some_iff.mp hc
      obtain ⟨cut, -, hcut, -⟩ := DefaultContextEngine.compact_compacted hrc
      rw [← dedupedItems_messages] at hcut
      rw [happ.tree]
      exact losesNothing_push_iff hs.wf hb happ.fresh happ.parent hbody hcut
  have hpost := htriple [] s rfl
  generalize tryCompaction deps (fun messages =>
    .returns (engine.compact tokenBudget force aborted (messages.map Message.toDict))) c s = out at hok hpost ⊢
  obtain ⟨r, s', l⟩ := out
  cases hok
  exact hpost hcompacted

end

/-! ## Sample compactions -/

def appendMessages (deps : AgentRunnerDeps) (ms : List MessageBody) : Run Unit :=
  Prog.forEach ms fun m => appendMessage deps m

/-- A new session with the given messages. -/
def sessionOf (ms : List MessageBody) : RunState :=
  (appendMessages sampleDeps ms (RunState.start .empty 0 sampleRequest)).state

theorem sessionOf_synced (ms : List MessageBody) : (sessionOf ms).Synced := by
  have hkeep : Prog.Preserves (fun _ s => s.Synced) (appendMessages sampleDeps ms) :=
    Prog.Preserves.forEach fun m _ => appendMessage_triple (fun _ _ h => h)
      fun _ _ _ _ h hm happ => happ.synced_message h hm
  exact hkeep.finish (RunState.start_empty_synced sampleRequest)

/-- An engine that keeps the last message, whatever its length. -/
def keepLast : DefaultContextEngine := { asciiEngine with keepRecentTokens := 1 }

/-- A forced compaction within a budget of one token. -/
def compactNow (ms : List MessageBody) : Outcome Item RunState Escape CompactionOutcome :=
  tryCompaction sampleDeps (fun messages => .returns (keepLast.compact 1 true false (messages.map Message.toDict)))
    (((sessionOf ms).tree.buildSessionContext .ascii).getD []) (sessionOf ms)

def greeting : List MessageBody := [userMessage "hello", assistantMessage "hi" []]

theorem compactNow_greeting :
    LosesNothing .ascii keepLast (sessionOf greeting).tree (compactNow greeting).state.tree :=
  (@compaction_losesNothing_iff sampleDeps keepLast (sessionOf greeting) _ _ 1 true false
    (sessionOf_synced greeting) rfl rfl rfl).mpr ⟨_, _, rfl, rfl, rfl, by decide, by decide⟩

/-- A tool batch has just ended. -/
def toolTurn : List MessageBody :=
  [userMessage "list the files", assistantMessage "" [sampleCall "x"],
    { role := .tool, content := .str "a.txt", toolCallId := some "x" }]

/-- The planner keeps the tool message together with its call, the new context only the former. -/
theorem compactNow_toolTurn :
    (compactNow toolTurn).result.toOption.map CompactionOutcome.compacted = some true ∧
      ¬ LosesNothing .ascii keepLast (sessionOf toolTurn).tree (compactNow toolTurn).state.tree := by
  refine ⟨rfl, ?_⟩
  rintro ⟨b, b', cut, hb, hb', hcut, hsub, -⟩
  cases hb
  cases hb'
  cases hcut
  revert hsub
  decide

end PyClaw
