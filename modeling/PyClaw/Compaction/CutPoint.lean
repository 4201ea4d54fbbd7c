import PyClaw.Compaction.MessageDict
import PyClaw.Lib.Backward

/-!
# Compaction.CutPoint

`find_cut_point` and `plan_compaction` (`core/agent/compaction/planning.py`) over any message dictionaries.

* `findCutPoint_greatest`: a cut is the last index that is inside the list, holds no tool message and
  keeps enough tokens, and there is none only where no index does. A tool call that is directly followed
  by its results stays on the side of its results.
* `findCutPoint_last`: it keeps the last message alone exactly when that is no tool message and is long
  enough by itself.
-/

namespace PyClaw

structure CompactionPlan where
  shouldCompact : Bool
  estimatedTokens : Int
  cutIndex : Option Nat := none
  keptTokens : Int := 0
  reason : Option String := none

namespace MessageDict

section
variable (messages : List MessageDict)

/-- `messages[i].get("role") == "tool"`. -/
def isTool (i : Nat) : Bool := messages[i]?.any fun m => m.role = some "tool"

/-- `messages[i]` is an assistant message with tool calls. -/
def isCalling (i : Nat) : Bool :=
  messages[i]?.any fun m => m.role = some "assistant" && !m.toolCalls.isEmpty

/-- The second loop of `_adjust_for_tool_boundaries`. -/
def backToCalls : Nat → Nat
  | 0 => 0
  | i + 1 =>
    if isCalling messages i then i + 1
    else if messages.length ≤ i + 1 then i + 1
    else if isTool messages (i + 1) then backToCalls i
    else i + 1

/-- `_adjust_for_tool_boundaries`. -/
def adjustForToolBoundaries (cutIndex : Nat) : Nat :=
  backToCalls messages (Backward.skip (isTool messages) cutIndex)

/-- `find_cut_point`. -/
def findCutPoint (keepRecentTokens : Int) : Option Nat :=
  if messages.length ≤ 1 then none
  else
    match Backward.reach estimateTokens messages keepRecentTokens messages.length 0 with
    | none | some 0 => none
    | some cutIndex =>
      let cutIndex := adjustForToolBoundaries messages cutIndex
      if 0 < cutIndex then some cutIndex else none

/-- `plan_compaction`, with the budget `int(context_window * threshold)`. -/
def planCompaction (budget keepRecentTokens : Int) : CompactionPlan :=
  let estimated := estimateMessages messages
  if estimated ≤ budget then
    { shouldCompact := false, estimatedTokens := estimated, reason := some "within-budget" }
  else
    match findCutPoint messages keepRecentTokens with
    | none =>
      { shouldCompact := false, estimatedTokens := estimated, reason := some "no-safe-cut-point" }
    | some cut =>
      { shouldCompact := true, estimatedTokens := estimated, cutIndex := some cut
        keptTokens := estimateMessages (messages.drop cut) }

/-- A possible cut: inside the list, at no tool message, with enough tokens from there on. -/
structure IsCut (keepRecentTokens : Int) (k : Nat) : Prop where
  pos : 0 < k
  lt : k < messages.length
  noTool : ∀ m, messages[k]? = some m → m.role ≠ some "tool"
  keeps : keepRecentTokens ≤ estimateMessages (messages.drop k)

/-- The message at `q` is the result of a call of the message at `p`: it has the call's id, and the
message at `p` is the last one before it that made a call of that id. -/
structure Answers (p q : Nat) : Prop where
  lt : p < q
  result : ∃ caller result call, messages[p]? = some caller ∧ messages[q]? = some result ∧
    caller.role = some "assistant" ∧ call ∈ caller.toolCalls ∧
    result.role = some "tool" ∧ result.toolCallId = call.id ∧
    ∀ j m, p < j → j < q → messages[j]? = some m → m.role = some "assistant" →
      ∀ c ∈ m.toolCalls, c.id ≠ call.id

/-- Every call is directly followed by its results: between a call and a result of it there are only
tool messages. -/
def DirectlyAnswered : Prop :=
  ∀ p q, Answers messages p q → ∀ j, p < j → j ≤ q → isTool messages j = true

end

section
variable {messages : List MessageDict} {keep : Int} {i k p q : Nat}

/-- After the first loop there is nothing left for the second one. -/
theorem backToCalls_eq_self (h : 0 < i → isTool messages i = false) : backToCalls messages i = i := by
  cases i with
  | zero => rfl
  | succ i =>
    simp only [backToCalls]
    split
    · rfl
    · split
      · rfl
      · rw [h (by omega)]
        rfl

theorem adjust_eq_skip (i : Nat) :
    adjustForToolBoundaries messages i = Backward.skip (isTool messages) i :=
  backToCalls_eq_self fun h => Backward.skip_free h

theorem isTool_eq_false (h : k < messages.length) :
    isTool messages k = false ↔ ∀ m, messages[k]? = some m → m.role ≠ some "tool" := by
  simp [isTool, List.getElem?_eq_getElem h]

theorem isCut_iff :
    IsCut messages keep k ↔ Backward.Candidate estimateTokens messages (isTool messages) keep k := by
  constructor
  · intro h
    exact ⟨h.pos, h.lt, (isTool_eq_false h.lt).mpr h.noTool, h.keeps⟩
  · rintro ⟨hpos, hlt, hfree, hkeeps⟩
    exact ⟨hpos, hlt, (isTool_eq_false hlt).mp hfree, hkeeps⟩

theorem findCutPoint_isGreatest (h : findCutPoint messages keep = some k) :
    IsGreatest {k | IsCut messages keep k} k := by
  have hweight : ∀ m : MessageDict, 0 ≤ m.estimateTokens := by
    intro m
    have := m.eight_le_estimate
    omega
  unfold findCutPoint at h
  split at h
  · cases h
  · split at h
    · cases h
    · cases h
    · rename_i i _ hreach
      dsimp only at h
      split at h
      · rename_i hpos
        cases h
        rw [adjust_eq_skip] at hpos ⊢
        simp only [isCut_iff]
        exact Backward.skip_isGreatest hweight hreach hpos
      · cases h

/-- The cut lies strictly inside the list. -/
theorem findCutPoint_lt (h : findCutPoint messages keep = some k) : 0 < k ∧ k < messages.length :=
  ⟨(findCutPoint_isGreatest h).1.pos, (findCutPoint_isGreatest h).1.lt⟩

theorem findCutPoint_none (h : findCutPoint messages keep = none) (k : Nat) :
    ¬ IsCut messages keep k := by
  rw [isCut_iff]
  unfold findCutPoint at h
  split at h
  · rintro ⟨hpos, hlt, -, -⟩
    omega
  · split at h
    · rename_i hreach
      exact Backward.no_candidate (.inl hreach) k
    · rename_i hreach
      exact Backward.no_candidate (.inr ⟨0, hreach, rfl⟩) k
    · rename_i i _ hreach
      dsimp only at h
      split at h
      · cases h
      · rename_i hzero
        rw [adjust_eq_skip] at hzero
        exact Backward.no_candidate (.inr ⟨i, hreach, by omega⟩) k

/-- A call and its results are not separated by an index that holds no tool message. -/
theorem DirectlyAnswered.same_side (h : DirectlyAnswered messages) (hk : isTool messages k = false)
    (hans : Answers messages p q) : p < k ↔ q < k := by
  have hlt := hans.lt
  constructor
  · intro hp
    by_contra hq
    have htool := h p q hans k hp (by omega)
    simp [hk] at htool
  · intro hq
    omega

/-- **Cut point.** -/
theorem findCutPoint_greatest (messages : List MessageDict) (keepRecentTokens : Int) :
    match findCutPoint messages keepRecentTokens with
    | some k =>
      IsGreatest {k | IsCut messages keepRecentTokens k} k ∧
        (DirectlyAnswered messages → ∀ p q, Answers messages p q → (p < k ↔ q < k))
    | none => ∀ k, ¬ IsCut messages keepRecentTokens k := by
  split
  · rename_i k hcut
    have hgreatest := findCutPoint_isGreatest hcut
    refine ⟨hgreatest, fun hdirect p q hans => ?_⟩
    exact hdirect.same_side ((isTool_eq_false hgreatest.1.lt).mpr hgreatest.1.noTool) hans
  · rename_i hnone
    exact findCutPoint_none hnone

/-- What a plan counts as kept is at least what was to be kept. -/
theorem planCompaction_kept {budget : Int}
    (h : (planCompaction messages budget keep).cutIndex = some k) :
    keep ≤ (planCompaction messages budget keep).keptTokens := by
  unfold planCompaction at h ⊢
  dsimp only at h ⊢
  split at h
  · cases h
  · rename_i hover
    split at h
    · cases h
    · rename_i cut hcut
      have hgreatest := findCutPoint_isGreatest hcut
      simp only [if_neg hover]
      exact hgreatest.1.keeps

theorem planCompaction_cut {budget : Int} (h : (planCompaction messages budget keep).cutIndex = some k) :
    findCutPoint messages keep = some k := by
  simp only [planCompaction] at h
  split at h
  · cases h
  · split at h
    · cases h
    · rename_i hcut
      rw [hcut]
      exact h

/-- The cut keeps the last message alone exactly when that is no tool message and fills the tokens
to be kept by itself. -/
theorem findCutPoint_last (h : findCutPoint messages keep = some k) :
    k + 1 = messages.length ↔
      ∃ m, messages.getLast? = some m ∧ m.role ≠ some "tool" ∧ keep ≤ m.estimateTokens := by
  obtain ⟨hcut, hgreatest⟩ := findCutPoint_isGreatest h
  have hlt := hcut.lt
  obtain ⟨n, hn⟩ : ∃ n, messages.length = n + 1 := ⟨messages.length - 1, by omega⟩
  obtain ⟨last, hm⟩ : ∃ m, messages[n]? = some m := ⟨messages[n], List.getElem?_eq_getElem (by omega)⟩
  have hlast : messages.getLast? = some last := by
    rw [List.getLast?_eq_getElem?, hn]
    exact hm
  have hdrop : estimateMessages (messages.drop n) = last.estimateTokens := by
    obtain ⟨hlt, rfl⟩ := List.getElem?_eq_some_iff.mp hm
    rw [List.drop_eq_getElem_cons hlt, List.drop_of_length_le (by omega)]
    simp [estimateMessages]
  constructor
  · intro hk
    have hkn : k = n := by omega
    subst hkn
    exact ⟨last, hlast, hcut.noTool _ hm, hdrop ▸ hcut.keeps⟩
  · rintro ⟨m, hmlast, htool, hkeep⟩
    cases hlast.symm.trans hmlast
    have hpos := hcut.pos
    have hle : n ≤ k := hgreatest
      { pos := by omega
        lt := by omega
        noTool := fun m' hm' => by
          cases hm.symm.trans hm'
          exact htool
        keeps := hdrop ▸ hkeep }
    omega

end

end MessageDict

end PyClaw
