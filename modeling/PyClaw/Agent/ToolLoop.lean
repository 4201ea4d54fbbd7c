import Mathlib.Data.List.Find
import Mathlib.Data.List.Sort
import PyClaw.Lib.Log
import PyClaw.Tools.Registry

/-!
# Agent.ToolLoop

The unknown-tool loop detector, `_update_tool_loop_state` of `core/agent/runner.py`, and what its
verdicts say about the turns of a run.

The detector asks `name in registry`; execution asks `registry.get(name)`, which also resolves
the wire name of an MCP tool. Where the two agree on every called name (`Agree`), guidance and
termination are earned (`runTurns_earned`).
-/

namespace PyClaw

/-- `unknown_tool_name`, `unknown_tool_count` and `unknown_tool_warned` of a run. -/
structure LoopState where
  name : Option String := none
  count : Nat := 0
  warned : Bool := false
  deriving DecidableEq, Repr

inductive LoopAction where
  | proceed
  | warn (guidance : String)
  | terminate
  deriving DecidableEq, Repr

namespace ToolRegistry

/-- `", ".join(sorted(registry.names())) or "(none)"`. -/
def available (r : ToolRegistry) : String :=
  let joined := String.intercalate ", " (r.names.insertionSort (· ≤ ·))
  if joined = "" then "(none)" else joined

def loopGuidance (r : ToolRegistry) (name : String) : String :=
  "You called `" ++ name ++ "` which does not exist. Available tools: [" ++ r.available ++
    "]. Stop calling `" ++ name ++ "`."

end ToolRegistry

/-- `unknown_names_in_turn`, its first element if there is one. -/
def firstUnknown (calls : List ToolCall) (registry : ToolRegistry) : Option String :=
  (calls.map ToolCall.name).find? fun n => n ≠ "" && !registry.contains n

/-- `_update_tool_loop_state`. -/
def updateToolLoopState (calls : List ToolCall) (registry : ToolRegistry) (st : LoopState)
    (threshold : Int) : LoopState × LoopAction :=
  if threshold ≤ 0 ∨ calls = [] then ({}, .proceed)
  else
    match firstUnknown calls registry with
    | none => ({}, .proceed)
    | some first =>
      let st := if st.name.isSome ∧ st.name ≠ some first then { st with count := 0, warned := false }
        else st
      let count := st.count + 1
      if st.warned then ({ name := some first, count, warned := true }, .terminate)
      else if threshold ≤ count then
        ({ name := some first, count, warned := true }, .warn (registry.loopGuidance first))
      else ({ name := some first, count, warned := false }, .proceed)

/-! ## Runs of the detector -/

/-- A tool-call turn: the calls of the response and the registry at that time. -/
structure CallTurn where
  calls : List ToolCall
  registry : ToolRegistry

/-- A turn with the detector's variables around it. -/
structure LoopStep where
  turn : CallTurn
  before : LoopState
  after : LoopState
  action : LoopAction

def CallTurn.step (threshold : Int) (st : LoopState) (t : CallTurn) : LoopStep :=
  let r := updateToolLoopState t.calls t.registry st threshold
  { turn := t, before := st, after := r.1, action := r.2 }

/-- The steps of a run on the given turns; `terminate` ends it. -/
def runTurns (threshold : Int) : LoopState → List CallTurn → List LoopStep
  | _, [] => []
  | st, t :: ts =>
    let s := t.step threshold st
    s :: if s.action = .terminate then [] else runTurns threshold s.after ts

/-! ## What the verdicts should mean -/

namespace CallTurn

/-- The first name that execution cannot resolve; a call without a name has none to resolve. -/
def firstUnresolvable (t : CallTurn) : Option String :=
  (t.calls.map ToolCall.name).find? fun n => n ≠ "" && (t.registry.get n).isNone

def AllResolved (t : CallTurn) : Prop := ∀ c ∈ t.calls, (t.registry.get c.name).isSome

/-- No called name is resolved through the `__` rewrite only. -/
def Agree (t : CallTurn) : Prop :=
  ∀ c ∈ t.calls, (t.registry.get c.name).isSome → t.registry.contains c.name = true

instance (t : CallTurn) : Decidable t.Agree :=
  inferInstanceAs (Decidable (∀ c ∈ t.calls,
    (t.registry.get c.name).isSome → t.registry.contains c.name = true))

end CallTurn

/-- The last `n` of `turns` all stumble on `name` first. -/
def Stuck (n : Int) (name : String) (turns : List CallTurn) : Prop :=
  ∃ old recent, turns = old ++ recent ∧ (recent.length : Int) = n ∧
    ∀ t ∈ recent, t.firstUnresolvable = some name

/-- What the verdict of step `s` means after the steps `before`. -/
structure Earned (threshold : Int) (before : List LoopStep) (s : LoopStep) : Prop where
  warn : ∀ guidance, s.action = .warn guidance →
    ∃ name, guidance = s.turn.registry.loopGuidance name ∧
      Stuck threshold name (before.map LoopStep.turn ++ [s.turn])
  terminate : s.action = .terminate →
    ∃ before' u name, before = before' ++ [u] ∧
      u.action = .warn (u.turn.registry.loopGuidance name) ∧ s.turn.firstUnresolvable = some name
  resolved : s.turn.AllResolved → s.after.count ≤ s.before.count

/-! ## Agreement of the two lookups -/

namespace ToolRegistry

theorem get_of_contains {r : ToolRegistry} {name : String} (hne : name ≠ "")
    (h : r.contains name = true) : (r.get name).isSome := by
  unfold contains Dict.contains at h
  obtain ⟨t, ht⟩ := Option.isSome_iff_exists.mp h
  rw [get, if_neg hne, ht]
  rfl

end ToolRegistry

namespace CallTurn

theorem Agree.firstUnknown {t : CallTurn} (h : t.Agree) :
    PyClaw.firstUnknown t.calls t.registry = t.firstUnresolvable := by
  unfold PyClaw.firstUnknown firstUnresolvable
  refine List.find?_congr fun n hn => ?_
  obtain ⟨c, hc, rfl⟩ := List.mem_map.mp hn
  by_cases hne : c.name = ""
  · simp [hne]
  · have hiff : t.registry.contains c.name = (t.registry.get c.name).isSome :=
      Bool.eq_iff_iff.mpr ⟨ToolRegistry.get_of_contains hne, h c hc⟩
    rw [hiff, Option.not_isSome]

theorem AllResolved.firstUnresolvable {t : CallTurn} (h : t.AllResolved) :
    t.firstUnresolvable = none := by
  rw [CallTurn.firstUnresolvable, List.find?_eq_none]
  intro n hn
  obtain ⟨c, hc, rfl⟩ := List.mem_map.mp hn
  have := h c hc
  simp [Option.isNone_eq_false_iff.mpr this]

end CallTurn

/-! ## One step -/

/-- Everything a step can do: forget, or count the first unknown name on top of the current
streak and judge it. -/
theorem updateToolLoopState_cases {calls : List ToolCall} {registry : ToolRegistry}
    {st : LoopState} {threshold : Int} (hnone : st.name = none → st.count = 0 ∧ st.warned = false) :
    updateToolLoopState calls registry st threshold = ({}, .proceed) ∨
    ∃ first, 0 < threshold ∧ firstUnknown calls registry = some first ∧
      (st.name = some first ∧ st.warned = true ∧
        updateToolLoopState calls registry st threshold =
          ({ name := some first, count := st.count + 1, warned := true }, .terminate) ∨
      ∃ streak, (streak = 0 ∨ st.name = some first ∧ streak = st.count) ∧
        updateToolLoopState calls registry st threshold =
          ({ name := some first, count := streak + 1, warned := decide (threshold ≤ streak + 1) },
            if threshold ≤ streak + 1 then .warn (registry.loopGuidance first) else .proceed)) := by
  unfold updateToolLoopState
  split
  · exact .inl rfl
  · rename_i hgo
    have hpos : 0 < threshold := by
      by_contra hle
      exact hgo (.inl (by omega))
    split
    · exact .inl rfl
    · rename_i first hfirst
      refine .inr ⟨first, hpos, hfirst, ?_⟩
      by_cases hsame : st.name = some first
      · -- the streak goes on
        cases hw : st.warned with
        | true => exact .inl ⟨hsame, rfl, by simp [hsame, hw]⟩
        | false =>
          refine .inr ⟨st.count, .inr ⟨hsame, rfl⟩, ?_⟩
          by_cases hreach : threshold ≤ (st.count : Int) + 1
          · simp [hsame, hw, hreach]
          · simp [hsame, hw, hreach]
      · -- another name, or the first one: the streak starts again, without a warning
        refine .inr ⟨0, .inl rfl, ?_⟩
        have hreset : ∀ st', st' = (if st.name.isSome ∧ st.name ≠ some first then
            { st with count := 0, warned := false } else st) →
            st'.count = 0 ∧ st'.warned = false := by
          rintro st' rfl
          cases hn : st.name with
          | none => simpa using hnone hn
          | some other =>
            have hother : other ≠ first := fun he => hsame (by rw [hn, he])
            simp [hother]
        obtain ⟨hcount, hwarned⟩ := hreset _ rfl
        simp only [hcount, hwarned, Bool.false_eq_true, if_false]
        by_cases hreach : threshold ≤ 1
        · simp [hreach]
        · simp [hreach]

/-! ## Runs -/

/-- What the variables remember of the steps done: a streak of `count` turns that stumble on
`name`, and whether the last of them gave guidance. -/
structure Remembers (done : List LoopStep) (st : LoopState) : Prop where
  fresh : st.name = none → st.count = 0 ∧ st.warned = false
  streak : ∀ name, st.name = some name → Stuck st.count name (done.map LoopStep.turn)
  warned : st.warned = true → ∃ done' u name, done = done' ++ [u] ∧ st.name = some name ∧
    u.action = .warn (u.turn.registry.loopGuidance name)

theorem remembers_nil : Remembers [] {} where
  fresh := fun _ => ⟨rfl, rfl⟩
  streak := fun _ h => by cases h
  warned := fun h => by cases h

theorem Stuck.snoc {n : Int} {name : String} {turns : List CallTurn} {t : CallTurn}
    (h : Stuck n name turns) (ht : t.firstUnresolvable = some name) :
    Stuck (n + 1) name (turns ++ [t]) := by
  obtain ⟨old, recent, rfl, hlen, hall⟩ := h
  refine ⟨old, recent ++ [t], by simp, by simp [hlen], fun u hu => ?_⟩
  rcases List.mem_append.mp hu with hu | hu
  · exact hall u hu
  · rw [List.mem_singleton.mp hu]; exact ht

theorem Stuck.mono {n m : Int} {name : String} {turns : List CallTurn} (h : Stuck n name turns)
    (hm : 0 ≤ m) (hle : m ≤ n) : Stuck m name turns := by
  obtain ⟨old, recent, rfl, hlen, hall⟩ := h
  refine ⟨old ++ recent.take (recent.length - m.toNat), recent.drop (recent.length - m.toNat), ?_,
    ?_, fun t ht => hall t (List.mem_of_mem_drop ht)⟩
  · rw [List.append_assoc, List.take_append_drop]
  · rw [List.length_drop]
    omega

theorem stuck_zero (name : String) (turns : List CallTurn) : Stuck 0 name turns :=
  ⟨turns, [], by simp, rfl, fun _ h => absurd h List.not_mem_nil⟩

section
variable {threshold : Int} {done : List LoopStep} {st : LoopState} {t : CallTurn}

/-- One step keeps the memory, as long as it does not end the run, and earns its verdict. -/
theorem Remembers.step (h : Remembers done st) (ht : 0 < threshold → t.Agree) :
    Earned threshold done (t.step threshold st) ∧
      ((t.step threshold st).action ≠ .terminate →
        Remembers (done ++ [t.step threshold st]) (t.step threshold st).after) := by
  rcases @updateToolLoopState_cases t.calls t.registry st threshold h.fresh with
    heq | ⟨first, hpos, hfirst, ⟨hname, hwarned, heq⟩ | ⟨streak, hstreak, heq⟩⟩
  · have hstep : t.step threshold st = ⟨t, st, {}, .proceed⟩ := by simp [CallTurn.step, heq]
    rw [hstep]
    refine ⟨⟨nofun, nofun, fun _ => Nat.zero_le _⟩, fun _ => ?_⟩
    exact ⟨fun _ => ⟨rfl, rfl⟩, nofun, nofun⟩
  · -- the run ends: the streak's last turn gave guidance for this very name
    rw [(ht hpos).firstUnknown] at hfirst
    have hstep : t.step threshold st =
        ⟨t, st, { name := some first, count := st.count + 1, warned := true }, .terminate⟩ := by
      simp [CallTurn.step, heq]
    rw [hstep]
    obtain ⟨done', u, name, hdone, hn, hu⟩ := h.warned hwarned
    have hsame : name = first := Option.some.inj (hn.symm.trans hname)
    refine ⟨⟨nofun, fun _ => ⟨done', u, first, hdone, hsame ▸ hu, hfirst⟩,
      fun hall => ?_⟩, fun hne => absurd rfl hne⟩
    rw [hall.firstUnresolvable] at hfirst
    cases hfirst
  · rw [(ht hpos).firstUnknown] at hfirst
    have hstep : t.step threshold st = ⟨t, st,
        { name := some first, count := streak + 1, warned := decide (threshold ≤ streak + 1) },
        if threshold ≤ streak + 1 then .warn (t.registry.loopGuidance first) else .proceed⟩ := by
      simp [CallTurn.step, heq]
    rw [hstep]
    have hold : Stuck streak first (done.map LoopStep.turn) := by
      rcases hstreak with rfl | ⟨hn, rfl⟩
      · exact stuck_zero _ _
      · exact h.streak first hn
    have hnew := hold.snoc hfirst
    refine ⟨⟨fun g hg => ?_, fun hw => ?_, fun hall => ?_⟩, fun _ => ⟨nofun, ?_, ?_⟩⟩
    · by_cases hreach : threshold ≤ (streak : Int) + 1
      · simp only [hreach, if_true, LoopAction.warn.injEq] at hg
        exact ⟨first, hg.symm, hnew.mono hpos.le hreach⟩
      · simp [hreach] at hg
    · dsimp only at hw
      split at hw <;> cases hw
    · rw [hall.firstUnresolvable] at hfirst
      cases hfirst
    · intro name hname
      cases hname
      simpa using hnew
    · intro hw
      have hreach : threshold ≤ (streak : Int) + 1 := by simpa using hw
      exact ⟨done, _, first, rfl, rfl, by simp [hreach]⟩

theorem Remembers.runTurns (h : Remembers done st) (hdone : AtEach (Earned threshold) done)
    {ts : List CallTurn} (hts : ∀ t ∈ ts, 0 < threshold → t.Agree) :
    AtEach (Earned threshold) (done ++ runTurns threshold st ts) := by
  induction ts generalizing done st with
  | nil => simpa [PyClaw.runTurns] using hdone
  | cons t ts ih =>
    obtain ⟨hearned, hnext⟩ := @Remembers.step threshold done st t h (hts t List.mem_cons_self)
    have hdone' := atEach_snoc.mpr ⟨hdone, hearned⟩
    rw [PyClaw.runTurns]
    split
    · exact hdone'
    · rename_i hgo
      have := ih (hnext hgo) hdone' fun u hu => hts u (List.mem_cons_of_mem t hu)
      simpa using this

end

/-- **Unknown-tool loops.** In every run all of whose turns are decided alike by the detector's
lookup and by execution's, each verdict is earned; and so it is where a threshold turns the detector off. -/
theorem runTurns_earned (threshold : Int) (turns : List CallTurn)
    (h : ∀ t ∈ turns, 0 < threshold → t.Agree) : AtEach (Earned threshold) (runTurns threshold {} turns) :=
  remembers_nil.runTurns atEach_nil h

/-- Three calls of a tool that does not exist, against an empty registry. -/
theorem runTurns_earned_missing_tool :
    AtEach (Earned 2) (runTurns 2 {} (List.replicate 3
      { calls := [{ id := "call_0", name := "lost", arguments := "" }]
        registry := ToolRegistry.empty })) :=
  runTurns_earned 2 _ fun t ht _ => by
    rw [List.eq_of_mem_replicate ht]
    decide

/-- The tool `s:t` is offered as `s__t` and execution resolves that name, but the detector counts
a call of it as unknown, and ends the run on the second such call. -/
theorem wire_name_counted_unknown :
    ∃ t, mcpToolAdapter .ascii "s" {} { name := "t" } = .ok t ∧
      ∃ turn : CallTurn, turn.registry = ToolRegistry.run .ascii [.register t] ∧
        turn.calls.map ToolCall.name = [(toOpenAiFunction t).name] ∧ turn.AllResolved ∧
        ¬ AtEach (Earned 1) (runTurns 1 {} [turn]) ∧
        (runTurns 1 {} [turn, turn]).getLast?.map LoopStep.action = some .terminate := by
  refine ⟨_, rfl, ⟨[{ id := "call_0", name := "s__t", arguments := "\x7b\x7d" }], _⟩, rfl, by decide,
    ?_, fun h => ?_, by decide⟩
  · intro c hc
    rw [List.mem_singleton.mp hc]
    decide
  · have hcount := (h [] _ [] rfl).resolved (fun c hc => by
      rw [List.mem_singleton.mp hc]
      decide)
    revert hcount
    decide

end PyClaw
