import Mathlib.Data.List.Sort
import PyClaw.Lib.Dict
import PyClaw.Models.Agent

/-!
# Agent.ToolCalls

From the deltas of a stream to the tool calls of a response: `merge_tool_call_deltas` and
`finalize_tool_calls` of `core/agent/llm.py`, and the two parsers of a call's arguments, the
runner's and the executor's.
-/

namespace PyClaw

/-- A normalised delta; an absent or empty `id` or `name` leaves the slot's own. -/
structure ToolCallDelta where
  index : Int
  id : Option String := none
  name : Option String := none
  arguments : String := ""
  deriving DecidableEq, Repr

structure ToolCallSlot where
  id : Option String := none
  name : String := ""
  arguments : String := ""
  deriving DecidableEq, Repr

/-- `x or y` for strings: `None` and `""` give way. -/
def orElseText (x : Option String) (y : String) : String :=
  match x with
  | some s => if s = "" then y else s
  | none => y

def mergeDelta (buffer : Dict Int ToolCallSlot) (d : ToolCallDelta) : Dict Int ToolCallSlot :=
  let slot := (buffer.get? d.index).getD {}
  buffer.set d.index {
    id := if orElseText d.id "" = "" then slot.id else d.id
    name := orElseText d.name slot.name
    arguments := slot.arguments ++ d.arguments }

def mergeToolCallDeltas (buffer : Dict Int ToolCallSlot) (deltas : List ToolCallDelta) :
    Dict Int ToolCallSlot :=
  deltas.foldl mergeDelta buffer

/-- The re-serialised arguments; text that is not JSON stays as it is. -/
def finalizeArguments (json : JsonModule) (raw : String) : Except Escape String :=
  let raw := if raw = "" then "\x7b\x7d" else raw
  match json.loads raw with
  | .ok v => .ok (json.dumps v)
  | .error .jsonDecodeError => .ok raw
  | .error .other => .error .jsonError

def finalizeSlot (json : JsonModule) (idx : Int) (slot : ToolCallSlot) : Except Escape ToolCall :=
  match finalizeArguments json slot.arguments with
  | .ok arguments =>
    .ok { id := orElseText slot.id ("call_" ++ toString idx), name := slot.name, arguments }
  | .error e => .error e

/-- `finalize_tool_calls`: the slots in the order of their indices. -/
def finalizeToolCalls (json : JsonModule) (buffer : Dict Int ToolCallSlot) :
    Except Escape (List ToolCall) :=
  (buffer.keys.insertionSort (· ≤ ·)).mapM fun idx =>
    finalizeSlot json idx ((buffer.get? idx).getD {})

/-- The runner's parse of a call's arguments; its `except Exception` catches all. -/
def parseArguments (json : JsonModule) (raw : String) : Json :=
  if raw = "" then .obj []
  else
    match json.loads raw with
    | .ok v => v
    | .error _ => .obj [("_raw", .str raw)]

/-- `_function_args`, the executor's parse; only `JSONDecodeError` is caught. -/
def functionArgs (json : JsonModule) (raw : String) : Except Escape (List (String × Json)) :=
  match json.loads raw with
  | .ok (.obj fields) => .ok fields
  | .ok _ => .ok [("_raw", .str raw)]
  | .error .jsonDecodeError => .ok [("_raw", .str raw)]
  | .error .other => .error .jsonError

/-- Text that `ToolCallStart` accepts: a JSON object, or no JSON at all. -/
def ObjectArguments (json : JsonModule) (raw : String) : Prop :=
  (parseArguments json raw).isObject = true

instance (json : JsonModule) (raw : String) : Decidable (ObjectArguments json raw) :=
  inferInstanceAs (Decidable ((parseArguments json raw).isObject = true))

/-! ## Finalised calls -/

theorem orElseText_ne_empty {x : Option String} {y : String} (h : y ≠ "") :
    orElseText x y ≠ "" := by
  unfold orElseText
  split
  · split
    · exact h
    · exact ‹_›
  · exact h

theorem callId_ne_empty (idx : Int) : "call_" ++ toString idx ≠ "" := by
  intro h
  have := congrArg String.toList h
  simp at this

theorem mem_of_mapM_ok {α β ε : Type} {f : α → Except ε β} {xs : List α} {ys : List β}
    (h : xs.mapM f = .ok ys) : ∀ y ∈ ys, ∃ x ∈ xs, f x = .ok y := by
  induction xs generalizing ys with
  | nil =>
    rw [List.mapM_nil] at h
    cases h
    exact fun y hy => absurd hy List.not_mem_nil
  | cons x xs ih =>
    rw [List.mapM_cons] at h
    match hx : f x, hxs : xs.mapM f with
    | .ok y, .ok ys' =>
      rw [hx, hxs] at h
      cases h
      intro z hz
      rcases List.mem_cons.mp hz with rfl | hz
      · exact ⟨x, List.mem_cons_self, hx⟩
      · obtain ⟨x', hx', hz'⟩ := ih hxs z hz
        exact ⟨x', List.mem_cons_of_mem x hx', hz'⟩
    | .ok y, .error e => rw [hx, hxs] at h; cases h
    | .error e, _ => rw [hx] at h; cases h

section
variable {json : JsonModule} {buffer : Dict Int ToolCallSlot} {calls : List ToolCall}

theorem finalizeSlot_ok {idx : Int} {slot : ToolCallSlot} {c : ToolCall}
    (h : finalizeSlot json idx slot = .ok c) :
    c.id ≠ "" ∧ c.name = slot.name ∧ finalizeArguments json slot.arguments = .ok c.arguments := by
  unfold finalizeSlot at h
  split at h
  · rename_i arguments ha
    cases h
    exact ⟨orElseText_ne_empty (callId_ne_empty idx), rfl, ha⟩
  · cases h

theorem finalized_id_ne_empty (h : finalizeToolCalls json buffer = .ok calls) :
    ∀ c ∈ calls, c.id ≠ "" := by
  intro c hc
  obtain ⟨idx, -, hslot⟩ := mem_of_mapM_ok h c hc
  exact (finalizeSlot_ok hslot).1

/-- The executor's parser accepts what finalising lets through. -/
theorem functionArgs_of_finalized {raw text : String} (h : finalizeArguments json raw = .ok text) :
    ∃ fields, functionArgs json text = .ok fields := by
  unfold finalizeArguments at h
  generalize hr : (if raw = "" then "\x7b\x7d" else raw) = r at h
  dsimp only at h
  split at h
  · rename_i v hv
    cases h
    obtain ⟨v', hv', -⟩ := json.loads_dumps r v hv
    unfold functionArgs
    rw [hv']
    cases v' <;> exact ⟨_, rfl⟩
  · rename_i hv
    cases h
    unfold functionArgs
    rw [hv]
    exact ⟨_, rfl⟩
  · cases h

theorem functionArgs_of_mem (h : finalizeToolCalls json buffer = .ok calls) :
    ∀ c ∈ calls, ∃ fields, functionArgs json c.arguments = .ok fields := by
  intro c hc
  obtain ⟨idx, -, hslot⟩ := mem_of_mapM_ok h c hc
  exact functionArgs_of_finalized (finalizeSlot_ok hslot).2.2

end

end PyClaw
