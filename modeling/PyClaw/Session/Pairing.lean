import Mathlib.Data.List.Perm.Basic
import PyClaw.Models.Agent

/-!
# Session.Pairing

Transcripts in which every tool call is answered by exactly one tool message before the next user
or assistant message, and no tool message stands alone.
-/

namespace PyClaw

/-- Reads a transcript with the ids of the calls still to be answered. -/
def pairsUp : List (Option String) → List Message → Bool
  | pending, [] => pending.isEmpty
  | pending, m :: rest =>
    match m.role with
    | .user => pending.isEmpty && pairsUp [] rest
    | .assistant => pending.isEmpty && pairsUp (m.toolCalls.map fun c => some c.id) rest
    | .tool => pending.contains m.toolCallId && pairsUp (pending.erase m.toolCallId) rest

def WellPaired (c : List Message) : Prop := pairsUp [] c = true

instance (c : List Message) : Decidable (WellPaired c) :=
  inferInstanceAs (Decidable (pairsUp [] c = true))

section
variable {pending : List (Option String)} {m : Message} {a b tools : List Message}

theorem pairsUp_append (ha : pairsUp pending a = true) (hb : WellPaired b) :
    pairsUp pending (a ++ b) = true := by
  induction a generalizing pending with
  | nil =>
    simp only [pairsUp, List.isEmpty_iff] at ha
    rw [ha]
    exact hb
  | cons m a ih =>
    simp only [List.cons_append, pairsUp] at ha ⊢
    split at ha
    · rw [Bool.and_eq_true] at ha ⊢
      exact ⟨ha.1, ih ha.2⟩
    · rw [Bool.and_eq_true] at ha ⊢
      exact ⟨ha.1, ih ha.2⟩
    · rw [Bool.and_eq_true] at ha ⊢
      exact ⟨ha.1, ih ha.2⟩

theorem WellPaired.append (ha : WellPaired a) (hb : WellPaired b) : WellPaired (a ++ b) :=
  pairsUp_append ha hb

/-- A message without calls that is no tool message. -/
theorem wellPaired_singleton (hrole : m.role ≠ .tool) (hcalls : m.toolCalls = []) :
    WellPaired [m] := by
  unfold WellPaired pairsUp
  split
  · rfl
  · simp [hcalls, pairsUp]
  · rename_i htool
    exact absurd htool hrole

theorem pairsUp_tools (hrole : ∀ t ∈ tools, t.role = .tool)
    (hperm : (tools.map Message.toolCallId).Perm pending) : pairsUp pending tools = true := by
  induction tools generalizing pending with
  | nil =>
    rw [List.map_nil, List.nil_perm] at hperm
    rw [hperm]
    rfl
  | cons t tools ih =>
    rw [List.map_cons, List.cons_perm_iff_perm_erase] at hperm
    have ht := hrole t List.mem_cons_self
    simp only [pairsUp, ht, Bool.and_eq_true, List.contains_iff_mem]
    exact ⟨hperm.1, ih (fun x hx => hrole x (List.mem_cons_of_mem t hx)) hperm.2⟩

/-- An assistant message with one tool message per call. -/
theorem wellPaired_turn (hm : m.role = .assistant) (hrole : ∀ t ∈ tools, t.role = .tool)
    (hperm : (tools.map Message.toolCallId).Perm (m.toolCalls.map fun c => some c.id)) :
    WellPaired (m :: tools) := by
  simp only [WellPaired, pairsUp, hm, List.isEmpty_nil, Bool.true_and]
  exact pairsUp_tools hrole hperm

end

end PyClaw
