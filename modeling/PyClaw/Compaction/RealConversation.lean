import PyClaw.Compaction.Engine

/-!
# Compaction.RealConversation

When `DefaultContextEngine.compact` refuses a conversation. `compact_userText`: a user text without a
heartbeat marker in it is never refused.
-/

namespace PyClaw
namespace DefaultContextEngine

open MessageDict

/-- The answer that there is nothing to summarise but heartbeats. -/
def RefusesConversation (r : CompactResult) : Prop := r.reason = some "no real conversation"

/-! ## Refusals -/

section
variable {py : PyText} {engine : DefaultContextEngine} {messages : List MessageDict} {m : MessageDict}

/-- Texts that begin differently differ. -/
theorem append_ne {a b c : String} (h : ¬ a.toList <+: c.toList) : a ++ b ≠ c := by
  rintro rfl
  exact h (by simp)

theorem planCompaction_reason (messages : List MessageDict) (budget keep : Int) :
    (planCompaction messages budget keep).reason ≠ some "no real conversation" := by
  unfold planCompaction
  dsimp only
  split
  · simp
  · split
    · simp
    · simp

/-- The refusal is the answer of `has_real_conversation`. -/
theorem refuses_iff (engine : DefaultContextEngine) (tokenBudget : Int) (force aborted : Bool)
    (messages : List MessageDict) :
    RefusesConversation (engine.compact tokenBudget force aborted messages) ↔
      aborted = false ∧ hasRealConversation engine.settings.py messages = false := by
  have hfailed : ∀ message, "summary failed: " ++ message ≠ "no real conversation" :=
    fun _ => append_ne (by decide)
  have hcompacted : ∀ cut, "compacted-at-" ++ cut ≠ "no real conversation" :=
    fun _ => append_ne (by decide)
  unfold RefusesConversation compact
  cases aborted with
  | true => simp [DefaultContextEngine.failure]
  | false =>
    simp only [Bool.false_eq_true, if_false, true_and]
    split
    · rename_i hnone
      simp [skipped, hnone]
    · rename_i hreal
      refine iff_of_false ?_ hreal
      split
      · split
        · simp [DefaultContextEngine.failure]
        · simp [DefaultContextEngine.failure]
        · simp [DefaultContextEngine.failure, hfailed]
        · simp [hcompacted]
      · exact planCompaction_reason _ _ _

theorem isReal_of_userText (hlower : ∀ s, py.lower s = "" → s = "") (huser : m.role = some "user")
    (hblank : stripped py m ≠ "") (hmarker : hasMarker (lowered py m) = false) :
    isReal py m = true := by
  have hne : lowered py m ≠ "" := fun h => hblank (hlower _ h)
  simp [isReal, huser, hne, hmarker]

/-- **A user text is a conversation** unless a marker occurs in it. -/
theorem compact_userText (engine : DefaultContextEngine)
    (hlower : ∀ s, engine.settings.py.lower s = "" → s = "") (tokenBudget : Int)
    (force aborted : Bool) (messages : List MessageDict) (m : MessageDict) (hm : m ∈ messages)
    (huser : m.role = some "user") (hblank : stripped engine.settings.py m ≠ "")
    (hmarker : ∀ marker ∈ heartbeatMarkers,
      occurs marker.toList (lowered engine.settings.py m).toList = false) :
    ¬ RefusesConversation (engine.compact tokenBudget force aborted messages) := by
  have hfree : hasMarker (lowered engine.settings.py m) = false := by
    simpa [hasMarker] using hmarker
  have hreal := isReal_of_userText hlower huser hblank hfree
  rw [refuses_iff]
  rintro ⟨-, hnone⟩
  have hany : hasRealConversation engine.settings.py messages = true :=
    List.any_eq_true.mpr ⟨m, hm, hreal⟩
  rw [hnone] at hany
  cases hany

/-! ## Heartbeats -/

theorem ascii_lower_eq_empty (s : String) (h : PyText.ascii.lower s = "") : s = "" := by
  have hlist : s.toList.map Char.toLower = [] := by simpa [PyText.ascii] using congrArg String.toList h
  simpa using hlist

def question : MessageDict := { role := some "user", content := .str "what did I buy" }

theorem question_not_refused :
    ¬ RefusesConversation (asciiEngine.compact 1000 true false [question]) :=
  compact_userText asciiEngine ascii_lower_eq_empty 1000 true false [question] question
    List.mem_cons_self rfl (by decide) (by decide)

/-- A heartbeat: its user text is no marker as a whole. -/
def heartbeat : List MessageDict :=
  [{ role := some "user", content := .str "[heartbeat] ping" },
    { role := some "assistant", content := .str "[heartbeat] pong" }]

theorem heartbeat_refused :
    ¬ ∀ messages : List MessageDict,
      (∃ m ∈ messages, m.role = some "user" ∧ stripped .ascii m ≠ "" ∧
        lowered .ascii m ∉ heartbeatMarkers) →
      ¬ RefusesConversation (asciiEngine.compact 1000 true false messages) := by
  intro h
  refine h heartbeat ⟨_, List.mem_cons_self, rfl, by decide, by decide⟩ ?_
  rw [refuses_iff]
  exact ⟨rfl, by decide⟩

end

end DefaultContextEngine

end PyClaw
