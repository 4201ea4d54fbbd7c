import PyClaw.Sop.Candidates

/-!
# Sop.Retention

Which runs of the tracker and of extractions lose no candidate. `retained_iff`: exactly those in
which a cleanup deletes nothing that was recorded after the read, and no recording takes the field
of another candidate that has not been read.
-/

namespace PyClaw

namespace SopState

/-- Each recording that succeeded and was not evicted has been read or is still stored. -/
def Retained (s : SopState) : Prop :=
  ∀ p ∈ s.recorded, p ∈ s.read ∨ p ∈ s.candidates.items

/-- What the command removes from the hash by other ways than eviction has been read. -/
def Spares (s : SopState) (c : SopCommand) (answer : SopAnswer) : Prop :=
  match c with
  | .hset turnId c =>
    answer.delivery.sent = true → ∀ old, s.candidates.get? turnId = some old → old ≠ c →
      (turnId, old) ∈ s.recorded → (turnId, old) ∈ s.read
  | .cleanup =>
    answer.delivery.sent = true → ∀ p ∈ s.candidates.items, p ∈ s.recorded → p ∈ s.read
  | _ => True

variable {s : SopState} {settings : EvolutionSettings} {answer : SopAnswer}

theorem retained_hset (h : s.Retained) (turnId : String) (c : SopCandidate) :
    (s.hset turnId c).Retained ↔
      ∀ old, s.candidates.get? turnId = some old → old ≠ c →
        (turnId, old) ∈ s.recorded → (turnId, old) ∈ s.read := by
  constructor
  · intro hafter old hold hne hrecorded
    refine (hafter _ hrecorded).resolve_right fun hstored => ?_
    have hget := Dict.get?_eq_some.mpr hstored
    rw [hset, Dict.get?_set_self] at hget
    exact hne (Option.some.inj hget).symm
  · rintro hspares ⟨id, old⟩ hrecorded
    rcases h _ hrecorded with hread | hstored
    · exact .inl hread
    · have hget := Dict.get?_eq_some.mpr hstored
      by_cases hsame : turnId = id ∧ old ≠ c
      · obtain ⟨rfl, hne⟩ := hsame
        exact .inl (hspares old hget hne hrecorded)
      · -- the pair is still there: another field, or the same value again
        refine .inr (Dict.get?_eq_some.mp ?_)
        rw [hset, Dict.get?_set]
        split
        · rename_i hid
          rw [not_and_not_right.mp hsame hid]
        · exact hget

theorem retained_record (turnId : String) (c : SopCandidate) :
    Retained { s.hset turnId c with recorded := (turnId, c) :: s.recorded } ↔
      (s.hset turnId c).Retained := by
  have hstored : (turnId, c) ∈ (s.hset turnId c).candidates.items :=
    Dict.get?_eq_some.mp (Dict.get?_set_self ..)
  constructor
  · exact fun hafter p hp => hafter p (List.mem_cons_of_mem _ hp)
  · intro hafter p hp
    rcases List.mem_cons.mp hp with rfl | hold
    · exact .inr hstored
    · exact hafter p hold

theorem Retained.hdel (h : s.Retained) (fields : List String) : (s.hdel fields).Retained := by
  intro p hp
  obtain ⟨hrecorded, hkept⟩ := List.mem_filter.mp hp
  rcases h p hrecorded with hread | hstored
  · exact .inl hread
  · refine .inr (List.mem_filter.mpr ⟨hstored, ?_⟩)
    simpa [hstored] using hkept

theorem Retained.read (h : s.Retained) :
    Retained { s with read := s.candidates.items ++ s.read } :=
  fun p hp => (h p hp).imp (List.mem_append_right _) id

theorem retained_cleanup (h : s.Retained) :
    Retained { s with candidates := Dict.empty } ↔
      ∀ p ∈ s.candidates.items, p ∈ s.recorded → p ∈ s.read := by
  constructor
  · intro hafter p _ hrecorded
    exact (hafter p hrecorded).resolve_right List.not_mem_nil
  · intro hspares p hrecorded
    rcases h p hrecorded with hread | hstored
    · exact .inl hread
    · exact .inl (hspares p hstored hrecorded)

/-- A command keeps every candidate exactly when it spares what has not been read. -/
theorem Retained.exec_iff (h : s.Retained) (c : SopCommand) :
    (sopExec settings s c answer).1.Retained ↔ s.Spares c answer := by
  cases c with
  | hset turnId c =>
    cases hdelivery : answer.delivery with
    | answered =>
      simp only [sopExec, Spares, hdelivery, Delivery.sent, forall_const]
      rw [retained_record, retained_hset h]
    | unsent => simpa [sopExec, Spares, hdelivery, Delivery.sent] using h
    | unanswered =>
      simp only [sopExec, Spares, hdelivery, Delivery.sent, forall_const]
      rw [retained_hset h]
  | hlen =>
    simp only [sopExec, Spares, iff_true]
    split <;> exact h
  | hgetall =>
    simp only [sopExec, Spares, iff_true]
    split <;> exact h
  | hdel fields =>
    simp only [sopExec, Spares, iff_true]
    split
    · exact h.hdel fields
    · exact h
  | readCandidates =>
    simp only [sopExec, Spares, iff_true]
    split
    · split
      · exact h
      · exact h.read
    · exact h
  | loadSession candidateTurnIds =>
    simp only [sopExec, Spares, iff_true]
    split <;> exact h
  | callLlm =>
    simp only [sopExec, Spares, iff_true]
    split <;> exact h
  | storeSops => simpa only [sopExec, Spares, iff_true] using h
  | cleanup =>
    cases hsent : answer.delivery.sent with
    | true =>
      simp only [sopExec, Spares, hsent, if_true, forall_const]
      rw [retained_cleanup h]
    | false => simpa [sopExec, Spares, hsent] using h

/-- In every run of recordings and extractions of a session: each state has read or still stores
every candidate that was recorded and not evicted, exactly when each cleanup and each recording
spares what has not been read. -/
theorem retained_iff (settings : EvolutionSettings)
    (steps : List (TaskStep SopOp SopAnswer)) :
    Along (sopSystem settings).step (fun t a => ((sopSystem settings).step t a).state.Retained)
        { state := {} } steps ↔
      Along (sopSystem settings).step (Tasks.OnRun Spares) { state := {} } steps := by
  refine TaskSystem.along_iff (fun s c answer h => h.exec_iff c) ?_ steps
  intro p hp
  cases hp

/-- A turn that is recorded while the model answers is deleted by the cleanup, unread. -/
theorem recorded_during_llm_lost :
    let turn := fun id : String => [({ id := id, name := "bash", arguments := "" } : ToolCall)]
    let entry : SessionEntry :=
      { id := "e1", parentId := none
        body := .message { role := .assistant, content := .str "", toolCalls := turn "call_a" } }
    let tree : SessionTree :=
      { header := { id := "s1", workspaceId := "w", agentId := "a" }
        entries := Dict.empty.set "e1" entry, order := ["e1"] }
    let system := sopSystem {}
    let final := runFrom system.step { state := {} }
      [.starts 0 (.afterResponse (turn "call_a") "" 1), .runs 0 {}, .runs 0 {},
        .starts 1 .extractSopBackground, .runs 1 {}, .runs 1 { session := some (some tree) },
        .starts 0 (.afterResponse (turn "call_b") "" 2), .runs 0 {}, .runs 0 {},
        .runs 1 {}, .runs 1 {}]
    let lost := ("call_b", candidateOf (turn "call_b") "" 2)
    final.pending 0 = [] ∧ final.pending 1 = [] ∧ lost ∈ final.state.recorded ∧
      lost ∉ final.state.read ∧ lost ∉ final.state.candidates.items := by
  decide +kernel

end SopState

end PyClaw
