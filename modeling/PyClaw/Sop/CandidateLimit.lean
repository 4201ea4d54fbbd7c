import PyClaw.Sop.Candidates

/-!
# Sop.CandidateLimit

Recording one candidate after the other: `HSET`, `HLEN`, and above the limit the deletion of the ten oldest
ones. `items_record`: with increasing timestamps the hash is a list in the order of time, and an eviction
drops its front. `recordings_keepNewest_iff`: the candidate just recorded survives exactly if the limit is at
least ten or is never exceeded. `recordCandidate_alone` connects the recording to the commands of the tracker.
-/

namespace PyClaw

/-- `after_response` for a candidate, with every command answered and no other writer in between. -/
def recordCandidate (maxCandidates : Int) (hash : Dict String SopCandidate) (c : SopCandidate) :
    Dict String SopCandidate :=
  let written := hash.set c.turnId c
  if written.items.length ≤ maxCandidates then written
  else written.retain fun turnId _ => turnId ∉ oldestFields written.items

/-- What a recording promises. -/
structure KeepsNewest (maxCandidates : Int) (hash : Dict String SopCandidate) (c : SopCandidate) : Prop where
  present : (recordCandidate maxCandidates hash c).get? c.turnId = some c
  bounded : (recordCandidate maxCandidates hash c).items.length ≤ maxCandidates
  oldest : ∀ p ∈ (hash.set c.turnId c).items, p ∉ (recordCandidate maxCandidates hash c).items →
    ∀ q ∈ (recordCandidate maxCandidates hash c).items, p.2.timestamp < q.2.timestamp

/-- The candidates of the hash in the order of time, all of them before those that follow. -/
structure InOrder (hash : Dict String SopCandidate) (following : List SopCandidate) : Prop where
  sorted : hash.items.Pairwise fun p q => p.2.timestamp < q.2.timestamp
  before : ∀ p ∈ hash.items, ∀ c ∈ following, p.2.timestamp < c.timestamp ∧ p.1 ≠ c.turnId

section
variable {maxCandidates : Int} {hash : Dict String SopCandidate} {c : SopCandidate} {cs : List SopCandidate}

theorem oldestFields_of_sorted {entries : List (String × SopCandidate)}
    (h : entries.Pairwise fun p q => p.2.timestamp < q.2.timestamp) :
    oldestFields entries = (entries.take evictionBatch).map Prod.fst := by
  rw [oldestFields, List.mergeSort_of_pairwise (h.imp fun hlt => decide_eq_true (Int.le_of_lt hlt))]

/-- Deleting the fields of a list's front leaves the rest, since fields are distinct. -/
theorem filter_not_mem_front (front rest : List (String × SopCandidate))
    (h : ((front ++ rest).map Prod.fst).Nodup) :
    ((front ++ rest).filter fun p => p.1 ∉ front.map Prod.fst) = rest := by
  rw [List.map_append, List.nodup_append] at h
  rw [List.filter_append]
  have hfront : (front.filter fun p => p.1 ∉ front.map Prod.fst) = [] := by
    rw [List.filter_eq_nil_iff]
    intro p hp
    simpa using ⟨p.2, hp⟩
  have hrest : (rest.filter fun p => p.1 ∉ front.map Prod.fst) = rest := by
    rw [List.filter_eq_self]
    intro p hp
    refine decide_eq_true fun hmem => ?_
    exact h.2.2 _ hmem _ (List.mem_map_of_mem hp) rfl
  rw [hfront, hrest, List.nil_append]

theorem InOrder.append (h : InOrder hash (c :: cs)) :
    (hash.items ++ [(c.turnId, c)]).Pairwise fun p q => p.2.timestamp < q.2.timestamp := by
  refine List.pairwise_append.mpr ⟨h.sorted, List.pairwise_singleton _ _, fun p hp q hq => ?_⟩
  rw [List.mem_singleton.mp hq]
  exact (h.before p hp c List.mem_cons_self).1

theorem InOrder.items_set (h : InOrder hash (c :: cs)) :
    (hash.set c.turnId c).items = hash.items ++ [(c.turnId, c)] := by
  refine Dict.items_set_of_not_mem c fun hmem => ?_
  obtain ⟨v, hv⟩ := Dict.exists_get?_of_mem_keys hmem
  exact (h.before _ (Dict.mem_items_of_get? hv) c List.mem_cons_self).2 rfl

/-- A recording appends; one that exceeds the limit then drops the ten first candidates. -/
theorem items_record (maxCandidates : Int) (h : InOrder hash (c :: cs)) :
    (recordCandidate maxCandidates hash c).items =
      if ((hash.items ++ [(c.turnId, c)]).length : Int) ≤ maxCandidates then hash.items ++ [(c.turnId, c)]
      else (hash.items ++ [(c.turnId, c)]).drop evictionBatch := by
  have hitems := h.items_set
  have hnodup := (hash.set c.turnId c).nodup
  rw [hitems] at hnodup
  rw [recordCandidate, hitems]
  split
  · exact hitems
  · have hretain : ((hash.set c.turnId c).retain fun turnId _ =>
        turnId ∉ oldestFields (hash.items ++ [(c.turnId, c)])).items =
          (hash.items ++ [(c.turnId, c)]).filter fun p => p.1 ∉ oldestFields (hash.items ++ [(c.turnId, c)]) :=
      congrArg _ hitems
    rw [hretain, oldestFields_of_sorted h.append]
    have hsplit := filter_not_mem_front ((hash.items ++ [(c.turnId, c)]).take evictionBatch)
      ((hash.items ++ [(c.turnId, c)]).drop evictionBatch) (by rwa [List.take_append_drop])
    rw [List.take_append_drop] at hsplit
    exact hsplit

theorem suffix_record (maxCandidates : Int) (h : InOrder hash (c :: cs)) :
    (recordCandidate maxCandidates hash c).items <:+ hash.items ++ [(c.turnId, c)] := by
  rw [items_record maxCandidates h]
  split
  · exact List.suffix_refl _
  · exact List.drop_suffix _ _

theorem InOrder.record (maxCandidates : Int) (h : InOrder hash (c :: cs))
    (hcs : ∀ d ∈ cs, c.timestamp < d.timestamp ∧ c.turnId ≠ d.turnId) :
    InOrder (recordCandidate maxCandidates hash c) cs := by
  have hsub := (suffix_record maxCandidates h).sublist
  refine ⟨h.append.sublist hsub, fun p hp d hd => ?_⟩
  rcases List.mem_append.mp (hsub.subset hp) with hold | hnew
  · exact h.before p hold d (List.mem_cons_of_mem _ hd)
  · rw [List.mem_singleton.mp hnew]
    exact hcs d hd

/-- An eviction takes the older ones, whatever the limit. -/
theorem oldest_record (maxCandidates : Int) (h : InOrder hash (c :: cs)) :
    ∀ p ∈ (hash.set c.turnId c).items, p ∉ (recordCandidate maxCandidates hash c).items →
      ∀ q ∈ (recordCandidate maxCandidates hash c).items, p.2.timestamp < q.2.timestamp := by
  intro p hp hgone q hq
  obtain ⟨front, hfront⟩ := suffix_record maxCandidates h
  have hsorted := h.append
  rw [h.items_set, ← hfront] at hp
  rw [← hfront, List.pairwise_append] at hsorted
  exact hsorted.2.2 p ((List.mem_append.mp hp).resolve_right hgone) q hq

/-- The new candidate is the last one: it goes only if all go. -/
theorem present_record_iff (maxCandidates : Int) (h : InOrder hash (c :: cs)) :
    (recordCandidate maxCandidates hash c).get? c.turnId = some c ↔
      (recordCandidate maxCandidates hash c).items ≠ [] := by
  rw [Dict.get?_eq_some]
  constructor
  · intro hmem hnil
    rw [hnil] at hmem
    cases hmem
  · intro hne
    rcases List.suffix_concat_iff.mp (suffix_record maxCandidates h) with hnil | ⟨front, hfront, -⟩
    · exact absurd hnil hne
    · rw [hfront]
      exact List.mem_append_right _ List.mem_cons_self

/-- A recording keeps its promise if the limit is not exceeded, or is at least a batch. -/
theorem keepsNewest_iff (h : InOrder hash (c :: cs)) (hlimit : (hash.items.length : Int) ≤ maxCandidates) :
    KeepsNewest maxCandidates hash c ↔
      (evictionBatch : Int) ≤ maxCandidates ∨ (hash.items.length : Int) + 1 ≤ maxCandidates := by
  have hitems := items_record maxCandidates h
  have hpresent := present_record_iff maxCandidates h
  have hlen : (hash.items ++ [(c.turnId, c)]).length = hash.items.length + 1 := by simp
  by_cases hfits : (hash.items.length : Int) + 1 ≤ maxCandidates
  · refine iff_of_true ⟨hpresent.mpr ?_, ?_, oldest_record maxCandidates h⟩ (.inr hfits)
    · rw [hitems, if_pos (by omega)]
      simp
    · rw [hitems, if_pos (by omega)]
      omega
  · rw [if_neg (by omega)] at hitems
    have hdrop : (recordCandidate maxCandidates hash c).items.length =
        hash.items.length + 1 - evictionBatch := by
      rw [hitems, List.length_drop, hlen]
    by_cases hbatch : (evictionBatch : Int) ≤ maxCandidates
    · refine iff_of_true ⟨hpresent.mpr fun hnil => ?_, ?_, oldest_record maxCandidates h⟩ (.inl hbatch)
      · rw [hnil, List.length_nil] at hdrop
        omega
      · have hpos : 0 < evictionBatch := by decide
        omega
    · refine iff_of_false (fun hkeeps => hpresent.mp hkeeps.present ?_) (by omega)
      refine List.length_eq_zero_iff.mp ?_
      omega

end

/-- Along every sequence of recordings. -/
theorem along_keepsNewest_iff {maxCandidates : Int} {hash : Dict String SopCandidate}
    {cs : List SopCandidate} (h : InOrder hash cs) (hlimit : (hash.items.length : Int) ≤ maxCandidates)
    (hsorted : cs.Pairwise fun c d => c.timestamp < d.timestamp)
    (hdistinct : cs.Pairwise fun c d => c.turnId ≠ d.turnId) :
    Along (recordCandidate maxCandidates) (KeepsNewest maxCandidates) hash cs ↔
      (evictionBatch : Int) ≤ maxCandidates ∨ (hash.items.length : Int) + cs.length ≤ maxCandidates := by
  induction cs generalizing hash with
  | nil => exact iff_of_true trivial (.inr (by simpa using hlimit))
  | cons c cs ih =>
    rw [List.pairwise_cons] at hsorted hdistinct
    have hnext := h.record maxCandidates fun d hd => ⟨hsorted.1 d hd, hdistinct.1 d hd⟩
    rw [Along, keepsNewest_iff h hlimit, List.length_cons]
    by_cases hbatch : (evictionBatch : Int) ≤ maxCandidates
    · have hkeeps := (keepsNewest_iff h hlimit).mpr (.inl hbatch)
      rw [ih hnext hkeeps.bounded hsorted.2 hdistinct.2]
      exact iff_of_true ⟨.inl hbatch, .inl hbatch⟩ (.inl hbatch)
    · by_cases hfits : (hash.items.length : Int) + 1 ≤ maxCandidates
      · have hkeeps := (keepsNewest_iff h hlimit).mpr (.inr hfits)
        have hlen : (recordCandidate maxCandidates hash c).items.length = hash.items.length + 1 := by
          rw [items_record maxCandidates h, if_pos (by simpa using hfits)]
          simp
        rw [ih hnext hkeeps.bounded hsorted.2 hdistinct.2, hlen]
        omega
      · refine iff_of_false (fun hboth => ?_) (by omega)
        rcases hboth.1 with hle | hle
        · exact hbatch hle
        · exact hfits hle

/-- From the empty hash on, with a limit of at least one. -/
theorem recordings_keepNewest_iff (maxCandidates : Int) (hmax : 1 ≤ maxCandidates) (cs : List SopCandidate)
    (hsorted : cs.Pairwise fun c d => c.timestamp < d.timestamp) (hdistinct : (cs.map (·.turnId)).Nodup) :
    Along (recordCandidate maxCandidates) (KeepsNewest maxCandidates) Dict.empty cs ↔
      (evictionBatch : Int) ≤ maxCandidates ∨ (cs.length : Int) ≤ maxCandidates := by
  have hempty : InOrder Dict.empty cs := ⟨List.Pairwise.nil, fun p hp => absurd hp List.not_mem_nil⟩
  have hlimit : (((Dict.empty : Dict String SopCandidate).items.length : Nat) : Int) ≤ maxCandidates := by
    rw [Dict.items_empty, List.length_nil]
    omega
  have hiff := along_keepsNewest_iff hempty hlimit hsorted (List.pairwise_map.mp hdistinct)
  simpa using hiff

def candidateAt (turnId : String) (time : Int) : SopCandidate := ⟨turnId, "deploy", ["run"], time⟩

theorem twoCandidates_keepNewest_iff :
    Along (recordCandidate 100) (KeepsNewest 100) Dict.empty [candidateAt "a" 1, candidateAt "b" 2] ↔
      (evictionBatch : Int) ≤ 100 ∨ (2 : Int) ≤ 100 :=
  recordings_keepNewest_iff 100 (by decide) [candidateAt "a" 1, candidateAt "b" 2] (by decide) (by decide)

/-- With a limit of one the second recording deletes both candidates. -/
theorem secondCandidate_lost :
    ¬ ∀ (maxCandidates : Int) (cs : List SopCandidate), 1 ≤ maxCandidates →
      (cs.Pairwise fun c d => c.timestamp < d.timestamp) → (cs.map (·.turnId)).Nodup →
        Along (recordCandidate maxCandidates) (KeepsNewest maxCandidates) Dict.empty cs := by
  intro h
  have hrun := h 1 [candidateAt "a" 1, candidateAt "b" 2] (by decide) (by decide) (by decide)
  have hempty : InOrder Dict.empty [candidateAt "a" 1, candidateAt "b" 2] :=
    ⟨List.Pairwise.nil, fun p hp => absurd hp List.not_mem_nil⟩
  have hfirst := hempty.record 1 (by decide)
  have hlost := (keepsNewest_iff hfirst hrun.1.bounded).mp hrun.2.1
  rw [items_record 1 hempty] at hlost
  exact absurd hlost (by decide)

/-! ## The commands of the tracker -/

/-- `after_response` alone, every command answered. -/
theorem recordCandidate_alone (settings : EvolutionSettings) (t : Tasks SopState SopCommand) (slot : Nat)
    (hfree : t.pending slot = []) (henabled : settings.enabled = true) {toolCalls : List ToolCall}
    (hcalls : toolCalls ≠ []) (userMsg : String) (now : Int) :
    (runFrom (sopSystem settings).step t (.starts slot (.afterResponse toolCalls userMsg now) ::
      List.replicate 4 (.runs slot {}))).state.candidates =
        recordCandidate settings.maxCandidates t.state.candidates (candidateOf toolCalls userMsg now) := by
  let T := sopSystem settings
  let c := candidateOf toolCalls userMsg now
  let begun := T.step t (.starts slot (.afterResponse toolCalls userMsg now))
  let written := T.step begun (.runs slot {})
  let counted := T.step written (.runs slot {})
  let read := T.step counted (.runs slot {})
  have hbegun : begun.pending slot = [.hset c.turnId c] := by
    refine (TaskSystem.pending_starts_self hfree).trans ?_
    exact if_pos ⟨henabled, hcalls⟩
  obtain ⟨hset, hwritten⟩ : written.state = (sopExec settings begun.state (.hset c.turnId c) {}).1 ∧
      written.pending slot = [.hlen] := TaskSystem.runs_singleton hbegun
  have hhash : written.state.candidates = t.state.candidates.set c.turnId c := by
    rw [hset, show begun.state = t.state from TaskSystem.state_starts]
    rfl
  obtain ⟨hlen, hcounted⟩ : counted.state = written.state ∧ counted.pending slot =
      if written.state.candidates.items.length ≤ settings.maxCandidates then [] else [.hgetall] :=
    TaskSystem.runs_singleton hwritten
  show (T.step read (.runs slot {})).state.candidates = _
  rw [recordCandidate, ← hhash]
  split
  · rename_i hfits
    rw [if_pos hfits] at hcounted
    have hread : read = counted := TaskSystem.step_runs_nil hcounted
    rw [hread, TaskSystem.step_runs_nil hcounted, hlen]
  · rename_i hover
    rw [if_neg hover] at hcounted
    obtain ⟨hsame, hread⟩ : read.state = counted.state ∧ read.pending slot =
        if counted.state.candidates.items = [] then [] else
          [.hdel (oldestFields counted.state.candidates.items)] := TaskSystem.runs_singleton hcounted
    have hne : counted.state.candidates.items ≠ [] := by
      rw [hlen, hhash]
      intro hnil
      have hmem := Dict.mem_items_of_get? (Dict.get?_set_self t.state.candidates c.turnId c)
      rw [hnil] at hmem
      cases hmem
    rw [if_neg hne] at hread
    rw [(TaskSystem.runs_singleton hread).1, hsame, hlen]
    rfl

end PyClaw
