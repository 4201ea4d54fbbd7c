import Mathlib.Data.List.Dedup
import PyClaw.Agent.ToolCalls
import PyClaw.Session.Wf
import PyClaw.Sop.Candidates

/-!
# Sop.RecordedTurns

Which turns an extraction sends. The tracker records a turn under the id of its first tool call; the
extraction looks in the whole session tree for turns with any call id that is recorded. `exact_iff`: what it
sends are the turns recorded since the last cleanup and not evicted, exactly if no other turn has a call id
that is the first one of such a turn.
-/

namespace PyClaw

/-- The tool calls of an entry, if it is an assistant's. -/
def SessionEntry.calls (e : SessionEntry) : List ToolCall :=
  match e.message? with
  | some m => if m.role = .assistant then m.toolCalls else []
  | none => []

def callsOf (tree : SessionTree) (entryId : String) : List ToolCall :=
  match tree.entries.get? entryId with
  | some e => e.calls
  | none => []

/-- The id of a turn's first call. -/
def firstCall (tree : SessionTree) (entryId : String) : Option String :=
  (callsOf tree entryId).head?.map ToolCall.id

structure TurnHistory where
  tree : SessionTree
  candidates : Dict String SopCandidate := Dict.empty
  /-- The turns recorded since the last cleanup, without those whose field was evicted. -/
  recorded : List String := []
  /-- What an extraction has read, and the recorded turns at that time. -/
  reading : Option (List String × List String) := none

inductive HistoryStep where
  /-- A response with tool calls is appended; `buffer` has what the model streamed. -/
  | turn (entryId : String) (parentId : Option String) (text : String) (buffer : Dict Int ToolCallSlot)
  /-- Any other entry is appended. -/
  | entry (e : SessionEntry) (plain : ∀ m, e.message? = some m → m.toolCalls = [])
  /-- `after_response` for a turn. -/
  | records (entryId userMsg : String) (now : Int)
  /-- `HDEL` of what `_maybe_evict` has read as the oldest fields. -/
  | evicts (fields : List String)
  /-- An extraction reads the candidates. -/
  | reads
  /-- It has loaded the session, and sends the segments. -/
  | sends
  | cleans

namespace TurnHistory

variable (json : JsonModule) (s : TurnHistory)

/-- An id that exists already raises. -/
def append (e : SessionEntry) : TurnHistory :=
  if s.tree.entries.contains e.id then s else { s with tree := s.tree.push e }

def step : HistoryStep → TurnHistory
  | .turn entryId parentId text buffer =>
    match finalizeToolCalls json buffer with
    | .ok calls =>
      s.append
        { id := entryId, parentId := parentId
          body := .message { role := .assistant, content := .str text, toolCalls := calls } }
    | .error _ => s
  | .entry e _ => s.append e
  | .records entryId userMsg now =>
    if callsOf s.tree entryId = [] then s
    else
      let c := candidateOf (callsOf s.tree entryId) userMsg now
      { s with candidates := s.candidates.set c.turnId c, recorded := entryId :: s.recorded }
  | .evicts fields =>
    { s with
      candidates := s.candidates.retain fun turnId _ => turnId ∉ fields
      recorded := s.recorded.filter fun id => ¬ ∃ field ∈ fields, firstCall s.tree id = some field }
  | .reads => { s with reading := some (s.candidates.keys, s.recorded) }
  | .sends => { s with reading := none }
  | .cleans => { s with candidates := Dict.empty, recorded := [] }

/-- What is sent are the turns that were recorded. -/
def Exact : HistoryStep → Prop
  | .sends => ∀ keys recorded, s.reading = some (keys, recorded) →
      ∀ id, id ∈ segmentEntries s.tree keys ↔ id ∈ recorded
  | _ => True

/-- No other turn has a call whose id is the first one of a recorded turn. -/
def Distinguished : HistoryStep → Prop
  | .sends => ∀ keys recorded, s.reading = some (keys, recorded) →
      ∀ id, id ∉ recorded → ∀ call ∈ callsOf s.tree id, ∀ turn ∈ recorded,
        firstCall s.tree turn ≠ some call.id
  | _ => True

/-! ## Fields and turns -/

section
variable {json} {s} {tree : SessionTree}

theorem mem_segmentEntries {keys : List String} {id : String} :
    id ∈ segmentEntries tree keys ↔
      id ∈ tree.order ∧ ∃ call ∈ callsOf tree id, call.id ≠ "" ∧ call.id ∈ keys := by
  rw [segmentEntries, List.mem_dedup, List.mem_filter, callsOf]
  cases tree.entries.get? id with
  | none => simp
  | some e =>
    cases hbody : e.message? with
    | none => simp [SessionEntry.calls, hbody]
    | some m =>
      by_cases hrole : m.role = .assistant
      · simp [SessionEntry.calls, hbody, hrole]
      · simp [SessionEntry.calls, hbody, hrole]

/-- The fields are the first calls of the turns. -/
structure Tied (tree : SessionTree) (keys recorded : List String) : Prop where
  called : ∀ id ∈ recorded, callsOf tree id ≠ []
  keys_iff : ∀ key, key ∈ keys ↔ ∃ id ∈ recorded, firstCall tree id = some key

structure Consistent (s : TurnHistory) : Prop where
  stored : ∀ id, callsOf s.tree id ≠ [] → id ∈ s.tree.order
  named : ∀ id, ∀ call ∈ callsOf s.tree id, call.id ≠ ""
  tied : Tied s.tree s.candidates.keys s.recorded
  readTied : ∀ keys recorded, s.reading = some (keys, recorded) → Tied s.tree keys recorded

theorem firstCall_eq_some {id key : String} :
    firstCall tree id = some key ↔ ∃ call rest, callsOf tree id = call :: rest ∧ call.id = key := by
  rw [firstCall]
  cases callsOf tree id with
  | nil => simp
  | cons call rest => simp

theorem Consistent.exact_iff (h : Consistent s) {keys recorded : List String}
    (hread : s.reading = some (keys, recorded)) :
    (∀ id, id ∈ segmentEntries s.tree keys ↔ id ∈ recorded) ↔
      ∀ id, id ∉ recorded → ∀ call ∈ callsOf s.tree id, ∀ turn ∈ recorded,
        firstCall s.tree turn ≠ some call.id := by
  have htied := h.readTied keys recorded hread
  constructor
  · intro hexact id hid call hcall turn hturn hfirst
    have hkey : call.id ∈ keys := (htied.keys_iff _).mpr ⟨turn, hturn, hfirst⟩
    have hstored := h.stored id (List.ne_nil_of_mem hcall)
    exact hid ((hexact id).mp (mem_segmentEntries.mpr ⟨hstored, call, hcall, h.named id call hcall, hkey⟩))
  · intro hother id
    rw [mem_segmentEntries]
    constructor
    · rintro ⟨-, call, hcall, -, hkey⟩
      obtain ⟨turn, hturn, hfirst⟩ := (htied.keys_iff _).mp hkey
      by_cases hid : id ∈ recorded
      · exact hid
      · exact absurd hfirst (hother id hid call hcall turn hturn)
    · intro hid
      have hcalls := htied.called id hid
      obtain ⟨call, rest, hcons⟩ := List.exists_cons_of_ne_nil hcalls
      have hmem : call ∈ callsOf s.tree id := by rw [hcons]; exact List.mem_cons_self
      refine ⟨h.stored id hcalls, call, hmem, h.named id call hmem, (htied.keys_iff _).mpr ⟨id, hid, ?_⟩⟩
      exact firstCall_eq_some.mpr ⟨call, rest, hcons, rfl⟩

/-! ## Steps -/

theorem callsOf_push_self (tree : SessionTree) (e : SessionEntry) : callsOf (tree.push e) e.id = e.calls := by
  rw [callsOf, SessionTree.push, Dict.get?_set_self]

theorem callsOf_push_ne {e : SessionEntry} {id : String} (h : id ≠ e.id) :
    callsOf (tree.push e) id = callsOf tree id := by
  rw [callsOf, SessionTree.push, Dict.get?_set_ne _ _ (Ne.symm h), callsOf]

theorem Tied.push {keys recorded : List String} (h : Tied tree keys recorded) {e : SessionEntry}
    (hfresh : tree.entries.contains e.id = false) : Tied (tree.push e) keys recorded := by
  have hsame : ∀ id ∈ recorded, callsOf (tree.push e) id = callsOf tree id := by
    intro id hid
    refine callsOf_push_ne ?_
    rintro rfl
    refine h.called _ hid ?_
    rw [callsOf, Dict.get?_eq_none.mpr (Dict.contains_eq_false.mp hfresh)]
  refine ⟨fun id hid => ?_, fun key => ?_⟩
  · rw [hsame id hid]
    exact h.called id hid
  · rw [h.keys_iff]
    refine exists_congr fun id => and_congr_right fun hid => ?_
    rw [firstCall, firstCall, hsame id hid]

theorem Consistent.append (h : Consistent s) {e : SessionEntry} (hnamed : ∀ call ∈ e.calls, call.id ≠ "") :
    Consistent (s.append e) := by
  rw [TurnHistory.append]
  split
  · exact h
  · rename_i htaken
    have hfresh : s.tree.entries.contains e.id = false := by simpa using htaken
    refine ⟨fun id hcalls => ?_, fun id call hcall => ?_, h.tied.push hfresh, fun keys recorded hread => ?_⟩
    · by_cases hid : id = e.id
      · rw [hid]
        exact List.mem_append_right _ List.mem_cons_self
      · rw [callsOf_push_ne hid] at hcalls
        exact List.mem_append_left _ (h.stored id hcalls)
    · by_cases hid : id = e.id
      · rw [hid, callsOf_push_self] at hcall
        exact hnamed call hcall
      · rw [callsOf_push_ne hid] at hcall
        exact h.named id call hcall
    · exact (h.readTied keys recorded hread).push hfresh

theorem turnId_candidateOf {calls : List ToolCall} {call : ToolCall} {rest : List ToolCall} {userMsg : String}
    {now : Int} (hcons : calls = call :: rest) (hid : call.id ≠ "") :
    (candidateOf calls userMsg now).turnId = call.id := by
  rw [hcons, candidateOf, turnIdOf, if_neg hid]

theorem Consistent.records (h : Consistent s) (entryId userMsg : String) (now : Int) :
    Consistent (s.step json (.records entryId userMsg now)) := by
  rw [step]
  split
  · exact h
  · rename_i hcalls
    obtain ⟨call, rest, hcons⟩ := List.exists_cons_of_ne_nil hcalls
    have hid : call.id ≠ "" := h.named entryId call (by rw [hcons]; exact List.mem_cons_self)
    have hfirst : firstCall s.tree entryId = some call.id := firstCall_eq_some.mpr ⟨call, rest, hcons, rfl⟩
    refine ⟨h.stored, h.named, ⟨fun id hmem => ?_, fun key => ?_⟩, h.readTied⟩
    · rcases List.mem_cons.mp hmem with rfl | hold
      · exact hcalls
      · exact h.tied.called id hold
    · rw [Dict.mem_keys_set, turnId_candidateOf hcons hid, h.tied.keys_iff]
      constructor
      · rintro (rfl | ⟨id, hmem, hkey⟩)
        · exact ⟨entryId, List.mem_cons_self, hfirst⟩
        · exact ⟨id, List.mem_cons_of_mem _ hmem, hkey⟩
      · rintro ⟨id, hmem, hkey⟩
        rcases List.mem_cons.mp hmem with rfl | hold
        · rw [hfirst] at hkey
          exact .inl (Option.some.inj hkey).symm
        · exact .inr ⟨id, hold, hkey⟩

theorem Consistent.evicts (h : Consistent s) (fields : List String) :
    Consistent (s.step json (.evicts fields)) := by
  refine ⟨h.stored, h.named, ⟨fun id hmem => h.tied.called id (List.mem_filter.mp hmem).1, fun key => ?_⟩,
    h.readTied⟩
  have hkeys : key ∈ (s.candidates.retain fun turnId _ => turnId ∉ fields).keys ↔
      key ∈ s.candidates.keys ∧ key ∉ fields := by
    simp [Dict.keys, Dict.retain, List.mem_map, List.mem_filter]
  refine hkeys.trans ?_
  rw [h.tied.keys_iff]
  constructor
  · rintro ⟨⟨id, hmem, hkey⟩, hkept⟩
    refine ⟨id, List.mem_filter.mpr ⟨hmem, decide_eq_true ?_⟩, hkey⟩
    rintro ⟨field, hfield, hfirst⟩
    rw [hkey] at hfirst
    cases hfirst
    exact hkept hfield
  · rintro ⟨id, hmem, hkey⟩
    obtain ⟨hold, hkept⟩ := List.mem_filter.mp hmem
    exact ⟨⟨id, hold, hkey⟩, fun hfield => of_decide_eq_true hkept ⟨key, hfield, hkey⟩⟩

theorem Consistent.step (h : Consistent s) (a : HistoryStep) : Consistent (s.step json a) := by
  cases a with
  | turn entryId parentId text buffer =>
    rw [TurnHistory.step]
    split
    · rename_i calls hcalls
      refine h.append fun call hcall => ?_
      exact finalized_id_ne_empty hcalls call hcall
    · exact h
  | entry e plain =>
    refine h.append fun call hcall => ?_
    rw [SessionEntry.calls] at hcall
    split at hcall
    · rename_i m hm
      rw [plain m hm, ite_self] at hcall
      cases hcall
    · cases hcall
  | records entryId userMsg now => exact h.records entryId userMsg now
  | evicts fields => exact h.evicts fields
  | reads =>
    refine ⟨h.stored, h.named, h.tied, fun keys recorded hread => ?_⟩
    cases hread
    exact h.tied
  | sends => exact ⟨h.stored, h.named, h.tied, fun _ _ hread => by cases hread⟩
  | cleans =>
    refine ⟨h.stored, h.named, ⟨fun id hid => absurd hid List.not_mem_nil, fun key => ?_⟩, h.readTied⟩
    simp [TurnHistory.step]

end

/-- Along every history of a session. -/
theorem sent_exact_iff (json : JsonModule) (header : SessionHeader) (steps : List HistoryStep) :
    Along (step json) Exact { tree := { header } } steps ↔
      Along (step json) Distinguished { tree := { header } } steps := by
  refine along_iff_of_invariant (I := Consistent) (fun s a h => ?_) (fun s a h _ => h.step a) ?_
  · cases a with
    | sends => exact forall_congr' fun keys => forall_congr' fun recorded =>
        forall_congr' fun hread => h.exact_iff hread
    | _ => exact Iff.rfl
  · refine ⟨fun id hcalls => absurd rfl hcalls, fun id call hcall => absurd hcall List.not_mem_nil, ?_, ?_⟩
    · exact ⟨fun id hid => absurd hid List.not_mem_nil, fun key => by simp⟩
    · intro keys recorded hread
      cases hread

/-- A call to which the model has given no id. -/
def unnamedCall : Dict Int ToolCallSlot := Dict.empty.set 0 { name := "run" }

/-- The turn of an earlier extraction is sent again: its call has the same fallback id. -/
theorem extracted_turn_sent_again :
    ¬ ∀ (json : JsonModule) (header : SessionHeader) (steps : List HistoryStep),
      Along (step json) Exact { tree := { header } } steps := by
  intro h
  have hrun := h .brackets { id := "s", workspaceId := "w", agentId := "a" }
    [.turn "e1" none "" unnamedCall, .records "e1" "deploy" 1, .reads, .sends, .cleans,
      .turn "e2" (some "e1") "" unnamedCall, .records "e2" "test" 2, .reads, .sends]
  obtain ⟨-, -, -, -, -, -, -, -, hlast, -⟩ := hrun
  have hsent := (hlast ["call_0"] ["e2"] (by decide +kernel) "e1").mp (by decide +kernel)
  exact absurd hsent (by decide)

end TurnHistory

end PyClaw
