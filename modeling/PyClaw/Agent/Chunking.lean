import PyClaw.Agent.ToolCalls

/-!
# Agent.Chunking

The assembly of tool calls from their deltas (`merge_tool_call_deltas` and `finalize_tool_calls`,
`core/agent/llm.py`), for every way in which a response may be cut into deltas.

* `get?_mergeDeltas`: the slot of an index is the fold of the deltas of that index, whatever stands
  between them.
* `finalize_chunking`: the calls depend on what was to be said only, not on how it was cut.
* `ids_nodup_iff`: their ids are distinct unless an explicit id is what a call without one gets.
-/

namespace PyClaw

/-! ## Intended calls -/

/-- A tool call of the response: its index, the id if the model gives one, the name and the text of the
arguments. -/
structure IntendedCall where
  index : Int
  id : Option String := none
  name : String := ""
  arguments : String := ""
  deriving DecidableEq, Repr

/-- The last text that is there and not empty. -/
def lastText (xs : List (Option String)) : Option String :=
  (xs.filterMap fun x => x.filter fun s => s ≠ "").getLast?

def ofIndex (deltas : List ToolCallDelta) (idx : Int) : List ToolCallDelta :=
  deltas.filter fun d => d.index = idx

/-- The deltas say the calls: each has a call's index, each call has a delta, and the deltas of a call
have together its arguments, its name and its id. Deltas of different calls may interleave. -/
structure Chunking (calls : List IntendedCall) (deltas : List ToolCallDelta) : Prop where
  indices : ∀ d ∈ deltas, ∃ c ∈ calls, d.index = c.index
  appears : ∀ c ∈ calls, ofIndex deltas c.index ≠ []
  arguments : ∀ c ∈ calls, String.join ((ofIndex deltas c.index).map ToolCallDelta.arguments) = c.arguments
  name : ∀ c ∈ calls, (lastText ((ofIndex deltas c.index).map ToolCallDelta.name)).getD "" = c.name
  id : ∀ c ∈ calls, lastText ((ofIndex deltas c.index).map ToolCallDelta.id) = c.id

namespace IntendedCall

/-- The text that is read as JSON: the empty object stands for no text at all. -/
def argumentText (c : IntendedCall) : String :=
  if c.arguments = "" then "\x7b\x7d" else c.arguments

/-- The arguments re-serialised, or as they are if they are no JSON. -/
def finalArguments (json : JsonModule) (c : IntendedCall) : String :=
  match json.loads c.argumentText with
  | .ok v => json.dumps v
  | .error _ => c.argumentText

/-- `call_{idx}` -/
def fallbackId (c : IntendedCall) : String := "call_" ++ toString c.index

def finalId (c : IntendedCall) : String := c.id.getD c.fallbackId

def final (json : JsonModule) (c : IntendedCall) : ToolCall where
  id := c.finalId
  name := c.name
  arguments := c.finalArguments json

end IntendedCall

/-- The calls in the order of their indices. -/
def inOrder (calls : List IntendedCall) : List IntendedCall :=
  calls.insertionSort fun a b => a.index ≤ b.index

/-! ## Slots -/

/-- A delta merged into a slot. -/
def ToolCallSlot.add (slot : ToolCallSlot) (d : ToolCallDelta) : ToolCallSlot where
  id := if orElseText d.id "" = "" then slot.id else d.id
  name := orElseText d.name slot.name
  arguments := slot.arguments ++ d.arguments

section
variable {buffer : Dict Int ToolCallSlot} {deltas : List ToolCallDelta} {idx : Int}

theorem get?_mergeDelta (buffer : Dict Int ToolCallSlot) (d : ToolCallDelta) (idx : Int) :
    (mergeDelta buffer d).get? idx =
      if d.index = idx then some (((buffer.get? idx).getD {}).add d) else buffer.get? idx := by
  rw [mergeDelta, Dict.get?_set]
  split
  · rename_i heq
    subst heq
    rfl
  · rfl

/-- What the deltas of one index make of its slot. -/
def addAll (slot : Option ToolCallSlot) (deltas : List ToolCallDelta) : Option ToolCallSlot :=
  deltas.foldl (fun slot d => some ((slot.getD {}).add d)) slot

theorem get?_mergeDeltas (buffer : Dict Int ToolCallSlot) (deltas : List ToolCallDelta) (idx : Int) :
    (mergeToolCallDeltas buffer deltas).get? idx = addAll (buffer.get? idx) (ofIndex deltas idx) := by
  induction deltas generalizing buffer with
  | nil => rfl
  | cons d rest ih =>
    simp only [mergeToolCallDeltas, List.foldl_cons] at ih ⊢
    rw [ih, get?_mergeDelta]
    unfold ofIndex
    rw [List.filter_cons]
    split
    · rename_i heq
      simp [heq, addAll]
    · rename_i hne
      simp [hne]

theorem lastText_cons (x : Option String) (xs : List (Option String)) :
    lastText (x :: xs) = (lastText xs).or (x.filter fun s => s ≠ "") := by
  unfold lastText
  rw [List.filterMap_cons]
  split
  · rename_i hx
    rw [hx, Option.or_none]
  · rename_i s hx
    rw [hx, List.getLast?_cons]
    cases (xs.filterMap fun x => x.filter fun s => s ≠ "").getLast? with
    | none => rfl
    | some t => rfl

theorem orElseText_eq (x : Option String) (y : String) :
    orElseText x y = (x.filter fun s => s ≠ "").getD y := by
  cases x with
  | none => rfl
  | some s => by_cases hs : s = "" <;> simp [orElseText, Option.filter, hs]

theorem ToolCallSlot.add_id (slot : ToolCallSlot) (d : ToolCallDelta) :
    (slot.add d).id = (d.id.filter fun s => s ≠ "").or slot.id := by
  cases hid : d.id with
  | none => simp [ToolCallSlot.add, hid, orElseText]
  | some s =>
    by_cases hs : s = ""
    · simp [ToolCallSlot.add, hid, orElseText, Option.filter, hs]
    · simp [ToolCallSlot.add, hid, orElseText, Option.filter, hs]

theorem addAll_some (slot : ToolCallSlot) (deltas : List ToolCallDelta) :
    addAll (some slot) deltas = some {
      id := (lastText (deltas.map ToolCallDelta.id)).or slot.id
      name := (lastText (deltas.map ToolCallDelta.name)).getD slot.name
      arguments := slot.arguments ++ String.join (deltas.map ToolCallDelta.arguments) } := by
  induction deltas generalizing slot with
  | nil => simp [addAll, lastText]
  | cons d rest ih =>
    have hname : (slot.add d).name = (d.name.filter fun s => s ≠ "").getD slot.name :=
      orElseText_eq d.name slot.name
    show addAll (some (slot.add d)) rest = _
    rw [ih, ToolCallSlot.add_id, hname]
    simp only [List.map_cons, lastText_cons, Option.or_assoc, String.join_cons]
    congr 2
    · cases lastText (rest.map ToolCallDelta.name) with
      | none => simp
      | some t => simp
    · simp [ToolCallSlot.add, String.append_assoc]

end

/-! ## Ids -/

section
variable {calls : List IntendedCall}

theorem natText_injective {m n : Nat} (h : m.repr = n.repr) : m = n := by
  have hdigits : Nat.toDigits 10 m = Nat.toDigits 10 n := by
    rw [← Nat.toList_repr, ← Nat.toList_repr, h]
  rw [← Nat.ofDigitChars_toDigits (b := 10) (n := m) (by omega) (by omega), hdigits,
    Nat.ofDigitChars_toDigits (by omega) (by omega)]

/-- A text of digits does not begin with a minus sign. -/
theorem natText_ne_minus (m : Nat) (s : String) : m.repr ≠ "-" ++ s := by
  intro h
  have hminus : '-' ∈ Nat.toDigits 10 m := by
    rw [← Nat.toList_repr, h]
    simp
  have hdigit := Nat.isDigit_of_mem_toDigits (by omega) (by omega) hminus
  exact absurd hdigit (by decide)

theorem append_cancel {a b c : String} (h : a ++ b = a ++ c) : b = c := by
  have hlist := congrArg String.toList h
  exact String.toList_injective (by simpa using hlist)

theorem intText_injective {a b : Int} (h : toString a = toString b) : a = b := by
  cases a with
  | ofNat m =>
    cases b with
    | ofNat n => exact congrArg Int.ofNat (natText_injective h)
    | negSucc n => exact absurd h (natText_ne_minus m _)
  | negSucc m =>
    cases b with
    | ofNat n => exact absurd h.symm (natText_ne_minus n _)
    | negSucc n =>
      have hnat : (m + 1).repr = (n + 1).repr := append_cancel (a := "-") h
      have := natText_injective hnat
      congr 1
      omega

theorem fallbackId_inj {c c' : IntendedCall} (h : c.fallbackId = c'.fallbackId) :
    c.index = c'.index :=
  intText_injective (append_cancel h)

/-- Two calls with the same explicit id are one. -/
theorem eq_of_id {c c' : IntendedCall} {id : String}
    (hexplicit : (calls.filterMap IntendedCall.id).Nodup) (hc : c ∈ calls) (hc' : c' ∈ calls)
    (hid : c.id = some id) (hid' : c'.id = some id) : c = c' := by
  have hmem : ∀ {c : IntendedCall} {calls : List IntendedCall}, c ∈ calls → c.id = some id →
      id ∈ calls.filterMap IntendedCall.id :=
    fun hc hid => List.mem_filterMap.mpr ⟨_, hc, hid⟩
  induction calls with
  | nil => simp at hc
  | cons head rest ih =>
    rw [List.filterMap_cons] at hexplicit
    cases List.mem_cons.mp hc with
    | inl hhead =>
      cases List.mem_cons.mp hc' with
      | inl hhead' => rw [hhead, hhead']
      | inr hrest' =>
        rw [← hhead, hid] at hexplicit
        exact absurd (hmem hrest' hid') (List.nodup_cons.mp hexplicit).1
    | inr hrest =>
      cases List.mem_cons.mp hc' with
      | inl hhead' =>
        rw [← hhead', hid'] at hexplicit
        exact absurd (hmem hrest hid) (List.nodup_cons.mp hexplicit).1
      | inr hrest' =>
        refine ih ?_ hrest hrest'
        split at hexplicit
        · exact hexplicit
        · exact (List.nodup_cons.mp hexplicit).2

theorem ids_nodup_iff (hindices : (calls.map IntendedCall.index).Nodup)
    (hexplicit : (calls.filterMap IntendedCall.id).Nodup) :
    (calls.map IntendedCall.finalId).Nodup ↔
      ∀ c ∈ calls, ∀ c' ∈ calls, c.id = none → c'.id ≠ some c.fallbackId := by
  have hcalls : calls.Nodup := hindices.of_map
  have hindex := (List.nodup_map_iff_inj_on hcalls).mp hindices
  rw [List.nodup_map_iff_inj_on hcalls]
  constructor
  · intro hinj c hc c' hc' hnone hsome
    have heq : c = c' := hinj c hc c' hc' (by simp [IntendedCall.finalId, hnone, hsome])
    rw [heq, hsome] at hnone
    cases hnone
  · intro hfree c hc c' hc' heq
    cases hid : c.id with
    | none =>
      cases hid' : c'.id with
      | none =>
        have hfallback : c.fallbackId = c'.fallbackId := by
          simpa [IntendedCall.finalId, hid, hid'] using heq
        exact hindex c hc c' hc' (fallbackId_inj hfallback)
      | some id =>
        have hmeet : c.fallbackId = id := by simpa [IntendedCall.finalId, hid, hid'] using heq
        exact absurd (hmeet ▸ hid') (hfree c hc c' hc' hid)
    | some id =>
      cases hid' : c'.id with
      | none =>
        have hmeet : id = c'.fallbackId := by simpa [IntendedCall.finalId, hid, hid'] using heq
        exact absurd (hmeet ▸ hid) (hfree c' hc' c hc hid')
      | some id' =>
        have hsame : id = id' := by simpa [IntendedCall.finalId, hid, hid'] using heq
        exact eq_of_id hexplicit hc hc' hid (hsame ▸ hid')

end

/-! ## The calls -/

section
variable {json : JsonModule} {calls : List IntendedCall} {deltas : List ToolCallDelta}

theorem addAll_none (deltas : List ToolCallDelta) (h : deltas ≠ []) :
    addAll none deltas = addAll (some {}) deltas := by
  cases deltas with
  | nil => exact absurd rfl h
  | cons d rest => rfl

/-- The slot of a call holds what was to be said. -/
theorem Chunking.slot (h : Chunking calls deltas) {c : IntendedCall} (hc : c ∈ calls) :
    (mergeToolCallDeltas Dict.empty deltas).get? c.index =
      some { id := c.id, name := c.name, arguments := c.arguments } := by
  have hempty : (Dict.empty : Dict Int ToolCallSlot).get? c.index = none := rfl
  rw [get?_mergeDeltas, hempty, addAll_none _ (h.appears c hc), addAll_some, h.id c hc,
    h.arguments c hc]
  have hname := h.name c hc
  simp only [Option.or_none, String.empty_append, hname]

theorem Chunking.mem_keys (h : Chunking calls deltas) (idx : Int) :
    idx ∈ (mergeToolCallDeltas Dict.empty deltas).keys ↔ idx ∈ calls.map IntendedCall.index := by
  constructor
  · intro hkey
    by_contra hforeign
    have hnone : ofIndex deltas idx = [] := by
      rw [ofIndex, List.filter_eq_nil_iff]
      intro d hd hidx
      obtain ⟨c, hc, hdc⟩ := h.indices d hd
      have heq : c.index = idx := by rw [← hdc]; simpa using hidx
      exact hforeign (List.mem_map.mpr ⟨c, hc, heq⟩)
    have hget : (mergeToolCallDeltas Dict.empty deltas).get? idx = none := by
      rw [get?_mergeDeltas, hnone]
      rfl
    exact Dict.get?_eq_none.mp hget hkey
  · intro hcall
    obtain ⟨c, hc, rfl⟩ := List.mem_map.mp hcall
    exact Dict.mem_keys_of_get? (h.slot hc)

theorem Chunking.keys_sorted (h : Chunking calls deltas)
    (hindices : (calls.map IntendedCall.index).Nodup) :
    (mergeToolCallDeltas Dict.empty deltas).keys.insertionSort (· ≤ ·) =
      (inOrder calls).map IntendedCall.index := by
  have hperm : (mergeToolCallDeltas Dict.empty deltas).keys.Perm (calls.map IntendedCall.index) :=
    (List.perm_ext_iff_of_nodup (Dict.keys_nodup _) hindices).mpr h.mem_keys
  have hsorted := ((List.perm_insertionSort (· ≤ ·) _).trans hperm).trans
    (List.perm_insertionSort (· ≤ ·) (calls.map IntendedCall.index)).symm
  have hmap : (inOrder calls).map IntendedCall.index =
      (calls.map IntendedCall.index).insertionSort (· ≤ ·) :=
    List.map_insertionSort _ _ _ _ fun _ _ _ _ => Iff.rfl
  rw [hmap]
  refine hsorted.eq_of_pairwise (fun _ _ _ _ hle hge => Int.le_antisymm hle hge) ?_ ?_
  · exact List.pairwise_insertionSort _ _
  · exact List.pairwise_insertionSort _ _

theorem lastText_ne_empty {xs : List (Option String)} : lastText xs ≠ some "" := by
  intro hlast
  have hmem := List.mem_of_getLast? hlast
  simp [Option.filter_eq_some_iff] at hmem

theorem finalizeSlot_intended {c : IntendedCall} (hid : c.id ≠ some "")
    (hloads : json.loads c.argumentText ≠ .error .other) :
    finalizeSlot json c.index { id := c.id, name := c.name, arguments := c.arguments } =
      .ok (c.final json) := by
  have harguments : finalizeArguments json c.arguments = .ok (c.finalArguments json) := by
    have hraw : (if c.arguments = "" then "\x7b\x7d" else c.arguments) = c.argumentText := rfl
    unfold finalizeArguments IntendedCall.finalArguments
    simp only [hraw]
    cases hread : json.loads c.argumentText with
    | ok v => rfl
    | error e =>
      cases e with
      | jsonDecodeError => rfl
      | other => exact absurd hread hloads
  have hfinal : orElseText c.id ("call_" ++ toString c.index) = c.finalId := by
    cases hcid : c.id with
    | none => simp [IntendedCall.finalId, IntendedCall.fallbackId, hcid, orElseText]
    | some id =>
      have hne : id ≠ "" := by
        rintro rfl
        exact hid hcid
      simp [IntendedCall.finalId, hcid, orElseText, hne]
  unfold finalizeSlot
  rw [harguments]
  simp only [hfinal, IntendedCall.final]

theorem mapM_ok {α β ε : Type} {f : α → Except ε β} {g : α → β} {xs : List α}
    (h : ∀ x ∈ xs, f x = .ok (g x)) : xs.mapM f = .ok (xs.map g) := by
  induction xs with
  | nil => rfl
  | cons x xs ih =>
    rw [List.mapM_cons, h x List.mem_cons_self, ih fun y hy => h y (List.mem_cons_of_mem x hy)]
    rfl

end

/-- **Chunking.** -/
theorem finalize_chunking (json : JsonModule) (calls : List IntendedCall)
    (hindices : (calls.map IntendedCall.index).Nodup) (chunks : List (List ToolCallDelta))
    (hchunking : Chunking calls chunks.flatten)
    (hloads : ∀ c ∈ calls, json.loads c.argumentText ≠ .error .other) :
    finalizeToolCalls json (chunks.foldl mergeToolCallDeltas Dict.empty) =
        .ok ((inOrder calls).map (IntendedCall.final json)) ∧
      ((calls.filterMap IntendedCall.id).Nodup →
        (∀ c ∈ calls, ∀ c' ∈ calls, c.id = none → c'.id ≠ some c.fallbackId) →
        (((inOrder calls).map (IntendedCall.final json)).map ToolCall.id).Nodup) := by
  have hmerged : chunks.foldl mergeToolCallDeltas Dict.empty =
      mergeToolCallDeltas Dict.empty chunks.flatten := List.foldl_flatten.symm
  rw [hmerged]
  have hperm : (inOrder calls).Perm calls := List.perm_insertionSort _ _
  constructor
  · unfold finalizeToolCalls
    rw [hchunking.keys_sorted hindices, List.mapM_map]
    refine mapM_ok fun c hc => ?_
    have hmem : c ∈ calls := hperm.mem_iff.mp hc
    have hid : c.id ≠ some "" := hchunking.id c hmem ▸ lastText_ne_empty
    rw [Function.comp, hchunking.slot hmem]
    exact finalizeSlot_intended hid (hloads c hmem)
  · intro hexplicit hfree
    have hids : ((inOrder calls).map (IntendedCall.final json)).map ToolCall.id =
        (inOrder calls).map IntendedCall.finalId := by
      rw [List.map_map]
      rfl
    rw [hids, (hperm.map _).nodup_iff]
    exact (ids_nodup_iff hindices hexplicit).mpr hfree

/-! ## Samples -/

/-- Two calls of a response, the second begun before the first. -/
def sampleCalls : List IntendedCall :=
  [{ index := 1, name := "read", arguments := "[]" },
    { index := 0, id := some "a", name := "bash", arguments := "\x7b\x7d" }]

def sampleChunks : List (List ToolCallDelta) :=
  [[{ index := 1, name := some "read", arguments := "[" }],
    [{ index := 0, id := some "a", arguments := "\x7b" }, { index := 1, arguments := "]" }],
    [{ index := 0, id := some "", name := some "bash", arguments := "\x7d" }]]

theorem sampleChunks_chunking : Chunking sampleCalls sampleChunks.flatten where
  indices := by decide
  appears := by decide
  arguments := by decide
  name := by decide
  id := by decide

theorem sampleChunks_finalized :
    finalizeToolCalls .brackets (sampleChunks.foldl mergeToolCallDeltas Dict.empty) =
        .ok ((inOrder sampleCalls).map (IntendedCall.final .brackets)) ∧
      (((inOrder sampleCalls).map (IntendedCall.final .brackets)).map ToolCall.id).Nodup := by
  have hsample := finalize_chunking .brackets sampleCalls (by decide) sampleChunks
    sampleChunks_chunking (by simp [sampleCalls, IntendedCall.argumentText, JsonModule.brackets])
  exact ⟨hsample.1, hsample.2 (by decide) (by decide)⟩

/-- The concatenation of the fragments, re-serialised when it is JSON. -/
def concatenated (json : JsonModule) (c : IntendedCall) : String :=
  match json.loads c.arguments with
  | .ok v => json.dumps v
  | .error _ => c.arguments

/-- A call without arguments has the empty object for them. -/
theorem noArguments_not_concatenated :
    ¬ ∀ (calls : List IntendedCall) (chunks : List (List ToolCallDelta)),
      (calls.map IntendedCall.index).Nodup → Chunking calls chunks.flatten →
      ∃ result, finalizeToolCalls .brackets (chunks.foldl mergeToolCallDeltas Dict.empty) = .ok result ∧
        result.map ToolCall.arguments = (inOrder calls).map (concatenated .brackets) := by
  intro h
  have hchunking : Chunking [{ index := 0, id := some "a", name := "time" }]
      [{ index := 0, id := some "a", name := some "time" }] :=
    ⟨by decide, by decide, by decide, by decide, by decide⟩
  obtain ⟨result, hresult, harguments⟩ :=
    h [{ index := 0, id := some "a", name := "time" }] [[{ index := 0, id := some "a", name := some "time" }]]
      (by decide) hchunking
  have hfinal : finalizeToolCalls .brackets
      ([[{ index := 0, id := some "a", name := some "time" }]].foldl mergeToolCallDeltas Dict.empty) =
        .ok [{ id := "a", name := "time", arguments := "\x7b\x7d" }] := rfl
  rw [hfinal] at hresult
  cases hresult
  exact absurd harguments (by decide)

end PyClaw
