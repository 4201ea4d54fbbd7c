import PyClaw.Tools.Registry

/-!
# Tools.WireName

The round trip of tool names through the model: `listForLlm` sends `llmName t.name`, and `get`
looks up whatever name comes back.

`splitFirst_server` is the arithmetic of the encoding: in `server ++ "__" ++ tool` the first `__`
is the inserted one exactly when `server` does not end in `_`. `run_roundTrips_iff` lifts it to the
registry: the names sent are distinct and each leads back to its tool if and only if no
registered MCP server name ends in `_` and no tool has the empty name.
-/

namespace PyClaw

theorem sep_infix_of_getElem {l : List Char} {i : Nat} (h0 : l[i]? = some '_')
    (h1 : l[i + 1]? = some '_') : sep <:+: l := by
  obtain ⟨hi, e0⟩ := List.getElem?_eq_some_iff.mp h0
  obtain ⟨hi', e1⟩ := List.getElem?_eq_some_iff.mp h1
  refine ⟨l.take i, l.drop (i + 2), ?_⟩
  have hd : l.drop i = '_' :: '_' :: l.drop (i + 2) := by
    rw [List.drop_eq_getElem_cons hi, e0, List.drop_eq_getElem_cons hi', e1]
  calc l.take i ++ sep ++ l.drop (i + 2) = l.take i ++ l.drop i := by rw [hd]; simp [sep]
    _ = l := List.take_append_drop i l

theorem getElem_of_sep_starts {l : List Char} {i : Nat} (h : sep <+: l.drop i) :
    l[i]? = some '_' ∧ l[i + 1]? = some '_' := by
  obtain ⟨t, ht⟩ := h
  have h0 : (l.drop i)[0]? = some '_' := by rw [← ht]; rfl
  have h1 : (l.drop i)[1]? = some '_' := by rw [← ht]; rfl
  rw [List.getElem?_drop] at h0 h1
  exact ⟨h0, h1⟩

/-- A server name without `__` that does not end in `_` is cut off at the inserted `__`. -/
theorem splitFirst_server {s t : List Char} (hs : ¬ sep <:+: s) (hend : s.getLast? ≠ some '_') :
    splitFirst sep (s ++ sep ++ t) = some (s, t) := by
  refine splitFirst_append t fun i hi hpre => ?_
  obtain ⟨h0, h1⟩ := getElem_of_sep_starts hpre
  rw [List.append_assoc, List.getElem?_append_left hi] at h0
  by_cases hlast : i + 1 < s.length
  · rw [List.append_assoc, List.getElem?_append_left hlast] at h1
    exact hs (sep_infix_of_getElem h0 h1)
  · have : i = s.length - 1 := by omega
    rw [this, ← List.getLast?_eq_getElem?] at h0
    exact hend h0

/-- One that ends in `_` is cut one character early. -/
theorem splitFirst_server_underscore {s t : List Char} (hs : ¬ sep <:+: s ++ ['_']) :
    splitFirst sep (s ++ ['_'] ++ sep ++ t) = some (s, '_' :: t) := by
  have he : s ++ ['_'] ++ sep ++ t = s ++ sep ++ ('_' :: t) := by simp [sep]
  rw [he]
  refine splitFirst_append _ fun i hi hpre => ?_
  obtain ⟨h0, h1⟩ := getElem_of_sep_starts hpre
  rw [← he, List.append_assoc (s ++ ['_'])] at h0 h1
  rw [List.getElem?_append_left (by simp; omega)] at h0 h1
  exact hs (sep_infix_of_getElem h0 h1)

/-! ## Canonical names -/

theorem splitFirst_colon {name : List Char} (h : name.count ':' = 1) :
    ∃ t, name = name.takeWhile (· ≠ ':') ++ ':' :: t ∧ ':' ∉ name.takeWhile (· ≠ ':') ∧ ':' ∉ t := by
  have hmem : ':' ∈ name := List.count_pos_iff.mp (by omega)
  obtain ⟨s, t, hst⟩ := List.append_of_mem hmem
  subst hst
  rw [List.count_append, List.count_cons_self] at h
  have hs : ':' ∉ s := List.count_eq_zero.mp (by omega)
  have ht : ':' ∉ t := List.count_eq_zero.mp (by omega)
  have htake : (s ++ ':' :: t).takeWhile (· ≠ ':') = s := by
    rw [List.takeWhile_append_of_pos]
    · simp
    · intro c hc
      have : c ≠ ':' := by rintro rfl; exact hs hc
      simp [this]
  exact ⟨t, by rw [htake], by rw [htake]; exact hs, ht⟩

/-- What `register` guarantees about the name of an MCP tool. -/
theorem Registrable.mcp_name {t : Tool} (h : Registrable t) (hm : t.isMcpImported = true) :
    ∃ tool, t.name.toList = (serverPart t.name).toList ++ ':' :: tool ∧
      ':' ∉ (serverPart t.name).toList ∧ ':' ∉ tool ∧ ¬ sep <:+: (serverPart t.name).toList := by
  obtain ⟨hcount, hsep⟩ := h.mcp hm
  obtain ⟨tool, hsplit, hs, ht⟩ := splitFirst_colon hcount
  have hpart : (serverPart t.name).toList = t.name.toList.takeWhile (· ≠ ':') := by
    rw [serverPart, String.toList_ofList]
  rw [hpart]
  refine ⟨tool, hsplit, hs, ht, ?_⟩
  rw [← hpart]
  exact occurs_eq_false.mp hsep

theorem llmName_mcp {t : Tool} {server tool : List Char} (hn : t.name.toList = server ++ ':' :: tool)
    (hs : ':' ∉ server) (ht : ':' ∉ tool) :
    (llmName t.name).toList = server ++ sep ++ tool := by
  have hmem : ':' ∈ t.name.toList := by rw [hn]; simp
  rw [llmName, if_pos hmem, String.toList_ofList, hn, replaceEach_append, replaceEach_of_not_mem hs,
    List.append_assoc]
  have : replaceEach ':' sep (':' :: tool) = sep ++ tool := by
    rw [← List.singleton_append, replaceEach_append, replaceEach_singleton,
      replaceEach_of_not_mem ht]
  rw [this]

theorem llmName_native {t : Tool} (h : Registrable t) (hm : t.isMcpImported = false) :
    llmName t.name = t.name := by
  rw [llmName, if_neg (h.native hm).2]

/-! ## Lookup of a name that came back from the model -/

namespace ToolRegistry

variable {r : ToolRegistry}

theorem mem_values {t : Tool} : t ∈ r.tools.values ↔ r.tools.get? t.name = some t := by
  rw [Dict.get?_eq_some, Dict.values, List.mem_map]
  constructor
  · rintro ⟨⟨k, v⟩, hp, rfl⟩
    have hk : v.name = k := r.keyed _ hp
    rw [hk]; exact hp
  · intro h; exact ⟨(t.name, t), h, rfl⟩

theorem registrable_of_mem {t : Tool} (h : t ∈ r.tools.values) : Registrable t := by
  obtain ⟨p, hp, rfl⟩ := List.mem_map.mp h
  exact r.valid p hp

theorem name_of_get? {k : String} {t : Tool} (h : r.tools.get? k = some t) : t.name = k :=
  r.keyed _ (Dict.mem_items_of_get? h)

/-- No registered name contains `__` without containing `:`, so a wire name is never a key. -/
theorem get?_wire {name : String} (hsep : hasSep name = true) (hcolon : ':' ∉ name.toList) :
    r.tools.get? name = none := by
  cases hg : r.tools.get? name with
  | none => rfl
  | some t =>
    have hname := name_of_get? hg
    have hreg := r.valid _ (Dict.mem_items_of_get? hg)
    cases hm : t.isMcpImported with
    | false => rw [← hname, (hreg.native hm).1] at hsep; cases hsep
    | true =>
      obtain ⟨tool, hn, -⟩ := hreg.mcp_name hm
      rw [hname] at hn
      exact absurd (hn ▸ by simp) hcolon

theorem get_native {t : Tool} (ht : t ∈ r.tools.values) (hm : t.isMcpImported = false)
    (hne : t.name ≠ "") : r.get (llmName t.name) = some t := by
  rw [llmName_native (registrable_of_mem ht) hm, get, if_neg hne, mem_values.mp ht]

/-- The wire name of an MCP tool is looked up under the canonical name that its first `__`
decodes to. -/
theorem get_mcp {t : Tool} (ht : t ∈ r.tools.values) (hm : t.isMcpImported = true) :
    r.get (llmName t.name) = r.tools.get? (canonicalOf (llmName t.name)) := by
  obtain ⟨tool, hn, hs, htool, -⟩ := (registrable_of_mem ht).mcp_name hm
  have hwire := llmName_mcp hn hs htool
  have hsep : hasSep (llmName t.name) = true := by
    rw [hasSep, hwire, occurs_iff]
    exact ⟨(serverPart t.name).toList, tool, rfl⟩
  have hcolon : ':' ∉ (llmName t.name).toList := by
    rw [hwire]
    simp [sep, hs, htool]
  have hne : llmName t.name ≠ "" := by
    intro he
    rw [he] at hsep
    revert hsep
    decide
  rw [get, if_neg hne, get?_wire hsep hcolon]
  simp [hsep]

theorem canonicalOf_llmName {t : Tool} (h : Registrable t) (hm : t.isMcpImported = true) :
    canonicalOf (llmName t.name) = t.name ↔ (serverPart t.name).toList.getLast? ≠ some '_' := by
  obtain ⟨tool, hn, hs, htool, hsep⟩ := h.mcp_name hm
  rw [canonicalOf, llmName_mcp hn hs htool, replaceFirst]
  constructor
  · intro he hend
    obtain ⟨s, hsplit⟩ := List.getLast?_eq_some_iff.mp hend
    rw [hsplit] at he hsep hn
    rw [splitFirst_server_underscore hsep] at he
    have := congrArg String.toList he
    rw [hn, String.toList_ofList] at this
    simp at this
  · intro hend
    rw [splitFirst_server hsep hend]
    calc String.ofList ((serverPart t.name).toList ++ [':'] ++ tool)
        = String.ofList t.name.toList := by rw [hn, List.append_assoc]; rfl
      _ = t.name := String.ofList_toList

/-- The names sent to the model are pairwise distinct, and `get` maps each back to its tool. -/
def RoundTrips (r : ToolRegistry) : Prop :=
  (r.listForLlm.map OpenAiFunction.name).Nodup ∧
    ∀ t ∈ r.tools.values, r.get (toOpenAiFunction t).name = some t

theorem names_nodup (r : ToolRegistry) : (r.tools.values.map Tool.name).Nodup := by
  have h : r.tools.values.map Tool.name = r.tools.keys := by
    rw [Dict.values, Dict.keys, List.map_map]
    exact List.map_congr_left fun p hp => r.keyed p hp
  rw [h]; exact r.tools.keys_nodup

/-- A name that decodes to itself: not empty, and no server name that ends in `_`. -/
def NameDecodes (t : Tool) : Prop :=
  t.name ≠ "" ∧ (t.isMcpImported = true → (serverPart t.name).toList.getLast? ≠ some '_')

theorem get_llmName_iff {t : Tool} (ht : t ∈ r.tools.values) :
    r.get (llmName t.name) = some t ↔
      NameDecodes t := by
  unfold NameDecodes
  cases hm : t.isMcpImported with
  | false =>
    constructor
    · intro h
      refine ⟨fun he => ?_, fun h => by cases h⟩
      rw [llmName_native (registrable_of_mem ht) hm, he] at h
      cases h
    · exact fun h => get_native ht hm h.1
  | true =>
    rw [get_mcp ht hm]
    constructor
    · intro h
      have hname := name_of_get? h
      obtain ⟨tool, hn, -⟩ := (registrable_of_mem ht).mcp_name hm
      refine ⟨fun he => ?_, fun _ => (canonicalOf_llmName (registrable_of_mem ht) hm).mp hname.symm⟩
      rw [he] at hn
      simp at hn
    · rintro ⟨-, hend⟩
      rw [(canonicalOf_llmName (registrable_of_mem ht) hm).mpr (hend rfl)]
      exact mem_values.mp ht

theorem roundTrips_of_decodes {r : ToolRegistry} (h : ∀ t ∈ r.tools.values, NameDecodes t) :
    r.RoundTrips := by
  have hget : ∀ t ∈ r.tools.values, r.get (llmName t.name) = some t :=
    fun t ht => (get_llmName_iff ht).mpr (h t ht)
  refine ⟨?_, hget⟩
  -- `get` inverts the encoding, so the encoding is injective on the registered tools
  have hinj : ∀ a ∈ r.tools.values, ∀ b ∈ r.tools.values,
      llmName a.name = llmName b.name → a = b := by
    intro a ha b hb he
    have := hget a ha
    rw [he, hget b hb] at this
    exact (Option.some.inj this).symm
  rw [listForLlm, List.map_map]
  exact (List.Nodup.of_map _ (names_nodup r)).map_on hinj

/-- **Wire names.** After any sequence of `register` and `unregister` calls the round trip holds
exactly when no tool has the empty name and no registered MCP server name ends in `_`. -/
theorem run_roundTrips_iff (py : PyText) (ops : List Op) :
    (run py ops).RoundTrips ↔ ∀ t ∈ (run py ops).tools.values, NameDecodes t :=
  ⟨fun h t ht => (get_llmName_iff ht).mp (h.2 t ht), roundTrips_of_decodes⟩

/-- The settings accept the server key `a_` and the adapter its tool `b`, but the wire name
`a___b` decodes to `a:_b`, which is not registered. -/
theorem underscore_server_lost :
    validateServerKeys .ascii ["a_"] = .ok () ∧
      ∃ t, mcpToolAdapter .ascii "a_" {} { name := "b" } = .ok t ∧
        (toOpenAiFunction t).name = "a___b" ∧
        ¬ (run .ascii [.register t]).RoundTrips := by
  refine ⟨by decide, _, rfl, by decide, fun h => ?_⟩
  have hhit := h.2 _ (List.mem_singleton.mpr rfl)
  have hget : ((run .ascii [.register _]).get "a___b").isSome = true :=
    Option.isSome_iff_exists.mpr ⟨_, hhit⟩
  revert hget
  decide

end ToolRegistry

end PyClaw
