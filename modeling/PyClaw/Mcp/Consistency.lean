import Mathlib.Data.List.Nodup
import PyClaw.Lib.Machine
import PyClaw.Mcp.ClientManager

/-!
# Mcp.Consistency

Which runs of the manager keep its three tables together. The lock of a server is free between the
teardown and the connection of a restart, and a death notice does not say which connection it is
about. `keeps_iff`: the registry, the adapters and the status agree, and no notice touches a newer
connection, exactly in the runs in which no connection ends on a server that still has adapters and
every notice that finds adapters is about the connection they belong to.
-/

namespace PyClaw

/-! ## Registries -/

namespace ToolRegistry

variable {py : PyText} {reg : ToolRegistry} {t u : Tool} {tools : List Tool}

theorem name_mem_keys (h : t ∈ reg.tools.values) : t.name ∈ reg.tools.keys :=
  Dict.mem_keys_of_get? (mem_values.mp h)

theorem exists_of_mem_keys {name : String} (h : name ∈ reg.tools.keys) :
    ∃ t ∈ reg.tools.values, t.name = name := by
  obtain ⟨t, ht⟩ := Dict.exists_get?_of_mem_keys h
  have hname := name_of_get? ht
  exact ⟨t, mem_values.mpr (hname ▸ ht), hname⟩

theorem mem_unregister {name : String} :
    t ∈ (reg.unregister name).1.tools.values ↔ t ∈ reg.tools.values ∧ t.name ≠ name := by
  rw [mem_values, mem_values]
  show (reg.tools.erase name).get? t.name = some t ↔ _
  by_cases hname : t.name = name
  · rw [hname, Dict.get?_erase_self]
    simp
  · rw [Dict.get?_erase_ne hname]
    simp [hname]

theorem mem_unregisterAll :
    t ∈ (reg.unregisterAll tools).tools.values ↔
      t ∈ reg.tools.values ∧ t.name ∉ tools.map Tool.name := by
  induction tools generalizing reg with
  | nil => simp [unregisterAll]
  | cons u rest ih =>
    have hstep : reg.unregisterAll (u :: rest) = (reg.unregister u.name).1.unregisterAll rest := rfl
    rw [hstep, ih, mem_unregister, List.map_cons, List.mem_cons, not_or, and_assoc]

theorem register_ok {reg' : ToolRegistry} (h : reg.register py t = .ok reg') :
    t.name ∉ reg.tools.keys ∧ ∀ u, u ∈ reg'.tools.values ↔ u ∈ reg.tools.values ∨ u = t := by
  unfold register at h
  split at h
  · cases h
  · rename_i hname
    split at h
    · cases h
    · cases h
      refine ⟨hname, fun u => ?_⟩
      show u ∈ (reg.tools.set t.name t).items.map Prod.snd ↔ _
      rw [Dict.items_set_of_not_mem t hname, List.map_append]
      simp [Dict.values]

theorem exists_register (hvalid : Registrable t) (hname : t.name ∉ reg.tools.keys) :
    ∃ reg', reg.register py t = .ok reg' := by
  unfold register
  rw [dif_neg hname]
  split
  · rename_i msg hmsg
    rw [checkTool_ok_iff.mpr hvalid] at hmsg
    cases hmsg
  · exact ⟨_, rfl⟩

/-- Valid tools of new and different names are all registered. -/
theorem registerAll_ok (hvalid : ∀ t ∈ tools, Registrable t) (hnodup : (tools.map Tool.name).Nodup)
    (hnew : ∀ t ∈ tools, t.name ∉ reg.tools.keys) :
    ∃ reg', reg.registerAll py tools = (reg', none) ∧
      ∀ t, t ∈ reg'.tools.values ↔ t ∈ reg.tools.values ∨ t ∈ tools := by
  induction tools generalizing reg with
  | nil => exact ⟨reg, rfl, fun t => by simp⟩
  | cons u rest ih =>
    rw [List.map_cons, List.nodup_cons] at hnodup
    obtain ⟨reg₁, hreg₁⟩ := @exists_register py _ _
      (hvalid u List.mem_cons_self) (hnew u List.mem_cons_self)
    have hvalues := (register_ok hreg₁).2
    have hfresh : ∀ t ∈ rest, t.name ∉ reg₁.tools.keys := by
      intro t ht hkey
      obtain ⟨w, hw, hname⟩ := exists_of_mem_keys hkey
      rcases (hvalues w).mp hw with hold | rfl
      · exact hnew t (List.mem_cons_of_mem _ ht) (hname ▸ name_mem_keys hold)
      · exact hnodup.1 (hname ▸ List.mem_map_of_mem ht)
    obtain ⟨reg', hreg', hvalues'⟩ :=
      ih (fun t ht => hvalid t (List.mem_cons_of_mem _ ht)) hnodup.2 hfresh
    refine ⟨reg', by rw [registerAll, hreg₁]; exact hreg', fun t => ?_⟩
    rw [hvalues', hvalues, List.mem_cons, or_assoc]

/-- Tools that are all registered had new names, and leave what was there. -/
theorem registerAll_none {reg' : ToolRegistry} (h : reg.registerAll py tools = (reg', none)) :
    (∀ t ∈ tools, t.name ∉ reg.tools.keys) ∧ ∀ t ∈ reg.tools.values, t ∈ reg'.tools.values := by
  induction tools generalizing reg with
  | nil =>
    cases h
    exact ⟨fun t ht => absurd ht List.not_mem_nil, fun t => id⟩
  | cons u rest ih =>
    rw [registerAll] at h
    split at h
    · rename_i reg₁ hreg₁
      obtain ⟨hname, hvalues⟩ := register_ok hreg₁
      obtain ⟨hrest, hkept⟩ := ih h
      have hstays : ∀ t ∈ reg.tools.values, t ∈ reg₁.tools.values :=
        fun t ht => (hvalues t).mpr (.inl ht)
      refine ⟨fun t ht hkey => ?_, fun t ht => hkept t (hstays t ht)⟩
      rcases List.mem_cons.mp ht with rfl | ht
      · exact hname hkey
      · obtain ⟨w, hw, hwname⟩ := exists_of_mem_keys hkey
        exact hrest t ht (hwname ▸ name_mem_keys (hstays w hw))
    · cases h

end ToolRegistry

/-! ## Adapters -/

/-- The name of the tool is in the namespace of the server. -/
def InNamespace (server : String) (t : Tool) : Prop := ∃ tool, t.name = server ++ ":" ++ tool

structure AdapterOf (server : String) (t : Tool) : Prop where
  colon : ':' ∉ server.toList
  named : InNamespace server t
  mcp : t.isMcpImported = true
  registrable : Registrable t

theorem toList_of_namespace {server tool : String} {t : Tool} (h : t.name = server ++ ":" ++ tool) :
    t.name.toList = server.toList ++ ':' :: tool.toList := by
  rw [h]
  simp [String.toList_append]

theorem serverPart_of_namespace {server : String} {t : Tool} (hcolon : ':' ∉ server.toList)
    (h : InNamespace server t) : serverPart t.name = server := by
  obtain ⟨tool, hname⟩ := h
  rw [serverPart, toList_of_namespace hname, List.takeWhile_append_of_pos, List.takeWhile_cons]
  · simp
  · intro c hc
    simp only [ne_eq, decide_eq_true_eq]
    rintro rfl
    exact hcolon hc

theorem isMcp_of_namespace {server : String} {t : Tool} (h : InNamespace server t)
    (hvalid : Registrable t) : t.isMcpImported = true := by
  obtain ⟨tool, hname⟩ := h
  cases hmcp : t.isMcpImported with
  | true => rfl
  | false =>
    have hcolon := (hvalid.native hmcp).2
    rw [toList_of_namespace hname] at hcolon
    simp at hcolon

/-- An adapter is in the namespace of one server only. -/
theorem AdapterOf.unique {a b : String} {t u : Tool} (ht : AdapterOf a t) (hu : AdapterOf b u)
    (hname : t.name = u.name) : a = b := by
  rw [← serverPart_of_namespace ht.colon ht.named, ← serverPart_of_namespace hu.colon hu.named, hname]

theorem validateServerKeys_ok {py : PyText} {keys : List String}
    (h : validateServerKeys py keys = .ok ()) :
    ∀ key ∈ keys, ':' ∉ key.toList ∧ hasSep key = false := by
  induction keys with
  | nil => exact fun key hkey => absurd hkey List.not_mem_nil
  | cons first rest ih =>
    rw [validateServerKeys] at h
    split at h
    · cases h
    · rename_i hcolon
      split at h
      · cases h
      · rename_i hsep
        intro key hkey
        rcases List.mem_cons.mp hkey with rfl | hkey
        · exact ⟨hcolon, by simpa using hsep⟩
        · exact ih h key hkey

section
variable {py : PyText} {name : String} {config : McpServerConfig} {remote : RemoteTool} {t : Tool}

theorem mcpToolAdapter_ok (h : mcpToolAdapter py name config remote = .ok t) :
    t.name = name ++ ":" ++ remote.name ∧ ':' ∉ remote.name.toList ∧ t.isMcpImported = true ∧
      t.toolClass = some (deriveToolClass config remote.readOnlyHint) := by
  unfold mcpToolAdapter at h
  split at h
  · cases h
  · rename_i hcolon
    cases h
    exact ⟨rfl, hcolon, rfl, rfl⟩

theorem deriveToolClass_valid (hclass : ∀ cls ∈ config.forcedToolClass, cls ∈ ["read", "write"])
    (hint : Option Bool) : deriveToolClass config hint ∈ validToolClasses := by
  unfold deriveToolClass
  split
  · rename_i cls hcls
    have hmem := hclass cls hcls
    simp only [List.mem_cons, List.not_mem_nil, or_false] at hmem
    rcases hmem with rfl | rfl <;> decide
  · split <;> decide

theorem adapterOf_ok (hcolon : ':' ∉ name.toList) (hsep : hasSep name = false)
    (hclass : ∀ cls ∈ config.forcedToolClass, cls ∈ ["read", "write"])
    (h : mcpToolAdapter py name config remote = .ok t) : AdapterOf name t := by
  obtain ⟨hname, hremote, hmcp, hcls⟩ := mcpToolAdapter_ok h
  have hnamed : InNamespace name t := ⟨remote.name, hname⟩
  refine ⟨hcolon, hnamed, hmcp, ⟨_, deriveToolClass_valid hclass _, hcls⟩, fun hnative => ?_,
    fun _ => ⟨?_, ?_⟩⟩
  · rw [hmcp] at hnative
    cases hnative
  · rw [toList_of_namespace hname, List.count_append, List.count_cons_self,
      List.count_eq_zero_of_not_mem hcolon, List.count_eq_zero_of_not_mem hremote]
  · rw [serverPart_of_namespace hcolon hnamed]
    exact hsep

theorem mem_buildAdapters {session : McpSession} (h : t ∈ buildAdapters py name config session) :
    ∃ remote ∈ session.tools, mcpToolAdapter py name config remote = .ok t := by
  obtain ⟨remote, hremote, hok⟩ := List.mem_filterMap.mp h
  refine ⟨remote, hremote, ?_⟩
  cases hadapter : mcpToolAdapter py name config remote with
  | ok u =>
    rw [hadapter] at hok
    cases hok
    rfl
  | error msg =>
    rw [hadapter] at hok
    cases hok

theorem buildAdapters_nodup (session : McpSession) :
    ((buildAdapters py name config session).map Tool.name).Nodup := by
  have hremote := session.nodup
  rw [List.Nodup, List.pairwise_map] at hremote
  rw [List.Nodup, List.pairwise_map, buildAdapters, List.pairwise_filterMap]
  refine hremote.imp fun {a b} hne t ht u hu hname => hne ?_
  have hok : ∀ {remote : RemoteTool} {t : Tool},
      (mcpToolAdapter py name config remote).toOption = some t →
        t.name.toList = name.toList ++ ':' :: remote.name.toList := by
    intro remote t ht
    cases hadapter : mcpToolAdapter py name config remote with
    | ok u =>
      rw [hadapter] at ht
      cases ht
      exact toList_of_namespace (mcpToolAdapter_ok hadapter).1
    | error msg =>
      rw [hadapter] at ht
      cases ht
  have hlist := hok ht
  rw [hname, hok hu] at hlist
  have htail := List.append_cancel_left hlist
  exact (String.toList_inj.mp (List.cons.inj htail).2).symm

end

namespace McpManager

variable {py : PyText} (settings : McpSettings py)

/-- The bound registry holds exactly the recorded adapters of each server, which has none unless it
is connected, and no tool has been refused. -/
structure Consistent (s : McpManager) : Prop where
  registered : ∀ r, s.registry = some r → ∀ name ∈ settings.servers.keys, ∀ t,
    t ∈ (s.registries r).tools.values ∧ InNamespace name t ↔ t ∈ s.adaptersOf name
  connected : ∀ name, s.adaptersOf name ≠ [] →
    ∃ current, s.servers.get? name = some current ∧ current.status = .connected
  accepted : s.refusals = []

/-- A death notice removes no adapters but those of its own connection. -/
def SparesNewer (s : McpManager) : ManagerStep → Prop
  | .died name connection =>
    s.adaptersOf name ≠ [] → (s.step settings (.died name connection)).adaptersOf name = [] →
      connection = s.connection name
  | _ => True

def Keeps (s : McpManager) (a : ManagerStep) : Prop :=
  (s.step settings a).Consistent settings ∧ s.SparesNewer settings a

/-- A notice that finds adapters is about their connection, and a connection that ends finds none. -/
def Orderly (s : McpManager) : ManagerStep → Prop
  | .died name connection =>
    s.connecting name = false → s.adaptersOf name ≠ [] → connection = s.connection name
  | .connects name (some _) =>
    enabled? settings name ≠ none → s.connecting name = false → s.adaptersOf name = []
  | .connectEnds name (.failed _) => s.connecting name = true → s.adaptersOf name = []
  | .connectEnds name (.session _ _) =>
    s.connecting name = true → s.registry ≠ none → s.adaptersOf name = []
  | _ => True

/-- What a consistent manager keeps besides. -/
structure Inv (s : McpManager) : Prop where
  adapters : ∀ name, ∀ t ∈ s.adaptersOf name, AdapterOf name t
  nodup : ∀ name, ((s.adaptersOf name).map Tool.name).Nodup
  registered : ∀ r t, t.isMcpImported = true →
    (t ∈ (s.registries r).tools.values ↔ s.registry = some r ∧ ∃ name, t ∈ s.adaptersOf name)
  connected : ∀ name, s.adaptersOf name ≠ [] →
    ∃ current, s.servers.get? name = some current ∧ current.status = .connected
  accepted : s.refusals = []
  connecting : ∀ name, s.connecting name = true → enabled? settings name ≠ none

variable {settings} {s : McpManager} {name : String}

theorem Inv.consistent (h : s.Inv settings) : s.Consistent settings where
  registered r hr name hname t := by
    obtain ⟨hcolon, -⟩ := validateServerKeys_ok settings.keys_valid name hname
    constructor
    · rintro ⟨hmem, hnamed⟩
      have hmcp := isMcp_of_namespace hnamed (ToolRegistry.registrable_of_mem hmem)
      obtain ⟨-, server, ht⟩ := (h.registered r t hmcp).mp hmem
      have hserver := h.adapters server t ht
      rw [← serverPart_of_namespace hcolon hnamed,
        serverPart_of_namespace hserver.colon hserver.named]
      exact ht
    · intro ht
      have hadapter := h.adapters name t ht
      exact ⟨(h.registered r t hadapter.mcp).mpr ⟨hr, name, ht⟩, hadapter.named⟩
  connected := h.connected
  accepted := h.accepted

/-! ## Steps -/

theorem adaptersOf_set (t : McpManager) (tools : List Tool) (n : String) :
    adaptersOf { t with adapters := s.adapters.set name tools } n =
      if name = n then tools else s.adaptersOf n := by
  rw [adaptersOf, Dict.get?_set]
  split <;> rfl

theorem onBound_registries (f : ToolRegistry → ToolRegistry) (r : Nat) :
    (s.onBound f).registries r = if s.registry = some r then f (s.registries r) else s.registries r := by
  rw [onBound]
  cases hbound : s.registry with
  | none => simp
  | some b =>
    by_cases hr : b = r
    · simp [hr]
    · simp [hr, Function.update_of_ne (Ne.symm hr)]

theorem adaptersOf_tearDown (n : String) :
    (s.tearDown name).adaptersOf n = if name = n then [] else s.adaptersOf n :=
  adaptersOf_set _ _ _

theorem Inv.tearDown (h : s.Inv settings) (name : String) : (s.tearDown name).Inv settings where
  adapters n t ht := by
    rw [adaptersOf_tearDown] at ht
    split at ht
    · cases ht
    · exact h.adapters n t ht
  nodup n := by
    rw [adaptersOf_tearDown]
    split
    · exact List.nodup_nil
    · exact h.nodup n
  registered r t hmcp := by
    have hregs : (s.tearDown name).registries r =
        if s.registry = some r then (s.registries r).unregisterAll (s.adaptersOf name)
        else s.registries r :=
      onBound_registries (fun reg => reg.unregisterAll (s.adaptersOf name)) r
    have hbefore := h.registered r t hmcp
    rw [hregs]
    by_cases hr : s.registry = some r
    · rw [if_pos hr, ToolRegistry.mem_unregisterAll, hbefore]
      constructor
      · rintro ⟨⟨-, n, hn⟩, hnames⟩
        refine ⟨hr, n, ?_⟩
        rw [adaptersOf_tearDown, if_neg]
        · exact hn
        · rintro rfl
          exact hnames (List.mem_map_of_mem hn)
      · rintro ⟨-, n, hn⟩
        rw [adaptersOf_tearDown] at hn
        split at hn
        · cases hn
        · rename_i hne
          refine ⟨⟨hr, n, hn⟩, fun hmem => ?_⟩
          obtain ⟨u, hu, hname⟩ := List.mem_map.mp hmem
          exact hne ((h.adapters name u hu).unique (h.adapters n t hn) hname)
    · rw [if_neg hr, hbefore]
      exact iff_of_false (fun hmem => hr hmem.1) fun hmem => hr hmem.1
  connected n hn := by
    rw [adaptersOf_tearDown] at hn
    split at hn
    · exact absurd rfl hn
    · exact h.connected n hn
  accepted := h.accepted
  connecting := h.connecting

theorem Inv.setStatus (h : s.Inv settings) {status : ServerStatus}
    (hstatus : s.adaptersOf name ≠ [] → status.status = .connected) :
    (s.setStatus name status).Inv settings where
  adapters := h.adapters
  nodup := h.nodup
  registered := h.registered
  connected n hn := by
    by_cases he : name = n
    · subst he
      exact ⟨status, Dict.get?_set_self .., hstatus hn⟩
    · obtain ⟨current, hcurrent, hconnected⟩ := h.connected n hn
      exact ⟨current, by rw [McpManager.setStatus, Dict.get?_set_ne _ _ he]; exact hcurrent, hconnected⟩
  accepted := h.accepted
  connecting := h.connecting

theorem Inv.lock (h : s.Inv settings) {held : Bool} (henabled : held = true →
    enabled? settings name ≠ none) :
    Inv settings { s with connecting := Function.update s.connecting name held } where
  adapters := h.adapters
  nodup := h.nodup
  registered := h.registered
  connected := h.connected
  accepted := h.accepted
  connecting n hn := by
    by_cases he : n = name
    · subst he
      exact henabled (by simpa using hn)
    · exact h.connecting n (by simpa [he] using hn)

theorem Inv.release (h : s.Inv settings) (name : String) : (s.release name).Inv settings :=
  h.lock (by simp)

/-- New tools are registered with the bound registry, if there is one. -/
theorem registerBound_ok {tools : List Tool} (hvalid : ∀ t ∈ tools, Registrable t)
    (hnodup : (tools.map Tool.name).Nodup)
    (hnew : ∀ r, s.registry = some r → ∀ t ∈ tools, t.name ∉ (s.registries r).tools.keys) :
    ∃ regs, s.registerBound py tools = (true, { s with registries := regs }) ∧
      ∀ r t, t ∈ (regs r).tools.values ↔
        t ∈ (s.registries r).tools.values ∨ s.registry = some r ∧ t ∈ tools := by
  by_cases hbound : s.registry = none
  · have hsame : s.registerBound py tools = (true, s) := by rw [registerBound, hbound]
    exact ⟨s.registries, hsame, fun r t => by simp [hbound]⟩
  · obtain ⟨b, hb⟩ := Option.ne_none_iff_exists'.mp hbound
    obtain ⟨reg', hreg', hvalues⟩ := @ToolRegistry.registerAll_ok py _ _ hvalid hnodup (hnew b hb)
    have hres : s.registerBound py tools =
        (true, { s with registries := Function.update s.registries b reg' }) := by
      simp only [registerBound, hb, hreg']
    refine ⟨_, hres, fun r t => ?_⟩
    by_cases hr : b = r
    · subst hr
      rw [Function.update_self, hvalues]
      simp [hb]
    · rw [Function.update_of_ne (Ne.symm hr)]
      simp [hb, hr]

/-- With a bound registry, everything is registered or something is refused. -/
theorem registerBound_cases {tools : List Tool} {r : Nat} (hr : s.registry = some r) :
    (∃ reg', (s.registries r).registerAll py tools = (reg', none) ∧
      s.registerBound py tools =
        (true, { s with registries := Function.update s.registries r reg' })) ∨
      ∃ t, s.registerBound py tools = (false, t) ∧ t.refusals ≠ [] := by
  cases hall : (s.registries r).registerAll py tools with
  | mk reg' refused =>
    cases refused with
    | none =>
      refine .inl ⟨reg', rfl, ?_⟩
      simp only [registerBound, hr, hall]
    | some msg =>
      refine .inr ⟨_, by simp only [registerBound, hr, hall]; rfl, ?_⟩
      simp

/-- What a registry holds under the name of an adapter is an MCP tool. -/
theorem mcp_of_key {reg : ToolRegistry} {t : Tool} (ht : AdapterOf name t)
    (hkey : t.name ∈ reg.tools.keys) :
    ∃ u ∈ reg.tools.values, u.name = t.name ∧ u.isMcpImported = true := by
  obtain ⟨u, hu, hname⟩ := ToolRegistry.exists_of_mem_keys hkey
  have hnamed : InNamespace name u := by
    rw [InNamespace, hname]
    exact ht.named
  exact ⟨u, hu, hname, isMcp_of_namespace hnamed (ToolRegistry.registrable_of_mem hu)⟩

/-- A tool whose name is in a registry, under the name of an adapter, is a recorded adapter. -/
theorem Inv.recorded_of_key (h : s.Inv settings) {r : Nat} {t : Tool} (ht : AdapterOf name t)
    (hkey : t.name ∈ (s.registries r).tools.keys) :
    s.registry = some r ∧ s.adaptersOf name ≠ [] := by
  obtain ⟨u, hu, hname, hmcp⟩ := mcp_of_key ht hkey
  obtain ⟨hr, n, hn⟩ := (h.registered r u hmcp).mp hu
  have hserver : n = name := (h.adapters n u hn).unique ht hname
  exact ⟨hr, List.ne_nil_of_mem (hserver ▸ hn)⟩

theorem adaptersOf_record (tools : List Tool) (n : String) :
    (s.record name tools).adaptersOf n = if name = n then tools else s.adaptersOf n :=
  adaptersOf_set
    { s with connection := Function.update s.connection name (s.connection name + 1) } tools n

/-- New adapters of a server that had none, registered and recorded. -/
theorem Inv.recorded (h : s.Inv settings) {tools : List Tool} {regs : Nat → ToolRegistry}
    {status : ServerStatus} (hadapter : ∀ t ∈ tools, AdapterOf name t)
    (hnodup : (tools.map Tool.name).Nodup) (hfree : s.registry ≠ none → s.adaptersOf name = [])
    (hvalues : ∀ r t, t ∈ (regs r).tools.values ↔
      t ∈ (s.registries r).tools.values ∨ s.registry = some r ∧ t ∈ tools)
    (hstatus : status.status = .connected) :
    (McpManager.setStatus { s.record name tools with registries := regs } name status).Inv
      settings where
  adapters n t ht := by
    have ht : t ∈ (s.record name tools).adaptersOf n := ht
    rw [adaptersOf_record] at ht
    split at ht
    · rename_i he
      exact he ▸ hadapter t ht
    · exact h.adapters n t ht
  nodup n := by
    show (((s.record name tools).adaptersOf n).map Tool.name).Nodup
    rw [adaptersOf_record]
    split
    · exact hnodup
    · exact h.nodup n
  registered r t hmcp := by
    show t ∈ (regs r).tools.values ↔ s.registry = some r ∧
      ∃ n, t ∈ (s.record name tools).adaptersOf n
    rw [hvalues, h.registered r t hmcp]
    constructor
    · rintro (⟨hr, n, hn⟩ | ⟨hr, ht⟩)
      · refine ⟨hr, n, ?_⟩
        rw [adaptersOf_record, if_neg]
        · exact hn
        · rintro rfl
          rw [hfree (by simp [hr])] at hn
          cases hn
      · exact ⟨hr, name, by rw [adaptersOf_record, if_pos rfl]; exact ht⟩
    · rintro ⟨hr, n, hn⟩
      rw [adaptersOf_record] at hn
      split at hn
      · exact .inr ⟨hr, hn⟩
      · exact .inl ⟨hr, n, hn⟩
  connected n hn := by
    by_cases he : name = n
    · subst he
      exact ⟨status, Dict.get?_set_self .., hstatus⟩
    · have hn : (s.record name tools).adaptersOf n ≠ [] := hn
      rw [adaptersOf_record, if_neg he] at hn
      obtain ⟨current, hcurrent, hconnected⟩ := h.connected n hn
      exact ⟨current, (Dict.get?_set_ne s.servers status he).trans hcurrent, hconnected⟩
  accepted := h.accepted
  connecting := h.connecting

theorem Inv.connect (h : s.Inv settings) {server : McpServer} {session : McpSession} {now : Int}
    (hserver : settings.servers.get? name = some server)
    (hfree : s.registry ≠ none → s.adaptersOf name = []) :
    (s.connected py name server.config session now).Inv settings := by
  obtain ⟨hcolon, hsep⟩ :=
    validateServerKeys_ok settings.keys_valid name (Dict.mem_keys_of_get? hserver)
  have hclass := settings.classes_valid server
    (List.mem_map.mpr ⟨_, Dict.mem_items_of_get? hserver, rfl⟩)
  have hadapter : ∀ t ∈ buildAdapters py name server.config session, AdapterOf name t := by
    intro t ht
    obtain ⟨remote, -, hok⟩ := mem_buildAdapters ht
    exact adapterOf_ok hcolon hsep hclass hok
  have hnew : ∀ r, s.registry = some r → ∀ t ∈ buildAdapters py name server.config session,
      t.name ∉ (s.registries r).tools.keys := by
    intro r hr t ht hkey
    exact (h.recorded_of_key (hadapter t ht) hkey).2 (hfree (by simp [hr]))
  obtain ⟨regs, hregs, hvalues⟩ := @registerBound_ok py (s.record name _) _
    (fun t ht => (hadapter t ht).registrable) (buildAdapters_nodup session) hnew
  have hconnected : s.connected py name server.config session now =
      McpManager.setStatus
        { s.record name (buildAdapters py name server.config session) with registries := regs } name
        { status := .connected
          toolCount := (buildAdapters py name server.config session).length
          lastConnectAt := some now } := by
    rw [McpManager.connected, hregs]
    rfl
  rw [hconnected]
  exact h.recorded hadapter (buildAdapters_nodup session) hfree hvalues rfl

theorem mem_flatten {t : Tool} : t ∈ s.adapters.values.flatten ↔ ∃ name, t ∈ s.adaptersOf name := by
  constructor
  · intro h
    obtain ⟨tools, htools, ht⟩ := List.mem_flatten.mp h
    obtain ⟨⟨name, _⟩, hitem, rfl⟩ := List.mem_map.mp htools
    refine ⟨name, ?_⟩
    rw [adaptersOf, Dict.get?_of_mem_items hitem]
    exact ht
  · rintro ⟨name, ht⟩
    cases hget : s.adapters.get? name with
    | none => simp [adaptersOf, hget] at ht
    | some tools =>
      refine List.mem_flatten.mpr ⟨tools, ?_, by simpa [adaptersOf, hget] using ht⟩
      exact List.mem_map.mpr ⟨_, Dict.mem_items_of_get? hget, rfl⟩

theorem Inv.names_nodup (h : s.Inv settings) :
    (s.adapters.values.flatten.map Tool.name).Nodup := by
  have hitem : ∀ p ∈ s.adapters.items, s.adaptersOf p.1 = p.2 := by
    intro p hp
    rw [adaptersOf, Dict.get?_of_mem_items hp]
    rfl
  have hflat : s.adapters.values.flatten.map Tool.name =
      s.adapters.items.flatMap fun p => p.2.map Tool.name := by
    rw [Dict.values, List.map_flatten, List.map_map, List.flatMap]
    rfl
  rw [hflat, List.nodup_flatMap]
  constructor
  · intro p hp
    rw [← hitem p hp]
    exact h.nodup p.1
  · have hkeys := s.adapters.nodup
    rw [List.Nodup, List.pairwise_map] at hkeys
    refine hkeys.imp_of_mem fun {a b} ha hb hne => ?_
    refine List.disjoint_left.mpr fun n hna hnb => ?_
    obtain ⟨t, ht, rfl⟩ := List.mem_map.mp hna
    obtain ⟨u, hu, hname⟩ := List.mem_map.mp hnb
    rw [← hitem a ha] at ht
    rw [← hitem b hb] at hu
    exact hne ((h.adapters a.1 t ht).unique (h.adapters b.1 u hu) hname.symm)

/-- Unbinding takes every MCP tool out of the registries. -/
theorem Inv.unbound (h : s.Inv settings) {r : Nat} {t : Tool}
    (ht : t ∈ ((s.onBound fun reg => reg.unregisterAll s.adapters.values.flatten).registries
      r).tools.values) : t.isMcpImported = false := by
  cases hmcp : t.isMcpImported with
  | false => rfl
  | true =>
    rw [onBound_registries] at ht
    split at ht
    · obtain ⟨hmem, hnames⟩ := ToolRegistry.mem_unregisterAll.mp ht
      have hrecorded := mem_flatten.mpr ((h.registered r t hmcp).mp hmem).2
      exact absurd (List.mem_map_of_mem hrecorded) hnames
    · rename_i hr
      exact absurd ((h.registered r t hmcp).mp ht).1 hr

theorem Inv.attach (h : s.Inv settings) (registry : Nat) : (s.attach py registry).Inv settings := by
  unfold McpManager.attach
  split
  · exact h
  · have hadapter : ∀ t ∈ s.adapters.values.flatten, ∃ n, AdapterOf n t := by
      intro t ht
      obtain ⟨n, hn⟩ := mem_flatten.mp ht
      exact ⟨n, h.adapters n t hn⟩
    let t : McpManager := { s.onBound (fun reg => reg.unregisterAll s.adapters.values.flatten) with
      registry := some registry }
    have hnew : ∀ r, t.registry = some r → ∀ u ∈ s.adapters.values.flatten,
        u.name ∉ (t.registries r).tools.keys := by
      intro r _ u hu hkey
      obtain ⟨n, hn⟩ := hadapter u hu
      obtain ⟨w, hw, -, hmcp⟩ := mcp_of_key hn hkey
      rw [h.unbound hw] at hmcp
      cases hmcp
    obtain ⟨regs, hregs, hvalues⟩ := @registerBound_ok py t _
      (fun u hu => (hadapter u hu).elim fun _ hn => hn.registrable) h.names_nodup hnew
    show (t.registerBound py s.adapters.values.flatten).2.Inv settings
    rw [hregs]
    refine ⟨h.adapters, h.nodup, fun r u hmcp => ?_, h.connected, h.accepted, h.connecting⟩
    rw [hvalues, mem_flatten]
    constructor
    · rintro (hold | hbound)
      · rw [h.unbound hold] at hmcp
        cases hmcp
      · exact hbound
    · exact .inr

theorem inv_start (registries : Nat → NativeRegistry) : (start settings registries).Inv settings where
  adapters name t ht := by cases ht
  nodup name := List.nodup_nil
  registered r t hmcp := by
    constructor
    · intro ht
      rw [(registries r).native t ht] at hmcp
      cases hmcp
    · rintro ⟨hr, -⟩
      cases hr
  connected name hn := absurd rfl hn
  accepted := rfl
  connecting name hn := by cases hn

/-! ## Runs -/

theorem enabled_get {server : McpServer} (h : enabled? settings name = some server) :
    settings.servers.get? name = some server := by
  unfold enabled? at h
  split at h
  · rename_i found hfound
    split at h
    · cases h
      exact hfound
    · cases h
  · cases h

theorem Inv.step (h : s.Inv settings) {a : ManagerStep} (ha : s.Orderly settings a) :
    (s.step settings a).Inv settings := by
  cases a with
  | restarts name =>
    simp only [McpManager.step]
    split
    · exact h
    · split
      · exact h
      · exact h.tearDown name
  | connects name atOnce =>
    simp only [McpManager.step]
    split
    · exact h
    · rename_i server henabled
      split
      · exact h
      · rename_i hidle
        split
        · rename_i reason
          have hnone := ha (by simp [henabled]) (by simpa using hidle)
          exact h.setStatus fun hne => absurd hnone hne
        · exact h.lock fun _ => by simp [henabled]
  | connectEnds name outcome =>
    simp only [McpManager.step]
    split
    · exact h
    · rename_i server henabled
      split
      · rename_i hlocked
        cases outcome with
        | failed reason => exact (h.release name).setStatus fun hne => absurd (ha hlocked) hne
        | raised => exact h.release name
        | session session now => exact (h.release name).connect (enabled_get henabled) (ha hlocked)
      · exact h
  | died name connection =>
    simp only [McpManager.step]
    split
    · exact h
    · split
      · exact h
      · refine (h.tearDown name).setStatus fun hne => ?_
        rw [adaptersOf_tearDown, if_pos rfl] at hne
        exact absurd rfl hne
  | attaches registry => exact h.attach registry

/-- A status that is not `connected` leaves no adapters behind in a consistent manager. -/
theorem Consistent.adapters_of_failed (h : s.Consistent settings) {current : ServerStatus}
    (hcurrent : s.servers.get? name = some current) (hfailed : current.status = .failed) :
    s.adaptersOf name = [] := by
  by_contra hne
  obtain ⟨found, hfound, hconnected⟩ := h.connected name hne
  rw [hcurrent] at hfound
  cases hfound
  rw [hfailed] at hconnected
  cases hconnected

/-- A connection that ends on old adapters leaves the registry with other tools than it records. -/
theorem Inv.adapters_of_connected (h : s.Inv settings) {server : McpServer} {session : McpSession}
    {now : Int} (hserver : settings.servers.get? name = some server) (hbound : s.registry ≠ none)
    (hafter : (s.connected py name server.config session now).Consistent settings) :
    s.adaptersOf name = [] := by
  by_contra hne
  obtain ⟨t, ht⟩ := List.exists_mem_of_ne_nil _ hne
  obtain ⟨r, hr⟩ := Option.ne_none_iff_exists'.mp hbound
  have hadapter := h.adapters name t ht
  have hregistered := (h.registered r t hadapter.mcp).mpr ⟨hr, name, ht⟩
  have hrecord : (s.record name (buildAdapters py name server.config session)).registry = some r := hr
  rcases @registerBound_cases py _ (buildAdapters py name server.config session) r hrecord with
    ⟨reg', hall, hres⟩ | ⟨u, hres, hrefused⟩
  · obtain ⟨hnew, hkept⟩ := ToolRegistry.registerAll_none hall
    rw [McpManager.connected, hres] at hafter
    have hkeys := Dict.mem_keys_of_get? hserver
    have hstill := (hafter.registered r hr name hkeys t).mp ⟨by
      show t ∈ (Function.update s.registries r reg' r).tools.values
      rw [Function.update_self]
      exact hkept t hregistered, hadapter.named⟩
    have hrecorded : t ∈ (s.record name (buildAdapters py name server.config session)).adaptersOf
        name := hstill
    rw [adaptersOf_record, if_pos rfl] at hrecorded
    exact hnew t hrecorded (ToolRegistry.name_mem_keys hregistered)
  · rw [McpManager.connected, hres] at hafter
    exact hrefused hafter.accepted

theorem sparesNewer_of_orderly {a : ManagerStep} (ha : s.Orderly settings a) :
    s.SparesNewer settings a := by
  cases a with
  | died name connection =>
    intro hfound hremoved
    refine ha ?_ hfound
    cases hlocked : s.connecting name with
    | false => rfl
    | true =>
      simp only [McpManager.step, hlocked, true_or, if_true] at hremoved
      split at hremoved <;> exact absurd hremoved hfound
  | _ => trivial

theorem Inv.orderly (h : s.Inv settings) {a : ManagerStep} (hkeeps : s.Keeps settings a) :
    s.Orderly settings a := by
  obtain ⟨hafter, hspares⟩ := hkeeps
  cases a with
  | restarts name => trivial
  | connects name atOnce =>
    cases atOnce with
    | none => trivial
    | some reason =>
      intro henabled hidle
      obtain ⟨server, hserver⟩ := Option.ne_none_iff_exists'.mp henabled
      simp only [McpManager.step, hserver, hidle] at hafter
      exact hafter.adapters_of_failed (Dict.get?_set_self ..) rfl
  | connectEnds name outcome =>
    cases outcome with
    | failed reason =>
      intro hlocked
      obtain ⟨server, hserver⟩ := Option.ne_none_iff_exists'.mp (h.connecting name hlocked)
      simp only [McpManager.step, hserver, hlocked, if_true] at hafter
      exact hafter.adapters_of_failed (Dict.get?_set_self ..) rfl
    | raised => trivial
    | session session now =>
      intro hlocked hbound
      obtain ⟨server, hserver⟩ := Option.ne_none_iff_exists'.mp (h.connecting name hlocked)
      simp only [McpManager.step, hserver, hlocked, if_true] at hafter
      exact (h.release name).adapters_of_connected (enabled_get hserver) hbound hafter
  | died name connection =>
    intro hidle hfound
    obtain ⟨current, hcurrent, hconnected⟩ := h.connected name hfound
    refine hspares hfound ?_
    simp only [McpManager.step, hcurrent, hidle, hconnected]
    show (s.tearDown name).adaptersOf name = []
    rw [adaptersOf_tearDown, if_pos rfl]
  | attaches registry => trivial

theorem Inv.keeps_step_iff (h : s.Inv settings) (a : ManagerStep) :
    s.Keeps settings a ↔ s.Orderly settings a :=
  ⟨h.orderly, fun ha => ⟨(h.step ha).consistent, sparesNewer_of_orderly ha⟩⟩

/-- In every run of the manager: after each step the registry, the adapters and the statuses are
consistent, nothing has been refused, and no death notice has removed the adapters of a newer
connection, exactly when the run is orderly. -/
theorem keeps_iff (settings : McpSettings py) (registries : Nat → NativeRegistry)
    (steps : List ManagerStep) :
    Along (step settings) (Keeps settings) (start settings registries) steps ↔
      Along (step settings) (Orderly settings) (start settings registries) steps :=
  along_iff_of_invariant (fun _ a h => h.keeps_step_iff a) (fun _ _ h ha => h.step ha)
    (inv_start registries)

/-- A late death notice of the first connection takes the adapters of the second one. And of two
restarts at once the second connection fails, as the group already has the tools of the first:
the server counts as failed with its tools registered. -/
theorem interleaved_inconsistent :
    let settings : McpSettings .ascii :=
      { servers := Dict.empty.set "github" {}, keys_valid := by decide
        classes_valid := by simp [Dict.values, Dict.set, Dict.assign, Dict.empty] }
    let native : Nat → NativeRegistry := fun _ =>
      { ToolRegistry.empty with native := fun t ht => by cases ht }
    let connects := fun outcome => [ManagerStep.connects "github" none, .connectEnds "github" outcome]
    let session := fun tool => ConnectOutcome.session ⟨[{ name := tool }], by simp⟩ 0
    let run := fun steps => runFrom (step settings) (start settings native) (.attaches 0 :: steps)
    let renewed := run (connects (session "search") ++ .restarts "github" :: connects (session "find"))
    let twice := run (connects (.failed "connect timeout (30s)") ++
      [.restarts "github", .restarts "github"] ++ connects (session "search") ++
        connects (.failed "tool name collision"))
    (renewed.connection "github" = 2 ∧
        (renewed.adaptersOf "github").map Tool.name = ["github:find"] ∧
        ((renewed.step settings (.died "github" 1)).adaptersOf "github").map Tool.name = []) ∧
      (twice.servers.get? "github").map ServerStatus.status = some .failed ∧
        (twice.registries 0).names = ["github:search"] := by
  decide +kernel

end McpManager

end PyClaw
