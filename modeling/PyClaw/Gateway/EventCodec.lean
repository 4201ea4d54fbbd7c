import PyClaw.Lib.JsonData
import PyClaw.Memory.Naming

/-!
# Gateway.EventCodec

How a Feishu event travels to another worker: `serialize_event` and `ForwardPublisher.forward` write it as
JSON, `ForwardConsumer` and `_dispatch_forwarded_event` read it, and `reconstruct_feishu_event` makes an object
of it again. Bytes are left out; an object without attributes is known by its text.

`forwarded_fields`: the other worker finds the fields that a message is routed by.
-/

namespace PyClaw

inductive PyObject where
  | none
  | bool (b : Bool)
  | int (n : Int)
  | float (literal : List Char)
  | str (s : List Char)
  /-- A list, a tuple or a set. -/
  | list (items : List PyObject)
  | dict (entries : List (List Char × PyObject))
  /-- An object with a `__dict__`. -/
  | object (attributes : List (List Char × PyObject))
  | other (text : List Char)

/-- Whether a name is kept: it does not begin with an underscore. -/
def publicName (name : List Char) : Bool := name.head? ≠ some '_'

namespace PyObject

mutual

/-- `_to_jsonable`. -/
def toJsonable : PyObject → JsonValue
  | .none => .null
  | .bool b => .bool b
  | .int n => .int n
  | .float literal => .float literal
  | .str s => .str s
  | .list items => .arr (itemsToJsonable items)
  | .dict entries => .obj (entriesToJsonable entries)
  | .object attributes => .obj (attributesToJsonable attributes)
  | .other text => .str text

def itemsToJsonable : List PyObject → List JsonValue
  | [] => []
  | o :: rest => o.toJsonable :: itemsToJsonable rest

def entriesToJsonable : List (List Char × PyObject) → List (List Char × JsonValue)
  | [] => []
  | (k, o) :: rest => (k, o.toJsonable) :: entriesToJsonable rest

def attributesToJsonable : List (List Char × PyObject) → List (List Char × JsonValue)
  | [] => []
  | (k, o) :: rest =>
    if publicName k then (k, o.toJsonable) :: attributesToJsonable rest else attributesToJsonable rest

end

mutual

/-- `_to_namespace`. -/
def toNamespace : JsonValue → PyObject
  | .null => .none
  | .bool b => .bool b
  | .int n => .int n
  | .float literal => .float literal
  | .str s => .str s
  | .arr items => .list (itemsToNamespace items)
  | .obj entries => .object (entriesToNamespace entries)

def itemsToNamespace : List JsonValue → List PyObject
  | [] => []
  | v :: rest => toNamespace v :: itemsToNamespace rest

def entriesToNamespace : List (List Char × JsonValue) → List (List Char × PyObject)
  | [] => []
  | (k, v) :: rest => (k, toNamespace v) :: entriesToNamespace rest

end

mutual

/-- No key or attribute twice, and floats with their literal. -/
def Wf : PyObject → Prop
  | .float literal => Json.IsFloat literal
  | .list items => WfItems items
  | .dict entries | .object entries => (entries.map Prod.fst).Nodup ∧ WfEntries entries
  | _ => True

def WfItems : List PyObject → Prop
  | [] => True
  | o :: rest => o.Wf ∧ WfItems rest

def WfEntries : List (List Char × PyObject) → Prop
  | [] => True
  | (_, o) :: rest => o.Wf ∧ WfEntries rest

end

/-- `getattr`; none is an `AttributeError`. -/
def attr? (o : PyObject) (name : String) : Option PyObject :=
  match o with
  | .object attributes => attributes.lookup name.toList
  | _ => Option.none

/-! ## What a message is routed by -/

/-- `value or ""`, of an attribute that is a string or `None`. -/
def textOf (o : PyObject) (name : String) : Option (List Char) :=
  match o.attr? name with
  | some (.str s) => some s
  | some .none => some []
  | _ => Option.none

structure MessageFields where
  messageId : List Char
  event : FeishuEvent

/-- `(sender.sender_id.open_id or "") if sender and sender.sender_id else ""`. -/
def openIdOf (event : PyObject) : Option (List Char) :=
  match event.attr? "sender" with
  | some .none => some []
  | some sender =>
    match sender.attr? "sender_id" with
    | some .none => some []
    | some senderId => senderId.textOf "open_id"
    | Option.none => Option.none
  | Option.none => Option.none

/-- What `handle_feishu_message` and `build_session_key` read of an event to route it. -/
def fields (o : PyObject) : Option MessageFields :=
  (o.attr? "event").bind fun event =>
    (event.attr? "message").bind fun msg =>
      (msg.textOf "message_id").bind fun messageId =>
        (msg.textOf "chat_type").bind fun chatType =>
          (msg.textOf "chat_id").bind fun chatId =>
            (msg.textOf "thread_id").bind fun threadId =>
              event.openIdOf.map fun openId =>
                { messageId
                  event :=
                    { chatType := String.ofList chatType, chatId := String.ofList chatId
                      openId := String.ofList openId, threadId := String.ofList threadId } }

/-! ## The wire -/

/-- `serialize_event`; what is no object becomes an empty payload. -/
def serializeEvent (o : PyObject) : JsonValue :=
  .obj [("type".toList, .str "feishu_event".toList),
    ("payload".toList,
      match o.toJsonable with
      | .obj entries => .obj entries
      | _ => .obj [])]

/-- `ForwardPublisher.forward`. -/
def wire (o : PyObject) : List Char := Json.dumps true o.serializeEvent

/-- `reconstruct_feishu_event`: `lark` is what `P2ImMessageReceiveV1` makes of a payload, if it does not raise. -/
def reconstruct (lark : JsonValue → Option PyObject) (payload : JsonValue) : PyObject :=
  (lark payload).getD (toNamespace payload)

/-- `ForwardConsumer._run_loop` and `_dispatch_forwarded_event` up to the handler: `payload.get("payload") or {}`. -/
def receive (lark : JsonValue → Option PyObject) (raw : List Char) : Option PyObject :=
  (Json.parse raw).bind fun message =>
    match (message.field "payload").1 with
    | .obj entries => some (reconstruct lark (.obj entries))
    | .null | .bool false | .str [] | .arr [] => some (reconstruct lark (.obj []))
    | .int n => if n = 0 then some (reconstruct lark (.obj [])) else Option.none
    -- `reconstruct_feishu_event` raises for what is no object
    | _ => Option.none

/-! ## Attributes survive -/

theorem lookup_cons_eq {α : Type} (k k' : List Char) (v : α) (l : List (List Char × α)) :
    ((k', v) :: l).lookup k = if k' = k then some v else l.lookup k := by
  by_cases h : k' = k
  · rw [if_pos h, h, List.lookup_cons_self]
  · have hne : (k == k') = false := beq_eq_false_iff_ne.mpr fun e => h e.symm
    rw [if_neg h, List.lookup_cons, hne]

theorem lookup_attributes {k : List Char} (hk : publicName k = true)
    (attributes : List (List Char × PyObject)) :
    (attributesToJsonable attributes).lookup k = (attributes.lookup k).map toJsonable := by
  induction attributes with
  | nil => rfl
  | cons e attributes ih =>
    obtain ⟨k', o⟩ := e
    rw [attributesToJsonable, lookup_cons_eq]
    by_cases hkk : k' = k
    · rw [if_pos hkk, hkk, if_pos hk, lookup_cons_eq, if_pos rfl, Option.map_some]
    · rw [if_neg hkk, ← ih]
      split
      · rw [lookup_cons_eq, if_neg hkk]
      · rfl

theorem lookup_entries (k : List Char) (entries : List (List Char × JsonValue)) :
    (entriesToNamespace entries).lookup k = (entries.lookup k).map toNamespace := by
  induction entries with
  | nil => rfl
  | cons e entries ih =>
    obtain ⟨k', v⟩ := e
    rw [entriesToNamespace, lookup_cons_eq, lookup_cons_eq]
    split
    · rfl
    · exact ih

/-- An object after its way through JSON. -/
def again (o : PyObject) : PyObject := toNamespace o.toJsonable

/-- Every public attribute is there again. -/
theorem attr?_again {o x : PyObject} {name : String} (hname : publicName name.toList = true)
    (h : o.attr? name = some x) : o.again.attr? name = some x.again := by
  cases o with
  | object attributes =>
    show (entriesToNamespace (attributesToJsonable attributes)).lookup name.toList = _
    have h : attributes.lookup name.toList = some x := h
    rw [lookup_entries, lookup_attributes hname, h]
    rfl
  | _ => cases h

theorem textOf_again {o : PyObject} {name : String} {s : List Char} (hname : publicName name.toList = true)
    (h : o.textOf name = some s) : o.again.textOf name = some s := by
  unfold textOf at h ⊢
  split at h
  · rename_i s' hattr
    cases h
    rw [attr?_again hname hattr]
    rfl
  · rename_i hattr
    cases h
    rw [attr?_again hname hattr]
    rfl
  · cases h

/-- An object with an attribute is an object again. -/
theorem again_ne_none {o x : PyObject} {name : String} (h : o.attr? name = some x) : o.again ≠ .none := by
  cases o with
  | object attributes => exact fun he => nomatch he
  | _ => cases h

theorem openIdOf_again {event : PyObject} {s : List Char} (h : event.openIdOf = some s) :
    event.again.openIdOf = some s := by
  unfold openIdOf at h ⊢
  split at h
  · rename_i hsender
    rw [attr?_again (by decide) hsender]
    exact h
  · rename_i sender _ hsender
    rw [attr?_again (by decide) hsender]
    split at h
    · rename_i hid
      have hnone := again_ne_none hid
      have hid' := attr?_again (by decide) hid
      generalize sender.again = sender' at hnone hid'
      cases sender' with
      | none => exact absurd rfl hnone
      | _ =>
        simp only [hid']
        exact h
    · rename_i senderId hne hid
      have hnone := again_ne_none hid
      have hid' := attr?_again (by decide) hid
      have htext := textOf_again (by decide) h
      have hagain : senderId.again ≠ .none := by
        cases senderId with
        | object attributes => exact fun he => nomatch he
        | _ => cases h
      generalize sender.again = sender' at hnone hid'
      generalize senderId.again = senderId' at hid' htext hagain
      cases sender' with
      | none => exact absurd rfl hnone
      | _ =>
        simp only [hid']
        cases senderId' with
        | none => exact absurd rfl hagain
        | _ => exact htext
    · cases h
  · cases h

theorem fields_again {o : PyObject} {f : MessageFields} (h : o.fields = some f) : o.again.fields = some f := by
  simp only [fields, Option.bind_eq_some_iff, Option.map_eq_some_iff] at h ⊢
  obtain ⟨event, hevent, msg, hmsg, messageId, hmessageId, chatType, hchatType, chatId, hchatId, threadId,
    hthreadId, openId, hopenId, rfl⟩ := h
  exact ⟨event.again, attr?_again (by decide) hevent, msg.again, attr?_again (by decide) hmsg, messageId,
    textOf_again (by decide) hmessageId, chatType, textOf_again (by decide) hchatType, chatId,
    textOf_again (by decide) hchatId, threadId, textOf_again (by decide) hthreadId, openId,
    openIdOf_again hopenId, rfl⟩

/-! ## Well-formed objects are written -/

theorem keys_entriesToJsonable (entries : List (List Char × PyObject)) :
    (entriesToJsonable entries).map Prod.fst = entries.map Prod.fst := by
  induction entries with
  | nil => rfl
  | cons e entries ih => exact congrArg (e.1 :: ·) ih

theorem keys_attributesToJsonable (attributes : List (List Char × PyObject)) :
    List.Sublist ((attributesToJsonable attributes).map Prod.fst) (attributes.map Prod.fst) := by
  induction attributes with
  | nil => exact List.Sublist.refl _
  | cons e attributes ih =>
    obtain ⟨k, o⟩ := e
    rw [attributesToJsonable]
    split
    · exact ih.cons_cons k
    · exact ih.cons k

mutual

theorem toJsonable_proper (o : PyObject) (h : o.Wf) : Json.Proper o.toJsonable := by
  match o with
  | .none | .bool _ | .int _ | .str _ | .other _ => trivial
  | .float literal => exact h
  | .list items => exact itemsToJsonable_proper items h
  | .dict entries =>
    refine ⟨?_, entriesToJsonable_proper entries h.2⟩
    rw [keys_entriesToJsonable]
    exact h.1
  | .object attributes =>
    refine ⟨?_, attributesToJsonable_proper attributes h.2⟩
    exact h.1.sublist (keys_attributesToJsonable attributes)

theorem itemsToJsonable_proper (items : List PyObject) (h : WfItems items) :
    Json.ProperItems (itemsToJsonable items) := by
  match items with
  | [] => trivial
  | o :: items => exact ⟨toJsonable_proper o h.1, itemsToJsonable_proper items h.2⟩

theorem entriesToJsonable_proper (entries : List (List Char × PyObject)) (h : WfEntries entries) :
    Json.ProperEntries (entriesToJsonable entries) := by
  match entries with
  | [] => trivial
  | (_, o) :: entries => exact ⟨toJsonable_proper o h.1, entriesToJsonable_proper entries h.2⟩

theorem attributesToJsonable_proper (attributes : List (List Char × PyObject)) (h : WfEntries attributes) :
    Json.ProperEntries (attributesToJsonable attributes) := by
  match attributes with
  | [] => trivial
  | (k, o) :: attributes =>
    rw [attributesToJsonable]
    split
    · exact ⟨toJsonable_proper o h.1, attributesToJsonable_proper attributes h.2⟩
    · exact attributesToJsonable_proper attributes h.2

end

/-! ## The other worker -/

theorem serializeEvent_proper {o : PyObject} (h : o.Wf) : Json.Proper o.serializeEvent := by
  have hkeys : (["type", "payload"].map String.toList).Nodup := by decide
  refine ⟨hkeys, trivial, ?_, trivial⟩
  have hproper := toJsonable_proper o h
  split
  · rename_i entries he
    exact he ▸ hproper
  · exact ⟨List.nodup_nil, trivial⟩

/-- What arrives of an object: its attributes, given to the constructor of the library. -/
theorem receive_wire (lark : JsonValue → Option PyObject) {attributes : List (List Char × PyObject)}
    (h : (PyObject.object attributes).Wf) :
    receive lark (wire (.object attributes)) =
      some (reconstruct lark (PyObject.object attributes).toJsonable) := by
  have hparse : Json.parse (wire (.object attributes)) = some ⟨_, serializeEvent_proper h⟩ :=
    Json.parse_text true ⟨_, serializeEvent_proper h⟩
  rw [receive, hparse, Option.bind_some]
  rfl

/-- The constructor of the library keeps the fields that a payload has, where it does not raise. -/
def KeepsFields (lark : JsonValue → Option PyObject) : Prop :=
  ∀ payload o f, lark payload = some o → (toNamespace payload).fields = some f → o.fields = some f

/-- The worker that a message is forwarded to reads the same message id, and makes the same session key of it, for
every app and scope. -/
theorem forwarded_fields (lark : JsonValue → Option PyObject) (hlark : KeepsFields lark) (o : PyObject)
    (ho : o.Wf) (f : MessageFields) (hf : o.fields = some f) (appId scope : String) :
    ∃ o' f', receive lark (wire o) = some o' ∧ o'.fields = some f' ∧ f'.messageId = f.messageId ∧
      buildSessionKey appId f'.event scope = buildSessionKey appId f.event scope := by
  cases o with
  | object attributes =>
    refine ⟨_, f, receive_wire lark ho, ?_, rfl, rfl⟩
    have hagain := fields_again hf
    rw [reconstruct]
    cases hbuilt : lark (PyObject.object attributes).toJsonable with
    | none => exact hagain
    | some o' => exact hlark _ o' f hbuilt hagain
  | _ => cases hf

/-- A message to the bot, with a private attribute. -/
def sampleEvent : PyObject :=
  .object [("_raw".toList, .other "bytes".toList), ("event".toList,
    .object [("sender".toList, .object [("sender_id".toList, .object [("open_id".toList, .str "ou_1".toList)])]),
      ("message".toList, .object [("message_id".toList, .str "om_1".toList), ("chat_id".toList, .str "oc_1".toList),
        ("chat_type".toList, .str "p2p".toList), ("thread_id".toList, .none)])])]

theorem forwarded_fields_sample :
    ∃ o' f', receive (some ∘ toNamespace) (wire sampleEvent) = some o' ∧ o'.fields = some f' ∧
      f'.messageId = "om_1".toList ∧ buildSessionKey "cli" f'.event "chat" = "feishu:cli:ou_1" :=
  forwarded_fields (some ∘ toNamespace) (fun _ _ _ hbuilt hf => Option.some.inj hbuilt ▸ hf) sampleEvent
    ⟨by decide, trivial, ⟨by decide, ⟨by decide, ⟨by decide, trivial, trivial⟩, trivial⟩,
      ⟨by decide, trivial, trivial, trivial, trivial, trivial⟩, trivial⟩, trivial⟩
    ⟨"om_1".toList, ⟨"p2p", "oc_1", "ou_1", ""⟩⟩ rfl "cli" "chat"

end PyObject

end PyClaw
