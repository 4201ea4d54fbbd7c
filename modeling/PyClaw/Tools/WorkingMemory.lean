import Mathlib.Algebra.BigOperators.Group.List.Basic
import PyClaw.Lib.Machine
import PyClaw.Lib.Redis
import PyClaw.Memory.Tools

/-!
# Tools.WorkingMemory

`UpdateWorkingMemoryTool` on the hash and the order list of one session. A call is a sequence of commands,
each of which the server may not answer; the fields of the hash are in the order of their first write.

* `evictLoop_answered`: the loop drops the oldest fields until the rest fits.
* `mem_keepFitting_iff`: a key is left if it and the fields after it fit.
* `workingMemory_kept_iff`: along every undisturbed run the memory keeps what it reports, exactly if each
  value fits together with the keys that were first written after its own.
-/

namespace PyClaw

/-- The number of characters of all keys and values. -/
def totalChars (fields : List (String × String)) : Int :=
  (fields.map fun p => ((p.1.length + p.2.length : Nat) : Int)).sum

/-- The hash and the order list of a session. -/
structure WorkingMemory where
  hash : Dict String String := Dict.empty
  order : List String := []

namespace WorkingMemory

/-- Sends a command; the call goes on with the state after it if it is answered. -/
def send (d : Delivery) (effect : WorkingMemory → WorkingMemory) (s : WorkingMemory)
    (next : WorkingMemory → WorkingMemory × Bool) : WorkingMemory × Bool :=
  match d with
  | .unsent => (s, false)
  | .unanswered => (effect s, false)
  | .answered => next (effect s)

/-- The loop of `_evict_if_needed`, with the order list and the hash as they are, and with `all_fields` and
`total_chars`; it returns the number of commands sent, unless one has failed. -/
def evictLoop (maxChars : Int) (env : Nat → Delivery) :
    List String → Dict String String → Dict String String → Int → Nat → WorkingMemory × Option Nat
  | [], hash, _, total, i =>
    if total ≤ maxChars then (⟨hash, []⟩, some i)
    else if env i = .answered then (⟨hash, []⟩, some (i + 1))
    else (⟨hash, []⟩, none)
  | oldest :: rest, hash, fields, total, i =>
    if total ≤ maxChars then (⟨hash, oldest :: rest⟩, some i)
    else
      match env i with
      | .unsent => (⟨hash, oldest :: rest⟩, none)
      | .unanswered => (⟨hash, rest⟩, none)
      | .answered =>
        match fields.get? oldest with
        | none => evictLoop maxChars env rest hash fields total (i + 1)
        | some value =>
          match env (i + 1) with
          | .unsent => (⟨hash, rest⟩, none)
          | .unanswered => (⟨hash.erase oldest, rest⟩, none)
          | .answered =>
            evictLoop maxChars env rest (hash.erase oldest) (fields.erase oldest)
              (total - ((oldest.length + value.length : Nat) : Int)) (i + 2)

/-- The commands of `execute`; whether all of them were answered. -/
def store (maxChars : Int) (env : Nat → Delivery) (s : WorkingMemory) (key value : String) :
    WorkingMemory × Bool :=
  send (env 0) id s fun s =>
    let existing := s.hash.get? key
    send (env 1) (fun s => { s with hash := s.hash.set key value }) s fun s =>
      let evict := fun s : WorkingMemory =>
        send (env 3) id s fun s =>
          match evictLoop maxChars env s.order s.hash s.hash (totalChars s.hash.items) 4 with
          | (s, none) => (s, false)
          | (s, some i) => send (env i) id s fun s => send (env (i + 1)) id s fun s => (s, true)
      if existing = none then send (env 2) (fun s => { s with order := s.order ++ [key] }) s evict
      else evict s

/-- The key and the value of a call, or the message that refuses it. -/
def keyAndValue (args : ToolArgs) : Except String (String × String) :=
  match (args.lookup "key").getD (.str "") with
  | .str key =>
    if key = "" then .error "update_working_memory: 'key' must be a non-empty string"
    else
      match (args.lookup "value").getD (.str "") with
      | .str value => .ok (key, value)
      | _ => .error "update_working_memory: 'value' must be a string"
  | _ => .error "update_working_memory: 'key' must be a non-empty string"

/-- `UpdateWorkingMemoryTool.execute`; `failure` is the text of what a command raises. -/
def execute (maxChars : Int) (env : Nat → Delivery) (failure : String) (s : WorkingMemory)
    (args : ToolArgs) : ToolResult × WorkingMemory :=
  match keyAndValue args with
  | .error message => (errorResult (callIdOf args) message, s)
  | .ok (key, value) =>
    let r := s.store maxChars env key value
    (if r.2 then
      { toolCallId := callIdOf args, content := [.text ("stored '" ++ key ++ "' in working memory")] }
    else errorResult (callIdOf args) ("update_working_memory: " ++ failure), r.1)

/-- A call, with the fate of its commands; or time passes, and keys expire. -/
inductive Step where
  | call (args : ToolArgs) (env : Nat → Delivery) (failure : String)
  | expire (hash order : Bool)

def step (maxChars : Int) (s : WorkingMemory) : Step → WorkingMemory
  | .call args env failure => (s.execute maxChars env failure args).2
  | .expire hash order =>
    { hash := if hash then Dict.empty else s.hash, order := if order then [] else s.order }

/-! ## What is promised -/

/-- After a call that has stored `stored`, if any. -/
structure Kept (maxChars : Int) (s s' : WorkingMemory) (stored : Option (String × String)) : Prop where
  readable : ∀ p ∈ stored, s'.hash.get? p.1 = some p.2
  bounded : totalChars s'.hash.items ≤ maxChars
  /-- What is gone are the oldest fields, all of them older than the key. -/
  evicted : ∀ p ∈ stored, ∃ gone, (s.hash.set p.1 p.2).items = gone ++ s'.hash.items ∧
    p.1 ∉ gone.map Prod.fst
  inStep : s'.order.Nodup ∧ ∀ k, k ∈ s'.order ↔ k ∈ s'.hash.keys

/-- What a call reports as stored. -/
def stored (result : ToolResult) (args : ToolArgs) : Option (String × String) :=
  if result.isError then none else (keyAndValue args).toOption

def KeepsReported (maxChars : Int) (s : WorkingMemory) : Step → Prop
  | .call args env failure =>
    let r := s.execute maxChars env failure args
    Kept maxChars s r.2 (stored r.1 args)
  | .expire _ _ => True

/-- The value fits together with its key and the fields that were first written after it. -/
def Fits (maxChars : Int) (s : WorkingMemory) : Step → Prop
  | .call args _ _ => 0 ≤ maxChars ∧ ∀ key value, keyAndValue args = .ok (key, value) →
      totalChars ((s.hash.set key value).items.dropWhile fun p => p.1 ≠ key) ≤ maxChars
  | .expire _ _ => True

/-- Every command is answered, and hash and list expire together. -/
def Step.Undisturbed : Step → Prop
  | .call _ env _ => ∀ i, env i = .answered
  | .expire hash order => hash = order

/-! ## Fitting -/

/-- The fields without the oldest ones, as few as must go. -/
def keepFitting (maxChars : Int) : List (String × String) → List (String × String)
  | [] => []
  | p :: rest => if totalChars (p :: rest) ≤ maxChars then p :: rest else keepFitting maxChars rest

theorem totalChars_cons (p : String × String) (rest : List (String × String)) :
    totalChars (p :: rest) = ((p.1.length + p.2.length : Nat) : Int) + totalChars rest := by
  simp [totalChars]

theorem totalChars_nonneg (fields : List (String × String)) : 0 ≤ totalChars fields := by
  induction fields with
  | nil => simp [totalChars]
  | cons p rest ih =>
    rw [totalChars_cons]
    omega

theorem totalChars_le_of_suffix {fields rest : List (String × String)} (h : rest <:+ fields) :
    totalChars rest ≤ totalChars fields := by
  induction fields with
  | nil =>
    rw [List.suffix_nil.mp h]
  | cons p fields ih =>
    rcases List.suffix_cons_iff.mp h with rfl | h
    · exact le_rfl
    · have hrest := ih h
      rw [totalChars_cons]
      omega

theorem keepFitting_suffix (maxChars : Int) (fields : List (String × String)) :
    keepFitting maxChars fields <:+ fields := by
  induction fields with
  | nil => exact List.suffix_refl _
  | cons p rest ih =>
    rw [keepFitting]
    split
    · exact List.suffix_refl _
    · exact ih.trans (List.suffix_cons p rest)

theorem totalChars_keepFitting {maxChars : Int} (hmax : 0 ≤ maxChars) (fields : List (String × String)) :
    totalChars (keepFitting maxChars fields) ≤ maxChars := by
  induction fields with
  | nil => simpa [keepFitting, totalChars] using hmax
  | cons p rest ih =>
    rw [keepFitting]
    split
    · assumption
    · exact ih

/-- A key is left exactly if the fields from its own on fit. -/
theorem mem_keepFitting_iff {maxChars : Int} {fields : List (String × String)} {key : String}
    (hnodup : (fields.map Prod.fst).Nodup) (hkey : key ∈ fields.map Prod.fst) :
    key ∈ (keepFitting maxChars fields).map Prod.fst ↔
      totalChars (fields.dropWhile fun p => p.1 ≠ key) ≤ maxChars := by
  induction fields with
  | nil => cases hkey
  | cons p rest ih =>
    rw [List.map_cons, List.nodup_cons] at hnodup
    rw [keepFitting]
    by_cases hp : p.1 = key
    · have hfrom : (p :: rest).dropWhile (fun p => decide (p.1 ≠ key)) = p :: rest := by
        simp [hp]
      rw [hfrom]
      split
      · rename_i hfits
        simp [hp, hfits]
      · rename_i hfits
        refine iff_of_false (fun hmem => ?_) hfits
        have hrest := ((keepFitting_suffix maxChars rest).map Prod.fst).subset hmem
        exact hnodup.1 (hp ▸ hrest)
    · have hrest : key ∈ rest.map Prod.fst := by
        rcases List.mem_cons.mp hkey with heq | hrest
        · exact absurd heq.symm hp
        · exact hrest
      have hfrom : (p :: rest).dropWhile (fun p => decide (p.1 ≠ key)) =
          rest.dropWhile fun p => decide (p.1 ≠ key) := by
        simp [hp]
      rw [hfrom]
      split
      · rename_i hfits
        refine iff_of_true hkey ?_
        have hle := totalChars_le_of_suffix
          ((List.dropWhile_suffix fun p : String × String => decide (p.1 ≠ key)).trans (List.suffix_cons p rest))
        omega
      · exact ih hnodup.2 hrest

/-! ## The loop -/

theorem items_erase_head {d : Dict String String} {p : String × String} {rest : List (String × String)}
    (h : d.items = p :: rest) : (d.erase p.1).items = rest := by
  have hnodup := d.nodup
  rw [h, List.map_cons, List.nodup_cons] at hnodup
  have hrest : ∀ q ∈ rest, q.1 ≠ p.1 := fun q hq heq => hnodup.1 (heq ▸ List.mem_map_of_mem hq)
  have hitems : (d.erase p.1).items = d.items.filter fun q => q.1 ≠ p.1 := rfl
  rw [hitems, h]
  simpa using hrest

/-- With order list and hash in step the loop drops the oldest fields until the rest fits. -/
theorem evictLoop_answered {maxChars : Int} {env : Nat → Delivery} (henv : ∀ i, env i = .answered)
    {l : List (String × String)} {hash fields : Dict String String} {i : Nat} (hhash : hash.items = l)
    (hfields : fields.items = l) :
    ∃ s j, evictLoop maxChars env (l.map Prod.fst) hash fields (totalChars l) i = (s, some j) ∧
      s.hash.items = keepFitting maxChars l ∧ s.order = (keepFitting maxChars l).map Prod.fst := by
  induction l generalizing hash fields i with
  | nil =>
    rw [List.map_nil, evictLoop]
    split
    · exact ⟨_, _, rfl, hhash, rfl⟩
    · rw [if_pos (henv i)]
      exact ⟨_, _, rfl, hhash, rfl⟩
  | cons p rest ih =>
    rw [List.map_cons, evictLoop, keepFitting]
    split
    · exact ⟨_, _, rfl, hhash, rfl⟩
    · have hvalue : fields.get? p.1 = some p.2 :=
        Dict.get?_of_mem_items (hfields ▸ List.mem_cons_self)
      have htotal : totalChars (p :: rest) - ((p.1.length + p.2.length : Nat) : Int) = totalChars rest := by
        rw [totalChars_cons]
        omega
      simp only [henv, hvalue, htotal]
      exact ih (items_erase_head hhash) (items_erase_head hfields)

/-! ## One call -/

variable {maxChars : Int} {env : Nat → Delivery} {s : WorkingMemory} {key value failure : String}
  {args : ToolArgs}

/-- The order list has the keys in the order of their first write, and they fit. -/
def Ordered (maxChars : Int) (s : WorkingMemory) : Prop :=
  s.order = s.hash.keys ∧ (0 ≤ maxChars → totalChars s.hash.items ≤ maxChars)

/-- A call whose commands are answered writes the field and drops the oldest ones. -/
theorem store_answered (henv : ∀ i, env i = .answered) (horder : s.order = s.hash.keys) :
    ∃ s', s.store maxChars env key value = (s', true) ∧
      s'.hash.items = keepFitting maxChars (s.hash.set key value).items ∧ s'.order = s'.hash.keys := by
  have hpushed : (if s.hash.get? key = none then s.order ++ [key] else s.order) =
      (s.hash.set key value).items.map Prod.fst := by
    rw [horder, Dict.set, Dict.map_fst_assign]
    by_cases hkey : key ∈ s.hash.keys
    · have hne : s.hash.get? key ≠ none := fun h => Dict.get?_eq_none.mp h hkey
      rw [if_neg hne, if_pos (show key ∈ s.hash.items.map Prod.fst from hkey)]
      rfl
    · rw [if_pos (Dict.get?_eq_none.mpr hkey), if_neg (show key ∉ s.hash.items.map Prod.fst from hkey)]
      rfl
  obtain ⟨s', j, hloop, hitems, hkeys⟩ :=
    @evictLoop_answered maxChars env henv _ (s.hash.set key value) (s.hash.set key value) 4 rfl rfl
  refine ⟨s', ?_, hitems, ?_⟩
  · rw [← hpushed] at hloop
    unfold store
    simp only [send, henv, id]
    split
    · rename_i hnew
      rw [if_pos hnew] at hloop
      simp only [hloop]
    · rename_i hold
      rw [if_neg hold] at hloop
      simp only [hloop]
  · rw [hkeys, Dict.keys, hitems]

/-- What a call with answered commands does. -/
theorem execute_ok (henv : ∀ i, env i = .answered) (horder : s.order = s.hash.keys)
    (h : keyAndValue args = .ok (key, value)) :
    ∃ s', (s.execute maxChars env failure args).2 = s' ∧
      stored (s.execute maxChars env failure args).1 args = some (key, value) ∧
      s'.hash.items = keepFitting maxChars (s.hash.set key value).items ∧ s'.order = s'.hash.keys := by
  obtain ⟨s', hstore, hitems, hkeys⟩ := @store_answered maxChars env s key value henv horder
  refine ⟨s', ?_, ?_, hitems, hkeys⟩
  · simp only [execute, h, hstore]
  · simp only [execute, h, hstore, if_true, stored, Except.toOption]
    rfl

theorem execute_refused {message : String} (h : keyAndValue args = .error message) :
    (s.execute maxChars env failure args).2 = s ∧
      stored (s.execute maxChars env failure args).1 args = none := by
  constructor
  · simp only [execute, h]
  · simp only [execute, h, stored, errorResult, if_true]

theorem inStep_of_keys (h : s.order = s.hash.keys) :
    s.order.Nodup ∧ ∀ k, k ∈ s.order ↔ k ∈ s.hash.keys := by
  rw [h]
  exact ⟨s.hash.keys_nodup, fun _ => Iff.rfl⟩

/-- A field that is left after the eviction is as it was written. -/
theorem get?_of_keepFitting {s' : WorkingMemory}
    (hitems : s'.hash.items = keepFitting maxChars (s.hash.set key value).items)
    (hmem : key ∈ s'.hash.keys) : s'.hash.get? key = some value := by
  obtain ⟨q, hq, rfl⟩ := List.mem_map.mp hmem
  have hwritten : (s.hash.set q.1 value).get? q.1 = some q.2 := by
    rw [hitems] at hq
    exact Dict.get?_of_mem_items ((keepFitting_suffix maxChars _).subset hq)
  rw [Dict.get?_set_self, Option.some.injEq] at hwritten
  rw [hwritten]
  exact Dict.get?_of_mem_items hq

/-- Where the key is left, only older fields are gone. -/
theorem evicted_of_keepFitting {s' : WorkingMemory}
    (hitems : s'.hash.items = keepFitting maxChars (s.hash.set key value).items)
    (hmem : key ∈ s'.hash.keys) :
    ∃ gone, (s.hash.set key value).items = gone ++ s'.hash.items ∧ key ∉ gone.map Prod.fst := by
  obtain ⟨gone, hgone⟩ := keepFitting_suffix maxChars (s.hash.set key value).items
  rw [← hitems] at hgone
  refine ⟨gone, hgone.symm, fun hold => ?_⟩
  have hnodup := (s.hash.set key value).nodup
  rw [← hgone, List.map_append, List.nodup_append] at hnodup
  exact hnodup.2.2 key hold key hmem rfl

/-- A call keeps what it reports exactly if its value fits with the fields after it. -/
theorem kept_iff (hs : Ordered maxChars s) (henv : ∀ i, env i = .answered) :
    KeepsReported maxChars s (.call args env failure) ↔ Fits maxChars s (.call args env failure) := by
  rw [KeepsReported, Fits]
  cases hargs : keyAndValue args with
  | error message =>
    obtain ⟨hstate, hnone⟩ := @execute_refused maxChars env s failure args message hargs
    simp only [hstate, hnone]
    constructor
    · intro h
      have hpos := totalChars_nonneg s.hash.items
      have hle := h.bounded
      refine ⟨by omega, ?_⟩
      intro key value heq
      cases heq
    · exact fun h => ⟨by simp, hs.2 h.1, by simp, inStep_of_keys hs.1⟩
  | ok p =>
    obtain ⟨key, value⟩ := p
    obtain ⟨s', hstate, hstored, hitems, hkeys⟩ :=
      @execute_ok maxChars env s key value failure args henv hs.1 hargs
    simp only [hstate, hstored]
    have hkey : key ∈ (s.hash.set key value).items.map Prod.fst := Dict.mem_keys_set.mpr (.inl rfl)
    have hleft := @mem_keepFitting_iff maxChars _ key (s.hash.set key value).nodup hkey
    rw [← hitems] at hleft
    constructor
    · intro h
      have hpos := totalChars_nonneg s'.hash.items
      have hle := h.bounded
      refine ⟨by omega, ?_⟩
      intro key' value' heq
      obtain ⟨rfl, rfl⟩ := Prod.mk.inj (Except.ok.inj heq)
      exact hleft.mp (Dict.mem_keys_of_get? (h.readable (key, value) rfl))
    · rintro ⟨hmax, hfits⟩
      have hmem : key ∈ s'.hash.keys := hleft.mpr (hfits key value rfl)
      refine ⟨?_, ?_, ?_, inStep_of_keys hkeys⟩
      · rintro p hp
        obtain rfl := Option.some.inj hp
        exact get?_of_keepFitting hitems hmem
      · rw [hitems]
        exact totalChars_keepFitting hmax _
      · rintro p hp
        obtain rfl := Option.some.inj hp
        exact evicted_of_keepFitting hitems hmem

theorem ordered_step (hs : Ordered maxChars s) {a : Step} (ha : a.Undisturbed) :
    Ordered maxChars (s.step maxChars a) := by
  cases a with
  | call args env failure =>
    rw [step]
    cases hargs : keyAndValue args with
    | error message => rwa [(@execute_refused maxChars env s failure args message hargs).1]
    | ok p =>
      obtain ⟨s', hstate, -, hitems, hkeys⟩ :=
        @execute_ok maxChars env s p.1 p.2 failure args ha hs.1 hargs
      rw [hstate]
      refine ⟨hkeys, fun hmax => ?_⟩
      rw [hitems]
      exact totalChars_keepFitting hmax _
  | expire hash order =>
    obtain rfl : hash = order := ha
    cases hash with
    | false => exact hs
    | true => exact ⟨rfl, fun hmax => by simpa [step, totalChars] using hmax⟩

/-! ## Runs -/

/-- Along every undisturbed run of calls on an empty memory each call keeps what it reports, exactly if
each value fits together with the fields that were first written after its key. -/
theorem workingMemory_kept_iff (maxChars : Int) (steps : List Step)
    (hsteps : ∀ a ∈ steps, a.Undisturbed) :
    Along (WorkingMemory.step maxChars) (KeepsReported maxChars) {} steps ↔
      Along (WorkingMemory.step maxChars) (Fits maxChars) {} steps := by
  suffices h : ∀ s, Ordered maxChars s → (Along (WorkingMemory.step maxChars) (KeepsReported maxChars) s steps ↔
      Along (WorkingMemory.step maxChars) (Fits maxChars) s steps) from
    h {} ⟨rfl, fun hmax => by simpa [totalChars] using hmax⟩
  induction steps with
  | nil => exact fun _ _ => Iff.rfl
  | cons a rest ih =>
    intro s hs
    have ha := hsteps a List.mem_cons_self
    have hrest := ih (fun b hb => hsteps b (List.mem_cons_of_mem _ hb)) (s.step maxChars a)
      (ordered_step hs ha)
    refine and_congr ?_ hrest
    cases a with
    | call args env failure => exact kept_iff hs ha
    | expire hash order => exact Iff.rfl

/-- A call whose commands are answered. -/
def write (key value : String) : Step :=
  .call [("key", .str key), ("value", .str value)] (fun _ => .answered) ""

theorem keyAndValue_write (hkey : key ≠ "") :
    keyAndValue [("key", .str key), ("value", .str value)] = .ok (key, value) := by
  simp [keyAndValue, List.lookup_cons, hkey]

theorem fits_write (hkey : key ≠ "") : Fits maxChars s (write key value) ↔ 0 ≤ maxChars ∧
    totalChars ((Dict.assign key value s.hash.items).dropWhile fun p => p.1 ≠ key) ≤ maxChars := by
  rw [write, Fits, keyAndValue_write hkey]
  constructor
  · exact fun h => ⟨h.1, h.2 key value rfl⟩
  · rintro ⟨hmax, hfits⟩
    refine ⟨hmax, ?_⟩
    intro key' value' heq
    obtain ⟨rfl, rfl⟩ := Prod.mk.inj (Except.ok.inj heq)
    exact hfits

theorem items_write (hs : Ordered maxChars s) (hkey : key ≠ "") :
    (s.step maxChars (write key value)).hash.items =
      keepFitting maxChars (Dict.assign key value s.hash.items) := by
  obtain ⟨s', hstate, -, hitems, -⟩ :=
    @execute_ok maxChars (fun _ => .answered) s key value "" _ (fun _ => rfl) hs.1 (keyAndValue_write hkey)
  rw [write, step, hstate, hitems]
  rfl

/-- A short value and a long one, which fit. -/
def twoWrites (long : String) : WorkingMemory :=
  runFrom (WorkingMemory.step 1024) {} [write "a" "x", write "b" long]

theorem ordered_empty : Ordered 1024 {} := ⟨rfl, fun _ => by simp [totalChars]⟩

theorem ordered_write (hs : Ordered maxChars s) : Ordered maxChars (s.step maxChars (write key value)) :=
  ordered_step hs fun _ => rfl

theorem items_oneWrite : (WorkingMemory.step 1024 {} (write "a" "x")).hash.items = [("a", "x")] := by
  rw [items_write ordered_empty (by decide), Dict.items_empty, Dict.assign, keepFitting,
    if_pos (by decide)]

theorem ordered_twoWrites (long : String) : Ordered 1024 (twoWrites long) :=
  ordered_write (ordered_write ordered_empty)

theorem items_twoWrites {long : String} (hlong : long.length = 1000) :
    (twoWrites long).hash.items = [("a", "x"), ("b", long)] := by
  have hfits : totalChars [("a", "x"), ("b", long)] ≤ 1024 := by
    have hshort : (("a", "x") : String × String).1.length + ("a", "x").2.length = 2 := by decide
    have hkey : "b".length = 1 := by decide
    rw [totalChars_cons, totalChars_cons, hshort, hkey, hlong]
    decide
  have hassign : Dict.assign "b" long [("a", "x")] = [("a", "x"), ("b", long)] := by
    simp [Dict.assign]
  rw [twoWrites, runFrom, runFrom, runFrom, items_write (ordered_write ordered_empty) (by decide),
    items_oneWrite, hassign, keepFitting, if_pos hfits]

theorem overwrite_not_kept {long : String} (hlong : long.length = 1000) :
    ¬ KeepsReported 1024 (twoWrites long) (write "a" long) := by
  have hfrom : (Dict.assign "a" long [("a", "x"), ("b", long)]).dropWhile (fun p => decide (p.1 ≠ "a")) =
      [("a", long), ("b", long)] := by
    simp [Dict.assign]
  intro hkept
  have hfits := (kept_iff (ordered_twoWrites long) fun _ => rfl).mp hkept
  have hle := ((fits_write (by decide)).mp hfits).2
  rw [items_twoWrites hlong, hfrom, totalChars_cons, totalChars_cons, hlong] at hle
  have hpos := totalChars_nonneg []
  omega

/-- The first value is overwritten by one that does not fit with the second: it is stored and dropped. -/
theorem overwritten_not_kept :
    ¬ ∀ (maxChars : Int) (steps : List Step), (∀ a ∈ steps, a.Undisturbed) →
      Along (WorkingMemory.step maxChars) (KeepsReported maxChars) {} steps := by
  intro h
  have hlong : (String.ofList (List.replicate 1000 'y')).length = 1000 := by
    rw [String.length_ofList, List.length_replicate]
  generalize String.ofList (List.replicate 1000 'y') = long at hlong
  have hsteps : ∀ a ∈ [write "a" "x", write "b" long] ++ [write "a" long], a.Undisturbed := by
    simp [write, Step.Undisturbed]
  have hthird := (along_append.mp (h 1024 _ hsteps)).2
  rw [← twoWrites, Along] at hthird
  exact overwrite_not_kept hlong hthird.1

/-- It is kept if there is room. -/
theorem overwritten_kept :
    Along (WorkingMemory.step 1024) (KeepsReported 1024) {} [write "a" "x", write "a" "y"] := by
  have hsteps : ∀ a ∈ [write "a" "x", write "a" "y"], a.Undisturbed := by
    simp [write, Step.Undisturbed]
  refine (workingMemory_kept_iff 1024 _ hsteps).mpr ?_
  rw [Along, Along, Along, fits_write (by decide), fits_write (by decide), items_oneWrite]
  exact ⟨⟨by omega, by decide⟩, ⟨by omega, by decide⟩, trivial⟩

end WorkingMemory

end PyClaw
