import PyClaw.Lib.Json

/-!
# Lib.JsonData

What `json.loads` accepts is well formed (`loads_proper`): a value that can be written again. `JsonData` is such
a value.
-/

namespace PyClaw

namespace Json

/-! ## What is read can be written -/

def Frame.Proper : Frame → Prop
  | .items before => ProperItems before
  | .entries before _ => (before.map Prod.fst).Nodup ∧ ProperEntries before

def Mode.Proper : Mode → Prop
  | .nextItem items => ProperItems items
  | .key _ entries | .colon entries _ | .nextEntry entries | .text (some entries) _ _ =>
    (entries.map Prod.fst).Nodup ∧ ProperEntries entries
  | .number literal => IsNumber literal
  | .word _ v | .done v => Json.Proper v
  | .value | .firstItem | .text none _ _ => True

structure State.Proper (s : State) : Prop where
  stack : ∀ frame ∈ s.stack, frame.Proper
  mode : s.mode.Proper

theorem properItems_iff {items : List JsonValue} : ProperItems items ↔ ∀ v ∈ items, Proper v := by
  induction items with
  | nil => simp [ProperItems]
  | cons v items ih => simp [ProperItems, ih]

theorem properEntries_iff {entries : List (List Char × JsonValue)} :
    ProperEntries entries ↔ ∀ e ∈ entries, Proper e.2 := by
  induction entries with
  | nil => simp [ProperEntries]
  | cons e entries ih => simp [ProperEntries, ih]

theorem properEntries_assign {key : List Char} {v : JsonValue} {entries : List (List Char × JsonValue)}
    (hv : Proper v) (h : ProperEntries entries) : ProperEntries (Dict.assign key v entries) := by
  induction entries with
  | nil => exact ⟨hv, trivial⟩
  | cons e entries ih =>
    obtain ⟨k, w⟩ := e
    rw [Dict.assign]
    split
    · exact ⟨hv, h.2⟩
    · exact ⟨h.1, ih h.2⟩

theorem proper_finish {stack : List Frame} {v : JsonValue} (hstack : ∀ frame ∈ stack, frame.Proper)
    (hv : Proper v) : (finish stack v).Proper := by
  match stack with
  | [] => exact ⟨hstack, hv⟩
  | .items items :: stack =>
    refine ⟨fun f hf => hstack f (List.mem_cons_of_mem _ hf), properItems_iff.mpr fun w hw => ?_⟩
    rcases List.mem_append.mp hw with hw | hw
    · exact properItems_iff.mp (hstack _ List.mem_cons_self) w hw
    · rw [List.mem_singleton.mp hw]
      exact hv
  | .entries entries key :: stack =>
    obtain ⟨hkeys, hentries⟩ := hstack _ List.mem_cons_self
    exact ⟨fun f hf => hstack f (List.mem_cons_of_mem _ hf),
      Dict.nodup_assign key v hkeys, properEntries_assign hv hentries⟩

/-- A value that a literal stands for. -/
theorem proper_numberOf {literal : List Char} {v : JsonValue} (hl : IsNumber literal)
    (h : numberOf literal = some v) : Proper v := by
  have hfull := h
  simp only [numberOf] at h
  split_ifs at h with _ _ hfraction
  · cases h
    trivial
  · cases h
    trivial
  · cases h
    exact .inl ⟨hl, hfull⟩

theorem proper_start {stack : List Frame} {c : Char} {s' : State} (hstack : ∀ frame ∈ stack, frame.Proper)
    (h : start stack c = some s') : s'.Proper := by
  unfold start at h
  split_ifs at h <;> cases h
  case _ => exact ⟨hstack, trivial⟩
  case _ => exact ⟨hstack, trivial⟩
  case _ => exact ⟨hstack, List.nodup_nil, trivial⟩
  case _ => exact ⟨hstack, trivial⟩
  case _ => exact ⟨hstack, trivial⟩
  case _ => exact ⟨hstack, trivial⟩
  case _ => exact ⟨hstack, .inr (by simp [nonNumbers])⟩
  case _ => exact ⟨hstack, .inr (by simp [nonNumbers])⟩
  case _ hc =>
    refine ⟨hstack, ⟨c, [], rfl, hc⟩, ?_⟩
    simp only [Bool.or_eq_true, decide_eq_true_eq] at hc
    rcases hc with hc | rfl
    · simp [numberChar, hc]
    · rfl

theorem proper_behind {s s' : State} {c : Char} (hs : s.Proper) (h : behind s c = some s') : s'.Proper := by
  obtain ⟨stack, mode⟩ := s
  unfold behind at h
  split at h
  · cases h
    exact hs
  · split at h
    · rename_i items hmode
      obtain rfl : mode = .nextItem items := hmode
      split at h
      · cases h
        exact ⟨fun f hf => (List.mem_cons.mp hf).elim (fun e => e ▸ hs.mode) (hs.stack f), trivial⟩
      · split at h
        · cases h
          exact proper_finish hs.stack hs.mode
        · cases h
    · rename_i entries hmode
      obtain rfl : mode = .nextEntry entries := hmode
      split at h
      · cases h
        exact ⟨hs.stack, hs.mode⟩
      · split at h
        · cases h
          exact proper_finish hs.stack hs.mode
        · cases h
    · cases h

theorem proper_step {s s' : State} {c : Char} (hs : s.Proper) (h : step s c = some s') : s'.Proper := by
  obtain ⟨stack, mode⟩ := s
  have hstack : ∀ frame ∈ stack, frame.Proper := hs.stack
  have hmode : mode.Proper := hs.mode
  cases mode with
  | value =>
    simp only [step] at h
    split_ifs at h
    · cases h
      exact hs
    · exact proper_start hstack h
  | firstItem =>
    simp only [step] at h
    split_ifs at h
    · cases h
      exact hs
    · cases h
      exact proper_finish hstack trivial
    · refine proper_start (fun f hf => ?_) h
      rcases List.mem_cons.mp hf with rfl | hf
      · exact trivial
      · exact hstack f hf
  | nextItem items => exact proper_behind hs h
  | key first entries =>
    simp only [step] at h
    split_ifs at h
    · cases h
      exact hs
    · cases h
      exact ⟨hstack, hmode⟩
    · cases h
      exact proper_finish hstack hmode
  | colon entries key =>
    simp only [step] at h
    split_ifs at h
    · cases h
      exact hs
    · cases h
      refine ⟨fun f hf => ?_, trivial⟩
      rcases List.mem_cons.mp hf with rfl | hf
      · exact hmode
      · exact hstack f hf
  | nextEntry entries => exact proper_behind hs h
  | text entries read escape =>
    simp only [step] at h
    split_ifs at h
    · cases entries with
      | none =>
        cases h
        exact proper_finish hstack trivial
      | some entries =>
        cases h
        exact ⟨hstack, hmode⟩
    · obtain ⟨_, -, rfl⟩ := Option.map_eq_some_iff.mp h
      refine ⟨hstack, ?_⟩
      cases entries with
      | none => trivial
      | some entries => exact hmode
  | number literal =>
    simp only [step] at h
    split_ifs at h with hc hword
    · cases h
      obtain ⟨⟨c', more, rfl, hc'⟩, hall⟩ := hmode
      exact ⟨hstack, ⟨c', more ++ [c], rfl, hc'⟩, by rw [List.all_append, hall]; simp [hc]⟩
    · cases h
      exact ⟨hstack, .inr (by simp [nonNumbers])⟩
    · obtain ⟨v, hv, hbehind⟩ := Option.bind_eq_some_iff.mp h
      exact proper_behind (proper_finish hstack (proper_numberOf hmode hv)) hbehind
  | word left v =>
    cases left with
    | nil => cases h
    | cons x left =>
      simp only [step] at h
      split_ifs at h
      · cases h
        exact proper_finish hstack hmode
      · cases h
        exact ⟨hstack, hmode⟩
  | done v => exact proper_behind hs h

theorem proper_result {s : State} {v : JsonValue} (hs : s.Proper) (h : s.result = some v) : Proper v := by
  obtain ⟨stack, mode⟩ := s
  cases stack with
  | nil =>
    cases mode with
    | done w =>
      cases h
      exact hs.mode
    | number literal => exact proper_numberOf hs.mode h
    | _ => cases h
  | cons frame stack => cases mode <;> cases h

theorem loads_proper {text : List Char} {v : JsonValue} (h : loads text = some v) : Proper v := by
  obtain ⟨s, hs, hv⟩ := Option.bind_eq_some_iff.mp h
  have hstart : State.Proper {} := ⟨fun _ hf => (nomatch hf), trivial⟩
  have hproper : s.Proper :=
    @history_invariant _ _ step (fun _ s => s.Proper) [] text {} s (fun _ _ _ _ => proper_step) hstart hs
  exact proper_result hproper hv

/-! ## Written in ASCII -/

/-- An ASCII character other than NUL. -/
def Ascii (c : Char) : Prop := 0 < c.toNat ∧ c.toNat < 128

instance (c : Char) : Decidable (Ascii c) := inferInstanceAs (Decidable (_ ∧ _))

theorem ascii_digitChar : ∀ d < 16, Ascii (Nat.digitChar d) := by decide

theorem ascii_of_all {s : List Char} (h : (s.all fun c => decide (Ascii c)) = true) : ∀ c ∈ s, Ascii c := by
  intro c hc
  exact of_decide_eq_true (List.all_eq_true.mp h c hc)

theorem ascii_of_isDigit {c : Char} (h : c.isDigit = true) : Ascii c := by
  simp only [Char.isDigit, Bool.and_eq_true, decide_eq_true_eq] at h
  obtain ⟨hlow, hhigh⟩ := h
  have hlow : 48 ≤ c.toNat := hlow
  have hhigh : c.toNat ≤ 57 := hhigh
  exact ⟨by omega, by omega⟩

theorem ascii_numberChar {c : Char} (h : numberChar c = true) : Ascii c := by
  simp only [numberChar, Bool.or_eq_true, decide_eq_true_eq] at h
  rcases h with ((((h | rfl) | rfl) | rfl) | rfl) | rfl
  · exact ascii_of_isDigit h
  all_goals decide

theorem ascii_unicodeEscape (n : Nat) : ∀ c ∈ unicodeEscape n, Ascii c := by
  intro c hc
  simp only [unicodeEscape, hex4, List.mem_cons, List.not_mem_nil, or_false] at hc
  rcases hc with rfl | rfl | rfl | rfl | rfl | rfl
  · decide
  · decide
  all_goals exact ascii_digitChar _ (by omega)

theorem ascii_simple {x e : Char} (hx : x ∈ ['\\', e]) (he : Ascii e) : Ascii x := by
  simp only [List.mem_cons, List.not_mem_nil, or_false] at hx
  rcases hx with rfl | rfl
  · decide
  · exact he

theorem ascii_escapeChar (c : Char) : ∀ x ∈ escapeChar true c, Ascii x := by
  intro x hx
  unfold escapeChar at hx
  split_ifs at hx with _ _ _ _ _ _ _ hother
  · exact ascii_simple hx (by decide)
  · exact ascii_simple hx (by decide)
  · exact ascii_simple hx (by decide)
  · exact ascii_simple hx (by decide)
  · exact ascii_simple hx (by decide)
  · exact ascii_simple hx (by decide)
  · exact ascii_simple hx (by decide)
  · exact ascii_unicodeEscape _ x hx
  · rcases List.mem_append.mp hx with hx | hx
    · exact ascii_unicodeEscape _ x hx
    · exact ascii_unicodeEscape _ x hx
  · simp only [Bool.true_and, Bool.or_eq_true, decide_eq_true_eq, not_or] at hother
    rw [List.mem_singleton.mp hx]
    exact ⟨by omega, by omega⟩

theorem ascii_quote (s : List Char) : ∀ c ∈ quote true s, Ascii c := by
  intro c hc
  simp only [quote, List.mem_cons, List.mem_append, List.mem_flatMap, List.not_mem_nil, or_false] at hc
  rcases hc with (rfl | ⟨x, -, hx⟩) | rfl
  · decide
  · exact ascii_escapeChar x c hx
  · decide

theorem ascii_intText (n : Int) : ∀ c ∈ intText n, Ascii c := by
  obtain ⟨c, more, he, hc, hmore, -⟩ := intText_number n
  rw [he]
  intro x hx
  rcases List.mem_cons.mp hx with rfl | hx
  · exact ascii_numberChar (by simp only [numberChar, Bool.or_eq_true, decide_eq_true_eq] at hc ⊢; tauto)
  · exact ascii_numberChar (List.all_eq_true.mp hmore x hx)

theorem ascii_float {literal : List Char} (h : IsFloat literal) : ∀ c ∈ literal, Ascii c := by
  rcases h with ⟨⟨-, hall⟩, -⟩ | h
  · exact fun c hc => ascii_numberChar (List.all_eq_true.mp hall c hc)
  · simp only [nonNumbers, List.mem_cons, List.not_mem_nil, or_false] at h
    rcases h with rfl | rfl | rfl <;> exact ascii_of_all (by decide)

mutual

theorem ascii_dumps (v : JsonValue) (hv : Proper v) : ∀ c ∈ dumps true v, Ascii c := by
  match v with
  | .null | .bool true | .bool false => exact ascii_of_all (by decide)
  | .int n => exact ascii_intText n
  | .float literal => exact ascii_float hv
  | .str s => exact ascii_quote s
  | .arr items =>
    rintro c (_ | ⟨_, hc⟩)
    · decide
    · exact ascii_dumpsItems items hv c hc
  | .obj entries =>
    rintro c (_ | ⟨_, hc⟩)
    · decide
    · exact ascii_dumpsEntries entries hv.2 c hc

theorem ascii_dumpsItems (items : List JsonValue) (hitems : ProperItems items) :
    ∀ c ∈ dumpsItems true items, Ascii c := by
  match items with
  | [] => exact ascii_of_all (by decide)
  | v :: items =>
    intro c hc
    rcases List.mem_append.mp hc with hc | hc
    · exact ascii_dumps v hitems.1 c hc
    · exact ascii_dumpsTail items hitems.2 c hc

theorem ascii_dumpsTail (items : List JsonValue) (hitems : ProperItems items) :
    ∀ c ∈ dumpsTail true items, Ascii c := by
  match items with
  | [] => exact ascii_of_all (by decide)
  | v :: items =>
    intro c hc
    simp only [dumpsTail, List.mem_cons, List.mem_append] at hc
    rcases hc with rfl | rfl | hc | hc
    · decide
    · decide
    · exact ascii_dumps v hitems.1 c hc
    · exact ascii_dumpsTail items hitems.2 c hc

theorem ascii_dumpsEntries (entries : List (List Char × JsonValue)) (hentries : ProperEntries entries) :
    ∀ c ∈ dumpsEntries true entries, Ascii c := by
  match entries with
  | [] => exact ascii_of_all (by decide)
  | (k, v) :: entries =>
    intro c hc
    simp only [dumpsEntries, List.mem_cons, List.mem_append] at hc
    rcases hc with hc | rfl | rfl | hc | hc
    · exact ascii_quote k c hc
    · decide
    · decide
    · exact ascii_dumps v hentries.1 c hc
    · exact ascii_dumpsMore entries hentries.2 c hc

theorem ascii_dumpsMore (entries : List (List Char × JsonValue)) (hentries : ProperEntries entries) :
    ∀ c ∈ dumpsMore true entries, Ascii c := by
  match entries with
  | [] => exact ascii_of_all (by decide)
  | (k, v) :: entries =>
    intro c hc
    simp only [dumpsMore, List.mem_cons, List.mem_append] at hc
    rcases hc with rfl | rfl | hc | rfl | rfl | hc | hc
    · decide
    · decide
    · exact ascii_quote k c hc
    · decide
    · decide
    · exact ascii_dumps v hentries.1 c hc
    · exact ascii_dumpsMore entries hentries.2 c hc

end

/-! ## Values that carry it -/

/-- What a program holds of JSON. -/
abbrev Data := { v : JsonValue // Proper v }

def parse (text : List Char) : Option Data := (loads text).pmap Subtype.mk fun _ h => loads_proper h

def Data.text (ensureAscii : Bool) (d : Data) : List Char := dumps ensureAscii d.1

theorem parse_text (a : Bool) (d : Data) : parse (d.text a) = some d := by
  rw [parse, Data.text]
  simp [loads_dumps a d.2]

def Data.null : Data := ⟨.null, trivial⟩

/-- `d.get(key)` of an object, and of any other value `null`. -/
def Data.field (d : Data) (key : String) : Data :=
  match d with
  | ⟨.obj entries, h⟩ =>
    ((entries.lookup key.toList).pmap Subtype.mk fun v hv =>
      properEntries_iff.mp h.2 (key.toList, v) (by
        obtain ⟨l₁, l₂, he, -⟩ := List.lookup_eq_some_iff.mp hv
        rw [he]
        exact List.mem_append_right _ List.mem_cons_self)).getD Data.null
  | _ => Data.null

end Json

end PyClaw
