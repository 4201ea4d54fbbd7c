import PyClaw.Session.Pipelines

/-!
# Session.Interrupted

What is left of a session when pipelines mix, stop in the middle and expire. Whatever part of the entries a load
finds, the walk from the leaf gives an end of the log of the entries that became the leaf, in their order and
without gaps (`loads_suffix`), even where the answers of the load are of different times: each of them hung on
the one before it when it became the leaf.
-/

namespace PyClaw

/-- What a pipeline may do about entries: it stores its own one and makes it the leaf. -/
def Pipeline.Fits (entry : Option SessionEntry) : SessionCommand → Prop
  | .hset e => entry = some e
  | .setLeaf leafId => entry.map SessionEntry.id = some leafId
  | _ => True

/-- Its next command makes its entry the leaf. -/
def Pipeline.makesLeaf (q : Pipeline) : Bool :=
  match q.rest with
  | .setLeaf _ :: _ => true
  | _ => false

/-- The hash that a load has read. -/
def Reading.hash? : Reading → Option (Dict String SessionEntry)
  | .start | .header _ => none
  | .entries _ hash | .order _ hash _ => some hash

namespace SessionRedis

/-! ## Commands -/

theorem get_expire {α : Type} (ttl : Nat) (now : Int) (c : Option (Cell α)) :
    Cell.get now (Cell.expire ttl now c) = Cell.get now c ∨ Cell.get now (Cell.expire ttl now c) = none := by
  cases hfind : Cell.find now c with
  | none => exact .inr (by rw [Cell.expire, hfind]; rfl)
  | some cell =>
    have hget : Cell.get now c = some cell.value := by rw [Cell.get, hfind, Option.map_some]
    rw [Cell.expire, hfind, Option.map_some, Cell.get_some, hget]
    split
    · exact .inl rfl
    · exact .inr rfl

theorem hash_of_get {k k' : SessionKeys} {now now' : Int}
    (h : Cell.get now' k'.entries = Cell.get now k.entries ∨ Cell.get now' k'.entries = none) :
    k'.hash now' = k.hash now ∨ k'.hash now' = Dict.empty := by
  rcases h with h | h
  · exact .inl (by rw [SessionKeys.hash, h]; rfl)
  · exact .inr (by rw [SessionKeys.hash, h]; rfl)

/-- A command stores an entry, or it leaves the hash as it is or takes it away. -/
theorem hash_exec (ttl : Nat) (now : Int) (k : SessionKeys) (c : SessionCommand) :
    (k.exec ttl now c).hash now = k.hash now ∨ (k.exec ttl now c).hash now = Dict.empty ∨
      ∃ e, c = .hset e ∧ (k.exec ttl now c).hash now = (k.hash now).set e.id e := by
  cases c with
  | hset e =>
    refine .inr (.inr ⟨e, rfl, ?_⟩)
    exact congrArg (·.getD Dict.empty) (Cell.get_modify now k.entries fun h => (h.getD Dict.empty).set e.id e)
  | expire kind =>
    cases kind with
    | entries => exact (hash_of_get (get_expire ttl now k.entries)).imp_right .inl
    | _ => exact .inl rfl
  | del kind =>
    cases kind with
    | entries => exact .inr (.inl rfl)
    | _ => exact .inl rfl
  | _ => exact .inl rfl

/-- A command sets the leaf, or it leaves the leaf as it is or takes it away. -/
theorem leaf_exec (ttl : Nat) (now : Int) (k : SessionKeys) (c : SessionCommand) :
    (∃ leafId, c = .setLeaf leafId ∧ Cell.get now (k.exec ttl now c).leaf = some leafId) ∨
      (∀ leafId, c ≠ .setLeaf leafId) ∧
        (Cell.get now (k.exec ttl now c).leaf = Cell.get now k.leaf ∨
          Cell.get now (k.exec ttl now c).leaf = none) := by
  cases c with
  | setLeaf leafId => exact .inl ⟨leafId, rfl, rfl⟩
  | expire kind =>
    cases kind with
    | leaf => exact .inr ⟨by simp, get_expire ttl now k.leaf⟩
    | _ => exact .inr ⟨by simp, .inl rfl⟩
  | del kind =>
    cases kind with
    | leaf => exact .inr ⟨by simp, .inr rfl⟩
    | _ => exact .inr ⟨by simp, .inl rfl⟩
  | _ => exact .inr ⟨by simp, .inl rfl⟩

/-! ## The invariant -/

/-- The fields of the hash are entries under their ids. -/
def Known (hash : Dict String SessionEntry) (given : List SessionEntry) : Prop :=
  ∀ k e, hash.get? k = some e → e.id = k ∧ e ∈ given

/-- An entry hangs on the last one, or on none. -/
abbrev OnLog := PointsBack SessionEntry.id SessionEntry.parentId

structure Sound (s : SessionRedis) (sid : String) : Prop where
  distinct : ∀ x ∈ s.given sid, ∀ y ∈ s.given sid, x.id = y.id → x = y
  known : Known (s.hash sid) (s.given sid)
  logged : ∀ e ∈ s.log sid, e ∈ s.given sid
  linked : AtEach OnLog (s.log sid)
  leaf : ∀ l, s.leaf sid = some l → (s.log sid).getLast?.map SessionEntry.id = some l
  pipelines : ∀ q ∈ s.pipelines, q.sid = sid →
    (∀ e ∈ q.entry, e ∈ s.given sid) ∧ ∀ c ∈ q.rest, Pipeline.Fits q.entry c
  readers : ∀ r ∈ s.readers, r.1 = sid → ∀ h, r.2.hash? = some h → Known h (s.given sid)

section
variable {ttl : Nat} {s s' : SessionRedis} {sid : String} {hash : Dict String SessionEntry} {e : SessionEntry}

theorem Known.mono {given given' : List SessionEntry} (h : Known hash given) (hsub : ∀ e ∈ given, e ∈ given') :
    Known hash given' :=
  fun k e he => ⟨(h k e he).1, hsub e (h k e he).2⟩

theorem known_empty (given : List SessionEntry) : Known Dict.empty given := fun k e he => by
  simp [Dict.get?] at he

theorem Known.set {given : List SessionEntry} (h : Known hash given) (he : e ∈ given) :
    Known (hash.set e.id e) given := by
  intro k x hx
  rw [Dict.get?_set] at hx
  split at hx
  · rename_i hid
    cases hx
    exact ⟨hid, he⟩
  · exact h k x hx

/-- Keys may vanish, pipelines and loads begin and end. -/
theorem Sound.fade (h : Sound s sid) (hgiven : s'.given sid = s.given sid) (hlog : s'.log sid = s.log sid)
    (hhash : s'.hash sid = s.hash sid ∨ s'.hash sid = Dict.empty)
    (hleaf : s'.leaf sid = s.leaf sid ∨ s'.leaf sid = none)
    (hpipelines : ∀ q ∈ s'.pipelines, q.sid = sid → q ∈ s.pipelines ∨
      (∀ e ∈ q.entry, e ∈ s.given sid) ∧ ∀ c ∈ q.rest, Pipeline.Fits q.entry c)
    (hreaders : ∀ r ∈ s'.readers, r.1 = sid → r ∈ s.readers ∨
      ∀ h, r.2.hash? = some h → Known h (s.given sid)) : Sound s' sid := by
  refine ⟨hgiven ▸ h.distinct, ?_, ?_, hlog ▸ h.linked, ?_, ?_, ?_⟩
  · rw [hgiven]
    rcases hhash with hh | hh
    · exact hh ▸ h.known
    · exact hh ▸ known_empty _
  · rw [hgiven, hlog]
    exact h.logged
  · intro l hl
    rw [hlog]
    rcases hleaf with hh | hh
    · exact h.leaf l (hh ▸ hl)
    · cases hh.symm.trans hl
  · intro q hq hsid
    rw [hgiven]
    rcases hpipelines q hq hsid with hq | hq
    · exact h.pipelines q hq hsid
    · exact hq
  · intro r hr hsid
    rw [hgiven]
    rcases hreaders r hr hsid with hr | hr
    · exact h.readers r hr hsid
    · exact hr

/-! ## What a load gives -/

/-- The conversation from the leaf, over whatever hash was read. -/
theorem branch_loaded (h : Sound s sid) {header : Option StoredHeader} {order : List String} {t : StoredTree}
    (hknown : Known hash (s.given sid)) (ht : loadedTree header hash order (s.leaf sid) = some t) :
    ∃ b, t.forget.getBranch = some b ∧ b <:+ s.log sid := by
  obtain ⟨header, -, rfl⟩ := Option.map_eq_some_iff.mp ht
  cases hleaf : s.leaf sid with
  | none => exact ⟨[], SessionTree.getBranch_eq_some.mpr .root, List.nil_suffix⟩
  | some l =>
    by_cases hl : l = ""
    · refine ⟨[], SessionTree.getBranch_eq_some.mpr ?_, List.nil_suffix⟩
      simp only [StoredTree.forget, SessionTree.truthy, hl, if_true]
      exact .root
    · have hholds : Holds SessionEntry.id hash.get? (s.log sid) := by
        intro x hx y hy
        obtain ⟨hid, hmem⟩ := hknown x.id y hy
        exact h.distinct y hmem x (h.logged x hx) hid
      obtain ⟨p, hp, hsuffix⟩ := path_suffix h.linked hholds
      refine ⟨p.reverse, SessionTree.getBranch_eq_some.mpr ?_, hsuffix⟩
      rw [h.leaf l hleaf] at hp
      simp only [StoredTree.forget, SessionTree.truthy, if_neg hl, List.reverse_reverse]
      exact hp

/-! ## Runs -/

structure Sane (s : SessionRedis) : Prop where
  sound : ∀ sid, Sound s sid
  loaded : ∀ x ∈ s.loaded, ∃ b, x.1.forget.getBranch = some b ∧ b <:+ x.2

/-- A new entry has a new id, and it hangs on the last one or on none when it becomes the leaf. -/
def Hangs (s : SessionRedis) : SessionStep → Prop
  | .appendEntry sid e => ∀ x ∈ s.given sid, x.id ≠ e.id
  | .sends i => ∀ q ∈ s.pipelines[i]?, q.makesLeaf = true → ∀ e ∈ q.entry, OnLog (s.log q.sid) e
  | _ => True

instance (before : List SessionEntry) (e : SessionEntry) : Decidable (OnLog before e) :=
  inferInstanceAs (Decidable (_ ∨ _))

instance (s : SessionRedis) : (x : SessionStep) → Decidable (s.Hangs x)
  | .appendEntry sid e => inferInstanceAs (Decidable (∀ x ∈ s.given sid, x.id ≠ e.id))
  | .sends i => inferInstanceAs (Decidable (∀ q ∈ s.pipelines[i]?, q.makesLeaf = true → ∀ e ∈ q.entry, _))
  | .saveHeader _ | .deleteSession _ | .load _ | .stops _ | .reads _ | .readStops _ | .passes _ => .isTrue trivial

theorem Sane.queue (h : Sane s) {q : Pipeline}
    (hq : (∀ e ∈ q.entry, e ∈ s.given q.sid) ∧ ∀ c ∈ q.rest, Pipeline.Fits q.entry c) : Sane (s.queue q) where
  sound sid := by
    refine (h.sound sid).fade rfl rfl (.inl rfl) (.inl rfl) (fun q' hq' hsid => ?_) fun _ hr _ => .inl hr
    rcases List.mem_append.mp hq' with hq' | hq'
    · exact .inl hq'
    · rw [List.mem_singleton.mp hq'] at hsid ⊢
      exact .inr (hsid ▸ hq)
  loaded := h.loaded

theorem fits_saveHeader (header : StoredHeader) :
    ∀ c ∈ saveHeaderCommands header, Pipeline.Fits none c := by
  simp [saveHeaderCommands, Pipeline.Fits]

theorem fits_deleteSession : ∀ c ∈ deleteSessionCommands, Pipeline.Fits none c := by
  simp [deleteSessionCommands, Pipeline.Fits]

theorem fits_appendEntry (e : SessionEntry) : ∀ c ∈ appendEntryCommands e e.id, Pipeline.Fits (some e) c := by
  simp [appendEntryCommands, Pipeline.Fits]

/-- `append_entry` is called. -/
theorem Sane.give (h : Sane s) (hnew : ∀ x ∈ s.given sid, x.id ≠ e.id) :
    Sane { s with given := Function.update s.given sid (s.given sid ++ [e]) } where
  sound sid' := by
    by_cases hs : sid' = sid
    · subst hs
      have hsub : ∀ x ∈ s.given sid', x ∈ s.given sid' ++ [e] := fun x hx => List.mem_append_left _ hx
      obtain ⟨hdistinct, hknown, hlogged, hlinked, hleaf, hpipelines, hreaders⟩ := h.sound sid'
      refine ⟨?_, ?_, ?_, hlinked, hleaf, ?_, ?_⟩ <;> simp only [Function.update_self]
      · intro x hx y hy hid
        rcases List.mem_append.mp hx with hx | hx <;> rcases List.mem_append.mp hy with hy | hy
        · exact hdistinct x hx y hy hid
        · rw [List.mem_singleton.mp hy] at hid
          exact absurd hid (hnew x hx)
        · rw [List.mem_singleton.mp hx] at hid
          exact absurd hid.symm (hnew y hy)
        · rw [List.mem_singleton.mp hx, List.mem_singleton.mp hy]
      · exact hknown.mono hsub
      · exact fun x hx => hsub x (hlogged x hx)
      · intro q hq hsid
        obtain ⟨hentry, hrest⟩ := hpipelines q hq hsid
        exact ⟨fun x hx => hsub x (hentry x hx), hrest⟩
      · exact fun r hr hsid hash hh => (hreaders r hr hsid hash hh).mono hsub
    · have hgiven : Function.update s.given sid (s.given sid ++ [e]) sid' = s.given sid' :=
        Function.update_of_ne hs ..
      exact (h.sound sid').fade hgiven rfl (.inl rfl) (.inl rfl) (fun _ hq _ => .inl hq) fun _ hr _ => .inl hr
  loaded := h.loaded

/-- A pipeline goes on. -/
def sendNext (ttl : Nat) (s : SessionRedis) (i : Nat) (sid : String) (entry : Option SessionEntry)
    (c : SessionCommand) (rest : List SessionCommand) : SessionRedis :=
  { (s.exec ttl sid c).record sid entry c with pipelines := s.pipelines.set i ⟨sid, entry, rest⟩ }

variable {i : Nat} {entry : Option SessionEntry} {c : SessionCommand} {rest : List SessionCommand}

theorem sendNext_keys : (sendNext ttl s i sid entry c rest).keys =
    Function.update s.keys sid ((s.keys sid).exec ttl s.now c) := by
  cases c <;> rfl

theorem sendNext_frame : (sendNext ttl s i sid entry c rest).now = s.now ∧
    (sendNext ttl s i sid entry c rest).readers = s.readers ∧
      (sendNext ttl s i sid entry c rest).given = s.given ∧
        (sendNext ttl s i sid entry c rest).loaded = s.loaded := by
  cases c <;> exact ⟨rfl, rfl, rfl, rfl⟩

theorem sendNext_log {other : String} (h : other ≠ sid ∨ ∀ leafId, c ≠ .setLeaf leafId) :
    (sendNext ttl s i sid entry c rest).log other = s.log other := by
  cases c with
  | setLeaf leafId =>
    rcases h with h | h
    · exact Function.update_of_ne h ..
    · exact absurd rfl (h leafId)
  | _ => rfl

theorem sendNext_hash : (sendNext ttl s i sid entry c rest).hash sid =
    ((s.keys sid).exec ttl s.now c).hash s.now := by
  rw [SessionRedis.hash, sendNext_keys, sendNext_frame.1, Function.update_self]

theorem sendNext_leaf : (sendNext ttl s i sid entry c rest).leaf sid =
    Cell.get s.now ((s.keys sid).exec ttl s.now c).leaf := by
  rw [SessionRedis.leaf, sendNext_keys, sendNext_frame.1, Function.update_self]

theorem Sound.sent (h : Sound s sid) (hi : s.pipelines[i]? = some ⟨sid, entry, c :: rest⟩)
    (hhangs : (⟨sid, entry, c :: rest⟩ : Pipeline).makesLeaf = true → ∀ e ∈ entry, OnLog (s.log sid) e) :
    Sound (sendNext ttl s i sid entry c rest) sid := by
  obtain ⟨hentry, hfits⟩ := h.pipelines _ (List.mem_of_getElem? hi) rfl
  have hc := hfits c List.mem_cons_self
  obtain ⟨-, hreaders, hgiven, -⟩ :=
    @sendNext_frame ttl s sid i entry c rest
  have hknown : Known ((sendNext ttl s i sid entry c rest).hash sid) (s.given sid) := by
    rw [sendNext_hash]
    rcases hash_exec ttl s.now (s.keys sid) c with hh | hh | ⟨e, rfl, hh⟩
    · exact hh ▸ h.known
    · exact hh ▸ known_empty _
    · exact hh ▸ h.known.set (hentry e hc)
  have hpipelines : ∀ q ∈ (sendNext ttl s i sid entry c rest).pipelines, q.sid = sid →
      (∀ e ∈ q.entry, e ∈ s.given sid) ∧ ∀ c ∈ q.rest, Pipeline.Fits q.entry c := by
    intro q hq hsid
    rcases List.mem_or_eq_of_mem_set hq with hq | rfl
    · exact h.pipelines q hq hsid
    · exact ⟨hentry, fun c' hc' => hfits c' (List.mem_cons_of_mem c hc')⟩
  rcases leaf_exec ttl s.now (s.keys sid) c with ⟨leafId, rfl, hleaf⟩ | ⟨hnot, hleaf⟩
  · -- the entry of the pipeline becomes the leaf
    obtain ⟨e, rfl, hid⟩ := Option.map_eq_some_iff.mp hc
    have hlog : (sendNext ttl s i sid (some e) (.setLeaf leafId) rest).log sid = s.log sid ++ [e] :=
      Function.update_self ..
    refine ⟨hgiven ▸ h.distinct, hgiven ▸ hknown, ?_, ?_, ?_, hgiven ▸ hpipelines, ?_⟩
    · rw [hlog, hgiven]
      intro x hx
      rcases List.mem_append.mp hx with hx | hx
      · exact h.logged x hx
      · rw [List.mem_singleton.mp hx]
        exact hentry e rfl
    · rw [hlog]
      exact atEach_snoc.mpr ⟨h.linked, hhangs rfl e rfl⟩
    · intro l hl
      rw [sendNext_leaf, hleaf] at hl
      rw [hlog, List.getLast?_concat, Option.map_some, hid, hl]
    · rw [hreaders, hgiven]
      exact h.readers
  · have hlog : (sendNext ttl s i sid entry c rest).log sid = s.log sid := sendNext_log (.inr hnot)
    refine ⟨hgiven ▸ h.distinct, hgiven ▸ hknown, ?_, hlog ▸ h.linked, ?_, hgiven ▸ hpipelines, ?_⟩
    · rw [hlog, hgiven]
      exact h.logged
    · intro l hl
      rw [sendNext_leaf] at hl
      rw [hlog]
      rcases hleaf with hh | hh
      · exact h.leaf l (hh.symm.trans hl)
      · cases hh.symm.trans hl
    · rw [hreaders, hgiven]
      exact h.readers

theorem Sound.sentOther {other : String} (h : Sound s other) (hne : other ≠ sid) :
    Sound (sendNext ttl s i sid entry c rest) other := by
  obtain ⟨hnow, hreaders, hgiven, -⟩ := @sendNext_frame ttl s sid i entry c rest
  have hkeys : (sendNext ttl s i sid entry c rest).keys other = s.keys other := by
    rw [sendNext_keys]
    exact Function.update_of_ne hne ..
  refine h.fade (congrFun hgiven other) (sendNext_log (.inl hne)) (.inl ?_) (.inl ?_) (fun q hq hsid => ?_)
    fun r hr _ => .inl (hreaders ▸ hr)
  · rw [SessionRedis.hash, SessionRedis.hash, hkeys, hnow]
  · rw [SessionRedis.leaf, SessionRedis.leaf, hkeys, hnow]
  · rcases List.mem_or_eq_of_mem_set hq with hq | rfl
    · exact .inl hq
    · exact absurd hsid.symm hne

/-- A load goes on, with the hash as it is now or as it was read. -/
theorem Sane.readNext (h : Sane s) {r r' : Reading} (hi : s.readers[i]? = some (sid, r))
    (hr : s.advance sid r = .inl r') : Sane { s with readers := s.readers.set i (sid, r') } := by
  have hread : ∀ hash, r'.hash? = some hash → Known hash (s.given sid) := by
    intro hash hhash
    cases r with
    | start =>
      cases hr
      cases hhash
    | header hd =>
      cases hr
      cases hhash
      exact (h.sound sid).known
    | entries hd entries =>
      cases hr
      exact (h.sound sid).readers _ (List.mem_of_getElem? hi) rfl hash hhash
    | order hd entries order => cases hr
  refine ⟨fun sid' => ?_, h.loaded⟩
  refine (h.sound sid').fade rfl rfl (.inl rfl) (.inl rfl) (fun _ hq _ => .inl hq) fun x hx hsid => ?_
  rcases List.mem_or_eq_of_mem_set hx with hx | rfl
  · exact .inl hx
  · exact .inr (hsid ▸ hread)

theorem Sane.readLast (h : Sane s) {r : Reading} {tree : Option StoredTree}
    (hi : s.readers[i]? = some (sid, r)) (hr : s.advance sid r = .inr tree) :
    Sane { s with
      readers := s.readers.eraseIdx i
      loaded := s.loaded ++ tree.toList.map fun t => (t, s.log sid) } := by
  refine ⟨fun sid' => ?_, fun x hx => ?_⟩
  · exact (h.sound sid').fade rfl rfl (.inl rfl) (.inl rfl) (fun _ hq _ => .inl hq)
      fun r hr _ => .inl (List.mem_of_mem_eraseIdx hr)
  · rcases List.mem_append.mp hx with hx | hx
    · exact h.loaded x hx
    · obtain ⟨t, ht, rfl⟩ := List.mem_map.mp hx
      cases r with
      | order hd entries order =>
        cases hr
        have hknown := (h.sound sid).readers _ (List.mem_of_getElem? hi) rfl entries rfl
        exact branch_loaded (h.sound sid) hknown (Option.mem_toList.mp ht)
      | _ => cases hr

theorem Sane.pass (h : Sane s) (ms : Nat) : Sane { s with now := s.now + ms } where
  sound sid :=
    have hlater : s.now ≤ s.now + ms := Int.le_add_of_nonneg_right (Int.natCast_nonneg ms)
    (h.sound sid).fade rfl rfl (hash_of_get (Cell.get_later hlater _)) (Cell.get_later hlater _)
      (fun _ hq _ => .inl hq) fun _ hr _ => .inl hr
  loaded := h.loaded

theorem Sane.step (h : Sane s) {x : SessionStep} (hx : s.Hangs x) : Sane (s.step ttl x) := by
  cases x with
  | saveHeader header => exact h.queue ⟨fun _ he => (by cases he), fits_saveHeader header⟩
  | deleteSession sid =>
    simp only [SessionRedis.step]
    split
    · exact h.queue ⟨fun _ he => (by cases he), fits_deleteSession⟩
    · exact h
  | appendEntry sid entry =>
    refine (h.give hx).queue ⟨fun e he => ?_, fits_appendEntry entry⟩
    cases he
    show entry ∈ Function.update s.given sid (s.given sid ++ [entry]) sid
    rw [Function.update_self]
    exact List.mem_append_right _ List.mem_cons_self
  | load sid =>
    refine ⟨fun sid' => ?_, h.loaded⟩
    refine (h.sound sid').fade rfl rfl (.inl rfl) (.inl rfl) (fun _ hq _ => .inl hq) fun r hr _ => ?_
    rcases List.mem_append.mp hr with hr | hr
    · exact .inl hr
    · refine .inr fun hash hh => ?_
      rw [List.mem_singleton.mp hr] at hh
      cases hh
  | sends i =>
    simp only [SessionRedis.step]
    split
    · rename_i sid entry c rest hi
      refine ⟨fun sid' => ?_, ?_⟩
      · by_cases hs : sid' = sid
        · subst hs
          exact (h.sound sid').sent hi (hx _ hi)
        · exact (h.sound sid').sentOther hs
      · have hloaded := (@sendNext_frame ttl s sid i entry c rest).2.2.2
        exact fun y hy => h.loaded y (hloaded ▸ hy)
    · exact h
  | stops i =>
    exact ⟨fun sid => (h.sound sid).fade rfl rfl (.inl rfl) (.inl rfl)
      (fun q hq _ => .inl (List.mem_of_mem_eraseIdx hq)) fun _ hr _ => .inl hr, h.loaded⟩
  | reads i =>
    simp only [SessionRedis.step]
    split
    · rename_i hi
      split
      · rename_i r' hr
        exact h.readNext hi hr
      · rename_i tree hr
        exact h.readLast hi hr
    · exact h
  | readStops i =>
    exact ⟨fun sid => (h.sound sid).fade rfl rfl (.inl rfl) (.inl rfl) (fun _ hq _ => .inl hq)
      fun _ hr _ => .inl (List.mem_of_mem_eraseIdx hr), h.loaded⟩
  | passes ms => exact h.pass ms

theorem sane_empty : Sane {} where
  sound _ :=
    { distinct := fun _ hx => absurd hx List.not_mem_nil
      known := known_empty _
      logged := fun _ he => absurd he List.not_mem_nil
      linked := atEach_nil
      leaf := fun _ hl => by cases hl
      pipelines := fun _ hq => absurd hq List.not_mem_nil
      readers := fun _ hr => absurd hr List.not_mem_nil }
  loaded _ hx := absurd hx List.not_mem_nil

end

/-- Whatever a load gives, in whatever state of the pipelines: its conversation is an end of the log of the entries
that have become the leaf of the session, in their order and without a gap. -/
theorem loads_suffix (ttl : Nat) (steps : List SessionStep) (h : Along (step ttl) Hangs {} steps) :
    ∀ x ∈ (runFrom (step ttl) {} steps).loaded, ∃ b, x.1.forget.getBranch = some b ∧ b <:+ x.2 :=
  (h.invariant (fun _ _ hs hx => hs.step hx) sane_empty).loaded

def sampleEntry (id : String) (parentId : Option String) : SessionEntry :=
  { id, parentId, body := .message { role := .user, content := .str id } }

/-- The second append stops before its entry is the leaf; two more overlap, and a load begins in between. -/
def interruptedSteps : List SessionStep :=
  let header : StoredHeader := { id := "s", workspaceId := "w", agentId := "a", createdAt := "" }
  [.saveHeader header, .sends 0, .appendEntry "s" (sampleEntry "e1" none)] ++ List.replicate 7 (.sends 1) ++
    [.appendEntry "s" (sampleEntry "e2" (some "e1")), .sends 2, .sends 2, .stops 2,
      .appendEntry "s" (sampleEntry "e3" (some "e1")), .sends 2, .passes 30000,
      .appendEntry "s" (sampleEntry "e4" (some "e3")), .sends 3, .load "s", .reads 0, .reads 0, .sends 2, .sends 2,
      .reads 0, .sends 3, .sends 3, .reads 0]

theorem loads_suffix_interrupted :
    (runFrom (step 604800) {} interruptedSteps).loaded.length = 1 ∧
      ∀ x ∈ (runFrom (step 604800) {} interruptedSteps).loaded,
        ∃ b, x.1.forget.getBranch = some b ∧ b <:+ x.2 :=
  ⟨by decide +kernel, loads_suffix 604800 interruptedSteps (by decide +kernel)⟩

end SessionRedis

end PyClaw
