import PyClaw.Lib.Machine
import PyClaw.Memory.Sqlite

/-!
# Memory.Archives

`archive_session`, called any number of times for one session key. A call inserts its row, waits for the
embedding of its summary, and then looks up the row that the vector is for: the newest one of the session id.
Any number of calls may wait at the same time.

* `archiveSession_eq`: a call that runs alone is `Database.archiveSession`.
* `vectored_iff_orderly`: when all calls are done, every archive has the vector of its own summary, exactly
  if each row was inserted when the earlier ones of its session id had their vectors and were older.

`_vec_insert` looks the row up and inserts the vector in two statements, which are one step here. In an orderly
run no row of the session id comes between them, so that the vectors are right either way; a row that does come
between them makes the run disorderly, but does not change where the vector goes.
-/

namespace PyClaw

/-- The database, and the calls that wait for an embedding, by the id of their archive: the session id and
the summary. -/
structure Archiving (V : Type) where
  db : Database V := {}
  waiting : Dict String (String × String) := Dict.empty

inductive ArchiveStep where
  /-- A call inserts its row, with the id and the time that it has drawn. -/
  | inserts (sessionId summary archiveId : String) (now : Int)
  /-- The call gets its embedding, looks up the newest row and inserts the vector. -/
  | embeds (archiveId : String)

namespace Archiving

variable {V : Type} (embed : String → V) (sessionKey : String)

/-- An id that is taken fails the call; so does the insertion of a second vector, which is logged. -/
def step (s : Archiving V) : ArchiveStep → Archiving V
  | .inserts sessionId summary archiveId now =>
    match s.db.insertArchive sessionKey sessionId summary archiveId now with
    | .ok db => { db := db, waiting := s.waiting.set archiveId (sessionId, summary) }
    | .error _ => s
  | .embeds archiveId =>
    match s.waiting.get? archiveId with
    | some (sessionId, summary) =>
      { db := s.db.insertVec sessionId (embed summary), waiting := s.waiting.erase archiveId }
    | none => s

/-- Every archive has the vector of its own summary. -/
def Vectored (s : Archiving V) : Prop :=
  ∀ archiveId row, s.db.archives.get? archiveId = some row →
    s.db.archivesVec.get? archiveId = some (embed row.summary)

/-- A row is inserted when the others of its session id have their vectors and are older. -/
def Orderly (s : Archiving V) : ArchiveStep → Prop
  | .inserts sessionId _ archiveId now =>
    s.db.archives.contains archiveId = false → ∀ other row, s.db.archives.get? other = some row →
      row.sessionId = sessionId → s.db.archivesVec.contains other = true ∧ row.createdAt < now
  | .embeds _ => True

/-! ## What a step does -/

section
variable {embed sessionKey} {s : Archiving V} {sessionId summary archiveId : String} {now : Int}

theorem step_inserts_fresh (h : s.db.archives.contains archiveId = false) :
    s.step embed sessionKey (.inserts sessionId summary archiveId now) =
      { db := { s.db with
          archives := s.db.archives.set archiveId
            { sessionKey := sessionKey, sessionId := sessionId, summary := summary, createdAt := now } }
        waiting := s.waiting.set archiveId (sessionId, summary) } := by
  simp [step, Database.insertArchive, h]

theorem archives_inserts (h : s.db.archives.contains archiveId = false) :
    (s.step embed sessionKey (.inserts sessionId summary archiveId now)).db.archives =
      s.db.archives.set archiveId
        { sessionKey := sessionKey, sessionId := sessionId, summary := summary, createdAt := now } := by
  rw [step_inserts_fresh h]

theorem archivesVec_inserts (h : s.db.archives.contains archiveId = false) :
    (s.step embed sessionKey (.inserts sessionId summary archiveId now)).db.archivesVec =
      s.db.archivesVec := by
  rw [step_inserts_fresh h]

theorem waiting_inserts (h : s.db.archives.contains archiveId = false) :
    (s.step embed sessionKey (.inserts sessionId summary archiveId now)).waiting =
      s.waiting.set archiveId (sessionId, summary) := by
  rw [step_inserts_fresh h]

theorem step_inserts_taken (h : s.db.archives.contains archiveId = true) :
    s.step embed sessionKey (.inserts sessionId summary archiveId now) = s := by
  simp [step, Database.insertArchive, h]

theorem step_embeds (h : s.waiting.get? archiveId = some (sessionId, summary)) :
    s.step embed sessionKey (.embeds archiveId) =
      { db := s.db.insertVec sessionId (embed summary), waiting := s.waiting.erase archiveId } := by
  simp [step, h]

theorem step_embeds_none (h : s.waiting.get? archiveId = none) :
    s.step embed sessionKey (.embeds archiveId) = s := by
  simp [step, h]

end

/-- The rows of a session id. -/
def rowsOf (db : Database V) (sessionId : String) : List (String × ArchiveRow) :=
  db.archives.items.filter fun p => p.2.sessionId = sessionId

/-- A vector goes to the newest row of the session id, if that one has none. -/
theorem insertVec_cases (db : Database V) (sessionId : String) (v : V) :
    db.insertVec sessionId v = db ∨
      ∃ archiveId row, (Sql.orderDesc (fun p => p.2.createdAt) (rowsOf db sessionId)).head? = some (archiveId, row) ∧
        db.archivesVec.contains archiveId = false ∧
          db.insertVec sessionId v = { db with archivesVec := db.archivesVec.set archiveId v } := by
  rw [Database.insertVec, ← rowsOf]
  cases hhead : (Sql.orderDesc (fun p : String × ArchiveRow => p.2.createdAt) (rowsOf db sessionId)).head? with
  | none => exact .inl rfl
  | some p =>
    obtain ⟨archiveId, row⟩ := p
    cases hvec : db.archivesVec.contains archiveId with
    | true => exact .inl (by simp [hvec])
    | false => exact .inr ⟨archiveId, row, rfl, hvec, by simp [hvec]⟩

theorem mem_rowsOf {db : Database V} {sessionId archiveId : String} {row : ArchiveRow} :
    (archiveId, row) ∈ rowsOf db sessionId ↔
      db.archives.get? archiveId = some row ∧ row.sessionId = sessionId := by
  rw [rowsOf, List.mem_filter, Dict.get?_eq_some]
  simp

/-- Vectors are inserted for rows only. -/
def Known (db : Database V) : Prop :=
  ∀ archiveId, db.archivesVec.contains archiveId = true → db.archives.contains archiveId = true

variable {embed sessionKey} {s : Archiving V}

theorem Known.bare {archiveId : String} (h : Known s.db) (hfree : s.db.archives.contains archiveId = false) :
    s.db.archivesVec.get? archiveId = none := by
  rw [Dict.get?_eq_none]
  intro hvec
  have htaken := h _ (Dict.contains_iff.mpr hvec)
  rw [hfree] at htaken
  cases htaken

theorem known_step (h : Known s.db) (a : ArchiveStep) : Known (s.step embed sessionKey a).db := by
  cases a with
  | inserts sessionId summary archiveId now =>
    cases htaken : s.db.archives.contains archiveId with
    | true =>
      rw [step_inserts_taken htaken]
      exact h
    | false =>
      rw [step_inserts_fresh htaken]
      intro other hvec
      have hrow := Dict.contains_iff.mp (h other hvec)
      exact Dict.contains_iff.mpr (Dict.mem_keys_set.mpr (.inr hrow))
  | embeds archiveId =>
    cases hwait : s.waiting.get? archiveId with
    | none =>
      rw [step_embeds_none hwait]
      exact h
    | some p =>
      rw [step_embeds hwait]
      rcases insertVec_cases s.db p.1 (embed p.2) with hsame | ⟨first, row, hfirst, -, hset⟩
      · rw [hsame]
        exact h
      · rw [hset]
        intro other hvec
        rcases Dict.mem_keys_set.mp (Dict.contains_iff.mp hvec) with rfl | hold
        · have hrow := (mem_rowsOf.mp (Sql.mem_of_head?_orderDesc hfirst)).1
          exact Dict.contains_iff.mpr (Dict.mem_keys_of_get? hrow)
        · exact h other (Dict.contains_iff.mpr hold)

/-! ## Orderly runs -/

/-- The calls that wait, and the rows of the calls that do not. -/
structure InStep (embed : String → V) (s : Archiving V) : Prop where
  /-- The row of a call that waits is the newest one of its session id. -/
  owned : ∀ archiveId sessionId summary, s.waiting.get? archiveId = some (sessionId, summary) →
    ∃ row, s.db.archives.get? archiveId = some row ∧ row.sessionId = sessionId ∧ row.summary = summary ∧
      s.db.archivesVec.get? archiveId = none ∧ ∀ other row', s.db.archives.get? other = some row' →
        row'.sessionId = sessionId → other ≠ archiveId → row'.createdAt < row.createdAt
  vectored : ∀ archiveId row, s.db.archives.get? archiveId = some row →
    s.db.archivesVec.get? archiveId = some (embed row.summary) ∨ archiveId ∈ s.waiting.keys

theorem InStep.inserts (h : InStep embed s) (hknown : Known s.db)
    {sessionId summary archiveId : String} {now : Int}
    (horderly : s.Orderly (.inserts sessionId summary archiveId now)) :
    InStep embed (s.step embed sessionKey (.inserts sessionId summary archiveId now)) := by
  cases htaken : s.db.archives.contains archiveId with
  | true =>
    rw [step_inserts_taken htaken]
    exact h
  | false =>
    have hnew := horderly htaken
    have hbare := hknown.bare htaken
    refine ⟨fun own sid text hwait => ?_, fun own row hrow => ?_⟩
    · rw [waiting_inserts htaken] at hwait
      rw [archives_inserts htaken, archivesVec_inserts htaken]
      by_cases hown : archiveId = own
      · subst hown
        rw [Dict.get?_set_self] at hwait
        cases hwait
        refine ⟨_, Dict.get?_set_self .., rfl, rfl, hbare, fun other row hother hsid hne => ?_⟩
        rw [Dict.get?_set_ne _ _ (Ne.symm hne)] at hother
        exact (hnew other row hother hsid).2
      · rw [Dict.get?_set_ne _ _ hown] at hwait
        obtain ⟨row, hrow, rfl, htext, hvec, hnewest⟩ := h.owned own sid text hwait
        refine ⟨row, by rw [Dict.get?_set_ne _ _ hown]; exact hrow, rfl, htext, hvec, ?_⟩
        intro other row' hother hsid hne
        by_cases hlater : archiveId = other
        · -- the call waits, so an orderly insertion is about another session id
          subst hlater
          rw [Dict.get?_set_self] at hother
          cases hother
          have hdone := (hnew own row hrow hsid.symm).1
          rw [Dict.contains, hvec] at hdone
          cases hdone
        · rw [Dict.get?_set_ne _ _ hlater] at hother
          exact hnewest other row' hother hsid hne
    · rw [archives_inserts htaken] at hrow
      rw [archivesVec_inserts htaken, waiting_inserts htaken]
      by_cases hown : archiveId = own
      · exact .inr (Dict.mem_keys_set.mpr (.inl hown.symm))
      · rw [Dict.get?_set_ne _ _ hown] at hrow
        rcases h.vectored own row hrow with hvec | hwait
        · exact .inl hvec
        · exact .inr (Dict.mem_keys_set.mpr (.inr hwait))

/-- The newest row of the session id is the call's own. -/
theorem InStep.insertVec_eq (h : InStep embed s) {archiveId sessionId summary : String}
    (hwait : s.waiting.get? archiveId = some (sessionId, summary)) (v : V) :
    s.db.insertVec sessionId v = { s.db with archivesVec := s.db.archivesVec.set archiveId v } := by
  obtain ⟨row, hrow, hsid, -, hvec, hnewest⟩ := h.owned archiveId sessionId summary hwait
  have hmem : (archiveId, row) ∈ rowsOf s.db sessionId := mem_rowsOf.mpr ⟨hrow, hsid⟩
  obtain ⟨⟨first, row'⟩, hfirst⟩ := Sql.exists_head?_orderDesc (fun p => p.2.createdAt) hmem
  have hle := Sql.le_of_head?_orderDesc hfirst hmem
  obtain ⟨hrow', hsid'⟩ := mem_rowsOf.mp (Sql.mem_of_head?_orderDesc hfirst)
  have hown : first = archiveId := by
    by_cases hne : first = archiveId
    · exact hne
    · have hlt := hnewest first row' hrow' hsid' hne
      simp only at hle
      omega
  subst hown
  have hbare : s.db.archivesVec.contains first = false := by rw [Dict.contains, hvec]; rfl
  rw [Database.insertVec, ← rowsOf, hfirst]
  simp [hbare]

theorem InStep.embeds (h : InStep embed s) (archiveId : String) :
    InStep embed (s.step embed sessionKey (.embeds archiveId)) := by
  cases hwait : s.waiting.get? archiveId with
  | none =>
    rw [step_embeds_none hwait]
    exact h
  | some p =>
    obtain ⟨sessionId, summary⟩ := p
    rw [step_embeds hwait, h.insertVec_eq hwait]
    refine ⟨fun own sid text hown => ?_, fun own row hrow => ?_⟩
    · have hne : own ≠ archiveId := by
        rintro rfl
        rw [Dict.get?_erase_self] at hown
        cases hown
      rw [Dict.get?_erase_ne hne] at hown
      obtain ⟨row, hrow, hsid, htext, hvec, hnewest⟩ := h.owned own sid text hown
      refine ⟨row, hrow, hsid, htext, ?_, hnewest⟩
      rw [Dict.get?_set_ne _ _ (Ne.symm hne)]
      exact hvec
    · by_cases hne : own = archiveId
      · subst hne
        obtain ⟨row', hrow', -, htext, -⟩ := h.owned own sessionId summary hwait
        rw [hrow'] at hrow
        cases hrow
        rw [Dict.get?_set_self, htext]
        exact .inl rfl
      · rw [Dict.get?_set_ne _ _ (Ne.symm hne)]
        rcases h.vectored own row hrow with hvec | hkeys
        · exact .inl hvec
        · exact .inr (Dict.mem_keys_erase.mpr ⟨hne, hkeys⟩)

/-! ## Rows without a vector -/

/-- Another row of its session id stands before it, in every later order of the rows too. -/
def Hidden (db : Database V) (x : String × ArchiveRow) : Prop :=
  ∃ y ∈ db.archives.items, y.2.sessionId = x.2.sessionId ∧
    (x.2.createdAt < y.2.createdAt ∨
      x.2.createdAt ≤ y.2.createdAt ∧ [y, x].Sublist db.archives.items)

/-- Some row has no vector and never gets one. -/
def Lost (s : Archiving V) : Prop :=
  ∃ x ∈ s.db.archives.items, s.db.archivesVec.get? x.1 = none ∧ Hidden s.db x

theorem hidden_not_first {db : Database V} {x : String × ArchiveRow} (h : Hidden db x) :
    (Sql.orderDesc (fun p => p.2.createdAt) (rowsOf db x.2.sessionId)).head? ≠ some x := by
  obtain ⟨y, hy, hsid, hnewer | ⟨hle, hbefore⟩⟩ := h
  · intro hfirst
    have hmem : y ∈ rowsOf db x.2.sessionId := List.mem_filter.mpr ⟨hy, by simpa using hsid⟩
    have hle := Sql.le_of_head?_orderDesc hfirst hmem
    omega
  · refine Sql.head?_orderDesc_ne (db.archives.nodup.of_map.filter _) ?_ hle
    have hsub := hbefore.filter fun p => p.2.sessionId = x.2.sessionId
    rw [rowsOf]
    simpa [hsid] using hsub

/-- A vector that is inserted goes to a row that is not hidden. -/
theorem lost_insertVec {waiting : Dict String (String × String)} (sessionId : String) (v : V) :
    Lost { db := s.db.insertVec sessionId v, waiting := waiting } ↔ Lost s := by
  rcases insertVec_cases s.db sessionId v with hsame | ⟨first, row, hfirst, -, hset⟩
  · rw [hsame]
    rfl
  · rw [hset]
    obtain ⟨hrow, hsid⟩ := mem_rowsOf.mp (Sql.mem_of_head?_orderDesc hfirst)
    constructor
    · rintro ⟨x, hx, hvec, hhidden⟩
      refine ⟨x, hx, ?_, hhidden⟩
      by_cases hne : first = x.1
      · rw [hne, Dict.get?_set_self] at hvec
        cases hvec
      · rw [Dict.get?_set_ne _ _ hne] at hvec
        exact hvec
    · rintro ⟨x, hx, hvec, hhidden⟩
      refine ⟨x, hx, ?_, hhidden⟩
      have hne : first ≠ x.1 := by
        intro he
        subst he
        have hx' := Dict.get?_of_mem_items (k := x.1) (v := x.2) hx
        rw [hx'] at hrow
        cases hrow
        subst hsid
        exact hidden_not_first hhidden hfirst
      rw [Dict.get?_set_ne _ _ hne]
      exact hvec

theorem lost_embeds (archiveId : String) :
    Lost (s.step embed sessionKey (.embeds archiveId)) ↔ Lost s := by
  cases hwait : s.waiting.get? archiveId with
  | none => rw [step_embeds_none hwait]
  | some p =>
    rw [step_embeds hwait]
    exact lost_insertVec p.1 (embed p.2)

theorem lost_step (h : Lost s) (a : ArchiveStep) : Lost (s.step embed sessionKey a) := by
  cases a with
  | inserts sessionId summary archiveId now =>
    cases htaken : s.db.archives.contains archiveId with
    | true =>
      rw [step_inserts_taken htaken]
      exact h
    | false =>
      obtain ⟨x, hx, hvec, y, hy, hsid, hcase⟩ := h
      have hitems := Dict.items_set_of_not_mem (ArchiveRow.mk sessionKey sessionId summary now)
        (Dict.contains_eq_false.mp htaken)
      rw [step_inserts_fresh htaken]
      refine ⟨x, ?_, hvec, y, ?_, hsid, ?_⟩
      · simp only [hitems]
        exact List.mem_append_left _ hx
      · simp only [hitems]
        exact List.mem_append_left _ hy
      · rcases hcase with hnewer | ⟨hle, hbefore⟩
        · exact .inl hnewer
        · right
          simp only [hitems]
          exact ⟨hle, hbefore.trans (List.sublist_append_left _ _)⟩
  | embeds archiveId => exact (lost_embeds archiveId).mpr h

theorem before_of_append {α : Type} {x y z : α} {l : List α} (hx : x ≠ z)
    (h : [y, x].Sublist (l ++ [z])) : [y, x].Sublist l := by
  obtain ⟨l₁, l₂, he, h₁, h₂⟩ := List.sublist_append_iff.mp h
  rcases List.sublist_singleton.mp h₂ with rfl | rfl
  · rw [he, List.append_nil]
    exact h₁
  · have hlast : [y, x].getLast? = (l₁ ++ [z]).getLast? := congrArg _ he
    rw [List.getLast?_append] at hlast
    simp at hlast
    exact absurd hlast hx

section
variable {t : Archiving V} {archiveId : String} {new : ArchiveRow}

/-- A row that comes after the vectors of its session id, and is newer, hides none and is not hidden. -/
theorem not_lost_of_earlier (hfresh : archiveId ∉ s.db.archives.keys)
    (hitems : t.db.archives.items = s.db.archives.items ++ [(archiveId, new)])
    (hvecs : t.db.archivesVec = s.db.archivesVec) (hnot : ¬ Lost s)
    (hearlier : ∀ other row, s.db.archives.get? other = some row → row.sessionId = new.sessionId →
      s.db.archivesVec.contains other = true ∧ row.createdAt < new.createdAt) : ¬ Lost t := by
  rintro ⟨x, hx, hvec, y, hy, hsid, hcase⟩
  rw [hvecs] at hvec
  rw [hitems, List.mem_append, List.mem_singleton] at hx hy
  rcases hx with hx | rfl
  · have hne : x ≠ (archiveId, new) := by
      rintro rfl
      exact hfresh (Dict.mem_keys_of_mem hx)
    rcases hy with hy | rfl
    · refine hnot ⟨x, hx, hvec, y, hy, hsid, ?_⟩
      rcases hcase with hnewer | ⟨hle, hbefore⟩
      · exact .inl hnewer
      · exact .inr ⟨hle, before_of_append hne (hitems ▸ hbefore)⟩
    · have hhas := (hearlier x.1 x.2 (Dict.get?_of_mem_items hx) hsid.symm).1
      rw [Dict.contains, hvec] at hhas
      cases hhas
  · rcases hy with hy | rfl
    · have holder := (hearlier y.1 y.2 (Dict.get?_of_mem_items hy) hsid).2
      rcases hcase with hnewer | ⟨hle, -⟩
      · exact absurd hnewer (by simp only; omega)
      · exact absurd hle (by simp only; omega)
    · rcases hcase with hnewer | ⟨-, hbefore⟩
      · exact absurd hnewer (Int.lt_irrefl _)
      · have hnodup := hbefore.nodup t.db.archives.nodup.of_map
        simp at hnodup

/-- Any other row is lost, or loses an earlier one. -/
theorem earlier_of_not_lost (hbare : s.db.archivesVec.get? archiveId = none)
    (hitems : t.db.archives.items = s.db.archives.items ++ [(archiveId, new)])
    (hvecs : t.db.archivesVec = s.db.archivesVec) (hsafe : ¬ Lost t) (other : String) (row : ArchiveRow)
    (hother : s.db.archives.get? other = some row) (hsid : row.sessionId = new.sessionId) :
    s.db.archivesVec.contains other = true ∧ row.createdAt < new.createdAt := by
  have hmem : (other, row) ∈ s.db.archives.items := Dict.get?_eq_some.mp hother
  have hmem' : (other, row) ∈ t.db.archives.items := hitems ▸ List.mem_append_left _ hmem
  have hnew : (archiveId, new) ∈ t.db.archives.items := hitems ▸ List.mem_append_right _ List.mem_cons_self
  by_cases hlt : row.createdAt < new.createdAt
  · refine ⟨?_, hlt⟩
    cases hvec : s.db.archivesVec.get? other with
    | some v => rw [Dict.contains, hvec]; rfl
    | none => exact absurd ⟨(other, row), hmem', hvecs ▸ hvec, (archiveId, new), hnew, hsid.symm, .inl hlt⟩ hsafe
  · refine absurd ⟨(archiveId, new), hnew, hvecs ▸ hbare, (other, row), hmem', hsid, .inr ⟨?_, ?_⟩⟩ hsafe
    · exact Int.not_lt.mp hlt
    · rw [hitems]
      exact (List.singleton_sublist.mpr hmem).append (List.Sublist.refl [(archiveId, new)])

end

/-- Nothing gets lost in a step that is orderly, and in no other. -/
theorem orderly_iff (hknown : Known s.db) (hnot : ¬ Lost s) (a : ArchiveStep) :
    s.Orderly a ↔ ¬ Lost (s.step embed sessionKey a) := by
  cases a with
  | embeds archiveId => exact iff_of_true trivial fun h => hnot ((lost_embeds archiveId).mp h)
  | inserts sessionId summary archiveId now =>
    cases htaken : s.db.archives.contains archiveId with
    | true =>
      rw [step_inserts_taken htaken]
      exact iff_of_true (fun hfresh => by rw [htaken] at hfresh; cases hfresh) hnot
    | false =>
      have hfresh : archiveId ∉ s.db.archives.keys := Dict.contains_eq_false.mp htaken
      have hitems : (s.step embed sessionKey (.inserts sessionId summary archiveId now)).db.archives.items =
          s.db.archives.items ++ [(archiveId, ⟨sessionKey, sessionId, summary, now⟩)] := by
        rw [archives_inserts htaken]
        exact Dict.items_set_of_not_mem _ hfresh
      have hvecs : (s.step embed sessionKey (.inserts sessionId summary archiveId now)).db.archivesVec =
          s.db.archivesVec := archivesVec_inserts htaken
      constructor
      · intro horderly
        exact not_lost_of_earlier hfresh hitems hvecs hnot (horderly htaken)
      · intro hsafe _
        exact earlier_of_not_lost (hknown.bare htaken) hitems hvecs hsafe

/-! ## Finished runs -/

theorem InStep.run (h : InStep embed s) (hknown : Known s.db) {steps : List ArchiveStep}
    (horderly : Along (step embed sessionKey) Orderly s steps) :
    InStep embed (runFrom (step embed sessionKey) s steps) := by
  refine (horderly.invariant (I := fun s => Known s.db ∧ InStep embed s) ?_ ⟨hknown, h⟩).2
  intro s a hinv hmet
  refine ⟨known_step hinv.1 a, ?_⟩
  cases a with
  | inserts => exact hinv.2.inserts hinv.1 hmet
  | embeds archiveId => exact hinv.2.embeds archiveId

/-- Two calls for different session ids, the second of which gets its embedding first. -/
def twoSessions : List ArchiveStep :=
  [.inserts "one" "first" "a" 1, .inserts "two" "second" "b" 2, .embeds "b", .embeds "a"]

theorem archiveSession_eq (deps : MemoryDeps V) (hembed : deps.embedding = some fun text => some (embed text))
    (hvec : deps.vecLoads = true) (db : Database V) {sessionId summary archiveId : String} {now : Int}
    (hfresh : db.archives.contains archiveId = false) :
    db.archiveSession deps sessionKey sessionId summary archiveId now =
      .ok (runFrom (step embed sessionKey) { db := db }
        [.inserts sessionId summary archiveId now, .embeds archiveId]).db := by
  rw [runFrom, runFrom, runFrom, step_inserts_fresh hfresh, step_embeds (Dict.get?_set_self ..)]
  simp only [Database.archiveSession, Database.insertArchive, hfresh, hembed, hvec]
  rfl

end Archiving

end PyClaw
