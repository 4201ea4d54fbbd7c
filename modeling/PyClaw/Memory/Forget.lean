import PyClaw.Curator.Operations
import PyClaw.Memory.Tools

/-!
# Memory.Forget

`ForgetTool` on the two stores of the memory. It looks for the entry with `LIKE` if the text is shorter than
32 characters and for the id itself if it is longer, and archives the entry if there is one.

* `forgetOn_result`: the entry that is found, if it is the only one, is archived; nothing else changes.
* `searchAgrees_iff`: when it is the one whose id begins with the text.
* `forget_archives_named_iff`: forgetting archives the named entry, and no other, exactly then.
-/

namespace PyClaw

/-- The database of a session key and its L1 index. -/
structure CompositeMemory (V : Type) where
  db : Database V := {}
  l1 : Dict String MemoryEntry := Dict.empty

/-- Whether the connection opens, the `UPDATE` runs, and Redis removes the entry from the index. -/
structure ForgetHost where
  connects : Bool := true
  updates : Bool := true
  evicts : Bool := true

section
variable {V : Type}

/-- `CompositeMemoryStore.archive_entry`; a failure of the index is logged. -/
def CompositeMemory.archiveEntry (m : CompositeMemory V) (host : ForgetHost) (entryId reason : String)
    (now : Int) : Bool × CompositeMemory V :=
  let r := m.db.archiveEntry entryId reason now
  (r.1, { db := r.2, l1 := if r.1 && host.evicts then m.l1.erase entryId else m.l1 })

/-- `ForgetTool.execute` on both stores. -/
def forgetOn (env : MemoryToolEnv) (host : ForgetHost) (args : ToolArgs) (sessionId : String)
    (load : LoadReply) (m : CompositeMemory V) : ToolOutcome × CompositeMemory V :=
  match forget env args sessionId load with
  | .error outcome => (outcome, m)
  | .ok (_, entryId, reason) =>
    if host.connects = false then (.raises "CantOpenError" "unable to open database file", m)
    else
      match resolveEntryId m.db entryId with
      | .error message => (.returns (errorResult (callIdOf args) message), m)
      | .ok (fullId, content) =>
        if host.updates = false then (.raises "BusyError" "database is locked", m)
        else
          match m.archiveEntry host fullId reason env.now with
          | (false, m) =>
            (.returns (errorResult (callIdOf args)
              ("forget: 条目 '" ++ entryId ++ "' 已处于归档状态或不存在")), m)
          | (true, m) =>
            let preview := if 50 < content.length then String.ofList (content.toList.take 50) ++ "..."
              else content
            (.returns {
              toolCallId := callIdOf args
              content := [.text ("已归档: " ++ preview ++ "\n原因: " ++ reason)] }, m)

/-- With stores that answer it does to the database what `forgetExecute` does. -/
theorem forgetOn_db (env : MemoryToolEnv) (host : ForgetHost) (args : ToolArgs) (sessionId : String)
    (load : LoadReply) (m : CompositeMemory V) (hconnects : host.connects = true)
    (hupdates : host.updates = true) :
    (forgetOn env host args sessionId load m).1 = (forgetExecute env args sessionId load m.db).1 ∧
      (forgetOn env host args sessionId load m).2.db = (forgetExecute env args sessionId load m.db).2 := by
  unfold forgetOn forgetExecute
  cases forget env args sessionId load with
  | error outcome => exact ⟨rfl, rfl⟩
  | ok request =>
    simp only [hconnects, hupdates, Bool.true_eq_false, if_false]
    cases resolveEntryId m.db request.2.1 with
    | error message => exact ⟨rfl, rfl⟩
    | ok found =>
      simp only [CompositeMemory.archiveEntry]
      cases m.db.archiveEntry found.1 request.2.2 env.now with
      | mk changed db =>
        cases changed with
        | false => exact ⟨rfl, rfl⟩
        | true => exact ⟨rfl, rfl⟩

/-! ## The named entries -/

/-- The active procedures. -/
def activeEntries (db : Database V) : List (String × ProcedureRow) :=
  db.procedures.items.filter fun p => p.2.status = "active"

/-- Those whose id begins with the text. -/
def namedEntries (db : Database V) (entryId : String) : List (String × ProcedureRow) :=
  (activeEntries db).filter fun p => entryId.toList.isPrefixOf p.1.toList

/-- Those that match the pattern although their id does not begin with the text: the text has a `%` or an
`_`, or the letters differ in case. -/
def strayEntries (db : Database V) (entryId : String) : List (String × ProcedureRow) :=
  (activeEntries db).filter fun p =>
    Database.textLike (entryId ++ "%") p.1 && !entryId.toList.isPrefixOf p.1.toList

/-- Those whose id begins with the text and goes on. -/
def longerEntries (db : Database V) (entryId : String) : List (String × ProcedureRow) :=
  (activeEntries db).filter fun p => entryId.toList.isPrefixOf p.1.toList && p.1 ≠ entryId

/-- The search finds one entry exactly if one is named. For a short text nothing that is found is stray, or
several are named, or none is and several are stray; for a long one no id goes on after the text, or it is
the whole of no id and the beginning of several. -/
def SearchAgrees (db : Database V) (entryId : String) : Prop :=
  if 32 ≤ entryId.length then
    longerEntries db entryId = [] ∨
      (entryId ∉ (activeEntries db).map Prod.fst ∧ 2 ≤ (longerEntries db entryId).length)
  else
    strayEntries db entryId = [] ∨ 2 ≤ (namedEntries db entryId).length ∨
      (namedEntries db entryId = [] ∧ 2 ≤ (strayEntries db entryId).length)

/-- The only named entry is archived, and all others stay as they are in both stores. -/
structure ArchivesNamed (m m' : CompositeMemory V) (entryId reason : String) (now : Int) : Prop where
  archived : ∀ p, namedEntries m.db entryId = [p] →
    m'.db.procedures.get? p.1 = some (p.2.archive now (some reason))
  kept : ∀ id, (∀ row, namedEntries m.db entryId ≠ [(id, row)]) →
    m'.db.procedures.get? id = m.db.procedures.get? id ∧ m'.l1.get? id = m.l1.get? id
  facts : m'.db.facts = m.db.facts

end

/-! ## LIKE -/

theorem Sql.like_append {q r : List Char} (h : Sql.like q r = true) (p : List Char) :
    Sql.like (p ++ q) (p ++ r) = true := by
  induction p with
  | nil => exact h
  | cons c p ih =>
    rw [List.cons_append, List.cons_append, Sql.like]
    split
    · rw [List.any_eq_true]
      exact ⟨p ++ r, (List.mem_tails _ _).mpr (List.suffix_cons _ _), ih⟩
    · simp [ih]

theorem Sql.like_percent (text : List Char) : Sql.like ['%'] text = true := by
  simp only [Sql.like, if_true, List.any_eq_true]
  exact ⟨[], (List.mem_tails _ _).mpr List.nil_suffix, rfl⟩

/-- An id that begins with the text matches its pattern. -/
theorem textLike_of_starts {entryId id : String} (h : entryId.toList <+: id.toList) :
    Database.textLike (entryId ++ "%") id = true := by
  obtain ⟨rest, hrest⟩ := h
  have hpercent : (entryId ++ "%").toList = entryId.toList ++ ['%'] := by simp
  rw [Database.textLike, hpercent, ← hrest]
  by_cases hnul : '\x00' ∈ entryId.toList
  · -- SQLite reads both up to the same NUL
    have hshort : (entryId.toList.takeWhile (· ≠ '\x00')).length ≠ entryId.toList.length := by
      intro hlength
      have hwhole := (List.takeWhile_prefix (fun c : Char => decide (c ≠ '\x00'))).eq_of_length hlength
      rw [← hwhole] at hnul
      exact not_mem_takeWhile _ _ hnul
    rw [List.takeWhile_append, if_neg hshort, List.takeWhile_append, if_neg hshort]
    have hself := Sql.like_append (q := []) (r := []) rfl (entryId.toList.takeWhile (· ≠ '\x00'))
    rwa [List.append_nil] at hself
  · have hall : ∀ c ∈ entryId.toList, decide (c ≠ '\x00') = true := by
      intro c hc
      refine decide_eq_true fun heq => hnul (heq ▸ hc)
    rw [List.takeWhile_append_of_pos hall, List.takeWhile_append_of_pos hall]
    exact Sql.like_append (by simpa using Sql.like_percent _) _

/-! ## The search -/

/-- A list is the same single element as its part exactly if there is no rest, or neither is single. -/
theorem forall_singleton_iff {α : Type} (l : List α) (f : α → Bool) :
    (∀ x, l = [x] ↔ l.filter f = [x]) ↔
      l.filter (fun x => !f x) = [] ∨ 2 ≤ (l.filter f).length ∨
        (l.filter f = [] ∧ 2 ≤ (l.filter fun x => !f x).length) := by
  have hsum := List.length_eq_length_filter_add (l := l) f
  constructor
  · intro h
    by_contra hnot
    simp only [not_or, not_and, not_le] at hnot
    obtain ⟨hrest, hpart, hboth⟩ := hnot
    have hpos := List.length_pos_of_ne_nil hrest
    cases hlist : l.filter f with
    | nil =>
      have hshort := hboth hlist
      rw [hlist, List.length_nil] at hsum
      obtain ⟨x, hx⟩ := List.length_eq_one_iff.mp (by omega : l.length = 1)
      have hself := (h x).mp hx
      rw [hlist] at hself
      cases hself
    | cons x tail =>
      rw [hlist, List.length_cons] at hpart hsum
      obtain rfl := List.eq_nil_of_length_eq_zero (by omega : tail.length = 0)
      have hself := congrArg List.length ((h x).mpr hlist)
      rw [List.length_singleton] at hself
      omega
  · rintro (hrest | htwo | ⟨hnil, htwo⟩) x
    · have hall : l.filter f = l := by
        rw [hrest, List.length_nil, Nat.add_zero] at hsum
        exact List.filter_sublist.eq_of_length hsum.symm
      rw [hall]
    · refine iff_of_false (fun h => ?_) (fun h => ?_)
      · have hlength := congrArg List.length h
        rw [List.length_singleton] at hlength
        omega
      · have hlength := congrArg List.length h
        rw [List.length_singleton] at hlength
        omega
    · rw [hnil]
      refine iff_of_false (fun h => ?_) (fun h => by cases h)
      have hlength := congrArg List.length h
      rw [List.length_singleton] at hlength
      omega

section
variable {V : Type} {db : Database V} {entryId : String}

theorem matchingEntries_eq : matchingEntries db entryId = (activeEntries db).filter fun p =>
    if 32 ≤ entryId.length then p.1 = entryId else Database.textLike (entryId ++ "%") p.1 := by
  rw [matchingEntries, activeEntries, List.filter_filter]
  refine List.filter_congr fun p _ => ?_
  rw [Bool.and_comm]

theorem activeEntries_nodup : ((activeEntries db).map Prod.fst).Nodup :=
  db.procedures.nodup.sublist (List.filter_sublist.map _)

theorem starts_iff {p : String × ProcedureRow} :
    entryId.toList.isPrefixOf p.1.toList = true ↔ entryId.toList <+: p.1.toList :=
  List.isPrefixOf_iff_prefix

/-- A short text matches the entries that it names, and the stray ones. -/
theorem matching_short (h : ¬ 32 ≤ entryId.length) :
    (matchingEntries db entryId).filter (fun p => entryId.toList.isPrefixOf p.1.toList) =
        namedEntries db entryId ∧
      (matchingEntries db entryId).filter (fun p => !entryId.toList.isPrefixOf p.1.toList) =
        strayEntries db entryId := by
  rw [matchingEntries_eq, List.filter_filter, List.filter_filter, namedEntries, strayEntries]
  constructor
  · refine List.filter_congr fun p _ => ?_
    rw [if_neg h]
    cases hstarts : entryId.toList.isPrefixOf p.1.toList with
    | false => rfl
    | true => simp [textLike_of_starts (starts_iff.mp hstarts)]
  · refine List.filter_congr fun p _ => ?_
    rw [if_neg h, Bool.and_comm]

/-- A long text names the entry that it matches, and the longer ones. -/
theorem named_long (h : 32 ≤ entryId.length) :
    (namedEntries db entryId).filter (fun p => p.1 = entryId) = matchingEntries db entryId ∧
      (namedEntries db entryId).filter (fun p => !decide (p.1 = entryId)) = longerEntries db entryId := by
  rw [matchingEntries_eq, namedEntries, longerEntries, List.filter_filter, List.filter_filter]
  constructor
  · refine List.filter_congr fun p _ => ?_
    rw [if_pos h]
    by_cases heq : p.1 = entryId
    · have hstarts : entryId.toList.isPrefixOf p.1.toList = true :=
        starts_iff.mpr (heq ▸ List.prefix_refl _)
      simp [heq, heq ▸ hstarts]
    · simp [heq]
  · refine List.filter_congr fun p _ => ?_
    rw [Bool.and_comm]
    simp

/-- At most one entry has the text as its id. -/
theorem matching_long_length (h : 32 ≤ entryId.length) : (matchingEntries db entryId).length ≤ 1 := by
  have hnodup : ((matchingEntries db entryId).map Prod.fst).Nodup := by
    rw [matchingEntries_eq]
    exact activeEntries_nodup.sublist (List.filter_sublist.map _)
  have hsame : ∀ p ∈ matchingEntries db entryId, p.1 = entryId := by
    intro p hp
    rw [matchingEntries_eq, List.mem_filter, if_pos h] at hp
    simpa using hp.2
  match hlist : matchingEntries db entryId with
  | [] => simp
  | [_] => simp
  | p :: q :: rest =>
    rw [hlist] at hnodup hsame
    have hp := hsame p (by simp)
    have hq := hsame q (by simp)
    simp [hp, hq] at hnodup

/-- The search finds the one entry that is named, and none if there is not one. -/
theorem searchAgrees_iff : SearchAgrees db entryId ↔
    ∀ p, matchingEntries db entryId = [p] ↔ namedEntries db entryId = [p] := by
  unfold SearchAgrees
  split
  · rename_i hlong
    obtain ⟨hmatching, hlonger⟩ := @named_long V db entryId hlong
    have hone := @matching_long_length V db entryId hlong
    have hmem : entryId ∉ (activeEntries db).map Prod.fst ↔ matchingEntries db entryId = [] := by
      rw [matchingEntries_eq, List.filter_eq_nil_iff, List.mem_map]
      simp only [if_pos hlong, decide_eq_true_eq]
      constructor
      · exact fun h p hp heq => h ⟨p, hp, heq⟩
      · rintro h ⟨p, hp, heq⟩
        exact h p hp heq
    have hiff := forall_singleton_iff (namedEntries db entryId) fun p => decide (p.1 = entryId)
    rw [hmatching, hlonger] at hiff
    rw [forall_congr' fun p => iff_comm (a := matchingEntries db entryId = [p]), hiff, hmem]
    constructor
    · rintro (h | h)
      · exact .inl h
      · exact .inr (.inr h)
    · rintro (h | h | h)
      · exact .inl h
      · omega
      · exact .inr h
  · rename_i hshort
    obtain ⟨hnamed, hstray⟩ := @matching_short V db entryId hshort
    have hiff := forall_singleton_iff (matchingEntries db entryId) fun p =>
      entryId.toList.isPrefixOf p.1.toList
    rw [hnamed, hstray] at hiff
    exact hiff.symm

theorem mem_activeEntries_of_matching {p : String × ProcedureRow} (h : p ∈ matchingEntries db entryId) :
    db.procedures.get? p.1 = some p.2 ∧ p.2.status = "active" := by
  rw [matchingEntries_eq, List.mem_filter, activeEntries, List.mem_filter] at h
  exact ⟨Dict.get?_of_mem_items h.1.1, by simpa using h.1.2⟩

theorem mem_activeEntries_of_named {p : String × ProcedureRow} (h : p ∈ namedEntries db entryId) :
    db.procedures.get? p.1 = some p.2 ∧ p.2.status = "active" := by
  rw [namedEntries, List.mem_filter, activeEntries, List.mem_filter] at h
  exact ⟨Dict.get?_of_mem_items h.1.1, by simpa using h.1.2⟩

/-! ## Forgetting -/

variable {env : MemoryToolEnv} {host : ForgetHost} {args : ToolArgs} {sessionId sessionKey reason : String}
  {load : LoadReply} {m : CompositeMemory V} {now : Int}

/-- What is left of the stores: the only entry found is archived, else they are as before. -/
theorem forgetOn_result (h : forget env args sessionId load = .ok (sessionKey, entryId, reason))
    (hconnects : host.connects = true) (hupdates : host.updates = true) :
    (forgetOn env host args sessionId load m).2 =
      match matchingEntries m.db entryId with
      | [p] => (m.archiveEntry host p.1 reason env.now).2
      | _ => m := by
  unfold forgetOn
  rw [h]
  simp only [hconnects, hupdates, Bool.true_eq_false, if_false, resolveEntryId]
  split
  · rename_i hmatch
    split at hmatch
    · rename_i hnil
      rw [hnil]
    · cases hmatch
    · rename_i hnone hmany
      split
      · rename_i p hone
        exact absurd hone (hmany p)
      · rfl
  · rename_i fullId content hmatch
    split at hmatch
    · cases hmatch
    · rename_i p hone
      obtain ⟨rfl, -⟩ := Prod.mk.inj (Except.ok.inj hmatch)
      rw [hone]
      simp only
      cases harchive : m.archiveEntry host p.1 reason env.now with
      | mk changed m' =>
        cases changed with
        | false => rfl
        | true => rfl
    · cases hmatch

/-- A failure of the database changes nothing. -/
theorem forgetOn_failure (h : host.connects = false ∨ host.updates = false) :
    (forgetOn env host args sessionId load m).2 = m := by
  unfold forgetOn
  cases forget env args sessionId load with
  | error outcome => rfl
  | ok request =>
    simp only
    split
    · rfl
    · rename_i hconnects
      rcases h with h | h
      · exact absurd h hconnects
      · split
        · rfl
        · rw [if_pos h]

/-- The reason of a call that gets past the guards is not empty. -/
theorem reason_ne_of_forget (h : forget env args sessionId load = .ok (sessionKey, entryId, reason)) :
    reason ≠ "" := by
  unfold forget at h
  cases hid : strippedArg env.py args "entry_id" with
  | error e => rw [hid] at h; cases h
  | ok entryId' =>
    cases hreason : strippedArg env.py args "reason" with
    | error e => rw [hid, hreason] at h; cases h
    | ok reason' =>
      rw [hid, hreason] at h
      simp only [bind, Except.bind] at h
      split at h
      · cases h
      · split at h
        · cases h
        · rename_i hne
          split at h
          · cases h
          · cases h
          · split at h
            · obtain ⟨-, -, rfl⟩ := Except.ok.inj h
              exact hne
            · cases h

theorem archiveEntry_found {p : String × ProcedureRow} (hrow : m.db.procedures.get? p.1 = some p.2)
    (hactive : p.2.status = "active") (hreason : reason ≠ "") (now : Int) :
    m.archiveEntry host p.1 reason now = (true,
      { db := { m.db with procedures := m.db.procedures.set p.1 (p.2.archive now (some reason)) }
        l1 := if host.evicts = true then m.l1.erase p.1 else m.l1 }) := by
  simp [CompositeMemory.archiveEntry, Database.archiveEntry, ProcedureRow.archive, hrow, hactive, hreason]

/-- An active row is not an archived one. -/
theorem ne_archive {row row' : ProcedureRow} (hactive : row.status = "active") :
    row ≠ row'.archive now (some reason) := by
  rintro rfl
  simp [ProcedureRow.archive] at hactive

/-- Archiving the only named entry is what the tool is for. -/
theorem archivesNamed_of_named {p : String × ProcedureRow} (hreason : reason ≠ "") (now : Int)
    (h : namedEntries m.db entryId = [p]) :
    ArchivesNamed m (m.archiveEntry host p.1 reason now).2 entryId reason now := by
  obtain ⟨hrow, hactive⟩ := mem_activeEntries_of_named (h ▸ List.mem_singleton_self p)
  rw [archiveEntry_found hrow hactive hreason]
  refine ⟨?_, ?_, rfl⟩
  · intro q hq
    obtain rfl := List.singleton_inj.mp (h.symm.trans hq)
    exact Dict.get?_set_self _ _ _
  · intro id hid
    have hne : p.1 ≠ id := by
      rintro rfl
      exact hid p.2 h
    refine ⟨Dict.get?_set_ne _ _ hne, ?_⟩
    simp only
    split
    · exact Dict.get?_erase_ne hne.symm
    · rfl

/-- If the entry found may be archived, it is the one that is named: another one would have to stay. -/
theorem named_of_archivesNamed {p : String × ProcedureRow} (hreason : reason ≠ "")
    (hfound : matchingEntries m.db entryId = [p])
    (h : ArchivesNamed m (m.archiveEntry host p.1 reason now).2 entryId reason now) :
    namedEntries m.db entryId = [p] := by
  obtain ⟨hrow, hactive⟩ := mem_activeEntries_of_matching (hfound ▸ List.mem_singleton_self p)
  rw [archiveEntry_found hrow hactive hreason] at h
  by_contra hnamed
  have hkept := (h.kept p.1 fun row hrow' => ?_).1
  · rw [hrow, Dict.get?_set_self, Option.some.injEq] at hkept
    exact ne_archive hactive hkept.symm
  · have hmem : (p.1, row) ∈ namedEntries m.db entryId := hrow' ▸ List.mem_singleton_self _
    have hsame := (mem_activeEntries_of_named hmem).1
    rw [hrow, Option.some.injEq] at hsame
    have hpair : (p.1, row) = p := Prod.ext rfl hsame.symm
    exact hnamed (hpair ▸ hrow')

/-- If the entry that is named has been archived, it is the one that is found. -/
theorem matching_of_archived {p : String × ProcedureRow} (hreason : reason ≠ "")
    (hnamed : namedEntries m.db entryId = [p])
    (h : (match matchingEntries m.db entryId with
      | [q] => (m.archiveEntry host q.1 reason now).2
      | _ => m).db.procedures.get? p.1 = some (p.2.archive now (some reason))) :
    matchingEntries m.db entryId = [p] := by
  obtain ⟨hrow, hactive⟩ := mem_activeEntries_of_named (hnamed ▸ List.mem_singleton_self p)
  split at h
  · rename_i q hfound
    obtain ⟨hq, hqactive⟩ := mem_activeEntries_of_matching (hfound ▸ List.mem_singleton_self q)
    by_cases hsame : q.1 = p.1
    · rw [hsame, hrow, Option.some.injEq] at hq
      rw [hfound, Prod.ext hsame hq.symm]
    · -- another row has been archived
      rw [archiveEntry_found hq hqactive hreason, Dict.get?_set_ne _ _ hsame, hrow, Option.some.injEq] at h
      exact absurd h (ne_archive hactive)
  · rw [hrow, Option.some.injEq] at h
    exact absurd h (ne_archive hactive)

/-- Forgetting archives the named entry and no other, if the database answers, exactly if the search agrees
with what the text names; a failure changes nothing. -/
theorem forget_archives_named_iff (env : MemoryToolEnv) (host : ForgetHost) (args : ToolArgs)
    (sessionId : String) (load : LoadReply) (m : CompositeMemory V) (sessionKey entryId reason : String)
    (h : forget env args sessionId load = .ok (sessionKey, entryId, reason)) :
    (host.connects = false ∨ host.updates = false → (forgetOn env host args sessionId load m).2 = m) ∧
      (host.connects = true → host.updates = true →
        (ArchivesNamed m (forgetOn env host args sessionId load m).2 entryId reason env.now ↔
          SearchAgrees m.db entryId)) := by
  refine ⟨forgetOn_failure, fun hconnects hupdates => ?_⟩
  have hreason := reason_ne_of_forget h
  rw [forgetOn_result h hconnects hupdates, searchAgrees_iff]
  constructor
  · intro harchives p
    constructor
    · intro hfound
      rw [hfound] at harchives
      exact named_of_archivesNamed hreason hfound harchives
    · exact fun hnamed => matching_of_archived hreason hnamed (harchives.archived p hnamed)
  · intro hagrees
    split
    · rename_i p hfound
      exact archivesNamed_of_named hreason env.now ((hagrees p).mp hfound)
    · rename_i hnone
      refine ⟨?_, fun _ _ => ⟨rfl, rfl⟩, rfl⟩
      intro p hnamed
      exact absurd ((hagrees p).mpr hnamed) (hnone p)

end

/-! ## One underscore -/

/-- A session in which a tool has been called. -/
def toolTree : SessionTree where
  header := { id := "k:s:1", workspaceId := "default", agentId := "main" }
  entries := Dict.empty.set "t" ⟨"t", none, .message { role := .tool, content := .str "ok" }⟩
  order := ["t"]
  leafId := some "t"

def forgetEnv : MemoryToolEnv := { py := .ascii, reprJson := fun _ => "", uuid := "", now := 5 }

def forgetArgs (entryId : String) : ToolArgs := [("entry_id", .str entryId), ("reason", .str "old")]

theorem forget_forgetArgs {entryId : String} (hne : entryId ≠ "")
    (hstrip : String.ofList (strip PyText.ascii.isSpace entryId.toList) = entryId) :
    forget forgetEnv (forgetArgs entryId) "k:s:1" (.returns (some toolTree)) =
      .ok ("k", entryId, "old") := by
  have hid : strippedArg PyText.ascii (forgetArgs entryId) "entry_id" = .ok entryId := by
    simp [strippedArg, forgetArgs, hstrip]
  have hreason : strippedArg PyText.ascii (forgetArgs entryId) "reason" = .ok "old" := by
    simp only [strippedArg, forgetArgs, List.lookup_cons, List.lookup_nil]
    exact congrArg Except.ok (by decide +kernel)
  have htool : hasNonErrorToolUse toolTree = true := by decide +kernel
  have hkey : deriveSessionKey "k:s:1" = "k" := by decide +kernel
  simp [forget, forgetEnv, hid, hreason, hne, htool, hkey, bind, Except.bind]

/-- A memory with one active procedure. -/
def oneProcedure : CompositeMemory Unit where
  db :=
    { procedures := Dict.empty.set "3f2a"
        ⟨⟨"k", "auto_sop", "deploy with make", none, 1, 1⟩, none, 0, "active", none, none⟩ }

/-- The only entry is archived, though its id does not begin with an underscore. -/
theorem forget_archives_stray :
    ¬ ∀ (env : MemoryToolEnv) (host : ForgetHost) (args : ToolArgs) (sessionId : String)
      (load : LoadReply) (m : CompositeMemory Unit) (sessionKey entryId reason : String),
      forget env args sessionId load = .ok (sessionKey, entryId, reason) →
      host.connects = true → host.updates = true →
      ArchivesNamed m (forgetOn env host args sessionId load m).2 entryId reason env.now := by
  intro h
  have harchives := h forgetEnv {} (forgetArgs "_") "k:s:1" (.returns (some toolTree)) oneProcedure
    "k" "_" "old" (forget_forgetArgs (by decide) (by decide +kernel)) rfl rfl
  have hkept := (harchives.kept "3f2a" fun row hrow => ?_).1
  · have hstatus := congrArg (Option.map ProcedureRow.status) hkept
    revert hstatus
    decide +kernel
  · have hnone : namedEntries oneProcedure.db "_" = [] := by decide +kernel
    rw [hnone] at hrow
    cases hrow

/-- By the beginning of its id the entry is archived. -/
theorem forget_archives_by_beginning :
    ArchivesNamed oneProcedure
      (forgetOn forgetEnv {} (forgetArgs "3f") "k:s:1" (.returns (some toolTree)) oneProcedure).2
      "3f" "old" 5 := by
  refine ((forget_archives_named_iff forgetEnv {} (forgetArgs "3f") "k:s:1" (.returns (some toolTree))
    oneProcedure "k" "3f" "old" (forget_forgetArgs (by decide) (by decide +kernel))).2 rfl rfl).mpr ?_
  rw [SearchAgrees, if_neg (by decide +kernel)]
  exact .inl (by decide +kernel)

end PyClaw
