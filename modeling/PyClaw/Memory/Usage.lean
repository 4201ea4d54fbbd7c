import PyClaw.Memory.Sqlite

/-!
# Memory.Usage

Which entries a search marks as used. `search_procedures_sync` marks every row it finds, and the list of the
two layers is cut after that.

* `usage_searchProcedures`: the rows found are used once more, the others are left.
* `search_bumps_iff`: a search marks exactly the entries it returns if and only if nothing of L3 is cut.
-/

namespace PyClaw

/-- A row occurs at most once among the matches of the full-text index. -/
def MemoryDeps.MatchesOnce {V : Type} (deps : MemoryDeps V) : Prop :=
  ∀ matchQuery texts, ((deps.ftsMatch matchQuery texts).map Prod.fst).Nodup

/-- `use_count` and `last_used_at` of an entry that is used at `now`. -/
def usedOnce (now : Int) (usage : Int × Option Int) : Int × Option Int := (usage.1 + 1, some now)

theorem usedOnce_ne (now : Int) (usage : Int × Option Int) : usedOnce now usage ≠ usage := by
  intro h
  have hcount : usage.1 + 1 = usage.1 := congrArg Prod.fst h
  omega

namespace Database

variable {V : Type}

/-- `use_count` and `last_used_at` of a procedure. -/
def usage (db : Database V) (id : String) : Option (Int × Option Int) :=
  (db.procedures.get? id).map fun row => (row.useCount, row.lastUsedAt)

/-- The active procedures that a query finds. -/
def procedureHits (deps : MemoryDeps V) (db : Database V) (query : String) (limit : Int) :
    List ((String × ProcedureRow) × Option Rat) :=
  deps.searchRows (fun p => p.2.content) (fun p => p.2.updatedAt) (fun p => p.2.status = "active")
    db.procedures.items query limit

variable {deps : MemoryDeps V} {db : Database V} {query : String} {limit now : Int}

/-! ## Rows -/

section
variable {ν : Type} {content : ν → String} {updatedAt : ν → Int} {keep : ν → Bool} {rows : List ν}

theorem mem_of_mem_searchRows {r : ν × Option Rat}
    (h : r ∈ deps.searchRows content updatedAt keep rows query limit) : r.1 ∈ rows ∧ keep r.1 = true := by
  unfold MemoryDeps.searchRows at h
  split at h
  · obtain ⟨row, hrow, rfl⟩ := List.mem_map.mp h
    have hhit := Sql.mem_orderDesc.mp (Sql.mem_of_mem_limit hrow)
    rw [List.mem_filter, Bool.and_eq_true] at hhit
    exact ⟨hhit.1, hhit.2.2⟩
  · split at h
    · cases h
    · obtain ⟨p, -, hp⟩ := List.mem_filterMap.mp (Sql.mem_of_mem_limit h)
      obtain ⟨row, hrow, hkeep⟩ := Option.bind_eq_some_iff.mp hp
      split at hkeep
      · rename_i hkept
        obtain rfl := Option.some.inj hkeep
        exact ⟨List.mem_of_getElem? hrow, hkept⟩
      · cases hkeep

theorem nodup_filterMap_getElem? (hrows : rows.Nodup) {hits : List (Nat × Rat)}
    (hhits : (hits.map Prod.fst).Nodup) :
    ((hits.filterMap fun p => (rows[p.1]?).bind fun r => if keep r then some (r, some p.2) else none).map
      Prod.fst).Nodup := by
  induction hits with
  | nil => exact List.nodup_nil
  | cons p rest ih =>
    rw [List.map_cons, List.nodup_cons] at hhits
    rw [List.filterMap_cons]
    split
    · exact ih hhits.2
    · rename_i r hr
      rw [List.map_cons, List.nodup_cons]
      refine ⟨?_, ih hhits.2⟩
      intro hmem
      obtain ⟨row, hrow, hkeep⟩ := Option.bind_eq_some_iff.mp hr
      obtain ⟨r', hr', hsame⟩ := List.mem_map.mp hmem
      obtain ⟨p', hp', hfound⟩ := List.mem_filterMap.mp hr'
      obtain ⟨row', hrow', hkeep'⟩ := Option.bind_eq_some_iff.mp hfound
      split at hkeep
      · split at hkeep'
        · obtain rfl := Option.some.inj hkeep
          obtain rfl := Option.some.inj hkeep'
          simp only at hsame
          subst hsame
          obtain ⟨hlt, -⟩ := List.getElem?_eq_some_iff.mp hrow
          have hpos : p.1 = p'.1 := (List.getElem?_inj hlt hrows).mp (hrow.trans hrow'.symm)
          exact hhits.1 (List.mem_map.mpr ⟨p', hp', hpos.symm⟩)
        · cases hkeep'
      · cases hkeep

theorem searchRows_nodup (honce : deps.MatchesOnce) (hrows : rows.Nodup) :
    ((deps.searchRows content updatedAt keep rows query limit).map Prod.fst).Nodup := by
  unfold MemoryDeps.searchRows
  split
  · rw [List.map_map]
    have hid : (Prod.fst ∘ fun r : ν => (r, (none : Option Rat))) = id := rfl
    rw [hid, List.map_id]
    have hsorted : (Sql.orderDesc updatedAt (rows.filter fun r =>
        Database.textLike ("%" ++ query ++ "%") (content r) && keep r)).Nodup :=
      (List.perm_insertionSort _ _).nodup_iff.mpr (hrows.filter _)
    unfold Sql.limit
    split
    · exact hsorted
    · exact hsorted.sublist (List.take_sublist _ _)
  · split
    · exact List.nodup_nil
    · rename_i matchQuery _
      rw [Sql.limit_map]
      have hfound := @nodup_filterMap_getElem? ν keep rows hrows _ (honce matchQuery (rows.map content))
      unfold Sql.limit
      split
      · exact hfound
      · exact hfound.sublist (List.take_sublist _ _)

end

/-! ## Hits -/

theorem procedureHits_row {r : (String × ProcedureRow) × Option Rat}
    (h : r ∈ db.procedureHits deps query limit) : db.procedures.get? r.1.1 = some r.1.2 :=
  Dict.get?_of_mem_items (mem_of_mem_searchRows h).1

theorem procedureHits_nodup (honce : deps.MatchesOnce) :
    ((db.procedureHits deps query limit).map fun r => r.1.1).Nodup := by
  have hitems : db.procedures.items.Nodup := List.Nodup.of_map _ db.procedures.nodup
  have hrows : ((db.procedureHits deps query limit).map Prod.fst).Nodup := searchRows_nodup honce hitems
  rw [← Function.comp_def Prod.fst Prod.fst, ← List.map_map]
  refine List.Nodup.map_on ?_ hrows
  intro p hp p' hp' hid
  obtain ⟨r, hr, rfl⟩ := List.mem_map.mp hp
  obtain ⟨r', hr', rfl⟩ := List.mem_map.mp hp'
  have hrow := procedureHits_row hr
  rw [hid, procedureHits_row hr'] at hrow
  exact Prod.ext hid (Option.some.inj hrow).symm

/-- Using a row that is found changes its use. -/
theorem usedOnce_ne_of_hit {r : (String × ProcedureRow) × Option Rat}
    (h : r ∈ db.procedureHits deps query limit) (now : Int) :
    (db.usage r.1.1).map (usedOnce now) ≠ db.usage r.1.1 := by
  rw [usage, procedureHits_row h, Option.map_some, Option.map_some]
  exact fun heq => usedOnce_ne now _ (Option.some.inj heq)

/-- The rows found are used once more, the others are left. -/
theorem usage_searchProcedures (id : String) :
    (db.searchProcedures deps query limit now).2.usage id =
      if id ∈ (db.procedureHits deps query limit).map (fun r => r.1.1) then
        (db.usage id).map (usedOnce now)
      else db.usage id := by
  have hids : ((deps.searchRows (fun p => p.2.content) (fun p => p.2.updatedAt)
      (fun p => p.2.status = "active") db.procedures.items query limit).map fun r => r.1.1) =
      (db.procedureHits deps query limit).map fun r => r.1.1 := rfl
  simp only [usage, searchProcedures, Dict.get?_mapValues, Option.map_map, hids]
  split
  · simp [usedOnce, Function.comp_def]
  · simp [Function.comp_def]

/-! ## One search -/

section
variable {layers : Option (List String)} {perLayerLimits : Option (Dict String Int)}

def layerLimit (limit : Int) (perLayerLimits : Option (Dict String Int)) (layer : String) : Int :=
  (perLayerLimits.bind (·.get? layer)).getD limit

/-- The entries of L2 that a search finds. -/
def factsFound (deps : MemoryDeps V) (db : Database V) (query : String) (layers : Option (List String))
    (limit : Int) (perLayerLimits : Option (Dict String Int)) : List MemoryEntry :=
  if "L2" ∈ layers.getD ["L2", "L3"] then
    db.searchFacts deps query (layerLimit limit perLayerLimits "L2")
  else []

/-- The rows of L3 that a search finds. -/
def proceduresFound (deps : MemoryDeps V) (db : Database V) (query : String)
    (layers : Option (List String)) (limit : Int) (perLayerLimits : Option (Dict String Int)) :
    List ((String × ProcedureRow) × Option Rat) :=
  if "L3" ∈ layers.getD ["L2", "L3"] then
    db.procedureHits deps query (layerLimit limit perLayerLimits "L3")
  else []

/-- No procedure that is found is cut off the result. -/
def NothingCut (deps : MemoryDeps V) (db : Database V) (query : String) (layers : Option (List String))
    (limit : Int) (perLayerLimits : Option (Dict String Int)) : Prop :=
  (∃ limits, perLayerLimits = some limits ∧ limits.items ≠ []) ∨
    db.proceduresFound deps query layers limit perLayerLimits = [] ∨
    0 ≤ limit ∧ ((db.factsFound deps query layers limit perLayerLimits).length +
      (db.proceduresFound deps query layers limit perLayerLimits).length : Int) ≤ limit

/-- The ids of the L3 entries in a result. -/
def procedureIds (entries : List MemoryEntry) : List String :=
  (entries.filter fun e => e.layer = .l3).map MemoryEntry.id

theorem mem_hits_of_found {r : (String × ProcedureRow) × Option Rat}
    (h : r ∈ db.proceduresFound deps query layers limit perLayerLimits) :
    r ∈ db.procedureHits deps query (layerLimit limit perLayerLimits "L3") := by
  rw [proceduresFound] at h
  split at h
  · exact h
  · cases h

theorem proceduresFound_nodup (honce : deps.MatchesOnce) :
    ((db.proceduresFound deps query layers limit perLayerLimits).map fun r => r.1.1).Nodup := by
  rw [proceduresFound]
  split
  · exact procedureHits_nodup honce
  · exact List.nodup_nil

theorem usage_search (id : String) :
    (db.search deps query layers limit perLayerLimits now).2.usage id =
      if id ∈ (db.proceduresFound deps query layers limit perLayerLimits).map (fun r => r.1.1) then
        (db.usage id).map (usedOnce now)
      else db.usage id := by
  have hsecond : (db.search deps query layers limit perLayerLimits now).2 =
      (if "L3" ∈ layers.getD ["L2", "L3"] then
        db.searchProcedures deps query (layerLimit limit perLayerLimits "L3") now else ([], db)).2 := by
    unfold search
    split <;> rfl
  rw [hsecond, proceduresFound]
  split
  · exact usage_searchProcedures id
  · rfl

theorem factsFound_layer {e : MemoryEntry} (he : e ∈ db.factsFound deps query layers limit perLayerLimits) :
    e.layer = .l2 := by
  rw [factsFound] at he
  split at he
  · simp only [searchFacts, List.mem_map] at he
    obtain ⟨r, -, rfl⟩ := he
    rfl
  · cases he

theorem procedureIds_take {l2 l3 : List MemoryEntry} (hl2 : ∀ e ∈ l2, e.layer = .l2)
    (hl3 : ∀ e ∈ l3, e.layer = .l3) (k : Nat) :
    procedureIds ((l2 ++ l3).take k) = (l3.map MemoryEntry.id).take (k - l2.length) := by
  have hnone : (l2.take k).filter (fun e => e.layer = .l3) = [] := by
    rw [List.filter_eq_nil_iff]
    intro e he
    simp [hl2 e (List.mem_of_mem_take he)]
  have hall : (l3.take (k - l2.length)).filter (fun e => e.layer = .l3) = l3.take (k - l2.length) := by
    rw [List.filter_eq_self]
    intro e he
    simp [hl3 e (List.mem_of_mem_take he)]
  rw [procedureIds, List.take_append, List.filter_append, hnone, hall, List.nil_append, List.map_take]

/-- The result is the entries of L2 and then those of L3, cut to the limit unless the layers have limits of
their own. -/
theorem search_result : ∃ l3 : List MemoryEntry, (∀ e ∈ l3, e.layer = .l3) ∧
    l3.map MemoryEntry.id =
      (db.proceduresFound deps query layers limit perLayerLimits).map (fun r => r.1.1) ∧
    (db.search deps query layers limit perLayerLimits now).1 =
      if ∃ limits, perLayerLimits = some limits ∧ limits.items ≠ [] then
        db.factsFound deps query layers limit perLayerLimits ++ l3
      else sliceTo limit (db.factsFound deps query layers limit perLayerLimits ++ l3) := by
  refine ⟨(if "L3" ∈ layers.getD ["L2", "L3"] then
    db.searchProcedures deps query (layerLimit limit perLayerLimits "L3") now else ([], db)).1, ?_, ?_, ?_⟩
  · intro e he
    split at he
    · simp only [searchProcedures, List.mem_map] at he
      obtain ⟨r, -, rfl⟩ := he
      rfl
    · cases he
  · rw [proceduresFound]
    split
    · simp only [searchProcedures, List.map_map]
      rfl
    · rfl
  · cases perLayerLimits with
    | none =>
      rw [if_neg (by simp)]
      rfl
    | some limits =>
      by_cases hitems : limits.items = []
      · rw [if_neg (by simpa using hitems)]
        simp only [search, if_pos hitems]
        rfl
      · rw [if_pos ⟨limits, rfl, hitems⟩]
        simp only [search, if_neg hitems]
        rfl

/-- Of L3 the first `kept` rows found are in the result. -/
theorem procedureIds_search : ∃ kept,
    procedureIds (db.search deps query layers limit perLayerLimits now).1 =
      ((db.proceduresFound deps query layers limit perLayerLimits).map fun r => r.1.1).take kept ∧
    (NothingCut deps db query layers limit perLayerLimits ↔
      (db.proceduresFound deps query layers limit perLayerLimits).length ≤ kept) := by
  obtain ⟨l3, hl3, hids, hresult⟩ := @search_result V deps db query limit now layers perLayerLimits
  have hlen : l3.length = (db.proceduresFound deps query layers limit perLayerLimits).length := by
    simpa using congrArg List.length hids
  rw [NothingCut, hresult, ← hids, ← List.length_eq_zero_iff, ← hlen]
  have htake := procedureIds_take (fun e => @factsFound_layer V deps db query limit layers perLayerLimits e) hl3
  generalize db.factsFound deps query layers limit perLayerLimits = l2 at htake
  split
  · rename_i hlimits
    refine ⟨l3.length, ?_, iff_of_true (.inl hlimits) le_rfl⟩
    have hwhole := htake (l2 ++ l3).length
    rwa [List.take_length, List.length_append, Nat.add_sub_cancel_left] at hwhole
  · rename_i hlimits
    rw [or_iff_right hlimits, sliceTo]
    split
    · refine ⟨_, htake _, ?_⟩
      rw [List.length_append]
      omega
    · refine ⟨_, htake _, ?_⟩
      omega

theorem not_mem_take {α : Type} {l : List α} (hl : l.Nodup) {k : Nat} {a : α} (h : l[k]? = some a) :
    a ∉ l.take k := by
  intro htaken
  have hdropped : (l.drop k)[0]? = some a := by
    rw [List.getElem?_drop, Nat.add_zero]
    exact h
  exact List.disjoint_take_drop hl le_rfl htaken (List.mem_of_getElem? hdropped)

/-- A search uses exactly the L3 entries of its result if nothing of L3 is cut, and only then. -/
theorem search_bumps_iff (deps : MemoryDeps V) (db : Database V) (query : String)
    (layers : Option (List String)) (limit : Int) (perLayerLimits : Option (Dict String Int)) (now : Int)
    (honce : deps.MatchesOnce) :
    (∀ id, (db.search deps query layers limit perLayerLimits now).2.usage id =
      if id ∈ procedureIds (db.search deps query layers limit perLayerLimits now).1 then
        (db.usage id).map (usedOnce now)
      else db.usage id) ↔
      NothingCut deps db query layers limit perLayerLimits := by
  obtain ⟨kept, hreturned, hcut⟩ := @procedureIds_search V deps db query limit now layers perLayerLimits
  rw [hcut, hreturned]
  simp only [usage_search]
  constructor
  · intro h
    by_contra hlong
    rw [not_le] at hlong
    -- The first row that is cut is used, and its id is not among those returned.
    obtain ⟨r, hr⟩ : ∃ r, (db.proceduresFound deps query layers limit perLayerLimits)[kept]? = some r :=
      ⟨_, List.getElem?_eq_getElem hlong⟩
    have hmem := List.mem_of_getElem? hr
    have hid : ((db.proceduresFound deps query layers limit perLayerLimits).map fun r => r.1.1)[kept]? =
        some r.1.1 := by
      rw [List.getElem?_map, hr, Option.map_some]
    have hfresh := not_mem_take (proceduresFound_nodup honce) hid
    have hused := h r.1.1
    rw [if_pos (List.mem_map_of_mem hmem), if_neg hfresh] at hused
    exact usedOnce_ne_of_hit (mem_hits_of_found hmem) now hused
  · intro hall id
    rw [List.take_of_length_le (by rw [List.length_map]; exact hall)]

end

/-- Without a full-text index every search goes through `LIKE`. -/
def likeDeps : MemoryDeps Unit where
  py := .ascii
  sha256Hex _ := ""
  resolvesInside _ := true
  opens _ := true
  ftsMinQueryChars := 200
  buildSafeMatchQuery _ := none
  ftsMatch _ _ := []
  embedding := none
  vecLoads := false
  nearest _ _ _ := []

theorem likeDeps_matchesOnce : likeDeps.MatchesOnce := fun _ _ => List.nodup_nil

/-- A fact and a procedure about deploying. -/
def deployMemory : Database Unit where
  facts := Dict.empty.set "f" ⟨"k", "note", "deploy on friday", none, 1, 1⟩
  procedures := Dict.empty.set "p" ⟨⟨"k", "auto_sop", "deploy with make", none, 1, 1⟩, none, 0, "active", none, none⟩

/-- With a limit of one the fact is returned and the procedure is marked as used. -/
theorem search_bumps_cut :
    ¬ ∀ (deps : MemoryDeps Unit) (db : Database Unit) (query : String) (layers : Option (List String))
      (limit : Int) (perLayerLimits : Option (Dict String Int)) (now : Int), deps.MatchesOnce →
      ∀ id, (db.search deps query layers limit perLayerLimits now).2.usage id =
        if id ∈ procedureIds (db.search deps query layers limit perLayerLimits now).1 then
          (db.usage id).map (usedOnce now)
        else db.usage id := by
  intro h
  have hp := h likeDeps deployMemory "deploy" none 1 none 5 likeDeps_matchesOnce "p"
  revert hp
  decide +kernel

/-- With a limit of ten both are returned. -/
theorem search_bumps_returned :
    (deployMemory.search likeDeps "deploy" none 10 none 5).2.usage "p" = some (1, some 5) := by
  have hbumps := (search_bumps_iff likeDeps deployMemory "deploy" none 10 none 5 likeDeps_matchesOnce).mpr
    (.inr (.inr (by decide +kernel)))
  have hreturned : "p" ∈ procedureIds (deployMemory.search likeDeps "deploy" none 10 none 5).1 := by
    decide +kernel
  rw [hbumps "p", if_pos hreturned]
  decide +kernel

end Database

end PyClaw
