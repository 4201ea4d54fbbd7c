import PyClaw.Curator.Operations
import PyClaw.Memory.Isolation

/-!
# Curator.Review

`run_llm_review` on whatever text the model returns: `_parse_review_decisions` reads it, and the loop applies
what it has read, item by item, with the values of the fields as they came.

* `applyDecision_effect`: what one item can do to the table and to the numbers.
* `reviewItems_accepted`, `statusChanges_le_one`, `changed_reviewLoop`: what the loop does with items whose
  ids are distinct.
* `review_robust_iff`: the review is as robust as it should be exactly if it passes over every item that is
  malformed or repeats an id.
-/

namespace PyClaw

/-! ## The text of the model -/

/-- The `json` module, `repr` of a list, and whether SQLite takes a text (not if it has a lone surrogate). -/
structure ReviewDeps where
  json : JsonModule
  reprList : List Json → String
  storable : String → Bool

/-- What is between the first two fences, without the white space around it; the text if there are none. -/
def fenced (isSpace : Char → Bool) (text : List Char) : List Char :=
  match splitFirst "```".toList text with
  | none => text
  | some (_, rest) =>
    let body := if "json".toList <+: rest then rest.drop 4 else rest
    match splitFirst "```".toList body with
    | none => text
    | some (inside, _) => strip isSpace inside

/-- `\[[\s\S]*\]`: from the first opening bracket to the last closing one. -/
def bracketed (text : List Char) : Option (List Char) :=
  match text.dropWhile (· ≠ '[') with
  | [] => none
  | c :: rest => if ']' ∈ rest then some (c :: (rest.reverse.dropWhile (· ≠ ']')).reverse) else none

def Json.items : Json → List Json
  | .arr items => items
  | _ => []

/-- The items that `_parse_review_decisions` goes through; an error is one that it does not catch. -/
def ReviewDeps.readItems (deps : ReviewDeps) (py : PyText) (llmOutput : String) :
    Except LoadsError (List Json) :=
  let text := fenced py.isSpace (strip py.isSpace llmOutput.toList)
  match deps.json.loads (String.ofList text) with
  | .ok v => .ok v.items
  | .error .other => .error .other
  | .error .jsonDecodeError =>
    match bracketed text with
    | none => .ok []
    | some array =>
      match deps.json.loads (String.ofList array) with
      | .ok v => .ok v.items
      | .error .other => .error .other
      | .error .jsonDecodeError => .ok []

/-- `ReviewDecision` as `_parse_review_decisions` makes it: only the decision is known to be a text. -/
structure ItemDecision where
  id : Json
  decision : String
  reason : Json

inductive ReviewError where
  | lockLost
  /-- `json.loads` raises something else than `JSONDecodeError`. -/
  | unreadable
  | typeError
  | unicodeEncodeError
  deriving DecidableEq, Repr

inductive DecisionFate where
  | skip
  | raises
  | promote (row : SelectedRow)
  | archive (row : SelectedRow) (reason : String)

/-- The answers at the item of an index, and the time. -/
structure ReviewHost where
  aliveAtEntry : Bool := true
  aliveAtRequest : Bool := true
  clock : Nat → Int := fun _ => 0
  answers : Nat → LifecycleAnswer := fun _ => {}

structure ReviewRun (V : Type) where
  state : LifecycleState V
  promoted : Nat := 0
  archived : Nat := 0
  failed : Nat := 0

section
variable {V : Type} (cfg : LifecycleConfig V) (deps : ReviewDeps)

/-- One round of the loop of `_parse_review_decisions`. -/
def parseItem : Json → Option ItemDecision
  | .obj fields =>
    match (fields.lookup "decision").getD (.str "") with
    | .str decision =>
      if decision ∈ cfg.curator.llmReviewActions ∨ decision = "keep" then
        some { id := (fields.lookup "id").getD (.str ""), decision := decision
               reason := (fields.lookup "reason").getD (.str "") }
      else none
    | _ => none
  | _ => none

/-- `f"llm_review: {reason[:100]}"`, which raises for what has no slices. -/
def reasonText : Json → Option String
  | .str reason => some ("llm_review: " ++ String.ofList (reason.toList.take 100))
  | .arr items => some ("llm_review: " ++ deps.reprList (items.take 100))
  | _ => none

variable (rows : List SelectedRow)

/-- What the loop does about a decision. A list or an object is no key of a dictionary. -/
def fate (d : ItemDecision) : DecisionFate :=
  match d.id with
  | .arr _ | .obj _ => .raises
  | .str id =>
    match rows.find? fun r => r.1 = id with
    | none => .skip
    | some row =>
      if d.decision = "promote" ∧ "promote" ∈ cfg.curator.llmReviewActions then
        if cfg.curator.graduationEnabled then .promote row else .skip
      else if d.decision = "archive" ∧ "archive" ∈ cfg.curator.llmReviewActions then
        match reasonText deps d.reason with
        | some reason => .archive row reason
        | none => .raises
      else .skip
  | _ => .skip

/-- One round of the loop of `run_llm_review`. -/
def applyDecision (run : ReviewRun V) (d : ItemDecision) (now : Int) (answer : LifecycleAnswer) :
    ReviewRun V × Option ReviewError :=
  match fate cfg deps rows d with
  | .skip => (run, none)
  | .raises => (run, some .typeError)
  | .promote row =>
    match run.state.graduateSingleSop cfg row answer with
    | none => ({ run with failed := run.failed + 1 }, none)
    | some dir =>
      let written := run.state.writeSkill row dir
      if answer.alive then
        ({ run with state := ((written.markGraduated row).run cfg (.indexRemove row.2.sessionKey row.1) answer).1
                    promoted := run.promoted + 1 }, none)
      else ({ run with state := written }, some .lockLost)
  | .archive row reason =>
    if answer.alive then
      if deps.storable reason then
        let marked := run.state.update (fun id _ => id = row.1) fun r => r.archive now (some reason)
        ({ run with state := (marked.run cfg (.indexRemove row.2.sessionKey row.1) answer).1
                    archived := run.archived + 1 }, none)
      else (run, some .unicodeEncodeError)
    else (run, some .lockLost)

variable (host : ReviewHost)

def reviewLoop : ReviewRun V → List (ItemDecision × Nat) → ReviewRun V × Option ReviewError
  | run, [] => (run, none)
  | run, p :: rest =>
    match applyDecision cfg deps rows run p.1 (host.clock p.2) (host.answers p.2) with
    | (run', none) => reviewLoop run' rest
    | (run', some e) => (run', some e)

/-- `_parse_review_decisions` on items with their index. -/
def parseReviewDecisions (items : List (Json × Nat)) : List (ItemDecision × Nat) :=
  items.filterMap fun p => (parseItem cfg p.1).map (·, p.2)

/-- The entries that the model is asked about. -/
def LifecycleState.reviewRows (s : LifecycleState V) : List SelectedRow :=
  Sql.limit cfg.curator.llmReviewMaxBatch (Sql.orderDesc (fun r => r.2.useCount)
    (s.db.selectWhere fun _ row => cfg.isCandidate .review row))

/-- `run_llm_review` with what has been read of the reply; none when the call fails. -/
def reviewWith (s : LifecycleState V) (reply : Option (Except LoadsError (List (Json × Nat)))) :
    LifecycleState V × Except ReviewError ReviewOutcome :=
  if host.aliveAtEntry = false then (s, .error .lockLost)
  else
    let rows := s.reviewRows cfg
    if rows = [] then (s, .ok {})
    else if host.aliveAtRequest = false then (s, .error .lockLost)
    else
      match reply with
      | none => (s, .ok { entriesReviewed := rows.length, failedCount := 1 })
      | some (.error _) => (s, .error .unreadable)
      | some (.ok items) =>
        let r := reviewLoop cfg deps rows host { state := s } (parseReviewDecisions cfg items)
        (r.1.state,
          match r.2 with
          | some e => .error e
          | none => .ok
            { entriesReviewed := rows.length, promotedCount := r.1.promoted
              archivedCount := r.1.archived, failedCount := r.1.failed })

/-- `run_llm_review`, by the text that the model returns. -/
def runLlmReview (s : LifecycleState V) (reply : Option String) :
    LifecycleState V × Except ReviewError ReviewOutcome :=
  reviewWith cfg deps host s (reply.map fun text => (deps.readItems cfg.deps.py text).map (·.zipIdx))

/-! ## Robustness -/

/-- The decision of an item none of whose fields is missing (the reason, if it is required), null or of a
wrong type, and whose reason can be stored if it is to be. -/
def wellFormed (reasonRequired : Bool) : Json → Option ReviewDecision
  | .obj fields =>
    match fields.lookup "id", fields.lookup "decision",
      if reasonRequired then fields.lookup "reason" else some ((fields.lookup "reason").getD (.str "")) with
    | some (.str id), some (.str decision), some (.str reason) =>
      if (decision ∈ cfg.curator.llmReviewActions ∨ decision = "keep") ∧
          (decision = "archive" → (reasonText deps (.str reason)).any deps.storable = true) then
        some { id, decision, reason }
      else none
    | _, _, _ => none
  | _ => none

/-- The id of an item that is to be applied: well formed, a candidate's, and not that of an item before. -/
def acceptedId (reasonRequired : Bool) (seen : List String) (item : Json) : Option String :=
  match wellFormed cfg deps reasonRequired item with
  | some d => if d.id ∈ rows.map Prod.fst ∧ d.id ∉ seen then some d.id else none
  | none => none

def accepted (reasonRequired : Bool) : List String → List (Json × Nat) → List (Json × Nat)
  | _, [] => []
  | seen, p :: rest =>
    match acceptedId cfg deps rows reasonRequired seen p.1 with
    | some id => p :: accepted reasonRequired (id :: seen) rest
    | none => accepted reasonRequired seen rest

/-- The other items: malformed, of an unknown id or of a repeated one. -/
def rejected (reasonRequired : Bool) : List String → List (Json × Nat) → List (Json × Nat)
  | _, [] => []
  | seen, p :: rest =>
    match acceptedId cfg deps rows reasonRequired seen p.1 with
    | some id => rejected reasonRequired (id :: seen) rest
    | none => p :: rejected reasonRequired seen rest

/-- The item is dropped or leads to nothing. -/
def PassesOver (item : Json) : Prop := ∀ d ∈ parseItem cfg item, fate cfg deps rows d = .skip

def LifecycleState.status (s : LifecycleState V) (id : String) : Option String :=
  (s.db.procedures.get? id).map ProcedureRow.status

/-- How often the loop changes the status of an entry. -/
def statusChanges (id : String) : ReviewRun V → List (ItemDecision × Nat) → Nat
  | _, [] => 0
  | run, p :: rest =>
    let r := applyDecision cfg deps rows run p.1 (host.clock p.2) (host.answers p.2)
    (if r.1.state.status id = run.state.status id then 0 else 1) +
      (if r.2.isSome then 0 else statusChanges id r.1 rest)

/-- The number of entries with another status. -/
def changed (s s' : LifecycleState V) : Nat :=
  s.db.procedures.items.countP fun p => s'.status p.1 ≠ some p.2.status

/-- The review of a text is that of the items it should apply; it changes only candidates, each of them once
at most, and as many as it reports. -/
structure Robust (reasonRequired : Bool) (s : LifecycleState V) (text : String) : Prop where
  skips : runLlmReview cfg deps host s (some text) = reviewWith cfg deps host s (some (.ok
    (accepted cfg deps (s.reviewRows cfg) reasonRequired []
      (match deps.readItems cfg.deps.py text with
        | .ok items => items.zipIdx
        | .error _ => []))))
  once : ∀ items, deps.readItems cfg.deps.py text = .ok items → ∀ id,
    statusChanges cfg deps (s.reviewRows cfg) host id { state := s }
      (parseReviewDecisions cfg items.zipIdx) ≤ 1
  candidates : ∀ id, id ∉ (s.reviewRows cfg).map Prod.fst →
    (runLlmReview cfg deps host s (some text)).1.db.procedures.get? id = s.db.procedures.get? id
  counted : ∀ outcome, (runLlmReview cfg deps host s (some text)).2 = .ok outcome →
    outcome.promotedCount + outcome.archivedCount =
      changed s (runLlmReview cfg deps host s (some text)).1

end

/-! ## One item -/

section
variable {V : Type} {cfg : LifecycleConfig V} {deps : ReviewDeps} {rows : List SelectedRow}
  {host : ReviewHost} {run : ReviewRun V} {d : ItemDecision}

/-- The decision is about that candidate. -/
def IsAbout (rows : List SelectedRow) (d : ItemDecision) (row : SelectedRow) : Prop :=
  row ∈ rows ∧ d.id = .str row.1

theorem fate_target {row : SelectedRow}
    (h : fate cfg deps rows d = .promote row ∨ ∃ reason, fate cfg deps rows d = .archive row reason) :
    IsAbout rows d row := by
  unfold fate at h
  split at h
  · simp at h
  · simp at h
  · rename_i id hid
    split at h
    · simp at h
    · rename_i found hfound
      have htarget : found = row := by
        split_ifs at h
        · simpa using h
        · simp at h
        · split at h
          · rename_i text _
            obtain h | ⟨reason, h⟩ := h
            · cases h
            · cases h
              rfl
          · simp at h
        · simp at h
      subst htarget
      refine ⟨List.mem_of_find?_eq_some hfound, ?_⟩
      have hsame : found.1 = id := by simpa using List.find?_some hfound
      rw [hid, hsame]
  · simp at h

/-- A typed decision has the fate that the review of well-typed decisions gives it. -/
theorem fate_typed (decision : ReviewDecision) :
    fate cfg deps rows ⟨.str decision.id, decision.decision, .str decision.reason⟩ =
      match cfg.reviewAction rows decision with
      | .keep => .skip
      | .promote row => .promote row
      | .archive row =>
        .archive row ("llm_review: " ++ String.ofList (decision.reason.toList.take 100)) := by
  simp only [fate, LifecycleConfig.reviewAction, reasonText]
  cases rows.find? fun r => r.1 = decision.id with
  | none => rfl
  | some row =>
    simp only
    split_ifs <;> rfl

/-- An item leaves the table and the numbers, or takes the candidate that it is about out of the active
entries and counts it. -/
theorem applyDecision_effect (run : ReviewRun V) (d : ItemDecision) (now : Int) (answer : LifecycleAnswer) :
    let r := applyDecision cfg deps rows run d now answer
    (r.1.state.db = run.state.db ∧ r.1.promoted + r.1.archived = run.promoted + run.archived) ∨
      (r.1.promoted + r.1.archived = run.promoted + run.archived + 1 ∧
        ∃ row f, IsAbout rows d row ∧ (∀ p : ProcedureRow, (f p).status ≠ "active") ∧
          r.1.state.db = run.state.db.updateWhere (fun id _ => id = row.1) f) := by
  intro r
  simp only [r, applyDecision]
  split
  · exact .inl ⟨rfl, rfl⟩
  · exact .inl ⟨rfl, rfl⟩
  · rename_i row hfate
    split
    · exact .inl ⟨rfl, rfl⟩
    · split
      · refine .inr ⟨by simp only; omega, row, ProcedureRow.graduate, fate_target (.inl hfate), ?_, rfl⟩
        intro p
        simp [ProcedureRow.graduate]
      · exact .inl ⟨rfl, rfl⟩
  · rename_i row reason hfate
    split
    · split
      · refine .inr ⟨by simp only; omega, row, fun p => p.archive now (some reason),
          fate_target (.inr ⟨reason, hfate⟩), ?_, rfl⟩
        intro p
        simp [ProcedureRow.archive]
      · exact .inl ⟨rfl, rfl⟩
    · exact .inl ⟨rfl, rfl⟩

theorem get?_updateWhere {db : Database V} {target id : String} {f : ProcedureRow → ProcedureRow} :
    (db.updateWhere (fun id _ => id = target) f).procedures.get? id =
      (db.procedures.get? id).map fun row => if id = target then f row else row := by
  simp [Database.updateWhere, Dict.get?_mapValues]

/-- The entries that an item is not about stay as they are. -/
theorem get?_applyDecision {id : String} (now : Int) (answer : LifecycleAnswer)
    (h : ∀ row, IsAbout rows d row → row.1 ≠ id) :
    (applyDecision cfg deps rows run d now answer).1.state.db.procedures.get? id =
      run.state.db.procedures.get? id := by
  obtain ⟨hdb, -⟩ | ⟨-, row, f, habout, -, hdb⟩ :=
    @applyDecision_effect V cfg deps rows run d now answer
  · rw [hdb]
  · rw [hdb, get?_updateWhere]
    have hne : id ≠ row.1 := fun heq => h row habout heq.symm
    simp [hne]

/-! ## The loop -/

/-- Nothing that holds of the start and that no item of the list ends is lost in the loop. -/
theorem reviewLoop_induct {P : ReviewRun V → Prop} (ds : List (ItemDecision × Nat))
    (hstep : ∀ run, P run → ∀ p ∈ ds,
      P (applyDecision cfg deps rows run p.1 (host.clock p.2) (host.answers p.2)).1)
    (hrun : P run) : P (reviewLoop cfg deps rows host run ds).1 := by
  induction ds generalizing run with
  | nil => exact hrun
  | cons p rest ih =>
    have hhead := hstep run hrun p List.mem_cons_self
    rw [reviewLoop]
    split
    · rename_i run' happly
      rw [happly] at hhead
      exact ih (fun run h q hq => hstep run h q (List.mem_cons_of_mem _ hq)) hhead
    · rename_i run' e happly
      rw [happly] at hhead
      exact hhead

/-- No two decisions of the list are about one entry. -/
def Distinct (ds : List (ItemDecision × Nat)) : Prop := ds.Pairwise fun p q => p.1.id ≠ q.1.id

theorem statusChanges_eq_zero {id : String} {ds : List (ItemDecision × Nat)}
    (h : ∀ p ∈ ds, ∀ row, IsAbout rows p.1 row → row.1 ≠ id) :
    statusChanges cfg deps rows host id run ds = 0 := by
  induction ds generalizing run with
  | nil => rfl
  | cons p rest ih =>
    have hsame := @get?_applyDecision V cfg deps rows run p.1 id (host.clock p.2) (host.answers p.2)
      (h p List.mem_cons_self)
    have hrest := fun run => @ih run (fun q hq => h q (List.mem_cons_of_mem _ hq))
    simp [statusChanges, LifecycleState.status, hsame, hrest]

theorem statusChanges_le_one {id : String} {ds : List (ItemDecision × Nat)} (hds : Distinct ds) :
    statusChanges cfg deps rows host id run ds ≤ 1 := by
  induction ds generalizing run with
  | nil => simp [statusChanges]
  | cons p rest ih =>
    rw [Distinct, List.pairwise_cons] at hds
    rw [statusChanges]
    by_cases hid : p.1.id = .str id
    · -- no decision after this one is about the entry
      have hrest := fun run => @statusChanges_eq_zero V cfg deps rows host run id rest
        (fun q hq row habout heq => hds.1 q hq (hid.trans (heq ▸ habout.2.symm)))
      simp only [hrest]
      split <;> split <;> omega
    · have hsame := @get?_applyDecision V cfg deps rows run p.1 id (host.clock p.2) (host.answers p.2)
        (fun row habout heq => hid (heq ▸ habout.2))
      have hrest := fun run => @ih run hds.2
      simp only [LifecycleState.status, hsame, if_true]
      split
      · omega
      · have := hrest (applyDecision cfg deps rows run p.1 (host.clock p.2) (host.answers p.2)).1
        omega

/-! ## Counting -/

theorem countP_succ {κ ν : Type} {l : List (κ × ν)} {p q : κ × ν → Bool} {x : κ × ν}
    (hnodup : (l.map Prod.fst).Nodup) (hx : x ∈ l) (hp : p x = false) (hq : q x = true)
    (hsame : ∀ y, y.1 ≠ x.1 → q y = p y) : l.countP q = l.countP p + 1 := by
  induction l with
  | nil => cases hx
  | cons y rest ih =>
    rw [List.map_cons, List.nodup_cons] at hnodup
    rcases List.mem_cons.mp hx with rfl | hrest
    · have hcount : rest.countP q = rest.countP p := by
        refine List.countP_congr fun z hz => ?_
        rw [hsame z fun heq => hnodup.1 (heq ▸ List.mem_map_of_mem hz)]
      simp [hcount, hp, hq]
    · have hne : y.1 ≠ x.1 := fun heq => hnodup.1 (heq ▸ List.mem_map_of_mem hrest)
      have hcount := ih hnodup.2 hrest
      rw [List.countP_cons, List.countP_cons, hcount, hsame y hne]
      omega

theorem changed_congr {s s' s'' : LifecycleState V} (h : s'.db = s''.db) : changed s s' = changed s s'' := by
  simp [changed, LifecycleState.status, h]

/-- An active entry that no longer is one counts once more. -/
theorem changed_updateWhere {s s' s'' : LifecycleState V} {row : SelectedRow}
    {f : ProcedureRow → ProcedureRow} (hrow : s.db.procedures.get? row.1 = some row.2)
    (hactive : row.2.status = "active") (hf : ∀ p : ProcedureRow, (f p).status ≠ "active")
    (hkept : s'.db.procedures.get? row.1 = some row.2)
    (hdb : s''.db = s'.db.updateWhere (fun id _ => id = row.1) f) : changed s s'' = changed s s' + 1 := by
  unfold changed
  refine countP_succ s.db.procedures.nodup (Dict.mem_items_of_get? hrow) ?_ ?_ ?_
  · simp [LifecycleState.status, hkept]
  · simp [LifecycleState.status, hdb, get?_updateWhere, hkept, hactive, hf]
  · intro y hne
    simp [LifecycleState.status, hdb, get?_updateWhere, hne]

/-- The rows are active entries of the state. -/
def AreActive (rows : List SelectedRow) (s : LifecycleState V) : Prop :=
  ∀ row ∈ rows, s.db.procedures.get? row.1 = some row.2 ∧ row.2.status = "active"

theorem areActive_reviewRows (s : LifecycleState V) : AreActive (s.reviewRows cfg) s := by
  intro row hrow
  have hselected := Sql.mem_orderDesc.mp (Sql.mem_of_mem_limit hrow)
  rw [Database.selectWhere, List.mem_filter] at hselected
  refine ⟨Dict.get?_of_mem_items hselected.1, ?_⟩
  have hcandidate := hselected.2
  simp only [LifecycleConfig.isCandidate, ProcedureRow.isAutoSop, Bool.and_eq_true, decide_eq_true_eq]
    at hcandidate
  exact hcandidate.2

/-- The numbers of the loop are those of the entries with another status, as long as the entries that the
rest of the list is about are as they were. -/
theorem changed_reviewLoop {s : LifecycleState V} (hrows : AreActive rows s)
    {ds : List (ItemDecision × Nat)} (hds : Distinct ds)
    (hkept : ∀ p ∈ ds, ∀ row, IsAbout rows p.1 row →
      run.state.db.procedures.get? row.1 = s.db.procedures.get? row.1)
    (hrun : run.promoted + run.archived = changed s run.state) :
    (reviewLoop cfg deps rows host run ds).1.promoted + (reviewLoop cfg deps rows host run ds).1.archived =
      changed s (reviewLoop cfg deps rows host run ds).1.state := by
  induction ds generalizing run with
  | nil => exact hrun
  | cons p rest ih =>
    rw [Distinct, List.pairwise_cons] at hds
    have hcount : (applyDecision cfg deps rows run p.1 (host.clock p.2) (host.answers p.2)).1.promoted +
        (applyDecision cfg deps rows run p.1 (host.clock p.2) (host.answers p.2)).1.archived =
        changed s (applyDecision cfg deps rows run p.1 (host.clock p.2) (host.answers p.2)).1.state := by
      obtain ⟨hdb, hsum⟩ | ⟨hsum, row, f, habout, hf, hdb⟩ := @applyDecision_effect V cfg deps rows run p.1
        (host.clock p.2) (host.answers p.2)
      · rw [hsum, hrun, changed_congr hdb]
      · obtain ⟨hrow, hactive⟩ := hrows row habout.1
        have hsame := hkept p List.mem_cons_self row habout
        rw [hsum, hrun, changed_updateWhere hrow hactive hf (hsame.trans hrow) hdb]
    have hrest : ∀ q ∈ rest, ∀ row, IsAbout rows q.1 row →
        (applyDecision cfg deps rows run p.1 (host.clock p.2) (host.answers p.2)).1.state.db.procedures.get?
          row.1 = s.db.procedures.get? row.1 := by
      intro q hq row habout
      rw [get?_applyDecision]
      · exact hkept q (List.mem_cons_of_mem _ hq) row habout
      · intro row' habout' heq
        exact hds.1 q hq (habout'.2.trans (heq ▸ habout.2.symm))
    rw [reviewLoop]
    split
    · rename_i run' happly
      rw [happly] at hcount hrest
      exact ih hds.2 hrest hcount
    · rename_i run' e happly
      rw [happly] at hcount
      exact hcount

/-! ## Items -/

variable {reasonRequired : Bool} {s : LifecycleState V} {text : String}

/-- A well-formed item is read as it is. -/
theorem parseItem_wellFormed {item : Json} {decision : ReviewDecision}
    (h : wellFormed cfg deps reasonRequired item = some decision) :
    parseItem cfg item = some ⟨.str decision.id, decision.decision, .str decision.reason⟩ ∧
      (decision.decision = "archive" →
        (reasonText deps (.str decision.reason)).any deps.storable = true) := by
  unfold wellFormed at h
  split at h
  · rename_i fields
    split at h
    · rename_i id verdict reason hid hverdict hreason
      split at h
      · rename_i hallowed
        obtain rfl := Option.some.inj h
        have hread : (fields.lookup "reason").getD (.str "") = .str reason := by
          split at hreason
          · rw [hreason, Option.getD_some]
          · exact Option.some.inj hreason
        refine ⟨?_, hallowed.2⟩
        simp only [parseItem, hid, hverdict, hread, Option.getD_some, if_pos hallowed.1]
      · cases h
    · cases h
  · cases h

theorem acceptedId_some {seen : List String} {item : Json} {id : String}
    (h : acceptedId cfg deps rows reasonRequired seen item = some id) :
    id ∉ seen ∧ ∃ decision : ReviewDecision, decision.id = id ∧
      parseItem cfg item = some ⟨.str id, decision.decision, .str decision.reason⟩ ∧
      (decision.decision = "archive" →
        (reasonText deps (.str decision.reason)).any deps.storable = true) := by
  unfold acceptedId at h
  split at h
  · rename_i decision hwell
    split at h
    · rename_i hfresh
      obtain rfl := Option.some.inj h
      obtain ⟨hparse, hreason⟩ := parseItem_wellFormed hwell
      exact ⟨hfresh.2, decision, rfl, hparse, hreason⟩
    · cases h
  · cases h

/-- With the lock held a well-formed item does not end the loop. -/
theorem applyDecision_wellFormed {decision : ReviewDecision} {now : Int} {answer : LifecycleAnswer}
    (halive : answer.alive = true)
    (hreason : decision.decision = "archive" →
      (reasonText deps (.str decision.reason)).any deps.storable = true) :
    (applyDecision cfg deps rows run ⟨.str decision.id, decision.decision, .str decision.reason⟩ now
      answer).2 = none := by
  have hfate := @fate_typed V cfg deps rows decision
  unfold applyDecision
  rw [hfate, LifecycleConfig.reviewAction]
  cases rows.find? fun r => r.1 = decision.id with
  | none => rfl
  | some row =>
    simp only
    split_ifs with hpromote henabled harchive
    · cases hdir : run.state.graduateSingleSop cfg row answer with
      | none => simp only [hdir]
      | some dir => simp only [hdir]
    · rfl
    · have hstored := hreason harchive.1
      simp only [reasonText, Option.any_some] at hstored
      simp [hstored]
    · rfl

/-! ## The items to be applied -/

theorem parseReviewDecisions_cons (item : Json × Nat) (rest : List (Json × Nat)) :
    parseReviewDecisions cfg (item :: rest) =
      parseReviewDecisions cfg [item] ++ parseReviewDecisions cfg rest := by
  simp only [parseReviewDecisions, List.filterMap_cons, List.filterMap_nil]
  split <;> rfl

theorem parseReviewDecisions_of_some {item : Json × Nat} {d : ItemDecision} (rest : List (Json × Nat))
    (h : parseItem cfg item.1 = some d) :
    parseReviewDecisions cfg (item :: rest) = (d, item.2) :: parseReviewDecisions cfg rest := by
  simp only [parseReviewDecisions, List.filterMap_cons, h, Option.map_some]

theorem parseReviewDecisions_of_none {item : Json × Nat} (rest : List (Json × Nat))
    (h : parseItem cfg item.1 = none) :
    parseReviewDecisions cfg (item :: rest) = parseReviewDecisions cfg rest := by
  simp only [parseReviewDecisions, List.filterMap_cons, h, Option.map_none]

theorem mem_accepted_id {seen : List String} {items : List (Json × Nat)} {p : ItemDecision × Nat}
    (h : p ∈ parseReviewDecisions cfg (accepted cfg deps rows reasonRequired seen items)) :
    ∃ id, id ∉ seen ∧ p.1.id = .str id := by
  induction items generalizing seen with
  | nil => cases h
  | cons item rest ih =>
    rw [accepted] at h
    split at h
    · rename_i id hid
      obtain ⟨hfresh, decision, -, hparse, -⟩ := acceptedId_some hid
      rw [parseReviewDecisions_of_some _ hparse] at h
      rcases List.mem_cons.mp h with rfl | h
      · exact ⟨id, hfresh, rfl⟩
      · obtain ⟨id', hfresh', hid'⟩ := ih h
        exact ⟨id', fun hmem => hfresh' (List.mem_cons_of_mem _ hmem), hid'⟩
    · exact ih h

theorem distinct_accepted (seen : List String) (items : List (Json × Nat)) :
    Distinct (parseReviewDecisions cfg (accepted cfg deps rows reasonRequired seen items)) := by
  induction items generalizing seen with
  | nil => exact List.Pairwise.nil
  | cons item rest ih =>
    rw [accepted]
    split
    · rename_i id hid
      obtain ⟨-, decision, -, hparse, -⟩ := acceptedId_some hid
      rw [parseReviewDecisions_of_some _ hparse]
      refine List.pairwise_cons.mpr ⟨?_, ih (id :: seen)⟩
      intro q hq heq
      obtain ⟨id', hfresh, hid'⟩ := mem_accepted_id hq
      rw [hid'] at heq
      obtain rfl := Json.str.inj heq
      exact hfresh List.mem_cons_self
    · exact ih seen

/-- With the lock held the loop over such items ends well. -/
theorem reviewLoop_accepted_none (halive : ∀ k, (host.answers k).alive = true) (seen : List String)
    (items : List (Json × Nat)) :
    (reviewLoop cfg deps rows host run
      (parseReviewDecisions cfg (accepted cfg deps rows reasonRequired seen items))).2 = none := by
  induction items generalizing seen run with
  | nil => rfl
  | cons item rest ih =>
    rw [accepted]
    split
    · rename_i id hid
      obtain ⟨-, decision, rfl, hparse, hreason⟩ := acceptedId_some hid
      rw [parseReviewDecisions_of_some _ hparse, reviewLoop]
      have hnone := @applyDecision_wellFormed V cfg deps rows run decision (host.clock item.2)
        (host.answers item.2) (halive item.2) hreason
      split
      · exact ih _
      · rename_i run' e happly
        rw [happly] at hnone
        cases hnone
    · exact ih seen

/-- Items that are passed over may be left out. -/
theorem reviewLoop_accepted {seen : List String} {items : List (Json × Nat)}
    (h : ∀ p ∈ rejected cfg deps rows reasonRequired seen items, PassesOver cfg deps rows p.1) :
    reviewLoop cfg deps rows host run (parseReviewDecisions cfg items) =
        reviewLoop cfg deps rows host run
          (parseReviewDecisions cfg (accepted cfg deps rows reasonRequired seen items)) ∧
      ∀ id, statusChanges cfg deps rows host id run (parseReviewDecisions cfg items) =
        statusChanges cfg deps rows host id run
          (parseReviewDecisions cfg (accepted cfg deps rows reasonRequired seen items)) := by
  induction items generalizing seen run with
  | nil => exact ⟨rfl, fun _ => rfl⟩
  | cons item rest ih =>
    rw [accepted]
    rw [rejected] at h
    split at h
    · rename_i id hid
      obtain ⟨-, decision, -, hparse, -⟩ := acceptedId_some hid
      have htail := fun run => @ih run (id :: seen) h
      simp only [parseReviewDecisions_of_some _ hparse, reviewLoop, statusChanges]
      constructor
      · split
        · exact (htail _).1
        · rfl
      · intro id'
        rw [(htail _).2 id']
    · rename_i hid
      obtain ⟨hitem, hrest⟩ := List.forall_mem_cons.mp h
      have htail := fun run => @ih run seen hrest
      cases hparse : parseItem cfg item.1 with
      | none =>
        rw [parseReviewDecisions_of_none _ hparse]
        exact htail run
      | some d =>
        have hskip : ∀ run now answer, applyDecision cfg deps rows run d now answer = (run, none) := by
          intro run now answer
          rw [applyDecision, hitem d hparse]
        simp only [parseReviewDecisions_of_some _ hparse, reviewLoop, statusChanges, hskip, if_true,
          Option.isSome_none, Bool.false_eq_true, if_false, Nat.zero_add]
        exact htail run

/-! ## The items that are passed over -/

/-- The decision is tried: the loop promotes or archives an entry, or counts a failure. -/
def acts (cfg : LifecycleConfig V) (deps : ReviewDeps) (rows : List SelectedRow)
    (p : ItemDecision × Nat) : Bool :=
  match fate cfg deps rows p.1 with
  | .promote _ | .archive _ _ => true
  | .skip | .raises => false

/-- A decision that does not end the loop does not raise, and is counted if it is tried. -/
theorem applyDecision_total {p : ItemDecision × Nat} {run' : ReviewRun V} {now : Int}
    {answer : LifecycleAnswer} (h : applyDecision cfg deps rows run p.1 now answer = (run', none)) :
    fate cfg deps rows p.1 ≠ .raises ∧
      run'.promoted + run'.archived + run'.failed = run.promoted + run.archived + run.failed +
        (if acts cfg deps rows p = true then 1 else 0) := by
  unfold applyDecision at h
  unfold acts
  split at h
  · rename_i hfate
    simp only [Prod.mk.injEq] at h
    simp [← h.1, hfate]
  · simp at h
  · rename_i row hfate
    split at h
    · simp only [Prod.mk.injEq] at h
      simp only [← h.1, hfate, if_true]
      exact ⟨by simp, by omega⟩
    · split at h
      · simp only [Prod.mk.injEq] at h
        simp only [← h.1, hfate, if_true]
        exact ⟨by simp, by omega⟩
      · simp at h
  · rename_i row reason hfate
    split at h
    · split at h
      · simp only [Prod.mk.injEq] at h
        simp only [← h.1, hfate, if_true]
        exact ⟨by simp, by omega⟩
      · simp at h
    · simp at h

/-- A loop that ends well has met no decision that raises, and counts every one that it has tried. -/
theorem reviewLoop_total {ds : List (ItemDecision × Nat)}
    (h : (reviewLoop cfg deps rows host run ds).2 = none) :
    (∀ p ∈ ds, fate cfg deps rows p.1 ≠ .raises) ∧
      (reviewLoop cfg deps rows host run ds).1.promoted +
          (reviewLoop cfg deps rows host run ds).1.archived +
          (reviewLoop cfg deps rows host run ds).1.failed =
        run.promoted + run.archived + run.failed + ds.countP (acts cfg deps rows) := by
  induction ds generalizing run with
  | nil => simp [reviewLoop]
  | cons p rest ih =>
    rw [reviewLoop] at h ⊢
    split at h
    · rename_i run' happly
      obtain ⟨hfate, hsum⟩ := applyDecision_total happly
      obtain ⟨hrest, htotal⟩ := ih h
      refine ⟨List.forall_mem_cons.mpr ⟨hfate, hrest⟩, ?_⟩
      rw [htotal, hsum, List.countP_cons]
      omega
    · cases h

theorem countP_accepted_rejected (f : ItemDecision × Nat → Bool) (seen : List String)
    (items : List (Json × Nat)) :
    (parseReviewDecisions cfg items).countP f =
      (parseReviewDecisions cfg (accepted cfg deps rows reasonRequired seen items)).countP f +
        (parseReviewDecisions cfg (rejected cfg deps rows reasonRequired seen items)).countP f := by
  induction items generalizing seen with
  | nil => rfl
  | cons item rest ih =>
    rw [accepted, rejected, parseReviewDecisions_cons, List.countP_append]
    split
    · rename_i id _
      rw [ih (id :: seen), parseReviewDecisions_cons item (accepted _ _ _ _ _ _), List.countP_append]
      omega
    · rw [ih seen, parseReviewDecisions_cons item (rejected _ _ _ _ _ _), List.countP_append]
      omega

theorem mem_of_mem_rejected {seen : List String} {items : List (Json × Nat)} {p : Json × Nat}
    (h : p ∈ rejected cfg deps rows reasonRequired seen items) : p ∈ items := by
  induction items generalizing seen with
  | nil => exact h
  | cons item rest ih =>
    rw [rejected] at h
    split at h
    · exact List.mem_cons_of_mem _ (ih h)
    · rcases List.mem_cons.mp h with rfl | h
      · exact List.mem_cons_self
      · exact List.mem_cons_of_mem _ (ih h)

/-- If the loop ends as well as with the items to be applied alone, it has passed over the others. -/
theorem passesOver_of_total {seen : List String} {items : List (Json × Nat)}
    (hnone : (reviewLoop cfg deps rows host run (parseReviewDecisions cfg items)).2 = none)
    (hsame : (parseReviewDecisions cfg items).countP (acts cfg deps rows) =
      (parseReviewDecisions cfg (accepted cfg deps rows reasonRequired seen items)).countP
        (acts cfg deps rows)) :
    ∀ p ∈ rejected cfg deps rows reasonRequired seen items, PassesOver cfg deps rows p.1 := by
  have hsplit := @countP_accepted_rejected V cfg deps rows reasonRequired (acts cfg deps rows) seen items
  have hzero : (parseReviewDecisions cfg (rejected cfg deps rows reasonRequired seen items)).countP
      (acts cfg deps rows) = 0 := by omega
  intro p hp d hd
  have hread : ∀ {items : List (Json × Nat)}, p ∈ items → (d, p.2) ∈ parseReviewDecisions cfg items := by
    intro items hmem
    refine List.mem_filterMap.mpr ⟨p, hmem, ?_⟩
    rw [Option.mem_def.mp hd, Option.map_some]
  have hquiet := List.countP_eq_zero.mp hzero (d, p.2) (hread hp)
  have hraises := (reviewLoop_total hnone).1 (d, p.2) (hread (mem_of_mem_rejected hp))
  unfold acts at hquiet
  cases hfate : fate cfg deps rows d with
  | skip => rfl
  | raises => exact absurd hfate hraises
  | promote row => simp [hfate] at hquiet
  | archive row reason => simp [hfate] at hquiet

/-! ## The review -/

/-- A review of accepted items changes only candidates, and as many as it reports. -/
theorem reviewWith_accepted (cfg : LifecycleConfig V) (deps : ReviewDeps) (host : ReviewHost)
    (s : LifecycleState V) (reasonRequired : Bool) (items : List (Json × Nat)) :
    let r := reviewWith cfg deps host s (some (.ok
      (accepted cfg deps (s.reviewRows cfg) reasonRequired [] items)))
    (∀ id, id ∉ (s.reviewRows cfg).map Prod.fst →
      r.1.db.procedures.get? id = s.db.procedures.get? id) ∧
      ∀ outcome, r.2 = .ok outcome →
        outcome.promotedCount + outcome.archivedCount = changed s r.1 := by
  have hself : changed s s = 0 := by
    refine List.countP_eq_zero.mpr fun p hp => ?_
    simp [LifecycleState.status, Dict.get?_of_mem_items hp]
  intro r
  simp only [r, reviewWith]
  split
  · simp
  · split
    · refine ⟨fun _ _ => rfl, ?_⟩
      intro outcome h
      obtain rfl := Except.ok.inj h
      simp [hself]
    · split
      · simp
      · constructor
        · intro id hid
          refine @reviewLoop_induct V cfg deps _ host { state := s }
            (fun run => run.state.db.procedures.get? id = s.db.procedures.get? id) _ ?_ rfl
          intro run hrun p _
          rw [get?_applyDecision, hrun]
          intro row habout heq
          exact hid (heq ▸ List.mem_map_of_mem habout.1)
        · have hds : Distinct (parseReviewDecisions cfg
              (accepted cfg deps (s.reviewRows cfg) reasonRequired [] items)) := distinct_accepted [] items
          have hcount := @changed_reviewLoop V cfg deps (s.reviewRows cfg) host { state := s } s
            (areActive_reviewRows s) _ hds (fun _ _ _ _ => rfl) hself.symm
          intro outcome h
          split at h
          · cases h
          · obtain rfl := Except.ok.inj h
            exact hcount

/-- On a host on which the lock is held throughout: a robust review can read the text, and passes over the
items that are not to be applied. -/
theorem passesOver_of_robust (hrows : s.reviewRows cfg ≠ [])
    (h : Robust cfg deps {} reasonRequired s text) :
    ∃ items, deps.readItems cfg.deps.py text = .ok items ∧
      ∀ p ∈ rejected cfg deps (s.reviewRows cfg) reasonRequired [] items.zipIdx,
        PassesOver cfg deps (s.reviewRows cfg) p.1 := by
  have hskips := h.skips
  simp only [runLlmReview, reviewWith, if_neg hrows, Option.map_some] at hskips
  cases hread : deps.readItems cfg.deps.py text with
  | error e => simp [hread, Except.map, accepted, parseReviewDecisions, reviewLoop] at hskips
  | ok items =>
    have haccepted := @reviewLoop_accepted_none V cfg deps (s.reviewRows cfg) {} { state := s }
      reasonRequired (fun _ => rfl) [] items.zipIdx
    simp only [hread, Except.map, haccepted] at hskips
    have hresult := congrArg Prod.snd hskips
    cases hend : (reviewLoop cfg deps (s.reviewRows cfg) {} { state := s }
        (parseReviewDecisions cfg items.zipIdx)).2 with
    | some e => simp [hend] at hresult
    | none =>
      simp only [hend] at hresult
      obtain ⟨-, hpromoted, harchived, hfailed⟩ := ReviewOutcome.mk.inj (Except.ok.inj hresult)
      have htotal := (reviewLoop_total hend).2
      have htotal' := (reviewLoop_total haccepted).2
      exact ⟨items, rfl, passesOver_of_total hend (by omega)⟩

/-- Passing over items a review does what it does without them. -/
theorem robust_of_passesOver (h : s.reviewRows cfg = [] ∨ ∃ items,
      deps.readItems cfg.deps.py text = .ok items ∧
        ∀ p ∈ rejected cfg deps (s.reviewRows cfg) reasonRequired [] items.zipIdx,
          PassesOver cfg deps (s.reviewRows cfg) p.1) :
    Robust cfg deps host reasonRequired s text := by
  have hskips : runLlmReview cfg deps host s (some text) = reviewWith cfg deps host s (some (.ok
      (accepted cfg deps (s.reviewRows cfg) reasonRequired []
        (match deps.readItems cfg.deps.py text with
          | .ok items => items.zipIdx
          | .error _ => [])))) := by
    obtain hrows | ⟨items, hread, hpass⟩ := h
    · simp [runLlmReview, reviewWith, hrows]
    · simp only [runLlmReview, reviewWith, Option.map_some, hread, Except.map,
        (reviewLoop_accepted hpass).1]
  obtain ⟨hcandidates, hcounted⟩ := reviewWith_accepted cfg deps host s reasonRequired
    (match deps.readItems cfg.deps.py text with
      | .ok items => items.zipIdx
      | .error _ => [])
  rw [← hskips] at hcandidates hcounted
  refine ⟨hskips, ?_, hcandidates, hcounted⟩
  intro items hread id
  obtain hrows | ⟨items', hread', hpass⟩ := h
  · rw [statusChanges_eq_zero]
    · omega
    · intro p _ row habout
      rw [hrows] at habout
      exact absurd habout.1 List.not_mem_nil
  · obtain rfl := Except.ok.inj (hread'.symm.trans hread)
    rw [(reviewLoop_accepted hpass).2 id]
    exact statusChanges_le_one (distinct_accepted [] _)

/-- The review is robust exactly if there is nothing to review, or the text is readable and every item that
is not to be applied is passed over. -/
theorem review_robust_iff (cfg : LifecycleConfig V) (deps : ReviewDeps) (reasonRequired : Bool)
    (s : LifecycleState V) (text : String) :
    (∀ host, Robust cfg deps host reasonRequired s text) ↔
      s.reviewRows cfg = [] ∨ ∃ items, deps.readItems cfg.deps.py text = .ok items ∧
        ∀ p ∈ rejected cfg deps (s.reviewRows cfg) reasonRequired [] items.zipIdx,
          PassesOver cfg deps (s.reviewRows cfg) p.1 := by
  constructor
  · intro h
    by_cases hrows : s.reviewRows cfg = []
    · exact .inl hrows
    · exact .inr (passesOver_of_robust hrows (h {}))
  · exact fun h host => robust_of_passesOver h

end

/-! ## A null reason -/

/-- The text of an answer with a null reason, and what `json.loads` makes of it. -/
def nullReasonText : String :=
  "[\x7b\"id\": \"a\", \"decision\": \"archive\", \"reason\": null\x7d, " ++
    "\x7b\"id\": \"b\", \"decision\": \"archive\", \"reason\": \"old\"\x7d]"

def nullReasonItems : Json :=
  .arr [.obj [("id", .str "a"), ("decision", .str "archive"), ("reason", .null)],
    .obj [("id", .str "b"), ("decision", .str "archive"), ("reason", .str "old")]]

/-- Reads that text, and no other. -/
def nullReasonDeps : ReviewDeps where
  json :=
    { loads s := if s = nullReasonText then .ok nullReasonItems else .error .jsonDecodeError
      dumps _ := nullReasonText
      loads_dumps s v h := by
        split at h
        · obtain rfl := Except.ok.inj h
          exact ⟨nullReasonItems, if_pos rfl, rfl⟩
        · cases h }
  reprList _ := ""
  storable _ := true

def twoCandidates : LifecycleState Unit where
  db :=
    { procedures := (Dict.empty.set "a"
          ⟨⟨"k", "auto_sop", "first", none, 1, 1⟩, none, 0, "active", none, none⟩).set "b"
        ⟨⟨"k", "auto_sop", "second", none, 1, 1⟩, none, 0, "active", none, none⟩ }

/-- The null reason of the first item ends the review, and the second one is not archived. -/
theorem nullReason_not_robust :
    ¬ ∀ (cfg : LifecycleConfig Unit) (deps : ReviewDeps) (reasonRequired : Bool) (s : LifecycleState Unit)
      (text : String) (host : ReviewHost), Robust cfg deps host reasonRequired s text := by
  intro h
  have hskips := (h { deps := sampleMemoryDeps, curator := { llmReviewActions := ["promote", "archive"] } }
    nullReasonDeps false twoCandidates nullReasonText {}).skips
  have hstatus := congrArg (fun r => r.1.status "b") hskips
  revert hstatus
  decide +kernel

end PyClaw
