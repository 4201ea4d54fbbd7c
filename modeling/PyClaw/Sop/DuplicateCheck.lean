import PyClaw.Lib.Machine
import PyClaw.Memory.Usage
import PyClaw.Sop.Content

/-!
# Sop.DuplicateCheck

The loop of `extract_sop_background` over the SOPs of the model: each valid one is looked up in the memory
(`_is_duplicate`) and stored if it is new. The look-up is a search of the store, which marks what it finds.

* `isDuplicate_usage_iff`: one look-up leaves every use count and last use alone if it finds nothing.
* `extraction_leaves_usage_iff`: the same along the whole loop, in which earlier SOPs have been stored.
-/

namespace PyClaw

/-- `jieba.cut_for_search`, and the division of integers. -/
structure Tokenizer where
  cutForSearch : String → List String
  divide : Nat → Nat → Rat

/-- The set of tokens of `_jaccard_overlap`. -/
def tokenSet (py : PyText) (tok : Tokenizer) (text : String) : List String :=
  ((tok.cutForSearch text).filterMap fun t =>
    let stripped := strip py.isSpace t.toList
    if stripped = [] then none else some (py.lower (String.ofList stripped))).dedup

/-- `_jaccard_overlap`. -/
def jaccardOverlap (py : PyText) (tok : Tokenizer) (a b : String) : Rat :=
  let tokensA := tokenSet py tok a
  let tokensB := tokenSet py tok b
  if tokensA.length < 2 ∨ tokensB.length < 2 then 0
  else tok.divide (tokensA.filter fun t => t ∈ tokensB).length (tokensA ∪ tokensB).length

/-- One SOP of the model, with the times of its look-up and of its entry, and the `uuid4` of that. -/
structure ExtractedSop where
  sop : Json
  searchedAt : Int
  id : String
  storedAt : Int

structure ExtractionSettings where
  descriptionMaxChars : Int := 150
  procedureMaxChars : Int := 5000
  maxSopsPerExtraction : Int := 5
  dedupOverlapThreshold : Rat

section
variable {V : Type} (deps : MemoryDeps V) (tok : Tokenizer) (settings : ExtractionSettings)
  (sessionKey sessionId : String)

/-- The first 200 characters. -/
def dedupQuery (content : String) : String := String.ofList (content.toList.take 200)

/-- `_is_duplicate`; a search that raises finds no duplicate. -/
def isDuplicateSop (b : SqliteMemoryBackend V) (content : String) (now : Int) :
    Bool × SqliteMemoryBackend V :=
  let r := b.perform deps sessionKey (.search (dedupQuery content) (some ["L3"]) 1 none now)
  match r.1.foundEntries with
  | [] => (false, r.2)
  | e :: _ =>
    if content.toList.length < 20 then
      (occurs (strip deps.py.isSpace content.toList) e.content.toList, r.2)
    else (settings.dedupOverlapThreshold ≤ jaccardOverlap deps.py tok content e.content, r.2)

/-- The content that is looked up, for a SOP that is valid. -/
def checkedContent (s : ExtractedSop) : Option String :=
  match validateSop deps.py s.sop settings.descriptionMaxChars settings.procedureMaxChars with
  | .error _ => none
  | .ok _ => formatSopContent deps.py s.sop

/-- One round of the loop. -/
def extractStep (b : SqliteMemoryBackend V) (s : ExtractedSop) : SqliteMemoryBackend V :=
  match checkedContent deps settings s with
  | none => b
  | some content =>
    let r := isDuplicateSop deps tok settings sessionKey b content s.searchedAt
    if r.1 then r.2
    else (r.2.perform deps sessionKey (.store
      { id := s.id, layer := .l3, type := "auto_sop", content := content
        sourceSessionId := some sessionId, createdAt := s.storedAt, updatedAt := s.storedAt })).2

/-- The loop, over the first `max_sops` SOPs. -/
def extractSops (b : SqliteMemoryBackend V) (sops : List ExtractedSop) : SqliteMemoryBackend V :=
  runFrom (extractStep deps tok settings sessionKey sessionId) b
    (sliceTo settings.maxSopsPerExtraction sops)

/-- No active procedure of the session's database matches the content. -/
def FindsNothing (b : SqliteMemoryBackend V) (content : String) : Prop :=
  ∀ dbName b', b.getConn deps sessionKey = .ok (dbName, b') →
    (b.files dbName).procedureHits deps (dedupQuery content) (-1) = []

end

/-! ## One look-up -/

section
variable {V : Type} {deps : MemoryDeps V} {tok : Tokenizer} {settings : ExtractionSettings}
  {sessionKey sessionId : String}

/-- Opening a connection changes no file. -/
theorem files_of_getConn {b b' : SqliteMemoryBackend V} {dbName : String}
    (h : b.getConn deps sessionKey = .ok (dbName, b')) : b'.files = b.files := by
  rw [SqliteMemoryBackend.getConn] at h
  split at h
  · obtain ⟨-, rfl⟩ := Prod.mk.inj (Except.ok.inj h)
    rfl
  · split at h
    · cases h
    · split at h
      · split at h
        · obtain ⟨-, rfl⟩ := Prod.mk.inj (Except.ok.inj h)
          rfl
        · cases h
      · cases h

theorem isDuplicateSop_snd (b : SqliteMemoryBackend V) (content : String) (now : Int) :
    (isDuplicateSop deps tok settings sessionKey b content now).2 =
      (b.perform deps sessionKey (.search (dedupQuery content) (some ["L3"]) 1 none now)).2 := by
  rw [isDuplicateSop]
  split
  · rfl
  · split <;> rfl

/-- One hit is looked up: there is none exactly if nothing matches. -/
theorem procedureHits_one_iff {db : Database V} {query : String} :
    db.procedureHits deps query 1 = [] ↔ db.procedureHits deps query (-1) = [] := by
  have hlimit : ∀ {α : Type} (rows : List α), Sql.limit 1 rows = [] ↔ Sql.limit (-1) rows = [] := by
    intro α rows
    cases rows with
    | nil => simp [Sql.limit]
    | cons r rest => simp [Sql.limit]
  unfold Database.procedureHits MemoryDeps.searchRows
  split
  · rw [List.map_eq_nil_iff, List.map_eq_nil_iff]
    exact hlimit _
  · split
    · rfl
    · exact hlimit _

/-- A look-up uses no entry exactly if it finds none. -/
theorem isDuplicate_usage_iff (b : SqliteMemoryBackend V) (content : String) (now : Int) :
    (∀ dbName id, ((isDuplicateSop deps tok settings sessionKey b content now).2.files dbName).usage id =
      (b.files dbName).usage id) ↔ FindsNothing deps sessionKey b content := by
  have hperform : b.perform deps sessionKey (.search (dedupQuery content) (some ["L3"]) 1 none now) =
      b.onConn deps sessionKey (.search (dedupQuery content) (some ["L3"]) 1 none now) := rfl
  rw [isDuplicateSop_snd, hperform, SqliteMemoryBackend.onConn]
  cases hconn : b.getConn deps sessionKey with
  | error e =>
    refine iff_of_true (fun _ _ => rfl) fun dbName b' h => ?_
    rw [hconn] at h
    cases h
  | ok opened =>
    obtain ⟨dbName, b'⟩ := opened
    have hfiles := files_of_getConn hconn
    have hfinds : FindsNothing deps sessionKey b content ↔
        (b.files dbName).procedureHits deps (dedupQuery content) 1 = [] := by
      rw [procedureHits_one_iff, FindsNothing]
      constructor
      · exact fun h => h dbName b' hconn
      · intro h dbName' b'' h'
        rw [hconn] at h'
        obtain ⟨rfl, -⟩ := Prod.mk.inj (Except.ok.inj h')
        exact h
    have hfound : (b.files dbName).proceduresFound deps (dedupQuery content) (some ["L3"]) 1 none =
        (b.files dbName).procedureHits deps (dedupQuery content) 1 := if_pos (by simp)
    rw [hfinds]
    simp only [Database.perform, hfiles]
    constructor
    · intro h
      by_contra hsome
      -- The row found is used once more.
      obtain ⟨r, hr⟩ := List.exists_mem_of_ne_nil _ hsome
      have hused := h dbName r.1.1
      rw [Function.update_self, Database.usage_search, hfound, if_pos (List.mem_map_of_mem hr)] at hused
      exact Database.usedOnce_ne_of_hit hr now hused
    · intro hnone file id
      by_cases hfile : file = dbName
      · subst hfile
        rw [Function.update_self, Database.usage_search, hfound, hnone]
        simp
      · rw [Function.update_of_ne hfile]

/-! ## The loop -/

/-- The look-ups of the loop leave every use count and last use alone exactly if none of them finds an
active procedure. -/
theorem extraction_leaves_usage_iff (deps : MemoryDeps V) (tok : Tokenizer) (settings : ExtractionSettings)
    (sessionKey sessionId : String) (b : SqliteMemoryBackend V) (sops : List ExtractedSop) :
    Along (extractStep deps tok settings sessionKey sessionId)
        (fun b s => ∀ content, checkedContent deps settings s = some content → ∀ dbName id,
          ((isDuplicateSop deps tok settings sessionKey b content s.searchedAt).2.files dbName).usage id =
            (b.files dbName).usage id) b (sliceTo settings.maxSopsPerExtraction sops) ↔
      Along (extractStep deps tok settings sessionKey sessionId)
        (fun b s => ∀ content, checkedContent deps settings s = some content →
          FindsNothing deps sessionKey b content) b (sliceTo settings.maxSopsPerExtraction sops) := by
  refine along_iff_of_invariant (I := fun _ => True) ?_ (fun _ _ _ _ => trivial) trivial
  intro b s _
  exact forall_congr' fun content => forall_congr' fun _ => isDuplicate_usage_iff b content s.searchedAt

end

/-- Cuts the text into its characters. -/
def charTokenizer : Tokenizer where
  cutForSearch text := text.toList.map fun c => String.ofList [c]
  divide a b := a / b

/-- A memory in which `oneLineSop` has been stored already, and a session that has it open. -/
def knownSopBackend : SqliteMemoryBackend Unit where
  connections := Dict.empty.set "k" "k.db"
  files _ :=
    { procedures := Dict.empty.set "p"
        ⟨⟨"k", "auto_sop", "deploy-app\nDeploy, then check.\nRun the script.", none, 1, 1⟩,
          none, 0, "active", none, none⟩ }

/-- The SOP is extracted once more: the entry that has it counts one use more. -/
theorem extraction_uses_known :
    ¬ ∀ (deps : MemoryDeps Unit) (tok : Tokenizer) (settings : ExtractionSettings)
      (sessionKey sessionId : String) (b : SqliteMemoryBackend Unit) (sops : List ExtractedSop),
      Along (extractStep deps tok settings sessionKey sessionId)
        (fun b s => ∀ content, checkedContent deps settings s = some content → ∀ dbName id,
          ((isDuplicateSop deps tok settings sessionKey b content s.searchedAt).2.files dbName).usage id =
            (b.files dbName).usage id) b (sliceTo settings.maxSopsPerExtraction sops) := by
  intro h
  have hrun := h Database.likeDeps charTokenizer { dedupOverlapThreshold := 3 / 5 } "k" "s" knownSopBackend
    [⟨oneLineSop, 5, "q", 5⟩]
  have hused := hrun.1 "deploy-app\nDeploy, then check.\nRun the script." (by decide +kernel) "k.db" "p"
  revert hused
  decide +kernel

end PyClaw
