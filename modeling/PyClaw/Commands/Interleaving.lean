import Mathlib.Logic.Function.Basic
import PyClaw.Agent.Invariant
import PyClaw.Commands.Builtin
import PyClaw.Lib.Machine

/-!
# Commands.Interleaving

A run and commands that write to the same session, in any interleaving. A run keeps the tree it
loaded at its start; a command keeps the tree it loaded until it appends. `noOrphans_iff_timely`:
no message is orphaned in any state of the run exactly when no command appends after messages that
are not on the branch it has loaded.
-/

namespace PyClaw

/-- The store, the running agent's tree, the trees that pending commands loaded, and the message
entries whose append succeeded. -/
structure Writers where
  store : InMemorySessionStore
  draws : Nat := 0
  run : Option SessionTree := none
  pending : Nat → Option SessionTree := fun _ => none
  messages : List SessionEntry := []

inductive WriterStep where
  /-- A run begins: `ensure_session`. -/
  | runStarts
  | runAppends (m : MessageBody)
  | runCompacts (summary : String) (tokensBefore : Int)
  /-- Command `k` loads the session. -/
  | commandLoads (k : Nat)
  | modelAppends (k : Nat) (available : Dict String (List String)) (target : String)
  | compactAppends (k : Nat) (r : CompactResult)

def WriterStep.isCommand : WriterStep → Bool
  | .modelAppends _ _ _ => true
  | .compactAppends _ _ => true
  | _ => false

def Item.appendedMessage? : Item → Option SessionEntry
  | .appended e _ _ => if e.message?.isSome then some e else none
  | _ => none

namespace Writers

variable (deps : AgentRunnerDeps) (request : RunRequest)

/-- The state of the running agent. -/
def runState (w : Writers) (tree : SessionTree) : RunState where
  tree := tree
  store := w.store
  draws := w.draws
  terminatedBy := "done"

/-- The running agent executes `m`. -/
def runWith (w : Writers) (m : Run Unit) : Writers :=
  match w.run with
  | none => w
  | some tree =>
    let o := m (w.runState tree)
    { w with
      store := o.state.store
      draws := o.state.draws
      run := some o.state.tree
      messages := w.messages ++ o.log.filterMap Item.appendedMessage? }

/-- Command `k` writes and ends; a `KeyError` leaves the store as it was. -/
def commandWith (w : Writers) (k : Nat)
    (cmd : SessionTree → InMemorySessionStore → Nat → Option InMemorySessionStore) : Writers :=
  match w.pending k with
  | none => w
  | some tree =>
    { w with
      store := (cmd tree w.store w.draws).getD w.store
      draws := (generateEntryId deps.secrets tree.entries.keys w.draws).2
      pending := Function.update w.pending k none }

def step (w : Writers) : WriterStep → Writers
  | .runStarts =>
    let r := ensureSession w.store request
    { w with store := r.2, run := some r.1 }
  | .runAppends m => w.runWith (appendMessage deps m)
  | .runCompacts summary tokensBefore =>
    -- inside the loop, after the user's entry
    match w.run.bind SessionTree.leafId with
    | some _ => w.runWith (appendCompaction deps summary tokensBefore)
    | none => w
  | .commandLoads k =>
    { w with pending := Function.update w.pending k (w.store.load request.sessionId) }
  | .modelAppends k available target =>
    w.commandWith deps k (cmdModel deps.secrets available target)
  | .compactAppends k r => w.commandWith deps k (cmdCompact deps.py deps.secrets r)

/-- Every appended message is on the branch of the stored leaf. -/
def NoOrphans (w : Writers) : Prop :=
  ∃ b, (w.store.load request.sessionId).bind SessionTree.getBranch = some b ∧
    ∀ e ∈ w.messages, e ∈ b

instance (w : Writers) : Decidable (w.NoOrphans request) :=
  match h : (w.store.load request.sessionId).bind SessionTree.getBranch with
  | none => .isFalse fun ⟨_, hb, _⟩ => nomatch h.symm.trans hb
  | some b => decidable_of_iff (∀ e ∈ w.messages, e ∈ b)
      ⟨fun hall => ⟨b, h, hall⟩, fun ⟨_, hb, hall⟩ => Option.some.inj (h.symm.trans hb) ▸ hall⟩

/-! ## What a step appends -/

/-- The tree that the writer of a step works on, and the body of the entry it appends. -/
def write? (w : Writers) : WriterStep → Option (SessionTree × EntryBody)
  | .runAppends m => w.run.map fun t => (t, .message m)
  | .runCompacts summary tokensBefore =>
    w.run.bind fun t => t.leafId.map fun leaf =>
      (t, .compaction summary (orElseText (some leaf) "") tokensBefore)
  | .modelAppends k available target =>
    (w.pending k).map fun t => (t, .modelChange (providerOf available target) target)
  | .compactAppends k r => (w.pending k).bind fun t => (compactionBody deps.py t r).map fun b => (t, b)
  | .runStarts | .commandLoads _ => none

/-- The id drawn for the new entry is not stored already. The writer itself checks it against its
own copy of the tree only. -/
def DrawsNewId (w : Writers) (a : WriterStep) : Prop :=
  ∀ p ∈ w.write? deps a, ∀ t ∈ w.store.load request.sessionId,
    (entryOn deps.secrets p.1 w.draws p.2).id ∉ t.order

/-- A command that appends has every message appended so far on the branch it has loaded. -/
def Timely (w : Writers) (a : WriterStep) : Prop :=
  a.isCommand = true → ∀ p ∈ w.write? deps a, ∀ e ∈ w.messages, ∃ b ∈ p.1.getBranch, e ∈ b

instance (w : Writers) (a : WriterStep) : Decidable (w.DrawsNewId deps request a) :=
  inferInstanceAs (Decidable (∀ p ∈ w.write? deps a, ∀ t ∈ w.store.load request.sessionId,
    (entryOn deps.secrets p.1 w.draws p.2).id ∉ t.order))

instance (w : Writers) (a : WriterStep) : Decidable (w.Timely deps a) :=
  inferInstanceAs (Decidable (a.isCommand = true → ∀ p ∈ w.write? deps a,
    ∀ e ∈ w.messages, ∃ b ∈ p.1.getBranch, e ∈ b))

end Writers

/-! ## Copies of the stored tree -/

/-- `T` was loaded from `t` or from an earlier version of it; `p` is the path of its leaf. -/
structure CopyOf (t T : SessionTree) (p : List SessionEntry) : Prop where
  sub : ∀ k e, T.entries.get? k = some e → t.entries.get? k = some e
  path : Path t.entries.get? SessionEntry.parentId T.leafId p
  own : ∀ e ∈ p, T.entries.get? e.id = some e
  leaf_mem : ∀ k, T.leafId = some k → k ∈ t.order

namespace CopyOf

variable {t T : SessionTree} {p : List SessionEntry} {e : SessionEntry}

theorem self (hw : t.Wf) (hp : Path t.entries.get? SessionEntry.parentId t.leafId p) :
    CopyOf t t p where
  sub := fun _ _ h => h
  path := hp
  own := by
    intro e he
    have hb : t.getBranch = some p.reverse := by
      rw [SessionTree.getBranch_eq_some, List.reverse_reverse]
      exact hp
    exact hw.branch_mem hb (List.mem_reverse.mpr he)
  leaf_mem := fun _ h => hw.leaf_mem h

/-- A path of stored entries stays when an entry with a new id is stored. -/
theorem path_push (hw : t.Wf) (hfresh : e.id ∉ t.order) {s : Option String}
    (hp : Path t.entries.get? SessionEntry.parentId s p) (hs : ∀ k, s = some k → k ∈ t.order) :
    Path (t.push e).entries.get? SessionEntry.parentId s p := by
  refine hp.extend (fun k hk => Dict.get?_set_ne _ e (Ne.symm hk)) ?_ ?_
  · intro hk
    exact hfresh (hs _ hk)
  · intro k v hv hk
    exact hfresh (hw.refs_mem hv (SessionTree.parent_mem_refs hk))

theorem not_mem (h : CopyOf t T p) (hw : t.Wf) (hfresh : e.id ∉ t.order) {x : SessionEntry} :
    T.entries.get? e.id ≠ some x := by
  intro hx
  rw [hw.order_eq] at hfresh
  exact hfresh (Dict.mem_keys_of_get? (h.sub _ _ hx))

theorem sub_push (h : CopyOf t T p) (hw : t.Wf) (hfresh : e.id ∉ t.order) (k : String)
    (x : SessionEntry) (hx : T.entries.get? k = some x) : (t.push e).entries.get? k = some x := by
  have hne : e.id ≠ k := by
    rintro rfl
    exact h.not_mem hw hfresh hx
  rw [SessionTree.push, Dict.get?_set_ne _ e hne]
  exact h.sub k x hx

/-- Another writer's append leaves a copy a copy. -/
theorem push (h : CopyOf t T p) (hw : t.Wf) (hfresh : e.id ∉ t.order) :
    CopyOf (t.push e) T p where
  sub := h.sub_push hw hfresh
  path := path_push hw hfresh h.path h.leaf_mem
  own := h.own
  leaf_mem := fun k hk => List.mem_append_left _ (h.leaf_mem k hk)

theorem path_on (h : CopyOf t T p) (hw : t.Wf) (hfresh : e.id ∉ t.order)
    (hparent : e.parentId = T.leafId) :
    Path (t.push e).entries.get? SessionEntry.parentId (some e.id) (e :: p) := by
  refine .step (Dict.get?_set_self _ _ e) ?_
  rw [hparent]
  exact path_push hw hfresh h.path h.leaf_mem

/-- The writer's own append. -/
theorem extend (h : CopyOf t T p) (hw : t.Wf) (hfresh : e.id ∉ t.order)
    (hparent : e.parentId = T.leafId) : CopyOf (t.push e) (T.push e) (e :: p) where
  sub := by
    intro k x hx
    by_cases hk : e.id = k
    · rw [SessionTree.push, ← hk, Dict.get?_set_self] at hx ⊢
      exact hx
    · rw [SessionTree.push, Dict.get?_set_ne _ e hk] at hx
      exact h.sub_push hw hfresh k x hx
  path := h.path_on hw hfresh hparent
  own := by
    intro x hx
    rcases List.mem_cons.mp hx with rfl | hx
    · exact Dict.get?_set_self _ _ x
    · have hget := h.own x hx
      have hne : e.id ≠ x.id := by
        intro he
        rw [← he] at hget
        exact h.not_mem hw hfresh hget
      rw [SessionTree.push, Dict.get?_set_ne _ e hne]
      exact hget
  leaf_mem := by
    intro k hk
    cases hk
    exact List.mem_append_right _ List.mem_cons_self

/-- The path of the leaf is the branch of the copy. -/
theorem branch (h : CopyOf t T p) (hw : t.Wf) : T.getBranch = some p.reverse := by
  rw [SessionTree.getBranch_eq_some, List.reverse_reverse]
  obtain ⟨hsub, hpath, hown, -⟩ := h
  revert hpath hown
  generalize T.leafId = s
  intro hpath hown
  induction hpath with
  | root => exact .root
  | @missing k hnone =>
    refine .missing (Option.eq_none_iff_forall_ne_some.mpr fun e he => ?_)
    cases hnone.symm.trans (hsub k e he)
  | @step k e p he _ ih =>
    have hget := hown e List.mem_cons_self
    rw [hw.get?_id he] at hget
    exact .step hget (ih fun x hx => hown x (List.mem_cons_of_mem e hx))

theorem setHeader (h : CopyOf t T p) (header : SessionHeader) : CopyOf { t with header } T p :=
  ⟨h.sub, h.path, h.own, h.leaf_mem⟩

end CopyOf

/-! ## The invariant -/

/-- All messages are reachable from the stored leaf and from the run's leaf; what a command has loaded is a
copy. -/
structure SoundAt (sid : String) (w : Writers) (t : SessionTree) : Prop where
  stored : w.store.load sid = some t
  wf : t.Wf
  isMessage : ∀ e ∈ w.messages, e.message?.isSome = true
  reached : ∃ p, Path t.entries.get? SessionEntry.parentId t.leafId p ∧ ∀ e ∈ w.messages, e ∈ p
  run : ∀ T, w.run = some T → T.header.id = sid ∧
    ∃ p, CopyOf t T p ∧ ∀ e ∈ w.messages, e ∈ p
  pending : ∀ k T, w.pending k = some T → T.header.id = sid ∧ ∃ p, CopyOf t T p

section
variable {sid : String} {w w' : Writers} {t T : SessionTree} {e : SessionEntry}
  {p : List SessionEntry}

theorem SoundAt.noOrphans {request : RunRequest} (h : SoundAt request.sessionId w t) :
    w.NoOrphans request := by
  obtain ⟨p, hp, hmessages⟩ := h.reached
  refine ⟨p.reverse, ?_, fun e he => List.mem_reverse.mpr (hmessages e he)⟩
  rw [h.stored, Option.bind_some, SessionTree.getBranch_eq_some, List.reverse_reverse]
  exact hp

/-- A load hands out a copy on which every message is reachable. -/
theorem SoundAt.loaded (h : SoundAt sid w t) :
    t.header.id = sid ∧ ∃ p, CopyOf t t p ∧ ∀ e ∈ w.messages, e ∈ p := by
  obtain ⟨p, hp, hmessages⟩ := h.reached
  exact ⟨InMemorySessionStore.header_of_load h.stored, p, CopyOf.self h.wf hp, hmessages⟩

theorem SoundAt.runStarts (h : SoundAt sid w t) : SoundAt sid { w with run := some t } t where
  stored := h.stored
  wf := h.wf
  isMessage := h.isMessage
  reached := h.reached
  run := by
    intro T hT
    cases hT
    exact h.loaded
  pending := h.pending

theorem SoundAt.commandLoads (h : SoundAt sid w t) (k : Nat) :
    SoundAt sid { w with pending := Function.update w.pending k (some t) } t where
  stored := h.stored
  wf := h.wf
  isMessage := h.isMessage
  reached := h.reached
  run := h.run
  pending := by
    intro j T hT
    by_cases hj : j = k
    · rw [hj] at hT
      dsimp only at hT
      rw [Function.update_self] at hT
      cases hT
      obtain ⟨hid, p, hcopy, -⟩ := h.loaded
      exact ⟨hid, p, hcopy⟩
    · dsimp only at hT
      rw [Function.update_of_ne hj] at hT
      exact h.pending j T hT

/-- The run appends `e` on its own leaf. -/
theorem SoundAt.runWrites (h : SoundAt sid w t) (hT : w.run = some T) (hfresh : e.id ∉ t.order)
    (hparent : e.parentId = T.leafId) (hwf : (t.push e).Wf)
    (hstored : w'.store.load sid = some (t.push e)) (hrun : w'.run = some (T.push e))
    (hpending : w'.pending = w.pending)
    (hmessages : w'.messages = w.messages ++ if e.message?.isSome then [e] else []) :
    SoundAt sid w' (t.push e) := by
  obtain ⟨hid, p, hcopy, hall⟩ := h.run T hT
  have hall' : ∀ x ∈ w'.messages, x ∈ e :: p := by
    intro x hx
    rw [hmessages, List.mem_append] at hx
    rcases hx with hx | hx
    · exact List.mem_cons_of_mem e (hall x hx)
    · split at hx
      · rw [List.mem_singleton.mp hx]
        exact List.mem_cons_self
      · cases hx
  have hcopy' := hcopy.extend h.wf hfresh hparent
  refine ⟨hstored, hwf, ?_, ⟨e :: p, hcopy'.path, hall'⟩, ?_, ?_⟩
  · intro x hx
    rw [hmessages, List.mem_append] at hx
    rcases hx with hx | hx
    · exact h.isMessage x hx
    · split at hx
      · rename_i he
        rw [List.mem_singleton.mp hx]
        exact he
      · cases hx
  · intro T' hT'
    rw [hrun] at hT'
    cases hT'
    exact ⟨hid, e :: p, hcopy', hall'⟩
  · intro k C hC
    rw [hpending] at hC
    obtain ⟨hidC, q, hcopyC⟩ := h.pending k C hC
    exact ⟨hidC, q, hcopyC.push h.wf hfresh⟩

/-- A command that has every message on its branch appends `e` on its own leaf. -/
theorem SoundAt.commandWrites (h : SoundAt sid w t) (hcopy : CopyOf t T p)
    (hall : ∀ x ∈ w.messages, x ∈ p) (hfresh : e.id ∉ t.order) (hparent : e.parentId = T.leafId)
    (hwf : (t.push e).Wf) {header : SessionHeader}
    (hstored : w'.store.load sid = some (SessionTree.push { t with header } e))
    (hrun : w'.run = w.run) (hpending : ∀ j C, w'.pending j = some C → w.pending j = some C)
    (hmessages : w'.messages = w.messages) :
    SoundAt sid w' (SessionTree.push { t with header } e) := by
  refine ⟨hstored, hwf.setHeader header, ?_, ⟨e :: p, ?_, ?_⟩, ?_, ?_⟩
  · rw [hmessages]
    exact h.isMessage
  · exact hcopy.path_on h.wf hfresh hparent
  · intro x hx
    rw [hmessages] at hx
    exact List.mem_cons_of_mem e (hall x hx)
  · intro C hC
    rw [hrun] at hC
    rw [hmessages]
    obtain ⟨hidC, q, hcopyC, hallC⟩ := h.run C hC
    exact ⟨hidC, q, (hcopyC.push h.wf hfresh).setHeader header, hallC⟩
  · intro j C hC
    obtain ⟨hidC, q, hcopyC⟩ := h.pending j C (hpending j C hC)
    exact ⟨hidC, q, (hcopyC.push h.wf hfresh).setHeader header⟩

/-! ## Steps -/

variable {deps : AgentRunnerDeps} {request : RunRequest}

theorem orElseText_mem {leaf k : String} (h : k = orElseText (some leaf) "") : k = leaf := by
  rw [h, orElseText]
  split
  · exact Eq.symm ‹_›
  · rfl

/-- What a writer appends refers to stored entries only. -/
theorem CopyOf.refs_mem (h : CopyOf t T p) {body : EntryBody} {draws : Nat} {sec : Secrets}
    (hbody : ∀ s k n, body = .compaction s k n →
      ∃ leaf, T.leafId = some leaf ∧ k = orElseText (some leaf) "") :
    ∀ k ∈ SessionTree.refs (entryOn sec T draws body), k ∈ t.order := by
  intro k hk
  rw [SessionTree.refs, List.mem_append] at hk
  rcases hk with hk | hk
  · exact h.leaf_mem k (Option.mem_toList.mp hk)
  · cases body with
    | compaction s first n =>
      obtain ⟨leaf, hleaf, hfirst⟩ := hbody s first n rfl
      rw [List.mem_singleton.mp hk, orElseText_mem hfirst]
      exact h.leaf_mem leaf hleaf
    | message _ | modelChange _ _ | custom _ => cases hk

/-- The step of the running agent, if its program appends one entry. -/
theorem runWith_run {m : Run Unit} {body : EntryBody} (hT : w.run = some T)
    (hload : w.store.load T.header.id = some t)
    (hm : m (w.runState T) = (newEntry deps body >>= append) (w.runState T)) :
    let e := entryOn deps.secrets T w.draws body
    (w.runWith m).store.load T.header.id = some (t.push e) ∧ (w.runWith m).run = some (T.push e) ∧
      (w.runWith m).pending = w.pending ∧
      (w.runWith m).messages = w.messages ++ if e.message?.isSome then [e] else [] := by
  intro e
  have hheader : t.header.id = T.header.id := InMemorySessionStore.header_of_load hload
  let s₁ : RunState :=
    { w.runState T with draws := (generateEntryId deps.secrets T.entries.keys w.draws).2 }
  have happend := append_run (s := s₁) hload e
  have hnew : newEntry deps body (w.runState T) = ⟨.ok e, s₁, []⟩ := rfl
  rw [Prog.bind_ok hnew, happend] at hm
  unfold Writers.runWith
  rw [hT]
  dsimp only
  rw [hm]
  refine ⟨?_, rfl, rfl, ?_⟩
  · rw [← hheader]
    exact InMemorySessionStore.load_put _ (t.push e)
  · dsimp only [List.nil_append]
    cases he : e.message?.isSome <;> simp [Item.appendedMessage?, he]

theorem SoundAt.runWith {m : Run Unit} {body : EntryBody} (h : SoundAt request.sessionId w t)
    (hT : w.run = some T)
    (hm : m (w.runState T) = (newEntry deps body >>= append) (w.runState T))
    (hbody : ∀ s k n, body = .compaction s k n →
      ∃ leaf, T.leafId = some leaf ∧ k = orElseText (some leaf) "")
    (hfresh : (entryOn deps.secrets T w.draws body).id ∉ t.order) :
    SoundAt request.sessionId (w.runWith m) (t.push (entryOn deps.secrets T w.draws body)) := by
  obtain ⟨hid, p, hcopy, -⟩ := h.run T hT
  have hload : w.store.load T.header.id = some t := by
    rw [hid]
    exact h.stored
  obtain ⟨hstored, hrun, hpending, hmessages⟩ := runWith_run hT hload hm
  rw [hid] at hstored
  exact h.runWrites hT hfresh rfl (h.wf.push hfresh (hcopy.refs_mem hbody)) hstored hrun hpending
    hmessages

/-- What the step of a command leaves behind when it appends an entry with the given body to its
tree `T`. -/
structure CommandWrote (deps : AgentRunnerDeps) (sid : String) (w w' : Writers)
    (t T : SessionTree) (body : EntryBody) : Prop where
  pending : ∃ k, w.pending k = some T
  noMessage : ∀ m, body ≠ .message m
  compaction : ∀ s k n, body = .compaction s k n →
    ∃ leaf, T.leafId = some leaf ∧ k = orElseText (some leaf) ""
  stored : ∃ header, w'.store.load sid =
    some (SessionTree.push { t with header } (entryOn deps.secrets T w.draws body))
  run_eq : w'.run = w.run
  pending_of : ∀ j C, w'.pending j = some C → w.pending j = some C
  messages_eq : w'.messages = w.messages

theorem pending_of_update {pending : Nat → Option SessionTree} {k j : Nat} {C : SessionTree}
    (h : Function.update pending k none j = some C) : pending j = some C := by
  by_cases hj : j = k
  · rw [hj, Function.update_self] at h
    cases h
  · rwa [Function.update_of_ne hj] at h

theorem SoundAt.commandEnds (h : SoundAt sid w t) (k draws : Nat) :
    SoundAt sid { w with draws, pending := Function.update w.pending k none } t where
  stored := h.stored
  wf := h.wf
  isMessage := h.isMessage
  reached := h.reached
  run := h.run
  pending := fun j C hC => h.pending j C (pending_of_update hC)

theorem commandWith_wrote {k : Nat} {body : EntryBody}
    {cmd : SessionTree → InMemorySessionStore → Nat → Option InMemorySessionStore}
    (hT : w.pending k = some T) (hmessage : ∀ m, body ≠ .message m)
    (hbody : ∀ s k n, body = .compaction s k n →
      ∃ leaf, T.leafId = some leaf ∧ k = orElseText (some leaf) "")
    (hcmd : ∃ header store', cmd T w.store w.draws = some store' ∧ store'.load sid =
      some (SessionTree.push { t with header } (entryOn deps.secrets T w.draws body))) :
    CommandWrote deps sid w (w.commandWith deps k cmd) t T body := by
  obtain ⟨header, store', hcmd, hload⟩ := hcmd
  unfold Writers.commandWith
  rw [hT]
  dsimp only
  rw [hcmd]
  exact ⟨⟨k, hT⟩, hmessage, hbody, ⟨header, hload⟩, rfl, fun _ _ => pending_of_update, rfl⟩

/-- A command's step appends an entry to its tree, or it leaves the session as it is. -/
theorem step_command {a : WriterStep} (h : SoundAt request.sessionId w t)
    (ha : a.isCommand = true) :
    (∃ T body, w.write? deps a = some (T, body) ∧
      CommandWrote deps request.sessionId w (w.step deps request a) t T body) ∨
    (w.write? deps a = none ∧ SoundAt request.sessionId (w.step deps request a) t) := by
  cases a with
  | runStarts | runAppends _ | runCompacts _ _ | commandLoads _ => cases ha
  | modelAppends k available target =>
    simp only [Writers.write?, Writers.step]
    cases hT : w.pending k with
    | none =>
      right
      rw [Writers.commandWith, hT]
      exact ⟨rfl, h⟩
    | some T =>
      left
      obtain ⟨hid, -⟩ := h.pending k T hT
      have hrun := @cmdModel_run deps.secrets T t w.store w.draws (hid ▸ h.stored) available target
      rw [hid] at hrun
      refine ⟨T, _, rfl, commandWith_wrote hT ?_ ?_ hrun⟩
      · exact fun _ hm => by cases hm
      · exact fun _ _ _ hc => by cases hc
  | compactAppends k r =>
    simp only [Writers.write?, Writers.step]
    cases hT : w.pending k with
    | none =>
      right
      rw [Writers.commandWith, hT]
      exact ⟨rfl, h⟩
    | some T =>
      obtain ⟨hid, -⟩ := h.pending k T hT
      cases hbody : compactionBody deps.py T r with
      | none =>
        right
        rw [Option.bind_some, hbody, Writers.commandWith, hT]
        dsimp only
        rw [cmdCompact_none hbody]
        exact ⟨rfl, h.commandEnds k _⟩
      | some body =>
        left
        obtain ⟨leaf, hleaf, rfl⟩ := compactionBody_some hbody
        obtain ⟨store', hcmd, hload⟩ := @cmdCompact_run deps.py deps.secrets T t w.store w.draws
          (hid ▸ h.stored) r _ hbody
        rw [hid] at hload
        refine ⟨T, _, by rw [Option.bind_some, hbody]; rfl,
          commandWith_wrote hT ?_ ?_ ⟨t.header, store', hcmd, hload⟩⟩
        · exact fun _ hm => by cases hm
        · intro s k n hc
          cases hc
          exact ⟨leaf, hleaf, rfl⟩

/-- The running agent compacts on its own leaf, or has none and does nothing. -/
theorem SoundAt.runCompacts (h : SoundAt request.sessionId w t) {summary : String} {tokens : Int}
    (hnew : w.DrawsNewId deps request (.runCompacts summary tokens)) :
    ∃ t', SoundAt request.sessionId (w.step deps request (.runCompacts summary tokens)) t' := by
  unfold Writers.step
  dsimp only
  cases hT : w.run with
  | none => exact ⟨t, h⟩
  | some T =>
    cases hleaf : T.leafId with
    | none =>
      rw [Option.bind_some, hleaf]
      exact ⟨t, h⟩
    | some leaf =>
      rw [Option.bind_some, hleaf]
      have hfresh := hnew (T, .compaction summary (orElseText (some leaf) "") tokens)
        (by simp [Writers.write?, hT, hleaf]) t h.stored
      refine ⟨_, h.runWith hT ?_ ?_ hfresh⟩
      · rw [appendCompaction_eq]
        rw [Prog.bind_ok (show Prog.get (w.runState T) = ⟨.ok _, _, []⟩ from rfl)]
        dsimp only [Writers.runState]
        rw [hleaf]
        rfl
      · intro s k n hc
        cases hc
        exact ⟨leaf, hleaf, rfl⟩

/-- Each step keeps the invariant, if the id it draws is new and it is timely. -/
theorem sound_step {a : WriterStep} (h : SoundAt request.sessionId w t)
    (hnew : w.DrawsNewId deps request a) (htimely : w.Timely deps a) :
    ∃ t', SoundAt request.sessionId (w.step deps request a) t' := by
  by_cases ha : a.isCommand = true
  · rcases @step_command w t deps request a h ha with ⟨T, body, hwrite, hwrote⟩ | ⟨-, hsame⟩
    · obtain ⟨k, hT⟩ := hwrote.pending
      obtain ⟨header, hstored⟩ := hwrote.stored
      obtain ⟨-, p, hcopy⟩ := h.pending k T hT
      have hfresh := hnew _ hwrite t h.stored
      have hwf := h.wf.push hfresh (hcopy.refs_mem hwrote.compaction)
      have hall : ∀ x ∈ w.messages, x ∈ p := by
        intro x hx
        obtain ⟨b, hb, hmem⟩ := htimely ha _ hwrite x hx
        cases (hcopy.branch h.wf).symm.trans hb
        exact List.mem_reverse.mp hmem
      exact ⟨_, h.commandWrites hcopy hall hfresh rfl hwf hstored
        hwrote.run_eq hwrote.pending_of hwrote.messages_eq⟩
    · exact ⟨t, hsame⟩
  · cases a with
    | modelAppends _ _ _ | compactAppends _ _ => exact absurd rfl ha
    | runStarts =>
      refine ⟨t, ?_⟩
      unfold Writers.step ensureSession
      rw [h.stored]
      exact h.runStarts
    | commandLoads k =>
      refine ⟨t, ?_⟩
      unfold Writers.step
      dsimp only
      rw [h.stored]
      exact h.commandLoads k
    | runAppends m =>
      unfold Writers.step
      dsimp only
      cases hT : w.run with
      | none =>
        rw [Writers.runWith, hT]
        exact ⟨t, h⟩
      | some T =>
        have hfresh := hnew (T, .message m) (by simp [Writers.write?, hT]) t h.stored
        exact ⟨_, h.runWith hT rfl (fun _ _ _ hc => by cases hc) hfresh⟩
    | runCompacts summary tokens => exact h.runCompacts hnew

/-- A command that appends on a leaf older than some message orphans that message. -/
theorem orphans_of_not_timely {a : WriterStep} (h : SoundAt request.sessionId w t)
    (hnew : w.DrawsNewId deps request a) (hlate : ¬ w.Timely deps a) :
    ¬ (w.step deps request a).NoOrphans request := by
  rintro ⟨b, hbranch, hall⟩
  have ha : a.isCommand = true := by
    by_contra ha
    exact hlate fun ha' => absurd ha' ha
  rcases @step_command w t deps request a h ha with ⟨T, body, hwrite, hwrote⟩ | ⟨hnone, -⟩
  · obtain ⟨k, hT⟩ := hwrote.pending
    obtain ⟨header, hstored⟩ := hwrote.stored
    obtain ⟨-, p, hcopy⟩ := h.pending k T hT
    have hfresh := hnew _ hwrite t h.stored
    have hpath := hcopy.path_on (e := entryOn deps.secrets T w.draws body) h.wf hfresh rfl
    rw [hstored, Option.bind_some, SessionTree.getBranch_eq_some] at hbranch
    have hbp := hbranch.unique hpath
    refine hlate fun _ q hq x hx => ?_
    rw [hwrite] at hq
    cases hq
    -- the message is on the new branch, and it is not the command's entry
    have hmem : x ∈ b.reverse := List.mem_reverse.mpr (hall x (hwrote.messages_eq ▸ hx))
    rw [hbp] at hmem
    rcases List.mem_cons.mp hmem with rfl | hmem
    · have hmessage := h.isMessage _ hx
      cases body with
      | message m => exact absurd rfl (hwrote.noMessage m)
      | compaction _ _ _ | modelChange _ _ | custom _ => cases hmessage
    · exact ⟨p.reverse, hcopy.branch h.wf, List.mem_reverse.mpr hmem⟩
  · refine hlate fun _ q hq => ?_
    rw [hnone] at hq
    cases hq

/-! ## Runs -/

/-- A stored session that no one is writing to. -/
def Writers.start (store : InMemorySessionStore) (draws : Nat) (sid : String) : Writers where
  store := store
  draws := draws
  messages := (((store.load sid).bind SessionTree.getBranch).getD []).filter fun e =>
    e.message?.isSome

theorem sound_start {store : InMemorySessionStore} {draws : Nat} (hload : store.load sid = some t)
    (hwf : t.Wf) : SoundAt sid (Writers.start store draws sid) t := by
  obtain ⟨b, hb⟩ := hwf.getBranch_isSome
  have hmessages : (Writers.start store draws sid).messages =
      b.filter fun e => e.message?.isSome := by
    rw [Writers.start, hload, Option.bind_some, hb]
    rfl
  refine ⟨hload, hwf, ?_, ⟨b.reverse, SessionTree.getBranch_eq_some.mp hb, ?_⟩,
    fun _ h => absurd h.symm (Option.some_ne_none _), fun _ _ h => absurd h.symm (Option.some_ne_none _)⟩
  · intro e he
    rw [hmessages] at he
    exact (List.mem_filter.mp he).2
  · intro e he
    rw [hmessages] at he
    exact List.mem_reverse.mpr (List.mem_filter.mp he).1

theorem sound_along {steps : List WriterStep} (h : SoundAt request.sessionId w t)
    (hnew : Along (Writers.step deps request) (Writers.DrawsNewId deps request) w steps)
    (htimely : Along (Writers.step deps request) (Writers.Timely deps) w steps) :
    ∃ t', SoundAt request.sessionId (runFrom (Writers.step deps request) w steps) t' :=
  (along_and.mpr ⟨hnew, htimely⟩).invariant
    (I := fun w => ∃ t', SoundAt request.sessionId w t')
    (fun _ _ ⟨_, h⟩ hstep => sound_step h hstep.1 hstep.2) ⟨t, h⟩

/-- **No orphans.** In a run of the writers in which every drawn id is new, all messages stay
reachable from the stored leaf in every state if and only if every command that appends has all messages
appended before on the branch that it has loaded. -/
theorem noOrphans_iff_timely {store : InMemorySessionStore} {draws : Nat} {steps : List WriterStep}
    (hload : store.load request.sessionId = some t) (hwf : t.Wf)
    (hnew : Along (Writers.step deps request) (Writers.DrawsNewId deps request)
      (Writers.start store draws request.sessionId) steps) :
    (∀ before after, steps = before ++ after → Writers.NoOrphans request
      (runFrom (Writers.step deps request) (Writers.start store draws request.sessionId) before)) ↔
    Along (Writers.step deps request) (Writers.Timely deps)
      (Writers.start store draws request.sessionId) steps := by
  have hstart := @sound_start request.sessionId t store draws hload hwf
  constructor
  · intro hall
    by_contra hlate
    obtain ⟨before, a, after, rfl, hbefore, ha⟩ := exists_first_of_not_along hlate
    rw [along_append] at hnew
    obtain ⟨t', hsound⟩ := sound_along hstart hnew.1 hbefore
    refine orphans_of_not_timely hsound hnew.2.1 ha ?_
    have hstep := hall (before ++ [a]) after (by simp)
    rwa [runFrom_append] at hstep
  · rintro htimely before after rfl
    rw [along_append] at hnew htimely
    obtain ⟨t', hsound⟩ := sound_along hstart hnew.1 htimely.1
    exact hsound.noOrphans

end

/-! ## Sample interleavings -/

/-- A session without entries. -/
def sampleStore : InMemorySessionStore :=
  InMemorySessionStore.empty.put { header := { id := "s", workspaceId := "w", agentId := "a" } }

/-- `/model` loads and appends between two appends of a run. -/
def modelDuringRun : List WriterStep :=
  [.runStarts, .runAppends (userMessage "hello"), .commandLoads 0,
    .modelAppends 0 Dict.empty "gpt-4o", .runAppends (assistantMessage "hi" [])]

theorem noOrphans_modelDuringRun :
    Writers.NoOrphans sampleRequest
      (runFrom (Writers.step sampleDeps sampleRequest) (Writers.start sampleStore 0 "s")
        modelDuringRun) :=
  (@noOrphans_iff_timely _ sampleDeps sampleRequest sampleStore 0 modelDuringRun rfl
    (SessionTree.wf_empty _) (by decide)).mpr (by decide) modelDuringRun [] rfl

/-- `/compact` is still summarising while the next run appends the user's message. -/
def compactDuringRun : List WriterStep :=
  [.runStarts, .runAppends (userMessage "hello"), .runAppends (assistantMessage "hi" []),
    .commandLoads 0, .runStarts, .runAppends (userMessage "go on"),
    .compactAppends 0 { ok := true, compacted := true, summary := some "greetings" }]

theorem compactDuringRun_orphans :
    ¬ Writers.NoOrphans sampleRequest
      (runFrom (Writers.step sampleDeps sampleRequest) (Writers.start sampleStore 0 "s")
        compactDuringRun) := by
  decide

end PyClaw
