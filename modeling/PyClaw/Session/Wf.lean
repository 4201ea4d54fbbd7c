import PyClaw.Lib.Log
import PyClaw.Session.Tree

/-!
# Session.Wf

The invariant of session trees and what an append does to it.

* `Wf`: `order` lists the keys of `entries`, every entry is stored under its own id, the leaf is
  the last entry, and every id an entry names (its parent, the first kept entry of a compaction)
  belongs to an earlier entry. It holds of every tree the runner and the commands write.
* `Linear`: moreover each entry's parent is the entry just before it, as when one run at a time
  writes the session.
* `getBranch_push`, `context_push`: an entry pushed on the leaf extends the branch, and a message
  entry extends the context by its message.
-/

namespace PyClaw

namespace SessionTree

/-- The assignment of `_append` and of `append_entry`, with the entry as the new leaf. -/
def push (t : SessionTree) (e : SessionEntry) : SessionTree where
  header := t.header
  entries := t.entries.set e.id e
  order := t.order ++ [e.id]
  leafId := some e.id

/-- The ids that an entry refers to. -/
def refs (e : SessionEntry) : List String :=
  e.parentId.toList ++
    match e.body with
    | .compaction _ firstKept _ => [firstKept]
    | _ => []

structure Wf (t : SessionTree) : Prop where
  order_eq : t.order = t.entries.keys
  keyed : ∀ p ∈ t.entries.items, p.2.id = p.1
  leaf_eq : t.leafId = t.order.getLast?
  refs_before : AtEach (fun before p => ∀ k ∈ refs p.2, k ∈ before.map Prod.fst) t.entries.items

theorem Wf.setHeader {t : SessionTree} (h : Wf t) (header : SessionHeader) :
    Wf { t with header } :=
  ⟨h.order_eq, h.keyed, h.leaf_eq, h.refs_before⟩

/-- Each entry hangs on the one before it. -/
def Linear (t : SessionTree) : Prop :=
  AtEach (fun before p => p.2.parentId = (before.map Prod.fst).getLast?) t.entries.items

theorem wf_empty (h : SessionHeader) : Wf { header := h } where
  order_eq := rfl
  keyed := fun _ hp => absurd hp List.not_mem_nil
  leaf_eq := rfl
  refs_before := atEach_nil

theorem linear_empty (h : SessionHeader) : Linear { header := h } := atEach_nil

section
variable {t : SessionTree}

theorem Wf.get?_id (h : Wf t) {k : String} {e : SessionEntry} (he : t.entries.get? k = some e) :
    e.id = k :=
  h.keyed (k, e) (Dict.mem_items_of_get? he)

theorem Wf.order_nodup (h : Wf t) : t.order.Nodup := by
  rw [h.order_eq]; exact t.entries.keys_nodup

theorem Wf.leaf_mem (h : Wf t) {l : String} (hl : t.leafId = some l) : l ∈ t.order := by
  rw [h.leaf_eq] at hl
  exact List.mem_of_getLast? hl

/-- Every id that a stored entry refers to is stored. -/
theorem Wf.refs_mem (h : Wf t) {k : String} {e : SessionEntry} (he : t.entries.get? k = some e)
    {r : String} (hr : r ∈ refs e) : r ∈ t.order := by
  obtain ⟨before, after, hsplit⟩ := List.append_of_mem (Dict.mem_items_of_get? he)
  have hb := h.refs_before before (k, e) after hsplit r hr
  rw [h.order_eq, Dict.keys, hsplit, List.map_append]
  exact List.mem_append_left _ hb

/-! ## The branch walk ends -/

theorem parent_mem_refs {e : SessionEntry} {k : String} (h : e.parentId = some k) : k ∈ refs e := by
  simp [refs, h]

theorem Wf.parent_rank (h : Wf t) {k k' : String} {e : SessionEntry}
    (he : t.entries.get? k = some e) (hp : e.parentId = some k') :
    t.entries.keys.idxOf k' < t.entries.keys.idxOf k := by
  obtain ⟨before, after, hsplit⟩ := List.append_of_mem (Dict.mem_items_of_get? he)
  have hmem := h.refs_before before (k, e) after hsplit k' (parent_mem_refs hp)
  have hnd := t.entries.nodup
  have hkeys : t.entries.keys = before.map Prod.fst ++ k :: after.map Prod.fst := by
    rw [Dict.keys, hsplit]; simp
  have hk : k ∉ before.map Prod.fst := by
    rw [← Dict.keys, hkeys, List.nodup_append] at hnd
    exact fun hk => hnd.2.2 k hk k List.mem_cons_self rfl
  rw [hkeys, List.idxOf_append_of_mem hmem, List.idxOf_append_of_notMem hk]
  have := List.idxOf_lt_length_of_mem hmem
  omega

/-- The entries of a walk stand no later than its start. -/
theorem Wf.path_rank (h : Wf t) {k : String} {p : List SessionEntry}
    (hp : Path t.entries.get? SessionEntry.parentId (some k) p) :
    ∀ e ∈ p, t.entries.keys.idxOf e.id ≤ t.entries.keys.idxOf k := by
  generalize hs : some k = s at hp
  induction hp generalizing k with
  | root | missing _ => exact fun _ he => absurd he List.not_mem_nil
  | @step k' v p hv hp ih =>
    cases hs
    intro e he
    rcases List.mem_cons.mp he with rfl | he
    · rw [h.get?_id hv]
    · cases hparent : v.parentId with
      | none => rw [hparent] at hp; cases hp; cases he
      | some parent =>
        have hlt := h.parent_rank hv hparent
        have hle := ih hparent.symm e he
        omega

/-- The leaf's entry is the last of its branch, and no other entry of the branch has its id. -/
theorem Wf.branch_leaf (h : Wf t) {k : String} (hk : t.leafId = some k) {b : List SessionEntry}
    (hb : t.getBranch = some b) :
    ∃ b₀ last, b = b₀ ++ [last] ∧ last.id = k ∧ ∀ e ∈ b₀, e.id ≠ k := by
  rw [getBranch_eq_some, hk] at hb
  generalize hp : b.reverse = p at hb
  cases hb with
  | missing hn =>
    have hmem := h.leaf_mem hk
    rw [h.order_eq] at hmem
    obtain ⟨v, hv⟩ := Dict.exists_get?_of_mem_keys hmem
    rw [hv] at hn
    cases hn
  | @step _ last p hv hrest =>
    refine ⟨p.reverse, last, ?_, h.get?_id hv, fun e he hek => ?_⟩
    · rw [← List.reverse_cons, ← hp, List.reverse_reverse]
    · have hmem := List.mem_reverse.mp he
      cases hparent : last.parentId with
      | none => rw [hparent] at hrest; cases hrest; cases hmem
      | some parent =>
        rw [hparent] at hrest
        have hlt := h.parent_rank hv hparent
        have hle := h.path_rank hrest e hmem
        rw [hek] at hle
        omega

/-- `get_branch` terminates on every well-formed tree. -/
theorem Wf.getBranch_isSome (h : Wf t) : ∃ b, t.getBranch = some b := by
  obtain ⟨p, hp⟩ := @Path.of_rank _ _ t.entries.get? SessionEntry.parentId
    (fun k => t.entries.keys.idxOf k) (fun k e he k' hk' => h.parent_rank he hk') t.leafId
  exact ⟨p.reverse, getBranch_eq_some.mpr (by rwa [List.reverse_reverse])⟩

theorem Wf.context_isSome (h : Wf t) (py : PyText) :
    ∃ c, t.buildSessionContext py = some c := by
  obtain ⟨b, hb⟩ := h.getBranch_isSome
  exact ⟨branchContext py b, by rw [buildSessionContext, hb]; rfl⟩

/-! ## Appending -/

theorem Wf.push (h : Wf t) {e : SessionEntry} (hfresh : e.id ∉ t.order)
    (hrefs : ∀ k ∈ refs e, k ∈ t.order) : Wf (t.push e) := by
  have hkeys : e.id ∉ t.entries.keys := h.order_eq ▸ hfresh
  have hitems := Dict.items_set_of_not_mem e hkeys
  refine ⟨?_, ?_, ?_, ?_⟩
  · rw [SessionTree.push, Dict.keys_set_of_not_mem e hkeys, h.order_eq]
  · intro p hp
    rw [SessionTree.push, hitems, List.mem_append, List.mem_singleton] at hp
    rcases hp with hp | rfl
    · exact h.keyed p hp
    · rfl
  · simp [SessionTree.push]
  · rw [SessionTree.push, hitems, atEach_snoc]
    refine ⟨h.refs_before, fun k hk => ?_⟩
    rw [← Dict.keys, ← h.order_eq]
    exact hrefs k hk

theorem Linear.push (hw : Wf t) (h : Linear t) {e : SessionEntry} (hfresh : e.id ∉ t.order)
    (hparent : e.parentId = t.leafId) : Linear (t.push e) := by
  rw [Linear, SessionTree.push, Dict.items_set_of_not_mem e (hw.order_eq ▸ hfresh), atEach_snoc]
  refine ⟨h, ?_⟩
  rw [← Dict.keys, ← hw.order_eq, ← hw.leaf_eq]
  exact hparent

/-- An entry pushed on the leaf extends the branch. -/
theorem Wf.getBranch_push (h : Wf t) {e : SessionEntry} (hfresh : e.id ∉ t.order)
    (hparent : e.parentId = t.leafId) {b : List SessionEntry} (hb : t.getBranch = some b) :
    (t.push e).getBranch = some (b ++ [e]) := by
  have hold : Path (t.push e).entries.get? SessionEntry.parentId t.leafId b.reverse := by
    refine (getBranch_eq_some.mp hb).extend (fun k hk => Dict.get?_set_ne _ e (Ne.symm hk)) ?_ ?_
    · intro hl; exact hfresh (h.leaf_mem hl)
    · intro k v hv hp; exact hfresh (h.refs_mem hv (parent_mem_refs hp))
  rw [getBranch_eq_some, List.reverse_append]
  exact .step (Dict.get?_set_self _ _ e) (hparent ▸ hold)

/-- The entries on the branch are stored entries. -/
theorem Wf.branch_mem (h : Wf t) {b : List SessionEntry} (hb : t.getBranch = some b)
    {e : SessionEntry} (he : e ∈ b) : t.entries.get? e.id = some e := by
  have hpath := getBranch_eq_some.mp hb
  have hmem : e ∈ b.reverse := List.mem_reverse.mpr he
  generalize b.reverse = p at hpath hmem
  generalize t.leafId = s at hpath
  induction hpath with
  | root => cases hmem
  | missing _ => cases hmem
  | step hs _ ih =>
    rcases List.mem_cons.mp hmem with rfl | hmem
    · rw [h.get?_id hs]; exact hs
    · exact ih hmem

theorem Wf.branch_inj (h : Wf t) {b : List SessionEntry} (hb : t.getBranch = some b) {x y : SessionEntry}
    (hx : x ∈ b) (hy : y ∈ b) (hid : x.id = y.id) : x = y := by
  have hx' := h.branch_mem hb hx
  have hy' := h.branch_mem hb hy
  rw [hid, hy'] at hx'
  exact (Option.some.inj hx').symm

/-- On a linear tree the branch is the list of all entries, in append order. -/
theorem Linear.getBranch (hw : Wf t) (h : Linear t) : t.getBranch = some t.entries.values := by
  suffices ∀ done rest, t.entries.items = done ++ rest →
      Path t.entries.get? SessionEntry.parentId (done.map Prod.fst).getLast?
        (done.map Prod.snd).reverse by
    rw [getBranch_eq_some, hw.leaf_eq, hw.order_eq]
    exact this t.entries.items [] (List.append_nil _).symm
  intro done
  induction done using List.reverseRecOn with
  | nil => intro _ _; exact .root
  | append_singleton done p ih =>
    intro rest hsplit
    rw [List.append_assoc, List.singleton_append] at hsplit
    have hmem : (p.1, p.2) ∈ t.entries.items := hsplit ▸ List.mem_append_right _ List.mem_cons_self
    simp only [List.map_append, List.map_cons, List.map_nil, List.getLast?_append,
      List.getLast?_singleton, Option.some_or, List.reverse_append, List.reverse_singleton]
    exact .step (Dict.get?_of_mem_items hmem) (h done p rest hsplit ▸ ih (p :: rest) hsplit)

end

end SessionTree

/-! ## Contexts of an extended branch -/

section
variable {py : PyText} {b : List SessionEntry} {e : SessionEntry}

theorem lastCompaction_append (h : e.isCompaction = false) :
    lastCompaction (b ++ [e]) =
      (lastCompaction b).map fun r => (r.1, r.2.1, r.2.2 ++ [e]) := by
  induction b with
  | nil => simp [lastCompaction, h]
  | cons x b ih =>
    simp only [List.cons_append, lastCompaction, ih]
    cases lastCompaction b with
    | none =>
      simp only [Option.map_none]
      split <;> rfl
    | some r => rfl

theorem lastCompaction_append_compaction (h : e.isCompaction = true) :
    lastCompaction (b ++ [e]) = some (b, e, []) := by
  induction b with
  | nil => simp [lastCompaction, h]
  | cons x b ih => simp only [List.cons_append, lastCompaction, ih]

theorem lastCompaction_eq_none (h : ∀ x ∈ b, x.isCompaction = false) : lastCompaction b = none := by
  induction b with
  | nil => rfl
  | cons x b ih =>
    rw [lastCompaction, ih fun y hy => h y (List.mem_cons_of_mem x hy)]
    simp [h x List.mem_cons_self]

theorem lastCompaction_sound {r : List SessionEntry × SessionEntry × List SessionEntry}
    (h : lastCompaction b = some r) : b = r.1 ++ r.2.1 :: r.2.2 ∧ r.2.1.isCompaction = true := by
  induction b generalizing r with
  | nil => cases h
  | cons x b ih =>
    simp only [lastCompaction] at h
    split at h
    · rename_i hr
      cases h
      obtain ⟨hsplit, hc⟩ := ih hr
      exact ⟨congrArg (x :: ·) hsplit, hc⟩
    · split at h
      · rename_i hc; cases h; exact ⟨rfl, hc⟩
      · cases h

theorem keptTail_append {after : List SessionEntry} {firstKept : String} (hne : e.id ≠ firstKept) :
    keptTail (b ++ [e]) (after ++ [e]) firstKept = keptTail b after firstKept ++ [e] := by
  unfold keptTail
  rw [List.dropWhile_append]
  cases hd : b.dropWhile (fun x => decide (x.id ≠ firstKept)) with
  | nil => simp [List.dropWhile, hne]
  | cons x xs => simp

/-- A message entry at the end of the branch adds its message at the end of the context. The
hypotheses rule out an id that an earlier compaction names. -/
theorem branchContext_append {m : MessageBody} (hm : e.body = .message m)
    (hne : ∀ x ∈ b, e.id ≠ x.id)
    (hkept : ∀ x ∈ b, ∀ s k n, x.body = .compaction s k n → e.id ≠ k) :
    branchContext py (b ++ [e]) = branchContext py b ++ [messageEntryToDict py m] := by
  have hc : e.isCompaction = false := by simp [SessionEntry.isCompaction, hm]
  have hmsg : entryMessage? py e = some (messageEntryToDict py m) := by
    simp [entryMessage?, SessionEntry.message?, hm]
  unfold branchContext
  rw [lastCompaction_append hc]
  cases hl : lastCompaction b with
  | none => simp [List.filterMap_append, hmsg]
  | some r =>
    obtain ⟨before, c, after⟩ := r
    obtain ⟨hsplit, hcc⟩ := lastCompaction_sound hl
    have hcb : c ∈ b := hsplit ▸ List.mem_append_right _ List.mem_cons_self
    simp only [Option.map_some]
    cases hbody : c.body with
    | compaction summary firstKept n =>
      have hk : keptMessage? py c e = some (messageEntryToDict py m) := by
        rw [keptMessage?, if_neg (hne c hcb), hmsg]
      simp only
      rw [keptTail_append (hkept c hcb summary firstKept n hbody), List.filterMap_append]
      simp [hk]
    | message m' => simp [SessionEntry.isCompaction, hbody] at hcc
    | modelChange p q => simp [SessionEntry.isCompaction, hbody] at hcc
    | custom q => simp [SessionEntry.isCompaction, hbody] at hcc

theorem branchContext_of_no_compaction (h : ∀ x ∈ b, x.isCompaction = false) :
    branchContext py b = b.filterMap (entryMessage? py) := by
  rw [branchContext, lastCompaction_eq_none h]

end

/-- A message entry pushed on the leaf extends the context by its message. -/
theorem SessionTree.Wf.context_push {t : SessionTree} (h : t.Wf) {py : PyText} {e : SessionEntry}
    {m : MessageBody} (hm : e.body = .message m) (hfresh : e.id ∉ t.order)
    (hparent : e.parentId = t.leafId) {c : List Message}
    (hctx : t.buildSessionContext py = some c) :
    (t.push e).buildSessionContext py = some (c ++ [messageEntryToDict py m]) := by
  obtain ⟨b, hb, rfl⟩ := Option.map_eq_some_iff.mp hctx
  rw [buildSessionContext, h.getBranch_push hfresh hparent hb, Option.map_some]
  refine congrArg some (branchContext_append hm ?_ ?_)
  · rintro x hx he
    have := Dict.mem_keys_of_get? (h.branch_mem hb hx)
    rw [← h.order_eq, ← he] at this
    exact hfresh this
  · rintro x hx s k n hbody rfl
    exact hfresh (h.refs_mem (h.branch_mem hb hx) (by simp [refs, hbody]))

/-- Without a compaction entry, the context of a linear tree is the messages of all its entries
in append order. -/
theorem SessionTree.Linear.context {t : SessionTree} (hw : t.Wf) (h : t.Linear) (py : PyText)
    (hnc : ∀ e ∈ t.entries.values, e.isCompaction = false) :
    t.buildSessionContext py = some (t.entries.values.filterMap (entryMessage? py)) := by
  rw [buildSessionContext, h.getBranch hw, Option.map_some, branchContext_of_no_compaction hnc]

end PyClaw
