import Mathlib.Algebra.BigOperators.Group.List.Basic
import Mathlib.Algebra.Ring.Int.Defs
import PyClaw.Curator.Operations
import PyClaw.Lib.Eviction
import PyClaw.Lib.Machine

/-!
# Memory.L1Index

`RedisL1Index`: the hash of one session key. An update writes its entry, reads the whole hash, sorts what
it has read by the time of the update and deletes entries from the oldest on, first down to the number
allowed and then down to the number of characters.

* `trimmed_evict`: what an eviction leaves fits, and is made of most recent entries.
* `l1Index_trimmed`: so does every update of a run, from any index on.
* `evicted_eq_victims`: the eviction of the curator's model is this one.
-/

namespace PyClaw

structure L1Limits where
  maxEntries : Int := 30
  maxChars : Int := 3000

/-- `HGETALL` lists the fields of a hash in an order of the server's own. -/
structure ReplyOrder where
  arrange : List (String × MemoryEntry) → List (String × MemoryEntry)
  perm : ∀ l, (arrange l).Perm l

/-- `sum(len(pair[1].content) for pair in entries)`. -/
def contentSize (entries : List (String × MemoryEntry)) : Int :=
  (entries.map fun p => (p.2.content.length : Int)).sum

/-- `entries.sort(key=lambda pair: pair[1].updated_at)`. -/
def oldestFirst (entries : List (String × MemoryEntry)) : List (String × MemoryEntry) :=
  entries.mergeSort fun p q => p.2.updatedAt ≤ q.2.updatedAt

namespace L1Limits

variable (limits : L1Limits)

/-- The loop on the number of entries; with a negative limit it raises once it has deleted all of them. -/
def popSurplus (entries : List (String × MemoryEntry)) :
    List (String × MemoryEntry) × List (String × MemoryEntry) :=
  popWhile (fun l => limits.maxEntries < l.length) entries

/-- The loop on the number of characters, which keeps the total. -/
def popOverlong : Int → List (String × MemoryEntry) → List (String × MemoryEntry) × List (String × MemoryEntry)
  | _, [] => ([], [])
  | total, p :: rest =>
    if limits.maxChars < total then
      let r := popOverlong (total - p.2.content.length) rest
      (p :: r.1, r.2)
    else ([], p :: rest)

/-- The fields that `_evict` deletes, in this order, when `HGETALL` replies with `reply`. -/
def victims (reply : List (String × MemoryEntry)) : List String :=
  let r := limits.popSurplus (oldestFirst reply)
  (r.1 ++ (limits.popOverlong (contentSize r.2) r.2).1).map Prod.fst

/-- The entries that `_evict` leaves, oldest first. -/
def survivors (reply : List (String × MemoryEntry)) : List (String × MemoryEntry) :=
  let r := limits.popSurplus (oldestFirst reply)
  (limits.popOverlong (contentSize r.2) r.2).2

/-- Both limits hold. -/
def Fit (entries : List (String × MemoryEntry)) : Prop :=
  (entries.length : Int) ≤ limits.maxEntries ∧ contentSize entries ≤ limits.maxChars

end L1Limits

/-! ## The index -/

abbrev L1Index := Dict String MemoryEntry

namespace L1Index

/-- `HDEL` of one field after the other. -/
def deleteFields (index : L1Index) (fields : List String) : L1Index := fields.foldl Dict.erase index

/-- `index_get`. -/
def indexGet (order : ReplyOrder) (index : L1Index) : List MemoryEntry :=
  ((order.arrange index.items).map Prod.snd).mergeSort fun e f => f.updatedAt ≤ e.updatedAt

variable (limits : L1Limits)

def evict (order : ReplyOrder) (index : L1Index) : L1Index :=
  deleteFields index (limits.victims (order.arrange index.items))

def indexUpdate (order : ReplyOrder) (index : L1Index) (e : MemoryEntry) : L1Index :=
  evict limits order (index.set e.id e)

inductive Step where
  | update (order : ReplyOrder) (e : MemoryEntry)
  /-- An update that fails or is cancelled after some of its deletions. -/
  | interrupted (order : ReplyOrder) (e : MemoryEntry) (deleted : Nat)
  | remove (entryId : String)
  /-- The time to live of the hash has passed. -/
  | expire

def step (index : L1Index) : Step → L1Index
  | .update order e => indexUpdate limits order index e
  | .interrupted order e deleted =>
    let written : L1Index := index.set e.id e
    written.deleteFields ((limits.victims (order.arrange written.items)).take deleted)
  | .remove entryId => index.erase entryId
  | .expire => Dict.empty

end L1Index

/-- What `after` keeps of `before` fits, and is as recent as possible; a negative limit counts as zero. -/
structure Trimmed (limits : L1Limits) (before after : L1Index) : Prop where
  entries : (after.items.length : Int) ≤ max 0 limits.maxEntries
  chars : contentSize after.items ≤ max 0 limits.maxChars
  kept : ∀ p ∈ after.items, p ∈ before.items
  recent : ∀ p ∈ before.items, p ∉ after.items → ∀ q ∈ after.items, p.2.updatedAt ≤ q.2.updatedAt
  unchanged : limits.Fit before.items → after = before

/-! ## The loops -/

section
variable {limits : L1Limits} {entries reply : List (String × MemoryEntry)}

@[simp] theorem contentSize_nil : contentSize [] = 0 := rfl

theorem contentSize_cons (p : String × MemoryEntry) (rest : List (String × MemoryEntry)) :
    contentSize (p :: rest) = (p.2.content.length : Int) + contentSize rest := by
  simp [contentSize]

theorem contentSize_eq (entries : List (String × MemoryEntry)) :
    contentSize entries = ((entries.map fun p => p.2.content.length).sum : Nat) := by
  induction entries with
  | nil => rfl
  | cons p rest ih =>
    rw [contentSize_cons, ih, List.map_cons, List.sum_cons]
    omega

theorem contentSize_perm {l l' : List (String × MemoryEntry)} (h : l.Perm l') :
    contentSize l = contentSize l' :=
  (h.map _).sum_eq

theorem oldestFirst_perm (entries : List (String × MemoryEntry)) : (oldestFirst entries).Perm entries :=
  List.mergeSort_perm _ _

theorem oldestFirst_pairwise (entries : List (String × MemoryEntry)) :
    (oldestFirst entries).Pairwise fun p q => p.2.updatedAt ≤ q.2.updatedAt := by
  refine (List.pairwise_mergeSort ?_ ?_ entries).imp of_decide_eq_true
  · simp only [decide_eq_true_eq]
    intro a b c
    exact Int.le_trans
  · simp only [Bool.or_eq_true, decide_eq_true_eq]
    intro a b
    exact Int.le_total _ _

namespace L1Limits

/-- The running total is the size of what is left. -/
theorem popOverlong_eq_popWhile (limits : L1Limits) (entries : List (String × MemoryEntry)) :
    limits.popOverlong (contentSize entries) entries =
      popWhile (fun l => limits.maxChars < contentSize l) entries := by
  induction entries with
  | nil => rfl
  | cons p rest ih =>
    have hrest : contentSize (p :: rest) - p.2.content.length = contentSize rest := by
      rw [contentSize_cons]
      omega
    simp only [popOverlong, popWhile, hrest, ih, decide_eq_true_eq]

theorem length_popSurplus (limits : L1Limits) (entries : List (String × MemoryEntry)) :
    ((limits.popSurplus entries).2.length : Int) ≤ max 0 limits.maxEntries := by
  rw [popSurplus]
  rcases popWhile_fits (fun l => decide (limits.maxEntries < (l.length : Int))) entries with hnil | hfits
  · rw [hnil, List.length_nil]
    omega
  · have hle := of_decide_eq_false hfits
    omega

theorem contentSize_popOverlong (limits : L1Limits) (entries : List (String × MemoryEntry)) :
    contentSize (limits.popOverlong (contentSize entries) entries).2 ≤ max 0 limits.maxChars := by
  rw [popOverlong_eq_popWhile]
  rcases popWhile_fits (fun l => decide (limits.maxChars < contentSize l)) entries with hnil | hfits
  · rw [hnil, contentSize_nil]
    omega
  · have hle := of_decide_eq_false hfits
    omega

theorem victims_append_survivors (limits : L1Limits) (reply : List (String × MemoryEntry)) :
    ∃ popped, limits.victims reply = popped.map Prod.fst ∧
      popped ++ limits.survivors reply = oldestFirst reply := by
  refine ⟨_, rfl, ?_⟩
  rw [survivors, popOverlong_eq_popWhile, List.append_assoc, popWhile_append]
  exact popWhile_append _ _

theorem survivors_suffix (limits : L1Limits) (reply : List (String × MemoryEntry)) :
    limits.survivors reply <:+ (limits.popSurplus (oldestFirst reply)).2 := by
  rw [survivors, popOverlong_eq_popWhile]
  exact popWhile_suffix _ _

theorem length_survivors (limits : L1Limits) (reply : List (String × MemoryEntry)) :
    ((limits.survivors reply).length : Int) ≤ max 0 limits.maxEntries := by
  have hle := (limits.survivors_suffix reply).length_le
  have hsurplus := limits.length_popSurplus (oldestFirst reply)
  omega

theorem contentSize_survivors (limits : L1Limits) (reply : List (String × MemoryEntry)) :
    contentSize (limits.survivors reply) ≤ max 0 limits.maxChars :=
  limits.contentSize_popOverlong _

theorem victims_of_fit (h : limits.Fit reply) : limits.victims reply = [] := by
  have hperm := oldestFirst_perm reply
  have hkept : limits.popSurplus (oldestFirst reply) = ([], oldestFirst reply) := by
    refine popWhile_of_fits (decide_eq_false ?_)
    have hlen := hperm.length_eq
    have := h.1
    omega
  have hshort : limits.popOverlong (contentSize (oldestFirst reply)) (oldestFirst reply) =
      ([], oldestFirst reply) := by
    rw [popOverlong_eq_popWhile]
    refine popWhile_of_fits (decide_eq_false ?_)
    have hsize := contentSize_perm hperm
    have := h.2
    omega
  simp only [victims, hkept, hshort, List.append_nil, List.map_nil]

end L1Limits

end

/-! ## Eviction -/

namespace L1Index

variable {limits : L1Limits} {order : ReplyOrder} {index : L1Index}

theorem mem_items_deleteFields {fields : List String} {p : String × MemoryEntry} :
    p ∈ (deleteFields index fields).items ↔ p ∈ index.items ∧ p.1 ∉ fields := by
  induction fields generalizing index with
  | nil => simp [deleteFields]
  | cons field fields ih =>
    obtain ⟨k, v⟩ := p
    rw [deleteFields, List.foldl_cons, ← deleteFields, ih, Dict.mem_items_erase, List.mem_cons, not_or,
      and_assoc]

/-- An eviction leaves the survivors: the fields are distinct, so deleting a field deletes one entry. -/
theorem evict_perm (limits : L1Limits) (order : ReplyOrder) (index : L1Index) :
    (evict limits order index).items.Perm (limits.survivors (order.arrange index.items)) := by
  obtain ⟨popped, hvictims, hall⟩ := limits.victims_append_survivors (order.arrange index.items)
  have hperm : (popped ++ limits.survivors (order.arrange index.items)).Perm index.items := by
    rw [hall]
    exact (oldestFirst_perm _).trans (order.perm _)
  have hnodup : ((popped ++ limits.survivors (order.arrange index.items)).map Prod.fst).Nodup :=
    (hperm.map _).nodup_iff.mpr index.nodup
  refine (List.perm_ext_iff_of_nodup (evict limits order index).nodup.of_map
    (List.nodup_append.mp hnodup.of_map).2.1).mpr fun p => ?_
  rw [evict, mem_items_deleteFields, hvictims, ← hperm.mem_iff, List.mem_append]
  rw [List.map_append, List.nodup_append] at hnodup
  constructor
  · rintro ⟨hpopped | hleft, hnot⟩
    · exact absurd (List.mem_map_of_mem hpopped) hnot
    · exact hleft
  · intro hleft
    refine ⟨.inr hleft, fun hpopped => ?_⟩
    exact hnodup.2.2 _ hpopped _ (List.mem_map_of_mem hleft) rfl

theorem trimmed_evict (limits : L1Limits) (order : ReplyOrder) (index : L1Index) :
    Trimmed limits index (evict limits order index) := by
  have hperm := evict_perm limits order index
  obtain ⟨popped, hvictims, hall⟩ := limits.victims_append_survivors (order.arrange index.items)
  refine ⟨?_, ?_, ?_, ?_, ?_⟩
  · rw [hperm.length_eq]
    exact limits.length_survivors _
  · rw [contentSize_perm hperm]
    exact limits.contentSize_survivors _
  · intro p hp
    exact (mem_items_deleteFields.mp hp).1
  · intro p hp hgone q hq
    have hsorted := oldestFirst_pairwise (order.arrange index.items)
    rw [← hall] at hsorted
    have hmem : p ∈ popped ++ limits.survivors (order.arrange index.items) := by
      rw [hall, (oldestFirst_perm _).mem_iff, (order.perm _).mem_iff]
      exact hp
    have hpopped := (List.mem_append.mp hmem).resolve_right fun h => hgone (hperm.mem_iff.mpr h)
    exact le_of_pairwise_append hsorted hpopped (hperm.mem_iff.mp hq)
  · intro hfit
    have hreply : limits.Fit (order.arrange index.items) := by
      rw [L1Limits.Fit, (order.perm _).length_eq, contentSize_perm (order.perm _)]
      exact hfit
    rw [evict, L1Limits.victims_of_fit hreply]
    rfl

/-- From any index on, each update leaves most recent entries that fit. -/
theorem l1Index_trimmed (limits : L1Limits) (index : L1Index) (steps : List Step) :
    Along (step limits) (fun index a => ∀ order e, a = .update order e →
      Trimmed limits (index.set e.id e) (step limits index a)) index steps := by
  induction steps generalizing index with
  | nil => trivial
  | cons a steps ih =>
    refine ⟨?_, ih _⟩
    rintro order e rfl
    exact trimmed_evict limits order (index.set e.id e)

end L1Index

/-! ## The curator's model -/

/-- The limits of a deployment, as the index is given them. -/
def LifecycleConfig.l1Limits {V : Type} (cfg : LifecycleConfig V) : L1Limits where
  maxEntries := cfg.l1MaxEntries
  maxChars := cfg.l1MaxChars

@[simp] theorem LifecycleConfig.l1Limits_maxEntries {V : Type} (cfg : LifecycleConfig V) :
    cfg.l1Limits.maxEntries = cfg.l1MaxEntries := rfl

@[simp] theorem LifecycleConfig.l1Limits_maxChars {V : Type} (cfg : LifecycleConfig V) :
    cfg.l1Limits.maxChars = cfg.l1MaxChars := rfl

theorem overlong_eq {V : Type} (cfg : LifecycleConfig V) (entries : List (String × MemoryEntry)) :
    ∀ total : Nat, (total : Int) = contentSize entries →
      LifecycleState.evicted.overlong cfg total entries =
        (cfg.l1Limits.popOverlong total entries).1.map Prod.fst := by
  induction entries with
  | nil =>
    intro total _
    rw [LifecycleState.evicted.overlong, L1Limits.popOverlong]
    rfl
  | cons p rest ih =>
    intro total htotal
    rw [contentSize_cons] at htotal
    have hrestSize := contentSize_eq rest
    have hsub : ((total - p.2.content.length : Nat) : Int) = total - p.2.content.length := by omega
    have hrest := ih (total - p.2.content.length) (by omega)
    rw [LifecycleState.evicted.overlong, L1Limits.popOverlong, hrest, hsub]
    by_cases hover : cfg.l1MaxChars < total
    · have hpop : cfg.l1Limits.maxChars < (total : Int) := by
        rw [LifecycleConfig.l1Limits_maxChars]
        omega
      rw [if_pos hover, if_pos hpop]
      rfl
    · have hkeep : ¬ cfg.l1Limits.maxChars < (total : Int) := by
        rw [LifecycleConfig.l1Limits_maxChars]
        omega
      rw [if_neg hover, if_neg hkeep]
      rfl

/-- The fields that the curator's model deletes are those of `_evict` on a reply in the order of the index. -/
theorem evicted_eq_victims {V : Type} (cfg : LifecycleConfig V) (entries : Dict String MemoryEntry) :
    LifecycleState.evicted cfg entries = cfg.l1Limits.victims entries.items := by
  have hsurplus : cfg.l1Limits.popSurplus (oldestFirst entries.items) =
      ((oldestFirst entries.items).take ((oldestFirst entries.items).length - cfg.l1MaxEntries),
        (oldestFirst entries.items).drop ((oldestFirst entries.items).length - cfg.l1MaxEntries)) := by
    refine popWhile_length (fun l => ?_) _
    simp
  simp only [L1Limits.victims, hsurplus, List.map_append, LifecycleState.evicted]
  rw [contentSize_eq, overlong_eq cfg _ _ (contentSize_eq _).symm]
  rfl

end PyClaw
