import Mathlib.Data.List.Flatten
import Mathlib.Data.List.Nodup
import Mathlib.Logic.Function.Basic
import PyClaw.Lib.Log
import PyClaw.Lib.Machine

/-!
# Lib.Mailbox

Mailboxes that are emptied from the front. Every letter posted gets a number; it leaves its box because
it is evicted, because the box is cleared, or because the consumer attached to the box takes all that is
in it. `Mail.Inv` holds along every run of `Mail.step`. From it: the letters of a box leave in the order
they were posted in (`Mail.Inv.leaves_in_order`), no letter is delivered twice
(`Mail.Inv.delivered_once`), and a consumer that finds every box empty when it is attached gets its
letters in the order of their posting, whichever boxes it was attached to (`Mail.Inv.ordered`).
-/

namespace PyClaw

structure Letter (ι α : Type) where
  number : Nat
  box : ι
  message : α

inductive Exit (σ : Type) where
  | evicted
  | cleared
  | delivered (consumer : σ)

inductive MailOp (ι σ α : Type) where
  | post (i : ι) (a : α)
  /-- The oldest `k` letters go, one after the other. -/
  | evict (i : ι) (k : Nat)
  | clear (i : ι)
  /-- The box is cleared for its consumer. -/
  | attach (c : σ) (i : ι)
  | detach (c : σ)
  | deliver (c : σ)

structure Mail (ι σ α : Type) where
  posted : List (Letter ι α) := []
  waiting : ι → List (Letter ι α) := fun _ => []
  attached : σ → Option ι := fun _ => none
  left : List (Exit σ × List (Letter ι α)) := []

namespace Mail

variable {ι σ α : Type}

/-- The letters that have left, in order, each with its reason. -/
def gone (m : Mail ι σ α) : List (Letter ι α × Exit σ) :=
  m.left.flatMap fun e => e.2.map fun a => (a, e.1)

def deliveries (m : Mail ι σ α) : List (σ × List (Letter ι α)) :=
  m.left.filterMap fun e =>
    match e.1 with
    | .delivered c => some (c, e.2)
    | _ => none

section
variable [DecidableEq ι] [DecidableEq σ]

/-- What the consumer was given. -/
def deliveredTo (m : Mail ι σ α) (c : σ) : List (Letter ι α) :=
  (m.deliveries.filter fun d => d.1 = c).flatMap Prod.snd

/-- The oldest `k` letters of the box leave it. -/
def leave (m : Mail ι σ α) (i : ι) (k : Nat) (x : Exit σ) : Mail ι σ α :=
  { m with
    waiting := Function.update m.waiting i ((m.waiting i).drop k)
    left := m.left ++ [(x, (m.waiting i).take k)] }

def post (m : Mail ι σ α) (i : ι) (a : α) : Mail ι σ α :=
  let letter : Letter ι α := { number := m.posted.length, box := i, message := a }
  { m with
    posted := m.posted ++ [letter]
    waiting := Function.update m.waiting i (m.waiting i ++ [letter]) }

def attach (m : Mail ι σ α) (c : σ) (i : Option ι) : Mail ι σ α :=
  { m with attached := Function.update m.attached c i }

def step (m : Mail ι σ α) : MailOp ι σ α → Mail ι σ α
  | .post i a => m.post i a
  | .evict i k => m.leave i k .evicted
  | .clear i => m.leave i (m.waiting i).length .cleared
  | .attach c i => (m.leave i (m.waiting i).length .cleared).attach c (some i)
  | .detach c => m.attach c none
  | .deliver c =>
    match m.attached c with
    | some i => m.leave i (m.waiting i).length (.delivered c)
    | none => m

end

/-! ## The invariant -/

def Before (a b : Letter ι α) : Prop := a.number < b.number

structure Inv [DecidableEq ι] [DecidableEq σ] (m : Mail ι σ α) : Prop where
  numbered : m.posted.map Letter.number = List.range m.posted.length
  /-- A box has been left by its oldest letters, and holds the others. -/
  conserved : ∀ i, ((m.gone.map Prod.fst).filter fun a => a.box = i) ++ m.waiting i =
    m.posted.filter fun a => a.box = i
  ordered : ∀ c, (m.deliveredTo c).Pairwise Before
  /-- What a consumer was given is older than what is in its box. -/
  behind : ∀ c i, m.attached c = some i → ∀ a ∈ m.deliveredTo c, ∀ b ∈ m.waiting i, Before a b

section
variable {m : Mail ι σ α} {i : ι} {k : Nat} {a b : Letter ι α} {x : Exit σ} {c : σ}

/-- Every delivery is a departure. -/
theorem deliveries_sublist : List.Sublist (m.deliveries.flatMap Prod.snd) (m.gone.map Prod.fst) := by
  unfold deliveries gone
  induction m.left with
  | nil => exact .slnil
  | cons e left ih =>
    obtain ⟨x, letters⟩ := e
    have hletters : (letters.map fun a => (a, x)).map Prod.fst = letters := by
      rw [List.map_map]
      exact List.map_id _
    rw [List.flatMap_cons, List.map_append, hletters]
    cases x with
    | evicted => exact ih.trans (List.sublist_append_right ..)
    | cleared => exact ih.trans (List.sublist_append_right ..)
    | delivered c => exact (List.Sublist.refl letters).append ih

variable [DecidableEq ι]

theorem gone_leave : (m.leave i k x).gone = m.gone ++ ((m.waiting i).take k).map fun a => (a, x) := by
  simp [gone, leave]

theorem map_gone_leave : (m.leave i k x).gone.map Prod.fst = m.gone.map Prod.fst ++ (m.waiting i).take k := by
  rw [gone_leave, List.map_append, List.map_map]
  exact congrArg _ (List.map_id _)

theorem deliveries_leave_delivered : (m.leave i k (.delivered c)).deliveries =
    m.deliveries ++ [(c, (m.waiting i).take k)] := by
  simp [deliveries, leave]

theorem deliveries_leave (h : ∀ c, x ≠ .delivered c) : (m.leave i k x).deliveries = m.deliveries := by
  cases x with
  | evicted => simp [deliveries, leave]
  | cleared => simp [deliveries, leave]
  | delivered c => exact absurd rfl (h c)

variable [DecidableEq σ]

theorem deliveredTo_leave_self : (m.leave i k (.delivered c)).deliveredTo c =
    m.deliveredTo c ++ (m.waiting i).take k := by
  simp [deliveredTo, deliveries_leave_delivered]

theorem deliveredTo_leave (h : x ≠ .delivered c) : (m.leave i k x).deliveredTo c = m.deliveredTo c := by
  cases x with
  | evicted => simp [deliveredTo, deliveries, leave]
  | cleared => simp [deliveredTo, deliveries, leave]
  | delivered d =>
    have hne : d ≠ c := fun he => h (he ▸ rfl)
    simp [deliveredTo, deliveries_leave_delivered, hne]

namespace Inv

variable {o : Option ι}

theorem posted_pairwise (h : m.Inv) : m.posted.Pairwise Before := by
  have hrange : (m.posted.map Letter.number).Pairwise (· < ·) := by
    rw [h.numbered]
    exact List.pairwise_lt_range
  exact List.Pairwise.of_map Letter.number (fun _ _ hlt => hlt) hrange

theorem box_pairwise (h : m.Inv) (i : ι) : (m.posted.filter fun a => a.box = i).Pairwise Before :=
  h.posted_pairwise.sublist List.filter_sublist

theorem lt_length (h : m.Inv) (ha : a ∈ m.posted) : a.number < m.posted.length := by
  have hmem : a.number ∈ m.posted.map Letter.number := List.mem_map_of_mem ha
  rwa [h.numbered, List.mem_range] at hmem

theorem eq_of_number (h : m.Inv) (ha : a ∈ m.posted) (hb : b ∈ m.posted) (hn : a.number = b.number) :
    a = b := by
  have hnodup : (m.posted.map Letter.number).Nodup := by
    rw [h.numbered]
    exact List.nodup_range
  exact List.inj_on_of_nodup_map hnodup ha hb hn

theorem waiting_sublist (h : m.Inv) (i : ι) :
    List.Sublist (m.waiting i) (m.posted.filter fun a => a.box = i) := by
  rw [← h.conserved i]
  exact List.sublist_append_right ..

theorem waiting_pairwise (h : m.Inv) (i : ι) : (m.waiting i).Pairwise Before :=
  (h.box_pairwise i).sublist (h.waiting_sublist i)

theorem of_mem_waiting (h : m.Inv) (ha : a ∈ m.waiting i) : a ∈ m.posted ∧ a.box = i := by
  simpa using (h.waiting_sublist i).subset ha

theorem mem_posted_of_gone (h : m.Inv) (ha : a ∈ m.gone.map Prod.fst) : a ∈ m.posted := by
  have hmem : a ∈ ((m.gone.map Prod.fst).filter fun b => b.box = a.box) ++ m.waiting a.box :=
    List.mem_append_left _ (List.mem_filter.mpr ⟨ha, by simp⟩)
  rw [h.conserved] at hmem
  exact (List.mem_filter.mp hmem).1

theorem deliveredTo_posted (h : m.Inv) (ha : a ∈ m.deliveredTo c) : a ∈ m.posted := by
  have hfilter : List.Sublist (m.deliveredTo c) (m.deliveries.flatMap Prod.snd) :=
    List.filter_sublist.flatMap Prod.snd
  exact h.mem_posted_of_gone ((hfilter.trans deliveries_sublist).subset ha)

/-! ## Steps -/

/-- What leaves a box and what stays in it, seen from any box. -/
theorem waiting_leave (h : m.Inv) (i j : ι) (k : Nat) (x : Exit σ) :
    (((m.waiting i).take k).filter fun a => a.box = j) ++ (m.leave i k x).waiting j = m.waiting j := by
  have hbox : ∀ a ∈ (m.waiting i).take k, a.box = i := fun a ha =>
    (h.of_mem_waiting (List.take_subset _ _ ha)).2
  by_cases he : j = i
  · subst he
    have hown : ((m.waiting j).take k).filter (fun a => a.box = j) = (m.waiting j).take k :=
      List.filter_eq_self.mpr fun a ha => decide_eq_true (hbox a ha)
    simp only [Mail.leave, Function.update_self]
    rw [hown, List.take_append_drop]
  · have hother : ((m.waiting i).take k).filter (fun a => a.box = j) = [] :=
      List.filter_eq_nil_iff.mpr fun a ha hj => he ((of_decide_eq_true hj).symm.trans (hbox a ha))
    simp only [Mail.leave, Function.update_of_ne he]
    rw [hother, List.nil_append]

theorem waiting_leave_sublist (h : m.Inv) (i j : ι) (k : Nat) (x : Exit σ) :
    List.Sublist ((m.leave i k x).waiting j) (m.waiting j) := by
  rw [← h.waiting_leave i j k x]
  exact List.sublist_append_right ..

theorem leave (h : m.Inv) (hattached : ∀ c, x = .delivered c → m.attached c = some i) :
    (m.leave i k x).Inv := by
  have hsplit : (m.waiting i).take k ++ (m.waiting i).drop k = m.waiting i := List.take_append_drop ..
  have hpairwise := h.waiting_pairwise i
  rw [← hsplit] at hpairwise
  obtain ⟨htake, -, hacross⟩ := List.pairwise_append.mp hpairwise
  refine ⟨h.numbered, ?_, ?_, ?_⟩
  · intro j
    rw [map_gone_leave, List.filter_append, List.append_assoc, h.waiting_leave]
    exact h.conserved j
  · intro c
    by_cases hx : x = .delivered c
    · subst hx
      rw [deliveredTo_leave_self]
      refine List.pairwise_append.mpr ⟨h.ordered c, htake, fun a ha b hb => ?_⟩
      exact h.behind c i (hattached c rfl) a ha b (List.take_subset _ _ hb)
    · rw [deliveredTo_leave hx]
      exact h.ordered c
  · intro c j hj a ha b hb
    by_cases hx : x = .delivered c
    · subst hx
      obtain rfl : i = j := Option.some.inj ((hattached c rfl).symm.trans hj)
      rw [deliveredTo_leave_self] at ha
      rcases List.mem_append.mp ha with hold | hnow
      · exact h.behind c i hj a hold b ((h.waiting_leave_sublist i i k _).subset hb)
      · simp only [Mail.leave, Function.update_self] at hb
        exact hacross a hnow b hb
    · rw [deliveredTo_leave hx] at ha
      exact h.behind c j hj a ha b ((h.waiting_leave_sublist i j k x).subset hb)

theorem post (h : m.Inv) (i : ι) (message : α) : (m.post i message).Inv := by
  refine ⟨?_, ?_, h.ordered, ?_⟩
  · simp [Mail.post, h.numbered, List.range_succ]
  · intro j
    have hj := h.conserved j
    by_cases he : j = i
    · subst he
      simp only [Mail.post, Function.update_self, List.filter_append]
      rw [← hj, ← List.append_assoc]
      simp [gone]
    · have hne : i ≠ j := fun hi => he hi.symm
      simp only [Mail.post, Function.update_of_ne he, List.filter_append]
      rw [← hj]
      simp [gone, hne]
  · intro c j hj a ha b hb
    by_cases he : j = i
    · subst he
      simp only [Mail.post, Function.update_self] at hb
      rcases List.mem_append.mp hb with hold | hnew
      · exact h.behind c j hj a ha b hold
      · cases List.mem_singleton.mp hnew
        exact h.lt_length (h.deliveredTo_posted ha)
    · simp only [Mail.post, Function.update_of_ne he] at hb
      exact h.behind c j hj a ha b hb

theorem attach (h : m.Inv) (c : σ) (hempty : ∀ i, o = some i → m.waiting i = []) :
    (m.attach c o).Inv := by
  refine ⟨h.numbered, h.conserved, h.ordered, ?_⟩
  intro d j hj a ha b hb
  by_cases he : d = c
  · subst he
    simp only [Mail.attach, Function.update_self] at hj
    rw [show (m.attach d o).waiting = m.waiting from rfl, hempty j hj] at hb
    cases hb
  · simp only [Mail.attach, Function.update_of_ne he] at hj
    exact h.behind d j hj a ha b hb

theorem step (h : m.Inv) (op : MailOp ι σ α) : (m.step op).Inv := by
  cases op with
  | post i a => exact h.post i a
  | evict i k => exact h.leave fun c => nofun
  | clear i => exact h.leave fun c => nofun
  | attach c i =>
    have hclear : (m.leave i (m.waiting i).length .cleared).Inv := h.leave fun c => nofun
    refine hclear.attach c fun j hj => ?_
    cases hj
    simp [Mail.leave]
  | detach c => exact h.attach c nofun
  | deliver c =>
    simp only [Mail.step]
    split
    · rename_i i hi
      refine h.leave fun d hd => ?_
      cases hd
      exact hi
    · exact h

theorem empty : ({} : Mail ι σ α).Inv := by
  refine ⟨rfl, fun i => rfl, fun c => .nil, ?_⟩
  intro c i hi
  cases hi

theorem run (h : m.Inv) (ops : List (MailOp ι σ α)) : (runFrom Mail.step m ops).Inv :=
  runFrom_invariant (fun _ op hm => Inv.step hm op) h

/-! ## Consequences -/

/-- The letters of one box leave it in the order of their numbers. -/
theorem gone_ordered (h : m.Inv) :
    (m.gone.map Prod.fst).Pairwise fun a b => a.box = b.box → Before a b := by
  refine List.pairwise_iff_forall_sublist.mpr fun {a b} hab hbox => ?_
  have hfilter : ((m.gone.map Prod.fst).filter fun e => e.box = b.box).Pairwise Before := by
    refine (h.box_pairwise b.box).sublist ?_
    rw [← h.conserved]
    exact List.sublist_append_left ..
  have hpair : List.Sublist [a, b] ((m.gone.map Prod.fst).filter fun e => e.box = b.box) := by
    simpa [hbox] using hab.filter fun e => decide (e.box = b.box)
  exact List.pairwise_iff_forall_sublist.mp hfilter hpair

/-- No letter is delivered twice. -/
theorem delivered_once (h : m.Inv) : ((m.deliveries.flatMap Prod.snd).map Letter.number).Nodup := by
  have hgone : (m.gone.map Prod.fst).Pairwise fun a b => a.number ≠ b.number := by
    refine h.gone_ordered.imp_of_mem fun {a b} ha hb hab hnumber => ?_
    have he : a = b := h.eq_of_number (h.mem_posted_of_gone ha) (h.mem_posted_of_gone hb) hnumber
    subst he
    exact Nat.lt_irrefl _ (hab rfl)
  exact List.pairwise_map.mpr (hgone.sublist deliveries_sublist)

/-- When a letter leaves its box, those posted to the box before it have left. -/
theorem leaves_in_order (h : m.Inv) :
    AtEach (fun before e => ∀ b ∈ m.posted, b.box = e.1.box → Before b e.1 → b ∈ before.map Prod.fst)
      m.gone := by
  rintro before ⟨a, x⟩ after hgone b hb hbox hlt
  have hposted := h.conserved b.box
  rw [hgone, List.map_append, List.map_cons, List.filter_append, List.filter_cons_of_pos (by simp [hbox]),
    List.append_assoc, List.cons_append] at hposted
  have hmem : b ∈ m.posted.filter fun e => e.box = b.box := List.mem_filter.mpr ⟨hb, by simp⟩
  have hsorted := h.box_pairwise b.box
  rw [← hposted] at hmem hsorted
  rcases List.mem_append.mp hmem with hbefore | hrest
  · exact (List.mem_filter.mp hbefore).1
  · rcases List.mem_cons.mp hrest with rfl | hafter
    · exact absurd hlt (Nat.lt_irrefl _)
    · have hgt := List.rel_of_pairwise_cons (List.pairwise_append.mp hsorted).2.1 hafter
      exact absurd (Nat.lt_trans hlt hgt) (Nat.lt_irrefl _)

end Inv

end

end Mail

end PyClaw
