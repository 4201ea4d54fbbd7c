import Mathlib.Data.List.DropRight
import Mathlib.Data.List.Infix

/-!
# Lib.Text

Leftmost occurrences: `splitFirst sep l` cuts `l` at the first place where `sep` starts, as
`str.find`, `str.split(sep, 1)` and `str.replace(sep, _, 1)` do. `splitFirst_sound` says what
"first" means; `splitFirst_append` is the rule for computing it.
-/

namespace PyClaw

section
variable {α : Type} [DecidableEq α]

def splitFirst (sep : List α) : List α → Option (List α × List α)
  | [] => if sep = [] then some ([], []) else none
  | c :: rest =>
    if sep <+: c :: rest then some ([], (c :: rest).drop sep.length)
    else (splitFirst sep rest).map fun p => (c :: p.1, p.2)

/-- `l.find(sep)`. -/
def find (sep l : List α) : Int :=
  match splitFirst sep l with
  | some (a, _) => a.length
  | none => -1

/-- `l.split(sep, 1)`. -/
def splitOnce (sep l : List α) : List (List α) :=
  match splitFirst sep l with
  | some (a, b) => [a, b]
  | none => [l]

/-- `sep in l`. -/
def occurs (sep l : List α) : Bool := (splitFirst sep l).isSome

/-- `l.replace(sep, by, 1)`. -/
def replaceFirst (sep by_ l : List α) : List α :=
  match splitFirst sep l with
  | some (a, b) => a ++ by_ ++ b
  | none => l

/-- `l.replace(c, by)` for a one-element pattern. -/
def replaceEach (c : α) (by_ : List α) (l : List α) : List α :=
  l.flatMap fun x => if x = c then by_ else [x]

/-- `l[:n]`. -/
def sliceTo (n : Int) (l : List α) : List α :=
  if n < 0 then l.take (l.length + n).toNat else l.take n.toNat

/-- `l.strip()` for the elements in `p`. -/
def strip (p : α → Bool) (l : List α) : List α :=
  ((l.dropWhile p).reverse.dropWhile p).reverse

/-- `re.sub(p+, by, l)` for one-element patterns; `inRun` tells that a run has begun. -/
def collapseFrom (p : α → Bool) (by_ : α) : Bool → List α → List α
  | _, [] => []
  | inRun, x :: rest =>
    if p x then if inRun then collapseFrom p by_ true rest else by_ :: collapseFrom p by_ true rest
    else x :: collapseFrom p by_ false rest

def collapseRuns (p : α → Bool) (by_ : α) (l : List α) : List α := collapseFrom p by_ false l

omit [DecidableEq α] in
theorem mem_of_mem_sliceTo {n : Int} {l : List α} {x : α} (h : x ∈ sliceTo n l) : x ∈ l := by
  unfold sliceTo at h
  split at h
  · exact List.mem_of_mem_take h
  · exact List.mem_of_mem_take h

omit [DecidableEq α] in
theorem strip_eq_rdropWhile (p : α → Bool) (l : List α) :
    strip p l = (l.dropWhile p).rdropWhile p := rfl

omit [DecidableEq α] in
theorem strip_isInfix (p : α → Bool) (l : List α) : strip p l <:+: l :=
  (List.rdropWhile_prefix p (l.dropWhile p)).isInfix.trans (List.dropWhile_suffix p).isInfix

omit [DecidableEq α] in
/-- Nothing is left exactly of a text that is blank. -/
theorem strip_eq_nil {p : α → Bool} {l : List α} : strip p l = [] ↔ ∀ x ∈ l, p x = true := by
  rw [strip_eq_rdropWhile, List.rdropWhile_eq_nil_iff]
  constructor
  · intro h x hx
    rw [← List.takeWhile_append_dropWhile (p := p) (l := l)] at hx
    rcases List.mem_append.mp hx with htake | hdrop
    · exact List.mem_takeWhile_imp htake
    · exact h x hdrop
  · exact fun h x hx => h x ((List.dropWhile_suffix p).subset hx)

omit [DecidableEq α] in
theorem head?_strip {p : α → Bool} {l : List α} : ∀ x ∈ (strip p l).head?, p x = false := by
  intro x hx
  cases hstrip : strip p l with
  | nil =>
    rw [hstrip] at hx
    cases hx
  | cons c rest =>
    rw [hstrip] at hx
    cases hx
    obtain ⟨more, hmore⟩ := List.rdropWhile_prefix p (l.dropWhile p)
    rw [← strip_eq_rdropWhile, hstrip, List.cons_append] at hmore
    have hnot := List.dropWhile_get_zero_not p l (by rw [← hmore]; exact Nat.succ_pos _)
    simpa only [← hmore, List.get_eq_getElem, List.getElem_cons_zero, Bool.not_eq_true] using hnot

omit [DecidableEq α] in
theorem getLast?_strip {p : α → Bool} {l : List α} : ∀ x ∈ (strip p l).getLast?, p x = false := by
  intro x hx
  have hne : strip p l ≠ [] := by
    intro h
    rw [h] at hx
    cases hx
  rw [List.getLast?_eq_some_getLast hne] at hx
  cases hx
  exact Bool.eq_false_iff.mpr (List.rdropWhile_last_not p (l.dropWhile p) hne)

omit [DecidableEq α] in
theorem dropWhile_append_cons {p : α → Bool} {c : α} (a b : List α) (hc : p c = false) :
    (a ++ c :: b).dropWhile p = a.dropWhile p ++ c :: b := by
  induction a with
  | nil => simp [hc]
  | cons x a ih =>
    by_cases hx : p x = true
    · simp [hx, ih]
    · simp [hx]

omit [DecidableEq α] in
theorem rdropWhile_append_cons {p : α → Bool} {c : α} (a b : List α) (hc : p c = false) :
    (a ++ c :: b).rdropWhile p = a ++ c :: b.rdropWhile p := by
  have hreverse : (a ++ c :: b).reverse = b.reverse ++ c :: a.reverse := by simp
  rw [List.rdropWhile, hreverse, dropWhile_append_cons _ _ hc]
  simp [List.rdropWhile]

omit [DecidableEq α] in
/-- Between two ends that are no white space all is kept. -/
theorem strip_around {p : α → Bool} {core : List α} (a b : List α) (hne : core ≠ [])
    (hhead : ∀ x ∈ core.head?, p x = false) (hlast : ∀ x ∈ core.getLast?, p x = false) :
    strip p (a ++ core ++ b) = a.dropWhile p ++ core ++ b.rdropWhile p := by
  obtain ⟨c, rest, hcore⟩ := List.exists_cons_of_ne_nil hne
  obtain ⟨init, last, hinit⟩ : ∃ init last, core = init ++ [last] :=
    ⟨_, _, (List.dropLast_append_getLast hne).symm⟩
  have hc : p c = false := hhead c (by rw [hcore]; rfl)
  have hlastp : p last = false := hlast last (by rw [hinit]; simp)
  have hdrop : (a ++ core ++ b).dropWhile p = a.dropWhile p ++ core ++ b := by
    rw [hcore, List.append_assoc, List.cons_append, dropWhile_append_cons _ _ hc, List.append_assoc,
      List.cons_append]
  have hend : (a.dropWhile p ++ core ++ b).rdropWhile p = a.dropWhile p ++ core ++ b.rdropWhile p := by
    have happend : ∀ b' : List α, a.dropWhile p ++ core ++ b' = (a.dropWhile p ++ init) ++ last :: b' := by
      intro b'
      rw [hinit, List.append_assoc, List.append_assoc, List.append_assoc, List.singleton_append]
    rw [happend, happend, rdropWhile_append_cons _ _ hlastp]
  rw [strip_eq_rdropWhile, hdrop, hend]

omit [DecidableEq α] in
/-- The white space around a text whose ends are none. -/
theorem strip_surrounded {p : α → Bool} {a b core : List α} (ha : ∀ x ∈ a, p x = true)
    (hb : ∀ x ∈ b, p x = true) (hhead : ∀ x ∈ core.head?, p x = false)
    (hlast : ∀ x ∈ core.getLast?, p x = false) : strip p (a ++ core ++ b) = core := by
  cases hcore : core with
  | nil =>
    have hblank : ∀ x ∈ a ++ [] ++ b, p x = true := by
      intro x hx
      rw [List.append_nil] at hx
      exact (List.mem_append.mp hx).elim (ha x) (hb x)
    exact strip_eq_nil.mpr hblank
  | cons c rest =>
    rw [← hcore, strip_around a b (by simp [hcore]) hhead hlast, List.dropWhile_eq_nil_iff.mpr ha,
      List.rdropWhile_eq_nil_iff.mpr hb, List.nil_append, List.append_nil]

omit [DecidableEq α] in
theorem infix_strip {p : α → Bool} {core : List α} (a b : List α)
    (hhead : ∀ x ∈ core.head?, p x = false) (hlast : ∀ x ∈ core.getLast?, p x = false) :
    core <:+: strip p (a ++ core ++ b) := by
  by_cases hne : core = []
  · rw [hne]
    exact List.nil_infix
  · rw [strip_around a b hne hhead hlast]
    exact ⟨_, _, rfl⟩

omit [DecidableEq α] in
theorem strip_strip (p : α → Bool) (l : List α) : strip p (strip p l) = strip p l := by
  have hhead : (strip p l).dropWhile p = strip p l := by
    rw [List.dropWhile_eq_self_iff]
    intro hpos
    have hprefix := List.rdropWhile_prefix p (l.dropWhile p)
    have hdrop : 0 < (l.dropWhile p).length := Nat.lt_of_lt_of_le hpos hprefix.length_le
    have hget : (strip p l)[0] = (l.dropWhile p)[0] := hprefix.getElem hpos
    rw [hget]
    exact List.dropWhile_get_zero_not p l _
  rw [strip_eq_rdropWhile p (strip p l), hhead, strip_eq_rdropWhile, List.rdropWhile_idempotent]

theorem splitFirst_of_starts {sep l : List α} (h : sep <+: l) :
    splitFirst sep l = some ([], l.drop sep.length) := by
  cases l with
  | nil => simp [splitFirst, List.prefix_nil.mp h]
  | cons c rest => rw [splitFirst, if_pos h]

theorem splitFirst_cons_of_not_starts {sep rest : List α} {c : α} (h : ¬ sep <+: c :: rest) :
    splitFirst sep (c :: rest) = (splitFirst sep rest).map fun p => (c :: p.1, p.2) := by
  rw [splitFirst, if_neg h]

theorem splitFirst_sound {sep l a b : List α} (h : splitFirst sep l = some (a, b)) :
    l = a ++ sep ++ b := by
  induction l generalizing a b with
  | nil =>
    simp only [splitFirst] at h
    split at h
    · rename_i hs; cases h; simp [hs]
    · cases h
  | cons c rest ih =>
    simp only [splitFirst] at h
    split at h
    · rename_i hp
      cases h
      obtain ⟨t, ht⟩ := hp
      simp [← ht]
    · obtain ⟨⟨a', b'⟩, hs, he⟩ := Option.map_eq_some_iff.mp h
      cases he
      rw [ih hs]; simp

/-- The cut is at the first place: `sep` starts nowhere inside `a ++ sep` before the end of `a`. -/
theorem splitFirst_append {sep a : List α} (b : List α)
    (h : ∀ i < a.length, ¬ sep <+: (a ++ sep ++ b).drop i) :
    splitFirst sep (a ++ sep ++ b) = some (a, b) := by
  induction a with
  | nil =>
    have := splitFirst_of_starts (List.prefix_append sep b)
    simpa using this
  | cons c a ih =>
    have h0 : ¬ sep <+: c :: (a ++ sep ++ b) := by simpa using h 0 (by simp)
    have hrest : splitFirst sep (a ++ sep ++ b) = some (a, b) := by
      refine ih fun i hi => ?_
      simpa using h (i + 1) (by simpa using hi)
    rw [List.cons_append, List.cons_append, splitFirst_cons_of_not_starts h0, hrest]
    rfl

/-- No place where `sep` starts is before the cut. -/
theorem splitFirst_length_le {sep x y a b : List α} (h : splitFirst sep (x ++ sep ++ y) = some (a, b)) :
    a.length ≤ x.length := by
  induction x generalizing a b with
  | nil =>
    rw [List.nil_append, splitFirst_of_starts (List.prefix_append sep y)] at h
    cases h
    exact Nat.le_refl _
  | cons c x ih =>
    rw [List.cons_append, List.cons_append] at h
    by_cases hp : sep <+: c :: (x ++ sep ++ y)
    · rw [splitFirst_of_starts hp] at h
      cases h
      exact Nat.zero_le _
    · rw [splitFirst_cons_of_not_starts hp] at h
      obtain ⟨⟨a', b'⟩, hs, he⟩ := Option.map_eq_some_iff.mp h
      cases he
      exact Nat.succ_le_succ (ih hs)

/-- What is put before `sep` is what is cut off, exactly when `sep` does not start inside it. -/
theorem splitFirst_append_iff {sep a : List α} (b : List α) (hsep : sep ≠ []) :
    splitFirst sep (a ++ sep ++ b) = some (a, b) ↔ ¬ sep <:+: a ++ sep.dropLast := by
  have hlast : a ++ sep ++ b = a ++ sep.dropLast ++ (sep.getLast hsep :: b) := by
    have hconcat := List.dropLast_append_getLast hsep
    calc a ++ sep ++ b = a ++ (sep.dropLast ++ [sep.getLast hsep]) ++ b := by rw [hconcat]
      _ = a ++ sep.dropLast ++ (sep.getLast hsep :: b) := by simp
  have hpos : 0 < sep.length := List.length_pos_of_ne_nil hsep
  constructor
  · rintro h ⟨x, y, hxy⟩
    have hsplit : a ++ sep ++ b = x ++ sep ++ (y ++ sep.getLast hsep :: b) := by
      rw [hlast, ← hxy]
      simp
    rw [hsplit] at h
    have hle := splitFirst_length_le h
    have hlength := congrArg List.length hxy
    simp only [List.length_append, List.length_dropLast] at hlength
    omega
  · intro h
    refine splitFirst_append b fun i hi hstart => h ?_
    rw [hlast, List.drop_append_of_le_length (by simp; omega)] at hstart
    have hlength : sep.length ≤ ((a ++ sep.dropLast).drop i).length := by
      simp only [List.length_drop, List.length_append, List.length_dropLast]
      omega
    have hprefix := List.prefix_of_prefix_length_le hstart (List.prefix_append _ _) hlength
    exact hprefix.isInfix.trans (List.drop_suffix _ _).isInfix

theorem splitFirst_eq_none {sep l : List α} : splitFirst sep l = none ↔ ¬ sep <:+: l := by
  constructor
  · rintro h ⟨a, b, rfl⟩
    induction a with
    | nil =>
      rw [splitFirst_of_starts (by simp)] at h
      cases h
    | cons c a ih =>
      by_cases hp : sep <+: c :: (a ++ sep ++ b)
      · rw [List.cons_append, List.cons_append, splitFirst_of_starts hp] at h
        cases h
      · rw [List.cons_append, List.cons_append, splitFirst_cons_of_not_starts hp,
          Option.map_eq_none_iff] at h
        exact ih h
  · intro h
    cases hs : splitFirst sep l with
    | none => rfl
    | some p => exact absurd ⟨p.1, p.2, (splitFirst_sound hs).symm⟩ h

theorem occurs_iff {sep l : List α} : occurs sep l = true ↔ sep <:+: l := by
  rw [occurs, Option.isSome_iff_ne_none, Ne, splitFirst_eq_none, not_not]

theorem occurs_eq_false {sep l : List α} : occurs sep l = false ↔ ¬ sep <:+: l := by
  rw [← occurs_iff]; simp

/-! ## A separator and characters that are not in it -/

omit [DecidableEq α] in
theorem not_starts_of_not_mem {sep l : List α} {c : α} (hsep : sep ≠ []) (hc : c ∉ sep) :
    ¬ sep <+: c :: l := by
  rintro ⟨tail, h⟩
  cases sep with
  | nil => exact hsep rfl
  | cons x xs => exact hc ((List.cons.inj h).1 ▸ List.mem_cons_self)

omit [DecidableEq α] in
theorem infix_cons_iff_of_not_mem {sep l : List α} {c : α} (hsep : sep ≠ []) (hc : c ∉ sep) :
    sep <:+: c :: l ↔ sep <:+: l := by
  rw [List.infix_cons_iff, or_iff_right (not_starts_of_not_mem hsep hc)]

omit [DecidableEq α] in
theorem infix_append_cons_iff {sep a l : List α} {c : α} (hsep : sep ≠ []) (hc : c ∉ sep) :
    sep <:+: a ++ c :: l ↔ sep <:+: a ∨ sep <:+: l := by
  rw [List.infix_append_iff, infix_cons_iff_of_not_mem hsep hc]
  constructor
  · rintro (ha | hl | ⟨t₁, t₂, rfl, hsuffix, tail, htail⟩)
    · exact .inl ha
    · exact .inr hl
    · -- what lies on both sides of `c` would contain it
      cases t₂ with
      | nil => exact .inl (by simpa using hsuffix.isInfix)
      | cons x xs =>
        have hx : x = c := (List.cons.inj htail).1
        exact absurd (by simp [hx]) hc
  · exact Or.imp_right .inl

/-- The cut is behind a text in which `sep` does not start. -/
theorem splitFirst_append_cons {sep a : List α} {c : α} (l : List α) (ha : ¬ sep <:+: a) (hc : c ∉ sep) :
    splitFirst sep (a ++ c :: l) = (splitFirst sep l).map fun p => (a ++ c :: p.1, p.2) := by
  have hsep : sep ≠ [] := by
    rintro rfl
    exact ha List.nil_infix
  induction a with
  | nil => exact splitFirst_cons_of_not_starts (not_starts_of_not_mem hsep hc)
  | cons x a ih =>
    have hstart : ¬ sep <+: x :: (a ++ c :: l) := by
      intro h
      rcases List.prefix_or_prefix_of_prefix h (List.prefix_append (x :: a) (c :: l)) with hin | ⟨t, rfl⟩
      · exact ha hin.isInfix
      · have htail := (List.prefix_append_right_inj (x :: a)).mp h
        cases t with
        | nil => exact ha (by simp)
        | cons y ys =>
          have hy : y = c := (List.cons_prefix_cons.mp htail).1
          exact hc (by simp [hy])
    rw [List.cons_append, splitFirst_cons_of_not_starts hstart,
      ih fun h => ha (List.infix_cons_iff.mpr (.inr h)), Option.map_map]
    rfl

theorem splitFirst_append_of_some {sep a x y : List α} (b : List α)
    (h : splitFirst sep a = some (x, y)) (hsep : sep ≠ []) :
    splitFirst sep (a ++ b) = some (x, y ++ b) := by
  rw [splitFirst_sound h, List.append_assoc _ _ b, splitFirst_append_iff _ hsep]
  have hfirst := h
  rw [splitFirst_sound h, splitFirst_append_iff _ hsep] at hfirst
  exact hfirst

/-- The first occurrence of `c` ends the first line; what followed `c` is all behind it. -/
theorem splitFirst_singleton (c : α) (a b : List α) :
    ∃ rest, splitFirst [c] (a ++ c :: b) = some (a.takeWhile (· ≠ c), rest) ∧ b <:+ rest ∧
      (c ∉ a → rest = b) := by
  induction a with
  | nil => exact ⟨b, splitFirst_of_starts (by simp), List.suffix_refl b, fun _ => rfl⟩
  | cons x a ih =>
    by_cases hx : x = c
    · subst hx
      refine ⟨a ++ x :: b, ?_, ?_, fun h => absurd List.mem_cons_self h⟩
      · rw [List.cons_append, splitFirst_of_starts (by simp)]
        simp
      · exact (List.suffix_cons x b).trans (List.suffix_append a _)
    · have hstart : ¬ [c] <+: x :: (a ++ c :: b) := by
        rw [List.cons_prefix_cons]
        exact fun h => hx h.1.symm
      obtain ⟨rest, hsplit, hsuffix, hrest⟩ := ih
      refine ⟨rest, ?_, hsuffix, fun h => hrest fun ha => h (List.mem_cons_of_mem x ha)⟩
      rw [List.cons_append, splitFirst_cons_of_not_starts hstart, hsplit]
      simp [hx]

theorem takeWhile_eq_self {c : α} {a : List α} (h : c ∉ a) : a.takeWhile (· ≠ c) = a := by
  rw [List.takeWhile_eq_self_iff]
  intro x hx
  exact decide_eq_true fun he => h (he ▸ hx)

theorem not_mem_takeWhile (c : α) (a : List α) : c ∉ a.takeWhile (· ≠ c) := by
  intro h
  simpa using List.mem_takeWhile_imp h

theorem replaceEach_of_not_mem {c : α} {by_ l : List α} (h : c ∉ l) : replaceEach c by_ l = l := by
  induction l with
  | nil => rfl
  | cons x l ih =>
    simp only [List.mem_cons, not_or] at h
    rw [replaceEach, List.flatMap_cons, if_neg (fun e => h.1 e.symm)]
    exact congrArg (x :: ·) (ih h.2)

theorem replaceEach_append (c : α) (by_ l l' : List α) :
    replaceEach c by_ (l ++ l') = replaceEach c by_ l ++ replaceEach c by_ l' :=
  List.flatMap_append

@[simp] theorem replaceEach_singleton (c : α) (by_ : List α) : replaceEach c by_ [c] = by_ := by
  simp [replaceEach]

theorem not_mem_of_mem_splitOn {c : α} {l part : List α} (h : part ∈ l.splitOn c) : c ∉ part := by
  induction l generalizing part with
  | nil =>
    rw [List.splitOn_nil, List.mem_singleton] at h
    simp [h]
  | cons x l ih =>
    rw [List.splitOn_cons_eq_if_modifyHead] at h
    split at h
    · rcases List.mem_cons.mp h with rfl | h
      · exact List.not_mem_nil
      · exact ih h
    · rename_i hne
      cases hsplit : l.splitOn c with
      | nil => exact absurd hsplit (List.splitOn_ne_nil c l)
      | cons first rest =>
        rw [hsplit] at h ih
        rw [List.modifyHead_cons] at h
        rcases List.mem_cons.mp h with rfl | h
        · have hfirst := ih List.mem_cons_self
          simp only [List.mem_cons, not_or]
          exact ⟨fun heq => hne (by simp [heq]), hfirst⟩
        · exact ih (List.mem_cons_of_mem _ h)

end

/-! ## ASCII characters -/

theorem isLower_iff_toNat {c : Char} : c.isLower = true ↔ 97 ≤ c.toNat ∧ c.toNat ≤ 122 := by
  change (decide (c.val ≥ 'a'.val) && decide (c.val ≤ 'z'.val)) = true ↔ _
  rw [Bool.and_eq_true, decide_eq_true_eq, decide_eq_true_eq]
  exact Iff.rfl

theorem isUpper_iff_toNat {c : Char} : c.isUpper = true ↔ 65 ≤ c.toNat ∧ c.toNat ≤ 90 := by
  change decide (c.val ≥ 'A'.val ∧ c.val ≤ 'Z'.val) = true ↔ _
  rw [decide_eq_true_eq]
  exact Iff.rfl

theorem isAlphanum_iff {c : Char} :
    c.isAlphanum = true ↔ c.isUpper = true ∨ c.isLower = true ∨ c.isDigit = true := by
  change ((c.isUpper || c.isLower) || c.isDigit) = true ↔ _
  rw [Bool.or_eq_true, Bool.or_eq_true, or_assoc]

end PyClaw
