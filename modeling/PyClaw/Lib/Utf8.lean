import Mathlib.Data.List.Basic
import Mathlib.Data.List.Induction
import Mathlib.Order.Basic

/-!
# Lib.Utf8

UTF-8, with texts as lists of code points, lone surrogates included. `decode` reads as
`bytes.decode("utf-8", errors="replace")` does: every longest beginning of a character that is not
completed, and every byte that begins none, becomes one replacement character.

* `decode_reads`: a decoded text is made of characters and of faulty stretches.
* `Reads.marks_le`, `Reads.eq_of_marks`: the replacement character weighs more than any stretch it replaces,
  so a text weighs as much as the bytes it was read from only if nothing was replaced.
* `decode_encode`: well-formed bytes are read back.
-/

namespace PyClaw

namespace Utf8

/-- A code point that has an encoding: no surrogate. -/
def IsScalar (n : Nat) : Prop := n < 0x110000 ∧ ¬ (0xD800 ≤ n ∧ n ≤ 0xDFFF)

instance (n : Nat) : Decidable (IsScalar n) := inferInstanceAs (Decidable (_ ∧ _))

def replacement : Nat := 0xFFFD

/-- The bytes of one character. -/
def encodePoint (n : Nat) : List UInt8 :=
  if n < 0x80 then [UInt8.ofNat n]
  else if n < 0x800 then [UInt8.ofNat (0xC0 + n / 64), UInt8.ofNat (0x80 + n % 64)]
  else if n < 0x10000 then
    [UInt8.ofNat (0xE0 + n / 4096), UInt8.ofNat (0x80 + n / 64 % 64), UInt8.ofNat (0x80 + n % 64)]
  else
    [UInt8.ofNat (0xF0 + n / 262144), UInt8.ofNat (0x80 + n / 4096 % 64),
      UInt8.ofNat (0x80 + n / 64 % 64), UInt8.ofNat (0x80 + n % 64)]

def encodeAll (text : List Nat) : List UInt8 := text.flatMap encodePoint

/-- `text.encode("utf-8")`; `none` is the `UnicodeEncodeError` for a lone surrogate. -/
def encode (text : List Nat) : Option (List UInt8) :=
  if ∀ n ∈ text, IsScalar n then some (encodeAll text) else none

/-- Well-formed bytes. -/
def Valid (bytes : List UInt8) : Prop := ∃ text, encode text = some bytes

/-! ## Decoding -/

def IsTail (b : Nat) : Prop := 0x80 ≤ b ∧ b ≤ 0xBF

/-- The bytes that may follow the first byte `a` of a longer character. -/
def IsSecond (a b : Nat) : Prop :=
  IsTail b ∧ (a = 0xE0 → 0xA0 ≤ b) ∧ (a = 0xED → b ≤ 0x9F) ∧ (a = 0xF0 → 0x90 ≤ b) ∧
    (a = 0xF4 → b ≤ 0x8F)

instance (b : Nat) : Decidable (IsTail b) := inferInstanceAs (Decidable (_ ∧ _))

instance (a b : Nat) : Decidable (IsSecond a b) := inferInstanceAs (Decidable (_ ∧ _))

/-- Bytes are a character, the beginning of one, or neither. -/
inductive Class where
  | char (n : Nat)
  | more
  | bad
  deriving DecidableEq, Repr

def classify : List UInt8 → Class
  | [a] =>
    let a := a.toNat
    if a < 0x80 then .char a else if 0xC2 ≤ a ∧ a ≤ 0xF4 then .more else .bad
  | [a, b] =>
    let (a, b) := (a.toNat, b.toNat)
    if 0xC2 ≤ a ∧ a ≤ 0xDF ∧ IsTail b then .char ((a - 0xC0) * 64 + (b - 0x80))
    else if 0xE0 ≤ a ∧ a ≤ 0xF4 ∧ IsSecond a b then .more
    else .bad
  | [a, b, c] =>
    let (a, b, c) := (a.toNat, b.toNat, c.toNat)
    if 0xE0 ≤ a ∧ a ≤ 0xEF ∧ IsSecond a b ∧ IsTail c then
      .char ((a - 0xE0) * 4096 + (b - 0x80) * 64 + (c - 0x80))
    else if 0xF0 ≤ a ∧ a ≤ 0xF4 ∧ IsSecond a b ∧ IsTail c then .more
    else .bad
  | [a, b, c, d] =>
    let (a, b, c, d) := (a.toNat, b.toNat, c.toNat, d.toNat)
    if 0xF0 ≤ a ∧ a ≤ 0xF4 ∧ IsSecond a b ∧ IsTail c ∧ IsTail d then
      .char ((a - 0xF0) * 262144 + (b - 0x80) * 4096 + (c - 0x80) * 64 + (d - 0x80))
    else .bad
  | _ => .bad

/-- The decoder with the beginning of a character in `held`. A byte that does not go on with it is read
again as the first of its own. -/
def decodeFrom (held : List UInt8) : List UInt8 → List Nat
  | [] => if held = [] then [] else [replacement]
  | b :: rest =>
    match classify (held ++ [b]) with
    | .char n => n :: decodeFrom [] rest
    | .more => decodeFrom (held ++ [b]) rest
    | .bad =>
      if held = [] then replacement :: decodeFrom [] rest
      else
        replacement ::
          match classify [b] with
          | .char n => n :: decodeFrom [] rest
          | .more => decodeFrom [b] rest
          | .bad => replacement :: decodeFrom [] rest

def decode (bytes : List UInt8) : List Nat := decodeFrom [] bytes

/-! ## What is read -/

/-- The bytes of the replacement character. -/
def IsMark (b : UInt8) : Bool := b.toNat = 0xEF ∨ b.toNat = 0xBF ∨ b.toNat = 0xBD

def marks (bytes : List UInt8) : Nat := bytes.countP IsMark

/-- Bytes read as characters and as faulty stretches, each of which is lighter than the replacement. -/
inductive Reads : List UInt8 → List Nat → Prop
  | nil : Reads [] []
  | char {n : Nat} {bytes : List UInt8} {text : List Nat} (hn : IsScalar n) (h : Reads bytes text) :
      Reads (encodePoint n ++ bytes) (n :: text)
  | bad {stretch bytes : List UInt8} {text : List Nat} (hmarks : marks stretch ≤ 2)
      (h : Reads bytes text) : Reads (stretch ++ bytes) (replacement :: text)

theorem eq_encodePoint_of_classify {bytes : List UInt8} {n : Nat} (h : classify bytes = .char n) :
    IsScalar n ∧ bytes = encodePoint n := by
  match bytes, h with
  | [a], h =>
    have ha := a.toNat_lt
    simp only [classify] at h
    split at h
    · obtain rfl := Class.char.inj h
      refine ⟨⟨by omega, by omega⟩, ?_⟩
      rw [encodePoint, if_pos ‹_›]
      simp
    · split at h <;> cases h
  | [a, b], h =>
    have ha := a.toNat_lt
    have hb := b.toNat_lt
    simp only [classify] at h
    split at h
    · rename_i hab
      obtain rfl := Class.char.inj h
      simp only [IsTail] at hab
      refine ⟨⟨by omega, by omega⟩, ?_⟩
      rw [encodePoint, if_neg (by omega), if_pos (by omega)]
      simp only [List.cons.injEq, ← UInt8.toNat_inj, UInt8.toNat_ofNat', and_true]
      omega
    · split at h <;> cases h
  | [a, b, c], h =>
    have ha := a.toNat_lt
    have hb := b.toNat_lt
    have hc := c.toNat_lt
    simp only [classify] at h
    split at h
    · rename_i habc
      obtain rfl := Class.char.inj h
      simp only [IsSecond, IsTail] at habc
      refine ⟨⟨by omega, by omega⟩, ?_⟩
      rw [encodePoint, if_neg (by omega), if_neg (by omega), if_pos (by omega)]
      simp only [List.cons.injEq, ← UInt8.toNat_inj, UInt8.toNat_ofNat', and_true]
      omega
    · split at h <;> cases h
  | [a, b, c, d], h =>
    have ha := a.toNat_lt
    have hb := b.toNat_lt
    have hc := c.toNat_lt
    have hd := d.toNat_lt
    simp only [classify] at h
    split at h
    · rename_i habcd
      obtain rfl := Class.char.inj h
      simp only [IsSecond, IsTail] at habcd
      refine ⟨⟨by omega, by omega⟩, ?_⟩
      rw [encodePoint, if_neg (by omega), if_neg (by omega), if_neg (by omega)]
      simp only [List.cons.injEq, ← UInt8.toNat_inj, UInt8.toNat_ofNat', and_true]
      omega
    · cases h

theorem marks_le_length (bytes : List UInt8) : marks bytes ≤ bytes.length := List.countP_le_length

theorem marks_singleton_le (b : UInt8) : marks [b] ≤ 2 := Nat.le_succ_of_le (marks_le_length [b])

/-- The beginning of a character has at most two marks: one of four bytes begins with none. -/
theorem marks_le_of_more {held : List UInt8} (h : classify held = .more) : marks held ≤ 2 := by
  match held, h with
  | [a], _ => exact marks_singleton_le a
  | [a, b], _ => exact marks_le_length [a, b]
  | [a, b, c], h =>
    simp only [classify] at h
    split at h
    · cases h
    · split at h
      · rename_i habc
        have hlight : ¬ IsMark a = true := by
          simp only [IsMark, decide_eq_true_eq]
          omega
        rw [marks, List.countP_cons_of_neg hlight]
        exact List.countP_le_length
      · cases h
  | [a, b, c, d], h =>
    simp only [classify] at h
    split at h <;> cases h

theorem marks_append (bytes bytes' : List UInt8) : marks (bytes ++ bytes') = marks bytes + marks bytes' :=
  List.countP_append

/-- What one byte does when no character has begun. -/
theorem reads_first {b : UInt8} {rest : List UInt8} (hnil : Reads rest (decodeFrom [] rest))
    (hmore : Reads (b :: rest) (decodeFrom [b] rest) ∨ classify [b] ≠ .more) :
    Reads (b :: rest) (match classify [b] with
      | .char n => n :: decodeFrom [] rest
      | .more => decodeFrom [b] rest
      | .bad => replacement :: decodeFrom [] rest) := by
  cases hclass : classify [b] with
  | char n =>
    obtain ⟨hn, hbytes⟩ := eq_encodePoint_of_classify hclass
    rw [← List.singleton_append, hbytes]
    exact .char hn hnil
  | more => exact hmore.resolve_right (not_not_intro hclass)
  | bad => exact @Reads.bad [b] _ _ (marks_singleton_le b) hnil

/-- The decoder reads its input, by induction on the bytes that are left. -/
theorem decodeFrom_reads {held : List UInt8} (hheld : held = [] ∨ classify held = .more)
    (bytes : List UInt8) : Reads (held ++ bytes) (decodeFrom held bytes) := by
  induction bytes generalizing held with
  | nil =>
    rw [decodeFrom, List.append_nil]
    split
    · rename_i hempty
      rw [hempty]
      exact .nil
    · rename_i hne
      have hbad := Reads.bad (marks_le_of_more (hheld.resolve_left hne)) .nil
      rwa [List.append_nil] at hbad
  | cons b rest ih =>
    have hnil := ih (.inl rfl)
    have hfirst : Reads (b :: rest) (decodeFrom [b] rest) ∨ classify [b] ≠ .more := by
      by_cases hmore : classify [b] = .more
      · exact .inl (ih (.inr hmore))
      · exact .inr hmore
    rw [decodeFrom]
    have hsplit : held ++ b :: rest = (held ++ [b]) ++ rest := List.append_cons ..
    cases hclass : classify (held ++ [b]) with
    | char n =>
      obtain ⟨hn, hbytes⟩ := eq_encodePoint_of_classify hclass
      rw [hsplit, hbytes]
      exact .char hn hnil
    | more =>
      rw [hsplit]
      exact ih (.inr hclass)
    | bad =>
      by_cases hempty : held = []
      · simp only [if_pos hempty]
        subst hempty
        exact @Reads.bad [b] _ _ (marks_singleton_le b) hnil
      · simp only [if_neg hempty]
        exact .bad (marks_le_of_more (hheld.resolve_left hempty)) (reads_first hnil hfirst)

theorem decode_reads (bytes : List UInt8) : Reads bytes (decode bytes) := decodeFrom_reads (.inl rfl) bytes

/-! ## Weights -/

theorem encodeAll_cons (n : Nat) (text : List Nat) :
    encodeAll (n :: text) = encodePoint n ++ encodeAll text := List.flatMap_cons

theorem marks_replacement : marks (encodePoint replacement) = 3 := by decide

namespace Reads

variable {bytes : List UInt8} {text : List Nat}

theorem scalar (h : Reads bytes text) : ∀ n ∈ text, IsScalar n := by
  induction h with
  | nil => simp
  | char hn _ ih =>
    intro m hm
    rcases List.mem_cons.mp hm with rfl | hm
    · exact hn
    · exact ih m hm
  | bad _ _ ih =>
    intro m hm
    rcases List.mem_cons.mp hm with rfl | hm
    · decide
    · exact ih m hm

theorem marks_le (h : Reads bytes text) : marks bytes ≤ marks (encodeAll text) := by
  induction h with
  | nil => simp [marks]
  | char _ _ ih =>
    rw [encodeAll_cons, marks_append, marks_append]
    omega
  | bad hmarks _ ih =>
    rw [encodeAll_cons, marks_append, marks_append, marks_replacement]
    omega

/-- Bytes of the same weight as their text are its encoding. -/
theorem eq_of_marks (h : Reads bytes text) (hmarks : marks bytes = marks (encodeAll text)) :
    bytes = encodeAll text := by
  induction h with
  | nil => rfl
  | char _ _ ih =>
    rw [encodeAll_cons, marks_append, marks_append] at hmarks
    rw [encodeAll_cons, ih (by omega)]
  | bad hstretch hrest _ =>
    have hle := hrest.marks_le
    rw [encodeAll_cons, marks_append, marks_append, marks_replacement] at hmarks
    omega

end Reads

/-! ## Well-formed bytes -/

theorem classify_encodePoint {n : Nat} (hn : IsScalar n) : classify (encodePoint n) = .char n := by
  obtain ⟨hmax, hsurrogate⟩ := hn
  rw [encodePoint]
  split
  · simp only [classify, UInt8.toNat_ofNat']
    split
    · rw [Class.char.injEq]
      omega
    · omega
  · split
    · simp only [classify, UInt8.toNat_ofNat', IsTail]
      split
      · rw [Class.char.injEq]
        omega
      · omega
    · split
      · simp only [classify, UInt8.toNat_ofNat', IsSecond, IsTail]
        split
        · rw [Class.char.injEq]
          omega
        · omega
      · simp only [classify, UInt8.toNat_ofNat', IsSecond, IsTail]
        split
        · rw [Class.char.injEq]
          omega
        · omega

/-- What is left of a character or of a beginning without its last byte calls for more. -/
theorem classify_dropLast {held : List UInt8} {b : UInt8} (hheld : held ≠ [])
    (h : classify (held ++ [b]) ≠ .bad) : classify held = .more := by
  match held, hheld, h with
  | [a], _, h =>
    simp only [classify, List.singleton_append] at h ⊢
    split at h
    · rw [if_neg (by omega), if_pos (by omega)]
    · split at h
      · rw [if_neg (by omega), if_pos (by omega)]
      · exact absurd rfl h
  | [a, c], _, h =>
    simp only [classify, List.cons_append, List.nil_append] at h ⊢
    split at h
    · rename_i hacb
      rw [if_neg (by omega), if_pos ⟨by omega, by omega, hacb.2.2.1⟩]
    · split at h
      · rename_i hacb
        rw [if_neg (by omega), if_pos ⟨by omega, by omega, hacb.2.2.1⟩]
      · exact absurd rfl h
  | [a, c, d], _, h =>
    simp only [classify, List.cons_append, List.nil_append] at h ⊢
    split at h
    · rename_i hacdb
      rw [if_neg (by omega), if_pos ⟨hacdb.1, hacdb.2.1, hacdb.2.2.1, hacdb.2.2.2.1⟩]
    · exact absurd rfl h
  | _ :: _ :: _ :: _ :: rest, _, h => cases rest <;> exact absurd rfl h

theorem classify_begin {held : List UInt8} (hheld : held ≠ []) {part : List UInt8} (hpart : part ≠ [])
    (h : classify (held ++ part) ≠ .bad) : classify held = .more := by
  induction part using List.reverseRecOn with
  | nil => exact absurd rfl hpart
  | append_singleton part b ih =>
    rw [← List.append_assoc] at h
    have hmore := classify_dropLast (by simp [hheld]) h
    by_cases hempty : part = []
    · rwa [hempty, List.append_nil] at hmore
    · exact ih hempty (by simp [hmore])

/-- The rest of a character completes it. -/
theorem decodeFrom_of_char {held part rest : List UInt8} {n : Nat} (hpart : part ≠ [])
    (h : classify (held ++ part) = .char n) :
    decodeFrom held (part ++ rest) = n :: decodeFrom [] rest := by
  induction part generalizing held with
  | nil => exact absurd rfl hpart
  | cons b part ih =>
    rw [List.cons_append, decodeFrom]
    by_cases hempty : part = []
    · subst hempty
      rw [h]
      rfl
    · rw [List.append_cons] at h
      have hgood : classify (held ++ [b] ++ part) ≠ .bad := by
        rw [h]
        exact Class.noConfusion
      rw [classify_begin (by simp) hempty hgood]
      exact ih hempty h

theorem decode_encode {text : List Nat} (h : ∀ n ∈ text, IsScalar n) : decode (encodeAll text) = text := by
  induction text with
  | nil => rfl
  | cons n text ih =>
    have hn := classify_encodePoint (h n List.mem_cons_self)
    have hne : encodePoint n ≠ [] := by
      intro hempty
      rw [hempty] at hn
      cases hn
    rw [encodeAll_cons, decode, decodeFrom_of_char hne hn, ← decode,
      ih fun m hm => h m (List.mem_cons_of_mem n hm)]

/-- Bytes are well-formed exactly if they are the encoding of the text read from them. -/
theorem valid_iff {bytes : List UInt8} : Valid bytes ↔ bytes = encodeAll (decode bytes) := by
  constructor
  · rintro ⟨text, h⟩
    rw [encode] at h
    split at h
    · rename_i hscalar
      obtain rfl := Option.some.inj h
      rw [decode_encode hscalar]
    · cases h
  · intro h
    refine ⟨decode bytes, ?_⟩
    rw [encode, if_pos (decode_reads bytes).scalar, ← h]

/-! ## ASCII -/

/-- An ASCII byte occurs in an encoded character only as that character. -/
theorem mem_encodePoint_ascii {n : Nat} {b : UInt8} (hb : b.toNat < 0x80) (hn : IsScalar n) :
    b ∈ encodePoint n ↔ n = b.toNat := by
  obtain ⟨hmax, -⟩ := hn
  rw [encodePoint]
  split
  · simp only [List.mem_singleton, ← UInt8.toNat_inj, UInt8.toNat_ofNat']
    omega
  · split
    · simp only [List.mem_cons, List.not_mem_nil, or_false, ← UInt8.toNat_inj, UInt8.toNat_ofNat']
      omega
    · split
      · simp only [List.mem_cons, List.not_mem_nil, or_false, ← UInt8.toNat_inj, UInt8.toNat_ofNat']
        omega
      · simp only [List.mem_cons, List.not_mem_nil, or_false, ← UInt8.toNat_inj, UInt8.toNat_ofNat']
        omega

theorem mem_encodeAll_ascii {text : List Nat} {b : UInt8} (hb : b.toNat < 0x80)
    (htext : ∀ n ∈ text, IsScalar n) : b ∈ encodeAll text ↔ b.toNat ∈ text := by
  rw [encodeAll, List.mem_flatMap]
  constructor
  · rintro ⟨n, hn, hmem⟩
    obtain rfl := (mem_encodePoint_ascii hb (htext n hn)).mp hmem
    exact hn
  · intro hmem
    exact ⟨_, hmem, (mem_encodePoint_ascii hb (htext _ hmem)).mpr rfl⟩

/-- An ASCII character that is read stands in the bytes. -/
theorem Reads.mem_of_mem {bytes : List UInt8} {text : List Nat} (h : Reads bytes text) {b : UInt8}
    (hb : b.toNat < 0x80) (hmem : b.toNat ∈ text) : b ∈ bytes := by
  induction h with
  | nil => cases hmem
  | char hn _ ih =>
    rw [List.mem_append]
    rcases List.mem_cons.mp hmem with heq | hmem
    · exact .inl ((mem_encodePoint_ascii hb hn).mpr heq.symm)
    · exact .inr (ih hmem)
  | bad _ _ ih =>
    rw [List.mem_append]
    rcases List.mem_cons.mp hmem with heq | hmem
    · rw [heq] at hb
      exact absurd hb (by decide)
    · exact .inr (ih hmem)

/-! ## Texts without lone surrogates -/

/-- The code points of a text. -/
def points (text : List Char) : List Nat := text.map Char.toNat

/-- The text of code points; none if one is a lone surrogate, for which there is no encoding. -/
def textOf (codes : List Nat) : Option (List Char) :=
  if ∀ n ∈ codes, IsScalar n then some (codes.map Char.ofNat) else none

theorem isScalar_toNat (c : Char) : IsScalar c.toNat := by
  have hc : c.toNat < 0xD800 ∨ 0xDFFF < c.toNat ∧ c.toNat < 0x110000 := c.valid
  unfold IsScalar
  omega

theorem toNat_ofNat {n : Nat} (h : IsScalar n) : (Char.ofNat n).toNat = n := by
  have hn : n.isValidChar := by
    unfold IsScalar at h
    unfold Nat.isValidChar
    omega
  rw [Char.ofNat, dif_pos hn]
  rfl

theorem textOf_points (text : List Char) : textOf (points text) = some text := by
  have hscalar : ∀ n ∈ points text, IsScalar n := by
    intro n hn
    obtain ⟨c, -, rfl⟩ := List.mem_map.mp hn
    exact isScalar_toNat c
  rw [textOf, if_pos hscalar, points, List.map_map]
  congr 1
  exact (List.map_congr_left fun c _ => Char.ofNat_toNat c).trans (List.map_id text)

theorem points_of_textOf {codes : List Nat} {text : List Char} (h : textOf codes = some text) :
    codes = points text := by
  unfold textOf at h
  split at h
  · rename_i hscalar
    cases h
    rw [points, List.map_map]
    exact ((List.map_congr_left fun n hn => toNat_ofNat (hscalar n hn)).trans (List.map_id codes)).symm
  · cases h

theorem points_injective : Function.Injective points :=
  List.map_injective_iff.mpr fun _ _ h => Char.toNat_inj.mp h

end Utf8

end PyClaw
