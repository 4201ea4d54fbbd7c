import Mathlib
import PyClaw.Lib.Text

/-!
# Lib.Url

The http and https URLs of a text, and the host that a client takes from one: the authority reaches to the
first slash, question mark or hash, the host is behind its last `@`, and a port follows a colon. A URL ends
at the first character that cannot be in one.

* `linkAt_append`: what a URL is does not depend on what follows its end.
* `mem_authorities_append_cons`: the URLs of two pieces with such a character between them.
-/

namespace PyClaw

namespace Url

/-- An ASCII character of the generic URI syntax. -/
def uriChar (c : Char) : Bool := c.isAlphanum || "-._~:/?#[]@!$&'()*+,;=%".toList.contains c

/-- Clients take other letters as well, but no white space. -/
def linkChar (isSpace : Char → Bool) (c : Char) : Bool := uriChar c || (128 ≤ c.toNat && !isSpace c)

def authorityChar (isSpace : Char → Bool) (c : Char) : Bool :=
  linkChar isSpace c && !("/?#".toList.contains c)

/-- What follows `http://` or `https://`, in letters of either case. -/
def schemeRest (text : List Char) : Option (List Char) :=
  if "http://".toList <+: text.map Char.toLower then some (text.drop 7)
  else if "https://".toList <+: text.map Char.toLower then some (text.drop 8)
  else none

/-- The authority of the URL that the text begins with. -/
def linkAt (isSpace : Char → Bool) (text : List Char) : Option (List Char) :=
  (schemeRest text).map fun rest => rest.takeWhile (authorityChar isSpace)

/-- The authorities of the URLs in a text. -/
def authorities (isSpace : Char → Bool) (text : List Char) : List (List Char) :=
  text.tails.filterMap (linkAt isSpace)

/-- What is behind the last `@`. -/
def behindUserInfo (authority : List Char) : List Char :=
  (authority.reverse.takeWhile (· ≠ '@')).reverse

/-- An address in brackets, or what is before the port. -/
def hostBefore : List Char → List Char
  | '[' :: rest => '[' :: rest.takeWhile (· ≠ ']') ++ [']']
  | text => text.takeWhile (· ≠ ':')

def hostOf (authority : List Char) : List Char := hostBefore (behindUserInfo authority)

/-! ## Letters -/

theorem toLower_of_not_isUpper {c : Char} (h : c.isUpper = false) : c.toLower = c := by
  simp only [Char.isUpper, decide_eq_false_iff_not] at h
  rw [Char.toLower, dif_neg]
  exact h

theorem toLower_of_isUpper {c : Char} (h : c.isUpper = true) : c.toLower.isLower = true := by
  simp only [Char.isUpper, decide_eq_true_eq] at h
  rw [Char.toLower, dif_pos h]
  obtain ⟨hA, hZ⟩ := h
  have hA' : 65 ≤ c.val.toNat := hA
  have hZ' : c.val.toNat ≤ 90 := hZ
  have hsum : (c.val + ('a'.val - 'A'.val)).toNat = c.val.toNat + 32 := by
    rw [UInt32.toNat_add]
    have hstep : ('a'.val - 'A'.val).toNat = 32 := by decide
    omega
  have hlow : 'a'.val ≤ c.val + ('a'.val - 'A'.val) := by
    rw [UInt32.le_iff_toNat_le, hsum]
    exact Nat.le_trans (by decide : 'a'.val.toNat ≤ 65 + 32) (by omega)
  have hhigh : c.val + ('a'.val - 'A'.val) ≤ 'z'.val := by
    rw [UInt32.le_iff_toNat_le, hsum]
    exact Nat.le_trans (by omega) (by decide : 90 + 32 ≤ 'z'.val.toNat)
  rw [Char.isLower, Bool.and_eq_true, decide_eq_true_eq, decide_eq_true_eq]
  exact ⟨hlow, hhigh⟩

theorem uriChar_of_isLower {c : Char} (h : c.isLower = true) : uriChar c = true := by
  simp [uriChar, Char.isAlphanum, Char.isAlpha, h]

theorem uriChar_of_isUpper {c : Char} (h : c.isUpper = true) : uriChar c = true := by
  simp [uriChar, Char.isAlphanum, Char.isAlpha, h]

/-- A letter is in a URI if its lower case is. -/
theorem uriChar_of_toLower {c : Char} (h : uriChar c.toLower = true) : uriChar c = true := by
  cases hupper : c.isUpper with
  | true => exact uriChar_of_isUpper hupper
  | false => rwa [toLower_of_not_isUpper hupper] at h

theorem toNat_lt_of_uriChar {c : Char} (h : uriChar c = true) : c.toNat < 128 := by
  simp only [uriChar, Char.isAlphanum, Char.isAlpha, Char.isUpper, Char.isLower, Char.isDigit,
    Bool.or_eq_true, Bool.and_eq_true, decide_eq_true_eq, List.contains_iff_mem] at h
  rcases h with ((⟨-, h⟩ | ⟨-, h⟩) | ⟨-, h⟩) | h
  · exact Nat.lt_of_le_of_lt h (by decide)
  · exact Nat.lt_of_le_of_lt h (by decide)
  · exact Nat.lt_of_le_of_lt h (by decide)
  · have hmarks : ∀ c ∈ "-._~:/?#[]@!$&'()*+,;=%".toList, c.toNat < 128 :=
      List.all_iff_forall_prop.mp (by decide)
    exact hmarks c h

section
variable {isSpace : Char → Bool}

theorem linkChar_of_uriChar {c : Char} (h : uriChar c = true) : linkChar isSpace c = true := by
  simp [linkChar, h]

theorem linkChar_newline : linkChar isSpace '\n' = false := by simp [linkChar, uriChar]

theorem linkChar_of_authorityChar {c : Char} (h : authorityChar isSpace c = true) :
    linkChar isSpace c = true := by
  rw [authorityChar, Bool.and_eq_true] at h
  exact h.1

/-! ## The end of a URL -/

theorem prefix_of_prefix_append {α : Type} {p u v : List α} (h : p <+: u ++ v)
    (hv : ∀ c ∈ v.head?, c ∉ p) : p <+: u := by
  induction p generalizing u with
  | nil => exact List.nil_prefix
  | cons a p ih =>
    cases u with
    | nil =>
      obtain ⟨w, hw⟩ := h
      rw [List.nil_append] at hw
      exact absurd List.mem_cons_self (hv a (by rw [← hw]; rfl))
    | cons b u =>
      rw [List.cons_append, List.cons_prefix_cons] at h
      rw [List.cons_prefix_cons]
      exact ⟨h.1, ih h.2 fun c hc hmem => hv c hc (List.mem_cons_of_mem _ hmem)⟩

/-- The text ends a URL that is before it. -/
def Boundary (isSpace : Char → Bool) (text : List Char) : Prop :=
  ∀ c ∈ text.head?, linkChar isSpace c = false

theorem literal_prefix_append_iff {literal : List Char} (hliteral : ∀ c ∈ literal, uriChar c = true)
    {x tail : List Char} (htail : Boundary isSpace tail) :
    literal <+: (x ++ tail).map Char.toLower ↔ literal <+: x.map Char.toLower := by
  rw [List.map_append]
  constructor
  · intro h
    refine prefix_of_prefix_append h ?_
    intro c hc hmem
    rw [List.head?_map] at hc
    obtain ⟨d, hd, rfl⟩ := Option.map_eq_some_iff.mp hc
    have hlink := @linkChar_of_uriChar isSpace d (uriChar_of_toLower (hliteral _ hmem))
    rw [htail d hd] at hlink
    cases hlink
  · exact fun h => h.trans (List.prefix_append _ _)

theorem schemeRest_append {x tail : List Char} (htail : Boundary isSpace tail) :
    schemeRest (x ++ tail) = (schemeRest x).map (· ++ tail) := by
  have hhttp := @literal_prefix_append_iff isSpace "http://".toList (List.all_iff_forall_prop.mp (by decide)) x tail htail
  have hhttps := @literal_prefix_append_iff isSpace "https://".toList (List.all_iff_forall_prop.mp (by decide)) x tail htail
  unfold schemeRest
  rw [if_congr hhttp rfl rfl, if_congr hhttps rfl rfl]
  have hdrop : ∀ {literal : List Char}, literal <+: x.map Char.toLower →
      (x ++ tail).drop literal.length = x.drop literal.length ++ tail := by
    intro literal h
    have hlength := h.length_le
    rw [List.length_map] at hlength
    exact List.drop_append_of_le_length hlength
  split
  · rename_i h
    exact congrArg some (hdrop h)
  · split
    · rename_i h
      exact congrArg some (hdrop h)
    · rfl

theorem takeWhile_append_boundary {x tail : List Char} (htail : Boundary isSpace tail) :
    (x ++ tail).takeWhile (authorityChar isSpace) = x.takeWhile (authorityChar isSpace) := by
  induction x with
  | nil =>
    cases tail with
    | nil => rfl
    | cons c rest =>
      have hc := htail c rfl
      simp [authorityChar, hc]
  | cons c x ih => simp only [List.cons_append, List.takeWhile_cons, ih]

theorem linkAt_append {x tail : List Char} (htail : Boundary isSpace tail) :
    linkAt isSpace (x ++ tail) = linkAt isSpace x := by
  rw [linkAt, schemeRest_append htail, Option.map_map, linkAt]
  congr 1
  funext rest
  exact takeWhile_append_boundary htail

theorem mem_authorities {text a : List Char} :
    a ∈ authorities isSpace text ↔ ∃ rest, rest <:+ text ∧ linkAt isSpace rest = some a := by
  simp [authorities]

theorem suffix_of_suffix_append {α : Type} {t x y : List α} (h : t <:+ x ++ y) :
    t <:+ y ∨ ∃ x', t = x' ++ y ∧ x' <:+ x := by
  induction x with
  | nil => exact .inl h
  | cons b x ih =>
    rw [List.cons_append, List.suffix_cons_iff] at h
    rcases h with rfl | h
    · exact .inr ⟨b :: x, rfl, List.suffix_refl _⟩
    · rcases ih h with hy | ⟨x', rfl, hx⟩
      · exact .inl hy
      · exact .inr ⟨x', rfl, hx.trans (List.suffix_cons b x)⟩

theorem authorities_append {x tail a : List Char} (htail : Boundary isSpace tail)
    (ha : a ∈ authorities isSpace x) : a ∈ authorities isSpace (x ++ tail) := by
  obtain ⟨rest, ⟨before, hbefore⟩, hlink⟩ := mem_authorities.mp ha
  refine mem_authorities.mpr ⟨rest ++ tail, ⟨before, ?_⟩, (linkAt_append htail).trans hlink⟩
  rw [← hbefore, List.append_assoc]

theorem authorities_suffix {x y a : List Char} (h : x <:+ y) (ha : a ∈ authorities isSpace x) :
    a ∈ authorities isSpace y := by
  obtain ⟨rest, hrest, hlink⟩ := mem_authorities.mp ha
  exact mem_authorities.mpr ⟨rest, hrest.trans h, hlink⟩

/-- A URL is in one of two pieces with a character between them that ends it. -/
theorem mem_authorities_append_cons {x y a : List Char} {c : Char} (hc : linkChar isSpace c = false) :
    a ∈ authorities isSpace (x ++ c :: y) ↔ a ∈ authorities isSpace x ∨ a ∈ authorities isSpace y := by
  have hboundary : Boundary isSpace (c :: y) := by
    intro d hd
    obtain rfl := Option.some.inj hd
    exact hc
  constructor
  · intro h
    obtain ⟨rest, hrest, hlink⟩ := mem_authorities.mp h
    rcases suffix_of_suffix_append hrest with htail | ⟨x', rfl, hx⟩
    · rcases List.suffix_cons_iff.mp htail with rfl | htail
      · -- the character begins no URL
        have hempty := @linkAt_append isSpace [] (c :: y) hboundary
        rw [List.nil_append] at hempty
        rw [hempty] at hlink
        cases hlink
      · exact .inr (mem_authorities.mpr ⟨rest, htail, hlink⟩)
    · rw [linkAt_append hboundary] at hlink
      exact .inl (mem_authorities.mpr ⟨x', hx, hlink⟩)
  · rintro (h | h)
    · exact authorities_append hboundary h
    · exact authorities_suffix ⟨x ++ [c], by simp⟩ h

/-! ## Hosts -/

theorem authorityChar_of_mem {text a : List Char} (ha : a ∈ authorities isSpace text) :
    ∀ c ∈ a, authorityChar isSpace c = true := by
  obtain ⟨rest, -, hlink⟩ := mem_authorities.mp ha
  obtain ⟨tail, -, rfl⟩ := Option.map_eq_some_iff.mp hlink
  exact fun c hc => List.mem_takeWhile_imp hc

theorem behindUserInfo_of_not_mem {a : List Char} (h : '@' ∉ a) : behindUserInfo a = a := by
  rw [behindUserInfo, takeWhile_eq_self, List.reverse_reverse]
  rwa [List.mem_reverse]

theorem mem_of_mem_behindUserInfo {a : List Char} {c : Char} (h : c ∈ behindUserInfo a) : c ∈ a := by
  rw [behindUserInfo, List.mem_reverse] at h
  exact List.mem_reverse.mp ((List.takeWhile_prefix _).subset h)

theorem hostBefore_of_ne {x : List Char} (h : ∀ rest, x ≠ '[' :: rest) :
    hostBefore x = x.takeWhile (· ≠ ':') := by
  unfold hostBefore
  split
  · exact absurd rfl (h _)
  · rfl

end

end Url

end PyClaw
