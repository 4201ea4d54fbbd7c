import Mathlib.Data.List.DropRight
import PyClaw.Lib.Machine

/-!
# Lib.Base64

Base64 with the alphabet for URLs, as Python's `base64` module writes and reads it. The reader is a machine over
the characters: it skips what is not in the alphabet, and stops at a padding that completes a group.

`urlDecode_urlEncode`: without its padding a text is still read back.
-/

namespace PyClaw

namespace Base64

/-! ## Writing -/

def alphabet : List Char := "ABCDEFGHIJKLMNOPQRSTUVWXYZabcdefghijklmnopqrstuvwxyz0123456789-_".toList

def digit (n : Nat) : Char := alphabet.getD n 'A'

def digits : List UInt8 → List Char
  | [] => []
  | [a] => [digit (a.toNat / 4), digit (a.toNat % 4 * 16)]
  | [a, b] => [digit (a.toNat / 4), digit (a.toNat % 4 * 16 + b.toNat / 16), digit (b.toNat % 16 * 4)]
  | a :: b :: c :: rest =>
    digit (a.toNat / 4) :: digit (a.toNat % 4 * 16 + b.toNat / 16) ::
      digit (b.toNat % 16 * 4 + c.toNat / 64) :: digit (c.toNat % 64) :: digits rest

/-- `urlsafe_b64encode`. -/
def encode (data : List UInt8) : List Char :=
  digits data ++ List.replicate ((3 - data.length % 3) % 3) '='

/-! ## Reading -/

/-- The two alphabets together: `-` and `_` are read as `+` and `/`. -/
def value? (c : Char) : Option Nat :=
  if 'A' ≤ c ∧ c ≤ 'Z' then some (c.toNat - 'A'.toNat)
  else if 'a' ≤ c ∧ c ≤ 'z' then some (c.toNat - 'a'.toNat + 26)
  else if '0' ≤ c ∧ c ≤ '9' then some (c.toNat - '0'.toNat + 52)
  else if c = '-' ∨ c = '+' then some 62
  else if c = '_' ∨ c = '/' then some 63
  else none

structure Reader where
  /-- How many characters of the group have been read. -/
  quad : Nat := 0
  /-- Their bits that no byte has yet. -/
  left : Nat := 0
  pads : Nat := 0
  data : List UInt8 := []
  stopped : Bool := false

namespace Reader

def accept (r : Reader) (v : Nat) : Reader :=
  match r.quad with
  | 0 => { r with quad := 1, left := v, pads := 0 }
  | 1 => { r with quad := 2, left := v % 16, pads := 0, data := r.data ++ [UInt8.ofNat (r.left * 4 + v / 16)] }
  | 2 => { r with quad := 3, left := v % 4, pads := 0, data := r.data ++ [UInt8.ofNat (r.left * 16 + v / 4)] }
  | _ => { r with quad := 0, left := 0, pads := 0, data := r.data ++ [UInt8.ofNat (r.left * 64 + v)] }

def step (r : Reader) (c : Char) : Reader :=
  if r.stopped then r
  else if c = '=' then
    -- a padding before the second character of a group is skipped
    if 2 ≤ r.quad then { r with pads := r.pads + 1, stopped := 4 ≤ r.quad + (r.pads + 1) } else r
  else
    match value? c with
    | some v => r.accept v
    | none => r

/-- What has been read at the end of the text; none is "Incorrect padding". -/
def result (r : Reader) : Option (List UInt8) := if r.stopped || r.quad = 0 then some r.data else none

end Reader

/-- `urlsafe_b64decode` of a string. -/
def decode (text : List Char) : Option (List UInt8) :=
  if text.all fun c => c.toNat < 128 then (runFrom Reader.step {} text).result else none

/-! ## What is written is read back -/

theorem value?_digit : ∀ n < 64, value? (digit n) = some n := by decide +kernel

theorem digit_ne_pad : ∀ n < 64, digit n ≠ '=' ∧ (digit n).toNat < 128 := by decide +kernel

theorem run_digit {r : Reader} {n : Nat} (hr : r.stopped = false) (hn : n < 64) (text : List Char) :
    runFrom Reader.step r (digit n :: text) = runFrom Reader.step (r.accept n) text := by
  have hstep : r.step (digit n) = r.accept n := by
    simp [Reader.step, hr, (digit_ne_pad n hn).1, value?_digit n hn]
  rw [runFrom, hstep]

theorem digits_alphabet (data : List UInt8) : ∀ c ∈ digits data, ∃ n < 64, c = digit n := by
  induction data using digits.induct with
  | case1 => simp [digits]
  | case2 a =>
    have ha := a.toNat_lt
    simp only [digits, List.mem_cons, List.not_mem_nil, or_false]
    rintro c (rfl | rfl) <;> exact ⟨_, by omega, rfl⟩
  | case3 a b =>
    have ha := a.toNat_lt
    have hb := b.toNat_lt
    simp only [digits, List.mem_cons, List.not_mem_nil, or_false]
    rintro c (rfl | rfl | rfl) <;> exact ⟨_, by omega, rfl⟩
  | case4 a b c rest ih =>
    have ha := a.toNat_lt
    have hb := b.toNat_lt
    have hc := c.toNat_lt
    simp only [digits, List.mem_cons]
    rintro x (rfl | rfl | rfl | rfl | hx)
    · exact ⟨_, by omega, rfl⟩
    · exact ⟨_, by omega, rfl⟩
    · exact ⟨_, by omega, rfl⟩
    · exact ⟨_, by omega, rfl⟩
    · exact ih x hx

/-- A reader between two groups. -/
def between (data : List UInt8) : Reader := { data }

theorem ofNat_of_eq {n : Nat} {a : UInt8} (h : n = a.toNat) : UInt8.ofNat n = a := by
  rw [h, UInt8.ofNat_toNat]

/-- A whole group. -/
theorem run_group (before : List UInt8) (a b c : UInt8) (text : List Char) :
    runFrom Reader.step (between before)
        (digit (a.toNat / 4) :: digit (a.toNat % 4 * 16 + b.toNat / 16) ::
          digit (b.toNat % 16 * 4 + c.toNat / 64) :: digit (c.toNat % 64) :: text) =
      runFrom Reader.step (between (before ++ [a, b, c])) text := by
  have ha := a.toNat_lt
  have hb := b.toNat_lt
  have hc := c.toNat_lt
  rw [run_digit rfl (by omega), run_digit rfl (by omega), run_digit rfl (by omega), run_digit rfl (by omega)]
  simp only [Reader.accept, between]
  rw [ofNat_of_eq (a := a) (by omega), ofNat_of_eq (a := b) (by omega), ofNat_of_eq (a := c) (by omega)]
  simp

theorem run_encode (data before : List UInt8) :
    (runFrom Reader.step (between before) (encode data)).result = some (before ++ data) := by
  induction data using digits.induct generalizing before with
  | case1 => simp [encode, digits, runFrom, between, Reader.result]
  | case2 a =>
    have ha := a.toNat_lt
    simp only [encode, digits, List.length_singleton, List.cons_append, List.nil_append,
      List.replicate_succ, List.replicate_zero]
    rw [run_digit rfl (by omega), run_digit rfl (by omega)]
    simp only [Reader.accept, between]
    rw [ofNat_of_eq (a := a) (by omega)]
    simp [Reader.step, Reader.result, runFrom]
  | case3 a b =>
    have ha := a.toNat_lt
    have hb := b.toNat_lt
    simp only [encode, digits, List.length_cons, List.length_nil, List.cons_append, List.nil_append,
      List.replicate_succ, List.replicate_zero]
    rw [run_digit rfl (by omega), run_digit rfl (by omega), run_digit rfl (by omega)]
    simp only [Reader.accept, between]
    rw [ofNat_of_eq (a := a) (by omega), ofNat_of_eq (a := b) (by omega)]
    simp [Reader.step, Reader.result, runFrom]
  | case4 a b c rest ih =>
    have hpads : (3 - (rest.length + 1 + 1 + 1) % 3) % 3 = (3 - rest.length % 3) % 3 := by omega
    rw [encode, digits, List.length_cons, List.length_cons, List.length_cons, hpads]
    simp only [List.cons_append]
    rw [run_group]
    exact (ih (before ++ [a, b, c])).trans (by simp)

theorem decode_encode (data : List UInt8) : decode (encode data) = some data := by
  have hascii : ((encode data).all fun c => c.toNat < 128) = true := by
    rw [List.all_eq_true]
    intro c hc
    rcases List.mem_append.mp hc with hc | hc
    · obtain ⟨n, hn, rfl⟩ := digits_alphabet data c hc
      simpa using (digit_ne_pad n hn).2
    · rw [List.eq_of_mem_replicate hc]
      rfl
  rw [decode, if_pos hascii]
  exact run_encode data []

/-! ## Without padding -/

/-- `urlsafe_b64encode(data).rstrip(b"=")`. -/
def urlEncode (data : List UInt8) : List Char := (encode data).rdropWhile (· = '=')

/-- The padding that the length calls for, and `urlsafe_b64decode`. -/
def urlDecode (text : List Char) : Option (List UInt8) :=
  let padding := 4 - text.length % 4
  decode (if padding ≠ 4 then text ++ List.replicate padding '=' else text)

theorem urlEncode_eq (data : List UInt8) : urlEncode data = digits data := by
  have hdigits : (digits data).rdropWhile (· = '=') = digits data := by
    rw [List.rdropWhile_eq_self_iff]
    intro hne
    obtain ⟨n, hn, hlast⟩ := digits_alphabet data _ (List.getLast_mem hne)
    rw [hlast]
    simpa using (digit_ne_pad n hn).1
  rw [urlEncode, encode]
  induction (3 - data.length % 3) % 3 with
  | zero => simpa using hdigits
  | succ k ih => rw [List.replicate_succ', ← List.append_assoc, List.rdropWhile_concat_pos _ _ _ (by simp), ih]

theorem length_digits (data : List UInt8) :
    (digits data).length = data.length / 3 * 4 + (if data.length % 3 = 0 then 0 else data.length % 3 + 1) := by
  induction data using digits.induct with
  | case1 => simp [digits]
  | case2 a => simp [digits]
  | case3 a b => simp [digits]
  | case4 a b c rest ih =>
    simp only [digits, List.length_cons, ih]
    split <;> split <;> omega

theorem urlDecode_urlEncode (data : List UInt8) : urlDecode (urlEncode data) = some data := by
  have hpadded : (let padding := 4 - (digits data).length % 4
      if padding ≠ 4 then digits data ++ List.replicate padding '=' else digits data) = encode data := by
    have hlength := length_digits data
    simp only [encode]
    split at hlength
    · rename_i h
      rw [if_neg (by omega), h]
      simp
    · have hpads : 4 - (digits data).length % 4 = (3 - data.length % 3) % 3 := by
        have hr : data.length % 3 = 1 ∨ data.length % 3 = 2 := by omega
        rcases hr with hr | hr
        · rw [hr] at hlength ⊢
          omega
        · rw [hr] at hlength ⊢
          omega
      rw [hpads, if_pos (by omega)]
  rw [urlDecode, urlEncode_eq, hpadded, decode_encode]

/-- What is written has only characters of the alphabet. -/
theorem dot_not_mem_urlEncode (data : List UInt8) : '.' ∉ urlEncode data := by
  rw [urlEncode_eq]
  intro h
  obtain ⟨n, hn, he⟩ := digits_alphabet data _ h
  have hdot : ∀ n < 64, digit n ≠ '.' := by decide +kernel
  exact hdot n hn he.symm

example : urlEncode [72, 105] = "SGk".toList := by decide +kernel

end Base64

end PyClaw
