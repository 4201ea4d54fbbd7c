import Mathlib.Logic.Function.Basic
import Mathlib.Algebra.Ring.Int.Defs
import PyClaw.Lib.Machine

/-!
# Lib.Redis

Keys that expire: the commands of a key-value server that locks are built from. A cell keeps its
value and the time from which it is gone; a command meets the keys at the server's clock. Each
command has one lemma for what it leaves in every cell.
-/

namespace PyClaw

/-- What becomes of a command sent to the server: without an answer the call raises. -/
inductive Delivery where
  | answered
  | unsent
  | unanswered
  deriving DecidableEq, Repr

/-- The command has reached the server. -/
def Delivery.sent : Delivery → Bool
  | .unsent => false
  | _ => true

/-- The clock of the server, in milliseconds, and its cells. -/
structure KeySpace (κ ν : Type) where
  now : Int := 0
  cells : κ → Option (ν × Int) := fun _ => none

namespace KeySpace

variable {κ ν : Type} (ks : KeySpace κ ν)

/-- What a command finds under a key: value and expiry. -/
def find (k : κ) : Option (ν × Int) := (ks.cells k).filter fun c => ks.now < c.2

/-- `GET`. -/
def get (k : κ) : Option ν := (ks.find k).map Prod.fst

def pass (ms : Nat) : KeySpace κ ν := { ks with now := ks.now + ms }

section
variable [DecidableEq κ]

def put (k : κ) (c : Option (ν × Int)) : KeySpace κ ν :=
  { ks with cells := Function.update ks.cells k c }

/-- `SET k v NX PX ttl`, which tells whether it has set the key; `ttl` is positive. -/
def setNx (k : κ) (v : ν) (ttl : Int) : Bool × KeySpace κ ν :=
  match ks.find k with
  | some _ => (false, ks)
  | none => (true, ks.put k (some (v, ks.now + ttl)))

/-- `DEL`. -/
def del (k : κ) : Bool × KeySpace κ ν := ((ks.find k).isSome, ks.put k none)

/-- `PEXPIRE`, which deletes the key at once when `ttl` is not positive. -/
def pexpire (k : κ) (ttl : Int) : Bool × KeySpace κ ν :=
  match ks.find k with
  | some (v, _) => (true, ks.put k (if 0 < ttl then some (v, ks.now + ttl) else none))
  | none => (false, ks)

end

variable {ks} {k k' : κ} {v : ν} {deadline ttl : Int}

theorem find_eq_some {c : ν × Int} : ks.find k = some c ↔ ks.cells k = some c ∧ ks.now < c.2 := by
  rw [find, Option.filter_eq_some_iff]
  simp

theorem find_of_cell (h : ks.cells k = some (v, deadline)) (hlive : ks.now < deadline) :
    ks.find k = some (v, deadline) :=
  find_eq_some.mpr ⟨h, hlive⟩

theorem get_eq_none : ks.get k = none ↔ ks.find k = none := Option.map_eq_none_iff

@[simp] theorem pass_now (ms : Nat) : (ks.pass ms).now = ks.now + ms := rfl
@[simp] theorem pass_cells (ms : Nat) : (ks.pass ms).cells = ks.cells := rfl

section
variable [DecidableEq κ]

@[simp] theorem put_now (c : Option (ν × Int)) : (ks.put k c).now = ks.now := rfl

@[simp] theorem put_cells_self (c : Option (ν × Int)) : (ks.put k c).cells k = c :=
  Function.update_self ..

theorem put_cells_ne (c : Option (ν × Int)) (h : k' ≠ k) : (ks.put k c).cells k' = ks.cells k' :=
  Function.update_of_ne h ..

theorem setNx_of_find {c : ν × Int} (h : ks.find k = some c) : ks.setNx k v ttl = (false, ks) := by
  rw [setNx, h]

theorem setNx_eq_true (h : (ks.setNx k v ttl).1 = true) :
    ks.find k = none ∧ (ks.setNx k v ttl).2 = ks.put k (some (v, ks.now + ttl)) := by
  unfold setNx at h ⊢
  cases hfind : ks.find k with
  | some c =>
    rw [hfind] at h
    cases h
  | none => exact ⟨rfl, rfl⟩

theorem setNx_cells_ne (h : k' ≠ k) : (ks.setNx k v ttl).2.cells k' = ks.cells k' := by
  unfold setNx
  cases ks.find k with
  | some c => rfl
  | none => exact put_cells_ne _ h

@[simp] theorem setNx_now : (ks.setNx k v ttl).2.now = ks.now := by
  unfold setNx
  cases ks.find k with
  | some c => rfl
  | none => rfl

theorem pexpire_cells_ne (h : k' ≠ k) : (ks.pexpire k ttl).2.cells k' = ks.cells k' := by
  unfold pexpire
  cases ks.find k with
  | some c => exact put_cells_ne _ h
  | none => rfl

@[simp] theorem pexpire_now : (ks.pexpire k ttl).2.now = ks.now := by
  unfold pexpire
  cases ks.find k with
  | some c => rfl
  | none => rfl

end

end KeySpace

end PyClaw
