/-!
# Lib.Path

Relative POSIX paths as texts. `resolve dir path` is the directory that `path` leads to from `dir`, part
by part and without following links; a directory is the list of its names from the root. Paths
without an empty part, `.` or `..` lead to different directories (`resolve_inj`).
-/

namespace PyClaw

namespace Posix

/-- Steps from a directory to a part of a path. -/
def enter (dir : List (List Char)) (part : List Char) : List (List Char) :=
  if part = [] ∨ part = ['.'] then dir
  else if part = ['.', '.'] then dir.dropLast
  else dir ++ [part]

def resolve (dir : List (List Char)) (path : List Char) : List (List Char) :=
  (path.splitOn '/').foldl enter dir

/-- Every part names an entry of the directory before it. -/
def Straight (path : List Char) : Prop :=
  ∀ part ∈ path.splitOn '/', part ≠ [] ∧ part ≠ ['.'] ∧ part ≠ ['.', '.']

instance (path : List Char) : Decidable (Straight path) :=
  inferInstanceAs (Decidable (∀ part ∈ path.splitOn '/', _))

section
variable {dir : List (List Char)} {path path' : List Char}

theorem foldl_enter {parts : List (List Char)}
    (h : ∀ part ∈ parts, part ≠ [] ∧ part ≠ ['.'] ∧ part ≠ ['.', '.']) :
    parts.foldl enter dir = dir ++ parts := by
  induction parts generalizing dir with
  | nil => simp
  | cons part parts ih =>
    obtain ⟨hempty, hdot, hup⟩ := h part List.mem_cons_self
    have henter : enter dir part = dir ++ [part] := by
      rw [enter, if_neg (not_or.mpr ⟨hempty, hdot⟩), if_neg hup]
    rw [List.foldl_cons, henter, ih fun p hp => h p (List.mem_cons_of_mem part hp)]
    simp

theorem resolve_of_straight (h : Straight path) : resolve dir path = dir ++ path.splitOn '/' :=
  foldl_enter h

theorem resolve_inj (h : Straight path) (h' : Straight path') :
    resolve dir path = resolve dir path' ↔ path = path' := by
  constructor
  · intro he
    rw [resolve_of_straight h, resolve_of_straight h'] at he
    have hparts := List.append_cancel_left he
    have hjoin := congrArg (['/'].intercalate ·) hparts
    simpa only [List.intercalate_splitOn] using hjoin
  · rintro rfl
    rfl

end

end Posix

end PyClaw
