import Mathlib.Tactic.IntervalCases
import PyClaw.Channels.WebRoutes
import PyClaw.Lib.Tasks

/-!
# Channels.HeaderUpdates

The operations that change one field of a session header, as the tasks they are: each loads the whole
header and later saves it with its own field changed, and nothing keeps the others out in between.
`current_iff`: every field holds what was last written to it, all along, exactly when each operation
saves a header that agrees with the stored one on the other fields.
-/

namespace PyClaw

inductive HeaderField where
  | lastInteraction
  | idleMinutes
  | model
  | title
  deriving DecidableEq, Repr

inductive HeaderValue where
  | number (n : Option Int)
  | text (s : Option String)
  deriving DecidableEq, Repr

def HeaderField.read (header : SessionHeader) : HeaderField → HeaderValue
  | .lastInteraction => .number header.lastInteractionAt
  | .idleMinutes => .number header.idleMinutesOverride
  | .model => .text header.modelOverride
  | .title => .text header.title

/-- `update_last_interaction`, `cmd_idle`, `cmd_model` and `patch_session`, with what their requests
say. -/
inductive HeaderOp where
  | touch (now : Int)
  | idle (minutes : Int)
  | model (target : String)
  | patch (userId : String) (title : Option String)
  deriving DecidableEq, Repr

namespace HeaderOp

def field : HeaderOp → HeaderField
  | .touch _ => .lastInteraction
  | .idle _ => .idleMinutes
  | .model _ => .model
  | .patch _ _ => .title

section
variable (py : PyText)

/-- `title or None` of the stripped title. -/
def newTitle (title : Option String) : Option String :=
  let stripped := strip py.isSpace (title.getD "").toList
  if stripped = [] then none else some (String.ofList stripped)

/-- The value that the operation writes. -/
def value : HeaderOp → HeaderValue
  | .touch now => .number (some now)
  | .idle minutes => .number (if minutes > 0 then some minutes else none)
  | .model target => .text (some target)
  | .patch _ title => .text (newTitle py title)

/-- The header with the operation's field changed. -/
def set (header : SessionHeader) : HeaderOp → SessionHeader
  | .touch now => { header with lastInteractionAt := some now }
  | .idle minutes => { header with idleMinutesOverride := if minutes > 0 then some minutes else none }
  | .model target => { header with modelOverride := some target }
  | .patch _ title => { header with title := newTitle py title }

/-- Whether the operation saves the header that it loaded; `patch_session` may refuse to. -/
def saves (header : SessionHeader) : HeaderOp → Bool
  | .patch userId title =>
    decide (("web:" ++ userId).toList <+: header.sessionKey.toList) && title.isSome &&
      decide ((strip py.isSpace (title.getD "").toList).length ≤ 200)
  | _ => true

/-- An operation that is not interrupted, on the store of all sessions. -/
def run (d : SessionDirectory) (sessionId : String) (op : HeaderOp) : SessionDirectory :=
  match d.load sessionId with
  | none => d
  | some tree =>
    if op.saves py tree.header then d.saveHeader { tree with header := op.set py tree.header } else d

theorem run_touch (d : SessionDirectory) (sid : String) (now : Int) :
    (touch now).run py d sid = d.updateLastInteraction sid now := by
  unfold run SessionDirectory.updateLastInteraction
  cases d.load sid <;> rfl

theorem run_idle (d : SessionDirectory) (sid : String) (minutes : Int) :
    (idle minutes).run py d sid = d.cmdIdle sid minutes := by
  unfold run SessionDirectory.cmdIdle
  cases d.load sid <;> rfl

theorem run_model (d : SessionDirectory) (sid target : String) :
    (model target).run py d sid = d.cmdModel sid target := by
  unfold run SessionDirectory.cmdModel
  cases d.load sid <;> rfl

theorem run_patch (d : SessionDirectory) (userId sid : String) (title : Option String) :
    (patch userId title).run py d sid = (d.patchSession py userId sid title).2 := by
  unfold run SessionDirectory.patchSession SessionDirectory.loadAndVerify
  cases d.load sid with
  | none => rfl
  | some tree =>
    by_cases howner : ("web:" ++ userId).toList <+: tree.header.sessionKey.toList
    · simp only [saves, howner, if_true]
      cases title with
      | none => rfl
      | some title =>
        by_cases hlong : (strip py.isSpace title.toList).length > 200
        · have hle : ¬ (strip py.isSpace title.toList).length ≤ 200 := Nat.not_le.mpr hlong
          simp [hlong, hle]
        · have hle : (strip py.isSpace title.toList).length ≤ 200 := Nat.not_lt.mp hlong
          simp [hlong, hle, set, newTitle]
    · simp only [saves, howner, decide_false, Bool.false_and, Bool.false_eq_true, if_false]

variable {py} {op : HeaderOp} {f : HeaderField}

theorem read_set_self (header : SessionHeader) : op.field.read (op.set py header) = op.value py := by
  cases op <;> rfl

theorem read_set_ne (header : SessionHeader) (h : f ≠ op.field) :
    f.read (op.set py header) = f.read header := by
  cases op <;> cases f <;> first | rfl | exact absurd rfl h

end

end HeaderOp

/-! ## The tasks -/

/-- The header of one session, the header it had at first, and the operations that have saved it
since, the last one first. -/
structure HeaderStore where
  stored : Option SessionHeader
  initial : SessionHeader
  saved : List HeaderOp := []

inductive HeaderCommand where
  | load (op : HeaderOp)
  | saveHeader (op : HeaderOp) (loaded : SessionHeader)

namespace HeaderStore

section
variable (py : PyText)

def exec (s : HeaderStore) (c : HeaderCommand) (_ : Unit) : HeaderStore × List HeaderCommand :=
  match c with
  | .load op =>
    match s.stored with
    | none => (s, [])
    | some header => (s, if op.saves py header then [.saveHeader op header] else [])
  | .saveHeader op loaded =>
    ({ s with stored := some (op.set py loaded), saved := op :: s.saved }, [])

def system : TaskSystem HeaderStore HeaderOp HeaderCommand Unit where
  program op := [.load op]
  exec := exec py

/-- What the last operation that set the field wrote. -/
def lastWritten (s : HeaderStore) (f : HeaderField) : HeaderValue :=
  match s.saved.find? fun op => op.field = f with
  | some op => op.value py
  | none => f.read s.initial

/-- Every field holds what was last written to it. -/
def Current (s : HeaderStore) : Prop :=
  ∃ header, s.stored = some header ∧ ∀ f : HeaderField, f.read header = s.lastWritten py f

/-- The header that the operation has loaded agrees with the stored one on the fields that it does not
set. -/
def Fresh (s : HeaderStore) (c : HeaderCommand) (_ : Unit) : Prop :=
  match c with
  | .load _ => True
  | .saveHeader op loaded =>
    ∀ header ∈ s.stored, ∀ f : HeaderField, f ≠ op.field → f.read loaded = f.read header

variable {py} {s : HeaderStore}

theorem lastWritten_cons (s : HeaderStore) (stored : Option SessionHeader) (op : HeaderOp)
    (f : HeaderField) : lastWritten py { s with stored, saved := op :: s.saved } f =
      if op.field = f then op.value py else s.lastWritten py f := by
  unfold lastWritten
  by_cases hf : op.field = f <;> simp [hf]

/-- A command keeps the fields current exactly when it saves no stale header. -/
theorem current_exec_iff (h : s.Current py) (c : HeaderCommand) (answer : Unit) :
    (exec py s c answer).1.Current py ↔ s.Fresh c answer := by
  obtain ⟨header, hstored, hfields⟩ := h
  cases c with
  | load op =>
    simp only [exec, hstored, Fresh, iff_true]
    exact ⟨header, hstored, hfields⟩
  | saveHeader op loaded =>
    simp only [exec, Fresh, hstored, Option.mem_some_iff]
    constructor
    · rintro ⟨saved, hsaved, hcurrent⟩ _ rfl f hf
      cases hsaved
      have hread := hcurrent f
      rw [lastWritten_cons, if_neg fun he => hf he.symm, ← hfields f, HeaderOp.read_set_ne _ hf] at hread
      exact hread
    · intro hfresh
      refine ⟨_, rfl, fun f => ?_⟩
      rw [lastWritten_cons]
      by_cases hf : op.field = f
      · rw [if_pos hf, ← hf]
        exact HeaderOp.read_set_self loaded
      · rw [if_neg hf, ← hfields f, HeaderOp.read_set_ne _ fun he => hf he.symm]
        exact hfresh header rfl f fun he => hf he.symm

def start (header : SessionHeader) : Tasks HeaderStore HeaderCommand where
  state := { stored := some header, initial := header }

theorem start_current (header : SessionHeader) : (start header).state.Current py :=
  ⟨header, rfl, fun _ => rfl⟩

/-- In every interleaving the fields of the header stay current, all along, exactly when no operation
saves a header that is stale in a field of another one. -/
theorem current_iff (header : SessionHeader) (steps : List (TaskStep HeaderOp Unit)) :
    Along (system py).step (fun t a => ((system py).step t a).state.Current py) (start header) steps ↔
      Along (system py).step (Tasks.OnRun Fresh) (start header) steps :=
  TaskSystem.along_iff (T := system py) (P := Current py) (C := Fresh)
    (fun _ c answer h => current_exec_iff h c answer) (start_current header) steps

/-! ## Two operations at once -/

/-- `/idle 30m` between the load and the save of `update_last_interaction`. -/
def idleLost : List (TaskStep HeaderOp Unit) :=
  [.starts 0 (.touch 5), .runs 0 (), .starts 1 (.idle 30), .runs 1 (), .runs 1 (), .runs 0 ()]

def plainHeader : SessionHeader where
  id := "web:alice:c1"
  workspaceId := "default"
  agentId := "default"
  sessionKey := "web:alice"

theorem idleLost_not_current :
    ¬ (∀ py header steps, (runFrom (system py).step (start header) steps).Quiet →
      (runFrom (system py).step (start header) steps).state.Current py) := by
  intro h
  have hquiet : (runFrom (system .ascii).step (start plainHeader) idleLost).Quiet := by
    refine TaskSystem.quiet_of_slots (n := 2) (fun _ _ => rfl) (by decide) ?_
    intro i hi
    interval_cases i <;> rfl
  obtain ⟨saved, hsaved, hfields⟩ := h .ascii plainHeader idleLost hquiet
  have hidle := hfields .idleMinutes
  cases hsaved
  revert hidle
  decide

end

end HeaderStore

end PyClaw
