/-!
# Lib.Prog

Programs that read and write a state, write to a log they cannot read, and either return or
raise. State and log survive a raise, as the effects of a coroutine do.

`Triple P m Q E` is total correctness with two postconditions: from a log and a state in `P`, `m`
returns into `Q` or raises into `E`. The rules below are the ones for composing triples.
`Preserves` is the special case of an invariant, kept on both exits; what only grows with the log
is preserved by every program (`Preserves.log`).
-/

namespace PyClaw

structure Outcome (ω σ ε α : Type) where
  result : Except ε α
  state : σ
  log : List ω

/-- A program over the state `σ` that logs `ω`s and returns an `α` or raises an `ε`. -/
def Prog (ω σ ε α : Type) : Type := σ → Outcome ω σ ε α

namespace Prog

variable {ω σ ε α β : Type}

def ret (a : α) : Prog ω σ ε α := fun s => ⟨.ok a, s, []⟩

def raise (e : ε) : Prog ω σ ε α := fun s => ⟨.error e, s, []⟩

def get : Prog ω σ ε σ := fun s => ⟨.ok s, s, []⟩

def modify (f : σ → σ) : Prog ω σ ε Unit := fun s => ⟨.ok (), f s, []⟩

def emit (x : ω) : Prog ω σ ε Unit := fun s => ⟨.ok (), s, [x]⟩

def andThen (m : Prog ω σ ε α) (k : α → Prog ω σ ε β) : Prog ω σ ε β := fun s =>
  match m s with
  | ⟨.ok a, s', l⟩ => { k a s' with log := l ++ (k a s').log }
  | ⟨.error e, s', l⟩ => ⟨.error e, s', l⟩

instance : Monad (Prog ω σ ε) where
  pure := ret
  bind := andThen

def ofExcept (r : Except ε α) : Prog ω σ ε α := fun s => ⟨r, s, []⟩

/-- `try m finally fin`: `fin` runs on both exits, and its own raise wins. -/
def tryFinally (m : Prog ω σ ε α) (fin : Prog ω σ ε Unit) : Prog ω σ ε α := fun s =>
  match m s with
  | ⟨r, s', l⟩ =>
    match fin s' with
    | ⟨.ok _, s'', l'⟩ => ⟨r, s'', l ++ l'⟩
    | ⟨.error e, s'', l'⟩ => ⟨.error e, s'', l ++ l'⟩

/-- `try m except: pass`. -/
def attempt (m : Prog ω σ ε Unit) : Prog ω σ ε Unit := fun s => { m s with result := .ok () }

/-- What `m` raises becomes a value. -/
def caught (m : Prog ω σ ε α) : Prog ω σ ε (Except ε α) := fun s =>
  { m s with result := .ok (m s).result }

/-- `m` on a part of the state. -/
def zoom {τ : Type} (view : σ → τ) (put : σ → τ → σ) (m : Prog ω τ ε α) : Prog ω σ ε α := fun s =>
  { result := (m (view s)).result, state := put s (m (view s)).state, log := (m (view s)).log }

/-- `[f x for x in xs]`. -/
def mapEach : List α → (α → Prog ω σ ε β) → Prog ω σ ε (List β)
  | [], _ => ret []
  | x :: xs, f => andThen (f x) fun y => andThen (mapEach xs f) fun ys => ret (y :: ys)

/-- `for x in xs: f x`. -/
def forEach : List α → (α → Prog ω σ ε Unit) → Prog ω σ ε Unit
  | [], _ => ret ()
  | x :: xs, f => andThen (f x) fun _ => forEach xs f

/-- What holds of an exit after the log `l`: `Q` of a return, `E` of a raise. -/
def Post (Q : α → List ω → σ → Prop) (E : ε → List ω → σ → Prop) (l : List ω) :
    Outcome ω σ ε α → Prop
  | ⟨.ok a, s, l'⟩ => Q a (l ++ l') s
  | ⟨.error e, s, l'⟩ => E e (l ++ l') s

def Triple (P : List ω → σ → Prop) (m : Prog ω σ ε α) (Q : α → List ω → σ → Prop)
    (E : ε → List ω → σ → Prop) : Prop :=
  ∀ l s, P l s → Post Q E l (m s)

/-- `I` is kept by `m`, whether it returns or raises. -/
def Preserves (I : List ω → σ → Prop) (m : Prog ω σ ε α) : Prop :=
  Triple I m (fun _ => I) (fun _ => I)

theorem bind_ok {m : Prog ω σ ε α} {k : α → Prog ω σ ε β} {a : α} {s s' : σ} {l : List ω}
    (h : m s = ⟨.ok a, s', l⟩) : (m >>= k) s = { k a s' with log := l ++ (k a s').log } := by
  show Prog.andThen m k s = _
  unfold Prog.andThen
  rw [h]

theorem get_bind {k : σ → Prog ω σ ε β} {s : σ} : (Prog.get >>= k) s = k s s := by
  rw [bind_ok (rfl : Prog.get s = ⟨.ok s, s, []⟩)]
  simp

theorem andThen_assoc {γ : Type} (m : Prog ω σ ε α) (k : α → Prog ω σ ε β) (k' : β → Prog ω σ ε γ) :
    (m >>= k >>= k') = m >>= fun a => k a >>= k' := by
  funext s
  show Prog.andThen (Prog.andThen m k) k' s = Prog.andThen m (fun a => Prog.andThen (k a) k') s
  unfold Prog.andThen
  obtain ⟨r, s', l⟩ := m s
  cases r with
  | ok a =>
    dsimp only
    obtain ⟨r', s'', l'⟩ := k a s'
    cases r' with
    | ok b => simp
    | error e => rfl
  | error e => rfl

theorem andThen_congr {m : Prog ω σ ε α} {k k' : α → Prog ω σ ε β} (h : ∀ a, k a = k' a) :
    (m >>= k) = m >>= k' := by
  rw [show k = k' from funext h]

theorem zoom_bind {τ : Type} (view : σ → τ) (put : σ → τ → σ) (hview : ∀ s t, view (put s t) = t)
    (hput : ∀ s t t', put (put s t) t' = put s t') (m : Prog ω τ ε α) (k : α → Prog ω τ ε β) :
    zoom view put (m >>= k) = zoom view put m >>= fun a => zoom view put (k a) := by
  funext s
  show zoom view put (andThen m k) s = andThen (zoom view put m) (fun a => zoom view put (k a)) s
  unfold andThen zoom
  dsimp only
  generalize m (view s) = o
  obtain ⟨r, t, l⟩ := o
  cases r with
  | ok a => simp only [hview, hput]
  | error e => rfl

section Rules

variable {P P' : List ω → σ → Prop} {Q Q' : α → List ω → σ → Prop} {R : β → List ω → σ → Prop}
  {E E' : ε → List ω → σ → Prop} {m : Prog ω σ ε α}

theorem Post.imp {l : List ω} {o : Outcome ω σ ε α} (hQ : ∀ a l s, Q a l s → Q' a l s)
    (hE : ∀ e l s, E e l s → E' e l s) (h : Post Q E l o) : Post Q' E' l o := by
  obtain ⟨r, s, l'⟩ := o
  cases r with
  | ok a => exact hQ a _ s h
  | error e => exact hE e _ s h

theorem Triple.conseq (h : Triple P' m Q' E') (hP : ∀ l s, P l s → P' l s)
    (hQ : ∀ a l s, Q' a l s → Q a l s) (hE : ∀ e l s, E' e l s → E e l s) : Triple P m Q E :=
  fun l s hs => (h l s (hP l s hs)).imp hQ hE

theorem Triple.weaken (h : Triple P m Q' E) (hQ : ∀ a l s, Q' a l s → Q a l s) : Triple P m Q E :=
  h.conseq (fun _ _ => id) hQ (fun _ _ _ => id)

theorem Triple.strengthen (h : Triple P' m Q E) (hP : ∀ l s, P l s → P' l s) : Triple P m Q E :=
  h.conseq hP (fun _ _ _ => id) (fun _ _ _ => id)

/-- A fact in the precondition that does not depend on the state. -/
theorem Triple.assume {p : Prop} (h : p → Triple P m Q E) :
    Triple (fun l s => p ∧ P l s) m Q E :=
  fun l s hs => h hs.1 l s hs.2

theorem Triple.ret {a : α} (h : ∀ l s, P l s → Q a l s) :
    Triple P (Prog.ret a : Prog ω σ ε α) Q E :=
  fun l s hs => by
    show Q a (l ++ []) s
    rw [List.append_nil]
    exact h l s hs

theorem Triple.pure {a : α} (h : ∀ l s, P l s → Q a l s) :
    Triple P (Pure.pure a : Prog ω σ ε α) Q E :=
  Triple.ret h

theorem Triple.raise {e : ε} (h : ∀ l s, P l s → E e l s) :
    Triple P (Prog.raise e : Prog ω σ ε α) Q E :=
  fun l s hs => by
    show E e (l ++ []) s
    rw [List.append_nil]
    exact h l s hs

theorem Triple.modify {f : σ → σ} {Q : Unit → List ω → σ → Prop}
    (h : ∀ l s, P l s → Q () l (f s)) : Triple P (Prog.modify f : Prog ω σ ε Unit) Q E :=
  fun l s hs => by
    show Q () (l ++ []) (f s)
    rw [List.append_nil]
    exact h l s hs

theorem Triple.emit {x : ω} {Q : Unit → List ω → σ → Prop}
    (h : ∀ l s, P l s → Q () (l ++ [x]) s) : Triple P (Prog.emit x : Prog ω σ ε Unit) Q E :=
  fun l s hs => h l s hs

theorem Triple.ofExcept {r : Except ε α} (hok : ∀ a, r = .ok a → ∀ l s, P l s → Q a l s)
    (herr : ∀ e, r = .error e → ∀ l s, P l s → E e l s) :
    Triple P (Prog.ofExcept r : Prog ω σ ε α) Q E := by
  cases r with
  | ok a => exact Triple.ret (hok a rfl)
  | error e => exact Triple.raise (herr e rfl)

theorem Triple.andThen {k : α → Prog ω σ ε β} (hm : Triple P m Q E)
    (hk : ∀ a, Triple (Q a) (k a) R E) : Triple P (Prog.andThen m k) R E := by
  intro l s hs
  have h := hm l s hs
  unfold Prog.andThen
  match hr : m s with
  | ⟨.ok a, s', l'⟩ =>
    rw [hr] at h
    have hpost := hk a (l ++ l') s' h
    dsimp only
    match hr' : k a s' with
    | ⟨.ok b, s'', l''⟩ => rw [hr'] at hpost; simpa [Post] using hpost
    | ⟨.error e, s'', l''⟩ => rw [hr'] at hpost; simpa [Post] using hpost
  | ⟨.error e, s', l'⟩ => rw [hr] at h; exact h

theorem Triple.bind {k : α → Prog ω σ ε β} (hm : Triple P m Q E)
    (hk : ∀ a, Triple (Q a) (k a) R E) : Triple P (m >>= k) R E :=
  Triple.andThen hm hk

/-- Reading the state first: the rest may be proved for each state on its own. -/
theorem Triple.getBind {k : σ → Prog ω σ ε β}
    (h : ∀ s₀, Triple (fun l s => P l s ∧ s = s₀) (k s₀) R E) :
    Triple P ((Prog.get : Prog ω σ ε σ) >>= k) R E :=
  Triple.bind (fun l s hs => by
    show P (l ++ []) s ∧ s = s
    rw [List.append_nil]
    exact ⟨hs, rfl⟩) h

theorem Triple.ite {c : Prop} [Decidable c] {m₁ m₂ : Prog ω σ ε α}
    (h₁ : c → Triple P m₁ Q E) (h₂ : ¬ c → Triple P m₂ Q E) :
    Triple P (if c then m₁ else m₂) Q E := by
  split
  · exact h₁ ‹c›
  · exact h₂ ‹¬ c›

theorem Triple.attempt {m : Prog ω σ ε Unit} {Q : Unit → List ω → σ → Prop}
    (h : Triple P m Q (fun _ => Q ())) : Triple P (Prog.attempt m) Q E := by
  intro l s hs
  have hpost := h l s hs
  unfold Prog.attempt
  match hr : m s with
  | ⟨.ok (), s', l'⟩ => rw [hr] at hpost; exact hpost
  | ⟨.error e, s', l'⟩ => rw [hr] at hpost; exact hpost

theorem Triple.caught {Q : Except ε α → List ω → σ → Prop}
    (h : Triple P m (fun a => Q (.ok a)) (fun e => Q (.error e))) :
    Triple P (Prog.caught m) Q E := by
  intro l s hs
  have hpost := h l s hs
  unfold Prog.caught
  match hr : m s with
  | ⟨.ok a, s', l'⟩ => rw [hr] at hpost; exact hpost
  | ⟨.error e, s', l'⟩ => rw [hr] at hpost; exact hpost

/-- The loop rule, with an invariant that may mention the part of the list already done. -/
theorem Triple.forEach {γ : Type} {f : γ → Prog ω σ ε Unit} {I : List γ → List ω → σ → Prop}
    (xs : List γ)
    (h : ∀ done x rest, xs = done ++ x :: rest →
      Triple (I done) (f x) (fun _ => I (done ++ [x])) E) :
    Triple (I []) (Prog.forEach xs f) (fun _ => I xs) E := by
  suffices ∀ done rest, xs = done ++ rest →
      Triple (I done) (Prog.forEach rest f) (fun _ => I xs) E from this [] xs rfl
  intro done rest
  induction rest generalizing done with
  | nil => rintro rfl; exact Triple.ret fun l s hs => by simpa using hs
  | cons x rest ih =>
    intro he
    exact Triple.andThen (h done x rest he) fun _ => ih (done ++ [x]) (by simp [he])

/-- The rule of a loop that collects results, with an invariant that does not depend on them. -/
theorem Triple.mapEach {γ : Type} {f : γ → Prog ω σ ε β} {I : List γ → List ω → σ → Prop}
    (xs : List γ)
    (h : ∀ done x rest, xs = done ++ x :: rest →
      Triple (I done) (f x) (fun _ => I (done ++ [x])) E) :
    Triple (I []) (Prog.mapEach xs f) (fun _ => I xs) E := by
  suffices ∀ done rest, xs = done ++ rest →
      Triple (I done) (Prog.mapEach rest f) (fun _ => I xs) E from this [] xs rfl
  intro done rest
  induction rest generalizing done with
  | nil => rintro rfl; exact Triple.ret fun l s hs => by simpa using hs
  | cons x rest ih =>
    intro he
    refine Triple.andThen (h done x rest he) fun _ => ?_
    exact Triple.andThen (ih (done ++ [x]) (by simp [he])) fun _ => Triple.ret fun _ _ => id

theorem Triple.tryFinally {fin : Prog ω σ ε Unit} {Q₁ : α → List ω → σ → Prop}
    {E₁ : ε → List ω → σ → Prop} (hm : Triple P m Q₁ E₁)
    (hok : ∀ a, Triple (Q₁ a) fin (fun _ => Q a) E)
    (herr : ∀ e, Triple (E₁ e) fin (fun _ => E e) E) : Triple P (Prog.tryFinally m fin) Q E := by
  intro l s hs
  have h := hm l s hs
  unfold Prog.tryFinally
  match hr : m s with
  | ⟨.ok a, s', l'⟩ =>
    rw [hr] at h
    have hf := hok a (l ++ l') s' h
    dsimp only
    match hfin : fin s' with
    | ⟨.ok _, s'', l''⟩ => rw [hfin] at hf; simpa [Post] using hf
    | ⟨.error e, s'', l''⟩ => rw [hfin] at hf; simpa [Post] using hf
  | ⟨.error e, s', l'⟩ =>
    rw [hr] at h
    have hf := herr e (l ++ l') s' h
    dsimp only
    match hfin : fin s' with
    | ⟨.ok _, s'', l''⟩ => rw [hfin] at hf; simpa [Post] using hf
    | ⟨.error e', s'', l''⟩ => rw [hfin] at hf; simpa [Post] using hf

theorem Triple.and {P Pr : List ω → σ → Prop} {Q Qr : α → List ω → σ → Prop}
    {E Er : ε → List ω → σ → Prop} (h₁ : Triple P m Q E) (h₂ : Triple Pr m Qr Er) :
    Triple (fun l s => P l s ∧ Pr l s) m (fun a l s => Q a l s ∧ Qr a l s)
      (fun e l s => E e l s ∧ Er e l s) := by
  rintro l s ⟨hs₁, hs₂⟩
  have hp₁ := h₁ l s hs₁
  have hp₂ := h₂ l s hs₂
  match hr : m s with
  | ⟨.ok a, s', l'⟩ => rw [hr] at hp₁ hp₂; exact ⟨hp₁, hp₂⟩
  | ⟨.error e, s', l'⟩ => rw [hr] at hp₁ hp₂; exact ⟨hp₁, hp₂⟩

/-- What a program does and logs does not depend on the log before it. -/
theorem Triple.frame {P : σ → Prop} {L : List ω → Prop}
    (h : Triple (fun l s => l = [] ∧ P s) m Q E) :
    Triple (fun l s => L l ∧ P s) m (fun a l s => ∃ l₀ l₁, l = l₀ ++ l₁ ∧ L l₀ ∧ Q a l₁ s)
      (fun e l s => ∃ l₀ l₁, l = l₀ ++ l₁ ∧ L l₀ ∧ E e l₁ s) := by
  rintro l s ⟨hl, hs⟩
  have hpost := h [] s ⟨rfl, hs⟩
  match hr : m s with
  | ⟨.ok a, s', l'⟩ => rw [hr] at hpost; exact ⟨l, l', rfl, hl, hpost⟩
  | ⟨.error e, s', l'⟩ => rw [hr] at hpost; exact ⟨l, l', rfl, hl, hpost⟩

/-- A triple read off at a starting state. -/
theorem Triple.post {s : σ} (h : Triple P m Q E) (hs : P [] s) : Post Q E [] (m s) := h [] s hs

/-! ## Invariants -/

variable {I : List ω → σ → Prop}

theorem Preserves.pure {a : α} : Preserves I (Pure.pure a : Prog ω σ ε α) :=
  Triple.pure fun _ _ => id

theorem Preserves.raise {e : ε} : Preserves I (Prog.raise e : Prog ω σ ε α) :=
  Triple.raise fun _ _ => id

theorem Preserves.modify {f : σ → σ} (h : ∀ l s, I l s → I l (f s)) :
    Preserves I (Prog.modify f : Prog ω σ ε Unit) :=
  Triple.modify h

theorem Preserves.emit {x : ω} (h : ∀ l s, I l s → I (l ++ [x]) s) :
    Preserves I (Prog.emit x : Prog ω σ ε Unit) :=
  Triple.emit h

theorem Preserves.ofExcept {r : Except ε α} : Preserves I (Prog.ofExcept r : Prog ω σ ε α) :=
  Triple.ofExcept (fun _ _ _ _ => id) (fun _ _ _ _ => id)

theorem Preserves.attempt {m : Prog ω σ ε Unit} (h : Preserves I m) :
    Preserves I (Prog.attempt m) :=
  Triple.attempt h

theorem Preserves.caught (h : Preserves I m) : Preserves I (Prog.caught m) :=
  Triple.caught h

theorem Preserves.bind {k : α → Prog ω σ ε β} (hm : Preserves I m)
    (hk : ∀ a, Preserves I (k a)) : Preserves I (m >>= k) :=
  Triple.bind hm hk

theorem Preserves.get : Preserves I (Prog.get : Prog ω σ ε σ) :=
  fun l s hs => by
    show I (l ++ []) s
    rwa [List.append_nil]

theorem Preserves.ite {c : Prop} [Decidable c] {m₁ m₂ : Prog ω σ ε α}
    (h₁ : Preserves I m₁) (h₂ : Preserves I m₂) : Preserves I (if c then m₁ else m₂) :=
  Triple.ite (fun _ => h₁) (fun _ => h₂)

theorem Preserves.forEach {γ : Type} {f : γ → Prog ω σ ε Unit} {xs : List γ}
    (h : ∀ x ∈ xs, Preserves I (f x)) : Preserves I (Prog.forEach xs f) :=
  Triple.forEach (I := fun _ => I) xs fun done x _ he =>
    h x (he ▸ List.mem_append_right done List.mem_cons_self)

theorem Preserves.tryFinally {fin : Prog ω σ ε Unit} (hm : Preserves I m)
    (hfin : Preserves I fin) : Preserves I (Prog.tryFinally m fin) :=
  Triple.tryFinally hm (fun _ => hfin) (fun _ => hfin)

/-- What holds on both exits holds of the outcome. -/
theorem Triple.finish {s : σ} (h : Triple P m (fun _ => I) (fun _ => I)) (hs : P [] s) :
    I (m s).log (m s).state := by
  have hpost := Triple.post h hs
  match hr : m s with
  | ⟨.ok a, s', l'⟩ => rw [hr] at hpost; exact hpost
  | ⟨.error e, s', l'⟩ => rw [hr] at hpost; exact hpost

/-- The log only grows, so what a longer log keeps is kept by every program. -/
theorem Preserves.log {B : List ω → Prop} (hB : ∀ l l', B l → B (l ++ l')) :
    Preserves (fun l _ => B l) m := by
  intro l s hs
  match hr : m s with
  | ⟨.ok a, s', l'⟩ => exact hB l l' hs
  | ⟨.error e, s', l'⟩ => exact hB l l' hs

end Rules

end Prog

end PyClaw
