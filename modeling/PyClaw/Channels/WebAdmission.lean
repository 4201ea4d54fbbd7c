import PyClaw.Channels.WebSocket

/-!
# Channels.WebAdmission

Whose messages the socket endpoint handles. `handled_authenticated`: no message is handled for a user whose password
nobody gave.
-/

namespace PyClaw

namespace SocketServer

section
variable {a : WebAuth} {maxConnectionsPerUser : Int} {hasGateway : Bool} {s : SocketServer} {ws : Nat}

/-- Behind its first message. -/
def begun : SocketPhase → Bool
  | .unknown | .identifying => false
  | _ => true

/-- The token of the connection was accepted as the user's, and somebody had given the user's password for one
with the same claims, no longer than a day before. -/
def Admitted (a : WebAuth) (s : SocketServer) (ws : Nat) (user : List Char) : Prop :=
  ∃ token time, s.identified ws = some (token, time) ∧ a.verifyJwt time (Utf8.points token) = .ok (some user) ∧
    ∃ r ∈ s.requests, r.1.userId = user ∧ (user, r.1.password) ∈ a.users ∧
      time ≤ ((r.2.floor + WebAuth.tokenSeconds : Int) : Rat)

structure Vouched (a : WebAuth) (s : SocketServer) : Prop where
  slots : ∀ ws user, (s.phases ws).slot = some user → Admitted a s ws user
  handled : ∀ h ∈ s.handled, begun (s.phases h.1) = true ∧ Admitted a s h.1 h.2.1

/-- A client presents no token with a forged signature. -/
def Honest (a : WebAuth) (s : SocketServer) : SocketStep → Prop
  | .identifies _ raw _ =>
    ∀ token, parseClientMessage raw = .ok (some (.identify (.str token))) →
      a.Unforged s.requests (Utf8.points token)
  | _ => True

theorem begun_of_slot {p : SocketPhase} {user : List Char} (h : p.slot = some user) : begun p = true := by
  cases p <;> simp [SocketPhase.slot, begun] at h ⊢

/-- What a step leaves of what connections have shown. -/
structure Keeps (s s' : SocketServer) : Prop where
  requests : ∀ r ∈ s.requests, r ∈ s'.requests
  begun : ∀ ws, begun (s.phases ws) = true → begun (s'.phases ws) = true
  identified : ∀ ws, SocketServer.begun (s.phases ws) = true → s'.identified ws = s.identified ws
  slots : ∀ ws user, (s'.phases ws).slot = some user → (s.phases ws).slot = some user
  handled : ∀ h ∈ s'.handled, h ∈ s.handled ∨ (s.phases h.1).slot = some h.2.1

theorem Admitted.kept {s s' : SocketServer} {user : List Char} (h : Admitted a s ws user)
    (hrequests : ∀ r ∈ s.requests, r ∈ s'.requests) (hidentified : s'.identified ws = s.identified ws) :
    Admitted a s' ws user := by
  obtain ⟨token, time, htoken, hverify, r, hr, hrest⟩ := h
  exact ⟨token, time, hidentified.trans htoken, hverify, r, hrequests r hr, hrest⟩

theorem Vouched.kept {s s' : SocketServer} (hs : Vouched a s) (h : Keeps s s') : Vouched a s' where
  slots ws user hslot := by
    have hold := h.slots ws user hslot
    exact (hs.slots ws user hold).kept h.requests (h.identified ws (begun_of_slot hold))
  handled x hx := by
    have hold : begun (s.phases x.1) = true ∧ Admitted a s x.1 x.2.1 := by
      rcases h.handled x hx with hx | hx
      · exact hs.handled x hx
      · exact ⟨begun_of_slot hx, hs.slots x.1 x.2.1 hx⟩
    exact ⟨h.begun x.1 hold.1, hold.2.kept h.requests (h.identified x.1 hold.1)⟩

theorem Keeps.refl : Keeps s s where
  requests _ h := h
  begun _ h := h
  identified _ _ := rfl
  slots _ _ h := h
  handled _ h := .inl h

/-- A connection moves on. -/
theorem keeps_setPhase {p : SocketPhase} (hbegun : begun (s.phases ws) = true → begun p = true)
    (hslot : ∀ user, p.slot = some user → (s.phases ws).slot = some user) : Keeps s (s.setPhase ws p) where
  requests _ h := h
  begun other h := by
    show SocketServer.begun (Function.update s.phases ws p other) = true
    by_cases ho : other = ws
    · rw [ho, Function.update_self]
      exact hbegun (ho ▸ h)
    · rwa [Function.update_of_ne ho]
  identified _ _ := rfl
  slots other user h := by
    replace h : (Function.update s.phases ws p other).slot = some user := h
    by_cases ho : other = ws
    · rw [ho, Function.update_self] at h
      exact ho ▸ hslot user h
    · rwa [Function.update_of_ne ho] at h
  handled _ h := .inl h

theorem keeps_close {code : Option Nat} : Keeps s (s.setPhase ws (.closed code)) :=
  keeps_setPhase (fun _ => rfl) fun _ h => nomatch h

theorem keeps_held {p : SocketPhase} {user : List Char} (hheld : (s.phases ws).slot = some user)
    (hp : p.slot = some user) : Keeps s (s.setPhase ws p) :=
  keeps_setPhase (fun _ => begun_of_slot hp) fun _ h => hheld.trans (hp.symm.trans h)

theorem keeps_beginLoop {user : List Char} (hheld : (s.phases ws).slot = some user) :
    Keeps s (s.beginLoop ws user) := by
  refine keeps_held hheld ?_
  split <;> rfl

theorem keeps_handle {user : List Char} (hheld : (s.phases ws).slot = some user) (msg : ClientMessage) :
    Keeps s (s.handle ws user msg) where
  requests _ h := h
  begun _ h := h
  identified _ _ := rfl
  slots _ _ h := h
  handled h hh := by
    rcases List.mem_append.mp hh with hh | hh
    · exact .inl hh
    · rw [List.mem_singleton.mp hh]
      exact .inr hheld

theorem keeps_dispatch {user : List Char} (hheld : (s.phases ws).slot = some user) (raw : JsonValue) :
    Keeps s (s.dispatch ws user raw) := by
  unfold dispatch
  split
  · exact keeps_held hheld rfl
  · split
    · exact keeps_held hheld rfl
    · exact keeps_handle hheld _
  · exact keeps_handle hheld _
  · exact keeps_handle hheld _
  · exact keeps_handle hheld _
  · exact Keeps.refl
  · exact Keeps.refl

theorem vouched_identify (hs : Vouched a s) (hphase : s.phases ws = .identifying) {raw : JsonValue} {time : Rat}
    (h : Honest a s (.identifies ws raw time)) :
    Vouched a (s.identify a maxConnectionsPerUser ws raw time) := by
  unfold identify
  split
  · rename_i token hparse
    split
    · rename_i user hverify
      split
      · exact hs.kept keeps_close
      · have hissued : ∃ r ∈ s.requests, r.1.userId = user ∧ (user, r.1.password) ∈ a.users ∧
            time ≤ ((r.2.floor + WebAuth.tokenSeconds : Int) : Rat) := by
          rcases WebAuth.accepted_issued a s.requests (Utf8.points token) (h token hparse) time with
            ⟨-, herror⟩ | ⟨-, hnone | ⟨r, hr, hmem, ht, hr'⟩⟩
          · cases herror.symm.trans hverify
          · cases hnone.symm.trans hverify
          · cases hr'.symm.trans hverify
            exact ⟨r, hr, rfl, hmem, ht⟩
        have hother : ∀ other, begun (s.phases other) = true → other ≠ ws := fun other ho he => by
          rw [he, hphase] at ho
          cases ho
        refine ⟨fun other u hslot => ?_, fun x hx => ?_⟩
        · replace hslot : (Function.update s.phases ws (.greeting user) other).slot = some u := hslot
          by_cases ho : other = ws
          · rw [ho, Function.update_self] at hslot
            cases hslot
            rw [ho]
            exact ⟨token, time, Function.update_self .., hverify, hissued⟩
          · rw [Function.update_of_ne ho] at hslot
            exact (hs.slots other u hslot).kept (fun _ hr => hr) (Function.update_of_ne ho ..)
        · obtain ⟨hbegun, hadmitted⟩ := hs.handled x hx
          have ho := hother x.1 hbegun
          refine ⟨?_, hadmitted.kept (fun _ hr => hr) (Function.update_of_ne ho ..)⟩
          show begun (Function.update s.phases ws _ x.1) = true
          rwa [Function.update_of_ne ho]
    · exact hs.kept keeps_close
    · exact hs.kept keeps_close
  · exact hs.kept keeps_close
  · exact hs.kept keeps_close
  · exact hs.kept keeps_close

theorem Vouched.step (hs : Vouched a s) {x : SocketStep} (h : Honest a s x) :
    Vouched a (s.step a maxConnectionsPerUser hasGateway x) := by
  cases x with
  | requestsToken body time =>
    exact hs.kept ⟨fun _ hr => List.mem_append_left _ hr, fun _ hb => hb, fun _ _ => rfl, fun _ _ hslot => hslot,
      fun _ hh => .inl hh⟩
  | tasksShutDown =>
    exact hs.kept ⟨fun _ hr => hr, fun _ hb => hb, fun _ _ => rfl, fun _ _ hslot => hslot, fun _ hh => .inl hh⟩
  | accepts ws =>
    simp only [SocketServer.step]
    split
    · rename_i hphase
      refine hs.kept (keeps_setPhase (fun hb => ?_) fun _ hslot => by cases hslot)
      rw [hphase] at hb
      cases hb
    · exact hs
  | identifies ws raw time =>
    simp only [SocketServer.step]
    split
    · rename_i hphase
      exact vouched_identify hs hphase h
    · exact hs
  | identifyTimeout ws =>
    simp only [SocketServer.step]
    split
    · exact hs.kept keeps_close
    · exact hs
  | readySent ws raises =>
    simp only [SocketServer.step]
    split
    · rename_i user hphase
      have hheld : (s.phases ws).slot = some user := by rw [hphase]; rfl
      split
      · exact hs.kept (keeps_held hheld rfl)
      · split
        · exact hs.kept (keeps_held hheld rfl)
        · exact hs.kept (keeps_beginLoop hheld)
    · exact hs
  | claimed ws =>
    simp only [SocketServer.step]
    split
    · rename_i user hphase
      have hheld : (s.phases ws).slot = some user := by rw [hphase]; rfl
      exact hs.kept (keeps_beginLoop hheld)
    · exact hs
  | receives ws raw =>
    simp only [SocketServer.step]
    split
    · rename_i user hphase
      have hheld : (s.phases ws).slot = some user := by rw [hphase]; rfl
      exact hs.kept (keeps_dispatch hheld raw)
    · exact hs
  | raises ws =>
    simp only [SocketServer.step]
    split
    · exact hs.kept keeps_close
    · rename_i user hphase
      have hheld : (s.phases ws).slot = some user := by rw [hphase]; rfl
      exact hs.kept (keeps_held hheld rfl)
    · exact hs
  | cancelled ws =>
    simp only [SocketServer.step]
    split
    · exact hs.kept keeps_close
    · rename_i user hphase
      have hheld : (s.phases ws).slot = some user := by rw [hphase]; rfl
      exact hs.kept (keeps_held hheld rfl)
    · rename_i user hphase
      have hheld : (s.phases ws).slot = some user := by rw [hphase]; rfl
      exact hs.kept (keeps_held hheld rfl)
    · rename_i user hphase
      have hheld : (s.phases ws).slot = some user := by rw [hphase]; rfl
      exact hs.kept (keeps_held hheld rfl)
    · rename_i user hphase
      have hheld : (s.phases ws).slot = some user := by rw [hphase]; rfl
      exact hs.kept (keeps_held hheld rfl)
    · exact hs
  | heartbeatEnded ws =>
    simp only [SocketServer.step]
    split
    · rename_i user _
      have hdisconnected : Vouched a { s with registry := s.registry.disconnect user ws } := ⟨hs.slots, hs.handled⟩
      exact hdisconnected.kept keeps_close
    · exact hs

end

/-- Where no client presents a token with a forged signature, every message handled for a user came on a connection
that was admitted as this user's. -/
theorem handled_authenticated (a : WebAuth) (maxConnectionsPerUser : Int) (hasGateway : Bool)
    (steps : List SocketStep)
    (h : Along (step a maxConnectionsPerUser hasGateway) (Honest a) {} steps) :
    let s := runFrom (step a maxConnectionsPerUser hasGateway) {} steps
    ∀ ws user msg, (ws, user, msg) ∈ s.handled → Admitted a s ws user := by
  intro s ws user msg hmem
  have hs : Vouched a s :=
    h.invariant (fun _ _ hs hx => hs.step hx)
      ⟨fun ws user hslot => by simp [SocketPhase.slot] at hslot, fun x hx => nomatch hx⟩
  exact (hs.handled _ hmem).2

/-- One connection: it identifies with a token, and sends one message. -/
def sampleSteps (token : List Char) : List SocketStep :=
  [.requestsToken WebAuth.sampleRequest 1700000000, .accepts 0,
    .identifies 0 (.obj [("type".toList, .str "identify".toList), ("token".toList, .str token)]) 1700000100,
    .readySent 0 false, .receives 0 (.obj [("type".toList, .str "pong".toList)])]

theorem mem_handled_sample {token : List Char}
    (h : WebAuth.sampleAuth.verifyJwt 1700000100 (Utf8.points token) = .ok (some "alice".toList)) :
    (0, "alice".toList, .pong) ∈
      (runFrom (step WebAuth.sampleAuth 3 false) {} (sampleSteps token)).handled := by
  have hparse : parseClientMessage (.obj [("type".toList, .str "identify".toList), ("token".toList, .str token)]) =
      .ok (some (.identify (.str token))) := rfl
  simp only [sampleSteps, runFrom, step, setPhase, Function.update_self, identify, hparse, h]
  exact List.mem_singleton_self _

theorem handled_authenticated_sample :
    Admitted WebAuth.sampleAuth
      (runFrom (step WebAuth.sampleAuth 3 false) {}
        (sampleSteps (WebAuth.sampleAuth.createJwt "alice".toList 1700000000 86400))) 0 "alice".toList := by
  have hverify : WebAuth.sampleAuth.verifyJwt 1700000100
      (Utf8.points (WebAuth.sampleAuth.createJwt "alice".toList 1700000000 86400)) = .ok (some "alice".toList) :=
    WebAuth.verifyJwt_createJwt.trans (congrArg Except.ok (if_neg (by decide +kernel)))
  refine handled_authenticated WebAuth.sampleAuth 3 false _ ?_ 0 "alice".toList .pong (mem_handled_sample hverify)
  refine ⟨trivial, trivial, fun token htoken => ?_, trivial, trivial, trivial⟩
  cases htoken
  exact WebAuth.unforged_issued WebAuth.issueToken_sample

end SocketServer

end PyClaw
