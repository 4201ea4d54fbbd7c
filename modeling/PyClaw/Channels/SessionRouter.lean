import PyClaw.Session.Directory

/-!
# Channels.SessionRouter

`SessionRouter`: which session a session key stands for. The callback of `rotate`, which cleans up
the queue of the old session, is left out.
-/

namespace PyClaw

namespace SessionDirectory

section
variable (tokens : SessionTokens) (d : SessionDirectory)

def resolveOrCreate (sessionKey workspaceId : String) (now : Int) (agentId : String := "default") :
    String × SessionDirectory :=
  match (d.getCurrentSessionId sessionKey).filter fun sid => (d.load sid).isSome with
  | some sid => (sid, d)
  | none =>
    -- a session from before there were pointers is stored under the key itself
    if (d.load sessionKey).isSome then (sessionKey, d.setCurrentSessionId sessionKey sessionKey now)
    else
      let (tree, d) := d.createNewSession tokens sessionKey workspaceId agentId none now
      (tree.header.id, d)

def rotate (sessionKey workspaceId : String) (now : Int) (agentId : String := "default") :
    String × SessionDirectory :=
  let (tree, d') := d.createNewSession tokens sessionKey workspaceId agentId
    (d.getCurrentSessionId sessionKey) now
  (tree.header.id, d')

def updateLastInteraction (sessionId : String) (now : Int) : SessionDirectory :=
  match d.load sessionId with
  | none => d
  | some tree =>
    d.saveHeader { tree with header := { tree.header with lastInteractionAt := some now } }

def checkIdleReset (sessionId : String) (idleMinutes now : Int) : Bool :=
  if idleMinutes ≤ 0 then false
  else
    match (d.load sessionId).bind fun tree => tree.header.lastInteractionAt with
    | none => false
    | some lastAt => idleMinutes * 60 * 1000000 ≤ now - lastAt

end

section
variable {tokens : SessionTokens} {d : SessionDirectory} {key sid workspaceId : String} {now : Int}

theorem resolveOrCreate_current (hcurrent : d.getCurrentSessionId key = some sid)
    (hload : (d.load sid).isSome = true) :
    d.resolveOrCreate tokens key workspaceId now = (sid, d) := by
  have hkeep : (some sid).filter (fun sid => (d.load sid).isSome) = some sid := by
    rw [Option.filter_some, if_pos hload]
  rw [resolveOrCreate, hcurrent, hkeep]

/-- `rotate` makes a session current that was not stored, and is empty; the others stay. -/
theorem rotate_spec (d : SessionDirectory) : ∃ new d', d.rotate tokens key workspaceId now = (new, d') ∧
    d.load new = none ∧ (∃ t, d'.load new = some t ∧ t.messages = []) ∧
    d'.getCurrentSessionId key = some new ∧ ∀ other, new ≠ other → d'.load other = d.load other := by
  obtain ⟨t, d', hcreate, hempty, hnew, hload, hcurrent, hothers⟩ :=
    @createNewSession_spec tokens d key now workspaceId "default" (d.getCurrentSessionId key)
  refine ⟨t.header.id, d', ?_, hnew, ⟨t, hload, hempty⟩, hcurrent, hothers⟩
  rw [rotate, hcreate]

theorem load_updateLastInteraction_isSome (sid' : String) (h : (d.load sid).isSome = true) :
    ((d.updateLastInteraction sid' now).load sid).isSome = true := by
  unfold updateLastInteraction
  split
  · exact h
  · exact load_saveHeader_isSome _ h

end

end SessionDirectory

end PyClaw
