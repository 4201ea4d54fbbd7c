import PyClaw.Channels.WebRoutes

/-!
# Channels.Idle

`/idle` (`cmd_idle`, `parse_idle_duration`) and the limit that the next message of the session is routed
with. The command stores no override for a duration of zero, so the limit is then the one of the deployment.
-/

namespace PyClaw

/-! ## The argument -/

def minuteUnits : List (List Char) :=
  ["m".toList, "min".toList, "mins".toList, "minute".toList, "minutes".toList]

def hourUnits : List (List Char) := ["h".toList, "hour".toList, "hours".toList]

/-- `int` of decimal digits; `none` is its `ValueError` for more than 4300 of them. -/
def PyDigits.intOfDecimals (digits : PyDigits) (text : List Char) : Option Nat :=
  if text.length ≤ 4300 then digits.int text else none

/-- `parse_idle_duration`; the outer `none` is an exception, the inner one its `None`. -/
def parseIdleDuration (py : PyText) (digits : PyDigits) (arg : String) : Option (Option Nat) :=
  let arg := (py.lower (String.ofList (strip py.isSpace arg.toList))).toList
  if arg ∈ ["off".toList, "0".toList, "disable".toList, "关闭".toList] then some (some 0)
  else
    let number := arg.takeWhile fun c => (digits.value c).isSome
    let unit := arg.dropWhile fun c => (digits.value c).isSome
    if number ≠ [] ∧ unit ∈ minuteUnits then (digits.intOfDecimals number).map some
    else if number ≠ [] ∧ unit ∈ hourUnits then (digits.intOfDecimals number).map fun n => some (n * 60)
    else some none

inductive IdleReply where
  | unparsed
  | noSession
  | off
  | set (minutes : Nat)
  deriving DecidableEq, Repr

def IdleReply.text : IdleReply → String
  | .unparsed => "❌ 无法解析时长，请使用如 `30m`、`2h` 或 `off`"
  | .noSession => "❌ 会话不存在"
  | .off => "✅ 空闲超时已关闭。"
  | .set minutes =>
    let unit :=
      if minutes < 60 then toString minutes ++ " 分钟"
      else if minutes % 60 = 0 then toString (minutes / 60) ++ " 小时"
      else toString (minutes / 60) ++ " 小时 " ++ toString (minutes % 60) ++ " 分钟"
    "✅ 空闲超时已设置为 " ++ unit ++ "。"

namespace SessionDirectory

/-- `cmd_idle`; `none` where the parser raises. -/
def idleCommand (py : PyText) (digits : PyDigits) (d : SessionDirectory) (sessionId args : String) :
    Option (IdleReply × SessionDirectory) :=
  match parseIdleDuration py digits args with
  | none => none
  | some none => some (.unparsed, d)
  | some (some minutes) =>
    match d.load sessionId with
    | none => some (.noSession, d)
    | some _ => some (if minutes = 0 then .off else .set minutes, d.cmdIdle sessionId minutes)

/-- The limit that the next message of a Feishu conversation is routed with, and the session it is for. -/
def nextIdleLimit (tokens : SessionTokens) (idleMinutes : Int) (d : SessionDirectory)
    (sessionKey workspaceId : String) (now : Int) : String × Int :=
  let (sid, d) := d.resolveOrCreate tokens sessionKey workspaceId now
  (sid, d.idleLimit idleMinutes sid)

/-! ## The limit -/

section
variable {tokens : SessionTokens} {d : SessionDirectory} {sid key workspaceId : String} {now : Int}

/-- A limit that is not positive resets no session, whenever it was last used. -/
theorem checkIdleReset_of_nonpos {idleMinutes : Int} (h : idleMinutes ≤ 0) :
    d.checkIdleReset sid idleMinutes now = false := if_pos h

theorem load_cmdIdle {tree : SessionTree} (hload : d.load sid = some tree) (minutes : Int) :
    (d.cmdIdle sid minutes).load sid = some
      { tree with header :=
          { tree.header with idleMinutesOverride := if minutes > 0 then some minutes else none } } := by
  obtain rfl := InMemorySessionStore.header_of_load hload
  have hstore : d.store.load tree.header.id = some tree := hload
  rw [cmdIdle, hload]
  simp only [saveHeader, InMemorySessionStore.saveHeader, hstore]
  exact InMemorySessionStore.load_put d.store { tree with header := _ }

/-- Routing a message to a stored session does not touch what is stored of it. -/
theorem resolveOrCreate_load (hstored : (d.load sid).isSome = true)
    (hroute : (d.resolveOrCreate tokens key workspaceId now).1 = sid) :
    (d.resolveOrCreate tokens key workspaceId now).2.load sid = d.load sid := by
  rw [resolveOrCreate] at hroute ⊢
  split
  · rfl
  · rename_i hnone
    rw [hnone] at hroute
    simp only at hroute
    by_cases hlegacy : (d.load key).isSome = true
    · rw [if_pos hlegacy]
      rfl
    · rw [if_neg hlegacy] at hroute ⊢
      obtain ⟨t, d', hcreate, -, hnew, -⟩ :=
        @createNewSession_spec tokens d key now workspaceId "default" none
      rw [hcreate] at hroute
      simp only at hroute
      rw [hroute] at hnew
      rw [hnew] at hstored
      cases hstored

/-- The parsed duration is the limit; zero means that no session is ever reset. -/
def HonoursIdle (minutes : Nat) (limit : Int) : Prop :=
  if minutes = 0 then
    ∀ (d : SessionDirectory) (sid : String) (now : Int), d.checkIdleReset sid limit now = false
  else limit = minutes

/-- A session that was last used at time 0. -/
def usedAtZero : SessionDirectory where
  store := InMemorySessionStore.empty.put
    { header := { id := "s", workspaceId := "w", agentId := "default", lastInteractionAt := some 0 } }

theorem honoursIdle_zero_iff {limit : Int} : HonoursIdle 0 limit ↔ limit ≤ 0 := by
  rw [HonoursIdle, if_pos rfl]
  constructor
  · intro h
    by_contra hpos
    -- A positive limit resets a session once that much time has passed.
    have hreset := h usedAtZero "s" (limit * 60 * 1000000)
    have hload : (usedAtZero.load "s").bind (fun tree => tree.header.lastInteractionAt) = some 0 := by
      decide
    rw [checkIdleReset, if_neg hpos, hload] at hreset
    simp at hreset
  · intro h d sid now
    exact checkIdleReset_of_nonpos h

/-- What `/idle` accepts is honoured exactly if it is no switching off, or the deployment has no limit
either. -/
theorem idleCommand_honoured_iff (py : PyText) (digits : PyDigits) (tokens : SessionTokens)
    (idleMinutes : Int) (d d' : SessionDirectory) (sid args key workspaceId : String) (now limit : Int)
    (minutes : Nat) (reply : IdleReply) (hparse : parseIdleDuration py digits args = some (some minutes))
    (hstored : (d.load sid).isSome = true) (hcommand : d.idleCommand py digits sid args = some (reply, d'))
    (hroute : d'.nextIdleLimit tokens idleMinutes key workspaceId now = (sid, limit)) :
    HonoursIdle minutes limit ↔ minutes ≠ 0 ∨ idleMinutes ≤ 0 := by
  obtain ⟨tree, hload⟩ := Option.isSome_iff_exists.mp hstored
  have hd' : d' = d.cmdIdle sid minutes := by
    rw [idleCommand, hparse] at hcommand
    simp only [hload, Option.some.injEq, Prod.mk.injEq] at hcommand
    exact hcommand.2.symm
  have hload' := load_cmdIdle hload (minutes : Int)
  rw [← hd'] at hload'
  rw [nextIdleLimit, Prod.mk.injEq] at hroute
  obtain ⟨hsid, hlimit⟩ := hroute
  rw [hsid, idleLimit, resolveOrCreate_load (by rw [hload']; rfl) hsid, hload', Option.bind_some] at hlimit
  by_cases hzero : minutes = 0
  · subst hzero
    rw [if_neg (by simp), Option.getD_none] at hlimit
    rw [← hlimit, honoursIdle_zero_iff]
    simp
  · have hpos : (minutes : Int) > 0 := by omega
    rw [if_pos hpos, Option.getD_some] at hlimit
    rw [HonoursIdle, if_neg hzero]
    simp [hzero, hlimit.symm]

end

/-- `/idle off` under a deployment limit of thirty minutes: the next message is routed with thirty. -/
theorem idleCommand_off_falls_back :
    ¬ ∀ (py : PyText) (digits : PyDigits) (tokens : SessionTokens) (idleMinutes : Int)
      (d d' : SessionDirectory) (sid args key workspaceId : String) (now limit : Int) (minutes : Nat)
      (reply : IdleReply), parseIdleDuration py digits args = some (some minutes) →
      (d.load sid).isSome = true → d.idleCommand py digits sid args = some (reply, d') →
      d'.nextIdleLimit tokens idleMinutes key workspaceId now = (sid, limit) →
      HonoursIdle minutes limit := by
  intro h
  let d : SessionDirectory := { usedAtZero with current := Dict.empty.set "k" "s" }
  have hcommand : d.idleCommand PyText.ascii PyDigits.ascii "s" "off" = some (.off, d.cmdIdle "s" 0) := by
    rfl
  have hnext : (d.cmdIdle "s" 0).nextIdleLimit SessionTokens.long 30 "k" "w" 60 = ("s", 30) := by
    decide +kernel
  have hoff := h PyText.ascii PyDigits.ascii SessionTokens.long 30 d (d.cmdIdle "s" 0) "s" "off" "k" "w" 60 30 0
    .off (by decide +kernel) (by decide +kernel) hcommand hnext
  exact absurd (honoursIdle_zero_iff.mp hoff) (by decide)

/-- `/idle 2h` under the same limit. -/
theorem idleCommand_honoured_two_hours :
    ∃ d d' : SessionDirectory, d.idleCommand PyText.ascii PyDigits.ascii "s" "2h" = some (.set 120, d') ∧
      d'.nextIdleLimit SessionTokens.long 30 "k" "w" 60 = ("s", 120) ∧ HonoursIdle 120 120 := by
  let d : SessionDirectory := { usedAtZero with current := Dict.empty.set "k" "s" }
  have hcommand : d.idleCommand PyText.ascii PyDigits.ascii "s" "2h" =
      some (.set 120, d.cmdIdle "s" 120) := by rfl
  have hnext : (d.cmdIdle "s" 120).nextIdleLimit SessionTokens.long 30 "k" "w" 60 = ("s", 120) := by
    decide +kernel
  refine ⟨d, _, hcommand, hnext, ?_⟩
  exact (idleCommand_honoured_iff PyText.ascii PyDigits.ascii SessionTokens.long 30 d (d.cmdIdle "s" 120) "s" "2h"
    "k" "w" 60 120 120 (.set 120) (by decide +kernel) (by decide +kernel) hcommand hnext).mpr
      (.inl (by decide))

end SessionDirectory

end PyClaw
