import PyClaw.Lib.Machine
import PyClaw.Lib.Table
import PyClaw.Lib.Utf8
import PyClaw.Models.Agent
import PyClaw.Sandbox.Environment

/-!
# Tools.Bash

`BashTool.execute` with the settings file of its sandbox: any number of calls in one worker, each a
task that waits for its process, the abort event, the timeout or the grace period after a signal,
and can be cancelled at each wait. `spawned_guarded` says what a process is started with.
-/

namespace PyClaw

/-! ## The sandbox policy -/

/-- `context.sandbox_policy`; `binary` is where `srt` was found. -/
inductive SandboxPolicy where
  | absent
  | noSandbox
  | srt (binary : Option String)
  deriving DecidableEq

def SandboxPolicy.sandboxed : SandboxPolicy → Bool
  | .srt _ => true
  | _ => false

def argMaxFallbackThreshold : Nat := 100000

def commandTooLong (length : Nat) : String :=
  "sandbox: command length " ++ toString length ++ " exceeds maximum " ++
    toString argMaxFallbackThreshold ++ " (security: refusing to fall back to unsandboxed execution; " ++
    "shorten the command or use a script file)"

/-- `wrap_bash_command`; `path` is the settings file it makes, if it makes one. -/
def SandboxPolicy.wrapBashCommand (policy : SandboxPolicy) (command path : String) :
    Except String (String × List String) :=
  match policy with
  | .absent | .noSandbox => .ok ("/bin/sh", ["-c", command])
  | .srt binary =>
    if argMaxFallbackThreshold < command.length then .error (commandTooLong command.length)
    else
      match binary with
      | none => .ok ("/bin/sh", ["-c", command])
      | some binary => .ok (binary, ["--settings", path, "/bin/sh", "-c", command])

/-- `_extract_srt_settings_path`. -/
def SandboxPolicy.extractSettingsPath (policy : SandboxPolicy) : List String → Option String
  | flag :: path :: _ => if policy.sandboxed ∧ flag = "--settings" then some path else none
  | _ => none

/-! ## Calls -/

structure BashCall where
  /-- `none` where it is no string. -/
  command : Option String
  /-- `float(args.get("timeout_seconds") or 120)`; `none` where it raises. -/
  timeout : Option Rat := some 120
  policy : SandboxPolicy
  envAllowlist : Option (List String) := none
  parentEnv : Dict String String := Dict.empty

/-- The arguments of `create_subprocess_exec`. -/
structure Spawn where
  executable : String
  args : List String
  env : Option (Dict String String)

structure Process where
  returncode : Option Int := none
  terminated : Bool := false
  killed : Bool := false

/-- `send_signal(SIGTERM)`; a process that has ended is left alone, here and in `kill`. -/
def Process.terminate (p : Process) : Process :=
  if p.returncode.isSome then p else { p with terminated := true }

def Process.kill (p : Process) : Process :=
  if p.returncode.isSome then p else { p with killed := true }

inductive StopReason where
  | aborted
  | timedOut (seconds : Rat)

inductive BashEnd where
  | result (isError : Bool) (text : String)
  | raised

/-- Where the task of a call waits. -/
inductive BashPhase where
  | unknown
  | spawning (timeout : Rat)
  | waiting (timeout : Rat)
  /-- `SIGTERM` has been sent. -/
  | stopping (why : StopReason)
  /-- `SIGKILL` has been sent. -/
  | killing (why : StopReason)
  | ended (e : BashEnd)

def BashPhase.underWay : BashPhase → Bool
  | .unknown => false
  | .ended _ => false
  | _ => true

/-- The worker: `generated` is `_GENERATED_FILES`; `leftover` are the settings files that could not be
written whole, or not be unlinked. -/
structure BashHost where
  phases : Nat → BashPhase := fun _ => .unknown
  spawns : Nat → Option Spawn := fun _ => none
  processes : Nat → Option Process := fun _ => none
  settings : Nat → Option String := fun _ => none
  files : List String := []
  generated : List String := []
  leftover : List String := []

inductive BashStep where
  /-- `execute` up to the creation of the process; `mkstemp` gives `path`. -/
  | begins (n : Nat) (call : BashCall) (isAborted : Bool) (path : String) (written : Bool)
  | spawnFails (n : Nat) (reason : String) (unlinks : Bool)
  | spawned (n : Nat)
  /-- The process ends. -/
  | exits (n : Nat) (code : Int)
  /-- `communicate` returns. -/
  | communicated (n : Nat) (out err : List UInt8) (unlinks : Bool)
  | aborted (n : Nat) (unlinks : Bool)
  | timedOut (n : Nat) (unlinks : Bool)
  /-- `proc.wait` returns. -/
  | reaped (n : Nat) (unlinks : Bool)
  | graceOver (n : Nat) (unlinks : Bool)
  | cancelled (n : Nat) (unlinks : Bool)

def decodedOutput (bytes : List UInt8) : String :=
  String.ofList ((Utf8.decode bytes).map Char.ofNat)

/-- `body`. -/
def bashBody (out err : List UInt8) (code : Int) : String :=
  "\n".intercalate
    ((if decodedOutput out = "" then [] else ["[stdout]\n" ++ decodedOutput out]) ++
      (if decodedOutput err = "" then [] else ["[stderr]\n" ++ decodedOutput err]) ++
      ["[exit_code=" ++ toString code ++ "]"])

namespace BashHost

section
variable (py : PyText)

def stopText : StopReason → String
  | .aborted => "bash: aborted"
  | .timedOut seconds => "bash: command timed out after " ++ py.floatStr seconds ++ "s"

def setPhase (s : BashHost) (n : Nat) (p : BashPhase) : BashHost :=
  { s with phases := Function.update s.phases n p }

def setProcess (s : BashHost) (n : Nat) (p : Process) : BashHost :=
  { s with processes := Function.update s.processes n (some p) }

/-- `cleanup_settings_file`, in the `finally` block. -/
def cleanupSettingsFile (s : BashHost) (n : Nat) (unlinks : Bool) : BashHost :=
  match s.settings n with
  | none => s
  | some path =>
    { s with
      settings := Function.update s.settings n none
      generated := s.generated.erase path
      files := if unlinks then s.files.erase path else s.files
      leftover := if unlinks then s.leftover else s.leftover ++ [path] }

def finish (s : BashHost) (n : Nat) (e : BashEnd) (unlinks : Bool) : BashHost :=
  (s.cleanupSettingsFile n unlinks).setPhase n (.ended e)

def refuse (s : BashHost) (n : Nat) (text : String) : BashHost :=
  s.setPhase n (.ended (.result true text))

/-- `_generate_settings_json`, where the policy makes a file, and the spawn up to its first wait. -/
def launch (s : BashHost) (n : Nat) (call : BashCall) (timeout : Rat) (spawn : Spawn) (written : Bool) :
    BashHost :=
  match call.policy.extractSettingsPath spawn.args with
  | none => { s with spawns := Function.update s.spawns n (some spawn) }.setPhase n (.spawning timeout)
  | some path =>
    if written then
      { s with
        spawns := Function.update s.spawns n (some spawn)
        settings := Function.update s.settings n (some path)
        files := s.files ++ [path]
        generated := s.generated ++ [path] }.setPhase n (.spawning timeout)
    else
      { s with files := s.files ++ [path], leftover := s.leftover ++ [path] }.setPhase n (.ended .raised)

def begin (s : BashHost) (n : Nat) (call : BashCall) (isAborted : Bool) (path : String) (written : Bool) :
    BashHost :=
  match call.command with
  | none => s.refuse n "bash: 'command' is required"
  | some command =>
    if command.toList.all py.isSpace then s.refuse n "bash: 'command' is required"
    else if isAborted then s.refuse n "bash: aborted before spawn"
    else
      match call.timeout with
      | none => s.setPhase n (.ended .raised)
      | some timeout =>
        match call.policy.wrapBashCommand command path with
        | .error reason => s.refuse n ("bash: " ++ reason)
        | .ok (executable, args) =>
          let env := resolveSpawnEnv call.policy.sandboxed call.envAllowlist call.parentEnv
          s.launch n call timeout { executable, args, env } written

/-- The abort or the timeout: `_abort_proc` up to its first wait. -/
def stop (s : BashHost) (n : Nat) (p : Process) (why : StopReason) (unlinks : Bool) : BashHost :=
  if p.returncode.isSome then s.finish n (.result true (stopText py why)) unlinks
  else (s.setProcess n p.terminate).setPhase n (.stopping why)

def step (s : BashHost) : BashStep → BashHost
  | .begins n call isAborted path written =>
    match s.phases n with
    -- `mkstemp` makes a file that was not there
    | .unknown => if path ∈ s.files then s else s.begin py n call isAborted path written
    | _ => s
  | .spawnFails n reason unlinks =>
    match s.phases n with
    | .spawning _ => s.finish n (.result true ("bash: failed to spawn: " ++ reason)) unlinks
    | _ => s
  | .spawned n =>
    match s.phases n with
    | .spawning timeout => (s.setProcess n {}).setPhase n (.waiting timeout)
    | _ => s
  | .exits n code =>
    match s.processes n with
    | some p => if p.returncode.isSome then s else s.setProcess n { p with returncode := some code }
    | none => s
  | .communicated n out err unlinks =>
    match s.phases n, s.processes n with
    | .waiting _, some p =>
      match p.returncode with
      | some code => s.finish n (.result (decide (code ≠ 0)) (bashBody out err code)) unlinks
      | none => s
    | _, _ => s
  | .aborted n unlinks =>
    match s.phases n, s.processes n with
    | .waiting _, some p => s.stop py n p .aborted unlinks
    | _, _ => s
  | .timedOut n unlinks =>
    match s.phases n, s.processes n with
    | .waiting timeout, some p => s.stop py n p (.timedOut timeout) unlinks
    | _, _ => s
  | .reaped n unlinks =>
    match s.phases n, s.processes n with
    | .stopping why, some p | .killing why, some p =>
      if p.returncode.isSome then s.finish n (.result true (stopText py why)) unlinks else s
    | _, _ => s
  | .graceOver n unlinks =>
    match s.phases n, s.processes n with
    | .stopping why, some p =>
      if p.returncode.isSome then s.finish n (.result true (stopText py why)) unlinks
      else (s.setProcess n p.kill).setPhase n (.killing why)
    | .killing why, some _ => s.finish n (.result true (stopText py why)) unlinks
    | _, _ => s
  | .cancelled n unlinks =>
    match s.phases n, s.processes n with
    -- the event loop kills a process whose creation is cancelled
    | .spawning _, _ => s.finish n .raised unlinks
    | .waiting _, some p => (s.setProcess n p.kill).finish n .raised unlinks
    -- nothing between the signal and the end of the wait catches the cancellation
    | .stopping _, _ | .killing _, _ => s.finish n .raised unlinks
    | _, _ => s

end

/-- `_cleanup_all_generated_files`, when the worker exits. -/
def cleanupAllGeneratedFiles (s : BashHost) (unlinks : String → Bool) : BashHost :=
  { s with
    files := s.files.filter fun path => !(s.generated.contains path && unlinks path)
    generated := [] }

/-! ## The spawn -/

theorem extractSettingsPath_of_wrap {policy : SandboxPolicy} {command path executable : String}
    {args : List String} (h : policy.wrapBashCommand command path = .ok (executable, args)) :
    (policy.extractSettingsPath args = none ∧ args = ["-c", command]) ∨
      (policy.extractSettingsPath args = some path ∧ args = ["--settings", path, "/bin/sh", "-c", command]) := by
  cases policy with
  | absent =>
    obtain ⟨rfl, rfl⟩ := Prod.mk.inj (Except.ok.inj h)
    simp [SandboxPolicy.extractSettingsPath, SandboxPolicy.sandboxed]
  | noSandbox =>
    obtain ⟨rfl, rfl⟩ := Prod.mk.inj (Except.ok.inj h)
    simp [SandboxPolicy.extractSettingsPath, SandboxPolicy.sandboxed]
  | srt binary =>
    simp only [SandboxPolicy.wrapBashCommand] at h
    split at h
    · cases h
    · cases binary with
      | none =>
        obtain ⟨rfl, rfl⟩ := Prod.mk.inj (Except.ok.inj h)
        simp [SandboxPolicy.extractSettingsPath]
      | some binary =>
        obtain ⟨rfl, rfl⟩ := Prod.mk.inj (Except.ok.inj h)
        simp [SandboxPolicy.extractSettingsPath, SandboxPolicy.sandboxed]

theorem cleanupSettingsFile_frame (s : BashHost) (n : Nat) (unlinks : Bool) :
    (s.cleanupSettingsFile n unlinks).phases = s.phases ∧
      (s.cleanupSettingsFile n unlinks).processes = s.processes ∧
      (s.cleanupSettingsFile n unlinks).spawns = s.spawns := by
  unfold cleanupSettingsFile
  split <;> exact ⟨rfl, rfl, rfl⟩

@[simp] theorem spawns_setPhase (s : BashHost) (n : Nat) (p : BashPhase) :
    (s.setPhase n p).spawns = s.spawns := rfl

@[simp] theorem spawns_setProcess (s : BashHost) (n : Nat) (p : Process) :
    (s.setProcess n p).spawns = s.spawns := rfl

@[simp] theorem spawns_finish (s : BashHost) (n : Nat) (e : BashEnd) (unlinks : Bool) :
    (s.finish n e unlinks).spawns = s.spawns :=
  (cleanupSettingsFile_frame s n unlinks).2.2

@[simp] theorem spawns_stop (py : PyText) (s : BashHost) (n : Nat) (p : Process) (why : StopReason)
    (unlinks : Bool) : (s.stop py n p why unlinks).spawns = s.spawns := by
  unfold stop
  split <;> simp

/-- Started in the sandbox where there is one, with the variables that are let through. -/
structure Guarded (call : BashCall) (command path : String) (spawn : Spawn) : Prop where
  sandboxed : ∀ binary, call.policy = .srt (some binary) → command.length ≤ argMaxFallbackThreshold ∧
    spawn.executable = binary ∧ spawn.args = ["--settings", path, "/bin/sh", "-c", command]
  plain : (∀ binary, call.policy ≠ .srt (some binary)) →
    spawn.executable = "/bin/sh" ∧ spawn.args = ["-c", command]
  visible : ∀ k, (spawn.env.getD call.parentEnv).get? k =
    if (call.policy.sandboxed = false ∧ call.envAllowlist = none) ∨ Admitted (call.envAllowlist.getD []) k then
      call.parentEnv.get? k
    else none

theorem guarded_of_wrap {call : BashCall} {command path executable : String} {args : List String}
    (h : call.policy.wrapBashCommand command path = .ok (executable, args)) :
    Guarded call command path
      { executable, args, env := resolveSpawnEnv call.policy.sandboxed call.envAllowlist call.parentEnv } where
  sandboxed := by
    intro binary hpolicy
    rw [hpolicy] at h
    simp only [SandboxPolicy.wrapBashCommand] at h
    split at h
    · cases h
    · rename_i hlength
      obtain ⟨rfl, rfl⟩ := Prod.mk.inj (Except.ok.inj h)
      exact ⟨by omega, rfl, rfl⟩
  plain := by
    intro hplain
    cases hpolicy : call.policy with
    | absent =>
      rw [hpolicy] at h
      obtain ⟨rfl, rfl⟩ := Prod.mk.inj (Except.ok.inj h)
      exact ⟨rfl, rfl⟩
    | noSandbox =>
      rw [hpolicy] at h
      obtain ⟨rfl, rfl⟩ := Prod.mk.inj (Except.ok.inj h)
      exact ⟨rfl, rfl⟩
    | srt binary =>
      cases binary with
      | some binary => exact absurd hpolicy (hplain binary)
      | none =>
        rw [hpolicy] at h
        simp only [SandboxPolicy.wrapBashCommand] at h
        split at h
        · cases h
        · obtain ⟨rfl, rfl⟩ := Prod.mk.inj (Except.ok.inj h)
          exact ⟨rfl, rfl⟩
  visible := childEnv_get? call.policy.sandboxed call.envAllowlist call.parentEnv

section
variable {py : PyText} {s : BashHost} {n m : Nat} {spawn : Spawn}

theorem spawns_launch {call : BashCall} {timeout : Rat} {spawn' : Spawn} {written : Bool}
    (h : (s.launch m call timeout spawn' written).spawns n = some spawn) :
    s.spawns n = some spawn ∨ n = m ∧ spawn = spawn' := by
  unfold launch at h
  split at h
  · rcases update_eq_some.mp h with ⟨rfl, heq⟩ | ⟨-, hold⟩
    · exact .inr ⟨rfl, (Option.some.inj heq).symm⟩
    · exact .inl hold
  · split at h
    · rcases update_eq_some.mp h with ⟨rfl, heq⟩ | ⟨-, hold⟩
      · exact .inr ⟨rfl, (Option.some.inj heq).symm⟩
      · exact .inl hold
    · exact .inl h

theorem spawns_begin {call : BashCall} {isAborted : Bool} {path : String} {written : Bool}
    (h : (s.begin py m call isAborted path written).spawns n = some spawn) :
    s.spawns n = some spawn ∨
      n = m ∧ isAborted = false ∧ ∃ command, call.command = some command ∧ Guarded call command path spawn := by
  unfold begin at h
  split at h
  · exact .inl h
  · rename_i command hcommand
    split at h
    · exact .inl h
    · split at h
      · exact .inl h
      · rename_i haborted
        split at h
        · exact .inl h
        · split at h
          · exact .inl h
          · rename_i hwrap
            rcases spawns_launch h with hold | ⟨rfl, rfl⟩
            · exact .inl hold
            · exact .inr ⟨rfl, by simpa using haborted, command, hcommand, guarded_of_wrap hwrap⟩

theorem spawns_step {a : BashStep} (h : (s.step py a).spawns n = some spawn) :
    s.spawns n = some spawn ∨ ∃ call path written command, a = .begins n call false path written ∧
      call.command = some command ∧ Guarded call command path spawn := by
  cases a with
  | begins m call isAborted path written =>
    simp only [step] at h
    split at h
    · split at h
      · exact .inl h
      · rcases spawns_begin h with hold | ⟨rfl, rfl, command, hcommand, hguarded⟩
        · exact .inl hold
        · exact .inr ⟨call, path, written, command, rfl, hcommand, hguarded⟩
    · exact .inl h
  | spawnFails m reason unlinks =>
    simp only [step] at h
    split at h <;> exact .inl (by simpa using h)
  | spawned m =>
    simp only [step] at h
    split at h <;> exact .inl (by simpa using h)
  | exits m code =>
    simp only [step] at h
    split at h
    · split at h <;> exact .inl (by simpa using h)
    · exact .inl h
  | communicated m out err unlinks =>
    simp only [step] at h
    split at h
    · split at h <;> exact .inl (by simpa using h)
    · exact .inl h
  | aborted m unlinks =>
    simp only [step] at h
    split at h <;> exact .inl (by simpa using h)
  | timedOut m unlinks =>
    simp only [step] at h
    split at h <;> exact .inl (by simpa using h)
  | reaped m unlinks =>
    simp only [step] at h
    split at h
    · split at h <;> exact .inl (by simpa using h)
    · split at h <;> exact .inl (by simpa using h)
    · exact .inl h
  | graceOver m unlinks =>
    simp only [step] at h
    split at h
    · split at h <;> exact .inl (by simpa using h)
    · exact .inl (by simpa using h)
    · exact .inl h
  | cancelled m unlinks =>
    simp only [step] at h
    split at h <;> exact .inl (by simpa using h)

theorem spawns_run {steps : List BashStep} (h : (runFrom (step py) s steps).spawns n = some spawn) :
    s.spawns n = some spawn ∨ ∃ call path written command, .begins n call false path written ∈ steps ∧
      call.command = some command ∧ Guarded call command path spawn := by
  induction steps generalizing s with
  | nil => exact .inl h
  | cons a steps ih =>
    rcases ih h with hnext | ⟨call, path, written, command, hin, hcommand, hguarded⟩
    · rcases spawns_step hnext with hold | ⟨call, path, written, command, rfl, hcommand, hguarded⟩
      · exact .inl hold
      · exact .inr ⟨call, path, written, command, List.mem_cons_self, hcommand, hguarded⟩
    · exact .inr ⟨call, path, written, command, List.mem_cons_of_mem _ hin, hcommand, hguarded⟩

end

/-- Every process of a run was started by a call that was not aborted, as the call's sandbox and allowlist
have it. -/
theorem spawned_guarded (py : PyText) (steps : List BashStep) (n : Nat) (spawn : Spawn)
    (h : (runFrom (step py) {} steps).spawns n = some spawn) :
    ∃ call path written command, .begins n call false path written ∈ steps ∧
      call.command = some command ∧ Guarded call command path spawn := by
  rcases spawns_run h with hold | hcall
  · cases hold
  · exact hcall

def sandboxedLs : BashCall where
  command := some "ls"
  policy := .srt (some "/usr/bin/srt")
  parentEnv := [("HOME", "/root"), ("GH_TOKEN", "t")].foldl (fun env p => env.set p.1 p.2) Dict.empty

theorem spawned_guarded_ls :
    ∃ spawn, (runFrom (step PyText.ascii) {}
        [.begins 0 sandboxedLs false "/tmp/a.json" true]).spawns 0 = some spawn ∧
      ∃ call path written command,
        .begins 0 call false path written ∈ [BashStep.begins 0 sandboxedLs false "/tmp/a.json" true] ∧
        call.command = some command ∧ Guarded call command path spawn :=
  ⟨_, rfl, spawned_guarded PyText.ascii [.begins 0 sandboxedLs false "/tmp/a.json" true] 0 _ rfl⟩

end BashHost

end PyClaw
