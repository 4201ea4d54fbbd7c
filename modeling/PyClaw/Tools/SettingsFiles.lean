import Mathlib.Data.List.Nodup
import PyClaw.Tools.Bash

/-!
# Tools.SettingsFiles

The settings files of sandboxed commands (`_generate_settings_json`, `cleanup_settings_file`).
`settings_exact`: the files that exist are those of the calls that have not ended and those that could
not be written or unlinked, no two calls share one, and a sandboxed process finds its own there for as
long as its call goes on. What the exit hook leaves is what could not be written or unlinked: a file whose
`unlink` failed is no longer in `_GENERATED_FILES`.
-/

namespace PyClaw

namespace BashHost

structure SettingsKept (s : BashHost) : Prop where
  nodup : s.files.Nodup
  exact : ∀ path, path ∈ s.files ↔ (∃ n, s.settings n = some path) ∨ path ∈ s.leftover
  own : ∀ n m path, s.settings n = some path → s.settings m = some path → n = m
  apart : ∀ n path, s.settings n = some path → path ∉ s.leftover
  registeredOnce : s.generated.Nodup
  registered : ∀ path, path ∈ s.generated ↔ ∃ n, s.settings n = some path
  current : ∀ n path, s.settings n = some path → (s.phases n).underWay = true
  passed : ∀ n spawn path rest, s.spawns n = some spawn → spawn.args = "--settings" :: path :: rest →
    (s.phases n).underWay = true → s.settings n = some path

section
variable {py : PyText} {s : BashHost} {n : Nat}

theorem SettingsKept.setPhase (h : SettingsKept s) {p : BashPhase}
    (hp : p.underWay = (s.phases n).underWay) : SettingsKept (s.setPhase n p) := by
  have hunder : ∀ m, ((s.setPhase n p).phases m).underWay = (s.phases m).underWay := by
    intro m
    by_cases hm : m = n
    · subst hm
      simpa [BashHost.setPhase] using hp
    · simp [BashHost.setPhase, hm]
  exact {
    h with
    current := fun m path hpath => by rw [hunder m]; exact h.current m path hpath
    passed := fun m spawn path rest hspawn hargs hm => by
      rw [hunder m] at hm
      exact h.passed m spawn path rest hspawn hargs hm }

theorem SettingsKept.setProcess (h : SettingsKept s) (p : Process) : SettingsKept (s.setProcess n p) :=
  { h with }

/-- A call that makes no file, or has no more. -/
theorem SettingsKept.endCall (h : SettingsKept s) (hnone : s.settings n = none) (e : BashEnd) :
    SettingsKept (s.setPhase n (.ended e)) := by
  refine { h with current := ?_, passed := ?_ }
  · intro m path hpath
    have hm : m ≠ n := by
      rintro rfl
      cases hnone.symm.trans hpath
    show (Function.update s.phases n _ m).underWay = true
    rw [Function.update_of_ne hm]
    exact h.current m path hpath
  · intro m spawn path rest hspawn hargs hunder
    have hm : m ≠ n := by
      rintro rfl
      simp [BashHost.setPhase, BashPhase.underWay] at hunder
    simp only [BashHost.setPhase, Function.update_of_ne hm] at hunder
    exact h.passed m spawn path rest hspawn hargs hunder

theorem SettingsKept.cleanupSettingsFile {path : String} (h : SettingsKept s) (hpath : s.settings n = some path)
    (unlinks : Bool) (e : BashEnd) : SettingsKept ((s.cleanupSettingsFile n unlinks).setPhase n (.ended e)) := by
  have hsettings : ∀ m path', Function.update s.settings n none m = some path' ↔
      m ≠ n ∧ s.settings m = some path' := fun m path' => update_none_eq_some
  have hother : ∀ m path', m ≠ n → s.settings m = some path' → path' ≠ path := by
    rintro m path' hm hm' rfl
    exact hm (h.own m n path' hm' hpath)
  have hrest : ∀ path', (∃ m, Function.update s.settings n none m = some path') ↔
      path' ≠ path ∧ ∃ m, s.settings m = some path' := by
    intro path'
    constructor
    · rintro ⟨m, hm⟩
      obtain ⟨hne, hm'⟩ := (hsettings m path').mp hm
      exact ⟨hother m path' hne hm', m, hm'⟩
    · rintro ⟨hne, m, hm⟩
      refine ⟨m, (hsettings m path').mpr ⟨?_, hm⟩⟩
      rintro rfl
      exact hne (Option.some.inj (hm.symm.trans hpath))
  have hleft : path ∉ s.leftover := h.apart n path hpath
  rw [BashHost.cleanupSettingsFile, hpath]
  refine ⟨?_, ?_, ?_, ?_, h.registeredOnce.erase path, ?_, ?_, ?_⟩
  · cases unlinks with
    | true => exact h.nodup.erase path
    | false => exact h.nodup
  · intro path'
    show _ ↔ (∃ m, Function.update s.settings n none m = some path') ∨ _
    rw [hrest path']
    cases unlinks with
    | true =>
      show path' ∈ s.files.erase path ↔ _ ∨ path' ∈ s.leftover
      rw [h.nodup.mem_erase_iff, h.exact path']
      constructor
      · rintro ⟨hne, hfile | hfile⟩
        · exact .inl ⟨hne, hfile⟩
        · exact .inr hfile
      · rintro (⟨hne, hfile⟩ | hfile)
        · exact ⟨hne, .inl hfile⟩
        · exact ⟨fun heq => hleft (heq ▸ hfile), .inr hfile⟩
    | false =>
      show path' ∈ s.files ↔ _ ∨ path' ∈ s.leftover ++ [path]
      rw [h.exact path', List.mem_append, List.mem_singleton]
      by_cases hp : path' = path
      · subst hp
        simp [show ∃ m, s.settings m = some path' from ⟨n, hpath⟩]
      · simp [hp]
  · intro m m' path' hm hm'
    exact h.own m m' path' ((hsettings m path').mp hm).2 ((hsettings m' path').mp hm').2
  · intro m path' hm
    obtain ⟨hne, hm'⟩ := (hsettings m path').mp hm
    cases unlinks with
    | true => exact h.apart m path' hm'
    | false =>
      show path' ∉ s.leftover ++ [path]
      rw [List.mem_append, List.mem_singleton]
      rintro (hin | heq)
      · exact h.apart m path' hm' hin
      · exact hother m path' hne hm' heq
  · intro path'
    show path' ∈ s.generated.erase path ↔ ∃ m, Function.update s.settings n none m = some path'
    rw [hrest path', h.registeredOnce.mem_erase_iff, h.registered path']
  · intro m path' hm
    obtain ⟨hne, hm'⟩ := (hsettings m path').mp hm
    show (Function.update s.phases n _ m).underWay = true
    rw [Function.update_of_ne hne]
    exact h.current m path' hm'
  · intro m spawn path' rest hspawn hargs hunder
    have hne : m ≠ n := by
      rintro rfl
      simp [BashHost.setPhase, BashPhase.underWay] at hunder
    simp only [BashHost.setPhase, Function.update_of_ne hne] at hunder
    exact (hsettings m path').mpr ⟨hne, h.passed m spawn path' rest hspawn hargs hunder⟩

theorem SettingsKept.finish (h : SettingsKept s) (e : BashEnd) (unlinks : Bool) :
    SettingsKept (s.finish n e unlinks) := by
  cases hpath : s.settings n with
  | none =>
    rw [BashHost.finish, BashHost.cleanupSettingsFile, hpath]
    exact h.endCall hpath e
  | some path => exact h.cleanupSettingsFile hpath unlinks e

theorem SettingsKept.ne_of_unknown (h : SettingsKept s) (hphase : s.phases n = .unknown) {m : Nat}
    {path : String} (hm : s.settings m = some path) : m ≠ n := by
  rintro rfl
  have hunder := h.current m path hm
  rw [hphase] at hunder
  cases hunder

theorem SettingsKept.settings_of_unknown (h : SettingsKept s) (hphase : s.phases n = .unknown) :
    s.settings n = none :=
  Option.eq_none_iff_forall_ne_some.mpr fun _ hm => h.ne_of_unknown hphase hm rfl

theorem SettingsKept.fresh_nodup (h : SettingsKept s) {path : String} (hfresh : path ∉ s.files) :
    (s.files ++ [path]).Nodup :=
  List.Nodup.append h.nodup (List.nodup_singleton path) (List.disjoint_singleton.mpr hfresh)

/-- A file that could not be written whole. -/
theorem SettingsKept.unwritten (h : SettingsKept s) {path : String} (hfresh : path ∉ s.files) :
    SettingsKept { s with files := s.files ++ [path], leftover := s.leftover ++ [path] } := by
  refine { h with nodup := h.fresh_nodup hfresh, exact := ?_, apart := ?_ }
  · intro path'
    show path' ∈ s.files ++ [path] ↔ _ ∨ path' ∈ s.leftover ++ [path]
    rw [List.mem_append, List.mem_append, h.exact path', or_assoc]
  · intro m path' hm
    show path' ∉ s.leftover ++ [path]
    rw [List.mem_append, List.mem_singleton]
    rintro (hin | rfl)
    · exact h.apart m path' hm hin
    · exact hfresh ((h.exact path').mpr (.inl ⟨m, hm⟩))

/-- A spawn whose settings file has just been written. -/
theorem SettingsKept.written (h : SettingsKept s) (hphase : s.phases n = .unknown) {path : String}
    (hfresh : path ∉ s.files) {spawn : Spawn} {tail : List String} (hargs : spawn.args = "--settings" :: path :: tail)
    (timeout : Rat) :
    SettingsKept ({ s with
      spawns := Function.update s.spawns n (some spawn)
      settings := Function.update s.settings n (some path)
      files := s.files ++ [path]
      generated := s.generated ++ [path] }.setPhase n (.spawning timeout)) := by
  have hunused : ∀ m, s.settings m ≠ some path := fun m hm => hfresh ((h.exact path).mpr (.inl ⟨m, hm⟩))
  have hclean : path ∉ s.leftover := fun hm => hfresh ((h.exact path).mpr (.inr hm))
  have hunlisted : path ∉ s.generated := fun hm => (h.registered path).mp hm |>.elim hunused
  have hsettings : ∀ m path', Function.update s.settings n (some path) m = some path' ↔
      m = n ∧ path = path' ∨ m ≠ n ∧ s.settings m = some path' := by
    intro m path'
    rw [update_eq_some, Option.some.injEq]
  have hsome : ∀ path', (∃ m, Function.update s.settings n (some path) m = some path') ↔
      path' = path ∨ ∃ m, s.settings m = some path' := by
    intro path'
    constructor
    · rintro ⟨m, hm⟩
      rcases (hsettings m path').mp hm with ⟨-, heq⟩ | ⟨-, hm'⟩
      · exact .inl heq.symm
      · exact .inr ⟨m, hm'⟩
    · rintro (rfl | ⟨m, hm⟩)
      · exact ⟨n, (hsettings n path').mpr (.inl ⟨rfl, rfl⟩)⟩
      · exact ⟨m, (hsettings m path').mpr (.inr ⟨h.ne_of_unknown hphase hm, hm⟩)⟩
  refine ⟨h.fresh_nodup hfresh, ?_, ?_, ?_, ?_, ?_, ?_, ?_⟩
  · intro path'
    show path' ∈ s.files ++ [path] ↔
      (∃ m, Function.update s.settings n (some path) m = some path') ∨ path' ∈ s.leftover
    rw [hsome path', List.mem_append, List.mem_singleton, h.exact path']
    exact or_right_comm.trans (or_congr_left or_comm)
  · intro m m' path' hm hm'
    rcases (hsettings m path').mp hm with ⟨rfl, rfl⟩ | ⟨_, hold⟩
    · rcases (hsettings m' path).mp hm' with ⟨heq, -⟩ | ⟨_, hold'⟩
      · exact heq.symm
      · exact absurd hold' (hunused m')
    · rcases (hsettings m' path').mp hm' with ⟨-, rfl⟩ | ⟨_, hold'⟩
      · exact absurd hold (hunused m)
      · exact h.own m m' path' hold hold'
  · intro m path' hm
    rcases (hsettings m path').mp hm with ⟨-, rfl⟩ | ⟨_, hold⟩
    · exact hclean
    · exact h.apart m path' hold
  · exact List.Nodup.append h.registeredOnce (List.nodup_singleton path)
      (List.disjoint_singleton.mpr hunlisted)
  · intro path'
    show path' ∈ s.generated ++ [path] ↔ ∃ m, Function.update s.settings n (some path) m = some path'
    rw [hsome path', List.mem_append, List.mem_singleton, h.registered path', or_comm]
  · intro m path' hm
    show (Function.update s.phases n _ m).underWay = true
    rcases (hsettings m path').mp hm with ⟨rfl, -⟩ | ⟨hne, hold⟩
    · rw [Function.update_self]
      rfl
    · rw [Function.update_of_ne hne]
      exact h.current m path' hold
  · intro m spawn' path' rest hspawn hargs' hm
    refine (hsettings m path').mpr ?_
    rcases update_eq_some.mp hspawn with ⟨rfl, heq⟩ | ⟨hne, hspawn'⟩
    · obtain rfl := Option.some.inj heq
      obtain ⟨-, htail⟩ := List.cons.inj (hargs.symm.trans hargs')
      exact .inl ⟨rfl, (List.cons.inj htail).1⟩
    · simp only [BashHost.setPhase, Function.update_of_ne hne] at hm
      exact .inr ⟨hne, h.passed m spawn' path' rest hspawn' hargs' hm⟩

/-- A spawn without a sandbox. -/
theorem SettingsKept.unsandboxed (h : SettingsKept s) (hphase : s.phases n = .unknown) {spawn : Spawn}
    {command : String} (hargs : spawn.args = ["-c", command]) (timeout : Rat) :
    SettingsKept ({ s with spawns := Function.update s.spawns n (some spawn) }.setPhase n
      (.spawning timeout)) := by
  refine { h with current := ?_, passed := ?_ }
  · intro m path hm
    show (Function.update s.phases n _ m).underWay = true
    rw [Function.update_of_ne (h.ne_of_unknown hphase hm)]
    exact h.current m path hm
  · intro m spawn' path rest hspawn hargs' hunder
    rcases update_eq_some.mp hspawn with ⟨-, heq⟩ | ⟨hne, hspawn'⟩
    · obtain rfl := Option.some.inj heq
      rw [hargs] at hargs'
      simp at hargs'
    · simp only [BashHost.setPhase, Function.update_of_ne hne] at hunder
      exact h.passed m spawn' path rest hspawn' hargs' hunder

theorem SettingsKept.launch (h : SettingsKept s) (hphase : s.phases n = .unknown) {call : BashCall}
    {timeout : Rat} {spawn : Spawn} {command path : String} (written : Bool)
    (hwrap : call.policy.wrapBashCommand command path = .ok (spawn.executable, spawn.args))
    (hfresh : path ∉ s.files) : SettingsKept (s.launch n call timeout spawn written) := by
  unfold BashHost.launch
  rcases extractSettingsPath_of_wrap hwrap with ⟨hextract, hargs⟩ | ⟨hextract, hargs⟩
  · rw [hextract]
    exact h.unsandboxed hphase hargs timeout
  · rw [hextract]
    dsimp only
    split
    · exact h.written hphase hfresh hargs timeout
    · exact (h.unwritten hfresh).endCall (h.settings_of_unknown hphase) .raised

theorem SettingsKept.begin (h : SettingsKept s) (hphase : s.phases n = .unknown) (call : BashCall)
    (isAborted : Bool) {path : String} (hfresh : path ∉ s.files) (written : Bool) :
    SettingsKept (s.begin py n call isAborted path written) := by
  have hnone : s.settings n = none := h.settings_of_unknown hphase
  unfold BashHost.begin
  split
  · exact h.endCall hnone _
  · split
    · exact h.endCall hnone _
    · split
      · exact h.endCall hnone _
      · split
        · exact h.endCall hnone _
        · split
          · exact h.endCall hnone _
          · rename_i hwrap
            exact h.launch hphase written hwrap hfresh

theorem SettingsKept.stop (h : SettingsKept s) {timeout : Rat} (hphase : s.phases n = .waiting timeout)
    (p : Process) (why : StopReason) (unlinks : Bool) : SettingsKept (s.stop py n p why unlinks) := by
  unfold BashHost.stop
  split
  · exact h.finish _ unlinks
  · exact (h.setProcess _).setPhase (by simp [BashHost.setProcess, hphase, BashPhase.underWay])

theorem SettingsKept.step (h : SettingsKept s) (a : BashStep) : SettingsKept (s.step py a) := by
  cases a with
  | begins m call isAborted path written =>
    simp only [BashHost.step]
    split
    · rename_i hphase
      split
      · exact h
      · rename_i hfresh
        exact h.begin hphase call isAborted hfresh written
    · exact h
  | spawnFails m reason unlinks =>
    simp only [BashHost.step]
    split
    · exact h.finish _ unlinks
    · exact h
  | spawned m =>
    simp only [BashHost.step]
    split
    · rename_i hphase
      exact (h.setProcess _).setPhase (by simp [BashHost.setProcess, hphase, BashPhase.underWay])
    · exact h
  | exits m code =>
    simp only [BashHost.step]
    split
    · split
      · exact h
      · exact h.setProcess _
    · exact h
  | communicated m out err unlinks =>
    simp only [BashHost.step]
    split
    · split
      · exact h.finish _ unlinks
      · exact h
    · exact h
  | aborted m unlinks =>
    simp only [BashHost.step]
    split
    · rename_i hphase _
      exact h.stop hphase _ _ unlinks
    · exact h
  | timedOut m unlinks =>
    simp only [BashHost.step]
    split
    · rename_i hphase _
      exact h.stop hphase _ _ unlinks
    · exact h
  | reaped m unlinks =>
    simp only [BashHost.step]
    split
    · split
      · exact h.finish _ unlinks
      · exact h
    · split
      · exact h.finish _ unlinks
      · exact h
    · exact h
  | graceOver m unlinks =>
    simp only [BashHost.step]
    split
    · rename_i hphase _
      split
      · exact h.finish _ unlinks
      · exact (h.setProcess _).setPhase (by simp [BashHost.setProcess, hphase, BashPhase.underWay])
    · exact h.finish _ unlinks
    · exact h
  | cancelled m unlinks =>
    simp only [BashHost.step]
    split
    · exact h.finish _ unlinks
    · exact (h.setProcess _).finish _ unlinks
    · exact h.finish _ unlinks
    · exact h.finish _ unlinks
    · exact h

theorem settingsKept_start : SettingsKept {} where
  nodup := List.nodup_nil
  exact path := by simp
  own n m path hn := by cases hn
  apart n path hn := by cases hn
  registeredOnce := List.nodup_nil
  registered path := by simp
  current n path hn := by cases hn
  passed n spawn path rest hn := by cases hn

end

/-- The settings files at any time, and after the worker's exit. -/
theorem settings_exact (py : PyText) (steps : List BashStep) :
    let s := runFrom (BashHost.step py) {} steps
    (∀ path, path ∈ s.files ↔ (∃ n, s.settings n = some path) ∨ path ∈ s.leftover) ∧
    (∀ n m path, s.settings n = some path → s.settings m = some path → n = m) ∧
    (∀ n path, s.settings n = some path → (s.phases n).underWay = true) ∧
    (∀ n spawn path rest, s.spawns n = some spawn → spawn.args = "--settings" :: path :: rest →
      (s.phases n).underWay = true → path ∈ s.files) ∧
    ∀ unlinks path, path ∈ (s.cleanupAllGeneratedFiles unlinks).files ↔
      path ∈ s.files ∧ (path ∈ s.leftover ∨ unlinks path = false) := by
  intro s
  have h : SettingsKept s := runFrom_invariant (fun _ a hs => hs.step a) settingsKept_start
  refine ⟨h.exact, h.own, h.current, ?_, ?_⟩
  · intro n spawn path rest hspawn hargs hunder
    exact (h.exact path).mpr (.inl ⟨n, h.passed n spawn path rest hspawn hargs hunder⟩)
  · intro unlinks path
    have hswept : path ∈ s.files → (path ∉ s.generated ↔ path ∈ s.leftover) := by
      intro hfile
      rw [h.registered path]
      constructor
      · intro hnone
        exact ((h.exact path).mp hfile).resolve_left hnone
      · rintro hleft ⟨n, hn⟩
        exact h.apart n path hn hleft
    simp only [BashHost.cleanupAllGeneratedFiles, List.mem_filter]
    refine and_congr_right fun hfile => ?_
    rw [← hswept hfile]
    cases hu : unlinks path <;> simp

end BashHost

end PyClaw
