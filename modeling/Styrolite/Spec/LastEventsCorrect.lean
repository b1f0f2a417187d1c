import Styrolite.Spec.ExecuteCorrect
import Styrolite.Spec.Request
import Styrolite.Spec.Schedule

/-!
# The last calls before the workload

Between the end of `preexec_prep` and `execvpe` there is nothing that is not
configured, and what is configured comes in one order. So once the seccomp filter
is in force, the process makes no calls but those that stage an AppArmor profile,
the reset of `SIGPIPE` and the `execvpe` itself.

## Key results

- `Request.wrap_ends`: the last calls of both `wrap`s
-/

namespace Styrolite

open Prog

variable {h : List Event} {program : String} {args env : List String}

/-- The calls that stage an AppArmor profile on the node of the LSM, or where that does not exist on
    the global one. -/
def ProfileStaged : Option String → List Event → Prop
  | none, h => h = []
  | some profile, h =>
    h = [⟨.fsOpenWrite "/proc/self/attr/apparmor/exec", Except.ok ()⟩,
        ⟨.fsWriteAll "/proc/self/attr/apparmor/exec" ("exec " ++ profile), Except.ok ()⟩] ∨
      h = [⟨.fsOpenWrite "/proc/self/attr/apparmor/exec", Except.error Errno.ENOENT⟩,
        ⟨.fsOpenWrite "/proc/self/attr/exec", Except.ok ()⟩,
        ⟨.fsWriteAll "/proc/self/attr/exec" ("exec " ++ profile), Except.ok ()⟩]

theorem changeOnexec_staged {profile : String} (hr : (changeOnexec profile).Runs h (.ok ())) :
    ProfileStaged (some profile) h := by
  unfold changeOnexec at hr
  obtain ⟨a, h', rfl, hr₁⟩ := runs_sys_bind.1 hr
  cases a with
  | ok u =>
    -- The file is there, or another one is written in its place
    obtain ⟨a, rfl, rfl⟩ := runs_checked_ok.1 hr₁
    exact .inl rfl
  | error e =>
    dsimp only at hr₁
    split at hr₁
    · next he =>
      obtain ⟨_, h₁, rfl, hr₂⟩ := runs_sys_bind.1 hr₁
      obtain ⟨_, _, _, hopen, hwrite, rfl⟩ := runs_bind_ok.1 hr₂
      obtain ⟨rfl, rfl⟩ := runs_check_ok.1 hopen
      obtain ⟨a, rfl, rfl⟩ := runs_checked_ok.1 hwrite
      rw [he]
      exact .inr rfl
    · cases (runs_fail.1 hr₁).2

namespace ExecutableSpec

variable {exec : ExecutableSpec}

/-- What is configured to come before the workload, in order. -/
def lastEvents (exec : ExecutableSpec) (staging : List Event) : List Event :=
  exec.workingDirectory.toList.map (fun wd => ⟨.setCurrentDir wd, Except.ok ()⟩) ++
    ((if exec.noNewPrivs then [⟨.prSetNoNewPrivs, Except.ok ()⟩] else []) ++
      (exec.seccomp.toList.map (fun filter => ⟨.seccomp filter.instructions
        (UInt16.ofNat filter.instructions.length), Except.ok ()⟩) ++
        (staging ++ [⟨.signal .SIGPIPE .sigDfl, Except.ok ()⟩])))

theorem beforeExec_runs (hr : exec.beforeExec.Runs h (.ok ())) :
    ∃ staging, ProfileStaged exec.apparmor staging ∧ h = exec.lastEvents staging := by
  unfold beforeExec at hr
  obtain ⟨⟨⟩, hwd, _, hcd, hr₁, rfl⟩ := runs_bind_ok.1 hr
  obtain ⟨⟨⟩, hn, _, hnnp, hr₂, rfl⟩ := runs_bind_ok.1 hr₁
  obtain ⟨⟨⟩, hs, _, hsec, hr₃, rfl⟩ := runs_bind_ok.1 hr₂
  obtain ⟨⟨⟩, staging, hp, harm, hpipe, rfl⟩ := runs_bind_ok.1 hr₃
  -- Each part is one call, or none
  have hwd' : hwd =
      exec.workingDirectory.toList.map fun wd => ⟨.setCurrentDir wd, Except.ok ()⟩ := by
    cases hdir : exec.workingDirectory with
    | none =>
      rw [hdir] at hcd
      exact (runs_pure.1 hcd).1
    | some wd =>
      rw [hdir] at hcd
      obtain ⟨a, rfl, rfl⟩ := runs_checked_ok.1 hcd
      rfl
  have hn' : hn = if exec.noNewPrivs then [⟨.prSetNoNewPrivs, Except.ok ()⟩] else [] := by
    split
    · next hset =>
      obtain ⟨a, rfl, rfl⟩ := runs_checked_ok.1 (runs_mapErr_ok.1 ((runs_when_ok.1 hnnp).1 hset))
      rfl
    · next hset => exact (runs_when_ok.1 hnnp).2 hset
  have hs' : hs = exec.seccomp.toList.map fun filter =>
      ⟨.seccomp filter.instructions (UInt16.ofNat filter.instructions.length), Except.ok ()⟩ := by
    unfold installSeccomp at hsec
    cases hfilter : exec.seccomp with
    | none =>
      rw [hfilter] at hsec
      exact (runs_pure.1 hsec).1
    | some filter =>
      rw [hfilter] at hsec
      change Runs (if !exec.noNewPrivs then _ else filter.install) hs (.ok ()) at hsec
      split at hsec
      · cases (runs_fail.1 hsec).2
      · obtain ⟨a, rfl, rfl⟩ := runs_checked_ok.1 hsec
        rfl
  -- Only the profile may be staged in two ways
  have hstaged : ProfileStaged exec.apparmor staging := by
    cases hprofile : exec.apparmor with
    | none =>
      rw [hprofile] at harm
      exact (runs_pure.1 harm).1
    | some profile =>
      rw [hprofile] at harm
      exact changeOnexec_staged (runs_mapErr_ok.1 harm)
  have hpipe' : hp = [⟨.signal .SIGPIPE .sigDfl, Except.ok ()⟩] := by
    obtain ⟨a, rfl, rfl⟩ := runs_checked_ok.1 (runs_mapErr_ok.1 hpipe)
    rfl
  exact ⟨staging, hstaged, by rw [hwd', hn', hs', hpipe']; rfl⟩

/-- Inside `execute`, at `execvpe`. -/
theorem execute_at_lastEvents (hat : exec.execute.At h (.execvpe program args env)) :
    exec.executable = some program ∧ ∃ staging, ProfileStaged exec.apparmor staging ∧
      h = ⟨.enter .execute, ()⟩ :: exec.lastEvents staging := by
  obtain ⟨executable, hexec, hnul, -, -⟩ := execute_at_vectors hat
  obtain ⟨k, heq, hok, herr⟩ := execute_of_not_nul hexec hnul
  have hk : (Call.execvpe program args env).kind ∈ [.exec] := by simp [Call.kind]
  rw [heq] at hat
  rcases at_sys_bind.1 hat with ⟨-, hc⟩ | ⟨_, h₁, rfl, hat₁⟩
  · cases hc
  obtain ⟨⟨⟩, h₂, h₃, hbefore, hat₂, rfl⟩ := exec.beforeExec_uses.at_past (by decide) hk hat₁
  obtain ⟨staging, hstaged, rfl⟩ := beforeExec_runs hbefore
  rcases at_sys_bind.1 hat₂ with ⟨rfl, hc⟩ | ⟨a, h₄, -, hat₃⟩
  · cases hc
    exact ⟨hexec, staging, hstaged, by rw [List.append_nil]⟩
  · -- the workload has been executed once
    cases a with
    | ok u =>
      rw [hok] at hat₃
      exact absurd hat₃ at_pure
    | error e =>
      obtain ⟨e', he⟩ := herr e
      rw [he] at hat₃
      exact absurd hat₃ at_fail

end ExecutableSpec

/-- Whoever executes the workload has, since `preexec_prep` has ended, made the configured calls in
    the one order and no others; and nothing before that has installed a filter, set
    `no_new_privs` or executed a program. -/
theorem Request.wrap_ends {r : Request} (hat : r.wrap.At h (.execvpe program args env)) :
    r.exec.executable = some program ∧
    ∃ before prep staging,
      h = before ++ (prep ++ ⟨.enter .execute, ()⟩ :: r.exec.lastEvents staging) ∧
      (preexecPrep r.exec r.capabilities).Runs prep (.ok ()) ∧
      ProfileStaged r.exec.apparmor staging ∧
      ∀ e ∈ before ++ prep, e.call.kind ∉ [.confine, .exec] := by
  obtain ⟨before, prep, after, hlaunch⟩ := r.wrap_launch hat
  obtain ⟨hprogram, staging, hstaged, rfl⟩ := ExecutableSpec.execute_at_lastEvents hlaunch.after
  refine ⟨hprogram, before, prep, staging, hlaunch.hist, hlaunch.prep, hstaged, fun e he => ?_⟩
  rcases List.mem_append.1 he with he | he
  · exact (by decide : ∀ k ∈ earlyKinds, k ∉ [.confine, .exec]) _ (hlaunch.before e he)
  · have hin : e.call.kind ∈ _ := (preexecPrep_uses _ _).mem (e := e) hlaunch.prep he
    revert hin
    cases e.call.kind <;> decide

/-- A shell with a filter and a profile, in a directory of the container. -/
def confinedShell : AttachRequest :=
  { (default : AttachRequest) with
    pid := 1
    exec :=
      { (default : ExecutableSpec) with
        executable := some "/bin/sh"
        workingDirectory := some "/root"
        noNewPrivs := true
        seccomp := some { instructions := [.allowAll] }
        apparmor := some "styrolite" } }

/-- After its filter is installed it stages the profile, resets `SIGPIPE` and is executed. -/
theorem wrap_ends_confinedShell : ∃ h before staging,
    (Request.attach confinedShell).wrap.At h (.execvpe "/bin/sh" ["/bin/sh"] []) ∧
      ProfileStaged (some "styrolite") staging ∧
      h = before ++ ([⟨.setCurrentDir "/root", Except.ok ()⟩, ⟨.prSetNoNewPrivs, Except.ok ()⟩,
        ⟨.seccomp [.allowAll] 1, Except.ok ()⟩] ++ staging ++
        [⟨.signal .SIGPIPE .sigDfl, Except.ok ()⟩]) := by
  obtain ⟨h, hat, -⟩ := at_of_makes (p := (Request.attach confinedShell).wrap)
    (c := .execvpe "/bin/sh" ["/bin/sh"] []) (ω := answering .fork (.ok .child)) (by decide)
  obtain ⟨-, before, prep, staging, hist, -, hstaged, -⟩ := Request.wrap_ends hat
  refine ⟨h, before ++ (prep ++ [⟨.enter .execute, ()⟩]), staging, hat, hstaged, ?_⟩
  rw [hist]
  simp [ExecutableSpec.lastEvents, confinedShell, Request.exec]

end Styrolite
