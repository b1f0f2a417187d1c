import Styrolite.ForStd.Endings
import Styrolite.Spec.LaunchCorrect
import Styrolite.Spec.SeccompCorrect
import Styrolite.Spec.MountNulCorrect
import Styrolite.Spec.FirstChildCorrect

/-!
# What the exit code says

A process of styrolite ends with the exit code of the child it has waited for, or
with 1, or it has become the workload. Only the handlers of signals and the
supervisor end the process from within; everything else `Returns`. So nothing
that goes wrong in styrolite is reported as success.

## Key results

- `Runner.run_exit`: what the exit code that `run` returns says
-/

namespace Styrolite

open Prog

/-! ## What does not end the process -/

/-- A call whose answer is checked returns if what follows does. -/
theorem returns_checked {α β : Type} {c : Call} {f : c.Answer → Except Errno α} {k : α → Sys β}
    (hk : ∀ a, (k a).Returns) : (sys c >>= fun r => check (f r) >>= k).Returns :=
  .bind (.sys (I := calls) _) fun _ => .bind (.check _ _) hk

/-- Opening a tree returns. -/
theorem openTree_returns (path : String) (flags : CInt) : (openTree path flags).Returns :=
  .bind (.check _ _) fun _ => .bind (.sys (I := calls) _) fun _ => .check _ _

/-- Setting attributes returns. -/
theorem mountSetattr_returns (dir : DirFd) (path : String) (flags : CInt) (attr : MountAttr) :
    (mountSetattr dir path flags attr).Returns :=
  .bind (.check _ _) fun _ => .bind (.sys (I := calls) _) fun _ => .check _ _

/-- Sealing returns. -/
theorem MountSpec.sealMount_returns (spec : MountSpec) : spec.sealMount.Returns := by
  unfold sealMount
  split
  · exact .fail _
  · exact .bind (openTree_returns _ _) fun _ => mountSetattr_returns _ _ _ _

/-- The pivot returns. -/
theorem MountSpec.pivot_returns (spec : MountSpec) : spec.pivot.Returns :=
  returns_checked fun _ => .bind (.sys (I := calls) _) fun _ =>
    .bind (.mapErr (.check _ _)) fun _ => .bind (.sys (I := calls) _) fun _ =>
    .bind (.mapErr (.check _ _)) fun _ =>
    .bind (.sys (I := calls) _) fun _ => .check _ _

/-- A stat and then the mount, or nothing if there is no such file. -/
theorem returns_stat {target : String} {f : Metadata → Sys Unit} (hf : ∀ m, (f m).Returns) :
    (do match ← sys (.fsSymlinkMetadata target) with
        | .ok m => f m
        | .error e =>
          if e = Errno.ENOENT then pure ()
          else Prog.fail (Err.context ("stat " ++ target) (.os e)) : Sys Unit).Returns := by
  -- A path that is not there is passed over
  refine .bind (.sys (I := calls) _) fun r => ?_
  cases r with
  | ok m => exact hf m
  | error e =>
    dsimp only
    split
    · exact .pure _
    · exact .fail _

/-- Masking a path returns. -/
theorem maskPath_returns (rootfs path : String) : (maskPath rootfs path).Returns :=
  returns_stat fun _ => MountSpec.mount_returns _

/-- Making a path read-only returns. -/
theorem makeReadonly_returns (rootfs path : String) : (makeReadonly rootfs path).Returns :=
  returns_stat fun _ => MountSpec.mount_returns _

/-- Writing the OOM score returns. -/
theorem applyOomScore_returns (score : Option Int) : (applyOomScore score).Returns :=
  .whenSome fun _ _ => .bind (.sys (I := calls) _) fun _ => .check _ _

/-- `unshare` returns. -/
theorem unshare_returns (nss : List Namespace) : (unshare nss).Returns :=
  .bind (.sys (I := calls) _) fun _ => .check _ _

/-- `setns` returns. -/
theorem setns_returns (targetPid : Int) (nss : List Namespace) : (setns targetPid nss).Returns :=
  returns_checked fun _ => .bind (.sys (I := calls) _) fun _ => .check _ _

/-- The wait returns, with the code that the status has. -/
theorem waitForPid_returns (child : Int) : (waitForPid child).Returns := by
  refine returns_checked fun status => ?_
  cases status <;> exact .pure _

/-! ## The child's steps -/

/-- Groups and ids are set without halting. -/
theorem applyGidUid_returns (gid uid : Option UInt32) (gids : Option (List UInt32)) :
    (applyGidUid gid uid gids).Returns := by
  refine .bind (.whenSome fun _ _ => .bind (.sys (I := calls) _) fun _ => ?_) fun _ =>
    .bind (.whenSome fun _ _ => .bind (.sys (I := calls) _) fun _ => .pure _) fun _ =>
    .whenSome fun _ _ => .bind (.sys (I := calls) _) fun _ => ?_
  all_goals
    split
    · exact .bind (.sys (I := calls) _) fun _ => .pure _
    · exact .pure _

/-- Names are read without halting. -/
theorem namesAsBits_returns (names : List String) : (Capabilities.namesAsBits names).Returns :=
  .bind (.check _ _) fun _ => .bind (.sys (I := calls) _) fun _ => .pure _

/-- Capabilities are applied without halting. -/
theorem applyCapabilities_returns (capabilities : Option Capabilities) :
    (applyCapabilities capabilities).Returns := by
  have hambient : ∀ {op : AmbientOp} {c : Nat} {text : String}, (do
      (check (← sys (.prCapAmbient op c))).mapErr (Err.context text) : Sys Unit).Returns :=
    .bind (.sys (I := calls) _) fun _ => .mapErr (.check _ _)
  -- The three lists are read, then the sets are changed by single calls
  refine .whenSome fun caps _ => .bind ?_ fun current =>
    .bind (namesAsBits_returns _) fun drops => .bind (namesAsBits_returns _) fun raises =>
    .bind (namesAsBits_returns _) fun raisesAmbient =>
    .bind (.forM fun _ _ => .when fun _ => .bind (.sys (I := calls) _) fun _ =>
      .mapErr (.check _ _)) fun _ =>
    .bind (.bind (.sys (I := calls) _) fun _ => .bind (.sys (I := calls) _) fun _ =>
      .mapErr (.check _ _)) fun _ =>
    .bind (.forM fun _ _ => hambient) fun _ => .forM fun _ _ => hambient
  exact .bind (.sys (I := calls) _) fun _ => .bind (.sys (I := calls) _) fun _ =>
    .bind (.mapErr (.check _ _)) fun _ => .pure _

/-- What comes before the `execute` of a child returns. -/
theorem preexecPrep_returns (exec : ExecutableSpec) (capabilities : Option Capabilities) :
    (preexecPrep exec capabilities).Returns :=
  .bind (.sys (I := calls) _) fun _ =>
    .bind (.bind (.sys (I := calls) _) fun _ => .mapErr (.check _ _)) fun _ =>
    .bind (applyGidUid_returns _ _ _) fun _ => applyCapabilities_returns _

/-- Staging a profile returns. -/
theorem changeOnexec_returns (profile : String) : (changeOnexec profile).Returns := by
  refine .bind (.sys (I := calls) _) fun r => ?_
  cases r with
  | ok u => exact .bind (.sys (I := calls) _) fun _ => .check _ _
  | error e =>
    dsimp only
    split
    · exact returns_checked fun _ => .bind (.sys (I := calls) _) fun _ => .check _ _
    · exact .fail _

/-- Installing the filter returns. -/
theorem installSeccomp_returns (exec : ExecutableSpec) : exec.installSeccomp.Returns := by
  refine .whenSome fun filter _ => ?_
  split
  · exact .fail _
  · exact filter.install_returns

/-- `execute` returns, if only with an error. -/
theorem execute_returns (exec : ExecutableSpec) : exec.execute.Returns := by
  refine .bind (.sys (I := calls) _) fun _ => .bind (.check _ _) fun _ =>
    .bind (.check _ _) fun _ => .bind (.check _ _) fun _ => .bind (.check _ _) fun _ =>
    .bind (.whenSome fun _ _ => .bind (.sys (I := calls) _) fun _ => .check _ _) fun _ =>
    .bind (.when fun _ => .bind (.sys (I := calls) _) fun _ => .mapErr (.check _ _)) fun _ =>
    .bind (installSeccomp_returns exec) fun _ =>
    .bind (.whenSome fun _ _ => .mapErr (changeOnexec_returns _)) fun _ =>
    .bind (.bind (.sys (I := calls) _) fun _ => .mapErr (.check _ _)) fun _ =>
    .bind (.sys (I := calls) _) fun r => ?_
  cases r with
  | ok u => exact .pure _
  | error e => exact .fail _

/-- The event with which a process becomes the workload. -/
def BecomesWorkload (e : Event) : Prop :=
  ∃ program args env, e = ⟨.execvpe program args env, .ok ()⟩

/-- `execute` has no value but that of a successful `execvpe`. -/
theorem execute_closes (exec : ExecutableSpec) : exec.execute.Closes BecomesWorkload := by
  refine .bind fun _ => .bind fun _ => .bind fun _ => .bind fun _ => .bind fun _ => .bind fun _ =>
    .bind fun _ => .bind fun _ => .bind fun _ => .bind fun _ =>
    .sys_bind (I := calls) fun r h u hr => ?_
  cases r with
  | ok v => exact ⟨(runs_pure.1 hr).1, _, _, _, rfl⟩
  | error e => cases (runs_fail.1 hr).2

/-- The search for a terminal returns. -/
theorem findTty_returns (fds : List Nat) : (findTty fds).Returns := by
  induction fds with
  | nil => exact .pure _
  | cons fd fds ih =>
    refine .bind (.sys (I := calls) _) fun tty => ?_
    split
    · exact .pure _
    · exact ih

/-- The console is set up without halting. -/
theorem setupConsole_returns (uid : Option UInt32) : (setupConsole uid).Returns := by
  -- The binding of the terminal, if there is one
  refine .bind (.sys (I := calls) _) fun _ => .whenSome fun execUid _ =>
    .bind (findTty_returns _) fun tty => .whenSome fun ttyFd _ => ?_
  refine .bind (.sys (I := calls) _) fun _ => .bind (.mapErr (.check _ _)) fun ptsPath =>
    .bind (.sys (I := calls) _) fun _ =>
    .bind (.when fun _ => .bind (.sys (I := calls) _) fun _ => .mapErr (.check _ _)) fun _ =>
    .bind (.mapErr (MountSpec.mount_returns _)) fun _ => .bind (.sys (I := calls) _) fun r => ?_
  cases r with
  | ok u => exact .pure _
  | error e =>
    dsimp only
    split
    · exact .pure _
    · exact .fail _

namespace CreateRequest

/-- The root is staged without halting. -/
theorem stageRootfs_returns (rootfs wid₁ wid₂ wid₃ : String) :
    (stageRootfs rootfs wid₁ wid₂ wid₃).Returns := by
  unfold stageRootfs
  split
  · exact .bind (.mapErr (MountSpec.mount_returns _)) fun _ => .bind (.sys (I := calls) _) fun _ =>
      .bind (.mapErr (.check _ _)) fun _ => .bind (.sys (I := calls) _) fun _ =>
      .bind (.mapErr (.check _ _)) fun _ => .bind (.mapErr (MountSpec.mount_returns _)) fun _ =>
      .pure _
  · exact .pure _

/-- The identity is found without halting. -/
theorem identity_returns (req : CreateRequest) : req.identity.Returns :=
  .bind (.sys (I := calls) _) fun _ => .pure _

/-- `pivot_fs` returns: a failure in it is an error of the child. -/
theorem pivotFs_returns (req : CreateRequest) : req.pivotFs.Returns := by
  refine .bind (.sys (I := calls) _) fun _ => .bind (.check _ _) fun _ =>
    .bind (.mapErr (MountSpec.mount_returns _)) fun _ => .bind req.identity_returns fun _ =>
    .bind req.identity_returns fun _ => .bind req.identity_returns fun _ =>
    .bind (stageRootfs_returns _ _ _ _) fun rootfs =>
    .bind (.mapErr (MountSpec.mount_returns _)) fun _ =>
    .bind (.when fun _ => .mapErr (MountSpec.sealMount_returns _)) fun _ =>
    .bind (.mapErr (MountSpec.mount_returns _)) fun _ =>
    .bind (.forM fun _ _ => .mapErr (MountSpec.mount_returns _)) fun _ =>
    .bind (.forM fun m _ => ?_) fun _ =>
    .bind (.forM fun _ _ => .mapErr (maskPath_returns _ _)) fun _ =>
    .bind (.forM fun _ _ => .mapErr (makeReadonly_returns _ _)) fun _ =>
    .mapErr (MountSpec.pivot_returns _)
  -- The one kind of mutation
  cases m with
  | createDir cdm => exact .mapErr (.bind (.sys (I := calls) _) fun _ => .check _ _)

/-- The child is configured without halting. -/
theorem configure_returns (req : CreateRequest) (child : Int) : (req.configure child).Returns :=
  .bind (.when fun _ => .bind (.sys (I := calls) _) fun _ =>
      .bind (.whenSome fun _ _ => .bind (.sys (I := calls) _) fun _ => .check _ _) fun _ =>
      .bind (.when fun _ => .bind (.sys (I := calls) _) fun _ => .check _ _) fun _ =>
      .whenSome fun _ _ => .bind (.sys (I := calls) _) fun _ => .check _ _) fun _ =>
    returns_checked fun _ => .pure _

/-- The child stages its namespaces without halting. -/
theorem stage_returns (req : CreateRequest) : req.stage.Returns :=
  .when fun _ => .bind (.when fun _ => req.pivotFs_returns) fun _ =>
    .when fun _ => unshare_returns _

/-- The child, once it has been answered, does not halt. -/
theorem childRest_returns (req : CreateRequest) : req.childRest.Returns :=
  .bind (.when fun _ => .when fun _ => req.pivotFs_returns) fun _ =>
    .bind (applyOomScore_returns _) fun _ => .bind (setupConsole_returns _) fun _ =>
    .bind (preexecPrep_returns _ _) fun _ => execute_returns _

end CreateRequest

/-! ## The ways a process ends -/

/-- Handlers that cannot be set end the process with 1. -/
theorem orExit_halt {handlers : Sys Unit} (hreturns : handlers.Returns) {h : List Event} {n : Int}
    (hr : (orExit handlers).Runs h (.halt n)) : n = 1 := by
  obtain ⟨r, h₁, h₂, -, hr', -⟩ := (Returns.attempt hreturns).runs_bind_halt hr
  cases r with
  | error e =>
    cases (runs_halt.1 hr').2
    rfl
  | ok u => cases (runs_pure.1 hr').2

/-- The code that `wait_for_pid` makes of a status. -/
def WaitStatus.code : WaitStatus → Int
  | .exited _ code => code
  | _ => 1

/-- What a supervisor does when its child has ended. -/
def superviseEnd (child : Int) : Sys Unit := do
  let exitcode ← waitForPid child
  reapChildren
  Prog.halt exitcode

/-- The supervisor halts with the code of a status that it has waited for. -/
theorem superviseEnd_halt (child : Int) {h : List Event} {n : Int}
    (hr : (superviseEnd child).Runs h (.halt n)) :
    ∃ status, (⟨.waitpid child, .ok status⟩ : Event) ∈ h ∧ n = status.code := by
  obtain ⟨code, h₁, h₂, hwait, hr₁, rfl⟩ := (waitForPid_returns child).runs_bind_halt hr
  have hreap : reapChildren.Returns := .bind (.sys (I := calls) _) fun _ => .pure _
  obtain ⟨⟨⟩, h₃, h₄, -, hr₂, rfl⟩ := hreap.runs_bind_halt hr₁
  cases (runs_halt.1 hr₂).2
  obtain ⟨a, h₅, rfl, hcheck⟩ := runs_sys_bind.1 hwait
  cases a with
  | error e => cases (runs_fail.1 hcheck).2
  | ok status =>
    refine ⟨status, by simp, ?_⟩
    cases status <;> exact (Outcome.ok.inj (runs_pure.1 hcheck).2)

/-- The ways a process that has run `wrap` ends: it has become the workload, or passes on the
    code of the child it has waited for, or has failed. -/
inductive Ended (h : List Event) : Outcome Err Unit → Prop where
  | workload (hchild : (⟨.fork, .ok .child⟩ : Event) ∈ h) {h' : List Event} {e : Event}
      (hlast : h = h' ++ [e]) (he : BecomesWorkload e) : Ended h (.ok ())
  | waited (child : Int) {status : WaitStatus} (hfork : (⟨.fork, .ok (.parent child)⟩ : Event) ∈ h)
      (hwait : (⟨.waitpid child, .ok status⟩ : Event) ∈ h) : Ended h (.halt status.code)
  | failed {r : Outcome Err Unit} (hr : (∃ e, r = .err e) ∨ r = .halt 1) : Ended h r

/-- A process that forks and then is one of two, of which the parent waits for the child. -/
theorem Ended.of_fork (prologue childMain : Sys Unit) (supervise : Int → Sys Unit)
    {h : List Event} {r : Outcome Err Unit}
    (hpro : ∀ h n, prologue.Runs h (.halt n) → n = 1)
    (hclose : ∀ child, (supervise child).Closes fun _ => False)
    (hhalt : ∀ child h n, (supervise child).Runs h (.halt n) →
      ∃ status, (⟨.waitpid child, .ok status⟩ : Event) ∈ h ∧ n = status.code)
    (hchild : ∀ h n, childMain.Runs h (.halt n) → n = 1)
    (hworkload : childMain.Closes BecomesWorkload)
    (hr : (do
      prologue
      match ← check (← sys .fork) with
      | .parent child => supervise child
      | .child => childMain : Sys Unit).Runs h r) : Ended h r := by
  -- By how the run ends, and in it by what the fork has answered
  cases r with
  | err e => exact .failed (.inl ⟨e, rfl⟩)
  | ok u =>
    obtain ⟨⟨⟩, h₀, h₁, -, hr₁, rfl⟩ := runs_bind_ok.1 hr
    obtain ⟨a, h₂, rfl, hr₂⟩ := runs_sys_bind.1 hr₁
    -- What returns is the child: the supervisor halts
    rcases a with e | child | _
    · cases (runs_fail.1 hr₂).2
    · obtain ⟨_, _, -, hno⟩ := hclose child h₂ () hr₂
      exact hno.elim
    · obtain ⟨h', e, rfl, he⟩ := hworkload h₂ () hr₂
      have hlast : h₀ ++ ([⟨.fork, .ok .child⟩] ++ (h' ++ [e])) =
          (h₀ ++ ⟨.fork, .ok .child⟩ :: h') ++ [e] := by simp
      exact .workload (by simp) hlast he
  | halt n =>
    -- Halted before the fork, or in one of the two processes
    rcases runs_bind_halt.1 hr with hr₀ | ⟨⟨⟩, h₀, h₁, -, hr₁, rfl⟩
    · cases hpro h n hr₀
      exact .failed (.inr rfl)
    · obtain ⟨a, h₂, rfl, hr₂⟩ := runs_sys_bind.1 hr₁
      rcases a with e | child | _
      · cases (runs_fail.1 hr₂).2
      · obtain ⟨status, hwait, rfl⟩ := hhalt child h₂ n hr₂
        exact .waited child (by simp) (by simp [hwait])
      · cases hchild h₂ n hr₂
        exact .failed (.inr rfl)

/-- The supervisor's handlers are set without halting. -/
theorem setupParentSignalHandlers_returns : setupParentSignalHandlers.Returns :=
  .forM fun _ _ => .bind (.sys (I := calls) _) fun _ => .mapErr (.check _ _)

/-- The child's handlers are reset without halting. -/
theorem resetChildSignalHandlers_returns : resetChildSignalHandlers.Returns :=
  .forM fun _ _ => .bind (.sys (I := calls) _) fun _ => .mapErr (.check _ _)

/-- Of what comes after handlers have been set or reset, nothing ends the process. -/
theorem orExit_bind_halt {handlers p : Sys Unit} (hreturns : handlers.Returns) (hp : p.Returns)
    {h : List Event} {n : Int} (hr : (orExit handlers >>= fun _ => p).Runs h (.halt n)) :
    n = 1 := by
  rcases runs_bind_halt.1 hr with hr | ⟨⟨⟩, _, h₂, -, hr, -⟩
  · exact orExit_halt hreturns hr
  · exact absurd hr (hp h₂ n)

/-- A run of either process of a create request has one of the three ends. -/
theorem CreateRequest.wrap_ended {req : CreateRequest} {h : List Event} {r : Outcome Err Unit}
    (hr : req.wrap.Runs h r) : Ended h r := by
  refine Ended.of_fork req.prologue req.childMain req.supervise
    (fun h n hr => ?_) (fun child => ?_) (fun child h n hr => ?_)
    (fun h n hr => ?_) ?_ hr
  · -- Only a handler that cannot be set halts before the fork
    -- before the fork
    obtain ⟨_, _, _, -, hr₁, rfl⟩ := (Returns.attempt req.prepareCgroup_returns).runs_bind_halt hr
    obtain ⟨_, _, _, -, hr₂, rfl⟩ := (unshare_returns _).runs_bind_halt hr₁
    obtain ⟨_, _, _, -, hr₃, rfl⟩ := (Returns.attempt updateBoottime_returns).runs_bind_halt hr₂
    obtain ⟨_, _, _, -, hr₄, rfl⟩ := (Returns.attempt req.updateHostname_returns).runs_bind_halt hr₃
    obtain ⟨_, _, _, -, hr₅, rfl⟩ :=
      (Returns.attempt req.exec.setProcessLimits_returns).runs_bind_halt hr₄
    exact orExit_bind_halt setupParentSignalHandlers_returns
      (returns_checked fun _ => .bind (.sys (I := calls) _) fun _ => .check _ _) hr₅
  · exact .bind fun _ => .bind fun _ => .bind fun _ => .bind fun _ => .bind fun _ => .bind fun _ =>
      .halt _
  · -- the supervisor
    obtain ⟨_, h₁, rfl, hr₁⟩ := runs_sys_bind.1 hr
    obtain ⟨_, h₂, rfl, hr₂⟩ := runs_sys_bind.1 hr₁
    obtain ⟨_, h₃, h₄, -, hr₃, rfl⟩ := (Returns.check _ _).runs_bind_halt hr₂
    obtain ⟨_, h₅, h₆, -, hr₄, rfl⟩ := (req.configure_returns child).runs_bind_halt hr₃
    obtain ⟨status, hwait, hn⟩ := superviseEnd_halt child hr₄
    exact ⟨status, by simp [hwait], hn⟩
  · -- the child
    rcases runs_bind_halt.1 hr with hr | ⟨⟨⟩, _, h₂, -, hr, -⟩
    · exact orExit_bind_halt resetChildSignalHandlers_returns
        (.bind req.stage_returns fun _ => returns_checked fun _ => .pure _) hr
    · have hreturns : (sys (.efdRead .child) >>= fun r => check r >>= fun _ =>
          req.childRest).Returns := returns_checked fun _ => req.childRest_returns
      exact absurd hr (hreturns h₂ n)
  · exact .bind fun _ => .bind fun _ => .bind fun _ => .bind fun _ => .bind fun _ => .bind fun _ =>
      .bind fun _ => execute_closes _

/-- So has a run of either process of an attach request. -/
theorem AttachRequest.wrap_ended {req : AttachRequest} {h : List Event} {r : Outcome Err Unit}
    (hr : req.wrap.Runs h r) : Ended h r := by
  refine Ended.of_fork req.prologue req.childMain AttachRequest.supervise
    (fun h n hr => ?_) (fun child => ?_)
    (fun child h n hr => ?_) (fun h n hr => ?_) ?_ hr
  · -- Only a handler that cannot be set halts before the fork
    -- before the fork
    obtain ⟨_, _, _, -, hr₁, rfl⟩ := (ProcTable.firstChildPidOf_returns _).runs_bind_halt hr
    obtain ⟨_, _, _, -, hr₂, rfl⟩ := (Returns.attempt req.attachCgroup_returns).runs_bind_halt hr₁
    obtain ⟨_, _, _, -, hr₃, rfl⟩ := (setns_returns _ _).runs_bind_halt hr₂
    obtain ⟨_, _, _, -, hr₄, rfl⟩ :=
      (Returns.attempt req.exec.setProcessLimits_returns).runs_bind_halt hr₃
    obtain ⟨_, _, _, -, hr₅, rfl⟩ := (applyOomScore_returns _).runs_bind_halt hr₄
    exact orExit_halt setupParentSignalHandlers_returns hr₅
  · exact .bind fun _ => .bind fun _ => .bind fun _ => .halt _
  · obtain ⟨_, h₁, rfl, hr₁⟩ := runs_sys_bind.1 hr
    obtain ⟨status, hwait, hn⟩ := superviseEnd_halt child hr₁
    exact ⟨status, List.mem_cons_of_mem _ hwait, hn⟩
  · exact orExit_bind_halt resetChildSignalHandlers_returns
      (.bind (preexecPrep_returns _ _) fun _ => execute_returns _) hr
  · exact .bind fun _ => .bind fun _ => execute_closes _

/-- So has a run for either kind of request. -/
theorem Runner.Config.wrap_ended {config : Runner.Config} {h : List Event} {r : Outcome Err Unit}
    (hr : config.wrap.Runs h r) : Ended h r := by
  cases config with
  | create req => exact CreateRequest.wrap_ended hr
  | attach req => exact AttachRequest.wrap_ended hr

namespace Runner

open Interface

/-- What `Command::status` tells of a styrolite that was started with the configuration file: that
    it could not be, or how it ended, in a run that found in the file what was written there. -/
def Started (parse : List UInt8 → Option Config) (executable : String)
    (h : List (host.or (sink UInt8 IoError)).Event) : Prop :=
  ∀ path code, Event.inl (I := host) ⟨.status executable path, .ok (.exited code)⟩ ∈ h →
    ∃ hm r, (styroliteMain parse [executable, path]).Runs hm r ∧ Reads path (contentAfter h) hm ∧
      (⟨.fork, .ok .child⟩ : Event) ∉ rights hm ∧ exitCode r = code

section

variable {T : Type} [Configurable T] {pieces : Config → List (List UInt8)}
  {parse : List UInt8 → Option Config} {executable : String} {config : T} {encap : Config}
  {h : List (host.or (sink UInt8 IoError)).Event} {n : Int}

/-- `run` gives the code of a styrolite that was started when the file was finished. -/
theorem run_ok (hr : (run pieces executable config).Runs h (.ok n)) :
    ∃ path h', Starts pieces executable config h' path ∧
      h = h' ++ [Event.inl (I := host) ⟨.status executable path, .ok (.exited n)⟩] := by
  obtain ⟨path, h₁, h₂, hfile, hr₁, rfl⟩ := runs_bind_ok.1 hr
  obtain ⟨a, h₃, rfl, hr₂⟩ := runs_sysInl_bind.1 hr₁
  have hstart : Starts pieces executable config h₁ path := by
    refine .inl (at_bind.2 (.inr ⟨path, h₁, [], hfile, ?_, (List.append_nil _).symm⟩))
    exact at_sysInl_bind.2 (.inl ⟨rfl, rfl⟩)
  -- An exit code is all that `run` returns
  cases a with
  | error e => cases (runs_fail.1 hr₂).2
  | ok status =>
    cases status with
    | other display => cases (runs_fail.1 hr₂).2
    | exited code =>
      obtain ⟨rfl, heq⟩ := runs_pure.1 hr₂
      cases heq
      exact ⟨path, h₁, hstart, rfl⟩

/-- Starting the program leaves the file as it is. -/
theorem contentAfter_append (e : host.Event) : contentAfter (h ++ [.inl e]) = contentAfter h := by
  rw [contentAfter, rights_append, rights_inl, rights_nil, List.append_nil]
  rfl

/-- The result of `run` is 1, or the exit code of a process that `wrap` of the given configuration
    has forked and waited for. -/
theorem run_exit (hencap : Configurable.encapsulate config = .ok encap)
    (hserde : Restores pieces parse encap) (hr : (run pieces executable config).Runs h (.ok n))
    (hstarted : Started parse executable h) :
    n = 1 ∨ ∃ hw child status, encap.wrap.Runs hw (.halt status.code) ∧
      (⟨.fork, .ok (.parent child)⟩ : Event) ∈ hw ∧
      (⟨.waitpid child, .ok status⟩ : Event) ∈ hw ∧ n = status.code % 256 := by
  obtain ⟨path, h', hstart, rfl⟩ := run_ok hr
  obtain ⟨hm, r, hmain, hread, hparent, rfl⟩ := hstarted path n (by simp)
  rw [contentAfter_append] at hread
  rcases styroliteMain_started hencap hserde hstart hread hmain with
    -- `main` has taken the file for the request that was encapsulated
    ⟨-, hw, q', hwrap, rfl, hq⟩ | ⟨-, herr⟩
  · cases inr_done_inj hq.symm
    rw [rights_append, rights_map_inr] at hparent
    cases Config.wrap_ended hwrap with
    | workload hchild => exact absurd (List.mem_append_right _ hchild) hparent
    | waited child hfork hwait => exact .inr ⟨hw, child, _, hwrap, hfork, hwait, rfl⟩
    | failed hfail =>
      rcases hfail with ⟨e, rfl⟩ | rfl
      · exact .inl rfl
      · exact .inl rfl
  · obtain ⟨e, rfl⟩ := herr r rfl
    exact .inl rfl

end

/-- The event with which a process finds that it is the forked child. -/
def isForkedChild : Event → Bool
  | ⟨.fork, .ok .child⟩ => true
  | _ => false

/-- A run of the attaching process in which all goes well. -/
theorem wrap_attachOne : ∃ hw, (Config.attach attachOne).wrap.Runs hw (.halt 0) ∧
    (⟨.fork, .ok .child⟩ : Event) ∉ hw := by
  have hrun := (Config.attach attachOne).wrap.eval_runs succeeding []
  have hout : ((Config.attach attachOne).wrap.eval succeeding []).2 = .halt 0 := by decide
  have hno : ((Config.attach attachOne).wrap.eval succeeding []).1.all
      (fun e => !isForkedChild e) = true := by decide
  rw [hout] at hrun
  refine ⟨_, hrun, fun hmem => ?_⟩
  exact absurd (List.all_eq_true.1 hno _ hmem) (by decide)

/-- A workload that exits with 0 is reported so. -/
theorem run_exit_attach : ∃ h, (run attachPieces "styrolite" attachOne).Runs h (.ok 0) ∧
    ((0 : Int) = 1 ∨ ∃ hw child status,
      (Config.attach attachOne).wrap.Runs hw (.halt status.code) ∧
      (⟨.fork, .ok (.parent child)⟩ : Event) ∈ hw ∧
      (⟨.waitpid child, .ok status⟩ : Event) ∈ hw ∧ 0 = status.code % 256) := by
  -- The file is written in full
  have hwrite : (writeConfig attachPieces attachOne).Runs _ _ :=
    writeConfig_runs_of_lt rfl rfl attachPieces_lt (BufWriter.drain_runs_taken attachPieces_ne_nil)
  have hfile := configFile_of_runs "/tmp/c.json" hwrite
  have hcontent := contentAfter_cons (.tempFile "styrolite-cfg-" ".json") (.ok "/tmp/c.json")
    ([⟨.write (attachPieces (.attach attachOne)).flatten, .ok (Fin.last _)⟩] ++ [⟨.flush, .ok ()⟩])
  rw [after_taken attachPieces_ne_nil] at hcontent
  have hrun : (run attachPieces "styrolite" attachOne).Runs (_ ++ [Event.inl (I := host)
      ⟨.status "styrolite" "/tmp/c.json", .ok (.exited 0)⟩]) (.ok 0) :=
    runs_bind_ok.2 ⟨_, _, _, hfile, runs_sysInl_bind.2 ⟨.ok (.exited 0), [], rfl, .refl _⟩, rfl⟩
  refine ⟨_, hrun, run_exit rfl (restores_parseOnly _ _) hrun fun path code hmem => ?_⟩
  rcases List.mem_append.1 hmem with hmem | hmem
  · -- Nothing is started before
    rcases List.mem_cons.1 hmem with heq | hmem
    · cases heq
    · obtain ⟨e, -, heq⟩ := List.mem_map.1 hmem
      cases heq
  · cases List.mem_singleton.1 hmem
    obtain ⟨hw, hwrap, hno⟩ := wrap_attachOne
    have hmain : (styroliteMain parseAttach ["styrolite", "/tmp/c.json"]).Runs _ (.halt 0) :=
      styroliteMain_loaded (restores_parseOnly _ _).whole hwrap
    refine ⟨_, _, hmain, ?_, ?_, rfl⟩
    · rw [contentAfter_append, hcontent]
      intro r hmem
      rcases List.mem_append.1 hmem with hmem | hmem
      · rcases List.mem_cons.1 hmem with heq | hmem
        · cases heq
        · cases List.mem_singleton.1 hmem
          rfl
      · obtain ⟨e, -, heq⟩ := List.mem_map.1 hmem
        cases heq
    · rwa [rights_append, rights_map_inr]

end Runner

end Styrolite
