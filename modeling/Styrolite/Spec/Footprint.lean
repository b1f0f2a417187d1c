import Styrolite.Native.Attach

/-!
# Footprints

For each function of the model, the kinds of calls it can come to make under
any answers. A later proof that needs to know that a function does not touch
something cites its footprint and never unfolds it.
-/

open Styrolite in
/-- A footprint may be enlarged. -/
theorem Prog.Uses.widen {α : Type} {ks ks' : List Call.Kind} {p : Sys α}
    (hp : p.Uses (Call.within ks)) (hks : ∀ k ∈ ks, k ∈ ks') : p.Uses (Call.within ks') :=
  hp.mono fun c hc => hks c.kind hc

open Styrolite in
/-- A call of another kind is not made. -/
theorem Prog.Uses.not_at {α : Type} {ks ks' : List Call.Kind} {p : Sys α} {h : List Event}
    {c : Call} (hp : p.Uses (Call.within ks)) (hks : ∀ k ∈ ks, k ∉ ks') (hc : c.kind ∈ ks') :
    ¬ p.At h c :=
  fun hat => hks c.kind (hp h c hat) hc

open Styrolite in
/-- A call of another kind is made by what follows. -/
theorem Prog.Uses.at_past {α β : Type} {ks ks' : List Call.Kind} {p : Sys α} {f : α → Sys β}
    {h : List Event} {c : Call} (hp : p.Uses (Call.within ks)) (hks : ∀ k ∈ ks, k ∉ ks')
    (hc : c.kind ∈ ks') (hat : (p >>= f).At h c) :
    ∃ a h₁ h₂, p.Runs h₁ (.ok a) ∧ (f a).At h₂ c ∧ h = h₁ ++ h₂ :=
  Prog.at_bind_right hp (fun hin => hks c.kind hin hc) hat

namespace Styrolite

open Prog

variable {α β : Type}

/-- A call has the footprint of its kind. That the kind is in the list is decided by evaluation. -/
theorem uses_sys {ks : List Call.Kind} (c : Call) (hc : decide (c.kind ∈ ks) = true) :
    (sys c).Uses (Call.within ks) :=
  Uses.sys (I := calls) (of_decide_eq_true hc)

/-- A check makes no call. -/
theorem uses_check {ks : List Call.Kind} (x : Except Errno α) :
    (check x).Uses (Call.within ks) :=
  Uses.check _ _

/-- `orFail` makes no call. -/
theorem uses_orFail {ks : List Call.Kind} (x : Except Err α) :
    (orFail x).Uses (Call.within ks) :=
  Uses.check _ _

/-- `check (← sys c)` for one call. -/
theorem uses_checked {ks : List Call.Kind} (c : Call) (hc : decide (c.kind ∈ ks) = true)
    {f : c.Answer → Except Errno α} : (sys c >>= fun r => check (f r)).Uses (Call.within ks) :=
  (uses_sys c hc).bind fun _ => uses_check _

/-! ## `mount.rs` -/

/-- `open_tree` is a call on the mount tree. -/
theorem openTree_uses (path : String) (flags : CInt) :
    (openTree path flags).Uses (Call.within [.mount]) := by
  unfold openTree
  exact .bind (uses_orFail _) fun _ => uses_checked _ rfl

/-- `mount_setattr` is a call on the mount tree. -/
theorem mountSetattr_uses (dir : DirFd) (path : String) (flags : CInt) (attr : MountAttr) :
    (mountSetattr dir path flags attr).Uses (Call.within [.mount]) := by
  unfold mountSetattr
  exact .bind (uses_orFail _) fun _ => uses_checked _ rfl

namespace MountSpec

/-- Making a mount's target only touches files. -/
theorem createTarget_uses (spec : MountSpec) :
    spec.createTarget.Uses (Call.within [.file]) := by
  unfold createTarget sourceIsFile
  refine .bind ?_ fun b => ?_
  · -- A bound source is looked at first
    split
    · refine .bind (uses_sys _ rfl) fun r => ?_
      split <;> exact .pure _
    · exact .pure _
  · -- A file, with the directory it is in, or a directory
    split
    · exact .bind (.whenSome fun _ _ => uses_checked _ rfl) fun _ => uses_checked _ rfl
    · exact uses_checked _ rfl

/-- A mount touches the files of its target and the mount tree. -/
theorem mount_uses (spec : MountSpec) : spec.mount.Uses (Call.within [.file, .mount]) := by
  unfold mount dataArg
  refine .bind (uses_orFail _) fun target => .bind (.when fun _ => ?_) fun _ =>
    .bind ?_ fun data => .bind (uses_sys _ rfl) fun r =>
      .bind (.mapErr (uses_check r)) fun _ => .when fun _ => ?_
  · -- The target, the argument made of the data, and the attributes set afterwards
    exact spec.createTarget_uses.widen (by decide)
  · split
    · exact .pure _
    · rw [map_eq_pure_bind]
      exact .bind (.mapErr (uses_orFail _)) fun _ => .pure _
  · exact (mountSetattr_uses _ _ _ _).widen (by decide)

/-- `seal` only changes attributes in the mount tree. -/
theorem sealMount_uses (spec : MountSpec) : spec.sealMount.Uses (Call.within [.mount]) := by
  unfold sealMount
  split
  · exact .fail _
  · exact .bind (openTree_uses _ _) fun _ => mountSetattr_uses _ _ _ _

/-- `pivot` changes the mount tree, the root and the working directory. -/
theorem pivot_uses (spec : MountSpec) : spec.pivot.Uses (Call.within [.file, .mount, .pivot]) := by
  unfold pivot
  exact .bind (uses_sys _ rfl) fun r => .bind (uses_check r) fun _ =>
    .bind (uses_sys _ rfl) fun r => .bind (.mapErr (uses_check r)) fun _ =>
    .bind (uses_sys _ rfl) fun r => .bind (.mapErr (uses_check r)) fun _ =>
    uses_checked _ rfl

end MountSpec

/-- `mask_path` looks at the path and mounts over it. -/
theorem maskPath_uses (rootfs path : String) :
    (maskPath rootfs path).Uses (Call.within [.file, .mount]) := by
  unfold maskPath
  refine .bind (uses_sys _ rfl) fun r => ?_
  split
  · exact MountSpec.mount_uses _
  · split
    · exact .pure _
    · exact .fail _

/-- `make_readonly` looks at the path, then binds and seals it. -/
theorem makeReadonly_uses (rootfs path : String) :
    (makeReadonly rootfs path).Uses (Call.within [.file, .mount]) := by
  unfold makeReadonly
  refine .bind (uses_sys _ rfl) fun r => ?_
  split
  · exact MountSpec.mount_uses _
  · split
    · exact .pure _
    · exact .fail _

/-! ## `caps.rs`, `signal.rs` and `cgroup.rs` -/

/-- `get_caps` asks for the pid and reads the process's own sets. -/
theorem getCaps_uses : getCaps.Uses (Call.within [.env, .cred]) := by
  unfold getCaps
  exact .bind (uses_sys _ rfl) fun _ => .bind (uses_sys _ rfl) fun r =>
    .bind (.mapErr (uses_check r)) fun _ => .pure _

/-- `set_caps` asks for the pid and sets the process's own sets. -/
theorem setCaps_uses (caps : CapResult) : (setCaps caps).Uses (Call.within [.env, .cred]) := by
  unfold setCaps
  exact .bind (uses_sys _ rfl) fun _ => .bind (uses_sys _ rfl) fun r =>
    .mapErr (uses_check r)

/-- `set_keep_caps` only changes the secure bits. -/
theorem setKeepCaps_uses : setKeepCaps.Uses (Call.within [.cred]) := by
  unfold setKeepCaps
  exact .bind (uses_sys _ rfl) fun r => .mapErr (uses_check r)

/-- The order of a `HashSet` is all that `names_as_bits` asks of its environment. -/
theorem namesAsBits_uses (names : List String) :
    (Capabilities.namesAsBits names).Uses (Call.within [.env]) := by
  unfold Capabilities.namesAsBits
  exact .bind (uses_orFail _) fun _ => .bind (uses_sys _ rfl) fun _ => .pure _

/-- The supervisor's handlers are set by `sigaction` alone. -/
theorem setupParentSignalHandlers_uses :
    setupParentSignalHandlers.Uses (Call.within [.signal]) := by
  unfold setupParentSignalHandlers
  exact .forM fun _ _ => .bind (uses_sys _ rfl) fun r => .mapErr (uses_check r)

/-- The child's handlers are reset by `sigaction` alone. -/
theorem resetChildSignalHandlers_uses :
    resetChildSignalHandlers.Uses (Call.within [.signal]) := by
  unfold resetChildSignalHandlers
  exact .forM fun _ _ => .bind (uses_sys _ rfl) fun r => .mapErr (uses_check r)

/-- SIGPIPE is reset by `sigaction` alone. -/
theorem resetSigpipe_uses : resetSigpipe.Uses (Call.within [.signal]) := by
  unfold resetSigpipe
  exact .bind (uses_sys _ rfl) fun r => .mapErr (uses_check r)

/-- Halting on an error is no call. -/
theorem orExit_uses {ks : List Call.Kind} {p : Sys Unit} (hp : p.Uses (Call.within ks)) :
    (orExit p).Uses (Call.within ks) := by
  unfold orExit
  refine .bind (.attempt hp) fun r => ?_
  split
  · exact .halt _
  · exact .pure _

namespace CGroup

/-- Opening a control group only looks at its directory. -/
theorem openRoot_uses (root : String) : (openRoot root).Uses (Call.within [.file]) := by
  unfold openRoot
  exact .bind (uses_orFail _) fun _ => .bind (uses_sys _ rfl) fun r =>
    .bind (uses_check r) fun _ => .pure _

/-- Making a child group only touches the files of the hierarchy. -/
theorem createChild_uses (g : CGroup) (child : String) :
    (g.createChild child).Uses (Call.within [.file]) := by
  unfold createChild
  exact .bind (uses_sys _ rfl) fun r => .bind (uses_check r) fun _ => openRoot_uses _

/-- Setting a value only writes a file of the group. -/
theorem setChildValue_uses (g : CGroup) (child value : String) :
    (g.setChildValue child value).Uses (Call.within [.file]) := by
  unfold setChildValue
  exact uses_checked _ rfl

end CGroup

/-! ## The last steps -/

namespace ExecutableSpec

/-- Resource limits are set by `setrlimit` alone. -/
theorem setProcessLimits_uses (exec : ExecutableSpec) :
    exec.setProcessLimits.Uses (Call.within [.rlimit]) := by
  unfold setProcessLimits
  refine .whenSome fun _ _ => .forM fun x _ => ?_
  unfold setProcessLimit
  exact .bind (uses_sys _ rfl) fun r => .mapErr (uses_check r)

/-- `set_no_new_privs` is one `prctl`. -/
theorem setNoNewPrivs_uses : setNoNewPrivs.Uses (Call.within [.confine]) := by
  unfold setNoNewPrivs
  exact .bind (uses_sys _ rfl) fun r => .mapErr (uses_check r)

/-- The filter is installed by calls that confine the process. -/
theorem installSeccomp_uses (exec : ExecutableSpec) :
    exec.installSeccomp.Uses (Call.within [.confine]) := by
  unfold installSeccomp
  refine .whenSome fun filter _ => ?_
  split
  · exact .fail _
  · exact uses_checked _ rfl

end ExecutableSpec

/-- The profile is staged by writing a file of `/proc`. -/
theorem changeOnexec_uses (profile : String) :
    (changeOnexec profile).Uses (Call.within [.file]) := by
  unfold changeOnexec
  refine .bind (uses_sys _ rfl) fun r => ?_
  -- The path of the security module, or the older path where there is none
  split
  · exact uses_checked _ rfl
  · split
    · exact .bind (uses_sys _ rfl) fun r => .bind (uses_check r) fun _ =>
        uses_checked _ rfl
    · exact .fail _

namespace ExecutableSpec

/-- What `execute` does between the arguments it prepares and the `execvpe` at its end. -/
theorem execute_uses (exec : ExecutableSpec) :
    exec.execute.Uses (Call.within [.enterLate, .file, .confine, .exec, .signal]) := by
  unfold execute
  refine .bind (uses_sys _ rfl) fun _ => .bind (uses_orFail _) fun _ =>
    .bind (uses_orFail _) fun _ => .bind (uses_orFail _) fun _ => .bind (uses_orFail _) fun _ =>
    .bind (.whenSome fun _ _ => uses_checked _ rfl) fun _ =>
    .bind (.when fun _ => setNoNewPrivs_uses.widen (by decide)) fun _ =>
    .bind (exec.installSeccomp_uses.widen (by decide)) fun _ =>
    .bind (.whenSome fun _ _ => .mapErr ((changeOnexec_uses _).widen (by decide))) fun _ =>
    .bind (resetSigpipe_uses.widen (by decide)) fun _ =>
    .bind (uses_sys _ rfl) fun r => ?_
  -- `execvpe` only returns with an error
  split
  · exact .pure _
  · exact .fail _

end ExecutableSpec

/-- The OOM score is one write. -/
theorem applyOomScore_uses (score : Option Int) :
    (applyOomScore score).Uses (Call.within [.oom]) := by
  unfold applyOomScore
  exact .whenSome fun _ _ => uses_checked _ rfl

/-- Groups and ids are changed by calls on the credentials alone. -/
theorem applyGidUid_uses (gid uid : Option UInt32) (gids : Option (List UInt32)) :
    (applyGidUid gid uid gids).Uses (Call.within [.cred]) := by
  unfold applyGidUid
  refine .bind (.whenSome fun _ _ => ?_) fun _ => .bind (.whenSome fun _ _ => ?_) fun _ =>
    .whenSome fun _ _ => ?_
  · unfold applyGid
    refine .bind (uses_sys _ rfl) fun _ => ?_
    -- A group that reads as requested is not set
    split
    · exact .bind (uses_sys _ rfl) fun _ => .pure _
    · exact .pure _
  · exact .bind (uses_sys _ rfl) fun _ => .pure _
  · unfold applyUid
    -- A user that reads as requested is not set
    refine .bind (uses_sys _ rfl) fun _ => ?_
    split
    · exact .bind (uses_sys _ rfl) fun _ => .pure _
    · exact .pure _

/-- Capabilities are applied by calls on the credentials alone. -/
theorem applyCapabilities_uses (capabilities : Option Capabilities) :
    (applyCapabilities capabilities).Uses (Call.within [.env, .cred]) := by
  unfold applyCapabilities
  refine .whenSome fun caps _ => ?_
  unfold Capabilities.apply
  refine .bind getCaps_uses fun _ => .bind ((namesAsBits_uses _).widen (by decide)) fun _ =>
    .bind ((namesAsBits_uses _).widen (by decide)) fun _ =>
    .bind ((namesAsBits_uses _).widen (by decide)) fun _ =>
    .bind (.forM fun _ _ => .when fun _ => ?_) fun _ => .bind (setCaps_uses _) fun _ =>
    .bind (.forM fun _ _ => ?_) fun _ => .forM fun _ _ => ?_
  · -- The bounding set, then the ambient set lowered, then raised
    unfold dropBounding
    exact .bind (uses_sys _ rfl) fun r => .mapErr (uses_check r)
  · unfold lowerAmbient
    exact .bind (uses_sys _ rfl) fun r => .mapErr (uses_check r)
  · unfold raiseAmbientBit
    exact .bind (uses_sys _ rfl) fun r => .mapErr (uses_check r)

/-- What comes before the `execute` of a child changes only credentials. -/
theorem preexecPrep_uses (exec : ExecutableSpec) (capabilities : Option Capabilities) :
    (preexecPrep exec capabilities).Uses (Call.within [.enterLate, .env, .cred]) := by
  unfold preexecPrep
  exact .bind (uses_sys _ rfl) fun _ => .bind (setKeepCaps_uses.widen (by decide)) fun _ =>
    .bind ((applyGidUid_uses _ _ _).widen (by decide)) fun _ =>
    (applyCapabilities_uses _).widen (by decide)

/-- Waiting is all that `wait_for_pid` does. -/
theorem waitForPid_uses (pid : Int) : (waitForPid pid).Uses (Call.within [.wait]) := by
  unfold waitForPid
  refine .bind (uses_sys _ rfl) fun r => .bind (uses_check r) fun s => ?_
  split <;> exact .pure _

/-- Reaping is waiting without blocking. -/
theorem reapChildren_uses : reapChildren.Uses (Call.within [.wait]) := by
  unfold reapChildren
  exact .bind (uses_sys _ rfl) fun _ => .pure _

/-! ## `CreateRequest` -/

/-- `unshare` is one call on the namespaces. -/
theorem unshare_uses (nss : List Namespace) : (unshare nss).Uses (Call.within [.ns]) := by
  unfold unshare
  exact uses_checked _ rfl

namespace CreateRequest

/-- The offset of the boot clock is read, and written to a file of `/proc`. -/
theorem updateBoottime_uses : updateBoottime.Uses (Call.within [.env, .file]) := by
  unfold updateBoottime getBoottime
  refine .bind (.bind (uses_sys _ rfl) fun r => ?_) fun _ => uses_checked _ rfl
  split <;> exact .pure _

/-- The maps and `setgroups` are the only writes of `prepare_userns`. -/
theorem prepareUserns_uses (req : CreateRequest) (pid : Int) :
    (req.prepareUserns pid).Uses (Call.within [.enterUserns, .userns]) := by
  unfold prepareUserns
  exact .bind (uses_sys _ rfl) fun _ =>
    .bind (.whenSome fun _ _ => uses_checked _ rfl) fun _ =>
    .bind (.when fun _ => uses_checked _ rfl) fun _ =>
    .whenSome fun _ _ => uses_checked _ rfl

/-- The identity asks at most for a pid. -/
theorem identity_uses (req : CreateRequest) : req.identity.Uses (Call.within [.env]) := by
  unfold identity
  exact .bind (uses_sys _ rfl) fun _ => .pure _

/-- The host name is set by one call, from the identity. -/
theorem updateHostname_uses (req : CreateRequest) :
    req.updateHostname.Uses (Call.within [.env, .uts]) := by
  unfold updateHostname
  exact .bind (req.identity_uses.widen (by decide)) fun _ =>
    .bind (.mapErr (uses_orFail _)) fun _ => .bind (uses_sys _ rfl) fun r =>
    .mapErr (uses_check r)

/-- `prepare_cgroup` only touches the files of the control groups. -/
theorem prepareCgroup_uses (req : CreateRequest) :
    req.prepareCgroup.Uses (Call.within [.env, .file]) := by
  unfold prepareCgroup
  refine .when fun _ => .bind (uses_sys _ rfl) fun _ =>
    .bind ((CGroup.openRoot_uses _).widen (by decide)) fun _ => ?_
  -- Limits make a group of the workload's own
  split
  · refine .bind ?_ fun _ => .bind (req.identity_uses.widen (by decide)) fun _ =>
      .bind ((CGroup.createChild_uses _ _).widen (by decide)) fun _ =>
      .bind (.forM fun _ _ => .when fun _ => ?_) fun _ =>
      (CGroup.setChildValue_uses _ _ _).widen (by decide)
    · unfold enableControllers
      exact .bind (uses_sys _ rfl) fun _ => .when fun _ =>
        .bind (.attempt ((CGroup.setChildValue_uses _ _ _).widen (by decide))) fun _ => .pure _
    · exact .bind (.attempt ((CGroup.setChildValue_uses _ _ _).widen (by decide))) fun _ => .pure _
  · exact (CGroup.setChildValue_uses _ _ _).widen (by decide)

/-- Staging the root binds it below a directory it makes. -/
theorem stageRootfs_uses (rootfs wid₁ wid₂ wid₃ : String) :
    (stageRootfs rootfs wid₁ wid₂ wid₃).Uses (Call.within [.file, .mount]) := by
  unfold stageRootfs
  split
  · exact .bind (.mapErr (MountSpec.mount_uses _)) fun _ => .bind (uses_sys _ rfl) fun r =>
      .bind (.mapErr (uses_check r)) fun _ => .bind (uses_sys _ rfl) fun r =>
      .bind (.mapErr (uses_check r)) fun _ => .bind (.mapErr (MountSpec.mount_uses _)) fun _ =>
      .pure _
  · exact .pure _

/-- A mutation only touches files. -/
theorem mutate_uses (rootfs : String) (m : Mutation) :
    (mutate rootfs m).Uses (Call.within [.file]) := by
  cases m
  unfold mutate
  exact .mapErr (uses_checked _ rfl)

/-- `pivot_fs` after it has begun: files, mounts, and the pivot at the end. -/
theorem pivotFsBody_uses (req : CreateRequest) :
    req.pivotFsBody.Uses (Call.within [.env, .file, .mount, .pivot]) := by
  unfold pivotFsBody
  exact .bind (uses_orFail _) fun rootfs =>
    .bind (.mapErr ((MountSpec.mount_uses _).widen (by decide))) fun _ =>
    .bind (req.identity_uses.widen (by decide)) fun _ =>
    .bind (req.identity_uses.widen (by decide)) fun _ =>
    .bind (req.identity_uses.widen (by decide)) fun _ =>
    .bind ((stageRootfs_uses _ _ _ _).widen (by decide)) fun root =>
    .bind (.mapErr ((MountSpec.mount_uses _).widen (by decide))) fun _ =>
    .bind (.when fun _ => .mapErr ((MountSpec.sealMount_uses _).widen (by decide))) fun _ =>
    .bind (.mapErr ((MountSpec.mount_uses _).widen (by decide))) fun _ =>
    .bind (.forM fun _ _ => .mapErr ((MountSpec.mount_uses _).widen (by decide))) fun _ =>
    .bind (.forM fun _ _ => (mutate_uses _ _).widen (by decide)) fun _ =>
    .bind (.forM fun _ _ => .mapErr ((maskPath_uses _ _).widen (by decide))) fun _ =>
    .bind (.forM fun _ _ => .mapErr ((makeReadonly_uses _ _).widen (by decide))) fun _ =>
    .mapErr ((MountSpec.pivot_uses _).widen (by decide))

/-- All of `pivot_fs`. -/
theorem pivotFs_uses (req : CreateRequest) :
    req.pivotFs.Uses (Call.within [.enterPivot, .env, .file, .mount, .pivot]) := by
  unfold pivotFs
  exact .bind (uses_sys _ rfl) fun _ => req.pivotFsBody_uses.widen (by decide)

end CreateRequest

/-- Looking for a terminal asks only about descriptors. -/
theorem findTty_uses (fds : List Nat) : (findTty fds).Uses (Call.within [.env]) := by
  induction fds with
  | nil => exact .pure _
  | cons fd fds ih =>
    unfold findTty
    refine .bind (uses_sys _ rfl) fun b => ?_
    split
    · exact .pure _
    · exact ih

/-- `setup_console` binds the terminal and changes the terminal's owner. -/
theorem setupConsole_uses (uid : Option UInt32) :
    (setupConsole uid).Uses (Call.within [.enterLate, .env, .file, .mount, .chown]) := by
  unfold setupConsole
  refine .bind (uses_sys _ rfl) fun _ => .whenSome fun _ _ =>
    .bind ((findTty_uses _).widen (by decide)) fun _ => .whenSome fun _ _ => ?_
  unfold bindConsole
  refine .bind (uses_sys _ rfl) fun r => .bind (.mapErr (uses_check r)) fun _ =>
    .bind (uses_sys _ rfl) fun _ =>
    .bind (.when fun _ => .bind (uses_sys _ rfl) fun r => .mapErr (uses_check r)) fun _ =>
    .bind (.mapErr ((MountSpec.mount_uses _).widen (by decide))) fun _ =>
    .bind (uses_sys _ rfl) fun r => ?_
  -- Only a refusal other than the two that are let pass is an error
  split
  · exact .pure _
  · split
    · exact .pure _
    · exact .fail _

namespace CreateRequest

/-- The setup after the hostname is set. -/
theorem setupTail_uses (req : CreateRequest) : Uses (Call.within [.rlimit, .signal, .eventfd]) (do
    let _ ← (attempt req.exec.setProcessLimits : Sys _)
    orExit setupParentSignalHandlers
    check (← sys (.eventfd .parent 0 EFD_SEMAPHORE))
    check (← sys (.eventfd .child 0 EFD_SEMAPHORE))) :=
  .bind (.attempt (req.exec.setProcessLimits_uses.widen (by decide))) fun _ =>
    .bind (orExit_uses (setupParentSignalHandlers_uses.widen (by decide))) fun _ =>
    .bind (uses_sys _ rfl) fun r => .bind (uses_check r) fun _ => uses_checked _ rfl

/-- What the supervisor sets up before it forks, but for the `unshare`. -/
theorem setup_uses (req : CreateRequest) :
    req.setup.Uses (Call.within [.env, .file, .uts, .rlimit, .signal, .eventfd]) := by
  unfold setup
  exact .bind (.attempt (updateBoottime_uses.widen (by decide))) fun _ =>
    .bind (.attempt (req.updateHostname_uses.widen (by decide))) fun _ =>
    req.setupTail_uses.widen (by decide)

/-- All that the supervisor does before it forks. -/
theorem prologue_uses (req : CreateRequest) :
    req.prologue.Uses (Call.within [.env, .file, .ns, .uts, .rlimit, .signal, .eventfd]) := by
  unfold prologue
  exact .bind (.attempt (req.prepareCgroup_uses.widen (by decide))) fun _ =>
    .bind ((unshare_uses _).widen (by decide)) fun _ => req.setup_uses.widen (by decide)

/-- What the supervisor does for the child that waits for it. -/
theorem configure_uses (req : CreateRequest) (child : Int) :
    (req.configure child).Uses (Call.within [.enterUserns, .userns, .efd]) := by
  unfold configure
  exact .bind (.when fun _ => (req.prepareUserns_uses _).widen (by decide)) fun _ =>
    .bind (uses_sys _ rfl) fun r => .bind (uses_check r) fun _ => .pure _

/-- What the supervisor does after the fork. -/
theorem supervise_uses (req : CreateRequest) (child : Int) :
    (req.supervise child).Uses (Call.within [.enterUserns, .userns, .efd, .signal, .wait]) := by
  unfold supervise
  exact .bind (uses_sys _ rfl) fun _ => .bind (uses_sys _ rfl) fun r =>
    .bind (uses_check r) fun _ => .bind ((req.configure_uses _).widen (by decide)) fun _ =>
    .bind ((waitForPid_uses _).widen (by decide)) fun _ =>
    .bind (reapChildren_uses.widen (by decide)) fun _ => .halt _

/-- The file system of a child that has a mount namespace of its own. -/
theorem pivotIfMount_uses (req : CreateRequest) :
    req.pivotIfMount.Uses (Call.within [.enterPivot, .env, .file, .mount, .pivot]) := by
  unfold pivotIfMount
  exact .when fun _ => req.pivotFs_uses

/-- The child up to its namespaces and its root. -/
theorem stage_uses (req : CreateRequest) :
    req.stage.Uses (Call.within [.enterPivot, .env, .file, .mount, .pivot, .ns]) := by
  unfold stage
  exact .when fun _ => .bind (req.pivotIfMount_uses.widen (by decide)) fun _ =>
    .when fun _ => (unshare_uses _).widen (by decide)

/-- The child up to its signal to the supervisor. -/
theorem childSignal_uses (req : CreateRequest) :
    req.childSignal.Uses
      (Call.within [.enterPivot, .env, .file, .mount, .pivot, .ns, .signal, .efd]) := by
  unfold childSignal
  exact .bind (orExit_uses (resetChildSignalHandlers_uses.widen (by decide))) fun _ =>
    .bind (req.stage_uses.widen (by decide)) fun _ =>
    .bind (uses_sys _ rfl) fun r => .bind (uses_check r) fun _ => .pure _

/-- The child after its score is written. -/
theorem childLaunch_uses (req : CreateRequest) :
    Uses (Call.within [.enterLate, .env, .file, .mount, .chown, .cred, .confine, .exec, .signal]) (do
      setupConsole req.exec.uid
      preexecPrep req.exec req.capabilities
      req.exec.execute) :=
  .bind ((setupConsole_uses _).widen (by decide)) fun _ =>
    .bind ((preexecPrep_uses _ _).widen (by decide)) fun _ =>
    req.exec.execute_uses.widen (by decide)

/-- The child after its mount work. -/
theorem childTail_uses (req : CreateRequest) :
    Uses (Call.within [.enterLate, .env, .file, .mount, .oom, .chown, .cred, .confine, .exec,
     .signal]) (do
      applyOomScore req.exec.oomScoreAdj
      setupConsole req.exec.uid
      preexecPrep req.exec req.capabilities
      req.exec.execute) :=
  .bind ((applyOomScore_uses _).widen (by decide)) fun _ =>
    req.childLaunch_uses.widen (by decide)

/-- The child after it has been answered. -/
theorem childRest_uses (req : CreateRequest) :
    req.childRest.Uses (Call.within
      [.enterPivot, .enterLate, .env, .file, .mount, .pivot, .oom, .chown, .cred, .confine,
       .exec, .signal]) := by
  unfold childRest
  exact .bind (.when fun _ => req.pivotIfMount_uses.widen (by decide)) fun _ =>
    req.childTail_uses.widen (by decide)

/-- All that the child does. -/
theorem childMain_uses (req : CreateRequest) :
    req.childMain.Uses (Call.within
      [.enterPivot, .enterLate, .env, .file, .mount, .pivot, .ns, .signal, .efd, .oom, .chown, .cred,
       .confine, .exec]) := by
  unfold childMain
  exact .bind (req.childSignal_uses.widen (by decide)) fun _ => .bind (uses_sys _ rfl) fun r =>
    .bind (uses_check r) fun _ => req.childRest_uses.widen (by decide)

end CreateRequest

/-! ## `AttachRequest` -/

/-- The scan of `/proc` only reads files. -/
theorem scanProc_uses (needle : List Char) (entries : List (Except Errno String)) :
    (scanProc needle entries).Uses (Call.within [.file]) := by
  induction entries with
  | nil => exact .pure _
  | cons entry entries ih =>
    unfold scanProc
    refine .bind (uses_check _) fun name => ?_
    -- An entry that is no number is passed over
    split
    · exact ih
    · refine .bind (uses_sys _ rfl) fun r => ?_
      -- So is a process whose status cannot be read or names another parent
      split
      · split
        · exact .pure _
        · exact ih
      · exact ih

/-- Reading `/proc` and scanning it only reads files. -/
theorem scanChildPid_uses (parent : Int) :
    (scanChildPid parent).Uses (Call.within [.file]) := by
  unfold scanChildPid
  refine .bind (uses_sys _ rfl) fun r => .bind (uses_check r) fun _ =>
    .bind (scanProc_uses _ _) fun pid => ?_
  split
  · exact .pure _
  · exact .fail _

/-- Finding a first child only reads files, whichever way is taken. -/
theorem firstChildPidOf_uses (parent : Int) :
    (firstChildPidOf parent).Uses (Call.within [.file]) := by
  unfold firstChildPidOf
  refine .bind (uses_sys _ rfl) fun r => ?_
  split
  · split
    · exact .pure _
    · exact scanChildPid_uses _
  · exact scanChildPid_uses _

/-- `setns` is two calls on the namespaces. -/
theorem setns_uses (targetPid : Int) (nss : List Namespace) :
    (setns targetPid nss).Uses (Call.within [.ns]) := by
  unfold setns
  exact .bind (uses_sys _ rfl) fun r => .bind (uses_check r) fun _ => uses_checked _ rfl

namespace AttachRequest

/-- Joining a control group only touches the files of the hierarchy. -/
theorem attachCgroup_uses (req : AttachRequest) :
    req.attachCgroup.Uses (Call.within [.env, .file]) := by
  unfold attachCgroup identity
  exact .bind (uses_sys _ rfl) fun _ => .bind (.bind (uses_sys _ rfl) fun _ => .pure _) fun _ =>
    .bind (uses_sys _ rfl) fun _ => .when fun _ =>
    .bind ((CGroup.openRoot_uses _).widen (by decide)) fun _ =>
    (CGroup.setChildValue_uses _ _ _).widen (by decide)

/-- All that a supervisor that attaches does before it forks. -/
theorem prologue_uses (req : AttachRequest) :
    req.prologue.Uses (Call.within [.env, .file, .ns, .rlimit, .oom, .signal]) := by
  unfold prologue
  exact .bind ((firstChildPidOf_uses _).widen (by decide)) fun _ =>
    .bind (.attempt (req.attachCgroup_uses.widen (by decide))) fun _ =>
    .bind ((setns_uses _ _).widen (by decide)) fun _ =>
    .bind (.attempt (req.exec.setProcessLimits_uses.widen (by decide))) fun _ =>
    .bind ((applyOomScore_uses _).widen (by decide)) fun _ =>
    orExit_uses (setupParentSignalHandlers_uses.widen (by decide))

/-- A supervisor that attaches forwards signals and waits. -/
theorem supervise_uses (child : Int) :
    (supervise child).Uses (Call.within [.signal, .wait]) := by
  unfold supervise
  exact .bind (uses_sys _ rfl) fun _ => .bind ((waitForPid_uses _).widen (by decide)) fun _ =>
    .bind (reapChildren_uses.widen (by decide)) fun _ => .halt _

/-- All that the child of an attach does. -/
theorem childMain_uses (req : AttachRequest) :
    req.childMain.Uses (Call.within [.signal, .enterLate, .env, .cred, .file, .confine, .exec]) := by
  unfold childMain
  exact .bind (orExit_uses (resetChildSignalHandlers_uses.widen (by decide))) fun _ =>
    .bind ((preexecPrep_uses _ _).widen (by decide)) fun _ =>
    req.exec.execute_uses.widen (by decide)

end AttachRequest

/-! ## Best effort

A part whose failure is only logged does not halt the process either.
-/

/-- Opening a control group returns. -/
theorem CGroup.openRoot_returns (root : String) : (openRoot root).Returns :=
  .bind (.check _ _) fun _ => .bind (.sys (I := calls) _) fun _ => .bind (.check _ _) fun _ =>
    .pure _

/-- Setting a value returns. -/
theorem CGroup.setChildValue_returns (g : CGroup) (child value : String) :
    (g.setChildValue child value).Returns :=
  .bind (.sys (I := calls) _) fun _ => .check _ _

/-- Setting the resource limits returns. -/
theorem ExecutableSpec.setProcessLimits_returns (exec : ExecutableSpec) :
    exec.setProcessLimits.Returns :=
  .whenSome fun _ _ => .forM fun _ _ => .bind (.sys (I := calls) _) fun _ => .mapErr (.check _ _)

namespace CreateRequest

/-- `prepare_cgroup` returns, whatever the hierarchy answers. -/
theorem prepareCgroup_returns (req : CreateRequest) : req.prepareCgroup.Returns := by
  refine .when fun _ => .bind (.sys (I := calls) _) fun pid =>
    .bind (CGroup.openRoot_returns _) fun cgroot => ?_
  -- Limits make a group of the workload's own
  cases req.limits with
  | none => exact cgroot.setChildValue_returns _ _
  | some limits =>
    exact .bind (.bind (.sys (I := calls) _) fun _ => .when fun _ =>
        .bind (.attempt (cgroot.setChildValue_returns _ _)) fun _ => .pure _) fun _ =>
      .bind (.bind (.sys (I := calls) _) fun _ => .pure _) fun wid =>
      .bind (.bind (.sys (I := calls) _) fun _ => .bind (.check _ _) fun _ =>
        CGroup.openRoot_returns _) fun subtree =>
      .bind (.forM fun limit _ => .when fun _ =>
        .bind (.attempt (subtree.setChildValue_returns _ _)) fun _ => .pure _) fun _ =>
      subtree.setChildValue_returns _ _

/-- The offset of the boot clock is set without halting. -/
theorem updateBoottime_returns : updateBoottime.Returns := by
  refine .bind (.bind (.sys (I := calls) _) fun r => ?_) fun t =>
    .bind (.sys (I := calls) _) fun _ => .check _ _
  split <;> exact .pure _

/-- Setting the host name returns. -/
theorem updateHostname_returns (req : CreateRequest) : req.updateHostname.Returns :=
  .bind (.bind (.sys (I := calls) _) fun _ => .pure _) fun _ => .bind (.mapErr (.check _ _)) fun _ =>
    .bind (.sys (I := calls) _) fun _ => .mapErr (.check _ _)

end CreateRequest

/-- Joining a control group returns. -/
theorem AttachRequest.attachCgroup_returns (req : AttachRequest) : req.attachCgroup.Returns :=
  .bind (.sys (I := calls) _) fun _ => .bind (.bind (.sys (I := calls) _) fun _ => .pure _) fun _ =>
    .bind (.sys (I := calls) _) fun _ => .when fun _ =>
    .bind (CGroup.openRoot_returns _) fun subtree => subtree.setChildValue_returns _ _

end Styrolite
