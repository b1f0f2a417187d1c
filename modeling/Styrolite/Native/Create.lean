import Styrolite.Native.Exec

/-!
# Creating a container

`CreateRequest::wrap` and what it calls in `wrap.rs`. The supervisor runs
`wrap` from its start; at `fork` its child continues the same program with
another answer. `wrap` is cut into `prologue` (up to the fork), `supervise`
(the parent's arm, which never returns) and the child's steps before and after
it signals the supervisor.
-/

namespace Styrolite

/-- The lines of an id map, one for each mapping. -/
def renderUidgidMappings (mappings : List IdMapping) : String :=
  String.intercalate "\n" (mappings.map fun m =>
    toString m.baseNsid ++ " " ++ toString m.baseHostid ++ " " ++ toString m.remapCount)

/-- The controllers `prepare_cgroup` knows how to enable. -/
def knownController (prefixName : String) : Bool :=
  prefixName = "cpu" ∨ prefixName = "memory" ∨ prefixName = "io" ∨ prefixName = "pids"

/-- `key.split('.').next()`. -/
def controllerOf (key : String) : String := String.ofList (key.toList.takeWhile (· ≠ '.'))

/-- The `HashSet` of the known controllers named by the limits. -/
def limitControllers (limits : BTreeMap) : Finset String :=
  ((limits.entries.map fun (key, _) => controllerOf key).filter fun p => knownController p).toFinset

/-- `CreateDirMutation::mutate`. -/
def CreateDirMutation.mutate (m : CreateDirMutation) (rootfs : String) : Sys Unit := do
  check (← sys (.fsCreateDirAll (pathPush rootfs m.target)))

namespace CreateRequest

/-- Seconds since boot, or 0 if the clock cannot be read. -/
def getBoottime : Sys Int := do
  match ← sys .clockGettimeBoottime with
  | .ok s => pure s
  | .error _ => pure 0

/-- `update_boottime`: the clock of the new time namespace is set back to about zero. -/
def updateBoottime : Sys Unit := do
  let t ← getBoottime
  let bootTime := t - 1
  let text := if bootTime ≤ 0 then "0" else "-" ++ toString bootTime
  check (← sys (.procWrite .timensOffsets ("boottime " ++ text ++ " 0\n")))

/-- Writes the id maps of the process `pid` in `/proc`, `setgroups` before `gid_map`. -/
def prepareUserns (req : CreateRequest) (pid : Int) : Sys Unit := do
  let _ ← sys (.enter (.prepareUserns pid))
  Prog.whenSome req.uidMappings fun m => do
    check (← sys (.procWrite (.uidMap pid) (renderUidgidMappings m)))
  Prog.when (req.setgroupsDeny.getD true) do
    check (← sys (.procWrite (.setgroups pid) "deny"))
  Prog.whenSome req.gidMappings fun m => do
    check (← sys (.procWrite (.gidMap pid) (renderUidgidMappings m)))

/-- The workload id, or else the caller's process id. -/
def identity (req : CreateRequest) : Sys String := do
  let pid : Nat ← sys .getpid
  pure (req.workloadId.getD (toString pid))

/-- `update_hostname`: the name that is asked for, or `styrolite-` and the id. -/
def updateHostname (req : CreateRequest) : Sys Unit := do
  let wid ← req.identity
  let finalHostname := req.hostname.getD ("styrolite-" ++ wid)
  let cstr ← (orFail (cString finalHostname)).mapErr
    (Err.context ("hostname '" ++ finalHostname ++ "' contains an interior NUL byte"))
  (check (← sys (.sethostname cstr))).mapErr
    (Err.context ("failed to set hostname to '" ++ finalHostname ++ "'"))

/-- Enables the controllers the limits need; a refusal is logged only. -/
def enableControllers (cgroot : CGroup) (limits : BTreeMap) : Sys Unit := do
  let controllers ← sys (.strHashIter (limitControllers limits))
  let controllerString := String.intercalate " " (controllers.1.map ("+" ++ ·))
  Prog.when (controllerString ≠ "") do
    let _ ← attempt (cgroot.setChildValue "cgroup.subtree_control" controllerString)

/-- Sets one limit; a `cgroup.` file is skipped and a refusal logged only. -/
def setLimit (subtree : CGroup) (limit : String × String) : Sys Unit :=
  Prog.when (¬ "cgroup.".toList <+: limit.1.toList) do
    let _ ← attempt (subtree.setChildValue limit.1 limit.2)

/-- `prepare_cgroup`: with limits a child cgroup of the base, without them the base itself. -/
def prepareCgroup (req : CreateRequest) : Sys Unit :=
  Prog.when (¬ (req.limits.isNone ∧ req.cgroupfs.isNone)) do
    let pid : Nat ← sys .getpid
    let cgroot ← CGroup.openRoot (req.cgroupfs.getD "/sys/fs/cgroup")
    match req.limits with
    | some limits => do
      enableControllers cgroot limits
      let wid ← req.identity
      let subtree ← cgroot.createChild ("styrolite-" ++ wid)
      forM limits.entries (setLimit subtree)
      subtree.setChildValue "cgroup.procs" (toString pid)
    | none => cgroot.setChildValue "cgroup.procs" (toString pid)

/-! ## The new root -/

/-- Makes every mount private before anything is changed. -/
def oldroot : MountSpec :=
  { source := none, target := "/", fstype := none, bind := false, recurse := true,
    unshare := true, safe := false, createMountpoint := false, readOnly := false, data := none }

/-- The tmpfs at the staging base. -/
def stageTmpfs (stageBase : String) : MountSpec :=
  { source := some "tmpfs", target := stageBase, fstype := some "tmpfs", bind := false,
    recurse := false, unshare := false, safe := true, createMountpoint := true,
    readOnly := false, data := none }

/-- The copy of the whole tree at the staging root. -/
def stageBind (stageRoot : String) : MountSpec :=
  { source := some "/", target := stageRoot, fstype := some "none", bind := true,
    recurse := true, unshare := false, safe := false, createMountpoint := false,
    readOnly := false, data := none }

/-- The bind of the root filesystem on itself, which makes it a mount of its own. -/
def newroot (rootfs : String) : MountSpec :=
  { source := some rootfs, target := rootfs, fstype := some "none", bind := true,
    recurse := true, unshare := false, safe := false, createMountpoint := false,
    readOnly := false, data := none }

/-- The `/proc` of the new root filesystem. -/
def procfs (rootfs : String) : MountSpec :=
  { source := some "proc", target := rootfs ++ "/proc", fstype := some "proc", bind := false,
    recurse := true, unshare := false, safe := true, createMountpoint := false,
    readOnly := false, data := none }

/-- An entry of `mounts` under the new root. Its mount data is not passed on. -/
def parentedMount (rootfs : String) (m : MountSpec) : MountSpec :=
  { m with target := rootfs ++ "/" ++ m.target, data := none }

/-- The root to set up: for `/` a staging copy, since `/` cannot be pivoted to. -/
def stageRootfs (rootfs wid₁ wid₂ wid₃ : String) : Sys String :=
  if rootfs = "/" then do
    let stageBase := "/tmp/styrolite-stage-" ++ wid₁
    let stageRoot := "/tmp/styrolite-stage-" ++ wid₂ ++ "/root"
    let stageOld := "/tmp/styrolite-stage-" ++ wid₃ ++ "/old"
    (stageTmpfs stageBase).mount.mapErr (Err.context "failed to mount staging tmpfs")
    (check (← sys (.fsCreateDirAll stageRoot))).mapErr
      (Err.context "failed to create staging root dir")
    (check (← sys (.fsCreateDirAll stageOld))).mapErr
      (Err.context "failed to create staging old dir")
    (stageBind stageRoot).mount.mapErr (Err.context "failed to bind / into staging root")
    pure stageRoot
  else pure rootfs

/-- `Mutation::mutate`. -/
def mutate (rootfs : String) : Mutation → Sys Unit
  | .createDir cdm =>
    (cdm.mutate rootfs).mapErr (Err.context "failed to create directory")

/-- Sets up the mount tree and pivots into it. -/
def pivotFsBody (req : CreateRequest) : Sys Unit := do
  let rootfs ← orFail (match req.rootfs with
    | some rootfs => .ok rootfs
    | none => .error (.msg "expected rootfs to be configured"))
  oldroot.mount.mapErr (Err.context "failed to unshare / in new mount namespace")
  let wid₁ ← req.identity
  let wid₂ ← req.identity
  let wid₃ ← req.identity
  let rootfs ← stageRootfs rootfs wid₁ wid₂ wid₃
  (newroot rootfs).mount.mapErr (Err.context "failed to bind new rootfs")
  Prog.when (req.rootfsReadonly.getD false)
    ((newroot rootfs).sealMount.mapErr (Err.context "failed to make new rootfs readonly"))
  (procfs rootfs).mount.mapErr (Err.context "failed to mount /proc")
  forM (req.mounts.getD []) fun m =>
    (parentedMount rootfs m).mount.mapErr
      (Err.context ("failed to process mount spec " ++ (parentedMount rootfs m).target))
  forM (req.mutations.getD []) (mutate rootfs)
  -- after every mount, and while /dev/null is still reachable
  forM (req.maskedPaths.getD []) fun path =>
    (maskPath rootfs path).mapErr (Err.context ("failed to mask " ++ path))
  forM (req.readonlyPaths.getD []) fun path =>
    (makeReadonly rootfs path).mapErr (Err.context ("failed to make " ++ path ++ " read-only"))
  (newroot rootfs).pivot.mapErr (Err.context "failed to pivot to new rootfs")

/-- `pivot_fs`. -/
def pivotFs (req : CreateRequest) : Sys Unit := do
  let _ ← sys (.enter .pivotFs)
  req.pivotFsBody

end CreateRequest

/-! ## The console -/

/-- The first of the descriptors that is a terminal. -/
def findTty : List Nat → Sys (Option Nat)
  | [] => pure none
  | fd :: fds => do
    let tty : Bool ← sys (.isatty fd)
    if tty then pure (some fd) else findTty fds

/-- The bind of the terminal on `/dev/console`. -/
def consoleMount (ptsPath : String) : MountSpec :=
  { source := some ptsPath, target := "/dev/console", fstype := none, bind := true,
    recurse := false, unshare := false, safe := false, createMountpoint := false,
    readOnly := false, data := none }

/-- Binds the terminal `ttyFd` over `/dev/console` and gives it to `execUid`; the refusals
    that `runc` tolerates are logged only. -/
def bindConsole (execUid : UInt32) (ttyFd : Nat) : Sys Unit := do
  let ptsPath ← (check (← sys (.fsReadLink ("/proc/self/fd/" ++ toString ttyFd)))).mapErr
    (Err.context "could not read TTY FD")
  let haveConsole : Bool ← sys (.fsExists "/dev/console")
  Prog.when (haveConsole = false) do
    (check (← sys (.fsFileCreate "/dev/console"))).mapErr
      (Err.context "could not create /dev/console stub")
  (consoleMount ptsPath).mount.mapErr (Err.context "failed to bind-mount /dev/console")
  match ← sys (.fchown ttyFd execUid) with
  | .ok () => pure ()
  | .error e =>
    if e = Errno.EPERM ∨ e = Errno.EROFS then pure ()
    else Prog.fail (Err.context
      ("failed to chown workload console to uid " ++ toString execUid) (.os e))

/-- `setup_console`: only when the request has a user id, and a terminal is found. -/
def setupConsole (uid : Option UInt32) : Sys Unit := do
  let _ ← sys (.enter .setupConsole)
  Prog.whenSome uid fun execUid => do
    let tty ← findTty [0, 1, 2]
    Prog.whenSome tty (bindConsole execUid)

/-! ## `CreateRequest::wrap` -/

/-- `unshare.rs`: one system call for the whole list. -/
def unshare (nss : List Namespace) : Sys Unit := do
  check (← sys (.unshare (Namespace.cloneFlags nss)))

namespace CreateRequest

/-- `skip_two_stage_userns`, which is off by default. -/
def skipTwoStage (req : CreateRequest) : Bool := req.skipTwoStageUserns.getD false

/-- The namespaces unshared before the fork: in two-stage mode all but `User`. -/
def firstLevelNs (req : CreateRequest) : List Namespace :=
  if !req.skipTwoStage then req.targetNs.filter (· ≠ .user) else req.targetNs

/-- Between the first `unshare` and the fork. Boot time, hostname and limits are best effort. -/
def setup (req : CreateRequest) : Sys Unit := do
  let _ ← attempt updateBoottime
  let _ ← attempt req.updateHostname
  let _ ← attempt req.exec.setProcessLimits
  orExit setupParentSignalHandlers
  check (← sys (.eventfd .parent 0 EFD_SEMAPHORE))
  check (← sys (.eventfd .child 0 EFD_SEMAPHORE))

/-- Everything before the fork. The control group is best effort. -/
def prologue (req : CreateRequest) : Sys Unit := do
  let _ ← attempt req.prepareCgroup
  unshare req.firstLevelNs
  req.setup

/-- The child's number in the `/proc` the supervisor is taken to see. -/
def usernsPid (req : CreateRequest) (child : Int) : Int :=
  if !req.skipTwoStage ∧ .pid ∈ req.targetNs then 1 else child

/-- The supervisor's side of the handshake. -/
def configure (req : CreateRequest) (child : Int) : Sys Unit := do
  Prog.when (.user ∈ req.targetNs) (req.prepareUserns (req.usernsPid child))
  let _ ← check (← sys (.efdWrite .child 1))

/-- The parent's arm after the fork; it ends with the child's exit code. -/
def supervise (req : CreateRequest) (child : Int) : Sys Unit := do
  let _ ← sys (.storeChildPid child)
  let _ ← check (← sys (.efdRead .parent))
  req.configure child
  let exitcode ← waitForPid child
  reapChildren
  Prog.halt exitcode

/-- The child's mount work, if a mount namespace was requested. -/
def pivotIfMount (req : CreateRequest) : Sys Unit :=
  Prog.when (.mount ∈ req.targetNs) req.pivotFs

/-- What the two-stage mode has the child do before it signals. The mount work comes before
    the new user namespace, which would not own the mount namespace. -/
def stage (req : CreateRequest) : Sys Unit :=
  Prog.when (!req.skipTwoStage) do
    req.pivotIfMount
    Prog.when (.user ∈ req.targetNs) (unshare [.user])

/-- The child up to its signal. -/
def childSignal (req : CreateRequest) : Sys Unit := do
  orExit resetChildSignalHandlers
  req.stage
  let _ ← check (← sys (.efdWrite .parent 2))

/-- The child after its release: the mount work of the other mode, then the workload. -/
def childRest (req : CreateRequest) : Sys Unit := do
  Prog.when req.skipTwoStage req.pivotIfMount
  applyOomScore req.exec.oomScoreAdj
  setupConsole req.exec.uid
  preexecPrep req.exec req.capabilities
  req.exec.execute

/-- The child from the fork to the workload. -/
def childMain (req : CreateRequest) : Sys Unit := do
  req.childSignal
  let _ ← check (← sys (.efdRead .child))
  req.childRest

/-- What each process does with its answer to `fork`. -/
def afterFork (req : CreateRequest) (r : Except Errno ForkResult) : Sys Unit := do
  match ← check r with
  | .parent child => req.supervise child
  | .child => req.childMain

/-- `CreateRequest::wrap`: the supervisor up to the fork, then either side of it. -/
def wrap (req : CreateRequest) : Sys Unit := do
  req.prologue
  req.afterFork (← sys .fork)

end CreateRequest

end Styrolite
