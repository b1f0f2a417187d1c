import Styrolite.Native.CGroup

/-!
# The last steps before the workload

What both `wrap`s share: the process limits, the switch of identity and
capabilities (`preexecPrep`) and `execute`, which ends in `execvpe`. On success
`execvpe` does not return; its answer `ok` stands for the workload running.
-/

namespace Styrolite

/-- No limit at all. -/
def RLIM_INFINITY : U64 := BitVec.allOnes 64

/-- The number of the resource in `setrlimit(2)`. -/
def RLimit.code : RLimit → Nat
  | as => 9 | core => 4 | cpu => 0 | data => 2 | fsize => 1 | memlock => 8 | msgqueue => 12
  | nice => 13 | nofile => 7 | nproc => 6 | rss => 5 | rtprio => 14 | rttime => 15
  | sigpending => 11 | stack => 3

/-- `set_process_limit`: a limit that is missing is no limit. -/
def setProcessLimit (resource : RLimit) (limit : Option U64) : Sys Unit := do
  let rl := limit.getD RLIM_INFINITY
  (check (← sys (.setrlimit resource rl rl))).mapErr
    (Err.context ("failed to set resource limit " ++ toString resource.code))

/-- The calls of `set_process_limits`, in order. -/
def ProcessResourceLimits.calls (l : ProcessResourceLimits) : List (RLimit × Option U64) :=
  [(.as, l.addressSpaceSize), (.core, l.coreSize), (.cpu, l.cpuTime), (.data, l.dataSpaceSize),
   (.fsize, l.fileSize), (.memlock, l.lockedSpaceSize), (.msgqueue, l.msgqueueSize),
   (.nice, l.niceCeiling), (.nofile, l.openFiles), (.nproc, l.threadLimit),
   (.rss, l.residentSpaceSize), (.rtprio, l.realTimePriority), (.rttime, l.realTimeLimit),
   (.sigpending, l.pendingSignalLimit), (.stack, l.mainThreadStackSize)]

namespace ExecutableSpec

/-- `set_process_limits`. -/
def setProcessLimits (exec : ExecutableSpec) : Sys Unit :=
  Prog.whenSome exec.processLimits fun prlimits =>
    forM prlimits.calls fun (resource, limit) => setProcessLimit resource limit

/-- The argument vector: the executable, then the arguments. -/
def argv (exec : ExecutableSpec) (program : String) : Except Err (List String) := do
  let args ← (exec.arguments.getD []).mapM cString
  pure (program :: args)

/-- The environment vector. -/
def envp (exec : ExecutableSpec) : Except Err (List String) :=
  ((exec.environment.map BTreeMap.entries).getD []).mapM fun (key, value) =>
    cString (key ++ "=" ++ value)

/-- `set_no_new_privs`. -/
def setNoNewPrivs : Sys Unit := do
  (check (← sys .prSetNoNewPrivs)).mapErr (Err.context "failed to set no_new_privs flag")

end ExecutableSpec

/-- Installs the filter; the length is cut to 16 bits. -/
def SeccompFilter.install (filter : SeccompFilter) : Sys Unit := do
  check (← sys (.seccomp filter.instructions (UInt16.ofNat filter.instructions.length)))

/-- Stages an AppArmor transition for the next `execve`, on the per-LSM node or, where that
    does not exist, on the global one. -/
def changeOnexec (profile : String) : Sys Unit := do
  let cmd := "exec " ++ profile
  match ← sys (.fsOpenWrite "/proc/self/attr/apparmor/exec") with
  | .ok () => check (← sys (.fsWriteAll "/proc/self/attr/apparmor/exec" cmd))
  | .error e =>
    if e = Errno.ENOENT then do
      check (← sys (.fsOpenWrite "/proc/self/attr/exec"))
      check (← sys (.fsWriteAll "/proc/self/attr/exec" cmd))
    else Prog.fail (.os e)

/-- The hint after the error of a failed `execvpe`. -/
def execHint (program : String) (e : Errno) : String :=
  if e = Errno.ENOENT then
    " (is '" ++ program ++ "' installed and on PATH? if you meant to pass it as an argument, " ++
      "check the order of the executable and its arguments)"
  else if e = Errno.EACCES then
    " (is '" ++ program ++ "' marked executable, and are all leading path components accessible?)"
  else if e = Errno.ENOEXEC then
    " (is '" ++ program ++ "' a valid executable for this architecture, " ++
      "or is it a script missing a #! interpreter line?)"
  else ""

namespace ExecutableSpec

/-- The seccomp filter, which is refused without `no_new_privs`. -/
def installSeccomp (exec : ExecutableSpec) : Sys Unit :=
  Prog.whenSome exec.seccomp fun filter =>
    if !exec.noNewPrivs then Prog.fail (.msg "seccomp filter requires no_new_privs = true")
    else filter.install

/-- `execute`: the argument vectors, the working directory, the confinement, and the workload. -/
def execute (exec : ExecutableSpec) : Sys Unit := do
  let _ ← sys (.enter .execute)
  let executable ← orFail (match exec.executable with
    | some executable => .ok executable
    | none => .error (.msg "no executable configured for the workload to run"))
  let program ← orFail (cString executable)
  let args ← orFail (exec.argv program)
  let env ← orFail exec.envp
  Prog.whenSome exec.workingDirectory fun wd => do
    check (← sys (.setCurrentDir wd))
  Prog.when exec.noNewPrivs setNoNewPrivs
  exec.installSeccomp
  Prog.whenSome exec.apparmor fun profile =>
    (changeOnexec profile).mapErr
      (Err.context ("failed to set AppArmor profile " ++ profile.quote))
  resetSigpipe
  match ← sys (.execvpe program args env) with
  | .ok () => pure ()
  | .error e =>
    Prog.fail (.caused ("failed to execute '" ++ program ++ "'") (.os e) (execHint program e))

end ExecutableSpec

/-! ## Identity and capabilities -/

/-- The requested out-of-memory score, written by the process for itself. -/
def applyOomScore (score : Option Int) : Sys Unit :=
  Prog.whenSome score fun score => do
    check (← sys (.procWrite .oomScoreAdj (toString score)))

/-- Switches to `gid`, unless the real gid is that already. A refusal is logged only. -/
def applyGid (gid : UInt32) : Sys Unit := do
  let current : UInt32 ← sys .getgid
  if current ≠ gid then do
    let _ ← sys (.setgid gid)
  else pure ()

/-- Switches to `uid`, unless the real uid is that already. A refusal is logged only. -/
def applyUid (uid : UInt32) : Sys Unit := do
  let current : UInt32 ← sys .getuid
  if current ≠ uid then do
    let _ ← sys (.setuid uid)
  else pure ()

/-- Group before user, so that the group change is not refused. -/
def applyGidUid (gid uid : Option UInt32) (supplementalGids : Option (List UInt32)) :
    Sys Unit := do
  Prog.whenSome gid applyGid
  Prog.whenSome supplementalGids fun gids => do
    let _ ← sys (.setgroups gids)
  Prog.whenSome uid applyUid

/-- A capability is taken out of the bounding set. -/
def dropBounding (c : CapabilityBit) : Sys Unit := do
  (check (← sys (.prCapbsetDrop c.toCapNumber))).mapErr
    (Err.context "failed to drop bounding capability")

/-- A capability is taken out of the ambient set. -/
def lowerAmbient (c : CapabilityBit) : Sys Unit := do
  (check (← sys (.prCapAmbient .lower c.toCapNumber))).mapErr
    (Err.context "failed to drop ambient capability")

/-- A capability is put into the ambient set. -/
def raiseAmbientBit (c : CapabilityBit) : Sys Unit := do
  (check (← sys (.prCapAmbient .raise c.toCapNumber))).mapErr
    (Err.context "failed to raise ambient capability")

/-- The sets `apply_capabilities` passes to `set_caps`. -/
def newCaps (current : CapResult) (drops raises : List CapabilityBit) : CapResult :=
  let effective := CapabilityBit.setBits (CapabilityBit.clearBits current.effective drops) raises
  { effective := effective, permitted := effective, inheritable := effective }

/-- `apply_capabilities` on a request that has capabilities. -/
def Capabilities.apply (caps : Capabilities) : Sys Unit := do
  let current ← getCaps
  let drops ← Capabilities.namesAsBits (caps.drop.getD [])
  let raises ← Capabilities.namesAsBits (caps.raise.getD [])
  let raisesAmbient ← Capabilities.namesAsBits (caps.raiseAmbient.getD [])
  forM drops fun d =>
    Prog.when (d ∉ raises ∧ d ∉ raisesAmbient) (dropBounding d)
  setCaps (newCaps current drops raises)
  forM drops lowerAmbient
  forM raisesAmbient raiseAmbientBit

/-- `apply_capabilities`. -/
def applyCapabilities (capabilities : Option Capabilities) : Sys Unit :=
  Prog.whenSome capabilities Capabilities.apply

/-- The ordered final prep: keep the capabilities across the identity switch, switch, then
    set the workload's capabilities. -/
def preexecPrep (exec : ExecutableSpec) (capabilities : Option Capabilities) : Sys Unit := do
  let _ ← sys (.enter .preexecPrep)
  setKeepCaps
  applyGidUid exec.gid exec.uid exec.supplementalGids
  applyCapabilities capabilities

/-! ## Waiting for the child -/

/-- `wait_for_pid`: the child's exit code, or 1 if it did not exit. -/
def waitForPid (pid : Int) : Sys Int := do
  match ← check (← sys (.waitpid pid)) with
  | .exited _ code => pure code
  | _ => pure 1

/-- `reap_children`. -/
def reapChildren : Sys Unit := do
  let _ ← sys .reapChildren

end Styrolite
