import Styrolite.Native.Create

/-!
# Attaching to a container

`AttachRequest::wrap` and what only it calls in `wrap.rs` and `unshare.rs`.
-/

namespace Styrolite

/-- `text.split(' ').next()`. -/
def firstField (text : String) : String := String.ofList (text.toList.takeWhile (· ≠ ' '))

/-- `str::lines`: what is before each line feed, without a carriage return at its end, and what
    is left after the last line feed, if anything is. -/
def lines (text : String) : List (List Char) :=
  let pieces := text.toList.splitOn '\n'
  let ended := pieces.dropLast.map fun l => if l.getLast? = some '\r' then l.dropLast else l
  match pieces.getLast? with
  | some (c :: cs) => ended ++ [c :: cs]
  | _ => ended

/-- The loop over the entries of `/proc`: the first process whose status has the line. -/
def scanProc (needle : List Char) : List (Except Errno String) → Sys (Option Int)
  | [] => pure none
  | entry :: entries => do
    let name ← check entry
    if !(name.toList.head?.any Char.isDigit) then scanProc needle entries
    else do
      match ← sys (.fsReadToString ("/proc/" ++ name ++ "/status")) with
      | .ok status =>
        match (lines status).any (· = needle), parseI32 name with
        | true, some pid => pure (some pid)
        | _, _ => scanProc needle entries
      | .error _ => scanProc needle entries

/-- `first_child_pid_of`, after the children file has given no answer. -/
def scanChildPid (parent : Int) : Sys Int := do
  let entries ← check (← sys (.fsReadDir "/proc"))
  match ← scanProc ("PPid:\t" ++ toString parent).toList entries with
  | some pid => pure pid
  | none => Prog.fail (.msg ("failed to find child PID of " ++ toString parent))

/-- The first child of the process: from its children file, else from a scan of `/proc`. -/
def firstChildPidOf (parent : Int) : Sys Int := do
  match ← sys (.fsReadToString
      ("/proc/" ++ toString parent ++ "/task/" ++ toString parent ++ "/children")) with
  | .ok childSet =>
    match parseI32 (firstField childSet) with
    | some v => pure v
    | none => scanChildPid parent
  | .error _ => scanChildPid parent

/-- `unshare.rs`: joins the namespaces of the process in one system call. -/
def setns (targetPid : Int) (nss : List Namespace) : Sys Unit := do
  check (← sys (.pidfdOpen targetPid))
  check (← sys (.setns targetPid (Namespace.cloneFlags nss)))

namespace AttachRequest

/-- The workload id, or else the caller's process id. -/
def identity (req : AttachRequest) : Sys String := do
  let pid : Nat ← sys .getpid
  pure (req.workloadId.getD (toString pid))

/-- Joins the workload's control group if there is one. -/
def attachCgroup (req : AttachRequest) : Sys Unit := do
  let pid : Nat ← sys .getpid
  let wid ← req.identity
  let path := pathPush (req.cgroupfs.getD "/sys/fs/cgroup") ("styrolite-" ++ wid)
  let there : Bool ← sys (.fsExists path)
  Prog.when (there = true) do
    let subtree ← CGroup.openRoot path
    subtree.setChildValue "cgroup.procs" (toString pid)

/-- Everything before the fork: the namespaces are joined and the score is written. -/
def prologue (req : AttachRequest) : Sys Unit := do
  let targetPid ← firstChildPidOf req.pid
  let _ ← attempt req.attachCgroup
  setns targetPid req.targetNs
  let _ ← attempt req.exec.setProcessLimits
  applyOomScore req.exec.oomScoreAdj
  orExit setupParentSignalHandlers

/-- The parent's arm of `fork_and_wait`; it ends with the child's exit code. -/
def supervise (child : Int) : Sys Unit := do
  let _ ← sys (.storeChildPid child)
  let exitcode ← waitForPid child
  reapChildren
  Prog.halt exitcode

/-- The child from the fork to the workload. -/
def childMain (req : AttachRequest) : Sys Unit := do
  orExit resetChildSignalHandlers
  preexecPrep req.exec req.capabilities
  req.exec.execute

/-- What each process does with its answer to `fork`. -/
def afterFork (req : AttachRequest) (r : Except Errno ForkResult) : Sys Unit := do
  match ← check r with
  | .parent child => supervise child
  | .child => req.childMain

def wrap (req : AttachRequest) : Sys Unit := do
  req.prologue
  req.afterFork (← sys .fork)

end AttachRequest

end Styrolite
