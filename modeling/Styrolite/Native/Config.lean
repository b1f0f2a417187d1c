import Styrolite.Native.Namespace

/-!
# Requests

The configuration types of `config.rs`, with the fields in the source's order.
-/

namespace Styrolite

/-- `IdMapping`: a range of ids of the container and of the host. -/
structure IdMapping where
  baseNsid : UInt32
  baseHostid : UInt32
  remapCount : UInt32
  deriving DecidableEq, Repr, Inhabited

/-- `ProcessResourceLimits`: the limits as they are handed to the kernel, each for one resource. -/
structure ProcessResourceLimits where
  addressSpaceSize : Option U64
  coreSize : Option U64
  cpuTime : Option U64
  dataSpaceSize : Option U64
  fileSize : Option U64
  lockedSpaceSize : Option U64
  msgqueueSize : Option U64
  niceCeiling : Option U64
  openFiles : Option U64
  threadLimit : Option U64
  residentSpaceSize : Option U64
  realTimePriority : Option U64
  realTimeLimit : Option U64
  pendingSignalLimit : Option U64
  mainThreadStackSize : Option U64
  deriving DecidableEq, Repr, Inhabited

/-- One BPF instruction, `(code, jt, jf, k)`. -/
structure BpfInstruction where
  code : UInt16
  jt : UInt8
  jf : UInt8
  k : UInt32
  deriving DecidableEq, Repr, Inhabited

/-- A seccomp program. -/
structure SeccompFilter where
  instructions : List BpfInstruction
  deriving DecidableEq, Repr, Inhabited

/-- `ExecutableSpec`: the workload and what it is run as. -/
structure ExecutableSpec where
  executable : Option String
  arguments : Option (List String)
  workingDirectory : Option String
  environment : Option BTreeMap
  uid : Option UInt32
  gid : Option UInt32
  supplementalGids : Option (List UInt32)
  processLimits : Option ProcessResourceLimits
  noNewPrivs : Bool
  seccomp : Option SeccompFilter
  apparmor : Option String
  oomScoreAdj : Option Int
  deriving Inhabited

/-- `Capabilities`: the names to raise, to raise in the ambient set, and to drop. -/
structure Capabilities where
  raise : Option (List String)
  raiseAmbient : Option (List String)
  drop : Option (List String)
  deriving DecidableEq, Repr, Inhabited

/-- `MountSpec`: one mount. -/
structure MountSpec where
  source : Option String
  target : String
  fstype : Option String
  bind : Bool
  recurse : Bool
  unshare : Bool
  safe : Bool
  createMountpoint : Bool
  readOnly : Bool
  data : Option String
  deriving DecidableEq, Repr, Inhabited

/-- A directory that is made in the root filesystem. -/
structure CreateDirMutation where
  target : String
  deriving DecidableEq, Repr, Inhabited

/-- What is changed in the root filesystem before it is entered. -/
inductive Mutation where
  | createDir (m : CreateDirMutation)
  deriving DecidableEq, Repr, Inhabited

/-- `CreateRequest`: a container to create. -/
structure CreateRequest where
  workloadId : Option String
  rootfs : Option String
  rootfsReadonly : Option Bool
  exec : ExecutableSpec
  uidMappings : Option (List IdMapping)
  gidMappings : Option (List IdMapping)
  mounts : Option (List MountSpec)
  maskedPaths : Option (List String)
  readonlyPaths : Option (List String)
  limits : Option BTreeMap
  cgroupfs : Option String
  hostname : Option String
  mutations : Option (List Mutation)
  namespaces : Option (List Namespace)
  setgroupsDeny : Option Bool
  capabilities : Option Capabilities
  skipTwoStageUserns : Option Bool
  deriving Inhabited

/-- `AttachRequest`: a workload to run in a container there is. -/
structure AttachRequest where
  pid : Int
  exec : ExecutableSpec
  workloadId : Option String
  cgroupfs : Option String
  namespaces : Option (List Namespace)
  capabilities : Option Capabilities
  deriving Inhabited

/-- The namespaces of a request that names none, in the order both `wrap`s list them. -/
def defaultNamespaces : List Namespace := [.mount, .time, .uts, .pid, .ipc, .user]

/-- `target_ns`: the effective namespace list. -/
def CreateRequest.targetNs (req : CreateRequest) : List Namespace :=
  req.namespaces.getD defaultNamespaces

/-- `target_ns`: the effective namespace list. -/
def AttachRequest.targetNs (req : AttachRequest) : List Namespace :=
  req.namespaces.getD defaultNamespaces

end Styrolite
