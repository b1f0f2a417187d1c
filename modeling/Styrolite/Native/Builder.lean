import Styrolite.ForStd.SortedMap
import Styrolite.Native.Config

/-!
# The request builders

`CreateRequestBuilder` and `AttachRequestBuilder` of `runner.rs`. A `Step` is one
call of a method; what a chain of calls builds is `build`.
-/

namespace Styrolite

/-- `BTreeMap::insert`. -/
def BTreeMap.insert (m : BTreeMap) (key value : String) : BTreeMap :=
  ⟨SortedMap.insert key value m.entries, SortedMap.Sorted.insert m.sorted⟩

/-- `push` on a list that is made first if it is not there. -/
def pushOnto {α : Type} (list : Option (List α)) (value : α) : Option (List α) :=
  some (list.getD [] ++ [value])

/-- `insert` into a map that is made first if it is not there. -/
def insertInto (map : Option BTreeMap) (key value : String) : Option BTreeMap :=
  some ((map.getD default).insert key value)

/-- The list of a request's capabilities that `get_list` borrows. -/
inductive CapList where
  | raise | raiseAmbient | drop
  deriving DecidableEq, Repr

/-- The capabilities with one of the three lists changed. -/
def Capabilities.modify (caps : Capabilities) (f : Option (List String) → Option (List String)) :
    CapList → Capabilities
  | .raise => { caps with raise := f caps.raise }
  | .raiseAmbient => { caps with raiseAmbient := f caps.raiseAmbient }
  | .drop => { caps with drop := f caps.drop }

/-- `add_to_cap_list`: the capabilities, and the list in them, are made if they are not there. -/
def addToCapList (value : String) (caps : Option Capabilities) (list : CapList) :
    Option Capabilities :=
  some ((caps.getD default).modify (pushOnto · value) list)

/-! ## `AttachRequestBuilder` -/

/-- The request built so far. -/
structure AttachRequestBuilder where
  config : AttachRequest

namespace AttachRequestBuilder

/-- The builder starts from the default request. -/
def new : AttachRequestBuilder := ⟨default⟩

/-- The process whose namespaces are joined. -/
def setPid (b : AttachRequestBuilder) (pid : Int) : AttachRequestBuilder :=
  { b with config.pid := pid }

/-- The program to run. -/
def setExecutable (b : AttachRequestBuilder) (executable : String) : AttachRequestBuilder :=
  { b with config.exec.executable := some executable }

/-- The arguments, in place of those set before. -/
def setArguments (b : AttachRequestBuilder) (args : List String) : AttachRequestBuilder :=
  { b with config.exec.arguments := some args }

/-- The directory the program starts in. -/
def setWorkingDirectory (b : AttachRequestBuilder) (wd : String) : AttachRequestBuilder :=
  { b with config.exec.workingDirectory := some wd }

/-- The name of the workload, and of its control group. -/
def setWorkloadId (b : AttachRequestBuilder) (workloadId : String) : AttachRequestBuilder :=
  { b with config.workloadId := some workloadId }

/-- The user the program runs as. -/
def setUid (b : AttachRequestBuilder) (uid : UInt32) : AttachRequestBuilder :=
  { b with config.exec.uid := some uid }

/-- The group the program runs as. -/
def setGid (b : AttachRequestBuilder) (gid : UInt32) : AttachRequestBuilder :=
  { b with config.exec.gid := some gid }

/-- The supplementary groups, in place of those set before. -/
def setSupplementalGids (b : AttachRequestBuilder) (gids : List UInt32) : AttachRequestBuilder :=
  { b with config.exec.supplementalGids := some gids }

/-- Whether `no_new_privs` is set before the program starts. -/
def setNoNewPrivs (b : AttachRequestBuilder) (noNewPrivs : Bool) : AttachRequestBuilder :=
  { b with config.exec.noNewPrivs := noNewPrivs }

/-- One variable more, or another value for one that is there. -/
def pushEnvironment (b : AttachRequestBuilder) (key value : String) : AttachRequestBuilder :=
  { b with config.exec.environment := insertInto b.config.exec.environment key value }

/-- The OOM score adjustment. -/
def setOomScoreAdj (b : AttachRequestBuilder) (score : Int) : AttachRequestBuilder :=
  { b with config.exec.oomScoreAdj := some score }

/-- One namespace more to join. -/
def pushNamespace (b : AttachRequestBuilder) (ns : Namespace) : AttachRequestBuilder :=
  { b with config.namespaces := pushOnto b.config.namespaces ns }

/-- One name more among the capabilities to raise. -/
def pushRaiseCapability (b : AttachRequestBuilder) (cap : String) : AttachRequestBuilder :=
  { b with config.capabilities := addToCapList cap b.config.capabilities .raise }

/-- One name more among the ambient capabilities to raise. -/
def pushRaiseAmbientCapability (b : AttachRequestBuilder) (cap : String) : AttachRequestBuilder :=
  { b with config.capabilities := addToCapList cap b.config.capabilities .raiseAmbient }

/-- One name more among the capabilities to drop. -/
def pushDropCapability (b : AttachRequestBuilder) (cap : String) : AttachRequestBuilder :=
  { b with config.capabilities := addToCapList cap b.config.capabilities .drop }

/-- The request built. -/
def toRequest (b : AttachRequestBuilder) : AttachRequest := b.config

/-- One call of a method. -/
inductive Step where
  | setPid (pid : Int)
  | setExecutable (executable : String)
  | setArguments (args : List String)
  | setWorkingDirectory (wd : String)
  | setWorkloadId (workloadId : String)
  | setUid (uid : UInt32)
  | setGid (gid : UInt32)
  | setSupplementalGids (gids : List UInt32)
  | setNoNewPrivs (noNewPrivs : Bool)
  | pushEnvironment (key value : String)
  | setOomScoreAdj (score : Int)
  | pushNamespace (ns : Namespace)
  | pushRaiseCapability (cap : String)
  | pushRaiseAmbientCapability (cap : String)
  | pushDropCapability (cap : String)

/-- What one call of a method makes of the builder. -/
def step (b : AttachRequestBuilder) : Step → AttachRequestBuilder
  | .setPid pid => b.setPid pid
  | .setExecutable executable => b.setExecutable executable
  | .setArguments args => b.setArguments args
  | .setWorkingDirectory wd => b.setWorkingDirectory wd
  | .setWorkloadId workloadId => b.setWorkloadId workloadId
  | .setUid uid => b.setUid uid
  | .setGid gid => b.setGid gid
  | .setSupplementalGids gids => b.setSupplementalGids gids
  | .setNoNewPrivs noNewPrivs => b.setNoNewPrivs noNewPrivs
  | .pushEnvironment key value => b.pushEnvironment key value
  | .setOomScoreAdj score => b.setOomScoreAdj score
  | .pushNamespace ns => b.pushNamespace ns
  | .pushRaiseCapability cap => b.pushRaiseCapability cap
  | .pushRaiseAmbientCapability cap => b.pushRaiseAmbientCapability cap
  | .pushDropCapability cap => b.pushDropCapability cap

/-- The request of a chain of calls. -/
def build (steps : List Step) : AttachRequest := (steps.foldl step new).toRequest

end AttachRequestBuilder

/-! ## `CreateRequestBuilder` -/

/-- The request built so far. -/
structure CreateRequestBuilder where
  config : CreateRequest

namespace CreateRequestBuilder

/-- The builder starts from the default request. -/
def new : CreateRequestBuilder := ⟨default⟩

/-- The root file system of the container. -/
def setRootfs (b : CreateRequestBuilder) (rootfs : String) : CreateRequestBuilder :=
  { b with config.rootfs := some rootfs }

/-- Whether the root file system is mounted read-only. -/
def setRootfsReadonly (b : CreateRequestBuilder) (rootfsReadonly : Bool) : CreateRequestBuilder :=
  { b with config.rootfsReadonly := some rootfsReadonly }

/-- Whether the two-stage setup of the user namespace is skipped. -/
def setSkipTwoStageUserns (b : CreateRequestBuilder) (skipTwoStageUserns : Bool) :
    CreateRequestBuilder :=
  { b with config.skipTwoStageUserns := some skipTwoStageUserns }

/-- The program to run. -/
def setExecutable (b : CreateRequestBuilder) (executable : String) : CreateRequestBuilder :=
  { b with config.exec.executable := some executable }

/-- The arguments, in place of those set before. -/
def setArguments (b : CreateRequestBuilder) (args : List String) : CreateRequestBuilder :=
  { b with config.exec.arguments := some args }

/-- The directory the program starts in. -/
def setWorkingDirectory (b : CreateRequestBuilder) (wd : String) : CreateRequestBuilder :=
  { b with config.exec.workingDirectory := some wd }

/-- The name of the workload, and of its control group. -/
def setWorkloadId (b : CreateRequestBuilder) (workloadId : String) : CreateRequestBuilder :=
  { b with config.workloadId := some workloadId }

/-- The user the program runs as. -/
def setUid (b : CreateRequestBuilder) (uid : UInt32) : CreateRequestBuilder :=
  { b with config.exec.uid := some uid }

/-- The group the program runs as. -/
def setGid (b : CreateRequestBuilder) (gid : UInt32) : CreateRequestBuilder :=
  { b with config.exec.gid := some gid }

/-- The supplementary groups, in place of those set before. -/
def setSupplementalGids (b : CreateRequestBuilder) (gids : List UInt32) : CreateRequestBuilder :=
  { b with config.exec.supplementalGids := some gids }

/-- Whether `no_new_privs` is set before the program starts. -/
def setNoNewPrivs (b : CreateRequestBuilder) (noNewPrivs : Bool) : CreateRequestBuilder :=
  { b with config.exec.noNewPrivs := noNewPrivs }

/-- The OOM score adjustment. -/
def setOomScoreAdj (b : CreateRequestBuilder) (score : Int) : CreateRequestBuilder :=
  { b with config.exec.oomScoreAdj := some score }

/-- The host name of the container. -/
def setHostname (b : CreateRequestBuilder) (hostname : String) : CreateRequestBuilder :=
  { b with config.hostname := some hostname }

/-- Whether `setgroups` is denied in the user namespace. -/
def setSetgroupsDeny (b : CreateRequestBuilder) (setgroupsDeny : Bool) : CreateRequestBuilder :=
  { b with config.setgroupsDeny := some setgroupsDeny }

/-- The limits of the process, in place of those set before. -/
def setProcessResourceLimits (b : CreateRequestBuilder) (prlimits : ProcessResourceLimits) :
    CreateRequestBuilder :=
  { b with config.exec.processLimits := some prlimits }

/-- One key more of the control group, or another value for one that is there. -/
def pushResourceLimit (b : CreateRequestBuilder) (key value : String) : CreateRequestBuilder :=
  { b with config.limits := insertInto b.config.limits key value }

/-- One variable more, or another value for one that is there. -/
def pushEnvironment (b : CreateRequestBuilder) (key value : String) : CreateRequestBuilder :=
  { b with config.exec.environment := insertInto b.config.exec.environment key value }

/-- One namespace more to make. -/
def pushNamespace (b : CreateRequestBuilder) (ns : Namespace) : CreateRequestBuilder :=
  { b with config.namespaces := pushOnto b.config.namespaces ns }

/-- One mapping more of users. -/
def pushUidMapping (b : CreateRequestBuilder) (mapping : IdMapping) : CreateRequestBuilder :=
  { b with config.uidMappings := pushOnto b.config.uidMappings mapping }

/-- One mapping more of groups. -/
def pushGidMapping (b : CreateRequestBuilder) (mapping : IdMapping) : CreateRequestBuilder :=
  { b with config.gidMappings := pushOnto b.config.gidMappings mapping }

/-- One mount more. -/
def pushMount (b : CreateRequestBuilder) (spec : MountSpec) : CreateRequestBuilder :=
  { b with config.mounts := pushOnto b.config.mounts spec }

/-- One path more to mask. -/
def pushMaskedPath (b : CreateRequestBuilder) (path : String) : CreateRequestBuilder :=
  { b with config.maskedPaths := pushOnto b.config.maskedPaths path }

/-- One path more to make read-only. -/
def pushReadonlyPath (b : CreateRequestBuilder) (path : String) : CreateRequestBuilder :=
  { b with config.readonlyPaths := pushOnto b.config.readonlyPaths path }

/-- One mutation more of the root file system. -/
def pushMutation (b : CreateRequestBuilder) (spec : Mutation) : CreateRequestBuilder :=
  { b with config.mutations := pushOnto b.config.mutations spec }

/-- One name more among the capabilities to raise. -/
def pushRaiseCapability (b : CreateRequestBuilder) (cap : String) : CreateRequestBuilder :=
  { b with config.capabilities := addToCapList cap b.config.capabilities .raise }

/-- One name more among the ambient capabilities to raise. -/
def pushRaiseAmbientCapability (b : CreateRequestBuilder) (cap : String) : CreateRequestBuilder :=
  { b with config.capabilities := addToCapList cap b.config.capabilities .raiseAmbient }

/-- One name more among the capabilities to drop. -/
def pushDropCapability (b : CreateRequestBuilder) (cap : String) : CreateRequestBuilder :=
  { b with config.capabilities := addToCapList cap b.config.capabilities .drop }

/-- The request built. -/
def toRequest (b : CreateRequestBuilder) : CreateRequest := b.config

/-- One call of a method. -/
inductive Step where
  | setRootfs (rootfs : String)
  | setRootfsReadonly (rootfsReadonly : Bool)
  | setSkipTwoStageUserns (skipTwoStageUserns : Bool)
  | setExecutable (executable : String)
  | setArguments (args : List String)
  | setWorkingDirectory (wd : String)
  | setWorkloadId (workloadId : String)
  | setUid (uid : UInt32)
  | setGid (gid : UInt32)
  | setSupplementalGids (gids : List UInt32)
  | setNoNewPrivs (noNewPrivs : Bool)
  | setOomScoreAdj (score : Int)
  | setHostname (hostname : String)
  | setSetgroupsDeny (setgroupsDeny : Bool)
  | setProcessResourceLimits (prlimits : ProcessResourceLimits)
  | pushResourceLimit (key value : String)
  | pushEnvironment (key value : String)
  | pushNamespace (ns : Namespace)
  | pushUidMapping (mapping : IdMapping)
  | pushGidMapping (mapping : IdMapping)
  | pushMount (spec : MountSpec)
  | pushMaskedPath (path : String)
  | pushReadonlyPath (path : String)
  | pushMutation (spec : Mutation)
  | pushRaiseCapability (cap : String)
  | pushRaiseAmbientCapability (cap : String)
  | pushDropCapability (cap : String)

/-- What one call of a method makes of the builder. -/
def step (b : CreateRequestBuilder) : Step → CreateRequestBuilder
  | .setRootfs rootfs => b.setRootfs rootfs
  | .setRootfsReadonly rootfsReadonly => b.setRootfsReadonly rootfsReadonly
  | .setSkipTwoStageUserns skipTwoStageUserns => b.setSkipTwoStageUserns skipTwoStageUserns
  | .setExecutable executable => b.setExecutable executable
  | .setArguments args => b.setArguments args
  | .setWorkingDirectory wd => b.setWorkingDirectory wd
  | .setWorkloadId workloadId => b.setWorkloadId workloadId
  | .setUid uid => b.setUid uid
  | .setGid gid => b.setGid gid
  | .setSupplementalGids gids => b.setSupplementalGids gids
  | .setNoNewPrivs noNewPrivs => b.setNoNewPrivs noNewPrivs
  | .setOomScoreAdj score => b.setOomScoreAdj score
  | .setHostname hostname => b.setHostname hostname
  | .setSetgroupsDeny setgroupsDeny => b.setSetgroupsDeny setgroupsDeny
  | .setProcessResourceLimits prlimits => b.setProcessResourceLimits prlimits
  | .pushResourceLimit key value => b.pushResourceLimit key value
  | .pushEnvironment key value => b.pushEnvironment key value
  | .pushNamespace ns => b.pushNamespace ns
  | .pushUidMapping mapping => b.pushUidMapping mapping
  | .pushGidMapping mapping => b.pushGidMapping mapping
  | .pushMount spec => b.pushMount spec
  | .pushMaskedPath path => b.pushMaskedPath path
  | .pushReadonlyPath path => b.pushReadonlyPath path
  | .pushMutation spec => b.pushMutation spec
  | .pushRaiseCapability cap => b.pushRaiseCapability cap
  | .pushRaiseAmbientCapability cap => b.pushRaiseAmbientCapability cap
  | .pushDropCapability cap => b.pushDropCapability cap

/-- The request of a chain of calls. -/
def build (steps : List Step) : CreateRequest := (steps.foldl step new).toRequest

end CreateRequestBuilder

end Styrolite
