import Styrolite.Native.Call

/-!
# Mounts

`mount.rs`: one mount specification carried out (`MountSpec.mount`), the seal
and the pivot, and the masking of single container paths.
-/

namespace Styrolite

/-- With everything that is mounted below. -/
def MS_REC : U64 := 0x4000
/-- A tree that exists is mounted at another place. -/
def MS_BIND : U64 := 0x1000
/-- The kernel logs no messages about it. -/
def MS_SILENT : U64 := 0x8000
/-- Mounts and unmounts below do not propagate. -/
def MS_PRIVATE : U64 := 0x40000

/-- Nothing on the mount can be written. -/
def MOUNT_ATTR_RDONLY : U64 := 0x1
/-- Set-user-id bits of files count for nothing. -/
def MOUNT_ATTR_NOSUID : U64 := 0x2
/-- Device nodes cannot be opened. -/
def MOUNT_ATTR_NODEV : U64 := 0x4
/-- Files cannot be executed. -/
def MOUNT_ATTR_NOEXEC : U64 := 0x8

/-- The empty path stands for the descriptor itself. -/
def AT_EMPTY_PATH : CInt := 0x1000
/-- The attributes are set of everything mounted below, too. -/
def AT_RECURSIVE : CInt := 0x8000
/-- The descriptor does not outlive an `execve`. -/
def OPEN_TREE_CLOEXEC : CInt := 0x80000
/-- The mount is taken off at once, and given up when nothing uses it any more. -/
def MNT_DETACH : CInt := 2

/-- `open_tree(2)` at the working directory; the answer is the new descriptor. -/
def openTree (path : String) (flags : CInt) : Sys Nat := do
  let cPath ← orFail (cString path)
  check (← sys (.openTree cPath flags))

/-- `mount_setattr(2)`. -/
def mountSetattr (dir : DirFd) (path : String) (flags : CInt) (attr : MountAttr) :
    Sys Unit := do
  let cPath ← orFail (cString path)
  check (← sys (.mountSetattr dir cPath flags attr))

/-- `mount_setattr` of an open tree. -/
def mountSetattrFd (fd : Nat) (recursive : Bool) (attr : MountAttr) : Sys Unit :=
  mountSetattr (.tree fd) ""
    (if recursive then AT_EMPTY_PATH ||| AT_RECURSIVE else AT_EMPTY_PATH) attr

/-- A string that `CString::new` rejects becomes the empty string. -/
def unpack (data : Option String) : String :=
  match data.map cString with
  | some (.ok s) => s
  | _ => ""

/-- `{:?}` of an `Option<String>`. -/
def debugOption : Option String → String
  | none => "None"
  | some s => "Some(" ++ s.quote ++ ")"

/-- `{:x}`. -/
def lowerHex (v : U64) : String := String.ofList (Nat.toDigits 16 v.toNat)

namespace MountSpec

/-- Whether a file is to be bound; a source that cannot be read counts as a directory. -/
def sourceIsFile (spec : MountSpec) : Sys Bool :=
  match spec.bind, spec.source with
  | true, some s => do
    match ← sys (.fsMetadata s) with
    | .ok m => pure !m.isDir
    | .error _ => pure false
  | _, _ => pure false

/-- Makes the mount point: a file where a file is to be bound, else a directory. -/
def createTarget (spec : MountSpec) : Sys Unit := do
  if ← spec.sourceIsFile then do
    Prog.whenSome (pathParent spec.target) fun parent => do
      check (← sys (.fsCreateDirAll parent))
    check (← sys (.fsFileCreate spec.target))
  else do
    check (← sys (.fsCreateDirAll spec.target))

/-- The flag word of the `mount(2)` call. -/
def mountFlags (spec : MountSpec) : U64 :=
  MS_SILENT ||| (if spec.bind then MS_BIND else 0) ||| (if spec.unshare then MS_PRIVATE else 0)
    ||| (if spec.recurse then MS_REC else 0)

/-- The attributes of the `mount_setattr(2)` call; there is none if no attribute is set. -/
def attrSet (spec : MountSpec) : U64 :=
  (if spec.safe then MOUNT_ATTR_NOSUID ||| MOUNT_ATTR_NODEV ||| MOUNT_ATTR_NOEXEC else 0)
    ||| (if spec.readOnly then MOUNT_ATTR_RDONLY else 0)

/-- A mount that is to be safe or read-only has attributes to set. -/
theorem attrSet_ne_zero {spec : MountSpec} :
    spec.attrSet ≠ 0 ↔ spec.safe = true ∨ spec.readOnly = true := by
  unfold attrSet
  cases spec.safe <;> cases spec.readOnly <;> decide

/-- The `source` argument of the `mount(2)` call. -/
def sourceArg (spec : MountSpec) : Option String :=
  if spec.source.isNone then none else some (unpack spec.source)

/-- The `fstype` argument of the `mount(2)` call; a bind mount has none. -/
def fstypeArg (spec : MountSpec) : Option String :=
  if spec.fstype.isNone ∨ spec.bind then none else some (unpack spec.fstype)

/-- The `data` argument of the `mount(2)` call. -/
def dataArg (spec : MountSpec) : Sys (Option String) :=
  match spec.data with
  | none => pure none
  | some d => some <$> (orFail (cString d)).mapErr (Err.context
      ("mount data '" ++ d ++ "' for " ++ spec.target ++ " contains an interior NUL byte"))

/-- `MountSpec::mount`: the mount point if it is asked for, the mount, then its attributes. -/
def mount (spec : MountSpec) : Sys Unit := do
  let target ← orFail (cString spec.target)
  Prog.when spec.createMountpoint spec.createTarget
  let data ← spec.dataArg
  (check (← sys (.mount spec.sourceArg target spec.fstypeArg spec.mountFlags data))).mapErr
    (Err.context ("unable to mount: source=" ++ debugOption spec.source ++
      " target=" ++ spec.target.quote ++ " fstype=" ++ debugOption spec.fstype ++
      " bind=" ++ toString spec.bind ++ " flags=0x" ++ lowerHex spec.mountFlags))
  Prog.when (spec.attrSet ≠ 0)
    (mountSetattr .cwd spec.target (if spec.recurse then AT_RECURSIVE else 0)
      { attrSet := spec.attrSet, attrClr := 0 })

/-- Makes a mount point read-only after the fact. -/
def sealMount (spec : MountSpec) : Sys Unit := do
  match spec.source with
  | none => Prog.fail (.msg "source missing")
  | some source => do
    let tree ← openTree source OPEN_TREE_CLOEXEC
    mountSetattrFd tree false { attrSet := MOUNT_ATTR_RDONLY, attrClr := 0 }

/-- Makes the mount point the new root and unmounts the old one. -/
def pivot (spec : MountSpec) : Sys Unit := do
  check (← sys (.setCurrentDir spec.target))
  (check (← sys (.pivotRoot "." "."))).mapErr (Err.context "failed to pivot_root")
  (check (← sys (.umount2 "." MNT_DETACH))).mapErr (Err.context "failed to unmount old root")
  check (← sys (.setCurrentDir "/"))

end MountSpec

/-- Joins a container-absolute path under the rootfs with one separator at the seam. -/
def joinRootfs (rootfs path : String) : String :=
  trimEndSlashes rootfs ++ "/" ++ trimStartSlashes path

/-- The mount that masks `target`: an empty read-only tmpfs over a directory, `/dev/null`
    over anything else. -/
def maskSpec (target : String) (m : Metadata) : MountSpec :=
  if m.isDir then
    { source := some "tmpfs", target := target, fstype := some "tmpfs", bind := false,
      recurse := false, unshare := false, safe := true, createMountpoint := false,
      readOnly := true, data := some "size=0k" }
  else
    { source := some "/dev/null", target := target, fstype := none, bind := true,
      recurse := false, unshare := false, safe := false, createMountpoint := false,
      readOnly := false, data := none }

/-- Masks one container path; a path that does not exist is skipped. -/
def maskPath (rootfs path : String) : Sys Unit := do
  let target := joinRootfs rootfs path
  match ← sys (.fsSymlinkMetadata target) with
  | .ok m => (maskSpec target m).mount
  | .error e =>
    if e = Errno.ENOENT then pure ()
    else Prog.fail (Err.context ("stat " ++ target) (.os e))

/-- The mount that makes `target` read-only: a recursive bind onto itself. -/
def readonlySpec (target : String) : MountSpec :=
  { source := some target, target := target, fstype := some "none", bind := true,
    recurse := true, unshare := false, safe := false, createMountpoint := false,
    readOnly := true, data := none }

/-- Makes one container path read-only; a path that does not exist is skipped. -/
def makeReadonly (rootfs path : String) : Sys Unit := do
  let target := joinRootfs rootfs path
  match ← sys (.fsSymlinkMetadata target) with
  | .ok _ => (readonlySpec target).mount
  | .error e =>
    if e = Errno.ENOENT then pure ()
    else Prog.fail (Err.context ("stat " ++ target) (.os e))

end Styrolite
