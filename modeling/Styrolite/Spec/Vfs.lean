import Mathlib.Data.List.DropRight
import Styrolite.ForStd.LocalRules
import Styrolite.ForStd.MountSpace
import Styrolite.Native.Mount
import Styrolite.Spec.Location

/-!
# The mounts and files of a process

The mount namespace of a process and the trees of files in it, and the rules of
Linux for the calls that `pivot_fs` makes (`vfsRules`). A call may be refused at
any time, for want of a permission or of space as well as for a name that is too
long. It has then changed nothing, except that `fs::create_dir_all` may have made
some of the directories on the way.

Other processes change nothing meanwhile. The types, sources and options that the
kernel knows are those of `mountable`, and a mount of a type other than `tmpfs`
shows the file system that `device` gives, of which nothing is known.
-/

namespace Styrolite

/-! ## Paths -/

/-- What is in a file system: `special` stands for pipes and other devices. -/
inductive Node where
  | dir
  | file (content : List UInt8)
  | nullDevice
  | special
  | socket
  | symlink (target : String)
  deriving DecidableEq, Repr

/-- What a name between separators asks of a walk. -/
def component (c : FileName) : Component FileName :=
  if c = [] ∨ c = ['.'] then .stay else if c = ['.', '.'] then .up else .down c

/-- The components of a path, with an empty one where two separators meet. -/
def steps (path : String) : List (Component FileName) := (path.toList.splitOn '/').map component

/-- The steps of a path are those before and those after a separator in it. -/
theorem steps_append_slash (s t : String) : steps (s ++ "/" ++ t) = steps s ++ steps t := by
  have hlist : (s ++ "/" ++ t).toList = s.toList ++ '/' :: t.toList := by simp
  rw [steps, hlist, List.splitOn_append_cons_self, List.map_append]
  rfl

/-- Every path has steps, if only to stay. -/
theorem steps_ne_nil (path : String) : steps path ≠ [] := by
  simp [steps]

/-- As far as `fs::create_dir_all` makes the way to a path. Nothing can be made at a path that ends
    in `.`, and its parent ends before the last name. -/
def dirSteps (path : String) : List (Component FileName) :=
  let names := path.toList.splitOn '/'
  if (names.rdropWhile fun c => c = []).getLast? = some ['.'] then
    ((popComponent names).getD []).map component
  else names.map component

/-- The directories are made on the way that the path goes. -/
theorem dirSteps_initial (path : String) : dirSteps path <+: steps path := by
  unfold dirSteps steps
  dsimp only
  split
  · refine List.IsPrefix.map component ?_
    cases hpop : popComponent (path.toList.splitOn '/') with
    | none => exact List.nil_prefix
    | some front => exact (popComponent_eq_some hpop).1
  · exact List.prefix_refl _

/-- Making the directories takes no more steps than walking the path. -/
theorem length_dirSteps_le (path : String) : (dirSteps path).length ≤ (steps path).length :=
  (dirSteps_initial path).length_le

/-- The first steps of the way are those of the path. -/
theorem take_dirSteps {path : String} {i : Nat} (hi : i ≤ (dirSteps path).length) :
    (dirSteps path).take i = (steps path).take i := by
  conv_lhs => rw [List.prefix_iff_eq_take.1 (dirSteps_initial path)]
  rw [List.take_take, Nat.min_eq_left hi]

/-- What a walk sees of a node: whether it has entries, and where it leads. -/
def Node.entry : Node → Entry FileName
  | dir => .dir
  | file _ => .leaf
  | nullDevice => .leaf
  | special => .leaf
  | socket => .leaf
  | symlink target => .link ⟨IsAbsolute target, steps target⟩

/-- How many symbolic links Linux follows. -/
def MAXSYMLINKS : Nat := 40

/-! ## The state -/

/-- The mounts and files as one process sees them. -/
structure Vfs where
  mounts : MountTable FileName
  node : Nat → List FileName → Option Node
  /-- How many file systems there are. -/
  fsCount : Nat
  /-- Whether a mount with the number can be made with this type, source and options. -/
  mountable : Nat → String → Option String → Option String → Bool
  /-- What the mount with the number shows, if it is made with this type and source. -/
  device : Nat → Option String → Option String → Nat
  readOnly : Nat → Bool
  root : Place FileName
  cwd : Place FileName
  /-- The descriptors of `open_tree(2)`. -/
  trees : Nat → Option (Place FileName)
  /-- How many directories `fs::create_dir_all` gets to where it is refused. -/
  headway : Nat
  fs_lt : ∀ {n m}, mounts.mount n = some m → m.fs < fsCount
  device_lt : ∀ n fstype source, device n fstype source < fsCount
  has_root : mounts.Has root
  has_cwd : mounts.Has cwd

namespace Vfs

variable (s : Vfs)

/-- What is in the file systems, as far as a path is concerned. -/
def files (fs : Nat) (q : List FileName) : Option (Entry FileName) := (s.node fs q).map Node.entry

/-- The files as a process with the root directory `r` sees them. -/
def space (r : Place FileName) : PathSpace (Place FileName) FileName := s.mounts.space s.files r

/-- What a walk finds at a place. -/
def entry (l : Place FileName) : Option (Entry FileName) := s.mounts.entry s.files l

/-- What node is at a place. -/
def nodeAt (l : Place FileName) : Option Node := (s.mounts.mount l.1).bind fun m => s.node m.fs l.2

/-- Whether a place is a directory. -/
def isDir (l : Place FileName) : Bool := s.entry l = some .dir

/-- There is a regular file at the place. -/
def isFile (l : Place FileName) : Bool :=
  match s.nodeAt l with
  | some (.file _) => true
  | _ => false

/-- Where the path is looked up from. -/
def start (path : String) : Place FileName := if IsAbsolute path then s.root else s.cwd

/-- Where a path leads, its last link followed or not. -/
def resolve (follow : Bool) (path : String) : Arrival (Place FileName) FileName :=
  if path = "" ∨ HasNul path then .missing
  else (s.space s.root).walk follow MAXSYMLINKS (s.start path) (steps path)

/-- The path leads to `l`. -/
def Leads (path : String) (l : Place FileName) : Prop := ∃ k, s.resolve true path = .at l k

/-- The place is the root of a mount. -/
def isMountRoot (l : Place FileName) : Bool :=
  match s.mounts.mount l.1 with
  | some m => m.root = l.2
  | none => false

/-! ## What the calls do -/

/-- A new mount, covering `dst`. -/
def attach (fs : Nat) (root : List FileName) (dst : Place FileName) (readOnly : Bool) : Vfs :=
  if h : fs < s.fsCount then
    { s with
      mounts := s.mounts.attach fs root dst
      readOnly := fun n => if n = s.mounts.size then readOnly else s.readOnly n
      fs_lt := fun hm => (MountTable.fs_of_attach hm).elim (fun heq => heq ▸ h) s.fs_lt
      has_root := MountTable.extends_attach.has s.has_root
      has_cwd := MountTable.extends_attach.has s.has_cwd }
  else s

/-- A bind mount. -/
def bind (src dst : Place FileName) : Vfs :=
  match s.mounts.mount src.1 with
  | some m => s.attach m.fs src.2 dst (s.readOnly src.1)
  | none => s

/-- A recursive bind mount: each mount is copied with its flags. -/
def bindRec (src dst : Place FileName) : Vfs :=
  { s with
    mounts := s.mounts.clone src dst
    readOnly := fun n => if n < s.mounts.size then s.readOnly n else s.readOnly (n - s.mounts.size)
    fs_lt := fun hm => by
      obtain ⟨k, m, hk, hfs⟩ := MountTable.fs_of_clone hm
      rw [hfs]
      exact s.fs_lt hk
    has_root := MountTable.extends_clone.has s.has_root
    has_cwd := MountTable.extends_clone.has s.has_cwd }

/-- One more file system, an empty directory. -/
def addTmpfs : Vfs :=
  { s with
    node := fun fs q => if fs = s.fsCount then if q = [] then some .dir else none else s.node fs q
    fsCount := s.fsCount + 1
    fs_lt := fun hm => Nat.lt_succ_of_lt (s.fs_lt hm)
    device_lt := fun n fstype source => Nat.lt_succ_of_lt (s.device_lt n fstype source) }

/-- A mount of a file system of its own. -/
def mountNew (fstype source : Option String) (dst : Place FileName) : Vfs :=
  if fstype = some "tmpfs" then s.addTmpfs.attach s.fsCount [] dst false
  else s.attach (s.device s.mounts.size fstype source) [] dst false

/-- A place where what is at `src` may be mounted. -/
def fits (src dst : Place FileName) : Bool :=
  s.entry src = s.entry dst ∧ (s.entry dst = some .dir ∨ s.entry dst = some .leaf)

/-- Whether `mount(2)` may succeed, and what it then makes of the state. A new mount needs a type. -/
def mount (source : Option String) (target : String) (fstype : Option String) (flags : U64)
    (data : Option String) : Option Vfs :=
  match s.resolve true target with
  | .at y _ =>
    if flags &&& MS_BIND ≠ 0 then
      match source.map (s.resolve true) with
      | some (.at x _) =>
        if s.fits x (s.mounts.top y) then
          if flags &&& MS_REC ≠ 0 then some (s.bindRec x (s.mounts.top y))
          else some (s.bind x (s.mounts.top y))
        else none
      | _ => none
    else if flags &&& MS_PRIVATE ≠ 0 then
      -- nothing is known here of how mounts are propagated
      if s.isMountRoot y then some s else none
    else if s.isDir (s.mounts.top y) ∧
        (fstype.any fun t => s.mountable s.mounts.size t source data) then
      some (s.mountNew fstype source (s.mounts.top y))
    else none
  | _ => none

/-- The mount whose flags `mount_setattr(2)` changes, at its root. -/
def attrPlace (dir : DirFd) (path : String) : Option (Place FileName) :=
  match dir with
  | .tree fd => if path = "" then s.trees fd else none
  | .cwd =>
    match s.resolve true path with
    | .at l _ => some l
    | _ => none

/-- The mounts whose flags the call changes. -/
def reaches (dir : DirFd) (path : String) (flags : CInt) (n : Nat) : Bool :=
  match s.attrPlace dir path with
  | some l => if flags &&& AT_RECURSIVE ≠ 0 then s.mounts.under l n else n = l.1
  | none => false

/-- `mount_setattr(2)`: only at the root of a mount, and with what is below if asked for. -/
def mountSetattr (dir : DirFd) (path : String) (flags : CInt) (attr : MountAttr) : Option Vfs :=
  match s.attrPlace dir path with
  | some l =>
    if s.isMountRoot l then
      some { s with
        readOnly := fun n =>
          if s.reaches dir path flags n then
            s.readOnly n && attr.attrClr &&& MOUNT_ATTR_RDONLY == 0 ||
              attr.attrSet &&& MOUNT_ATTR_RDONLY != 0
          else s.readOnly n }
    else none
  | none => none

/-- `open_tree(2)`: the descriptor stands for the place. -/
def openTree (path : String) (fd : Nat) : Option Vfs :=
  match s.resolve true path with
  | .at l _ => some { s with trees := fun fd' => if fd' = fd then some l else s.trees fd' }
  | _ => none

/-- The free name in a directory is given to `nd`. -/
def create (dir : Place FileName) (name : FileName) (nd : Node) : Vfs :=
  match s.mounts.mount dir.1 with
  | some m =>
    { s with node := fun fs q => if fs = m.fs ∧ q = dir.2 ++ [name] then some nd else s.node fs q }
  | none => s

/-- `mkdir(2)` does not follow a link at the end of the path. -/
def mkdir (l : Place FileName) (cs : List (Component FileName)) : Vfs :=
  match (s.space s.root).walk false MAXSYMLINKS l cs with
  | .free dir name => if s.readOnly dir.1 then s else s.create dir name .dir
  | _ => s

/-- The directories on the way that are missing, as far as the first `n` components. -/
def makeDirs (path : String) (n : Nat) : Vfs :=
  if HasNul path then s
  else ((dirSteps path).inits.take n).foldl (fun s' cs => s'.mkdir (s.start path) cs) s

/-- Makes each directory on the way that is missing. -/
def createDirAll (path : String) : Option Vfs :=
  let s' := s.makeDirs path ((dirSteps path).length + 1)
  match s'.resolve true path with
  | .at l _ => if s'.isDir l then some s' else none
  | _ => if path = "" then some s' else none

/-- A regular file loses what is in it. -/
def truncate (l : Place FileName) : Vfs :=
  match s.mounts.mount l.1, s.nodeAt l with
  | some m, some (.file _) =>
    { s with node := fun fs q => if fs = m.fs ∧ q = l.2 then some (.file []) else s.node fs q }
  | _, _ => s

/-- Opens a file for writing, with `O_CREAT` and `O_TRUNC`. Where the mount is read-only that goes
    wrong for a regular file, but not for a device or a pipe. There is no opening a socket. -/
def createFile (path : String) : Option Vfs :=
  match s.resolve true path with
  | .free dir name => if s.readOnly dir.1 then none else some (s.create dir name (.file []))
  | .at l _ =>
    if s.entry l = some .leaf ∧ s.nodeAt l ≠ some .socket ∧ ¬ (s.isFile l ∧ s.readOnly l.1) then
      some (s.truncate l)
    else none
  | _ => none

/-- `chdir(2)`. -/
def setCurrentDir (path : String) : Option Vfs :=
  match s.resolve true path with
  | .at l _ =>
    if h : s.isDir l ∧ s.mounts.Has l then some { s with cwd := l, has_cwd := h.2 } else none
  | _ => none

/-- The old root is out of sight at once, so that there is nothing for `umount2(2)` to do. -/
def pivotRoot (newRoot : String) : Option Vfs :=
  match s.resolve true newRoot with
  | .at l _ =>
    if h : (s.isDir l ∧ s.isMountRoot l ∧ l.1 ≠ s.root.1) ∧ s.mounts.Has l then
      some { s with
        root := l
        cwd := if s.cwd = s.root then l else s.cwd
        has_root := h.2
        has_cwd := by
          split
          · exact h.2
          · exact s.has_cwd }
    else none
  | _ => none

/-! ## The rules -/

/-- What `fs::metadata`, or `fs::symlink_metadata`, finds. -/
def stat (follow : Bool) (path : String) : Option Metadata :=
  match s.resolve follow path with
  | .at l _ => some ⟨s.isDir l⟩
  | _ => none

/-- There is nothing at the path, which is one that can be passed on. -/
def isMissing (path : String) : Bool :=
  if HasNul path then false
  else match s.resolve false path with
    | .free _ _ => true
    | .missing => true
    | _ => false

/-- The answers that a process may get. -/
def allows (c : Call) (a : c.Answer) : Prop :=
  match c, a with
  | .mount source target fstype flags data, .ok () =>
    (s.mount source target fstype flags data).isSome
  | .mountSetattr dir path flags attr, .ok () => (s.mountSetattr dir path flags attr).isSome
  | .openTree path _, .ok fd => (s.openTree path fd).isSome
  | .fsCreateDirAll path, .ok () => (s.createDirAll path).isSome
  | .fsFileCreate path, .ok () => (s.createFile path).isSome
  | .fsMetadata path, .ok m => s.stat true path = some m
  | .fsSymlinkMetadata path, .ok m => s.stat false path = some m
  | .fsSymlinkMetadata path, .error e => e = Errno.ENOENT → s.isMissing path
  | .setCurrentDir path, .ok () => (s.setCurrentDir path).isSome
  | .pivotRoot newRoot _, .ok () => (s.pivotRoot newRoot).isSome
  | _, _ => True

/-- What a call makes of the state. -/
def next (c : Call) (a : c.Answer) : Vfs :=
  match c, a with
  | .mount source target fstype flags data, .ok () =>
    (s.mount source target fstype flags data).getD s
  | .mountSetattr dir path flags attr, .ok () => (s.mountSetattr dir path flags attr).getD s
  | .openTree path _, .ok fd => (s.openTree path fd).getD s
  | .fsCreateDirAll path, .ok () => (s.createDirAll path).getD s
  | .fsCreateDirAll path, .error _ => s.makeDirs path s.headway
  | .fsFileCreate path, .ok () => (s.createFile path).getD s
  | .setCurrentDir path, .ok () => (s.setCurrentDir path).getD s
  | .pivotRoot newRoot _, .ok () => (s.pivotRoot newRoot).getD s
  | _, _ => s

end Vfs

/-- The rules of Linux for mounts and files. -/
def vfsRules : LocalRules calls Vfs where
  allows := Vfs.allows
  next := Vfs.next

/-- A host with one file system. -/
def Vfs.host (node : List FileName → Option Node) : Vfs where
  mounts :=
    { size := 1
      mount := fun n => if n = 0 then some ⟨0, [], none⟩ else none
      older := by
        intro n m hm
        split at hm
        · next h0 =>
          cases hm
          exact ⟨by omega, fun hp => by cases hp⟩
        · cases hm }
  node := fun _ => node
  fsCount := 1
  mountable := fun _ _ _ _ => true
  device := fun _ _ _ => 0
  readOnly := fun _ => false
  root := (0, [])
  cwd := (0, [])
  trees := fun _ => none
  headway := 0
  fs_lt := by
    intro n m hm
    dsimp only at hm
    split at hm
    · cases hm
      exact Nat.zero_lt_one
    · cases hm
  device_lt := fun _ _ _ => Nat.zero_lt_one
  has_root := ⟨_, rfl, List.prefix_refl _⟩
  has_cwd := ⟨_, rfl, List.prefix_refl _⟩

end Styrolite
