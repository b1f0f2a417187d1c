import Styrolite.Native.Builder
import Styrolite.Native.Launch

/-!
# `styrojail`

The parsers of `--mount` and `--limit`, the mount specification that is made of a
mount given so, and `main` of `bin/styrojail.rs`, to which the parsed command line is
given. What it reads of the process it runs in is answers.
-/

namespace Styrolite

/-- A limit as it is given on the command line. -/
structure ResourceLimit where
  key : String
  value : String
  deriving DecidableEq, Repr

/-- A mount as it is given on the command line. -/
structure CliMountSpec where
  hostpath : String
  jailpath : String
  readWrite : Bool
  deriving DecidableEq, Repr

/-- `str::split_once`: what is before the first separator and what is after it. -/
def splitOnce (sep : Char) (cs : List Char) : Option (List Char × List Char) :=
  match cs.dropWhile (· ≠ sep) with
  | [] => none
  | _ :: rest => some (cs.takeWhile (· ≠ sep), rest)

/-- `parse_mount`: `/hostpath:/jailpath`, and `:rw` or nothing after it. -/
def parseMount (s : String) : Except Err CliMountSpec :=
  match s.toList.splitOn ':' with
  | hostpath :: jailpath :: parts =>
    if 1 < parts.length then .error (.msg "mount must look like /hostpath:/jailpath[:rw]")
    else if hostpath = [] ∨ jailpath = [] then
      .error (.msg "mount must look like /hostpath:/jailpath[:rw]")
    else match parts.head? with
      | none => .ok ⟨String.ofList hostpath, String.ofList jailpath, false⟩
      | some mode =>
        if mode = ['r', 'w'] then .ok ⟨String.ofList hostpath, String.ofList jailpath, true⟩
        else .error (.msg "only ':rw' is supported as a mount modifier")
  | _ => .error (.msg "mount must look like /hostpath:/jailpath[:rw]")

/-- `parse_resource_limit`: what stands before the first `=`, and what stands after it. -/
def parseResourceLimit (s : String) : Except Err ResourceLimit :=
  match splitOnce '=' s.toList with
  | none => .error (.msg "limit must look like key=value")
  | some (k, v) =>
    if k = [] then .error (.msg "limit key cannot be empty")
    else .ok ⟨String.ofList k, String.ofList v⟩

/-- `to_styrolite_mount`: a bind, for which the mount point is made. -/
def toStyroliteMount (m : CliMountSpec) : MountSpec :=
  { source := some m.hostpath, target := m.jailpath, fstype := none, bind := true,
    recurse := false, unshare := false, safe := false, createMountpoint := true,
    readOnly := !m.readWrite, data := none }

/-- The command line. -/
structure Cli where
  styroliteBin : String
  noDefaultMounts : Bool
  rootfs : String
  noRootfsReadonly : Bool
  mount : List CliMountSpec
  limit : List ResourceLimit
  program : String
  args : List String
  deriving DecidableEq, Repr

/-- What styrojail asks of its environment. -/
inductive EnvCall where
  | geteuid
  | getegid
  | processId
  | currentDir
  deriving DecidableEq, Repr

/-- `env::current_dir` answers with a path, or with `none` for one that is not UTF-8. -/
@[reducible] def EnvCall.Answer : EnvCall → Type
  | geteuid => UInt32
  | getegid => UInt32
  | processId => Nat
  | currentDir => Except Errno (Option String)

/-- Questions to the environment and their answers. -/
abbrev environ : Interface := ⟨EnvCall, EnvCall.Answer⟩

/-- Code of the process that is `styrojail`. -/
abbrev Jail (α : Type) := Prog (environ.or (host.or (sink UInt8 IoError))) Err α

/-- A question of styrojail's. -/
def envSys (c : EnvCall) : Jail c.Answer := Prog.sysInl (I := environ) c

/-- `current_ids`. -/
def currentIds : Jail (UInt32 × UInt32) := do
  let uid : UInt32 ← envSys .geteuid
  let gid : UInt32 ← envSys .getegid
  pure (uid, gid)

/-- `build_mounts`: the working directory first, unless it is left out. -/
def buildMounts (cli : Cli) : Jail (List CliMountSpec) :=
  if cli.noDefaultMounts then pure cli.mount
  else do
    let cwd : Option String ←
      Prog.check (fun e => Err.context "failed to get CWD" (.os e)) (← envSys .currentDir)
    match cwd with
    | none => Prog.fail (.msg "CWD is not valid UTF-8")
    | some cwdStr =>
      pure ({ hostpath := cwdStr, jailpath := cwdStr, readWrite := true } :: cli.mount)

/-- `main` of `bin/styrojail.rs`. -/
def styrojailMain (pieces : Runner.Config → List (List UInt8)) (cli : Cli) : Jail Unit := do
  let (uid, gid) ← currentIds
  let pid : Nat ← envSys .processId
  let builder := CreateRequestBuilder.new
    |>.setRootfs cli.rootfs
    |>.setRootfsReadonly (!cli.noRootfsReadonly)
    |>.setSkipTwoStageUserns true
    |>.setExecutable cli.program
    |>.setUid uid
    |>.setGid gid
    |>.setSetgroupsDeny true
    |>.setWorkloadId ("styrojail-" ++ toString pid)
    |>.pushUidMapping { baseNsid := uid, baseHostid := uid, remapCount := 1 }
    |>.pushGidMapping { baseNsid := gid, baseHostid := gid, remapCount := 1 }
    |>.pushNamespace .uts
    |>.pushNamespace .time
    |>.pushNamespace .pid
    |>.pushNamespace .user
    |>.pushNamespace .ipc
    |>.pushNamespace .mount
  let (builder, cli) ←
    if cli.rootfs = "/" then do
      let cwd : Option String ← Prog.check Err.os (← envSys .currentDir)
      pure (builder.setWorkingDirectory (cwd.getD "/"), cli)
    else pure (builder, { cli with noDefaultMounts := true })
  let builder := builder.setArguments cli.args
  let mounts ← buildMounts cli
  let builder := mounts.foldl (fun b m => b.pushMount (toStyroliteMount m)) builder
  let builder := cli.limit.foldl (fun b lim => b.pushResourceLimit lim.key lim.value) builder
  (Runner.exec pieces cli.styroliteBin builder.toRequest).inr
  Prog.fail (.msg ("styrolite runner '" ++ cli.styroliteBin ++
    "' returned without exec'ing the workload"))

end Styrolite
