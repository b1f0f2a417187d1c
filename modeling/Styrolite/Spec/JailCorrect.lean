import Styrolite.Native.Styrojail
import Styrolite.Spec.BuilderCorrect
import Styrolite.Spec.LaunchCorrect
import Styrolite.Spec.ValidateCorrect

/-!
# The jail of `styrojail`

What `styrojail` is told on its command line and learns of the process it runs in
(`Surroundings`) makes one request (`Cli.jail`), and with it alone the given
styrolite is started. The workload of that request is the program of the command
line, with its arguments and an empty environment.

## Key results

- `styrojail_launch`: the started styrolite runs `wrap` of the jail's request or nothing
- `Cli.jail_runs`: no other program is executed, and where no call is refused that one is
-/

namespace Styrolite

open Prog Interface Folds

/-- What `styrojail` learns of the process it runs in. The directory is asked for once as the
    working directory and once as what is mounted. -/
structure Surroundings where
  uid : UInt32
  gid : UInt32
  pid : Nat
  directory : Option String
  mountDirectory : String

namespace Cli

variable (cli : Cli) (s : Surroundings)

/-- The questions and their answers. -/
def asked : List environ.Event :=
  [⟨.geteuid, s.uid⟩, ⟨.getegid, s.gid⟩, ⟨.processId, s.pid⟩] ++
    if cli.rootfs = "/" then
      ⟨.currentDir, .ok s.directory⟩ ::
        if cli.noDefaultMounts then [] else [⟨.currentDir, .ok (some s.mountDirectory)⟩]
    else []

/-- The mounts of the jail. Only one that has the host's root gets the directory. -/
def jailMounts : List CliMountSpec :=
  if cli.rootfs = "/" ∧ cli.noDefaultMounts = false then
    { hostpath := s.mountDirectory, jailpath := s.mountDirectory, readWrite := true } :: cli.mount
  else cli.mount

/-- The request for the jail. -/
def jail : CreateRequest where
  workloadId := some ("styrojail-" ++ toString s.pid)
  rootfs := some cli.rootfs
  rootfsReadonly := some (!cli.noRootfsReadonly)
  exec :=
    { executable := some cli.program
      arguments := some cli.args
      workingDirectory := if cli.rootfs = "/" then some (s.directory.getD "/") else none
      environment := none
      uid := some s.uid
      gid := some s.gid
      supplementalGids := none
      processLimits := none
      noNewPrivs := false
      seccomp := none
      apparmor := none
      oomScoreAdj := none }
  uidMappings := some [{ baseNsid := s.uid, baseHostid := s.uid, remapCount := 1 }]
  gidMappings := some [{ baseNsid := s.gid, baseHostid := s.gid, remapCount := 1 }]
  mounts := unlessNil ((cli.jailMounts s).map toStyroliteMount)
  maskedPaths := none
  readonlyPaths := none
  limits := mapOf (cli.limit.map fun lim => (lim.key, lim.value))
  cgroupfs := none
  hostname := none
  mutations := none
  namespaces := some [.uts, .time, .pid, .user, .ipc, .mount]
  setgroupsDeny := some true
  capabilities := none
  skipTwoStageUserns := some true

end Cli

section

variable {pieces : Runner.Config → List (List UInt8)} {parse : List UInt8 → Option Runner.Config}
  {cli : Cli} {h : List (environ.or (host.or (sink UInt8 IoError))).Event}

/-- The mounts are pushed in their order. -/
theorem foldl_pushMount (ms : List CliMountSpec) (b : CreateRequestBuilder)
    (hb : b.config.mounts = none) :
    ms.foldl (fun b m => b.pushMount (toStyroliteMount m)) b =
      ⟨{ b.config with mounts := unlessNil (ms.map toStyroliteMount) }⟩ := by
  induction ms using List.reverseRecOn with
  | nil =>
    rw [List.map_nil, unlessNil_nil, ← hb]
    rfl
  | append_singleton ms m ih =>
    rw [List.foldl_append, ih, List.map_append, List.map_singleton, unlessNil_concat]
    rfl

/-- The limits are pushed in their order, so that the last of a key counts. -/
theorem foldl_pushResourceLimit (ls : List ResourceLimit) (b : CreateRequestBuilder)
    (hb : b.config.limits = none) :
    ls.foldl (fun b lim => b.pushResourceLimit lim.key lim.value) b =
      ⟨{ b.config with limits := mapOf (ls.map fun lim => (lim.key, lim.value)) }⟩ := by
  induction ls using List.reverseRecOn with
  | nil =>
    have hempty : mapOf [] = none := rfl
    rw [List.map_nil, hempty, ← hb]
    rfl
  | append_singleton ls lim ih =>
    rw [List.foldl_append, ih, List.map_append, List.map_singleton, mapOf_concat]
    rfl

/-- The builder before its mounts and limits. -/
def jailBuilder (cli : Cli) (uid gid : UInt32) (pid : Nat) (directory : Option String) :
    CreateRequestBuilder :=
  { config := { cli.jail ⟨uid, gid, pid, directory, ""⟩ with mounts := none, limits := none } }

/-- The builder's calls make the request of the jail. -/
theorem finish_jailBuilder (cli : Cli) (s : Surroundings) {directory : Option String}
    (hdir : cli.rootfs = "/" → directory = s.directory) :
    (cli.limit.foldl (fun b lim => b.pushResourceLimit lim.key lim.value)
      ((cli.jailMounts s).foldl (fun b m => b.pushMount (toStyroliteMount m))
        (jailBuilder cli s.uid s.gid s.pid directory))).toRequest = cli.jail s := by
  -- The directory counts only in the root of the host
  have hb : jailBuilder cli s.uid s.gid s.pid directory =
      ⟨{ cli.jail s with mounts := none, limits := none }⟩ := by
    unfold jailBuilder Cli.jail
    split
    · next hroot => rw [hdir hroot]
    · rfl
  rw [hb, foldl_pushMount _ _ rfl, foldl_pushResourceLimit _ _ rfl]
  rfl

/-- The default mount is of the working directory; without one there is no request. -/
theorem buildMounts_runs {cli : Cli} {mounts : List CliMountSpec} :
    (buildMounts cli).Runs h (.ok mounts) ↔
      (cli.noDefaultMounts = true ∧ h = [] ∧ mounts = cli.mount) ∨
      cli.noDefaultMounts = false ∧ ∃ dir,
        h = [Event.inl (I := environ) ⟨.currentDir, .ok (some dir)⟩] ∧
        mounts = { hostpath := dir, jailpath := dir, readWrite := true } :: cli.mount := by
  unfold buildMounts
  -- With default mounts, or without
  split
  · next hno =>
    rw [runs_pure]
    simp [hno, eq_comm]
  · next hno =>
    rw [Bool.not_eq_true] at hno
    simp only [hno, Bool.false_eq_true, false_and, false_or, true_and]
    refine runs_sysInl_bind.trans ?_
    constructor
    · rintro ⟨a, h', rfl, hr⟩
      -- Without a directory there is nothing to mount, and `main` fails
      rcases a with e | _ | dir
      · cases (runs_fail.1 hr).2
      · cases (runs_fail.1 hr).2
      · obtain ⟨rfl, heq⟩ := runs_pure.1 hr
        cases heq
        exact ⟨dir, rfl, rfl⟩
    · rintro ⟨dir, rfl, rfl⟩
      exact ⟨.ok (some dir), [], rfl, .refl _⟩

/-- The directory the program is to start in, which `main` asks for where it has the host's root. -/
def askDirectory (cli : Cli) : Jail (Option String) :=
  if cli.rootfs = "/" then do Prog.check Err.os (← envSys .currentDir) else pure none

/-- `main` up to the request. -/
def prepareJail (cli : Cli) : Jail CreateRequest := do
  let uid : UInt32 ← envSys .geteuid
  let gid : UInt32 ← envSys .getegid
  let pid : Nat ← envSys .processId
  let directory ← askDirectory cli
  let mounts ← buildMounts { cli with
    noDefaultMounts := cli.noDefaultMounts || cli.rootfs ≠ "/" }
  let builder := mounts.foldl (fun b m => b.pushMount (toStyroliteMount m))
    (jailBuilder cli uid gid pid directory)
  pure (cli.limit.foldl (fun b lim => b.pushResourceLimit lim.key lim.value) builder).toRequest

/-- `main` prepares the request and starts the program. -/
theorem styrojailMain_eq : styrojailMain pieces cli = prepareJail cli >>= fun req =>
    (Runner.exec pieces cli.styroliteBin req).inr >>= fun _ =>
    Prog.fail (.msg ("styrolite runner '" ++ cli.styroliteBin ++
      "' returned without exec'ing the workload")) := by
  unfold styrojailMain prepareJail currentIds askDirectory
  simp only [bind_assoc, pure_bind]
  congr 1
  funext uid
  congr 1
  funext gid
  congr 1
  funext pid
  -- Only in the root of the host is a directory asked for, and are there default mounts
  split
  · next hroot =>
    simp only [hroot, ne_eq, not_true_eq_false, decide_false, Bool.or_false, jailBuilder,
      Cli.jail, ↓reduceIte, bind_assoc]
    rfl
  · next hroot =>
    simp only [hroot, ne_eq, not_false_eq_true, decide_true, Bool.or_true, jailBuilder,
      Cli.jail, ↓reduceIte, pure_bind]
    rfl

/-- The directory is asked for in the root of the host only. -/
theorem directory_runs {directory : Option String} :
    (askDirectory cli).Runs h (.ok directory) ↔
    (cli.rootfs = "/" ∧ h = [Event.inl (I := environ) ⟨.currentDir, .ok directory⟩]) ∨
      cli.rootfs ≠ "/" ∧ h = [] ∧ directory = none := by
  unfold askDirectory
  -- In the root of the host, or elsewhere
  split
  · next hroot =>
    refine runs_sysInl_bind.trans ?_
    constructor
    · rintro ⟨a, h', rfl, hr⟩
      match a with
      | .error e => cases (runs_fail.1 hr).2
      | .ok dir =>
        obtain ⟨rfl, heq⟩ := runs_pure.1 hr
        cases heq
        exact .inl ⟨hroot, rfl⟩
    · rintro (⟨-, rfl⟩ | ⟨hne, -⟩)
      · exact ⟨.ok directory, [], rfl, .refl _⟩
      · exact absurd hroot hne
  · next hroot =>
    rw [runs_pure]
    simp [hroot]

/-- What is asked for the directories, and what becomes of the answers. -/
theorem directories_runs {hd hm : List (environ.or (host.or (sink UInt8 IoError))).Event}
    (uid gid : UInt32) (pid : Nat) {directory : Option String} {mounts : List CliMountSpec}
    (hdir : (askDirectory cli).Runs hd (.ok directory))
    (hmounts : (buildMounts { cli with
      noDefaultMounts := cli.noDefaultMounts || cli.rootfs ≠ "/" }).Runs hm (.ok mounts)) :
    ∃ s : Surroundings, s.uid = uid ∧ s.gid = gid ∧ s.pid = pid ∧
      (cli.rootfs = "/" → directory = s.directory) ∧ mounts = cli.jailMounts s ∧
      .inl ⟨.geteuid, uid⟩ :: .inl ⟨.getegid, gid⟩ :: .inl ⟨.processId, pid⟩ :: (hd ++ hm) =
        (cli.asked s).map Event.inl := by
  rcases directory_runs.1 hdir with ⟨hroot, rfl⟩ | ⟨hroot, rfl, rfl⟩
  · -- in the root of the host, with default mounts or without
    rcases buildMounts_runs.1 hmounts with ⟨hno, rfl, rfl⟩ | ⟨hno, dir, rfl, rfl⟩
    · have hdefault : cli.noDefaultMounts = true := by simpa [hroot] using hno
      refine ⟨⟨uid, gid, pid, directory, ""⟩, rfl, rfl, rfl, fun _ => rfl, ?_, ?_⟩
      · simp [Cli.jailMounts, hdefault]
      · simp [Cli.asked, hroot, hdefault]
    · have hdefault : cli.noDefaultMounts = false := by simpa [hroot] using hno
      refine ⟨⟨uid, gid, pid, directory, dir⟩, rfl, rfl, rfl, fun _ => rfl, ?_, ?_⟩
      · simp [Cli.jailMounts, hroot, hdefault]
      · simp [Cli.asked, hroot, hdefault]
  · -- in another root, where there are none
    rcases buildMounts_runs.1 hmounts with ⟨-, rfl, rfl⟩ | ⟨hno, -⟩
    · refine ⟨⟨uid, gid, pid, none, ""⟩, rfl, rfl, rfl, fun hyes => absurd hyes hroot, ?_, ?_⟩
      · simp [Cli.jailMounts, hroot]
      · simp [Cli.asked, hroot]
    · simp [hroot] at hno

/-- In every surroundings the questions can be answered so. -/
theorem directories_run (cli : Cli) (s : Surroundings) : ∃ hd hm directory,
    (askDirectory cli).Runs hd (.ok directory) ∧
    (buildMounts { cli with
      noDefaultMounts := cli.noDefaultMounts || cli.rootfs ≠ "/" }).Runs hm
        (.ok (cli.jailMounts s)) ∧
    (cli.rootfs = "/" → directory = s.directory) ∧
    .inl ⟨.geteuid, s.uid⟩ :: .inl ⟨.getegid, s.gid⟩ :: .inl ⟨.processId, s.pid⟩ :: (hd ++ hm) =
        (cli.asked s).map Event.inl := by
  by_cases hroot : cli.rootfs = "/"
  · -- The first answer is the working directory and the second the default mount
    cases hdefault : cli.noDefaultMounts with
    | true =>
      refine ⟨_, [], s.directory, directory_runs.2 (.inl ⟨hroot, rfl⟩),
        buildMounts_runs.2 (.inl ⟨?_, rfl, ?_⟩), fun _ => rfl, ?_⟩
      · simp [hroot]
      · simp [Cli.jailMounts, hdefault]
      · simp [Cli.asked, hroot, hdefault]
    | false =>
      refine ⟨_, _, s.directory, directory_runs.2 (.inl ⟨hroot, rfl⟩),
        buildMounts_runs.2 (.inr ⟨?_, s.mountDirectory, rfl, ?_⟩), fun _ => rfl, ?_⟩
      · simp [hroot]
      · simp [Cli.jailMounts, hroot, hdefault]
      · simp [Cli.asked, hroot, hdefault]
  · refine ⟨[], [], none, directory_runs.2 (.inr ⟨hroot, rfl, rfl⟩),
      buildMounts_runs.2 (.inl ⟨?_, rfl, ?_⟩), fun hyes => absurd hyes hroot, ?_⟩
    · simp [hroot]
    · simp [Cli.jailMounts, hroot]
    · simp [Cli.asked, hroot]

/-- A request is prepared by asking about the surroundings, and is the jail's. -/
theorem prepareJail_runs {req : CreateRequest} : (prepareJail cli).Runs h (.ok req) ↔
    ∃ s, h = (cli.asked s).map Event.inl ∧ req = cli.jail s := by
  constructor
  · -- The questions in the order of `main`
    intro hr
    obtain ⟨uid, h₁, rfl, hr₁⟩ := runs_sysInl_bind.1 hr
    obtain ⟨gid, h₂, rfl, hr₂⟩ := runs_sysInl_bind.1 hr₁
    obtain ⟨pid, h₃, rfl, hr₃⟩ := runs_sysInl_bind.1 hr₂
    obtain ⟨directory, hd, h₄, hdir, hr₄, rfl⟩ := runs_bind_ok.1 hr₃
    obtain ⟨mounts, hm, h₅, hmounts, hr₅, rfl⟩ := runs_bind_ok.1 hr₄
    obtain ⟨rfl, heq⟩ := runs_pure.1 hr₅
    obtain ⟨s, rfl, rfl, rfl, hdirectory, rfl, hasked⟩ :=
      directories_runs uid gid pid hdir hmounts
    rw [List.append_nil]
    exact ⟨s, hasked, (Outcome.ok.inj heq).trans (finish_jailBuilder cli s hdirectory)⟩
  · rintro ⟨s, rfl, rfl⟩
    obtain ⟨hd, hm, directory, hdir, hmounts, hdirectory, hasked⟩ := directories_run cli s
    rw [← hasked, ← finish_jailBuilder cli s hdirectory]
    refine runs_sysInl_bind.2 ⟨s.uid, _, rfl, runs_sysInl_bind.2 ⟨s.gid, _, rfl,
      runs_sysInl_bind.2 ⟨s.pid, _, rfl, runs_bind_ok.2 ⟨directory, hd, hm, hdir, ?_, rfl⟩⟩⟩⟩
    exact runs_bind_ok.2 ⟨_, hm, [], hmounts, .refl _, (List.append_nil hm).symm⟩

/-- A call that is about the process itself. -/
def Asks (c : (environ.or (host.or (sink UInt8 IoError))).Call) : Prop := ∃ d : EnvCall, c = .inl d

/-- A question is asked. -/
theorem envSys_uses (d : EnvCall) : (envSys d).Uses Asks :=
  Uses.sys (I := environ.or (host.or (sink UInt8 IoError))) ⟨d, rfl⟩

/-- Before there is a request nothing but questions is asked. -/
theorem prepareJail_uses : (prepareJail cli).Uses Asks := by
  unfold prepareJail askDirectory buildMounts
  refine .bind (envSys_uses .geteuid) fun uid => .bind (envSys_uses .getegid) fun gid =>
    .bind (envSys_uses .processId) fun pid => .bind ?_ fun directory => .bind ?_ fun _ => .pure _
  · split
    · exact .bind (envSys_uses .currentDir) fun _ => .check _ _
    · exact .pure _
  · split
    · exact .pure _
    · refine .bind (envSys_uses .currentDir) fun _ => .bind (.check _ _) fun cwd => ?_
      cases cwd
      · exact .fail _
      · exact .pure _

/-- The program is started with the request that the command line and the answers make, if they
    make one. -/
theorem at_styrojailMain {c : (host.or (sink UInt8 IoError)).Call} :
    (styrojailMain pieces cli).At h (.inr c) ↔ ∃ s hr,
      h = (cli.asked s).map Event.inl ++ hr.map Event.inr ∧
      (Runner.exec pieces cli.styroliteBin (cli.jail s)).At hr c := by
  rw [styrojailMain_eq]
  refine at_bind.trans ?_
  constructor
  · rintro (hat | ⟨req, h₁, h₂, hprep, hat, rfl⟩)
    · -- Before there is a request no program is started
      obtain ⟨_, heq⟩ := prepareJail_uses _ _ hat
      cases heq
    · obtain ⟨s, rfl, rfl⟩ := prepareJail_runs.1 hprep
      rcases at_bind.1 hat with hin | ⟨_, _, _, _, hfail, _⟩
      · obtain ⟨hr, c', hexec, rfl, heq⟩ := at_inr.1 hin
        cases heq
        exact ⟨s, hr, rfl, hexec⟩
      · exact absurd hfail at_fail
  · -- All that is asked comes before the program
    rintro ⟨s, hr, rfl, hexec⟩
    exact .inr ⟨_, _, _, prepareJail_runs.2 ⟨s, rfl, rfl⟩,
      at_bind.2 (.inl (at_inr.2 ⟨hr, c, hexec, rfl, rfl⟩)), rfl⟩

/-- Only the given program is started, and with the file of the configuration. -/
theorem Runner.starts_of_exec {executable program path : String} {req : CreateRequest}
    {hr : List (host.or (sink UInt8 IoError)).Event}
    (hat : (Runner.exec pieces executable req).At hr (.inl (.exec program path))) :
    program = executable ∧ Runner.Starts pieces executable req hr path := by
  have hprogram : program = executable := by
    rcases at_bind.1 hat with hin | ⟨p, h₁, h₂, -, hrest, -⟩
    · exact absurd hin (Runner.not_at_configFile nofun)
    · rcases at_sysInl_bind.1 hrest with ⟨-, heq⟩ | ⟨a, h', rfl, hend⟩
      · cases heq
        rfl
      · exact absurd hend at_fail
  subst hprogram
  exact ⟨rfl, .inr hat⟩

/-- What `styrojail` starts is its styrolite, which runs `wrap` of the request that the command line
    and the answers make, or ends with an error before its first system call. -/
theorem styrojail_launch {program path : String}
    (hserde : ∀ s, (cli.asked s).map Event.inl <+: h →
      Runner.Restores pieces parse (.create (cli.jail s)))
    (hstart : (styrojailMain pieces cli).At h (.inr (.inl (.exec program path)))) :
    program = cli.styroliteBin ∧ ∃ s hr,
      h = (cli.asked s).map Event.inl ++ hr.map Event.inr ∧
      ∀ hm q, Runner.Reads path (Runner.contentAfter hr) hm →
        (styroliteMain parse [program, path]).Reaches hm q →
        (∃ hw q', (cli.jail s).wrap.Reaches hw q' ∧
          hm = Runner.loaded path (pieces (.create (cli.jail s))).flatten ++ hw.map Event.inr ∧
          q = q'.inr) ∨
        rights hm = [] ∧ ∀ r, q = .done r → ∃ e, r = .err e := by
  obtain ⟨s, hr, rfl, hexec⟩ := at_styrojailMain.1 hstart
  obtain ⟨rfl, hstarts⟩ := Runner.starts_of_exec hexec
  refine ⟨rfl, s, hr, rfl, fun hm q hread hmain => ?_⟩
  have hrestores := hserde s (List.prefix_append _ _)
  -- The file that the program reads is the text of the request
  rcases Runner.styroliteMain_started rfl hrestores hstarts hread hmain with
    ⟨htext, hw, q', hwrap, rfl, rfl⟩ | hno
  · rw [htext]
    exact .inl ⟨hw, q', hwrap, rfl, rfl⟩
  · exact .inr hno

end

/-! ## A jail in a directory -/

/-- A jail in the root of the host that runs `/bin/true`. -/
def jailSrv : Cli :=
  { styroliteBin := "styrolite", noDefaultMounts := false, rootfs := "/",
    noRootfsReadonly := false, mount := [], limit := [], program := "/bin/true", args := [] }

/-- A user in `/srv`. -/
def inSrv : Surroundings :=
  { uid := 1000, gid := 1000, pid := 7, directory := some "/srv", mountDirectory := "/srv" }

/-- `serde_json`'s pieces for the request for that jail. -/
def jailJson : List String :=
  let mapping := "[" :: (Runner.jsonObject
    [("base_nsid", ["1000"]), ("base_hostid", ["1000"]), ("remap_count", ["1"])] ++ ["]"])
  let namespaces := ["Uts", "Time", "Pid", "User", "Ipc", "Mount"].map Runner.jsonString
  Runner.jsonObject
    [("kind", Runner.jsonString "Create"),
     ("workload_id", Runner.jsonString "styrojail-7"), ("rootfs", Runner.jsonString "/"),
     ("rootfs_readonly", ["true"]),
     ("exec", Runner.jsonObject
       [("executable", Runner.jsonString "/bin/true"), ("arguments", ["[", "]"]),
        ("working_directory", Runner.jsonString "/srv"), ("environment", ["null"]),
        ("uid", ["1000"]), ("gid", ["1000"]), ("supplemental_gids", ["null"]),
        ("process_limits", ["null"]), ("no_new_privs", ["false"]), ("seccomp", ["null"]),
        ("apparmor", ["null"]), ("oom_score_adj", ["null"])]),
     ("uid_mappings", mapping), ("gid_mappings", mapping),
     ("mounts", "[" :: (Runner.jsonObject
       [("source", Runner.jsonString "/srv"), ("target", Runner.jsonString "/srv"),
        ("fstype", ["null"]), ("bind", ["true"]), ("recurse", ["false"]), ("unshare", ["false"]),
        ("safe", ["false"]), ("create_mountpoint", ["true"]), ("read_only", ["false"]),
        ("data", ["null"])] ++ ["]"])),
     ("masked_paths", ["null"]), ("readonly_paths", ["null"]), ("limits", ["null"]),
     ("cgroupfs", ["null"]), ("hostname", ["null"]), ("mutations", ["null"]),
     ("namespaces", "[" :: ((namespaces.intersperse [","]).flatten ++ ["]"])),
     ("setgroups_deny", ["true"]), ("capabilities", ["null"]),
     ("skip_two_stage_userns", ["true"])]

/-- The pieces as bytes; all characters are ASCII. -/
def jailPieces (_ : Runner.Config) : List (List UInt8) :=
  jailJson.map fun s => s.toList.map fun c => UInt8.ofNat c.toNat

/-- Finds the request for that jail in its text. -/
def parseJail : List UInt8 → Option Runner.Config :=
  Runner.parseOnly jailPieces (.create (jailSrv.jail inSrv))

/-- Its text fits into the buffer. -/
theorem jailPieces_lt :
    (jailPieces (.create (jailSrv.jail inSrv))).flatten.length < Runner.DEFAULT_BUF_SIZE := by
  decide +kernel

/-- It is not empty. -/
theorem jailPieces_ne_nil : (jailPieces (.create (jailSrv.jail inSrv))).flatten ≠ [] := by
  decide +kernel

/-- The file is written in full, and the program is started. -/
theorem styrojailMain_at_jailSrv : ∃ hr : List (host.or (sink UInt8 IoError)).Event,
    (styrojailMain jailPieces jailSrv).At
      ((jailSrv.asked inSrv).map Event.inl ++ hr.map Event.inr)
      (.inr (.inl (.exec "styrolite" "/tmp/c.json"))) := by
  have hwrite : (Runner.writeConfig jailPieces (jailSrv.jail inSrv)).Runs _ _ :=
    Runner.writeConfig_runs_of_lt rfl rfl jailPieces_lt
      (BufWriter.drain_runs_taken jailPieces_ne_nil)
  have hfile := Runner.configFile_of_runs "/tmp/c.json" hwrite
  refine ⟨_, at_styrojailMain.2 ⟨inSrv, _, rfl, at_bind.2 (.inr ⟨_, _, [], hfile, ?_, rfl⟩)⟩⟩
  exact at_sysInl_bind.2 (.inl ⟨rfl, rfl⟩)

/-- The answers tell the surroundings. -/
theorem asked_jailSrv {s : Surroundings} {hr : List (host.or (sink UInt8 IoError)).Event}
    (hpre : (jailSrv.asked s).map Event.inl <+:
      (jailSrv.asked inSrv).map Event.inl ++ hr.map Event.inr) : s = inSrv := by
  have hlength : ((jailSrv.asked s).map Event.inl :
      List (environ.or (host.or (sink UInt8 IoError))).Event).length =
        ((jailSrv.asked inSrv).map Event.inl :
          List (environ.or (host.or (sink UInt8 IoError))).Event).length := by
    simp [Cli.asked, jailSrv]
  have heq := (List.prefix_of_prefix_length_le hpre (List.prefix_append _ _)
    hlength.le).eq_of_length hlength
  have hasked := List.map_injective_iff.2 inl_injective heq
  obtain ⟨uid, gid, pid, directory, mountDirectory⟩ := s
  simpa [Cli.asked, jailSrv, inSrv] using hasked

/-- The program started by `styrojail /bin/true` becomes the jail's wrap. -/
theorem styrojail_launch_jailSrv : ∃ h,
    (styrojailMain jailPieces jailSrv).At h (.inr (.inl (.exec "styrolite" "/tmp/c.json"))) ∧
    "styrolite" = jailSrv.styroliteBin ∧ ∃ s hr,
      h = (jailSrv.asked s).map Event.inl ++ hr.map Event.inr ∧
      ∀ hm q, Runner.Reads "/tmp/c.json" (Runner.contentAfter hr) hm →
        (styroliteMain parseJail ["styrolite", "/tmp/c.json"]).Reaches hm q →
        (∃ hw q', (jailSrv.jail s).wrap.Reaches hw q' ∧
          hm = Runner.loaded "/tmp/c.json" (jailPieces (.create (jailSrv.jail s))).flatten ++
            hw.map Event.inr ∧ q = q'.inr) ∨
        rights hm = [] ∧ ∀ r, q = .done r → ∃ e, r = .err e := by
  obtain ⟨hr, hstart⟩ := styrojailMain_at_jailSrv
  refine ⟨_, hstart, styrojail_launch (fun s hpre => ?_) hstart⟩
  rw [asked_jailSrv hpre]
  exact Runner.restores_parseOnly _ _

/-! ## What runs in the jail -/

/-- The executable that is configured is the program of `execvpe`. -/
theorem ExecutableSpec.execute_at_program {exec : ExecutableSpec} {h : List Event}
    {program : String} {args env : List String}
    (hat : exec.execute.At h (.execvpe program args env)) : exec.executable = some program := by
  have hk : (Call.execvpe program args env).kind ∈ [.exec] := by simp [Call.kind]
  obtain ⟨executable, hexec, hnul, -, -⟩ := execute_at_vectors hat
  obtain ⟨k, heq, hok, herr⟩ := execute_of_not_nul hexec hnul
  rw [heq] at hat
  have henter : (sys (.enter .execute)).Uses (Call.within [.enterLate]) := uses_sys _ rfl
  obtain ⟨_, _, h₁, -, hat, -⟩ := henter.at_past (by decide) hk hat
  obtain ⟨⟨⟩, _, h₂, -, hat, -⟩ := exec.beforeExec_uses.at_past (by decide) hk hat
  rcases at_sys_bind.1 hat with ⟨-, heq⟩ | ⟨a, _, -, hat⟩
  · cases heq
    exact hexec
  · -- After the `execvpe` nothing more is called
    cases a with
    | ok u =>
      rw [hok] at hat
      exact absurd hat at_pure
    | error e =>
      obtain ⟨e', he⟩ := herr e
      rw [he] at hat
      exact absurd hat at_fail

/-- The strings of the command line are C strings. -/
structure Cli.NoNul (cli : Cli) : Prop where
  rootfs : ¬ HasNul cli.rootfs
  mount : ∀ m ∈ cli.mount, ¬ HasNul m.jailpath
  program : ¬ HasNul cli.program
  args : ∀ arg ∈ cli.args, ¬ HasNul arg

/-- The directory is a C string. -/
structure Surroundings.NoNul (s : Surroundings) : Prop where
  directory : ∀ dir, s.directory = some dir → ¬ HasNul dir
  mountDirectory : ¬ HasNul s.mountDirectory

/-- Nothing is added to an empty list. -/
theorem mem_of_unlessNil {α : Type} {a : α} {l : List α} (ha : a ∈ (unlessNil l).getD []) :
    a ∈ l := by
  cases l with
  | nil => exact ha
  | cons b l => exact ha

/-- A jail without NULs can be launched. -/
theorem Cli.jail_launchable {cli : Cli} {s : Surroundings} (hcli : cli.NoNul) (hs : s.NoNul) :
    (Request.create (cli.jail s)).Launchable := by
  refine ⟨⟨nofun, ?_, ?_, nofun⟩, nofun, ?_⟩
  · -- the program and its arguments
    rintro (⟨executable, heq, hnul⟩ | ⟨arg, harg, hnul⟩ | ⟨kv, hkv, -⟩)
    · cases heq
      exact hcli.program hnul
    · exact hcli.args arg harg hnul
    · cases hkv
  · -- the working directory
    intro wd hwd
    by_cases hroot : cli.rootfs = "/"
    · have hdir : s.directory.getD "/" = wd := Option.some.inj ((if_pos hroot).symm.trans hwd)
      subst hdir
      cases hd : s.directory with
      | none => decide
      | some dir => exact hs.directory dir hd
    · cases (if_neg hroot).symm.trans hwd
  · -- the root and the mounts
    rintro req heq -
    cases heq
    refine ⟨⟨cli.rootfs, rfl, hcli.rootfs, fun _ => ?_⟩, ?_, nofun, nofun, nofun⟩
    · exact not_hasNul_append.2 ⟨by decide, not_hasNul_toString s.pid⟩
    · intro m hm
      obtain ⟨spec, hspec, rfl⟩ := List.mem_map.1 (mem_of_unlessNil hm)
      unfold Cli.jailMounts at hspec
      split at hspec
      · rcases List.mem_cons.1 hspec with rfl | hspec
        · exact hs.mountDirectory
        · exact hcli.mount spec hspec
      · exact hcli.mount spec hspec

/-- In the jail nothing but the given program runs, with its arguments and an empty environment; and
    it does run where no system call is refused. -/
theorem Cli.jail_runs {cli : Cli} {s : Surroundings} {hw : List Event} :
    (∀ program args env, (cli.jail s).wrap.At hw (.execvpe program args env) →
      program = cli.program ∧ args = cli.program :: cli.args ∧ env = []) ∧
    ∀ out, cli.NoNul → s.NoNul → (cli.jail s).wrap.Runs hw out → (∀ e ∈ hw, Unrefused e) →
      (⟨.execvpe cli.program (cli.program :: cli.args) [], .ok ()⟩ : Event) ∈ hw ∨
        ∃ child code, (⟨.fork, .ok (.parent child)⟩ : Event) ∈ hw ∧ out = .halt code := by
  -- What comes to its `execvpe` is what the request names
  have hexec : ∀ {h program args env}, (cli.jail s).wrap.At h (.execvpe program args env) →
      program = cli.program ∧ args = cli.program :: cli.args ∧ env = [] := by
    intro h program args env hat
    obtain ⟨before, prep, after, hlaunch⟩ := CreateRequest.wrap_launch hat
    obtain ⟨executable, hsome, -, hargs, henv⟩ :=
      ExecutableSpec.execute_at_vectors hlaunch.after
    cases hsome
    cases ExecutableSpec.execute_at_program hlaunch.after
    exact ⟨rfl, hargs, henv⟩
  refine ⟨fun _ _ _ hat => hexec hat, fun out hcli hs hr hh => ?_⟩
  rcases CreateRequest.wrap_launches (cli.jail_launchable hcli hs) hh hr with
    ⟨program, args, env, hmem⟩ | hparent
  · obtain ⟨h₁, h₂, rfl⟩ := List.append_of_mem hmem
    obtain ⟨rfl, rfl, rfl⟩ := hexec hr.at_of_split
    exact .inl hmem
  · exact .inr hparent

/-- The example's command line has no NUL. -/
theorem noNul_jailSrv : jailSrv.NoNul :=
  ⟨by decide, nofun, by decide, nofun⟩

/-- Nor have its surroundings. -/
theorem noNul_inSrv : inSrv.NoNul := by
  refine ⟨fun dir hdir => ?_, by decide⟩
  cases hdir
  decide

/-- A run of it comes to its workload, or halts. -/
theorem jail_runs_jailSrv : ∃ hw out, (jailSrv.jail inSrv).wrap.Runs hw out ∧
    ((⟨.execvpe "/bin/true" ["/bin/true"] [], .ok ()⟩ : Event) ∈ hw ∨
      ∃ child code, (⟨.fork, .ok (.parent child)⟩ : Event) ∈ hw ∧ out = .halt code) := by
  let ω : calls.Answers := fun _ => Call.grant
  have hr := eval_runs ω (jailSrv.jail inSrv).wrap []
  refine ⟨_, _, hr, Cli.jail_runs.2 _ noNul_jailSrv noNul_inSrv hr fun e he => ?_⟩
  obtain ⟨h₁, h₂, hsplit⟩ := List.append_of_mem he
  have hgrant : e.answer = e.call.grant := eval_follows ω _ [] h₁ e h₂ hsplit
  have hun := unrefused_grant e.call
  rw [← hgrant] at hun
  exact hun

end Styrolite
