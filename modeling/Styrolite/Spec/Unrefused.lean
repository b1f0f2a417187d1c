import Styrolite.ForStd.Decimal
import Styrolite.ForStd.Fields
import Styrolite.ForStd.Triples
import Styrolite.Spec.ApplyCapsCorrect
import Styrolite.Spec.ExecuteCorrect
import Styrolite.Spec.MountNulCorrect
import Styrolite.Spec.WorkloadIdCorrect

/-!
# Runs without a refused call

In such a run what the code does is up to the request alone: each part of `wrap`
then ends with a value if the strings it is given can be passed on (the `_sure`
lemmas).

A function of the standard library takes no path with a NUL byte. It makes no system
call then, so no system call is refused, but it reports an error all the same.
-/

namespace Styrolite

open Prog LocalRules

/-! ## Answers -/

/-- The error that was answered, if any. -/
def refusalOf {α : Type} : Except Errno α → Option Errno
  | .ok _ => none
  | .error e => some e

/-- The error in the answer to the call. A listing may also fail half way. -/
def Call.refusal (c : Call) : c.Answer → Option Errno :=
  match c with
  | .getpid | .capHashIter _ | .strHashIter _ | .isatty _ | .enter _ | .fsExists _
  | .storeChildPid _ | .reapChildren | .getuid | .getgid => fun _ => none
  | .fsReadDir _ => fun a =>
    (refusalOf a).or (a.toOption.bind fun entries => entries.findSome? refusalOf)
  | .clockGettimeBoottime | .fsWrite .. | .procWrite .. | .fsCreateDirAll _ | .fsFileCreate _
  | .fsMetadata _ | .fsSymlinkMetadata _ | .fsReadLink _ | .fsReadToString _ | .fsOpenWrite _
  | .fsWriteAll .. | .faccessat _ | .setCurrentDir _ | .unshare _ | .pidfdOpen _ | .setns ..
  | .sethostname _ | .setrlimit .. | .signal .. | .eventfd .. | .efdRead _ | .efdWrite .. | .fork
  | .waitpid _ | .mount .. | .openTree .. | .mountSetattr .. | .pivotRoot .. | .umount2 ..
  | .setuid _ | .setgid _ | .setgroups _ | .fchown .. | .prSetSecurebits _ | .prCapbsetDrop _
  | .prCapAmbient .. | .capget _ | .capset .. | .prSetNoNewPrivs | .seccomp .. | .execvpe .. =>
    refusalOf

/-- The path given to a function of the standard library that fails if it cannot be passed on. -/
def Call.stdPath : Call → Option String
  | .fsWrite path _ | .fsCreateDirAll path | .fsFileCreate path | .fsMetadata path
  | .fsSymlinkMetadata path | .fsReadLink path | .fsReadToString path | .fsReadDir path
  | .fsOpenWrite path | .setCurrentDir path => some path
  | _ => none

/-- No system call is refused: there is no error, or it is that of a path with a NUL byte, which is
    not the error of a file that is not there. -/
def Call.Unrefused (c : Call) (a : c.Answer) : Prop :=
  match c.stdPath with
  | none => c.refusal a = none
  | some path => (¬ HasNul path → c.refusal a = none) ∧
      (HasNul path → ∃ e, c.refusal a = some e ∧ e ≠ Errno.ENOENT)

/-- The event's call is not refused by its answer. -/
def Unrefused (e : Event) : Prop := e.call.Unrefused e.answer

/-- Nothing is refused by an answer that is a value. -/
theorem refusalOf_eq_none {α : Type} {x : Except Errno α} :
    refusalOf x = none ↔ ∃ a, x = .ok a := by
  cases x with
  | ok a => exact ⟨fun _ => ⟨a, rfl⟩, fun _ => rfl⟩
  | error e =>
    constructor
    · intro hnone
      cases hnone
    · rintro ⟨a, ha⟩
      cases ha

/-- The code does not fail in a run in which no system call is refused. -/
abbrev Safe {α : Type} (p : Sys α) : Prop := Sure Unrefused p fun _ => True

section

variable {α β : Type} {c : Call}

/-- A sequence of safe programs is safe. -/
theorem Safe.bind {p : Sys α} {f : α → Sys β} (hp : Safe p) (hf : ∀ a, Safe (f a)) :
    Safe (p >>= f) := Sure.bind hp fun a _ => hf a

/-- After a call, what is left has to go well on the answers that refuse nothing. -/
theorem sys_bind_sure {k : c.Answer → Sys α} {A : α → Prop}
    (hk : ∀ a, Unrefused ⟨c, a⟩ → Sure Unrefused (k a) A) :
    Sure Unrefused (Bind.bind (α := no_index c.Answer) (sys c) k) A := Sure.call (I := calls) hk

/-- The check of an answer that refuses nothing is passed. -/
theorem check_sure {x : Except Errno α} (hx : refusalOf x = none) : Safe (check x) := by
  obtain ⟨a, ha⟩ := refusalOf_eq_none.1 hx
  exact .check ⟨a, ha, trivial⟩

/-- A string without NUL is itself as a C string. -/
theorem orFail_sure {s : String} (hs : ¬ HasNul s) : Sure Unrefused (orFail (cString s)) (· = s) :=
  .check ⟨s, cString_of_not_nul hs, rfl⟩

end

/-! ## Strings -/

/-- The digits of a number contain no NUL. -/
theorem not_hasNul_toString (n : Nat) : ¬ HasNul (toString n) := by
  intro hnul
  exact absurd (Decimal.isDigit_of_mem_toString (hasNul_iff.1 hnul)) (by decide)

/-- Nor do those of a negative one. -/
theorem not_hasNul_toString_int (n : Int) : ¬ HasNul (toString n) := by
  cases n with
  | ofNat k => exact not_hasNul_toString k
  | negSucc k => exact not_hasNul_append.2 ⟨by decide, not_hasNul_toString (k + 1)⟩

/-- A path with a parent has a NUL byte if the parent has one. -/
theorem not_hasNul_pathParent {path parent : String} (hparent : pathParent path = some parent)
    (hpath : ¬ HasNul path) : ¬ HasNul parent := by
  intro hnul
  apply hpath
  rw [hasNul_iff] at hnul ⊢
  exact mem_of_mem_pathParent hparent (by decide) hnul

/-- A name that is pushed is all that can bring a NUL into a path without one. -/
theorem hasNul_pathPush {path child : String} (hpath : ¬ HasNul path) :
    HasNul (pathPush path child) ↔ HasNul child := by
  have hslash : ¬ HasNul "/" := by decide
  unfold pathPush
  rw [← not_iff_not]
  split
  · rfl
  · split
    · rw [not_hasNul_append, and_iff_right hpath]
    · rw [not_hasNul_append, not_hasNul_append, and_iff_right ⟨hpath, hslash⟩]

/-- No slash is a NUL byte. -/
private theorem mem_dropWhile_slashes {cs : List Char} :
    Char.ofNat 0 ∈ cs.dropWhile (· == '/') ↔ Char.ofNat 0 ∈ cs := by
  refine ⟨fun hmem => (List.dropWhile_sublist _).mem hmem, fun hmem => ?_⟩
  rw [← List.takeWhile_append_dropWhile (p := (· == '/')) (l := cs), List.mem_append] at hmem
  rcases hmem with hfront | hrest
  · exact absurd (List.mem_takeWhile_imp hfront) (by decide)
  · exact hrest

/-- A path is as free of NUL below the root as it was. -/
theorem hasNul_joinRootfs {rootfs path : String} (hrootfs : ¬ HasNul rootfs) :
    HasNul (joinRootfs rootfs path) ↔ HasNul path := by
  have hslash : ¬ HasNul "/" := by decide
  have hfront : ¬ HasNul (trimEndSlashes rootfs) := by
    rwa [hasNul_iff, trimEndSlashes, String.toList_ofList, List.mem_reverse, mem_dropWhile_slashes,
      List.mem_reverse, ← hasNul_iff]
  have hback : HasNul (trimStartSlashes path) ↔ HasNul path := by
    rw [hasNul_iff, trimStartSlashes, String.toList_ofList, mem_dropWhile_slashes, ← hasNul_iff]
  rw [← not_iff_not, joinRootfs, not_hasNul_append, not_hasNul_append,
    and_iff_right ⟨hfront, hslash⟩, hback]

/-! ## Mounts -/

namespace MountSpec

variable {spec : MountSpec}

/-- Whether the source is a file is asked without an error. -/
theorem sourceIsFile_sure (spec : MountSpec) : Safe spec.sourceIsFile := by
  unfold sourceIsFile
  split
  · refine sys_bind_sure fun a _ => ?_
    cases a with
    | ok m => exact .pure trivial
    | error e => exact .pure trivial
  · exact .pure trivial

/-- The target is made if its name can be passed on. -/
theorem createTarget_sure (htarget : ¬ HasNul spec.target) : Safe spec.createTarget := by
  have hmake {path : String} (hpath : ¬ HasNul path) :
      Safe (do check (← sys (.fsCreateDirAll path))) :=
    sys_bind_sure fun _ ha => check_sure (ha.1 hpath)
  unfold createTarget
  refine .bind spec.sourceIsFile_sure fun isFile => ?_
  split
  · refine .bind (.whenSome (fun parent hparent => ?_) fun _ => trivial) fun _ => ?_
    · exact hmake (not_hasNul_pathParent hparent htarget)
    · exact sys_bind_sure fun _ ha => check_sure (ha.1 htarget)
  · exact hmake htarget

/-- The data are passed on if they contain no NUL. -/
theorem dataArg_sure (hdata : ¬ spec.HasNulData) : Safe spec.dataArg := by
  unfold dataArg
  split
  · exact .pure trivial
  · next d hd =>
    rw [map_eq_pure_bind]
    exact Sure.bind (.mapErr (orFail_sure fun hnul => hdata ⟨d, hd, hnul⟩)) fun _ _ => .pure trivial

/-- The attributes are set if the path can be passed on. -/
theorem mountSetattr_sure {dir : DirFd} {path : String} (hpath : ¬ HasNul path) (flags : CInt)
    (attr : MountAttr) : Safe (mountSetattr dir path flags attr) :=
  Sure.bind (orFail_sure hpath) fun _ _ => sys_bind_sure fun _ ha => check_sure ha

/-- A mount succeeds if its target and its data can be passed on. -/
theorem mount_sure (htarget : ¬ HasNul spec.target) (hdata : ¬ spec.HasNulData) :
    Safe spec.mount := by
  unfold mount
  refine Sure.bind (orFail_sure htarget) fun _ _ =>
    Safe.bind (.when (fun _ => createTarget_sure htarget) fun _ => trivial) fun _ =>
    .bind (dataArg_sure hdata) fun _ => ?_
  refine sys_bind_sure fun _ ha => Safe.bind (.mapErr (check_sure ha)) fun _ => ?_
  exact .when (fun _ => mountSetattr_sure htarget _ _) fun _ => trivial

/-- A mount without mount data. -/
theorem mount_sure_of_none (htarget : ¬ HasNul spec.target) (hdata : spec.data = none) :
    Safe spec.mount := by
  refine mount_sure htarget ?_
  rintro ⟨d, hd, -⟩
  rw [hdata] at hd
  cases hd

/-- The pivot succeeds if its target can be passed on. -/
theorem pivot_sure (htarget : ¬ HasNul spec.target) : Safe spec.pivot := by
  have hroot : ¬ HasNul "/" := by decide
  unfold pivot
  refine sys_bind_sure fun _ ha => Safe.bind (check_sure (ha.1 htarget)) fun _ => ?_
  refine sys_bind_sure fun _ ha => Safe.bind (.mapErr (check_sure ha)) fun _ => ?_
  refine sys_bind_sure fun _ ha => Safe.bind (.mapErr (check_sure ha)) fun _ => ?_
  exact sys_bind_sure fun _ ha => check_sure (ha.1 hroot)

end MountSpec

/-- A path is masked if it can be passed on. -/
theorem maskPath_sure {rootfs path : String} (hrootfs : ¬ HasNul rootfs) (hpath : ¬ HasNul path) :
    Safe (maskPath rootfs path) := by
  have htarget : ¬ HasNul (joinRootfs rootfs path) := mt (hasNul_joinRootfs hrootfs).1 hpath
  refine sys_bind_sure fun a ha => ?_
  obtain ⟨m, rfl⟩ := refusalOf_eq_none.1 (ha.1 htarget)
  show Safe (maskSpec (joinRootfs rootfs path) m).mount
  unfold maskSpec
  split
  · refine MountSpec.mount_sure htarget ?_
    rintro ⟨d, hd, hnul⟩
    cases hd
    exact absurd hnul (by decide)
  · exact MountSpec.mount_sure_of_none htarget rfl

/-- A path is made read-only if it can be passed on. -/
theorem makeReadonly_sure {rootfs path : String} (hrootfs : ¬ HasNul rootfs)
    (hpath : ¬ HasNul path) : Safe (makeReadonly rootfs path) := by
  have htarget : ¬ HasNul (joinRootfs rootfs path) := mt (hasNul_joinRootfs hrootfs).1 hpath
  refine sys_bind_sure fun a ha => ?_
  obtain ⟨m, rfl⟩ := refusalOf_eq_none.1 (ha.1 htarget)
  exact MountSpec.mount_sure_of_none htarget rfl

/-! ## The new root -/

namespace CreateRequest

variable {req : CreateRequest} {rootfs : String}

/-- The paths of the request that are put under the new root can be passed on. -/
structure PathsUsable (req : CreateRequest) : Prop where
  mounts : ∀ m ∈ req.mounts.getD [], ¬ HasNul m.target
  mutations : ∀ m, .createDir m ∈ req.mutations.getD [] → ¬ HasNul m.target
  masked : ∀ path ∈ req.maskedPaths.getD [], ¬ HasNul path
  readonly : ∀ path ∈ req.readonlyPaths.getD [], ¬ HasNul path

/-- The workload id has a NUL byte only if it was given one. -/
theorem identity_sure (req : CreateRequest) : Sure Unrefused req.identity fun wid =>
    ¬ HasNul (req.workloadId.getD "") → ¬ HasNul wid := by
  refine sys_bind_sure fun pid _ => .pure ?_
  cases req.workloadId with
  | none => exact fun _ => not_hasNul_toString pid
  | some wid => exact id

/-- The root is staged, and what is returned can be passed on. -/
theorem stageRootfs_sure {rootfs wid₁ wid₂ wid₃ : String} (hrootfs : ¬ HasNul rootfs)
    (hwid : rootfs = "/" → ¬ HasNul wid₁ ∧ ¬ HasNul wid₂ ∧ ¬ HasNul wid₃) :
    Sure Unrefused (stageRootfs rootfs wid₁ wid₂ wid₃) fun root => ¬ HasNul root := by
  unfold stageRootfs
  split
  · next hslash =>
    -- Every path of the stage is made of the workload's id
    obtain ⟨hwid₁, hwid₂, hwid₃⟩ := hwid hslash
    have hbase {wid : String} (hwid : ¬ HasNul wid) : ¬ HasNul ("/tmp/styrolite-stage-" ++ wid) :=
      not_hasNul_append.2 ⟨by decide, hwid⟩
    have hroot : ¬ HasNul ("/tmp/styrolite-stage-" ++ wid₂ ++ "/root") :=
      not_hasNul_append.2 ⟨hbase hwid₂, by decide⟩
    have hold : ¬ HasNul ("/tmp/styrolite-stage-" ++ wid₃ ++ "/old") :=
      not_hasNul_append.2 ⟨hbase hwid₃, by decide⟩
    refine Sure.bind (.mapErr (MountSpec.mount_sure_of_none (hbase hwid₁) rfl)) fun _ _ => ?_
    refine sys_bind_sure fun _ ha => Sure.bind (.mapErr (check_sure (ha.1 hroot))) fun _ _ => ?_
    -- Two directories, and the bind of the root on the first
    refine sys_bind_sure fun _ ha => Sure.bind (.mapErr (check_sure (ha.1 hold))) fun _ _ => ?_
    exact Sure.bind (.mapErr (MountSpec.mount_sure_of_none hroot rfl)) fun _ _ => .pure hroot
  · exact .pure hrootfs

/-- The root is sealed if its path can be passed on. -/
theorem sealMount_sure (hrootfs : ¬ HasNul rootfs) : Safe (newroot rootfs).sealMount := by
  refine Safe.bind ?_ fun fd => MountSpec.mountSetattr_sure (by decide) _ _
  exact Sure.bind (orFail_sure hrootfs) fun _ _ => sys_bind_sure fun _ ha => check_sure ha

/-- The root is prepared for a request with a usable root, and its path can be passed on. -/
theorem prepareRoot_sure (hreq : req.Rootable) :
    Sure Unrefused req.prepareRoot fun root => ¬ HasNul root := by
  obtain ⟨rootfs, hsome, hrootfs, hwid⟩ := hreq
  unfold prepareRoot
  rw [hsome]
  -- `rootfs` is there, so its absence is no error
  refine Sure.bind (A := (· = rootfs)) (.check ⟨rootfs, rfl, rfl⟩) fun _ heq => ?_
  subst heq
  refine Sure.bind (.mapErr (MountSpec.mount_sure_of_none (by decide) rfl)) fun _ _ => ?_
  -- The id is asked for three times
  refine Sure.bind req.identity_sure fun wid₁ hwid₁ => Sure.bind req.identity_sure fun wid₂ hwid₂ =>
    Sure.bind req.identity_sure fun wid₃ hwid₃ => ?_
  refine Sure.bind (stageRootfs_sure hrootfs fun hslash =>
    ⟨hwid₁ (hwid hslash), hwid₂ (hwid hslash), hwid₃ (hwid hslash)⟩) fun root hroot => ?_
  have hproc : ¬ HasNul (root ++ "/proc") := not_hasNul_append.2 ⟨hroot, by decide⟩
  refine Sure.bind (.mapErr (MountSpec.mount_sure_of_none hroot rfl)) fun _ _ => ?_
  refine Sure.bind (A := fun _ => True) (.when (fun _ => .mapErr (sealMount_sure hroot))
    fun _ => trivial) fun _ _ => ?_
  exact Sure.bind (.mapErr (MountSpec.mount_sure_of_none hproc rfl)) fun _ _ => .pure hroot

/-- A mutation succeeds if its target can be passed on. -/
theorem mutate_sure (hrootfs : ¬ HasNul rootfs) {m : Mutation}
    (hm : ∀ cdm, m = .createDir cdm → ¬ HasNul cdm.target) : Safe (mutate rootfs m) := by
  cases m with
  | createDir cdm =>
    have hpath : ¬ HasNul (pathPush rootfs cdm.target) :=
      mt (hasNul_pathPush hrootfs).1 (hm cdm rfl)
    exact .mapErr (sys_bind_sure fun _ ha => check_sure (ha.1 hpath))

/-- The masked and read-only paths, and the pivot. -/
theorem finishRoot_sure (hrootfs : ¬ HasNul rootfs) (hpaths : req.PathsUsable) :
    Safe (req.finishRoot rootfs) := by
  unfold finishRoot
  refine Safe.bind (.forM fun m hm => mutate_sure hrootfs fun cdm heq => ?_) fun _ => ?_
  · exact hpaths.mutations cdm (heq ▸ hm)
  refine Safe.bind (.forM fun path hpath => ?_) fun _ => ?_
  · exact .mapErr (maskPath_sure hrootfs (hpaths.masked path hpath))
  refine Safe.bind (.forM fun path hpath => ?_) fun _ => ?_
  · exact .mapErr (makeReadonly_sure hrootfs (hpaths.readonly path hpath))
  exact .mapErr (MountSpec.pivot_sure hrootfs)

/-- `pivot_fs` succeeds on a request with a usable root and usable paths. -/
theorem pivotFs_sure (hreq : req.Rootable) (hpaths : req.PathsUsable) : Safe req.pivotFs := by
  rw [pivotFs_eq]
  refine sys_bind_sure fun _ _ => Sure.bind (prepareRoot_sure hreq) fun root hroot => ?_
  refine Safe.bind (.forM fun m hm => .mapErr ?_) fun _ => finishRoot_sure hroot hpaths
  have htarget : ¬ HasNul (parentedMount root m).target :=
    not_hasNul_append.2 ⟨not_hasNul_append.2 ⟨hroot, by decide⟩, hpaths.mounts m hm⟩
  exact MountSpec.mount_sure_of_none htarget rfl

end CreateRequest

/-! ## Before the fork -/

/-- A program that does not fail does not exit. -/
theorem orExit_sure {p : Sys Unit} (hp : Safe p) : Safe (orExit p) := by
  refine Sure.bind (.attempt hp) fun x hx => ?_
  obtain ⟨⟨⟩, rfl, -⟩ := hx
  exact .pure trivial

/-- The same call for each of the forwarded signals. -/
theorem signals_sure {f : Signal → Sys Unit} (hf : ∀ sig, Safe (f sig)) :
    Safe (orExit (ForM.forM forwardedSignals f)) := orExit_sure (.forM fun sig _ => hf sig)

/-- The supervisor's handlers are set. -/
theorem setupParentSignalHandlers_sure : Safe (orExit setupParentSignalHandlers) :=
  signals_sure fun _ => sys_bind_sure fun _ ha => .mapErr (check_sure ha)

/-- The child's handlers are reset. -/
theorem resetChildSignalHandlers_sure : Safe (orExit resetChildSignalHandlers) :=
  signals_sure fun _ => sys_bind_sure fun _ ha => .mapErr (check_sure ha)

/-- The namespaces are made. -/
theorem unshare_sure (nss : List Namespace) : Safe (unshare nss) :=
  sys_bind_sure fun _ ha => check_sure ha

/-- The supervisor reaches the fork. -/
theorem CreateRequest.prologue_sure (req : CreateRequest) : Safe req.prologue := by
  refine Safe.bind (Sure.attempt_returns req.prepareCgroup_returns) fun _ => ?_
  refine Safe.bind (unshare_sure _) fun _ => ?_
  refine Safe.bind (Sure.attempt_returns updateBoottime_returns) fun _ => ?_
  refine Safe.bind (Sure.attempt_returns req.updateHostname_returns) fun _ => ?_
  refine Safe.bind (Sure.attempt_returns req.exec.setProcessLimits_returns) fun _ => ?_
  refine Safe.bind setupParentSignalHandlers_sure fun _ => ?_
  refine sys_bind_sure fun _ ha => Safe.bind (check_sure ha) fun _ => ?_
  exact sys_bind_sure fun _ ha => check_sure ha

/-! ## The supervisor -/

/-- The supervisor configures the child. -/
theorem CreateRequest.configure_sure (req : CreateRequest) (child : Int) :
    Safe (req.configure child) := by
  unfold configure prepareUserns
  refine Safe.bind (.when (fun _ => ?_) fun _ => trivial) fun _ =>
    sys_bind_sure fun _ ha => Safe.bind (check_sure ha) fun _ => .pure trivial
  refine sys_bind_sure fun _ _ => Safe.bind (.whenSome (fun _ _ => ?_) fun _ => trivial) fun _ =>
    Safe.bind (.when (fun _ => ?_) fun _ => trivial) fun _ =>
    .whenSome (fun _ _ => ?_) fun _ => trivial
  all_goals exact sys_bind_sure fun _ ha => check_sure ha

/-- The wait ends with an exit code. -/
theorem waitForPid_sure (child : Int) : Safe (waitForPid child) := by
  refine sys_bind_sure fun _ ha => Safe.bind (check_sure ha) fun status => ?_
  cases status <;> exact .pure trivial

/-- What a supervisor does when its child has ended. -/
theorem exits_of_runs {child : Int} {h : List Event} {r : Outcome Err Unit}
    (hh : ∀ e ∈ h, Unrefused e)
    (hr : (do
      let exitcode ← waitForPid child
      reapChildren
      Prog.halt exitcode : Sys Unit).Runs h r) : ∃ code, r = .halt code := by
  obtain ⟨code, h₁, h₂, rfl, -, -, hr⟩ := (waitForPid_sure child).runs_bind hh hr
  obtain ⟨_, _, -, hr⟩ := runs_sys_bind.1 hr
  exact ⟨code, (runs_halt.1 hr).2⟩

/-- If nothing is refused the supervisor ends by exiting. -/
theorem CreateRequest.supervise_exits {req : CreateRequest} {child : Int} {h : List Event}
    {r : Outcome Err Unit} (hh : ∀ e ∈ h, Unrefused e) (hr : (req.supervise child).Runs h r) :
    ∃ code, r = .halt code := by
  obtain ⟨_, h₁, rfl, hr₁⟩ := runs_sys_bind.1 hr
  obtain ⟨n, h₂, rfl, hr₂⟩ := runs_sys_bind.1 hr₁
  have hread : refusalOf n = none := hh ⟨.efdRead .parent, n⟩ (by simp)
  have hh₂ : ∀ e ∈ h₂, Unrefused e := fun e he => hh e (by simp [he])
  obtain ⟨_, h₃, h₄, rfl, -, -, hr₃⟩ := (check_sure hread).runs_bind hh₂ hr₂
  have hh₄ : ∀ e ∈ h₄, Unrefused e := fun e he => hh₂ e (List.mem_append_right h₃ he)
  obtain ⟨_, h₅, h₆, rfl, -, -, hr₄⟩ := (req.configure_sure child).runs_bind hh₄ hr₃
  exact exits_of_runs (fun e he => hh₄ e (List.mem_append_right h₅ he)) hr₄

/-- So does one that attaches. -/
theorem AttachRequest.supervise_exits {child : Int} {h : List Event} {r : Outcome Err Unit}
    (hh : ∀ e ∈ h, Unrefused e) (hr : (AttachRequest.supervise child).Runs h r) :
    ∃ code, r = .halt code := by
  obtain ⟨_, h₁, rfl, hr₁⟩ := runs_sys_bind.1 hr
  exact exits_of_runs (fun e he => hh e (List.mem_cons_of_mem _ he)) hr₁

/-! ## The child -/

/-- The OOM score is written. -/
theorem applyOomScore_sure (score : Option Int) : Safe (applyOomScore score) :=
  .whenSome (fun _ _ => sys_bind_sure fun _ ha => check_sure ha) fun _ => trivial

/-- The search for a terminal only asks. -/
theorem findTty_sure (fds : List Nat) : Safe (findTty fds) := by
  induction fds with
  | nil => exact .pure trivial
  | cons fd fds ih =>
    refine sys_bind_sure fun tty _ => ?_
    cases tty with
    | true => exact .pure trivial
    | false => exact ih

/-- The terminal is bound, and its owner changed. -/
theorem bindConsole_sure (uid : UInt32) (fd : Nat) : Safe (bindConsole uid fd) := by
  have hlink : ¬ HasNul ("/proc/self/fd/" ++ toString fd) :=
    not_hasNul_append.2 ⟨by decide, not_hasNul_toString fd⟩
  have hconsole : ¬ HasNul "/dev/console" := by decide
  unfold bindConsole
  refine sys_bind_sure fun _ ha => Safe.bind (.mapErr (check_sure (ha.1 hlink))) fun pts => ?_
  refine sys_bind_sure fun _ _ => Safe.bind (.when (fun _ => ?_) fun _ => trivial) fun _ => ?_
  · exact sys_bind_sure fun _ ha => .mapErr (check_sure (ha.1 hconsole))
  refine Safe.bind (.mapErr (MountSpec.mount_sure_of_none hconsole rfl)) fun _ => ?_
  refine sys_bind_sure fun a ha => ?_
  obtain ⟨⟨⟩, rfl⟩ := refusalOf_eq_none.1 ha
  exact .pure trivial

/-- With or without a terminal. -/
theorem setupConsole_sure (uid : Option UInt32) : Safe (setupConsole uid) := by
  refine sys_bind_sure fun _ _ => .whenSome (fun execUid _ => ?_) fun _ => trivial
  refine Safe.bind (findTty_sure _) fun tty => ?_
  exact .whenSome (fun fd _ => bindConsole_sure execUid fd) fun _ => trivial

/-- Switching the identity does not fail in any run. -/
theorem applyGidUid_sure (gid uid : Option UInt32) (gids : Option (List UInt32)) :
    Safe (applyGidUid gid uid gids) := by
  unfold applyGidUid applyGid applyUid
  refine Safe.bind (.whenSome (fun _ _ => ?_) fun _ => trivial) fun _ =>
    Safe.bind (.whenSome (fun _ _ => ?_) fun _ => trivial) fun _ =>
    .whenSome (fun _ _ => ?_) fun _ => trivial
  · -- A group or user that reads as requested is not set; a refusal is only logged
    refine sys_bind_sure fun _ _ => ?_
    split
    · exact sys_bind_sure fun _ _ => .pure trivial
    · exact .pure trivial
  · exact sys_bind_sure fun _ _ => .pure trivial
  · refine sys_bind_sure fun _ _ => ?_
    split
    · exact sys_bind_sure fun _ _ => .pure trivial
    · exact .pure trivial

/-! ## Capabilities -/

namespace Capabilities

/-- Names that are all known have their bits. -/
theorem namesAsBits_sure {names : List String} (hnames : Known names) :
    Safe (namesAsBits names) := by
  obtain ⟨s, hs⟩ := hnames.namesAsSet
  unfold namesAsBits
  rw [hs]
  exact Safe.bind (.check ⟨s, rfl, trivial⟩) fun s => sys_bind_sure fun _ _ => .pure trivial

/-- Capabilities with known names are applied. -/
theorem apply_sure {caps : Capabilities} (hcaps : caps.AllKnown) : Safe caps.apply := by
  obtain ⟨hdrop, hraise, hambient⟩ := hcaps
  -- Each of the calls that the lists lead to
  have hget : Safe getCaps :=
    sys_bind_sure fun _ _ => sys_bind_sure fun _ ha => Safe.bind (.mapErr (check_sure ha)) fun _ =>
      .pure trivial
  have hset (r : CapResult) : Safe (setCaps r) :=
    sys_bind_sure fun _ _ => sys_bind_sure fun _ ha => .mapErr (check_sure ha)
  have hbounding (c : CapabilityBit) : Safe (dropBounding c) :=
    sys_bind_sure fun _ ha => .mapErr (check_sure ha)
  have hlower (c : CapabilityBit) : Safe (lowerAmbient c) :=
    sys_bind_sure fun _ ha => .mapErr (check_sure ha)
  have hup (c : CapabilityBit) : Safe (raiseAmbientBit c) :=
    sys_bind_sure fun _ ha => .mapErr (check_sure ha)
  unfold apply
  refine Safe.bind hget fun current => Safe.bind (namesAsBits_sure hdrop) fun drops =>
    Safe.bind (namesAsBits_sure hraise) fun raises =>
    Safe.bind (namesAsBits_sure hambient) fun ambient => ?_
  refine Safe.bind (.forM fun c _ => .when (fun _ => hbounding c) fun _ => trivial) fun _ => ?_
  refine Safe.bind (hset _) fun _ => Safe.bind (.forM fun c _ => hlower c) fun _ => ?_
  exact .forM fun c _ => hup c

end Capabilities

/-- What comes before the `execute` of a child succeeds. -/
theorem preexecPrep_sure {exec : ExecutableSpec} {capabilities : Option Capabilities}
    (hcaps : ∀ caps, capabilities = some caps → caps.AllKnown) :
    Safe (preexecPrep exec capabilities) := by
  refine sys_bind_sure fun _ _ => Safe.bind ?_ fun _ => Safe.bind (applyGidUid_sure _ _ _) fun _ => ?_
  · exact sys_bind_sure fun _ ha => .mapErr (check_sure ha)
  · exact .whenSome (fun caps hsome => Capabilities.apply_sure (hcaps caps hsome)) fun _ => trivial

/-! ## The workload -/

namespace ExecutableSpec

variable {exec : ExecutableSpec} {h : List Event}

/-- What `execute` does not refuse by itself. -/
structure Startable (exec : ExecutableSpec) : Prop where
  executable : exec.executable ≠ none
  strings : ¬ exec.HasNulString
  directory : ∀ wd, exec.workingDirectory = some wd → ¬ HasNul wd
  seccomp : exec.seccomp.isSome = true → exec.noNewPrivs = true

/-- What comes before the `execvpe` succeeds on a startable specification. -/
theorem beforeExec_sure (hexec : exec.Startable) : Safe exec.beforeExec := by
  unfold beforeExec installSeccomp changeOnexec
  -- The directory, `no_new_privs`, the filter and the profile, in turn
  refine Safe.bind (.whenSome (fun wd hwd => ?_) fun _ => trivial) fun _ => ?_
  · exact sys_bind_sure fun _ ha => check_sure (ha.1 (hexec.directory wd hwd))
  refine Safe.bind (.when (fun _ => ?_) fun _ => trivial) fun _ => ?_
  · exact sys_bind_sure fun _ ha => .mapErr (check_sure ha)
  refine Safe.bind (.whenSome (fun filter hfilter => ?_) fun _ => trivial) fun _ => ?_
  · -- A filter is only there with `no_new_privs`
    rw [hexec.seccomp (by rw [hfilter]; rfl)]
    exact sys_bind_sure fun _ ha => check_sure ha
  refine Safe.bind (.whenSome (fun profile _ => .mapErr ?_) fun _ => trivial) fun _ => ?_
  · refine sys_bind_sure fun a ha => ?_
    -- The attribute's directory is there, so the older path is not tried
    obtain ⟨⟨⟩, rfl⟩ := refusalOf_eq_none.1 (ha.1 (by decide))
    exact sys_bind_sure fun _ ha => check_sure ha
  · exact sys_bind_sure fun _ ha => .mapErr (check_sure ha)

/-- `execute` comes to `execvpe`. -/
theorem execute_comes (hexec : exec.Startable) (hh : ∀ e ∈ h, Unrefused e) {r : Outcome Err Unit}
    (hr : exec.execute.Runs h r) :
    ∃ program args env, (⟨.execvpe program args env, .ok ()⟩ : Event) ∈ h := by
  obtain ⟨executable, hsome⟩ := Option.ne_none_iff_exists'.1 hexec.executable
  obtain ⟨k, heq, -, -⟩ := execute_of_not_nul hsome hexec.strings
  rw [heq] at hr
  obtain ⟨_, h₁, rfl, hr₁⟩ := runs_sys_bind.1 hr
  have hh₁ : ∀ e ∈ h₁, Unrefused e := fun e he => hh e (List.mem_cons_of_mem _ he)
  obtain ⟨_, h₂, h₃, rfl, -, -, hr₂⟩ := (beforeExec_sure hexec).runs_bind hh₁ hr₁
  obtain ⟨a, h₄, rfl, -⟩ := runs_sys_bind.1 hr₂
  obtain ⟨⟨⟩, rfl⟩ := refusalOf_eq_none.1 (hh₁ ⟨.execvpe _ _ _, a⟩ (by simp))
  exact ⟨_, _, _, List.mem_cons_of_mem _ (List.mem_append_right h₂ List.mem_cons_self)⟩

end ExecutableSpec

end Styrolite
