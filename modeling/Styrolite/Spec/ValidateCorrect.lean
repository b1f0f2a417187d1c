import Styrolite.Native.Runner
import Styrolite.Spec.CapabilityCorrect
import Styrolite.Spec.ConfinementCorrect
import Styrolite.Spec.FirstChildCorrect
import Styrolite.Spec.Request
import Styrolite.Spec.Unrefused

/-!
# What `validate` accepts

`validate` is called before styrolite is started, and accepts every request. Whether
a request can be launched at all is decided by its strings and a few of its fields
(`Request.Launchable`): such a request is launched in every run in which no system
call is refused, and any other in none of them.
-/

namespace Styrolite

open Prog LocalRules

variable {h : List Event} {program : String} {args env : List String}

/-- The error for a process without a child. -/
def noChild (parent : Int) : Err := .msg ("failed to find child PID of " ++ toString parent)

namespace Request

/-- What `Configurable::validate` says of a request. -/
def validate : Request → Except Err Unit
  | create req => Runner.Configurable.validate req
  | attach req => Runner.Configurable.validate req

/-- The process has come to the workload, or it is the supervisor and has ended with the exit code
    of its child. -/
def Launched (h : List Event) (out : Outcome Err Unit) : Prop :=
  (∃ program args env, (⟨.execvpe program args env, .ok ()⟩ : Event) ∈ h) ∨
    ∃ child code, (⟨.fork, .ok (.parent child)⟩ : Event) ∈ h ∧ out = .halt code

/-- It is so in any longer history that ends so. -/
theorem Launched.append_left {out : Outcome Err Unit} (hl : Launched h out) (h₀ : List Event) :
    Launched (h₀ ++ h) out := by
  rcases hl with ⟨program, args, env, hmem⟩ | ⟨child, code, hmem, hout⟩
  · exact .inl ⟨program, args, env, List.mem_append_right h₀ hmem⟩
  · exact .inr ⟨child, code, List.mem_append_right h₀ hmem, hout⟩

/-- After a fork that is not refused the workload is launched if the one half ends with an exit code
    and the other comes to the workload. -/
theorem launched_of_halves {afterFork : Except Errno ForkResult → Sys Unit}
    {a : Except Errno ForkResult} {out : Outcome Err Unit} (ha : Unrefused ⟨.fork, a⟩)
    (hparent : ∀ child, (afterFork (.ok (.parent child))).Runs h out → ∃ code, out = .halt code)
    (hchild : (afterFork (.ok .child)).Runs h out →
      ∃ program args env, (⟨.execvpe program args env, .ok ()⟩ : Event) ∈ h)
    (hr : (afterFork a).Runs h out) : Launched (⟨.fork, a⟩ :: h) out := by
  obtain ⟨fork, rfl⟩ := refusalOf_eq_none.1 ha
  cases fork with
  | parent child =>
    obtain ⟨code, rfl⟩ := hparent child hr
    exact .inr ⟨child, code, List.mem_cons_self, rfl⟩
  | child =>
    obtain ⟨program, args, env, hmem⟩ := hchild hr
    exact .inl ⟨program, args, env, List.mem_cons_of_mem _ hmem⟩

/-- There is no process to attach to, which no request can settle. -/
def NoTarget (r : Request) (out : Outcome Err Unit) : Prop :=
  ∃ req, r = attach req ∧ out = .err (noChild req.pid)

/-- What is accepted is launched where no system call is refused, and what cannot be launched is
    not accepted. -/
structure Sound (r : Request) : Prop where
  launches : r.validate = .ok () → ∀ h out, (∀ e ∈ h, Unrefused e) → r.wrap.Runs h out →
    Launched h out ∨ r.NoTarget out
  refuses : (∀ h program args env, (∀ e ∈ h, Unrefused e) →
    ¬ r.wrap.At h (.execvpe program args env)) → ∃ e, r.validate = .error e

/-- The request can be launched. -/
structure Launchable (r : Request) : Prop where
  startable : r.exec.Startable
  capabilities : ∀ caps, r.capabilities = some caps → caps.AllKnown
  root : ∀ req, r = create req → .mount ∈ req.targetNs → req.Rootable ∧ req.PathsUsable

end Request

/-! ## What is launched can be launched -/

/-- What a call without an error was given could be passed on. -/
theorem not_hasNul_of_unrefused {c : Call} {a : c.Answer} {path : String}
    (ha : Unrefused ⟨c, a⟩) (hpath : c.stdPath = some path) (hok : c.refusal a = none) :
    ¬ HasNul path := by
  intro hnul
  have ha' : c.Unrefused a := ha
  rw [Call.Unrefused, hpath] at ha'
  obtain ⟨e, he, -⟩ := ha'.2 hnul
  rw [hok] at he
  cases he

/-- A file that is not there has a path that could be passed on. -/
theorem not_hasNul_of_notFound {path : String}
    (ha : Unrefused ⟨.fsSymlinkMetadata path, .error Errno.ENOENT⟩) : ¬ HasNul path := by
  intro hnul
  obtain ⟨e, he, hne⟩ := ha.2 hnul
  exact hne (Option.some.inj he).symm

/-- A workload that was come to, with nothing refused, can be started. -/
theorem ExecutableSpec.startable_of_at {exec : ExecutableSpec} (hh : ∀ e ∈ h, Unrefused e)
    (hat : exec.execute.At h (.execvpe program args env)) : exec.Startable := by
  have hk : (Call.execvpe program args env).kind ∈ [.exec] := by simp [Call.kind]
  obtain ⟨executable, hexec, hstrings, -, -⟩ := execute_at_vectors hat
  refine ⟨by simp [hexec], hstrings, fun wd hwd => ?_, fun hsome => ?_⟩
  · -- The working directory was gone to, so its name has no NUL byte
    obtain ⟨k, heq, -, -⟩ := execute_of_not_nul hexec hstrings
    rw [heq] at hat
    have henter : (sys (.enter .execute)).Uses (Call.within [.enterLate]) := uses_sys _ rfl
    obtain ⟨_, h₁, h₂, -, hat₁, rfl⟩ := henter.at_past (by decide) hk hat
    obtain ⟨⟨⟩, h₃, h₄, hbefore, -, rfl⟩ := exec.beforeExec_uses.at_past (by decide) hk hat₁
    obtain ⟨⟨⟩, hdir, -⟩ := hbefore.ranIn.bind
    obtain ⟨a, hmem, hok⟩ := mem_of_checked (c := .setCurrentDir wd) (f := id) (hdir.whenSome hwd)
    have ha : Unrefused ⟨.setCurrentDir wd, a⟩ := hh _ (by simp [hmem])
    exact not_hasNul_of_unrefused ha rfl (refusalOf_eq_none.2 ⟨(), hok⟩)
  · -- The filter was installed, so `no_new_privs` was asked for
    obtain ⟨filter, hfilter⟩ := Option.isSome_iff_exists.1 hsome
    exact (installSeccomp_done (execute_at_execvpe hat).2.1 hfilter).1

/-- The preparation ran to its end, so the names of the capabilities are known. -/
theorem allKnown_of_preexecPrep {exec : ExecutableSpec} {capabilities : Option Capabilities}
    (hr : (preexecPrep exec capabilities).RanIn h ()) (caps : Capabilities)
    (hcaps : capabilities = some caps) : caps.AllKnown := by
  obtain ⟨_, -, hr₁⟩ := hr.bind
  obtain ⟨⟨⟩, -, hr₂⟩ := hr₁.bind
  obtain ⟨⟨⟩, -, hr₃⟩ := hr₂.bind
  exact (Capabilities.apply_done (hr₃.whenSome hcaps)).known

namespace CreateRequest

variable {req : CreateRequest} {rootfs : String}

/-- `pivot_fs` ran to its end, so a root filesystem can be chosen. -/
theorem rootable_of_pivotFs (hr : req.pivotFs.RanIn h ()) : req.Rootable := by
  rw [pivotFs_eq] at hr
  obtain ⟨_, -, hr₁⟩ := hr.bind
  obtain ⟨root, ⟨h₁, -, hroot⟩, -⟩ := hr₁.bind
  exact rootable_of_runs hroot

/-- A path that has been looked up could be passed on, also if it was not there. -/
private theorem not_hasNul_of_lookup {path : String} {P : Metadata → Prop}
    (hh : ∀ e ∈ h, Unrefused e)
    (hlook : (⟨.fsSymlinkMetadata path, .error Errno.ENOENT⟩ : Event) ∈ h ∨
      ∃ m, (⟨.fsSymlinkMetadata path, .ok m⟩ : Event) ∈ h ∧ P m) : ¬ HasNul path := by
  rcases hlook with hno | ⟨m, hmem, -⟩
  · exact not_hasNul_of_notFound (hh _ hno)
  · exact not_hasNul_of_unrefused (hh _ hmem) rfl rfl

/-- A mount that was made has no NUL byte in its target. -/
theorem not_hasNul_of_mounted {spec : MountSpec} (hr : spec.mount.RanIn h ()) :
    ¬ HasNul spec.target := by
  obtain ⟨h₁, -, hmount⟩ := hr
  exact not_hasNul_of_mount hmount

/-- Where `pivot_fs` has ended without a refused call, every path it was given could be used. -/
theorem pathsUsable_of_pivotFs (hh : ∀ e ∈ h, Unrefused e) (hr : req.pivotFs.RanIn h ()) :
    req.PathsUsable := by
  obtain ⟨rootfs, hdone⟩ := pivotFs_done hr
  have hrootfs : ¬ HasNul rootfs := not_hasNul_of_mounted hdone.bound
  refine ⟨fun m hm => ?_, fun m hm => ?_, fun path hpath => ?_, fun path hpath => ?_⟩
  · have htarget : ¬ HasNul (rootfs ++ "/" ++ m.target) :=
      not_hasNul_of_mounted (hdone.mounted m hm)
    exact (not_hasNul_append.1 htarget).2
  · have hmem := mutate_done (hdone.mutated _ hm)
    exact mt (hasNul_pathPush hrootfs).2 (not_hasNul_of_unrefused (hh _ hmem) rfl rfl)
  · have hmasked := maskPath_done (hdone.masked path hpath)
    exact mt (hasNul_joinRootfs hrootfs).2 (not_hasNul_of_lookup hh hmasked)
  · have hreadonly := makeReadonly_done (hdone.madeReadonly path hpath)
    exact mt (hasNul_joinRootfs hrootfs).2 (not_hasNul_of_lookup hh hreadonly)

/-- The child of a launch has set up its root. -/
theorem pivotFs_of_wrap (hat : req.wrap.At h (.execvpe program args env))
    (hm : .mount ∈ req.targetNs) : req.pivotFs.RanIn h () := by
  have hk : (Call.execvpe program args env).kind ∈ [.exec] := by simp [Call.kind]
  obtain ⟨⟨⟩, h₁, h₂, -, hat₁, rfl⟩ := req.prologue_uses.at_past (by decide) hk hat
  rcases at_sys_bind.1 hat₁ with ⟨-, hc⟩ | ⟨r, h₃, rfl, hat₂⟩
  · cases hc
  rcases r with e | child | _
  · exact absurd hat₂ at_done
  · exact absurd hat₂ ((req.supervise_uses child).not_at (by decide) hk)
  · exact ((childMain_pivots hat₂ hm).append_right [⟨.fork, .ok .child⟩]).append_right h₁

end CreateRequest

/-- Only what can be launched comes to `execvpe` without a refused call. -/
theorem Request.launchable_of_at {r : Request} (hh : ∀ e ∈ h, Unrefused e)
    (hat : r.wrap.At h (.execvpe program args env)) : r.Launchable := by
  obtain ⟨before, prep, after, hlaunch⟩ := r.wrap_launch hat
  refine ⟨?_, allKnown_of_preexecPrep hlaunch.prep.ranIn, ?_⟩
  · refine ExecutableSpec.startable_of_at (fun e he => hh e ?_) hlaunch.after
    rw [hlaunch.hist]
    exact List.mem_append_right _ (List.mem_append_right _ he)
  · rintro req rfl hm
    have hpivot := CreateRequest.pivotFs_of_wrap hat hm
    exact ⟨CreateRequest.rootable_of_pivotFs hpivot, CreateRequest.pathsUsable_of_pivotFs hh hpivot⟩

/-! ## What can be launched is launched -/

namespace CreateRequest

variable {req : CreateRequest} {out : Outcome Err Unit}

/-- The pivot comes to its end, if there is a root filesystem to be had. -/
theorem pivotIfMount_sure (hroot : .mount ∈ req.targetNs → req.Rootable ∧ req.PathsUsable) :
    Safe req.pivotIfMount :=
  .when (fun hm => pivotFs_sure (hroot hm).1 (hroot hm).2) fun _ => trivial

/-- The child comes to its signal. -/
theorem childSignal_sure (hroot : .mount ∈ req.targetNs → req.Rootable ∧ req.PathsUsable) :
    Safe req.childSignal := by
  unfold childSignal stage
  refine Safe.bind resetChildSignalHandlers_sure fun _ => Safe.bind ?_ fun _ => ?_
  · refine .when (fun _ => Safe.bind (pivotIfMount_sure hroot) fun _ => ?_) fun _ => trivial
    exact .when (fun _ => unshare_sure _) fun _ => trivial
  · exact sys_bind_sure fun _ ha => Safe.bind (check_sure ha) fun _ => .pure trivial

end CreateRequest

/-- The two kinds of requests end alike. -/
theorem launched_of_workload {exec : ExecutableSpec} {capabilities : Option Capabilities}
    {out : Outcome Err Unit} (hexec : exec.Startable)
    (hcaps : ∀ caps, capabilities = some caps → caps.AllKnown) (hh : ∀ e ∈ h, Unrefused e)
    (hr : (preexecPrep exec capabilities >>= fun _ => exec.execute).Runs h out) :
    ∃ program args env, (⟨.execvpe program args env, .ok ()⟩ : Event) ∈ h := by
  obtain ⟨_, h₁, h₂, rfl, -, -, hr₁⟩ := (preexecPrep_sure hcaps).runs_bind hh hr
  obtain ⟨program, args, env, hmem⟩ :=
    ExecutableSpec.execute_comes hexec (fun e he => hh e (List.mem_append_right h₁ he)) hr₁
  exact ⟨program, args, env, List.mem_append_right h₁ hmem⟩

/-- The child of a launchable request comes to the workload. -/
theorem CreateRequest.childMain_comes {req : CreateRequest} {out : Outcome Err Unit}
    (hreq : (Request.create req).Launchable) (hh : ∀ e ∈ h, Unrefused e)
    (hr : req.childMain.Runs h out) :
    ∃ program args env, (⟨.execvpe program args env, .ok ()⟩ : Event) ∈ h := by
  have hroot := hreq.root req rfl
  obtain ⟨_, h₁, h₂, rfl, -, -, hr₁⟩ := (childSignal_sure hroot).runs_bind hh hr
  obtain ⟨a, h₃, rfl, hr₂⟩ := runs_sys_bind.1 hr₁
  have hh₃ : ∀ e ∈ h₃, Unrefused e := fun e he => hh e (by simp [he])
  -- Nothing between the release and the workload can fail
  have hprep (a : Except Errno Nat) (ha : refusalOf a = none) : Safe (do
      let _ ← check a
      Prog.when req.skipTwoStage req.pivotIfMount
      applyOomScore req.exec.oomScoreAdj
      setupConsole req.exec.uid) := by
    refine Safe.bind (check_sure ha) fun _ => Safe.bind ?_ fun _ => ?_
    · exact .when (fun _ => pivotIfMount_sure hroot) fun _ => trivial
    · exact Safe.bind (applyOomScore_sure _) fun _ => setupConsole_sure _
  -- The release was not refused
  have hread : refusalOf a = none := hh ⟨.efdRead .child, a⟩ (by simp)
  obtain ⟨_, h₄, h₅, rfl, -, -, hr₃⟩ := (hprep a hread).runs_bind hh₃ (r := out) (f := fun _ =>
    preexecPrep req.exec req.capabilities >>= fun _ => req.exec.execute) (by
      simp only [bind_assoc]
      exact hr₂)
  obtain ⟨program, args, env, hmem⟩ := launched_of_workload hreq.startable hreq.capabilities
    (fun e he => hh₃ e (List.mem_append_right h₄ he)) hr₃
  exact ⟨program, args, env, by simp [hmem]⟩

/-- A launchable request to create a container launches the workload. -/
theorem CreateRequest.wrap_launches {req : CreateRequest} {out : Outcome Err Unit}
    (hreq : (Request.create req).Launchable) (hh : ∀ e ∈ h, Unrefused e)
    (hr : req.wrap.Runs h out) : Request.Launched h out := by
  obtain ⟨_, h₁, h₂, rfl, -, -, hr₁⟩ := req.prologue_sure.runs_bind hh hr
  obtain ⟨a, h₃, rfl, hr₂⟩ := runs_sys_bind.1 hr₁
  have hh₃ : ∀ e ∈ h₃, Unrefused e := fun e he => hh e (by simp [he])
  have hlaunched := Request.launched_of_halves (hh ⟨.fork, a⟩ (by simp))
    (fun _ => supervise_exits hh₃) (childMain_comes hreq hh₃) hr₂
  exact hlaunched.append_left h₁

/-! ## What is attached to -/

/-- `first_child_pid_of`, with `none` where it finds no child. -/
def findChildPid (parent : Int) : Sys (Option Int) := do
  match ← sys (.fsReadToString
      ("/proc/" ++ toString parent ++ "/task/" ++ toString parent ++ "/children")) with
  | .ok childSet =>
    match parseI32 (firstField childSet) with
    | some v => pure (some v)
    | none => scan
  | .error _ => scan
where
  scan : Sys (Option Int) := do
    let entries ← check (← sys (.fsReadDir "/proc"))
    scanProc ("PPid:\t" ++ toString parent).toList entries

/-- `first_child_pid_of` is the search for a child, with an error where there is none. -/
theorem firstChildPidOf_eq (parent : Int) : firstChildPidOf parent =
    findChildPid parent >>= fun found => found.elim (Prog.fail (noChild parent)) pure := by
  have hscan : scanChildPid parent = findChildPid.scan parent >>= fun found =>
      found.elim (Prog.fail (noChild parent)) pure := by
    unfold scanChildPid findChildPid.scan
    simp only [bind_assoc]
    refine bind_congr fun a => bind_congr fun entries => bind_congr fun found => ?_
    cases found <;> rfl
  -- An unreadable file, or one without a number, leads to the scan
  unfold firstChildPidOf findChildPid
  rw [bind_assoc]
  refine bind_congr fun a => ?_
  cases a with
  | error e => exact hscan
  | ok childSet =>
    dsimp only
    cases parseI32 (firstField childSet) with
    | none => exact hscan
    | some v => rfl

/-- A scan fails only at an entry that could not be listed. -/
theorem scanProc_sure (needle : List Char) {entries : List (Except Errno String)}
    (hentries : entries.findSome? refusalOf = none) : Safe (scanProc needle entries) := by
  -- Entry by entry: a file that cannot be read is passed over
  induction entries with
  | nil => exact .pure trivial
  | cons entry entries ih =>
    rw [List.findSome?_eq_none_iff, List.forall_mem_cons] at hentries
    have hrest : Safe (scanProc needle entries) := ih (List.findSome?_eq_none_iff.2 hentries.2)
    refine Safe.bind (check_sure hentries.1) fun name => ?_
    split
    · exact hrest
    · refine sys_bind_sure fun a _ => ?_
      split
      · split
        · exact .pure trivial
        · exact hrest
      · exact hrest

/-- The search for a child comes to its end. -/
theorem findChildPid_sure (parent : Int) : Safe (findChildPid parent) := by
  have hproc : ¬ HasNul "/proc" := by decide
  have hscan : Safe (findChildPid.scan parent) := by
    refine sys_bind_sure fun a ha => ?_
    obtain ⟨hlist, hentries⟩ := Option.or_eq_none_iff.1 (ha.1 hproc)
    obtain ⟨entries, rfl⟩ := refusalOf_eq_none.1 hlist
    exact scanProc_sure _ hentries
  refine sys_bind_sure fun a _ => ?_
  split
  · split
    · exact .pure trivial
    · exact hscan
  · exact hscan

namespace AttachRequest

variable {req : AttachRequest} {out : Outcome Err Unit}

/-- The prologue once it has a process to attach to. -/
def join (req : AttachRequest) (targetPid : Int) : Sys Unit := do
  let _ ← attempt req.attachCgroup
  setns targetPid req.targetNs
  let _ ← attempt req.exec.setProcessLimits
  applyOomScore req.exec.oomScoreAdj
  orExit setupParentSignalHandlers

/-- Joining a container comes to its end. -/
theorem join_sure (req : AttachRequest) (targetPid : Int) : Safe (req.join targetPid) := by
  unfold join setns
  refine Safe.bind (Sure.attempt_returns req.attachCgroup_returns) fun _ => ?_
  refine Safe.bind (sys_bind_sure fun _ ha => Safe.bind (check_sure ha) fun _ =>
    sys_bind_sure fun _ ha => check_sure ha) fun _ => ?_
  refine Safe.bind (Sure.attempt_returns req.exec.setProcessLimits_returns) fun _ => ?_
  exact Safe.bind (applyOomScore_sure _) fun _ => setupParentSignalHandlers_sure

/-- The child of a launchable request to attach comes to the workload. -/
theorem childMain_comes (hreq : (Request.attach req).Launchable) (hh : ∀ e ∈ h, Unrefused e)
    (hr : req.childMain.Runs h out) :
    ∃ program args env, (⟨.execvpe program args env, .ok ()⟩ : Event) ∈ h := by
  obtain ⟨_, h₁, h₂, rfl, -, -, hr₁⟩ := resetChildSignalHandlers_sure.runs_bind hh hr
  obtain ⟨program, args, env, hmem⟩ := launched_of_workload hreq.startable hreq.capabilities
    (fun e he => hh e (List.mem_append_right h₁ he)) hr₁
  exact ⟨program, args, env, List.mem_append_right h₁ hmem⟩

/-- After joining, the workload is launched in one of the two processes. -/
theorem afterJoin_launches {targetPid : Int} (hreq : (Request.attach req).Launchable)
    (hh : ∀ e ∈ h, Unrefused e)
    (hr : (req.join targetPid >>= fun _ => sys .fork >>= req.afterFork).Runs h out) :
    Request.Launched h out := by
  obtain ⟨_, h₁, h₂, rfl, -, -, hr₁⟩ := (req.join_sure targetPid).runs_bind hh hr
  obtain ⟨a, h₃, rfl, hr₂⟩ := runs_sys_bind.1 hr₁
  have hh₃ : ∀ e ∈ h₃, Unrefused e := fun e he => hh e (by simp [he])
  have hlaunched := Request.launched_of_halves (hh ⟨.fork, a⟩ (by simp))
    (fun _ => supervise_exits hh₃) (childMain_comes hreq hh₃) hr₂
  exact hlaunched.append_left h₁

/-- Unless there is no process to attach to. -/
theorem wrap_launches (hreq : (Request.attach req).Launchable) (hh : ∀ e ∈ h, Unrefused e)
    (hr : req.wrap.Runs h out) : Request.Launched h out ∨
      (findChildPid req.pid).Runs h (.ok none) ∧ out = .err (noChild req.pid) := by
  -- The search for the child comes first, and is the only part that may fail
  have heq : req.wrap = findChildPid req.pid >>= fun found =>
      found.elim (Prog.fail (noChild req.pid)) pure >>= fun targetPid =>
      req.join targetPid >>= fun _ => sys .fork >>= req.afterFork := by
    unfold wrap prologue join
    rw [firstChildPidOf_eq]
    simp only [bind_assoc]
  rw [heq] at hr
  obtain ⟨found, h₁, h₂, rfl, hfind, -, hr₁⟩ := (findChildPid_sure req.pid).runs_bind hh hr
  cases found with
  | none =>
    obtain ⟨rfl, rfl⟩ := runs_fail.1 hr₁
    rw [List.append_nil]
    exact .inr ⟨hfind, rfl⟩
  | some pid =>
    have hh₂ : ∀ e ∈ h₂, Unrefused e := fun e he => hh e (List.mem_append_right h₁ he)
    exact .inl ((afterJoin_launches hreq hh₂ hr₁).append_left h₁)

end AttachRequest

/-! ## Main theorem -/

/-- The answer, or an error if the path cannot be passed on. -/
def unlessNul {α : Type} (path : String) (x : Except Errno α) : Except Errno α :=
  if HasNul path then .error Errno.EPERM else x

/-- The answer of a system that refuses nothing. Who asks is a child, and has one. -/
def Call.grant : (c : Call) → c.Answer
  | .fork => .ok .child
  | .fsWrite path _ | .fsCreateDirAll path | .fsFileCreate path | .fsOpenWrite path
  | .setCurrentDir path => unlessNul path (.ok ())
  | .fsMetadata path | .fsSymlinkMetadata path => unlessNul path (.ok { isDir := true })
  | .fsReadLink path => unlessNul path (.ok "")
  | .fsReadToString path => unlessNul path (.ok "2")
  | .fsReadDir path => unlessNul path (.ok [])
  | c => c.success

/-- What is refused for a path: only that it has a NUL byte. -/
private theorem refusalOf_unlessNul {α : Type} {path : String} {x : Except Errno α}
    (hx : refusalOf x = none) : (¬ HasNul path → refusalOf (unlessNul path x) = none) ∧
      (HasNul path → ∃ e, refusalOf (unlessNul path x) = some e ∧ e ≠ Errno.ENOENT) := by
  unfold unlessNul
  constructor
  · intro hno
    rwa [if_neg hno]
  · intro hnul
    rw [if_pos hnul]
    exact ⟨Errno.EPERM, rfl, by decide⟩

/-- A call that is granted is not refused. -/
theorem unrefused_grant (c : Call) : c.Unrefused c.grant := by
  cases c with
  | fsReadDir path =>
    by_cases hnul : HasNul path
    · have hgrant : (Call.fsReadDir path).grant = .error Errno.EPERM := if_pos hnul
      exact ⟨absurd hnul, fun _ => ⟨Errno.EPERM, by rw [hgrant]; rfl, by decide⟩⟩
    · have hgrant : (Call.fsReadDir path).grant = .ok [] := if_neg hnul
      exact ⟨fun _ => by rw [hgrant]; rfl, fun hyes => absurd hyes hnul⟩
  | fsWrite | fsCreateDirAll | fsFileCreate | fsOpenWrite | setCurrentDir | fsMetadata
  | fsSymlinkMetadata | fsReadLink | fsReadToString => exact refusalOf_unlessNul rfl
  | _ => rfl

/-- Such a system has a process to attach to. -/
theorem findChildPid_grant {parent : Int} (hh : ∀ e ∈ h, e.answer = e.call.grant) :
    ¬ (findChildPid parent).Runs h (.ok none) := by
  intro hr
  obtain ⟨a, h₁, rfl, hr₁⟩ := runs_sys_bind.1 hr
  have hpath : ¬ HasNul ("/proc/" ++ toString parent ++ "/task/" ++ toString parent ++ "/children") := by
    have hparent := not_hasNul_toString_int parent
    simp only [not_hasNul_append]
    exact ⟨⟨⟨⟨by decide, hparent⟩, by decide⟩, hparent⟩, by decide⟩
  have hread : a = .ok "2" := (hh _ List.mem_cons_self).trans (if_neg hpath)
  have hfirst : parseI32 (firstField "2") = some 2 := by decide
  subst hread
  dsimp only at hr₁
  rw [hfirst] at hr₁
  obtain ⟨-, heq⟩ := runs_pure.1 hr₁
  cases heq

namespace Request

variable {r : Request}

/-- Where no system call is refused, what can be launched is launched. -/
theorem wrap_launches {out : Outcome Err Unit} (hreq : r.Launchable) (hh : ∀ e ∈ h, Unrefused e)
    (hr : r.wrap.Runs h out) : Launched h out ∨ r.NoTarget out := by
  cases r with
  | create req => exact .inl (CreateRequest.wrap_launches hreq hh hr)
  | attach req =>
    refine (AttachRequest.wrap_launches hreq hh hr).imp id ?_
    rintro ⟨-, hout⟩
    exact ⟨req, rfl, hout⟩

/-- What can be launched has a run that comes to `execvpe`. -/
theorem exists_launch (hreq : r.Launchable) : ∃ h program args env,
    (∀ e ∈ h, Unrefused e) ∧ r.wrap.At h (.execvpe program args env) := by
  let ω : calls.Answers := fun _ => Call.grant
  have hr : r.wrap.Runs (r.wrap.eval ω []).1 (r.wrap.eval ω []).2 := eval_runs ω r.wrap []
  -- The run in which every call is granted, and a fork makes the process the child
  have hgrant : ∀ e ∈ (r.wrap.eval ω []).1, e.answer = e.call.grant := by
    intro e he
    obtain ⟨h₁, h₂, hsplit⟩ := List.append_of_mem he
    exact eval_follows ω r.wrap [] h₁ e h₂ hsplit
  generalize (r.wrap.eval ω []).1 = h at hr hgrant
  have hh : ∀ e ∈ h, Unrefused e := by
    intro e he
    show e.call.Unrefused e.answer
    rw [hgrant e he]
    exact unrefused_grant e.call
  -- Nothing was refused, so the request is launched
  have hlaunched : Launched h (r.wrap.eval ω []).2 := by
    cases r with
    | create req => exact CreateRequest.wrap_launches hreq hh hr
    | attach req =>
      rcases AttachRequest.wrap_launches hreq hh hr with hlaunched | ⟨hnone, -⟩
      · exact hlaunched
      · -- A child was found, since every directory and file is read
        exact absurd hnone (findChildPid_grant hgrant)
  -- Launched here, or by the other process
  rcases hlaunched with ⟨program, args, env, hmem⟩ | ⟨child, code, hfork, -⟩
  · obtain ⟨h₁, h₂, rfl⟩ := List.append_of_mem hmem
    exact ⟨h₁, program, args, env, fun e he => hh e (List.mem_append_left _ he), hr.at_of_split⟩
  · -- the answer to `fork` makes it the child
    have hanswer : (.ok (.parent child) : Except Errno ForkResult) = .ok .child := hgrant _ hfork
    cases hanswer

/-- Every request is accepted, so `validate` is sound just for those that can be launched. -/
theorem sound_iff (r : Request) : r.Sound ↔ r.Launchable := by
  constructor
  · intro hsound
    by_contra hno
    obtain ⟨e, he⟩ :=
      hsound.refuses fun h program args env hh hat => hno (launchable_of_at hh hat)
    cases r <;> cases he
  · intro hreq
    refine ⟨fun _ h out hh hr => wrap_launches hreq hh hr, fun hnever => ?_⟩
    obtain ⟨h, program, args, env, hh, hat⟩ := exists_launch hreq
    exact absurd hat (hnever h program args env hh)

/-- A request without an executable is accepted. -/
theorem not_sound_default : ¬ (create default).Sound := by
  intro hsound
  obtain ⟨e, he⟩ := hsound.refuses fun h program args env hh hat =>
    (launchable_of_at hh hat).startable.executable rfl
  cases he

end Request

end Styrolite
