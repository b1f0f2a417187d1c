import Styrolite.Spec.DescriptorCorrect
import Styrolite.Spec.OomScoreCorrect

/-!
# Attaching puts the workload into the container

The workload of `AttachRequest.wrap` runs in a child of the process that has
called `setns`, so that it is in every namespace that is joined, also in those
which a process enters only with its next child. No other process is moved, and
there is no call on mounts, host names, id maps, owners of files or eventfds. The
files that are written are `cgroup.procs` of the control group of the workload, and
the score and the profile that a process sets for itself.

## Key results

- `AttachRequest.wrap_joins`: the namespaces of the attached workload
- `wraps_share`: a container and a workload attached to it have the same namespaces
-/

namespace Styrolite

open Prog Kernel

/-! ## Processes that are not part of a run -/

theorem NsState.next_ns_other (s : NsState) {p r : Int} (hr : r ≠ p) (c : Call) (a : c.Answer)
    (hspawn : ∀ b, spawn c a ≠ some (r, b)) : (s.next p c a).ns r = s.ns r := by
  unfold NsState.next
  split
  · exact Function.update_of_ne hr _ _
  · exact Function.update_of_ne hr _ _
  · next q =>
    have hne : r ≠ q := fun heq => hspawn (.ok .child) (by rw [heq]; rfl)
    exact Function.update_of_ne hne _ _
  · rfl
  · rfl
  · rfl

/-- What is not a process of the run stays in its namespaces. -/
theorem ns_of_not_proc {target root : Int} {p : Sys Unit} {s₀ : World}
    {cfg : Config calls Int World Err Unit} (hr : (attaching target).Reachable root p s₀ cfg)
    {r : Int} (hnone : cfg.procs r = none) : cfg.state.ns.ns r = s₀.ns.ns r := by
  -- A process that is not there has taken no step, and none has made it
  induction hr with
  | refl => rfl
  | tail hr hs ih =>
    cases hs with
    | @call pid h c k a hproc _ hspawn =>
      have hpid : r ≠ pid := by
        rintro rfl
        simp at hnone
      have hold := (Function.update_of_ne hpid _ _).symm.trans hnone
      refine (NsState.next_ns_other _ hpid c a fun b hb => ?_).trans (ih hold)
      cases hspawn.symm.trans hb
    | @spawn pid q h c k a b hproc _ hspawn _ =>
      have hq : r ≠ q := by
        rintro rfl
        simp at hnone
      have hpid : r ≠ pid := by
        rintro rfl
        simp [hq] at hnone
      have hold := (Function.update_of_ne hpid _ _).symm.trans
        ((Function.update_of_ne hq _ _).symm.trans hnone)
      refine (NsState.next_ns_other _ hpid c a fun b' hb => ?_).trans (ih hold)
      cases hspawn.symm.trans hb
      exact hq rfl

/-! ## The files of the host -/

/-- The call makes or writes a file or a directory. -/
def Call.writesFile : Call → Bool
  | .fsWrite _ _ | .fsWriteAll _ _ | .fsCreateDirAll _ | .fsFileCreate _ | .procWrite _ _ => true
  | _ => false

/-- The kinds of calls that write files. -/
def writeKinds : List Call.Kind := [.file, .userns, .oom]

theorem Call.kind_of_writesFile {c : Call} (hc : c.writesFile = true) : c.kind ∈ writeKinds := by
  unfold writesFile at hc
  split at hc
  · exact List.mem_cons_self
  · exact List.mem_cons_self
  · exact List.mem_cons_self
  · exact List.mem_cons_self
  · next file _ => cases file <;> simp [kind, writeKinds]
  · cases hc

/-- A process puts itself into the control group of the workload. -/
def AttachRequest.JoinsCgroup (req : AttachRequest) (c : Call) : Prop :=
  ∃ supervisor pid : Nat, c = .fsWrite (pathPush (pathPush (req.cgroupfs.getD "/sys/fs/cgroup")
    ("styrolite-" ++ req.workloadId.getD (toString supervisor))) "cgroup.procs") (toString pid)

/-- A process stages the AppArmor profile of its next `execve`. -/
def Call.StagesProfile (c : Call) : Prop :=
  ∃ profile, c = .fsWriteAll "/proc/self/attr/apparmor/exec" profile ∨
    c = .fsWriteAll "/proc/self/attr/exec" profile

/-- A process sets its own out-of-memory score. -/
def Call.SetsScore (c : Call) : Prop := ∃ score, c = .procWrite .oomScoreAdj score

/-- The call writes no file but that of the control group and the process's own profile and score. -/
def AttachRequest.WritesOwn (req : AttachRequest) (c : Call) : Prop :=
  c.writesFile = true → req.JoinsCgroup c ∨ c.StagesProfile ∨ c.SetsScore

section

variable {req : AttachRequest}

/-- What makes calls of other kinds only writes no file. -/
theorem writesOwn_of_within {α : Type} {p : Sys α} {ks : List Call.Kind}
    (hp : p.Uses (Call.within ks)) (hks : ∀ k ∈ writeKinds, k ∉ ks) : p.Uses req.WritesOwn :=
  hp.mono fun _ hc hwrites => absurd hc (hks _ (Call.kind_of_writesFile hwrites))

/-- A call that writes no file may be made anywhere. -/
theorem uses_sys_reads (c : Call) (hc : c.writesFile = false) :
    (sys c).Uses req.WritesOwn :=
  .sys (I := calls) fun hwrites => absurd (hc.symm.trans hwrites) Bool.false_ne_true

theorem scanProc_writesOwn (needle : List Char) (entries : List (Except Errno String)) :
    (scanProc needle entries).Uses req.WritesOwn := by
  induction entries with
  | nil => exact .pure _
  | cons entry entries ih =>
    unfold scanProc
    refine .bind (.check _ _) fun name => ?_
    split
    · exact ih
    · refine .bind (uses_sys_reads _ rfl) fun r => ?_
      split
      · split
        · exact .pure _
        · exact ih
      · exact ih

/-- Looking for the first child reads files only. -/
theorem firstChildPidOf_writesOwn (parent : Int) :
    (firstChildPidOf parent).Uses req.WritesOwn := by
  have hscan : (scanChildPid parent).Uses req.WritesOwn := by
    unfold scanChildPid
    refine .bind (uses_sys_reads _ rfl) fun r => .bind (.check _ _) fun _ =>
      -- The scan reads files, and so does what comes before it
      .bind (scanProc_writesOwn _ _) fun pid => ?_
    split
    · exact .pure _
    · exact .fail _
  unfold firstChildPidOf
  refine .bind (uses_sys_reads _ rfl) fun r => ?_
  split
  · split
    · exact .pure _
    · exact hscan
  · exact hscan

/-- The control group is opened, and its `cgroup.procs` is written. -/
theorem AttachRequest.attachCgroup_writesOwn : req.attachCgroup.Uses req.WritesOwn := by
  unfold attachCgroup identity CGroup.openRoot CGroup.setChildValue
  refine .bind (uses_sys_reads _ rfl) fun pid => .bind_runs
    (.bind (uses_sys_reads _ rfl) fun _ => .pure _) fun h wid hwid => .bind (uses_sys_reads _ rfl)
    fun there => .when fun _ => .bind_runs (.bind (.check _ _) fun _ =>
      .bind (uses_sys_reads _ rfl) fun _ => .bind (.check _ _) fun _ => .pure _) fun h' g hg =>
    .bind (.sys (I := calls) fun _ => .inl ?_) fun _ => .check _ _
  -- The name of the group is that of the workload, and the group that is opened has it
  obtain ⟨supervisor, _, -, hpure⟩ := runs_sys_bind.1 hwid
  obtain rfl := Outcome.ok.inj (runs_pure.1 hpure).2
  obtain ⟨_, _, _, -, hg, -⟩ := runs_bind_ok.1 hg
  obtain ⟨_, _, -, hg⟩ := runs_sys_bind.1 hg
  obtain ⟨_, _, _, -, hg, -⟩ := runs_bind_ok.1 hg
  obtain rfl := Outcome.ok.inj (runs_pure.1 hg).2
  exact ⟨supervisor, pid, rfl⟩

theorem changeOnexec_writesOwn (profile : String) : (changeOnexec profile).Uses req.WritesOwn := by
  unfold changeOnexec
  refine .bind (uses_sys_reads _ rfl) fun r => ?_
  split
  · exact .bind (.sys (I := calls) fun _ => .inr (.inl ⟨_, .inl rfl⟩)) fun _ => .check _ _
  · split
    · exact .bind (uses_sys_reads _ rfl) fun r => .bind (.check _ _) fun _ =>
        .bind (.sys (I := calls) fun _ => .inr (.inl ⟨_, .inr rfl⟩)) fun _ => .check _ _
    · exact .fail _

/-- The workload may be started in another directory and under another profile. -/
theorem ExecutableSpec.execute_writesOwn (exec : ExecutableSpec) :
    exec.execute.Uses req.WritesOwn := by
  unfold execute
  refine .bind (uses_sys_reads _ rfl) fun _ => .bind (.check _ _) fun _ =>
    .bind (.check _ _) fun _ => .bind (.check _ _) fun _ => .bind (.check _ _) fun _ =>
    .bind (.whenSome fun _ _ => .bind (uses_sys_reads _ rfl) fun _ => .check _ _) fun _ =>
    .bind (.when fun _ => writesOwn_of_within setNoNewPrivs_uses (by decide)) fun _ =>
    .bind (writesOwn_of_within exec.installSeccomp_uses (by decide)) fun _ =>
    .bind (.whenSome fun _ _ => .mapErr (changeOnexec_writesOwn _)) fun _ =>
    .bind (writesOwn_of_within resetSigpipe_uses (by decide)) fun _ =>
    .bind (uses_sys_reads _ rfl) fun r => ?_
  split
  · exact .pure _
  · exact .fail _

/-- The score is the process's own. -/
theorem applyOomScore_writesOwn (score : Option Int) : (applyOomScore score).Uses req.WritesOwn :=
  .whenSome fun _ _ => .bind (.sys (I := calls) fun _ => .inr (.inr ⟨_, rfl⟩)) fun _ => .check _ _

/-- What `wrap` writes, it writes to the control group and to files of the process's own. -/
theorem AttachRequest.wrap_writesOwn : req.wrap.Uses req.WritesOwn := by
  unfold wrap prologue
  refine .bind (.bind (firstChildPidOf_writesOwn _) fun _ =>
    .bind (.attempt attachCgroup_writesOwn) fun _ =>
    .bind (writesOwn_of_within (setns_uses _ _) (by decide)) fun _ =>
    .bind (.attempt (writesOwn_of_within req.exec.setProcessLimits_uses (by decide))) fun _ =>
    .bind (applyOomScore_writesOwn _) fun _ =>
    writesOwn_of_within (orExit_uses setupParentSignalHandlers_uses) (by decide)) fun _ =>
    .bind (uses_sys_reads _ rfl) fun r => ?_
  unfold afterFork
  refine .bind (.check _ _) fun r => ?_
  -- The supervisor only waits, and the child comes to the workload
  split
  · exact writesOwn_of_within (supervise_uses _) (by decide)
  · unfold childMain
    exact .bind (writesOwn_of_within (orExit_uses resetChildSignalHandlers_uses) (by decide)) fun _ =>
      .bind (writesOwn_of_within (preexecPrep_uses _ _) (by decide)) fun _ => req.exec.execute_writesOwn

end

namespace AttachRequest

variable {req : AttachRequest} {target root child pid : Int} {s₀ : World}
  {cfg : Config calls Int World Err Unit} {h : List Event} {program : String}
  {args env : List String} {k : Except Errno Unit → Sys Unit}

/-- The kinds of calls that change mounts, host names, id maps, owners of files or eventfds. -/
def hostKinds : List Call.Kind :=
  [.mount, .pivot, .uts, .userns, .chown, .eventfd, .efd, .enterPivot, .enterUserns]

/-- What holds of every call of `wrap`, and of `fork`, holds of the calls of a run. -/
theorem trace_of_uses (hr : (attaching target).Reachable root req.wrap s₀ cfg) {S : Call → Prop}
    (huses : req.wrap.Uses S) (hfork : S .fork) {e : Event} (he : (pid, e) ∈ cfg.trace) :
    S e.call := by
  have htrace := Reachable.trace_of (Φ := fun _ (e : Event) => S e.call)
    (fun cfg pid h c k a hr hproc _ => huses h c ⟨k, hr.reaches hproc⟩) hr he
  rcases htrace with hno | ⟨a, r, hs⟩
  · exact hno
  · obtain ⟨c, b⟩ := e
    change spawn c a = some (r, b) at hs
    unfold spawn at hs
    split at hs
    · exact hfork
    · cases hs

theorem wrap_spares (hr : (attaching target).Reachable root req.wrap s₀ cfg) {e : Event}
    (he : (pid, e) ∈ cfg.trace) : e.call.kind ∉ hostKinds := by
  refine trace_of_uses hr (S := fun c => c.kind ∉ hostKinds) (fun h c hat => ?_) (by decide) he
  have hin : c.kind ∈ _ := req.wrap_uses h c hat
  show c.kind ∉ hostKinds
  revert hin
  cases c.kind <;> decide

/-- The workload is not the process that has called `setns`, and is in what that has joined. -/
theorem execvpe_joined (hchildren : s₀.ns.forChildren root = s₀.ns.ns root)
    (hr : (attaching target).Reachable root req.wrap s₀ cfg)
    (hproc : cfg.procs pid = some ⟨h, .call (I := calls) (.execvpe program args env) k⟩) :
    pid ≠ root ∧ cfg.state.ns.serial = s₀.ns.serial ∧ ∀ kind, cfg.state.ns.ns pid kind =
      if kind ∈ req.targetNs then s₀.ns.ns target kind else s₀.ns.ns root kind := by
  obtain ⟨h₀, h₁, h₂, p₁, p₂, hp⟩ := pair_of_execvpe hr hproc
  obtain ⟨t, hjoin, hoom, hrest, rfl, hj, hscore, hsame⟩ := prologue_runs hp.prologue
  -- The fork gives the child the namespaces for children, which `setns` has set
  have hns : cfg.state.ns = ((s₀.ns.setns root target (Namespace.cloneFlags req.targetNs)).setScore
      root req.exec.oomScoreAdj).fork root pid := by
    rw [hp.ns, NsState.after_append, NsState.after_append, hsame,
      CreateRequest.applyOomScore_ns _ _ hscore, joined_ns hp.lawful hj]
  refine ⟨hp.ne, ?_, fun kind => ?_⟩
  · rw [hns]
    cases req.exec.oomScoreAdj <;> rfl
  · have hchild : cfg.state.ns.ns pid =
        (s₀.ns.setns root target (Namespace.cloneFlags req.targetNs)).forChildren root := by
      rw [hns]
      cases req.exec.oomScoreAdj <;> simp [NsState.fork, NsState.setScore, NsState.setOom]
    rw [hchild]
    simp [NsState.setns, hchildren]

/-- An attached workload is the child of the process that has joined the namespaces, and is in all
    of them; in the others it is where that process was. No namespace is made, no process outside
    the run is moved, mounts, host names, id maps, owners of files and eventfds are left alone,
    and no file is written but `cgroup.procs` of the workload's control group and the profile and
    the score of the writing process. -/
theorem wrap_joins (hchildren : s₀.ns.forChildren root = s₀.ns.ns root)
    (hr : (attaching target).Reachable root req.wrap s₀ cfg) :
    (∀ x ∈ cfg.trace, x.2.call.kind ∉ hostKinds ∧ req.WritesOwn x.2.call) ∧
    (∀ r, cfg.procs r = none → cfg.state.ns.ns r = s₀.ns.ns r) ∧
    ∀ pid h program args env k,
      cfg.procs pid = some ⟨h, .call (I := calls) (.execvpe program args env) k⟩ →
      pid ≠ root ∧ cfg.state.ns.serial = s₀.ns.serial ∧ ∀ kind, cfg.state.ns.ns pid kind =
        if kind ∈ req.targetNs then s₀.ns.ns target kind else s₀.ns.ns root kind :=
  ⟨fun _ hx => ⟨wrap_spares hr hx,
      trace_of_uses hr wrap_writesOwn (fun hwrites => absurd hwrites Bool.false_ne_true) hx⟩,
    fun _ hnone => ns_of_not_proc hr hnone,
    fun _ _ _ _ _ _ hproc => execvpe_joined hchildren hr hproc⟩

/-! ## A run to the workload -/

end AttachRequest

/-- Each process is in namespaces of its own. -/
def World.apart : World :=
  { World.fresh with
    ns := { World.fresh.ns with ns := fun p _ => p.toNat, forChildren := fun p _ => p.toNat } }

namespace AttachRequest

variable {req : AttachRequest} {target root child : Int}

/-- The call is not a `setns`, or one on `target`. -/
def joinsOnly (target : Int) : Call → Bool
  | .setns pid _ => pid = target
  | _ => true

theorem allows_of_joinsOnly {c : Call} (hc : c.free = true ∧ joinsOnly target c = true) (s : World)
    (p : Int) (h : List Event) (a : c.Answer) : (attaching target).allows s p h c a := by
  refine ⟨s.allows_of_free p a hc.1, fun pid flags heq => ?_⟩
  subst heq
  exact of_decide_eq_true hc.2

/-- The prologue and then a part of the child's run, of calls that may be answered at any time. -/
theorem exists_at_child {h₀ h₂ : List Event} {c : Call} (s₀ : World) (hne : child ≠ root)
    (hpro : req.prologue.Runs h₀ (.ok ())) (hchild : req.childMain.At h₂ c)
    (hfree₀ : ∀ e ∈ h₀, e.call.free = true ∧ joinsOnly target e.call = true)
    (hfree : ∀ e ∈ h₂, e.call.free = true ∧ joinsOnly target e.call = true) :
    ∃ cfg h k, (attaching target).Reachable root req.wrap s₀ cfg ∧
      cfg.procs child = some ⟨h, .call (I := calls) c k⟩ := by
  -- up to the fork
  have hl : (attaching target).Lawful s₀ root h₀ := fun h₁ e h₂ heq =>
    allows_of_joinsOnly (hfree₀ e (by simp [heq])) _ _ _ _
  obtain ⟨cfg₁, hforked, -, hproc₁⟩ := exists_forked (fun _ _ => rfl) hpro hl
    ⟨trivial, fun pid flags heq => by cases heq⟩
    (fun e he => Call.ne_fork_of_free (hfree₀ e he).1) hne req.afterFork
  -- the child
  obtain ⟨k, hat⟩ := hchild
  have hrest := (attaching target).steps_of_reaches hproc₁ hat
    (fun h₁ e h₂ heq => allows_of_joinsOnly (hfree e (by simp [heq])) _ _ _ _)
    (fun e he => spawn_none _ (Call.ne_fork_of_free (hfree e he).1))
  exact ⟨_, _, k, hforked.trans hrest, Function.update_self _ _ _⟩

/-- A shell in the given namespaces of the first child of process 1. -/
def shell (nss : List Namespace) : AttachRequest :=
  { (default : AttachRequest) with
    pid := 1
    exec := { (default : ExecutableSpec) with executable := some "/bin/sh" }
    namespaces := some nss }

/-- It can be started by any process, from any state. -/
theorem shell_starts (root child : Int) (s₀ : World) (hne : child ≠ root) : ∃ cfg h k,
    (attaching 2).Reachable root (shell [.mount, .pid]).wrap s₀ cfg ∧
      cfg.procs child = some ⟨h, .call (I := calls) (.execvpe "/bin/sh" ["/bin/sh"] []) k⟩ := by
  have hlast : ((shell [.mount, .pid]).childMain.eval succeeding []).1 =
      ((shell [.mount, .pid]).childMain.eval succeeding []).1.dropLast ++
        [⟨.execvpe "/bin/sh" ["/bin/sh"] [], Except.ok ()⟩] := rfl
  have hrun := (shell [.mount, .pid]).childMain.eval_runs succeeding []
  rw [hlast] at hrun
  exact exists_at_child s₀ hne ((shell [.mount, .pid]).prologue.eval_runs succeeding [])
    hrun.at_of_split (by decide) (by decide)

/-- The shell gets into the mount and process-id namespaces of process 2. -/
theorem wrap_joins_shell : ∃ cfg h k,
    (attaching 2).Reachable 3 (shell [.mount, .pid]).wrap .apart cfg ∧
      cfg.procs 4 = some ⟨h, .call (I := calls) (.execvpe "/bin/sh" ["/bin/sh"] []) k⟩ ∧
      cfg.state.ns.ns 4 .mount = 2 ∧ cfg.state.ns.ns 4 .pid = 2 ∧ cfg.state.ns.ns 4 .uts = 3 := by
  obtain ⟨cfg, h, k, hr, hproc⟩ := shell_starts 3 4 .apart (by decide)
  obtain ⟨-, -, hexec⟩ := wrap_joins rfl hr
  obtain ⟨-, -, hns⟩ := hexec _ _ _ _ _ _ hproc
  exact ⟨cfg, h, k, hr, hproc, hns .mount, hns .pid, hns .uts⟩

end AttachRequest

/-! ## The container and who attaches to it -/

theorem CreateRequest.container_forChildren_other {req : CreateRequest} {root child r : Int}
    {s₀ : World} (hroot : r ≠ root) (hne : r ≠ child) :
    (req.container s₀ root child).forChildren r = s₀.ns.forChildren r := by
  have hforked : (req.forked s₀.ns root child).forChildren r = s₀.ns.forChildren r := by
    simp [forked, NsState.fork, NsState.unshare, Function.update_of_ne hne,
      Function.update_of_ne hroot]
  unfold container settled staged
  rw [← hforked]
  cases req.skipTwoStage <;> cases req.exec.oomScoreAdj <;> by_cases hm : .mount ∈ req.targetNs <;>
    by_cases hu : .user ∈ req.targetNs <;>
    simp [hm, hu, NsState.setScore, NsState.setOom, NsState.pivotRoot, NsState.unshare,
      Function.update_of_ne hne]

/-- A workload that is attached to a container from where the container was created has all its
    namespaces. -/
theorem wraps_share {create : CreateRequest} {attach : AttachRequest} {root r child pid : Int}
    {s₀ : World} {cfg cfg' : Config calls Int World Err Unit} {h h' : List Event}
    {program program' : String} {args args' env env' : List String}
    {k k' : Except Errno Unit → Sys Unit} (hs₀ : s₀.Initial root)
    (hr : linux.Reachable root create.wrap s₀ cfg)
    (hproc : cfg.procs child = some ⟨h, .call (I := calls) (.execvpe program args env) k⟩)
    (hroot : r ≠ root) (hne : r ≠ child) (hsame : s₀.ns.ns r = s₀.ns.ns root)
    (hchildren : s₀.ns.forChildren r = s₀.ns.ns r) (hns : attach.targetNs = create.targetNs)
    (hr' : (attaching child).Reachable r attach.wrap cfg.state cfg')
    (hproc' : cfg'.procs pid = some ⟨h', .call (I := calls) (.execvpe program' args' env') k'⟩) :
    cfg'.state.ns.ns pid = cfg.state.ns.ns child := by
  have hcontainer := CreateRequest.container_ns hr hproc
  have hchildren' : cfg.state.ns.forChildren r = cfg.state.ns.ns r := by
    rw [hcontainer, CreateRequest.container_forChildren_other hroot hne,
      CreateRequest.container_ns_other hroot hne, hchildren]
  obtain ⟨-, -, hjoined⟩ := AttachRequest.execvpe_joined hchildren' hr' hproc'
  funext kind
  rw [hjoined kind, hns]
  split
  · rfl
  · next hout =>
    -- what is not joined is where the container was created
    rw [hcontainer, CreateRequest.container_ns_other hroot hne, hsame, CreateRequest.container,
      CreateRequest.execvpe_ns hs₀, if_neg hout]

/-- A container with a mount and a process-id namespace, and a shell in it. -/
theorem wraps_share_shell : ∃ cfg h k cfg' h' k',
    linux.Reachable 1 (CreateRequest.simple [.mount, .pid]).wrap .fresh cfg ∧
    cfg.procs 2 = some ⟨h, .call (I := calls) (.execvpe "/bin/true" ["/bin/true"] []) k⟩ ∧
    (attaching 2).Reachable 3 (AttachRequest.shell [.mount, .pid]).wrap cfg.state cfg' ∧
    cfg'.procs 4 = some ⟨h', .call (I := calls) (.execvpe "/bin/sh" ["/bin/sh"] []) k'⟩ ∧
    cfg'.state.ns.ns 4 = cfg.state.ns.ns 2 := by
  -- A container by the schedule, and then a shell that joins it
  have hforks := CreateRequest.forks_of_succeeds (.simple [.mount, .pid]) succeeding 1 2
    ⟨(), by decide⟩ rfl (by decide)
  obtain ⟨cfg, h, k, hr, hproc⟩ := CreateRequest.childRest_comes_to
    (c := .execvpe "/bin/true" ["/bin/true"] []) .fresh hforks ⟨(), by decide⟩ rfl ⟨(), by decide⟩
    rfl (fun s h₁ e h₂ heq _ => CreateRequest.childRest_allows (by decide) s h₁ e h₂ heq)
    (by decide)
  obtain ⟨cfg', h', k', hr', hproc'⟩ := AttachRequest.shell_starts 3 4 cfg.state (by decide)
  exact ⟨cfg, h, k, cfg', h', k', linux_of_under hr, hproc, hr', hproc',
    wraps_share (r := 3) (World.fresh_initial 1) (linux_of_under hr) hproc (by decide) (by decide)
      rfl rfl rfl hr' hproc'⟩

end Styrolite
