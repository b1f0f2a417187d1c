import Styrolite.Spec.Location
import Styrolite.Spec.WorkloadIdCorrect

/-!
# What `prepare_cgroup` writes

With limits `prepare_cgroup` creates the directory `styrolite-<id>` in its base
and writes a file in it for each limit. The files a control group is run by have
names that start with `cgroup.`, and the loop over the limits skips the keys that
do. The key is then pushed to a path, and so is the id, where `.`, `..`, `/` and an
absolute path have their meanings.

## Key results

- `prepareCgroup_of_limits`: the three parts of `prepare_cgroup` with limits
- `openSubtree_runs`, `limitsLoop_uses`: the directory, and the files in it
- `prepareCgroup_confined_iff`: for which ids and keys the writes are confined
-/

namespace Styrolite

open Prog

/-- The body of `CGroup::open` for a path that can be one. -/
theorem CGroup.openRoot_of_not_nul {root : String} (hroot : ¬ HasNul root) :
    CGroup.openRoot root = (sys (.faccessat root) >>= fun r => check r >>= fun _ => pure ⟨root⟩) := by
  rw [CGroup.openRoot, cString_of_not_nul hroot]
  rfl

/-- Opening a cgroup is one check of its path, and a handle of it. -/
theorem CGroup.openRoot_runs {root : String} {h : List Event} {g : CGroup} :
    (CGroup.openRoot root).Runs h (.ok g) ↔
      g = ⟨root⟩ ∧ ¬ HasNul root ∧ h = [⟨.faccessat root, .ok ()⟩] := by
  by_cases hnul : HasNul root
  · simp [CGroup.openRoot, orFail, cString_of_nul hnul, hnul]
  · rw [CGroup.openRoot_of_not_nul hnul, runs_sys_bind]
    constructor
    · rintro ⟨a, h', rfl, hr⟩
      obtain ⟨u, rfl, hr⟩ := runs_check_bind_ok.1 hr
      obtain ⟨rfl, heq⟩ := runs_pure.1 hr
      cases heq
      exact ⟨rfl, hnul, rfl⟩
    · rintro ⟨rfl, -, rfl⟩
      exact ⟨.ok (), [], rfl, .refl _⟩

namespace CreateRequest

variable {req : CreateRequest} {cwd : List FileName} {pid : Nat} {h : List Event}

/-- The control group that a request is to be set up in. -/
def cgroupBase (req : CreateRequest) : String := req.cgroupfs.getD "/sys/fs/cgroup"

/-- The directory of a workload in it. -/
def cgroupDir (req : CreateRequest) (wid : String) : String :=
  pathPush req.cgroupBase ("styrolite-" ++ wid)

/-- What comes before the loop over the limits. -/
def openSubtree (req : CreateRequest) (limits : BTreeMap) : Sys CGroup := do
  let cgroot ← CGroup.openRoot req.cgroupBase
  enableControllers cgroot limits
  let wid ← req.identity
  cgroot.createChild ("styrolite-" ++ wid)

/-- The loop over the limits. -/
def limitsLoop (limits : BTreeMap) (subtree : CGroup) : Sys Unit :=
  forM limits.entries (setLimit subtree)

/-- `prepare_cgroup` of a request with limits. -/
theorem prepareCgroup_of_limits {limits : BTreeMap} (hl : req.limits = some limits) :
    req.prepareCgroup = (sys .getpid >>= fun pid =>
      req.openSubtree limits >>= fun subtree =>
      limitsLoop limits subtree >>= fun _ =>
      subtree.setChildValue "cgroup.procs" (toString pid)) := by
  simp only [prepareCgroup, openSubtree, limitsLoop, hl, Prog.when, Option.isNone_some,
    Bool.false_eq_true, false_and, not_false_eq_true, if_true, bind_assoc, cgroupBase]

/-- The process ids in the history are `pid`. -/
def Told (pid : Nat) (h : List Event) : Prop := ∀ n : Nat, ⟨.getpid, n⟩ ∈ h → n = pid

/-- The id of the workload, when the process has been told its number. -/
theorem identity_told {wid : String} (hr : req.identity.Runs h (.ok wid)) (ht : Told pid h) :
    wid = req.workload pid := by
  obtain ⟨n, rfl, rfl⟩ := identity_runs hr
  rw [ht n (by simp)]
  rfl

/-- A child cgroup is made under its parent's path. -/
theorem createChild_runs {g g' : CGroup} {child : String}
    (hr : (g.createChild child).Runs h (.ok g')) :
    g' = ⟨pathPush g.root child⟩ ∧ ¬ HasNul (pathPush g.root child) := by
  obtain ⟨a, h', -, hr₁⟩ := runs_sys_bind.1 hr
  obtain ⟨u, -, hr₂⟩ := runs_check_bind_ok.1 hr₁
  obtain ⟨rfl, hnul, -⟩ := CGroup.openRoot_runs.1 hr₂
  exact ⟨rfl, hnul⟩

/-- The directory that is opened is that of the workload. -/
theorem openSubtree_runs {limits : BTreeMap} {subtree : CGroup}
    (hr : (req.openSubtree limits).Runs h (.ok subtree)) (ht : Told pid h) :
    ¬ HasNul req.cgroupBase ∧ subtree = ⟨req.cgroupDir (req.workload pid)⟩ ∧
      ¬ HasNul (req.cgroupDir (req.workload pid)) := by
  obtain ⟨cgroot, h₁, h₂, hopen, hr₁, rfl⟩ := runs_bind_ok.1 hr
  obtain ⟨rfl, hbase, -⟩ := CGroup.openRoot_runs.1 hopen
  obtain ⟨u, h₃, h₄, -, hr₂, rfl⟩ := runs_bind_ok.1 hr₁
  obtain ⟨wid, h₅, h₆, hid, hchild, rfl⟩ := runs_bind_ok.1 hr₂
  obtain rfl := identity_told hid fun n hn => ht n (by simp [hn])
  exact ⟨hbase, createChild_runs hchild⟩

/-- The files the loop writes. -/
theorem limitsLoop_uses (limits : BTreeMap) (subtree : CGroup) :
    (limitsLoop limits subtree).Uses fun (c : Call) => ∃ entry ∈ limits.entries,
      ¬ "cgroup.".toList <+: entry.1.toList ∧
        c = .fsWrite (pathPush subtree.root entry.1) entry.2 :=
  .forM fun entry hentry => .when fun hguard => .bind
    (.attempt (.bind (Uses.sys (I := calls) ⟨entry, hentry, hguard, rfl⟩) fun _ => .check _ _))
    fun _ => .pure _

/-- The directory that is created, if any, is that of the workload. -/
theorem at_create {path : String} (hat : req.prepareCgroup.At h (.fsCreateDirAll path))
    (ht : Told pid h) :
    req.limits.isSome ∧ ¬ HasNul req.cgroupBase ∧ path = req.cgroupDir (req.workload pid) := by
  -- Only the creation of the child makes a directory
  have hopen : ∀ root, (CGroup.openRoot root).Uses fun (c : Call) => c ≠ .fsCreateDirAll path :=
    fun root => .bind (.check _ _) fun _ => .bind (Uses.sys (I := calls) (by simp)) fun _ =>
      .bind (.check _ _) fun _ => .pure _
  have hset : ∀ (g : CGroup) k v, (g.setChildValue k v).Uses fun (c : Call) =>
      c ≠ .fsCreateDirAll path := fun g k v =>
    .bind (Uses.sys (I := calls) (by simp)) fun _ => .check _ _
  have hloop : ∀ limits g, (limitsLoop limits g).Uses fun (c : Call) => c ≠ .fsCreateDirAll path :=
    fun limits g => (limitsLoop_uses limits g).mono fun c hc heq => by
      obtain ⟨entry, -, -, hwrite⟩ := hc
      rw [heq] at hwrite
      cases hwrite
  have henable : ∀ g limits, (enableControllers g limits).Uses fun (c : Call) =>
      c ≠ .fsCreateDirAll path := fun g limits =>
    .bind (Uses.sys (I := calls) (by simp)) fun _ =>
      .when fun _ => .bind (.attempt (hset _ _ _)) fun _ => .pure _
  -- Without limits no child is created
  cases hl : req.limits with
  | none =>
    have huses : req.prepareCgroup.Uses fun (c : Call) => c ≠ .fsCreateDirAll path := by
      refine .when fun _ => .bind (Uses.sys (I := calls) (by simp)) fun _ =>
        .bind (hopen _) fun _ => ?_
      rw [hl]
      exact hset _ _ _
    exact absurd rfl (huses _ _ hat)
  | some limits =>
    -- With limits it is made once, between opening the base and opening the child
    rw [prepareCgroup_of_limits hl] at hat
    rcases at_sys_bind.1 hat with ⟨-, hc⟩ | ⟨n, h₁, rfl, hat₁⟩
    · cases hc
    -- Up to the call the base is opened, the controllers are enabled and the id is made
    have hat₂ := at_bind_left (fun g => .bind (hloop limits g) fun _ => hset _ _ _) (by simp) hat₁
    obtain ⟨cgroot, h₂, h₃, hr, hat₃, rfl⟩ := at_bind_right (hopen _) (by simp) hat₂
    obtain ⟨rfl, hbase, -⟩ := CGroup.openRoot_runs.1 hr
    obtain ⟨u, h₄, h₅, -, hat₄, rfl⟩ := at_bind_right (henable _ _) (by simp) hat₃
    have hident : req.identity.Uses fun (c : Call) => c ≠ .fsCreateDirAll path :=
      .bind (Uses.sys (I := calls) (by simp)) fun _ => .pure _
    obtain ⟨wid, h₆, h₇, hid, hat₅, rfl⟩ := at_bind_right hident (by simp) hat₄
    obtain rfl := identity_told hid fun m hm => ht m (by simp [hm])
    rcases at_sys_bind.1 hat₅ with ⟨-, hc⟩ | ⟨a, h₈, -, hat₆⟩
    · cases hc
      exact ⟨rfl, hbase, rfl⟩
    · rcases at_check_bind.1 hat₆ with ⟨v, -, hat₇⟩
      exact absurd rfl (hopen _ _ _ hat₇)

/-! ## Confinement -/

/-- In its limits loop, over the directory `dir`, the run is about to write to `path`. -/
def WritesLimit (req : CreateRequest) (h : List Event) (dir path : String) : Prop :=
  ∃ (limits : BTreeMap) (n : Nat) (h₁ h₂ : List Event) (value : String),
    req.limits = some limits ∧ h = ⟨.getpid, n⟩ :: (h₁ ++ h₂) ∧
      (req.openSubtree limits).Runs h₁ (.ok ⟨dir⟩) ∧
      (limitsLoop limits ⟨dir⟩).At h₂ (.fsWrite path value)

/-- Of a process `pid` in the directory `cwd`, the directory that is created is a child of the
    base, and each file that the loop writes is a child of that directory and has another name
    than those it means to block. (A directory is no file: a write to one is refused.) -/
structure CgroupConfined (req : CreateRequest) (pid : Nat) (cwd : List FileName) : Prop where
  created : ∀ h path, Told pid h → req.prepareCgroup.At h (.fsCreateDirAll path) → ¬ HasNul path →
    ∃ name, locate cwd path = locate cwd req.cgroupBase ++ [name]
  written : ∀ h dir path, Told pid h → req.WritesLimit h dir path → ¬ HasNul path →
    ¬ locate cwd path <+: locate cwd dir →
    ∃ name, locate cwd path = locate cwd dir ++ [name] ∧ ¬ "cgroup.".toList <+: name

/-- The path leads from the directory `base` to a child of it: once its ups and downs are cancelled
    it goes down by one name, or by those it has climbed out of and one name. -/
def EntersBase (base : List FileName) (child : String) : Prop :=
  ∃ name, downNames child = climbedNames base child ++ [name]

/-- The key leads so to a child of the directory `dir` that the loop does not mean to block, or
    no further than to a directory on the way to `dir`. An absolute key spells the way to `dir` out. -/
def KeyFits (dir : List FileName) (key : String) : Prop :=
  let climbed := if IsAbsolute key then dir else climbedNames dir key
  downNames key <+: climbed ∨
    ∃ name, downNames key = climbed ++ [name] ∧ ¬ "cgroup.".toList <+: name

/-- The id and the keys of the limits are spelled so that they stay in their directories. -/
def WellSpelled (req : CreateRequest) (pid : Nat) (cwd : List FileName) : Prop :=
  let wid := req.workload pid
  ∀ limits, req.limits = some limits → ¬ HasNul req.cgroupBase →
    ¬ HasNul (req.cgroupDir wid) →
    EntersBase (locate cwd req.cgroupBase) ("styrolite-" ++ wid) ∧
      ∀ entry ∈ limits.entries, ¬ "cgroup.".toList <+: entry.1.toList →
        ¬ HasNul (pathPush (req.cgroupDir wid) entry.1) →
        KeyFits (locate cwd (req.cgroupDir wid)) entry.1

/-! ## Runs -/

/-- Every call succeeds, and the process is told that it is `pid`. -/
def toldAnswers (pid : Nat) : calls.Answers := fun _ c =>
  match c with
  | .getpid => pid
  | c => c.success

/-- Answers that tell the number tell it in every history that follows them. -/
theorem told_of_follows {h₀ : List Event} (hf : Follows (toldAnswers pid) h₀ h) : Told pid h := by
  intro n hn
  obtain ⟨h₁, h₂, rfl⟩ := List.append_of_mem hn
  exact hf h₁ _ h₂ rfl

/-- Told in two histories, one after the other. -/
theorem Told.append {h' : List Event} (ht : Told pid h) (ht' : Told pid h') : Told pid (h ++ h') :=
  fun n hn => (List.mem_append.1 hn).elim (ht n) (ht' n)

/-- And told by the answer itself. -/
theorem Told.cons (ht : Told pid h) : Told pid (⟨.getpid, pid⟩ :: h) := by
  intro n hn
  rcases List.mem_cons.1 hn with heq | hn
  · cases heq
    rfl
  · exact ht n hn

/-- The id is made from the number told. -/
theorem identity_runs_told (req : CreateRequest) (pid : Nat) :
    req.identity.Runs [⟨.getpid, pid⟩] (.ok (req.workload pid)) :=
  runs_sys_bind.2 ⟨pid, [], rfl, .refl _⟩

/-- A turn of the loop over the limits always succeeds: its errors are logged. -/
theorem setLimit_always (subtree : CGroup) (entry : String × String) :
    (setLimit subtree entry).Always (toldAnswers pid) :=
  .when fun _ => .bind
    (.attempt (.bind (.sys (I := calls) _) fun _ => .check _ _)) fun _ => .pure _

/-- Enabling the controllers always succeeds. -/
theorem enableControllers_always (pid : Nat) (g : CGroup) (limits : BTreeMap) :
    (enableControllers g limits).Always (toldAnswers pid) :=
  .bind (.sys (I := calls) _) fun _ => .when fun _ => .bind
    (.attempt (.bind (.sys (I := calls) _) fun _ => .check _ _)) fun _ => .pure _

/-- A run up to the directory of the workload. -/
theorem exists_openSubtree (limits : BTreeMap) (hbase : ¬ HasNul req.cgroupBase) (pid : Nat) :
    ∃ h, Told pid h ∧ (req.openSubtree limits).Reaches h
      (CGroup.createChild ⟨req.cgroupBase⟩ ("styrolite-" ++ req.workload pid)) := by
  obtain ⟨h, ⟨⟩, hr, hf⟩ := enableControllers_always pid ⟨req.cgroupBase⟩ limits []
  refine ⟨[⟨.faccessat req.cgroupBase, .ok ()⟩] ++ (h ++ [⟨.getpid, pid⟩]), ?_, ?_⟩
  · have hfirst : Told pid [⟨.faccessat req.cgroupBase, .ok ()⟩] := by
      intro n hn
      simp at hn
    have hlast : Told pid [⟨.getpid, pid⟩] := Told.cons fun n hn => absurd hn List.not_mem_nil
    exact hfirst.append ((told_of_follows hf).append hlast)
  · refine reaches_bind.2 (.inr ⟨_, _, _, CGroup.openRoot_runs.2 ⟨rfl, hbase, rfl⟩, ?_, rfl⟩)
    refine reaches_bind.2 (.inr ⟨_, _, _, hr, ?_, rfl⟩)
    exact reaches_bind.2 (.inr ⟨_, _, _, req.identity_runs_told pid, .refl _, by simp⟩)

/-- The directory of the workload can come to be created. -/
theorem exists_at_create {limits : BTreeMap} (hl : req.limits = some limits)
    (hbase : ¬ HasNul req.cgroupBase) (pid : Nat) :
    ∃ h, Told pid h ∧
      req.prepareCgroup.At h (.fsCreateDirAll (req.cgroupDir (req.workload pid))) := by
  obtain ⟨h, ht, hr⟩ := exists_openSubtree limits hbase pid
  refine ⟨⟨.getpid, pid⟩ :: h, ht.cons, ?_⟩
  rw [prepareCgroup_of_limits hl]
  refine at_sys_bind.2 (.inr ⟨pid, h, rfl, at_bind.2 (.inl ?_)⟩)
  exact ⟨_, hr⟩

/-- The loop can come to write for any of the limits that it does not block. -/
theorem exists_writesLimit (pid : Nat) {limits : BTreeMap} (hl : req.limits = some limits)
    (hbase : ¬ HasNul req.cgroupBase) (hdir : ¬ HasNul (req.cgroupDir (req.workload pid)))
    {entry : String × String} (hentry : entry ∈ limits.entries)
    (hguard : ¬ "cgroup.".toList <+: entry.1.toList) :
    ∃ h, Told pid h ∧ req.WritesLimit h (req.cgroupDir (req.workload pid))
      (pathPush (req.cgroupDir (req.workload pid)) entry.1) := by
  obtain ⟨h, ht, hr⟩ := exists_openSubtree limits hbase pid
  have hchild : (CGroup.createChild ⟨req.cgroupBase⟩ ("styrolite-" ++ req.workload pid)).Runs
      [⟨.fsCreateDirAll (req.cgroupDir (req.workload pid)), .ok ()⟩,
        ⟨.faccessat (req.cgroupDir (req.workload pid)), .ok ()⟩]
      (.ok ⟨req.cgroupDir (req.workload pid)⟩) :=
    runs_sys_bind.2 ⟨.ok (), _, rfl, CGroup.openRoot_runs.2 ⟨rfl, hdir, rfl⟩⟩
  -- the limits before this one are written, or fail to be
  obtain ⟨before, after, hsplit⟩ := List.append_of_mem hentry
  obtain ⟨h', ⟨⟩, hr', hf'⟩ := Always.forM (ω := toldAnswers pid) (l := before)
    (fun e _ => setLimit_always ⟨req.cgroupDir (req.workload pid)⟩ e) []
  refine ⟨_, ?_, limits, pid, _, h', entry.2, hl, rfl, hr.trans hchild, ?_⟩
  · refine Told.cons ((ht.append fun n hn => ?_).append (told_of_follows hf'))
    simp at hn
  · rw [limitsLoop, hsplit, List.forM_append, List.forM_cons]
    refine at_bind.2 (.inr ⟨⟨⟩, h', [], hr', at_bind.2 (.inl ?_), by simp⟩)
    rw [setLimit, Prog.when, if_pos hguard]
    exact at_bind.2 (.inl (at_attempt.2 (at_sys_bind.2 (.inl ⟨rfl, rfl⟩))))

/-! ## Main theorem -/

/-- The path of a limit that is written. -/
theorem WritesLimit.path {dir path : String} (hw : req.WritesLimit h dir path) (ht : Told pid h) :
    ∃ limits, req.limits = some limits ∧ ¬ HasNul req.cgroupBase ∧
      dir = req.cgroupDir (req.workload pid) ∧ ¬ HasNul dir ∧
      ∃ entry ∈ limits.entries, ¬ "cgroup.".toList <+: entry.1.toList ∧
        path = pathPush dir entry.1 := by
  obtain ⟨limits, n, h₁, h₂, value, hl, rfl, hr, hat⟩ := hw
  obtain ⟨hbase, heq, hdir⟩ := openSubtree_runs hr fun m hm => ht m (by simp [hm])
  obtain ⟨entry, hentry, hguard, hc⟩ := limitsLoop_uses limits ⟨dir⟩ _ _ hat
  cases heq
  cases hc
  exact ⟨limits, hl, hbase, rfl, hdir, entry, hentry, hguard, rfl⟩

/-- The container's directory is `styrolite-` and the id, seen from the base. -/
theorem locate_cgroupDir (cwd : List FileName) (req : CreateRequest) (wid : String) :
    locate cwd (req.cgroupDir wid) = locate (locate cwd req.cgroupBase) ("styrolite-" ++ wid) :=
  locate_pathPush cwd req.cgroupBase ("styrolite-" ++ wid)

/-- The container's directory has a relative name. -/
theorem styrolite_not_absolute (wid : String) : ¬ IsAbsolute ("styrolite-" ++ wid) := by
  simp [IsAbsolute]

/-- The directory is one below the base exactly if its name leads there. -/
theorem entersBase_iff {base : List FileName} {wid : String} :
    EntersBase base ("styrolite-" ++ wid) ↔
      ∃ name, locate base ("styrolite-" ++ wid) = base ++ [name] := by
  simp only [EntersBase, locate_eq_append_iff, if_neg (styrolite_not_absolute wid)]

/-- A key fits if it leads to a file of the directory that is none of cgroup v2's own. -/
theorem keyFits_iff {dir : List FileName} {key : String} :
    KeyFits dir key ↔ (¬ locate dir key <+: dir →
      ∃ name, locate dir key = dir ++ [name] ∧ ¬ "cgroup.".toList <+: name) := by
  simp only [KeyFits, locate_prefix_iff, locate_eq_append_iff, Decidable.or_iff_not_imp_left]

/-- The writes of `prepare_cgroup` are confined if and only if the id and the keys are well
    spelled. -/
theorem prepareCgroup_confined_iff (req : CreateRequest) (pid : Nat) (cwd : List FileName) :
    req.CgroupConfined pid cwd ↔ req.WellSpelled pid cwd := by
  constructor
  · -- A run in which all succeeds reaches every directory and every write
    intro hconf limits hl hbase hdir
    constructor
    · obtain ⟨h, ht, hat⟩ := exists_at_create hl hbase pid
      rw [entersBase_iff, ← locate_cgroupDir]
      exact hconf.created h _ ht hat hdir
    · intro entry hentry hguard hnul
      obtain ⟨h, ht, hw⟩ := exists_writesLimit pid hl hbase hdir hentry hguard
      rw [keyFits_iff, ← locate_pathPush]
      exact hconf.written h _ _ ht hw hnul
  · -- Conversely each call is one of these
    intro hspelled
    constructor
    · intro h path ht hat hnul
      obtain ⟨hl, hbase, rfl⟩ := at_create hat ht
      obtain ⟨limits, hl⟩ := Option.isSome_iff_exists.1 hl
      rw [locate_cgroupDir]
      exact entersBase_iff.1 (hspelled limits hl hbase hnul).1
    · intro h dir path ht hw hnul
      obtain ⟨limits, hl, hbase, rfl, hdir, entry, hentry, hguard, rfl⟩ := hw.path ht
      rw [locate_pathPush]
      exact keyFits_iff.1 ((hspelled limits hl hbase hdir).2 entry hentry hguard hnul)

/-- A request with a limit for one key. -/
def limited (key value : String) : CreateRequest :=
  { CreateRequest.simple [] with
    workloadId := some "web"
    cgroupfs := some "/sys/fs/cgroup/styrolite-1000"
    limits := some ⟨[(key, value)], by simp⟩ }

/-- A key with a `.` before it reaches a file that the loop means to block. -/
theorem prepareCgroup_not_confined :
    ¬ (limited "./cgroup.procs" "1").CgroupConfined 7 [] := by
  intro hconf
  obtain ⟨h, ht, hw⟩ := exists_writesLimit 7
    (show (limited "./cgroup.procs" "1").limits = some _ from rfl) (by decide) (by decide)
    List.mem_cons_self (by decide)
  obtain ⟨name, heq, hname⟩ := hconf.written h _ _ ht hw (by decide) (by decide)
  have hprocs : locate [] (pathPush ((limited "./cgroup.procs" "1").cgroupDir "web")
      "./cgroup.procs") =
      locate [] ((limited "./cgroup.procs" "1").cgroupDir "web") ++ ["cgroup.procs".toList] := by
    decide
  obtain rfl : name = "cgroup.procs".toList := by
    simpa using List.append_cancel_left (heq.symm.trans hprocs)
  exact hname (by decide)

end CreateRequest

end Styrolite
