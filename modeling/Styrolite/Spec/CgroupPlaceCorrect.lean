import Styrolite.ForStd.Jobs
import Styrolite.Spec.CgroupWritesCorrect

/-!
# Where a workload and its attached processes are placed

`prepare_cgroup` puts the supervisor into the directory `styrolite-<id>` if there
are limits, else into the base if one is given, else nowhere. `attach_cgroup`
looks whether the directory `styrolite-<id>` is there. Here the two are compared
over histories in which supervisors start, call `prepare_cgroup` and end in any
order, while the directories they leave stay.

## Key results

- `CgroupFs.next_cgroupOf`: the one write that moves a process
- `prepareCgroup_writes`: what `prepare_cgroup` writes to a `cgroup.procs`
- `reachable_placed`: where the supervisors of a history are
- `attachCgroup_agrees`: an attached process joins the supervisor of its workload
-/

namespace Styrolite

open Prog

/-- The directories of the control groups, and the one that each process is in. -/
structure CgroupFs where
  dirs : Set (List FileName)
  cgroupOf : Nat → List FileName

/-- The file of a directory to which processes are written that are to move there. -/
def procsFile : FileName := "cgroup.procs".toList

namespace CgroupFs

/-- The text names the process `m`, if `writer` writes it: by its number, or 0 for the writer. -/
def Names (writer : Nat) (text : String) (m : Nat) : Prop :=
  text = toString m ∨ (text = "0" ∧ m = writer)

/-- Whether a text names a process can be computed. -/
instance (writer : Nat) (text : String) (m : Nat) : Decidable (Names writer text m) :=
  inferInstanceAs (Decidable (_ ∨ _))

variable (cwd : List FileName)

/-- What a process in the directory `cwd` may be answered. A directory that is there is found. A
    call that fails may do so for any reason. -/
def allows (s : CgroupFs) (pid : Nat) : (c : Call) → c.Answer → Prop
  | .getpid, n => n = pid
  | .fsExists path, there => ¬ HasNul path → locate cwd path ∈ s.dirs → there = true
  | .faccessat _, _ => True
  | .fsCreateDirAll path, .ok _ => ¬ HasNul path
  | .fsWrite path _, .ok _ => ¬ HasNul path ∧ (locate cwd path).dropLast ∈ s.dirs
  | _, _ => True

/-- A directory is created with those above it. A write to `cgroup.procs` moves the process. -/
def next (s : CgroupFs) (pid : Nat) : (c : Call) → c.Answer → CgroupFs
  | .fsCreateDirAll path, .ok _ => { s with dirs := s.dirs ∪ { d | d <+: locate cwd path } }
  | .fsWrite path text, .ok _ =>
    { s with
      cgroupOf := fun m =>
        if (locate cwd path).getLast? = some procsFile ∧ Names pid text m
        then (locate cwd path).dropLast else s.cgroupOf m }
  | _, _ => s

variable {cwd}

/-- Only a write to a `cgroup.procs` moves a process, and only one that names it. -/
theorem next_cgroupOf (s : CgroupFs) (pid m : Nat) {c : Call} {a : c.Answer}
    (hother : ∀ path text, c = .fsWrite path text →
      (locate cwd path).getLast? = some procsFile → ¬ Names pid text m) :
    (s.next cwd pid c a).cgroupOf m = s.cgroupOf m := by
  unfold next
  split
  · rfl
  · next path text u => exact if_neg fun hmoves => hother path text rfl hmoves.1 hmoves.2
  · rfl

/-- No call takes a directory away. -/
theorem next_dirs (s : CgroupFs) (pid : Nat) (c : Call) (a : c.Answer) {d : List FileName}
    (hd : d ∈ s.dirs) : d ∈ (s.next cwd pid c a).dirs := by
  unfold next
  split
  · exact .inl hd
  · exact hd
  · exact hd

/-- The write that moves a process. -/
theorem next_moves (s : CgroupFs) (pid : Nat) {path text : String} {u : Unit} {d : List FileName}
    (hpath : locate cwd path = d ++ [procsFile]) {m : Nat} (hm : Names pid text m) :
    (s.next cwd pid (.fsWrite path text) (.ok u)).cgroupOf m = d := by
  simp [next, hpath, hm]

/-- A process that writes its own number moves no other. -/
theorem Names.eq {writer m : Nat} (hm : Names writer (toString writer) m) : m = writer := by
  rcases hm with heq | ⟨-, heq⟩
  · exact (CreateRequest.toString_injective heq).symm
  · exact heq

/-- A process that moves itself moves no other. -/
theorem next_cgroupOf_of_ne (s : CgroupFs) {writer m : Nat} (hne : m ≠ writer) (path : String) :
    (s.next cwd writer (.fsWrite path (toString writer)) (.ok ())).cgroupOf m = s.cgroupOf m := by
  refine s.next_cgroupOf writer m fun path' text hc _ hnames => ?_
  cases hc
  exact hne hnames.eq

end CgroupFs

/-- The control groups, as the processes see them that are in the directory `cwd`. -/
def cgroupKernel (cwd : List FileName) : Kernel calls Nat CgroupFs where
  allows s pid _ c a := s.allows cwd pid c a
  next s pid c a := s.next cwd pid c a
  spawn _ _ := none

/-- A history is lawful if its first call is allowed, and the rest after it. -/
theorem cgroup_lawful_cons {cwd : List FileName} {s : CgroupFs} {pid : Nat} {e : Event} {h : List Event} :
    (cgroupKernel cwd).Lawful s pid (e :: h) ↔ s.allows cwd pid e.call e.answer ∧
      (cgroupKernel cwd).Lawful (s.next cwd pid e.call e.answer) pid h := by
  constructor
  · intro hlawful
    exact ⟨hlawful [] e h rfl, fun h₁ e' h₂ heq => hlawful (e :: h₁) e' h₂ (by rw [heq]; rfl)⟩
  · rintro ⟨hfirst, hrest⟩ h₁ e' h₂ heq
    cases h₁ with
    | nil =>
      cases heq
      exact hfirst
    | cons e'' h₁ =>
      cases heq
      exact hrest h₁ e' h₂ rfl

/-! ## Where `prepare_cgroup` writes -/

/-- A plain name leads to what is below by that name. -/
theorem locate_name (l : List FileName) {name : String} (hrel : ¬ IsAbsolute name)
    (hsteps : pathSteps name = [.down name.toList]) : locate l name = l ++ [name.toList] := by
  rw [locate, if_neg hrel, hsteps]
  rfl

/-- The `cgroup.procs` of a control group. -/
theorem locate_procs (cwd : List FileName) (root : String) :
    locate cwd (pathPush root "cgroup.procs") = locate cwd root ++ [procsFile] := by
  rw [locate_pathPush]
  exact locate_name _ (by decide) (by decide)

/-- `cgroup.subtree_control` is not the file of processes. -/
theorem locate_subtree_control (cwd : List FileName) (root : String) :
    (locate cwd (pathPush root "cgroup.subtree_control")).getLast? ≠ some procsFile := by
  rw [locate_pathPush, locate_name _ (by decide) (by decide), List.getLast?_append_cons]
  decide

/-- Setting a value is one write that succeeded. -/
theorem CGroup.setChildValue_runs {g : CGroup} {child value : String} {h : List Event}
    (hr : (g.setChildValue child value).Runs h (.ok ())) :
    h = [⟨.fsWrite (pathPush g.root child) value, .ok ()⟩] := by
  obtain ⟨a, h', rfl, hr₁⟩ := runs_sys_bind.1 hr
  cases a with
  | error e => cases (runs_done.1 hr₁).2
  | ok u =>
    obtain ⟨rfl, -⟩ := runs_done.1 hr₁
    rfl

namespace CreateRequest

variable {req : CreateRequest} {cwd : List FileName} {pid : Nat} {h : List Event}

/-- No key of the limits that the loop does not block leads to a `cgroup.procs`. -/
def SparesProcs (req : CreateRequest) (pid : Nat) (cwd : List FileName) : Prop :=
  ∀ limits, req.limits = some limits → ∀ entry ∈ limits.entries,
    ¬ "cgroup.".toList <+: entry.1.toList →
    (locate cwd (pathPush (req.cgroupDir (req.workload pid)) entry.1)).getLast? ≠ some procsFile

/-- A process only writes itself to a `cgroup.procs`. -/
theorem prepareCgroup_writes {path text : String} (hspares : req.SparesProcs pid cwd)
    (hat : req.prepareCgroup.At h (.fsWrite path text)) (ht : Told pid h)
    (hprocs : (locate cwd path).getLast? = some procsFile) : text = toString pid := by
  -- Opening a directory writes nothing
  have hopen : ∀ root, (CGroup.openRoot root).Uses fun (c : Call) => c ≠ .fsWrite path text :=
    fun root => .bind (.check _ _) fun _ => .bind (Uses.sys (I := calls) (by simp)) fun _ =>
      .bind (.check _ _) fun _ => .pure _
  -- The write that is meant to join the control group
  have hlast : ∀ {g : CGroup} {n : Nat} {h' : List Event}, n = pid →
      (g.setChildValue "cgroup.procs" (toString n)).At h' (.fsWrite path text) →
      text = toString pid := by
    rintro g n h' rfl hat'
    rcases at_sys_bind.1 hat' with ⟨-, hc⟩ | ⟨a, h₁, -, hat₁⟩
    · cases hc
      rfl
    · exact absurd hat₁ not_at_check
  -- Without limits that is the only write
  cases hl : req.limits with
  | none =>
    obtain ⟨-, hat₁⟩ := at_when.1 hat
    rcases at_sys_bind.1 hat₁ with ⟨-, hc⟩ | ⟨n, h₁, rfl, hat₂⟩
    · cases hc
    obtain ⟨g, h₂, h₃, -, hat₃, -⟩ := at_bind_right (hopen _) (by simp) hat₂
    rw [hl] at hat₃
    exact hlast (ht n (by simp)) hat₃
  | some limits =>
    rw [prepareCgroup_of_limits hl] at hat
    rcases at_sys_bind.1 hat with ⟨-, hc⟩ | ⟨n, h₁, rfl, hat₁⟩
    · cases hc
    rcases at_bind.1 hat₁ with hat₂ | ⟨g, h₂, h₃, hr, hat₂, rfl⟩
    · -- before the loop only the controllers are enabled
      obtain ⟨cgroot, _, h₃, -, hat₃, -⟩ := at_bind_right (hopen _) (by simp) hat₂
      rcases at_bind.1 hat₃ with hat₄ | ⟨u, _, h₅, -, hat₄, -⟩
      · rcases at_sys_bind.1 hat₄ with ⟨-, hc⟩ | ⟨cs, h₆, -, hat₅⟩
        · cases hc
        rcases at_bind.1 (at_when.1 hat₅).2 with hat₆ | ⟨x, _, h₇, -, hat₆, -⟩
        · rcases at_sys_bind.1 (at_attempt.1 hat₆) with ⟨-, hc⟩ | ⟨a, h₇, -, hat₇⟩
          · cases hc
            exact absurd hprocs (locate_subtree_control cwd _)
          · exact absurd hat₇ not_at_check
        · exact absurd hat₆ at_pure
      · have hchild : (req.identity >>= fun wid =>
            cgroot.createChild ("styrolite-" ++ wid)).Uses fun (c : Call) =>
              c ≠ .fsWrite path text :=
          .bind (.bind (Uses.sys (I := calls) (by simp)) fun _ => .pure _) fun _ =>
            .bind (Uses.sys (I := calls) (by simp)) fun _ => .bind (.check _ _) fun _ => hopen _
        exact absurd rfl (hchild _ _ hat₄)
    · obtain ⟨-, rfl, -⟩ := openSubtree_runs hr fun m hm => ht m (by simp [hm])
      rcases at_bind.1 hat₂ with hat₃ | ⟨u, _, h₄, -, hat₃, -⟩
      · -- The loop writes limits, none of which leads to a `cgroup.procs`
        obtain ⟨entry, hentry, hguard, hc⟩ := limitsLoop_uses limits _ _ _ hat₃
        cases hc
        exact absurd hprocs (hspares limits hl entry hentry hguard)
      · exact hlast (ht n (by simp)) hat₃

/-- The last thing `prepare_cgroup` does with limits is to move into the workload's directory. -/
theorem prepareCgroup_moves (hl : req.limits.isSome) (hr : req.prepareCgroup.Runs h (.ok ()))
    (ht : Told pid h) :
    ∃ h₀, ¬ HasNul (req.cgroupDir (req.workload pid)) ∧ h = h₀ ++
      [⟨.fsWrite (pathPush (req.cgroupDir (req.workload pid)) "cgroup.procs") (toString pid),
        .ok ()⟩] := by
  obtain ⟨limits, hl⟩ := Option.isSome_iff_exists.1 hl
  rw [prepareCgroup_of_limits hl] at hr
  obtain ⟨n, h₁, rfl, hr₁⟩ := runs_sys_bind.1 hr
  obtain ⟨g, h₂, h₃, hopen, hr₂, rfl⟩ := runs_bind_ok.1 hr₁
  obtain ⟨-, rfl, hdir⟩ := openSubtree_runs hopen fun m hm => ht m (by simp [hm])
  obtain ⟨u, h₄, h₅, -, hset, rfl⟩ := runs_bind_ok.1 hr₂
  obtain rfl := CGroup.setChildValue_runs hset
  obtain rfl : n = pid := ht n (by simp)
  exact ⟨⟨.getpid, n⟩ :: (h₂ ++ h₄), hdir, by simp⟩

end CreateRequest

/-! ## Histories -/

/-- Supervisors that each call `prepare_cgroup`. Other processes may be moved by others. -/
def cgroupJobs (cwd : List FileName) : Jobs calls Nat CreateRequest CgroupFs Err Unit where
  kernel := cgroupKernel cwd
  prog := CreateRequest.prepareCgroup
  admits pid req := req.SparesProcs pid cwd
  outside pid s s' := ∃ d, s' = { s with cgroupOf := Function.update s.cgroupOf pid d }

variable {cwd : List FileName} {s₀ : CgroupFs}
  {w : Jobs.World calls Nat CreateRequest CgroupFs Err Unit} {h : List Event}

/-- A process is told its own id, and is where its last call has moved it. -/
structure Stays (cwd : List FileName) (pid : Nat) (h : List Event) (s : CgroupFs) : Prop where
  told : CreateRequest.Told pid h
  moved : ∀ h₀ path d, h = h₀ ++ [⟨.fsWrite path (toString pid), .ok ()⟩] →
    locate cwd path = d ++ [procsFile] → s.cgroupOf pid = d ∧ d ∈ s.dirs

/-- After its own call. -/
theorem Stays.call {pid : Nat} {s : CgroupFs} {c : Call} {a : c.Answer} (hst : Stays cwd pid h s)
    (hallows : s.allows cwd pid c a) : Stays cwd pid (h ++ [⟨c, a⟩]) (s.next cwd pid c a) where
  told := hst.told.append fun n hn => by
    obtain ⟨⟩ := List.mem_singleton.1 hn
    exact hallows
  moved h₀ path d heq hpath := by
    obtain ⟨-, hlast⟩ := List.append_inj' heq rfl
    cases hlast
    refine ⟨s.next_moves pid hpath (.inl rfl), s.next_dirs pid _ _ ?_⟩
    simpa [hpath] using hallows.2

/-- While others do what leaves it in place. -/
theorem Stays.others {pid : Nat} {s s' : CgroupFs} (hst : Stays cwd pid h s)
    (hplace : s'.cgroupOf pid = s.cgroupOf pid) (hdirs : ∀ d ∈ s.dirs, d ∈ s'.dirs) :
    Stays cwd pid h s' where
  told := hst.told
  moved h₀ path d heq hpath := by
    obtain ⟨hd, hmem⟩ := hst.moved h₀ path d heq hpath
    exact ⟨hplace.trans hd, hdirs d hmem⟩

/-- Every supervisor stays where it has moved itself. -/
theorem reachable_stays (hr : (cgroupJobs cwd).Reachable s₀ w) {pid : Nat} {req : CreateRequest}
    {p : Process calls Err Unit} (hproc : w.procs pid = some (req, p)) :
    Stays cwd pid p.hist w.state := by
  refine Jobs.Reachable.invariant (Φ := fun pid _ h s => Stays cwd pid h s)
    (fun pid j s _ => ⟨fun n hn => absurd hn List.not_mem_nil, fun h₀ path d heq => by simp at heq⟩)
    (fun pid j h c k s a _ _ hst hallows => hst.call hallows) ?_ ?_ hr hproc
  · intro pid j h s q j' h' c k a hne hst hspares hat hst' hallows
    refine hst.others ?_ fun d hd => s.next_dirs q c a hd
    -- another process only moves itself
    refine s.next_cgroupOf q pid fun path text hc hprocs hnames => ?_
    subst hc
    obtain rfl := CreateRequest.prepareCgroup_writes hspares ⟨k, hat⟩ hst'.told hprocs
    exact hne hnames.eq
  · rintro pid j h s s' q hne hst ⟨d, rfl⟩
    exact hst.others (Function.update_of_ne hne _ _) fun d hd => hd

/-- A supervisor whose `prepare_cgroup` with limits is over is in its workload's directory. -/
theorem reachable_placed (hr : (cgroupJobs cwd).Reachable s₀ w) {pid : Nat} {req : CreateRequest}
    (hproc : w.procs pid = some (req, ⟨h, .done (.ok ())⟩)) (hl : req.limits.isSome) :
    ¬ HasNul (req.cgroupDir (req.workload pid)) ∧
      w.state.cgroupOf pid = locate cwd (req.cgroupDir (req.workload pid)) ∧
      locate cwd (req.cgroupDir (req.workload pid)) ∈ w.state.dirs := by
  have hst := reachable_stays hr hproc
  obtain ⟨h₀, hnul, heq⟩ := CreateRequest.prepareCgroup_moves hl (hr.job hproc).2 hst.told
  exact ⟨hnul, hst.moved h₀ _ _ heq (locate_procs cwd _)⟩

/-! ## Attaching -/

namespace AttachRequest

/-- The directory of a workload, for an attached process. -/
def cgroupDir (req : AttachRequest) (wid : String) : String :=
  pathPush (req.cgroupfs.getD "/sys/fs/cgroup") ("styrolite-" ++ wid)

/-- `attach_cgroup` ends where it found no directory, or with a move into it. -/
theorem attachCgroup_runs {req : AttachRequest} {wid : String} (hwid : req.workloadId = some wid)
    (hr : req.attachCgroup.Runs h (.ok ())) :
    ∃ n m : Nat,
      h = [⟨.getpid, n⟩, ⟨.getpid, m⟩, ⟨.fsExists (req.cgroupDir wid), false⟩] ∨
      h = [⟨.getpid, n⟩, ⟨.getpid, m⟩, ⟨.fsExists (req.cgroupDir wid), true⟩,
        ⟨.faccessat (req.cgroupDir wid), .ok ()⟩,
        ⟨.fsWrite (pathPush (req.cgroupDir wid) "cgroup.procs") (toString n), .ok ()⟩] := by
  -- The number is read twice, and the id is the one that is given
  obtain ⟨n, h₁, rfl, hr₁⟩ := runs_sys_bind.1 hr
  obtain ⟨x, h₂, h₃, hid, hr₂, rfl⟩ := runs_bind_ok.1 hr₁
  obtain ⟨m, h₄, rfl, hx⟩ := runs_sys_bind.1 hid
  obtain ⟨rfl, heq⟩ := runs_pure.1 hx
  rw [hwid] at heq
  cases heq
  obtain ⟨there, h₅, rfl, hr₃⟩ := runs_sys_bind.1 hr₂
  refine ⟨n, m, ?_⟩
  -- The directory is there or not; no later call has a choice
  cases there with
  | false =>
    obtain ⟨rfl, -⟩ := runs_done.1 hr₃
    exact .inl rfl
  | true =>
    obtain ⟨g, h₆, h₇, hopen, hset, rfl⟩ := runs_bind_ok.1 hr₃
    obtain ⟨rfl, -, rfl⟩ := CGroup.openRoot_runs.1 hopen
    obtain rfl := CGroup.setChildValue_runs hset
    exact .inr rfl

end AttachRequest

/-- A process attached to a workload that is running, with its id and its control group, is then
    in the same directory as its supervisor if that has limits; and if the workload asked for no
    control group and has none, the process is where it was. -/
theorem attachCgroup_agrees (hr : (cgroupJobs cwd).Reachable s₀ w) {pid : Nat}
    {req : CreateRequest} (hproc : w.procs pid = some (req, ⟨h, .done (.ok ())⟩))
    {areq : AttachRequest} {wid : String} (hwid : areq.workloadId = some wid)
    (hsame : req.workloadId = areq.workloadId) (hcg : req.cgroupfs = areq.cgroupfs) {q : Nat}
    {h' : List Event} (hrun : areq.attachCgroup.Runs h' (.ok ()))
    (hlawful : (cgroupKernel cwd).Lawful w.state q h') :
    let s := (cgroupKernel cwd).after w.state q h'
    (req.limits.isSome → s.cgroupOf q = s.cgroupOf pid) ∧
      (req.limits = none → req.cgroupfs = none →
        locate cwd (areq.cgroupDir wid) ∉ w.state.dirs → s.cgroupOf q = w.state.cgroupOf q) := by
  -- Both requests come to the same directory
  have hdir : req.cgroupDir (req.workload pid) = areq.cgroupDir wid := by
    rw [CreateRequest.workload, hsame, hwid, CreateRequest.cgroupDir, CreateRequest.cgroupBase, hcg]
    rfl
  obtain ⟨n, m, rfl | rfl⟩ := AttachRequest.attachCgroup_runs hwid hrun
  · -- nothing was there, and nothing was done
    refine ⟨fun hl => ?_, fun _ _ _ => rfl⟩
    obtain ⟨hnul, -, hmem⟩ := reachable_placed hr hproc hl
    rw [hdir] at hnul hmem
    obtain ⟨-, hlawful⟩ := cgroup_lawful_cons.1 hlawful
    obtain ⟨-, hlawful⟩ := cgroup_lawful_cons.1 hlawful
    cases (cgroup_lawful_cons.1 hlawful).1 hnul hmem
  · -- the process has moved into the directory that was there
    obtain ⟨hn, hlawful⟩ := cgroup_lawful_cons.1 hlawful
    obtain rfl : n = q := hn
    obtain ⟨-, hlawful⟩ := cgroup_lawful_cons.1 hlawful
    obtain ⟨-, hlawful⟩ := cgroup_lawful_cons.1 hlawful
    obtain ⟨-, hlawful⟩ := cgroup_lawful_cons.1 hlawful
    have hprocs := locate_procs cwd (areq.cgroupDir wid)
    have hmem : (locate cwd (pathPush (areq.cgroupDir wid) "cgroup.procs")).dropLast ∈
        w.state.dirs := (cgroup_lawful_cons.1 hlawful).1.2
    rw [hprocs, List.dropLast_concat] at hmem
    refine ⟨fun hl => ?_, fun _ _ hno => absurd hmem hno⟩
    have hmoved := w.state.next_moves (u := ()) n hprocs (m := n) (.inl rfl)
    obtain ⟨-, hplace, -⟩ := reachable_placed hr hproc hl
    rw [hdir] at hplace
    -- The write moves the process, and no other
    by_cases hpid : pid = n
    · rw [hpid]
    · exact hmoved.trans (hplace.symm.trans (w.state.next_cgroupOf_of_ne hpid _).symm)

/-! ## A history -/

/-- A request with an empty set of limits. -/
def CreateRequest.grouped (wid : Option String) : CreateRequest :=
  { CreateRequest.simple [] with
    workloadId := wid
    cgroupfs := some "/cg"
    limits := some default }

/-- A workload to attach to, with a cgroup of its own and an id. -/
def AttachRequest.grouped (wid : Option String) : AttachRequest :=
  { (default : AttachRequest) with workloadId := wid, cgroupfs := some "/cg" }

/-- One control group, and every process outside it. -/
def CgroupFs.fresh : CgroupFs := ⟨{[], ["cg".toList]}, fun _ => []⟩

/-- No limits ask for no controllers. -/
private theorem no_controllers :
    ([] : List String).Nodup ∧ ∀ x, x ∈ [] ↔ x ∈ limitControllers default :=
  ⟨.nil, fun x => by simp [limitControllers, default]⟩

/-- The calls of `prepare_cgroup` for it, all of which succeed. -/
private def groupedCalls (wid : Option String) (pid : Nat) : List Event :=
  let dir := (CreateRequest.grouped wid).cgroupDir ((CreateRequest.grouped wid).workload pid)
  [⟨.getpid, pid⟩, ⟨.faccessat "/cg", .ok ()⟩,
    ⟨.strHashIter (limitControllers default), ⟨[], no_controllers⟩⟩,
    ⟨.getpid, pid⟩, ⟨.fsCreateDirAll dir, .ok ()⟩, ⟨.faccessat dir, .ok ()⟩,
    ⟨.fsWrite (pathPush dir "cgroup.procs") (toString pid), .ok ()⟩]

/-- The container's cgroup is made by these calls. -/
private theorem grouped_runs (wid : Option String) (pid : Nat)
    (hdir : ¬ HasNul ((CreateRequest.grouped wid).cgroupDir
      ((CreateRequest.grouped wid).workload pid))) :
    (CreateRequest.grouped wid).prepareCgroup.Runs (groupedCalls wid pid) (.ok ()) := by
  rw [CreateRequest.prepareCgroup_of_limits rfl]
  refine runs_sys_bind.2 ⟨pid, ([_] ++ ([_] ++ ([_] ++ [_, _]))) ++ ([] ++ [_]), rfl,
    runs_bind_ok.2 ⟨⟨(CreateRequest.grouped wid).cgroupDir ((CreateRequest.grouped wid).workload pid)⟩,
      _, _, ?_, ?_, rfl⟩⟩
  · -- The base is opened, and the child cgroup below it
    refine runs_bind_ok.2 ⟨_, _, _, CGroup.openRoot_runs.2 ⟨rfl, show ¬ HasNul "/cg" by decide, rfl⟩,
      ?_, rfl⟩
    refine runs_bind_ok.2 ⟨(), _, _, runs_sys_bind.2 ⟨_, [], rfl, ?_⟩, ?_, rfl⟩
    · exact .refl _
    · refine runs_bind_ok.2 ⟨_, _, _, CreateRequest.identity_runs_told _ pid, ?_, rfl⟩
      exact runs_sys_bind.2 ⟨.ok (), _, rfl, CGroup.openRoot_runs.2 ⟨rfl, hdir, rfl⟩⟩
  · refine runs_bind_ok.2 ⟨(), [], _, .refl _, ?_, rfl⟩
    exact runs_sys_bind.2 ⟨.ok (), [], rfl, .refl _⟩

/-- The kernel allows them. -/
private theorem grouped_lawful (wid : Option String) (pid : Nat)
    (hdir : ¬ HasNul ((CreateRequest.grouped wid).cgroupDir
      ((CreateRequest.grouped wid).workload pid)))
    (hprocs : ¬ HasNul (pathPush ((CreateRequest.grouped wid).cgroupDir
      ((CreateRequest.grouped wid).workload pid)) "cgroup.procs")) :
    (cgroupKernel []).Lawful .fresh pid (groupedCalls wid pid) := by
  simp only [groupedCalls, cgroup_lawful_cons]
  refine ⟨rfl, trivial, trivial, rfl, hdir, trivial, ⟨hprocs, ?_⟩, Kernel.lawful_nil _ _ _⟩
  rw [locate_procs, List.dropLast_concat]
  exact .inr (List.prefix_refl _)

/-- The directories after them: the old ones, and those down to the workload's. -/
private theorem grouped_dirs (wid : Option String) (pid : Nat) :
    ((cgroupKernel []).after .fresh pid (groupedCalls wid pid)).dirs =
      CgroupFs.fresh.dirs ∪ { d | d <+: locate [] ((CreateRequest.grouped wid).cgroupDir
        ((CreateRequest.grouped wid).workload pid)) } := rfl

/-- They put no other process anywhere. -/
private theorem grouped_others (wid : Option String) {pid m : Nat} (hne : m ≠ pid) :
    ((cgroupKernel []).after .fresh pid (groupedCalls wid pid)).cgroupOf m = [] := by
  exact CgroupFs.next_cgroupOf_of_ne ⟨_, fun _ => []⟩ hne _

/-- The world in which the supervisor `pid` of the request has done its `prepare_cgroup`. -/
private theorem grouped_reachable (wid : Option String) (pid : Nat)
    (hdir : ¬ HasNul ((CreateRequest.grouped wid).cgroupDir
      ((CreateRequest.grouped wid).workload pid)))
    (hprocs : ¬ HasNul (pathPush ((CreateRequest.grouped wid).cgroupDir
      ((CreateRequest.grouped wid).workload pid)) "cgroup.procs")) :
    ∃ w, (cgroupJobs []).Reachable .fresh w ∧
      w.procs pid = some (CreateRequest.grouped wid, ⟨groupedCalls wid pid, .done (.ok ())⟩) ∧
      w.state = (cgroupKernel []).after .fresh pid (groupedCalls wid pid) := by
  refine ⟨_, Jobs.Reachable.run (S := cgroupJobs []) .refl (j := CreateRequest.grouped wid) rfl ?_
    (grouped_runs wid pid hdir) (grouped_lawful wid pid hdir hprocs), Function.update_self _ _ _, rfl⟩
  -- there are no keys
  rintro limits heq entry hentry
  cases heq
  cases hentry

/-- A process that is attached by the id of a workload joins its supervisor. -/
theorem attachCgroup_agrees_grouped :
    ∃ w h h', (cgroupJobs []).Reachable .fresh w ∧
      w.procs 5 = some (.grouped (some "web"), ⟨h, .done (.ok ())⟩) ∧
      (AttachRequest.grouped (some "web")).attachCgroup.Runs h' (.ok ()) ∧
      (cgroupKernel []).Lawful w.state 9 h' ∧
      ((cgroupKernel []).after w.state 9 h').cgroupOf 9 =
        ((cgroupKernel []).after w.state 9 h').cgroupOf 5 := by
  obtain ⟨w, hr, hproc, -⟩ := grouped_reachable (some "web") 5 (by decide) (by decide)
  obtain ⟨-, -, hmem⟩ := reachable_placed hr hproc rfl
  let dir := (AttachRequest.grouped (some "web")).cgroupDir "web"
  -- The five calls of `attach_cgroup`, of which each succeeds
  have hrun : (AttachRequest.grouped (some "web")).attachCgroup.Runs
      [⟨.getpid, (9 : Nat)⟩, ⟨.getpid, (9 : Nat)⟩, ⟨.fsExists dir, true⟩, ⟨.faccessat dir, .ok ()⟩,
        ⟨.fsWrite (pathPush dir "cgroup.procs") (toString 9), .ok ()⟩] (.ok ()) := by
    refine runs_sys_bind.2 ⟨(9 : Nat), _, rfl, runs_sys_bind.2 ⟨(9 : Nat), _, rfl, ?_⟩⟩
    refine runs_sys_bind.2 ⟨true, [_] ++ [_], rfl, runs_bind_ok.2 ⟨⟨dir⟩, _, _, ?_, ?_, rfl⟩⟩
    · exact CGroup.openRoot_runs.2 ⟨rfl, show ¬ HasNul dir by decide, rfl⟩
    · exact runs_sys_bind.2 ⟨.ok (), [], rfl, .refl _⟩
  -- The directory is there, since the container has been put into it
  have hlawful : (cgroupKernel []).Lawful w.state 9
      [⟨.getpid, (9 : Nat)⟩, ⟨.getpid, (9 : Nat)⟩, ⟨.fsExists dir, true⟩, ⟨.faccessat dir, .ok ()⟩,
        ⟨.fsWrite (pathPush dir "cgroup.procs") (toString 9), .ok ()⟩] := by
    simp only [cgroup_lawful_cons]
    refine ⟨rfl, rfl, fun _ _ => rfl, trivial, ⟨by decide, ?_⟩, Kernel.lawful_nil _ _ _⟩
    rw [locate_procs, List.dropLast_concat]
    exact hmem
  exact ⟨w, _, _, hr, hproc, hrun, hlawful,
    (attachCgroup_agrees hr hproc rfl rfl rfl hrun hlawful).1 rfl⟩

/-- Without an id each goes by its own process id, and the two stay apart. -/
theorem attachCgroup_apart :
    ∃ w h h', (cgroupJobs []).Reachable .fresh w ∧
      w.procs 5 = some (.grouped none, ⟨h, .done (.ok ())⟩) ∧
      (AttachRequest.grouped none).workloadId = (CreateRequest.grouped none).workloadId ∧
      (AttachRequest.grouped none).cgroupfs = (CreateRequest.grouped none).cgroupfs ∧
      (AttachRequest.grouped none).attachCgroup.Runs h' (.ok ()) ∧
      (cgroupKernel []).Lawful w.state 9 h' ∧
      ((cgroupKernel []).after w.state 9 h').cgroupOf 9 ≠
        ((cgroupKernel []).after w.state 9 h').cgroupOf 5 := by
  obtain ⟨w, hr, hproc, hstate⟩ := grouped_reachable none 5 (by decide) (by decide)
  obtain ⟨-, hplace, -⟩ := reachable_placed hr hproc rfl
  let dir := (AttachRequest.grouped none).cgroupDir "9"
  have hrun : (AttachRequest.grouped none).attachCgroup.Runs
      [⟨.getpid, (9 : Nat)⟩, ⟨.getpid, (9 : Nat)⟩, ⟨.fsExists dir, false⟩] (.ok ()) :=
    runs_sys_bind.2 ⟨(9 : Nat), _, rfl, runs_sys_bind.2 ⟨(9 : Nat), _, rfl,
      runs_sys_bind.2 ⟨false, [], rfl, .refl _⟩⟩⟩
  -- There is no directory of the id `9`
  have hdirs : locate [] dir ∉ w.state.dirs := by
    have hloc : locate [] dir = ["cg".toList, "styrolite-9".toList] := by decide
    have hother : locate [] ((CreateRequest.grouped none).cgroupDir
        ((CreateRequest.grouped none).workload 5)) = ["cg".toList, "styrolite-5".toList] := by decide
    rw [hstate, hloc, grouped_dirs, hother]
    rintro (hold | hnew)
    · simp [CgroupFs.fresh] at hold
    · exact absurd hnew (show ¬ ["cg".toList, "styrolite-9".toList] <+:
        ["cg".toList, "styrolite-5".toList] by decide)
  -- So the process stays at the root, where it was from the start
  have hthere : w.state.cgroupOf 9 = [] := by
    rw [hstate]
    exact grouped_others none (by decide)
  refine ⟨w, _, _, hr, hproc, rfl, rfl, hrun, ?_, ?_⟩
  · simp only [cgroup_lawful_cons]
    exact ⟨rfl, rfl, fun _ hmem => absurd hmem hdirs, Kernel.lawful_nil _ _ _⟩
  · show w.state.cgroupOf 9 ≠ w.state.cgroupOf 5
    rw [hthere, hplace]
    decide

end Styrolite
