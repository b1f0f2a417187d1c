import Styrolite.Spec.MountsCorrect
import Styrolite.Spec.VfsSteps

/-!
# Runs of `pivot_fs`

A run in which `pivot_fs` succeeds, cut where the root directory has been chosen,
bound onto itself and sealed (`PivotRun`). Every such run can be cut so
(`exists_pivotRun`).
-/

namespace Styrolite

open Prog LocalRules

/-! ## The calls of a mount -/

namespace MountSpec

variable {spec : MountSpec} {h : List Event}

/-- The change of attributes after the mount, if any is asked for. -/
def attrEvents (spec : MountSpec) : List Event :=
  if spec.attrSet ≠ 0 then
    [⟨.mountSetattr .cwd spec.target (if spec.recurse then AT_RECURSIVE else 0)
      { attrSet := spec.attrSet, attrClr := 0 }, Except.ok ()⟩]
  else []

/-- `mount_setattr` is one call, on a path without NUL bytes. -/
theorem runs_mountSetattr {dir : DirFd} {path : String} {flags : CInt} {attr : MountAttr} :
    (mountSetattr dir path flags attr).Runs h (.ok ()) ↔
      ¬ HasNul path ∧ h = [⟨.mountSetattr dir path flags attr, Except.ok ()⟩] := by
  unfold mountSetattr
  constructor
  · intro hr
    obtain ⟨cPath, _, h₂, hpath, hr₂, rfl⟩ := runs_bind_ok.1 hr
    obtain ⟨rfl, hcstr⟩ := runs_orFail_ok.1 hpath
    have hnul := not_hasNul_of_cString hcstr
    rw [cString_of_not_nul hnul] at hcstr
    cases hcstr
    -- The call succeeded, since its check did
    obtain ⟨a, h₃, h₄, hsys, hcheck, rfl⟩ := runs_bind_ok.1 hr₂
    obtain rfl := runs_sys_ok.1 hsys
    obtain ⟨rfl, rfl⟩ := runs_check_ok.1 hcheck
    exact ⟨hnul, rfl⟩
  · rintro ⟨hnul, rfl⟩
    rw [cString_of_not_nul hnul]
    exact .call (.refl _)

/-- A source without NUL bytes is handed over as it is. -/
theorem sourceArg_of_not_nul {source : String} (hsource : spec.source = some source)
    (hnul : ¬ HasNul source) : spec.sourceArg = some source := by
  rw [sourceArg, hsource]
  show some (unpack (some source)) = some source
  rw [unpack, Option.map_some, cString_of_not_nul hnul]

/-- The data of a mount takes no call. -/
theorem dataArg_runs {data : Option String} (hr : spec.dataArg.Runs h (.ok data)) : h = [] := by
  unfold dataArg at hr
  split at hr
  · exact (runs_pure.1 hr).1
  · rw [map_eq_pure_bind] at hr
    obtain ⟨_, h₁, h₂, hcstr, hpure, rfl⟩ := runs_bind_ok.1 hr
    rw [(runs_orFail_ok.1 (runs_mapErr_ok.1 hcstr)).1, (runs_pure.1 hpure).1]
    rfl

/-- A mount that succeeds is one call of `mount(2)`, with the mount point made before it and the
    attributes set after it. -/
theorem mount_runs (hr : spec.mount.Runs h (.ok ())) : ¬ HasNul spec.target ∧
    ∃ making data, (Prog.when spec.createMountpoint spec.createTarget).Runs making (.ok ()) ∧
      spec.dataArg.Runs [] (.ok data) ∧ h = making ++ ⟨.mount spec.sourceArg spec.target
        spec.fstypeArg spec.mountFlags data, Except.ok ()⟩ :: spec.attrEvents := by
  rw [mount_eq] at hr
  -- The run is taken apart call by call
  obtain ⟨target, _, h₁, htarget, hr₁, rfl⟩ := runs_bind_ok.1 hr
  obtain ⟨rfl, hcstr⟩ := runs_orFail_ok.1 htarget
  have hnul := not_hasNul_of_cString hcstr
  rw [cString_of_not_nul hnul] at hcstr
  cases hcstr
  obtain ⟨_, making, h₂, hmaking, hr₂, rfl⟩ := runs_bind_ok.1 hr₁
  unfold mountAt at hr₂
  obtain ⟨data, _, h₃, hdata, hr₃, rfl⟩ := runs_bind_ok.1 hr₂
  obtain ⟨a, _, h₄, hsys, hr₄, rfl⟩ := runs_bind_ok.1 hr₃
  obtain ⟨_, _, h₅, hcheck, hr₅, rfl⟩ := runs_bind_ok.1 hr₄
  obtain rfl := runs_sys_ok.1 hsys
  obtain ⟨rfl, rfl⟩ := runs_check_ok.1 (runs_mapErr_ok.1 hcheck)
  obtain rfl := dataArg_runs hdata
  refine ⟨hnul, making, data, hmaking, hdata, ?_⟩
  -- The second call is made if there are attributes to set
  have hattr : h₅ = spec.attrEvents := by
    unfold attrEvents
    unfold Prog.when at hr₅
    split at hr₅
    · rw [if_pos (by assumption)]
      exact (runs_mountSetattr.1 hr₅).2
    · rw [if_neg (by assumption)]
      exact (runs_pure.1 hr₅).1
  rw [hattr]
  rfl

/-- The four calls of a pivot that succeeds. -/
def pivotEvents (spec : MountSpec) : List Event :=
  [⟨.setCurrentDir spec.target, Except.ok ()⟩, ⟨.pivotRoot "." ".", Except.ok ()⟩,
    ⟨.umount2 "." MNT_DETACH, Except.ok ()⟩, ⟨.setCurrentDir "/", Except.ok ()⟩]

/-- The pivot is its four calls. -/
theorem pivot_runs (hr : spec.pivot.Runs h (.ok ())) : h = spec.pivotEvents := by
  unfold pivot at hr
  obtain ⟨a₁, _, h₁, hsys₁, hr₁, rfl⟩ := runs_bind_ok.1 hr
  obtain ⟨_, _, h₂, hcheck₁, hr₂, rfl⟩ := runs_bind_ok.1 hr₁
  obtain ⟨a₂, _, h₃, hsys₂, hr₃, rfl⟩ := runs_bind_ok.1 hr₂
  obtain ⟨_, _, h₄, hcheck₂, hr₄, rfl⟩ := runs_bind_ok.1 hr₃
  obtain ⟨a₃, _, h₅, hsys₃, hr₅, rfl⟩ := runs_bind_ok.1 hr₄
  obtain ⟨_, _, h₆, hcheck₃, hr₆, rfl⟩ := runs_bind_ok.1 hr₅
  obtain ⟨a₄, _, h₇, hsys₄, hcheck₄, rfl⟩ := runs_bind_ok.1 hr₆
  -- Each of the four calls was checked
  obtain rfl := runs_sys_ok.1 hsys₁
  obtain rfl := runs_sys_ok.1 hsys₂
  obtain rfl := runs_sys_ok.1 hsys₃
  obtain rfl := runs_sys_ok.1 hsys₄
  obtain ⟨rfl, rfl⟩ := runs_check_ok.1 hcheck₁
  obtain ⟨rfl, rfl⟩ := runs_check_ok.1 (runs_mapErr_ok.1 hcheck₂)
  obtain ⟨rfl, rfl⟩ := runs_check_ok.1 (runs_mapErr_ok.1 hcheck₃)
  obtain ⟨rfl, rfl⟩ := runs_check_ok.1 hcheck₄
  rfl

end MountSpec

/-! ## After the pivot -/

/-- The process has the place as its root and working directory, and sees the same files and mounts
    as before. -/
structure Vfs.Entered (s s' : Vfs) (l : Place FileName) : Prop where
  root : s'.root = l
  cwd : s'.cwd = l
  mounts : s'.mounts = s.mounts
  node : s'.node = s.node
  readOnly : s'.readOnly = s.readOnly

/-- Where a path leads after the pivot can be told before it. -/
theorem Vfs.Entered.leads_iff {s s' : Vfs} {l x : Place FileName} {path : String}
    (hin : s.Entered s' l) : s'.Leads path x ↔ path ≠ "" ∧ s.LeadsIn l path x := by
  have hspace : s'.space l = s.space l := by
    have hfiles : s'.files = s.files := by
      funext fs q
      rw [files, files, hin.node]
    rw [space, space, hin.mounts, hfiles]
  rw [leads_iff_leadsIn (hin.cwd.trans hin.root.symm), LeadsIn, LeadsIn, hin.root, hspace]

/-- What a path leads to from the root directory some path leads to after the pivot. -/
theorem Vfs.Entered.exists_leads {s s' : Vfs} {l x : Place FileName} {path : String}
    (hin : s.Entered s' l) (hx : s.LeadsIn l path x) : ∃ path', s'.Leads path' x := by
  by_cases hempty : path = ""
  · -- the empty path has the steps of `.`
    subst hempty
    obtain ⟨-, k, hwalk⟩ := hx
    exact ⟨".", hin.leads_iff.2 ⟨by decide, by decide, k, hwalk⟩⟩
  · exact ⟨path, hin.leads_iff.2 ⟨hempty, hx⟩⟩

/-- A pivot puts the process where the path of the new root leads, on another mount than before. -/
theorem MountSpec.after_pivotEvents {s : Vfs} {spec : MountSpec}
    (hl : vfsRules.Lawful s spec.pivotEvents) : ∃ l, s.Leads spec.target l ∧ l.1 ≠ s.root.1 ∧
      s.Entered (vfsRules.after s spec.pivotEvents) l := by
  simp only [pivotEvents, lawful_cons, after_cons, after_nil] at hl ⊢
  obtain ⟨hcd, hpivot, -, hcd', -⟩ := hl
  -- The state after each call that moves the process
  obtain ⟨s₁, hs₁⟩ := Option.isSome_iff_exists.1 hcd
  have hnext₁ : vfsRules.next s (.setCurrentDir spec.target) (Except.ok ()) = s₁ :=
    Vfs.next_of_setCurrentDir hs₁
  rw [hnext₁] at hpivot hcd' ⊢
  obtain ⟨s₂, hs₂⟩ := Option.isSome_iff_exists.1 hpivot
  have hnext₂ : vfsRules.next s₁ (.pivotRoot "." ".") (Except.ok ()) = s₂ :=
    Vfs.next_of_pivotRoot "." hs₂
  rw [hnext₂] at hcd' ⊢
  obtain ⟨s₃, hs₃⟩ := Option.isSome_iff_exists.1 hcd'
  have hnext₃ : vfsRules.next (vfsRules.next s₂ (.umount2 "." MNT_DETACH) (Except.ok ()))
      (.setCurrentDir "/") (Except.ok ()) = s₃ :=
    Vfs.next_of_setCurrentDir hs₃
  rw [hnext₃]
  -- The second call makes the working directory the root directory, and the last goes to that
  obtain ⟨l, hlead, hdir, hcwd₁, hmounts₁, hnode₁, hroot₁, hro₁⟩ := Vfs.setCurrentDir_eq_some hs₁
  obtain ⟨hlead₂, hne, -⟩ := Vfs.pivotRoot_moves hs₂
  obtain ⟨hmounts₂, hnode₂, -, hro₂⟩ := Vfs.pivotRoot_eq_some hs₂
  obtain ⟨l₃, hlead₃, -, hcwd₃, hmounts₃, hnode₃, hroot₃, hro₃⟩ := Vfs.setCurrentDir_eq_some hs₃
  have hdir₁ : s₁.isDir s₁.cwd := hcwd₁.symm ▸ hdir
  have hroot₂ : s₂.root = l := (hlead₂.unique (Vfs.leads_dot hdir₁)).trans hcwd₁
  refine ⟨l, hlead, ?_, hroot₃.trans hroot₂, ?_, hmounts₃.trans (hmounts₂.trans hmounts₁),
    hnode₃.trans (hnode₂.trans hnode₁), hro₃.trans (hro₂.trans hro₁)⟩
  · -- The target is on another mount than the old root
    rw [← hroot₂, ← hroot₁]
    exact hne
  · rw [hcwd₃, Vfs.leads_slash hlead₃]
    exact hroot₂

/-! ## The phases -/

namespace CreateRequest

/-- `pivot_fs` up to where the new root is bound; the result is its path. -/
def chooseRoot (req : CreateRequest) : Sys String := do
  let rootfs ← orFail (match req.rootfs with
    | some rootfs => .ok rootfs
    | none => .error (.msg "expected rootfs to be configured"))
  oldroot.mount.mapErr (Err.context "failed to unshare / in new mount namespace")
  let wid₁ ← req.identity
  let wid₂ ← req.identity
  let wid₃ ← req.identity
  stageRootfs rootfs wid₁ wid₂ wid₃

/-- The new root is made read-only, if that is asked for. -/
def sealRoot (req : CreateRequest) (rootfs : String) : Sys Unit :=
  Prog.when (req.rootfsReadonly.getD false)
    ((newroot rootfs).sealMount.mapErr (Err.context "failed to make new rootfs readonly"))

/-- `pivot_fs` after the seal. -/
def populate (req : CreateRequest) (rootfs : String) : Sys Unit := do
  (procfs rootfs).mount.mapErr (Err.context "failed to mount /proc")
  mountAll (parentedMount rootfs) (req.mounts.getD [])
  req.finishRoot rootfs

/-- `pivot_fs` in its phases. -/
theorem pivotFs_phases (req : CreateRequest) : req.pivotFs = (do
    let _ ← sys (.enter .pivotFs)
    let rootfs ← req.chooseRoot
    (newroot rootfs).mount.mapErr (Err.context "failed to bind new rootfs")
    req.sealRoot rootfs
    req.populate rootfs) := by
  rw [pivotFs_eq]
  unfold pivotFsWith prepareRoot chooseRoot sealRoot populate
  cases req.rootfs with
  | none => simp only [bind_assoc, pure_bind]
  | some rootfs => simp only [bind_assoc, pure_bind]

/-- A run in which `pivot_fs` succeeds. -/
structure PivotRun (req : CreateRequest) (s₀ : Vfs) where
  root : String
  choosing : List Event
  binding : List Event
  sealing : List Event
  populating : List Event
  choose_runs : req.chooseRoot.Runs choosing (.ok root)
  bind_runs : (newroot root).mount.Runs binding (.ok ())
  seal_runs : (req.sealRoot root).Runs sealing (.ok ())
  populate_runs : (req.populate root).Runs populating (.ok ())
  lawful : vfsRules.Lawful s₀
    (⟨.enter .pivotFs, ()⟩ :: (choosing ++ (binding ++ (sealing ++ populating))))

namespace PivotRun

variable {req : CreateRequest} {s₀ : Vfs} (run : PivotRun req s₀)

/-- All events of the run. -/
def trace : List Event :=
  ⟨.enter .pivotFs, ()⟩ :: (run.choosing ++ (run.binding ++ (run.sealing ++ run.populating)))

/-- The state in which the new root is bound onto itself. -/
def atBind : Vfs := vfsRules.after s₀ run.choosing

/-- The state when the root filesystem has been bound. -/
def atSeal : Vfs := vfsRules.after run.atBind run.binding

/-- The state when it has been sealed, if it has to be. -/
def atPopulate : Vfs := vfsRules.after run.atSeal run.sealing

/-- The calls after the seal, up to the pivot. -/
def furnishing : List Event := run.populating.rdrop 4

/-- The state in which the new root is set up and the pivot is next. -/
def atPivot : Vfs := vfsRules.after run.atPopulate run.furnishing

/-- What the container starts with. -/
def final : Vfs := vfsRules.after run.atPopulate run.populating

/-- The state in the end is that after all events. -/
theorem final_eq : run.final = vfsRules.after s₀ run.trace := by
  unfold trace final atPopulate atSeal atBind
  rw [after_cons, after_append, after_append, after_append]
  rfl

/-- The run is one of `pivot_fs`. -/
theorem runs : req.pivotFs.Runs run.trace (.ok ()) := by
  rw [pivotFs_phases]
  refine .call (run.choose_runs.bind ?_)
  exact Runs.bind (runs_mapErr_ok.2 run.bind_runs) (run.seal_runs.bind run.populate_runs)

/-- Each phase is lawful from the state it starts in. -/
theorem lawful_split : vfsRules.Lawful s₀ run.choosing ∧ vfsRules.Lawful run.atBind run.binding ∧
    vfsRules.Lawful run.atSeal run.sealing ∧ vfsRules.Lawful run.atPopulate run.populating := by
  obtain ⟨hchoose, hrest⟩ := lawful_append.1 (lawful_cons.1 run.lawful).2
  obtain ⟨hbind, hrest⟩ := lawful_append.1 hrest
  exact ⟨hchoose, hbind, lawful_append.1 hrest⟩

/-- The pivot comes last. -/
theorem populating_eq :
    run.populating = run.furnishing ++ (newroot run.root).pivotEvents := by
  have hr := run.populate_runs
  unfold populate finishRoot at hr
  obtain ⟨_, h₁, _, -, hr₁, heq⟩ := runs_bind_ok.1 hr
  obtain ⟨_, h₂, _, -, hr₂, rfl⟩ := runs_bind_ok.1 hr₁
  obtain ⟨_, h₃, _, -, hr₃, rfl⟩ := runs_bind_ok.1 hr₂
  obtain ⟨_, h₄, _, -, hr₄, rfl⟩ := runs_bind_ok.1 hr₃
  obtain ⟨_, h₅, _, -, hpivot, rfl⟩ := runs_bind_ok.1 hr₄
  obtain rfl := MountSpec.pivot_runs (runs_mapErr_ok.1 hpivot)
  have hsplit : run.populating =
      (h₁ ++ (h₂ ++ (h₃ ++ (h₄ ++ h₅)))) ++ (newroot run.root).pivotEvents := by
    rw [heq]
    simp only [List.append_assoc]
  -- The last four events are those of the pivot
  have hfour : (newroot run.root).pivotEvents.length = 4 := rfl
  unfold furnishing
  rw [hsplit, ← hfour, List.rdrop_append_length]

/-- The container starts where the path of the new root leads before the pivot. -/
theorem exists_entered : ∃ l, run.atPivot.Leads run.root l ∧ run.atPivot.Entered run.final l := by
  obtain ⟨-, -, -, hl⟩ := run.lawful_split
  rw [run.populating_eq] at hl
  obtain ⟨l, hlead, -, hin⟩ := MountSpec.after_pivotEvents (lawful_append.1 hl).2
  refine ⟨l, hlead, ?_⟩
  rw [final, run.populating_eq, after_append]
  exact hin

end PivotRun

/-- Every run in which `pivot_fs` succeeds is one of these. -/
theorem exists_pivotRun {req : CreateRequest} {s₀ : Vfs} {h : List Event}
    (hl : vfsRules.Lawful s₀ h) (hr : req.pivotFs.Runs h (.ok ())) :
    ∃ run : PivotRun req s₀, run.trace = h := by
  rw [pivotFs_phases] at hr
  obtain ⟨_, _, h₁, henter, hr₁, rfl⟩ := runs_bind_ok.1 hr
  obtain ⟨root, choosing, h₂, hchoose, hr₂, rfl⟩ := runs_bind_ok.1 hr₁
  obtain ⟨_, binding, h₃, hbind, hr₃, rfl⟩ := runs_bind_ok.1 hr₂
  obtain ⟨_, sealing, populating, hseal, hpopulate, rfl⟩ := runs_bind_ok.1 hr₃
  obtain rfl := runs_sys_ok.1 henter
  exact ⟨⟨root, choosing, binding, sealing, populating, hchoose, runs_mapErr_ok.1 hbind, hseal,
    hpopulate, hl⟩, rfl⟩

end CreateRequest

end Styrolite
