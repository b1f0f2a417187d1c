import Styrolite.ForStd.ProgEq
import Styrolite.Spec.Location
import Styrolite.Spec.WorkloadIdCorrect

/-!
# The mounts of a request

`pivot_fs` rebuilds each entry of `mounts` field by field to put it under the
new root. It is meant to change the target and nothing else, but does not pass
on the mount data. `pivotFsWith retarget` is `pivot_fs` with the rebuilding that
is meant; both begin with `prepareRoot` and end with `finishRoot`.

## Key results

- `pivotFs_mounts_iff`: when the entries are carried out as specified
- `pivotFsWith_stops`: the first entry that fails is the last
-/

namespace Styrolite

open Prog

namespace CreateRequest

/-! ## The phases of `pivot_fs` -/

/-- `pivot_fs` up to the mount of `/proc`; the result is the new root. -/
def prepareRoot (req : CreateRequest) : Sys String := do
  let rootfs ← orFail (match req.rootfs with
    | some rootfs => .ok rootfs
    | none => .error (.msg "expected rootfs to be configured"))
  oldroot.mount.mapErr (Err.context "failed to unshare / in new mount namespace")
  let wid₁ ← req.identity
  let wid₂ ← req.identity
  let wid₃ ← req.identity
  let rootfs ← stageRootfs rootfs wid₁ wid₂ wid₃
  (newroot rootfs).mount.mapErr (Err.context "failed to bind new rootfs")
  Prog.when (req.rootfsReadonly.getD false)
    ((newroot rootfs).sealMount.mapErr (Err.context "failed to make new rootfs readonly"))
  (procfs rootfs).mount.mapErr (Err.context "failed to mount /proc")
  pure rootfs

/-- The loop over the entries of `mounts`, with `reroot` to put them under the new root. -/
def mountAll (reroot : MountSpec → MountSpec) (ms : List MountSpec) : Sys Unit :=
  forM ms fun m => (reroot m).mount.mapErr
    (Err.context ("failed to process mount spec " ++ (reroot m).target))

/-- `pivot_fs` after the entries of `mounts`. -/
def finishRoot (req : CreateRequest) (rootfs : String) : Sys Unit := do
  forM (req.mutations.getD []) (mutate rootfs)
  forM (req.maskedPaths.getD []) fun path =>
    (maskPath rootfs path).mapErr (Err.context ("failed to mask " ++ path))
  forM (req.readonlyPaths.getD []) fun path =>
    (makeReadonly rootfs path).mapErr (Err.context ("failed to make " ++ path ++ " read-only"))
  (newroot rootfs).pivot.mapErr (Err.context "failed to pivot to new rootfs")

/-- `pivot_fs`, with `reroot` to put the entries of `mounts` under the new root. -/
def pivotFsWith (reroot : String → MountSpec → MountSpec) (req : CreateRequest) : Sys Unit := do
  let _ ← sys (.enter .pivotFs)
  let rootfs ← req.prepareRoot
  mountAll (reroot rootfs) (req.mounts.getD [])
  req.finishRoot rootfs

/-- The code's own way of putting an entry under the root. -/
theorem pivotFs_eq (req : CreateRequest) : req.pivotFs = req.pivotFsWith parentedMount := by
  unfold pivotFs pivotFsBody pivotFsWith prepareRoot finishRoot mountAll
  cases req.rootfs with
  | none => simp only [bind_assoc, pure_bind]
  | some rootfs => simp only [bind_assoc, pure_bind]

end CreateRequest

/-! ## What can succeed -/

/-- A call, with an answer after which the rest can end well. -/
theorem sys_bind_canEnd {α : Type} {c : Call} {k : c.Answer → Sys α} {b : α} (a : c.Answer)
    (hk : (k a).CanEnd b) : (Bind.bind (α := no_index c.Answer) (sys c) k).CanEnd b :=
  .bind (.sys (I := calls) a) hk

/-- A string without NUL can be passed on. -/
theorem orFail_canEnd {s : String} (hs : ¬ HasNul s) : (orFail (cString s)).CanEnd s :=
  .check (cString_of_not_nul hs)

namespace MountSpec

variable {spec : MountSpec}

/-- The source can be found to be no file. -/
theorem sourceIsFile_canEnd (spec : MountSpec) : spec.sourceIsFile.CanEnd false := by
  unfold sourceIsFile
  split
  · exact sys_bind_canEnd (.error Errno.ENOENT) (.pure _)
  · exact .pure _

/-- The target can be made. -/
theorem createTarget_canEnd (spec : MountSpec) : spec.createTarget.CanEnd () :=
  .bind spec.sourceIsFile_canEnd (sys_bind_canEnd (.ok ()) (.check rfl))

/-- The second half of `mount`, once there is a mount point. -/
def mountAt (spec : MountSpec) (target : String) : Sys Unit := do
  let data ← spec.dataArg
  (check (← sys (.mount spec.sourceArg target spec.fstypeArg spec.mountFlags data))).mapErr
    (Err.context ("unable to mount: source=" ++ debugOption spec.source ++
      " target=" ++ spec.target.quote ++ " fstype=" ++ debugOption spec.fstype ++
      " bind=" ++ toString spec.bind ++ " flags=0x" ++ lowerHex spec.mountFlags))
  Prog.when (spec.attrSet ≠ 0)
    (mountSetattr .cwd spec.target (if spec.recurse then AT_RECURSIVE else 0)
      { attrSet := spec.attrSet, attrClr := 0 })

/-- A mount in three parts: the target's name, the target, the mount itself. -/
theorem mount_eq (spec : MountSpec) : spec.mount = (do
    let target ← orFail (cString spec.target)
    Prog.when spec.createMountpoint spec.createTarget
    spec.mountAt target) := rfl

/-- Attributes can be set. -/
theorem mountSetattr_canEnd {dir : DirFd} {path : String} (hpath : ¬ HasNul path) (flags : CInt)
    (attr : MountAttr) : (mountSetattr dir path flags attr).CanEnd () :=
  .bind (orFail_canEnd hpath) (sys_bind_canEnd (.ok ()) (.check rfl))

/-- Without data the mount is the first call. -/
theorem head_mountAt_none (hdata : spec.data = none) (target : String) :
    (spec.mountAt target).head =
      some (.mount spec.sourceArg target spec.fstypeArg spec.mountFlags none) := by
  rw [mountAt, dataArg, hdata]
  rfl

/-- Mount data is passed on or refused. -/
theorem head_mountAt_some {data : String} (hdata : spec.data = some data) (target : String) :
    (∃ d, (spec.mountAt target).head =
      some (.mount spec.sourceArg target spec.fstypeArg spec.mountFlags (some d))) ∨
      ∃ e, spec.mountAt target = Prog.fail e := by
  rw [mountAt, dataArg, hdata]
  dsimp only
  cases cString data with
  | ok d => exact .inl ⟨d, rfl⟩
  | error e => exact .inr ⟨_, rfl⟩

/-- The mount can succeed. -/
theorem mountAt_canEnd (htarget : ¬ HasNul spec.target) (hdata : spec.data = none) (target : String) :
    (spec.mountAt target).CanEnd () := by
  have harg : spec.dataArg.CanEnd none := by
    rw [dataArg, hdata]
    exact .pure _
  exact .bind harg (sys_bind_canEnd (.ok ()) (.bind (.mapErr (.check rfl))
    (.when fun _ => mountSetattr_canEnd htarget _ _)))

/-- A mount spec without data and NUL can succeed. -/
theorem mount_canEnd (htarget : ¬ HasNul spec.target) (hdata : spec.data = none) :
    spec.mount.CanEnd () :=
  .bind (orFail_canEnd htarget) (.bind (.when fun _ => spec.createTarget_canEnd)
    (mountAt_canEnd htarget hdata _))

end MountSpec

namespace CreateRequest

variable {req : CreateRequest} {rootfs : String} {h : List Event}

/-- The request names a root directory that a path can be made of. -/
def Rootable (req : CreateRequest) : Prop :=
  ∃ rootfs, req.rootfs = some rootfs ∧ ¬ HasNul rootfs ∧
    (rootfs = "/" → ¬ HasNul (req.workloadId.getD ""))

/-- The identity can be found. -/
theorem identity_canEnd (req : CreateRequest) : req.identity.CanEnd (req.workloadId.getD "1") :=
  sys_bind_canEnd (1 : Nat) (.pure _)

/-- The root can be sealed. -/
theorem sealMount_canEnd (hrootfs : ¬ HasNul rootfs) : (newroot rootfs).sealMount.CanEnd () :=
  .bind (.bind (orFail_canEnd hrootfs) (sys_bind_canEnd (.ok (3 : Nat)) (.check rfl)))
    (MountSpec.mountSetattr_canEnd (by decide) _ _)

/-- The root can be staged. -/
theorem stageRootfs_canEnd {rootfs wid : String} (hrootfs : ¬ HasNul rootfs)
    (hwid : rootfs = "/" → ¬ HasNul wid) :
    ∃ root, ¬ HasNul root ∧ (stageRootfs rootfs wid wid wid).CanEnd root := by
  unfold stageRootfs
  split
  · next hslash =>
    have hbase : ¬ HasNul ("/tmp/styrolite-stage-" ++ wid) :=
      not_hasNul_append.2 ⟨by decide, hwid hslash⟩
    have hroot : ¬ HasNul ("/tmp/styrolite-stage-" ++ wid ++ "/root") :=
      not_hasNul_append.2 ⟨hbase, by decide⟩
    exact ⟨_, hroot, .bind (.mapErr (MountSpec.mount_canEnd hbase rfl))
      (sys_bind_canEnd (.ok ()) (.bind (.mapErr (.check rfl))
        (sys_bind_canEnd (.ok ()) (.bind (.mapErr (.check rfl))
          (.bind (.mapErr (MountSpec.mount_canEnd hroot rfl)) (.pure _))))))⟩
  · exact ⟨rootfs, hrootfs, .pure _⟩

/-- The root can be prepared, if the request has a usable one. -/
theorem prepareRoot_canEnd (hreq : req.Rootable) :
    ∃ root, ¬ HasNul root ∧ req.prepareRoot.CanEnd root := by
  obtain ⟨rootfs, hsome, hrootfs, hwid⟩ := hreq
  have hwid' : rootfs = "/" → ¬ HasNul (req.workloadId.getD "1") := by
    intro hslash
    cases hw : req.workloadId with
    | none => decide
    | some w => simpa [hw] using hwid hslash
  obtain ⟨root, hroot, hstage⟩ := stageRootfs_canEnd hrootfs hwid'
  refine ⟨root, hroot, ?_⟩
  unfold prepareRoot
  rw [hsome]
  exact .bind (.check rfl) (.bind (.mapErr (MountSpec.mount_canEnd (by decide) rfl))
    (.bind req.identity_canEnd (.bind req.identity_canEnd (.bind req.identity_canEnd
      (.bind hstage (.bind (.mapErr (MountSpec.mount_canEnd hroot rfl))
        (.bind (.when fun _ => .mapErr (sealMount_canEnd hroot))
          (.bind (.mapErr (MountSpec.mount_canEnd (not_hasNul_append.2 ⟨hroot, by decide⟩) rfl))
            (.pure _)))))))))

/-- A target that has been mounted contains no NUL. -/
theorem not_hasNul_of_mount {spec : MountSpec} (hr : spec.mount.Runs h (.ok ())) :
    ¬ HasNul spec.target := by
  obtain ⟨target, _, _, ht, -, -⟩ := runs_bind_ok.1 hr
  exact not_hasNul_of_cString (runs_orFail_ok.1 ht).2

/-- The new root was mounted. -/
theorem not_hasNul_of_runs {root : String} (hr : req.prepareRoot.Runs h (.ok root)) : ¬ HasNul root := by
  unfold prepareRoot at hr
  simp only [runs_bind_ok, runs_mapErr_ok, runs_pure, Outcome.ok.injEq] at hr
  obtain ⟨_, _, _, -, ⟨⟨⟩, _, _, -, hr, -⟩, -⟩ := hr
  obtain ⟨_, _, _, -, ⟨_, _, _, -, ⟨_, _, _, -, hr, -⟩, -⟩, -⟩ := hr
  obtain ⟨stage, _, _, -, ⟨⟨⟩, _, _, hnew, hr, -⟩, -⟩ := hr
  obtain ⟨⟨⟩, _, _, -, ⟨⟨⟩, _, _, -, ⟨-, rfl⟩, -⟩, -⟩ := hr
  exact not_hasNul_of_mount hnew

/-- Where `pivot_fs` comes to the entries of `mounts`, the root directory is one it could name. -/
theorem rootable_of_runs {root : String} (hr : req.prepareRoot.Runs h (.ok root)) :
    req.Rootable := by
  unfold prepareRoot at hr
  simp only [runs_bind_ok, runs_mapErr_ok, runs_orFail_ok] at hr
  -- The run passes the stage and the bind of the new root, whose path has no NUL byte
  obtain ⟨rootfs, _, _, ⟨-, hsome⟩, ⟨⟨⟩, _, _, -, hr, -⟩, -⟩ := hr
  obtain ⟨wid₁, _, _, -, ⟨wid₂, _, _, hwid, ⟨wid₃, _, _, -, hr, -⟩, -⟩, -⟩ := hr
  obtain ⟨stage, _, _, hstage, ⟨⟨⟩, _, _, hnew, -⟩, -⟩ := hr
  have hroot : ¬ HasNul stage := not_hasNul_of_mount hnew
  have hrootfs : req.rootfs = some rootfs := by
    cases hreq : req.rootfs with
    | none =>
      rw [hreq] at hsome
      cases hsome
    | some r =>
      rw [hreq] at hsome
      rw [Except.ok.inj hsome]
  refine ⟨rootfs, hrootfs, ?_⟩
  unfold stageRootfs at hstage
  split at hstage
  · next hslash =>
    subst hslash
    -- The root is `/`: the path of the stage has the workload's id in it
    refine ⟨by decide, fun _ => ?_⟩
    simp only [runs_bind_ok, runs_pure, Outcome.ok.injEq] at hstage
    obtain ⟨_, _, _, -, ⟨_, _, _, -, ⟨_, _, _, -, ⟨_, _, _, -, hstage, -⟩, -⟩, -⟩, -⟩ := hstage
    obtain ⟨_, _, _, -, ⟨_, _, _, -, ⟨-, rfl⟩, -⟩, -⟩ := hstage
    obtain ⟨pid, -, rfl⟩ := identity_runs hwid
    rw [not_hasNul_append, not_hasNul_append] at hroot
    cases hw : req.workloadId with
    | none => decide
    | some w => simpa [hw] using hroot.1.2
  · simp only [runs_pure, Outcome.ok.injEq] at hstage
    obtain ⟨-, rfl⟩ := hstage
    exact ⟨hroot, fun hslash => absurd hslash (by assumption)⟩

/-! ## The entries of `mounts` -/

/-- An entry of `mounts` under the new root, changed in its target only. -/
def retarget (rootfs : String) (m : MountSpec) : MountSpec :=
  { m with target := rootfs ++ "/" ++ m.target }

/-- Without data the code's entry is the one asked for. -/
theorem parentedMount_eq {m : MountSpec} (hdata : m.data = none) (rootfs : String) :
    parentedMount rootfs m = retarget rootfs m := by
  unfold parentedMount retarget
  rw [hdata]

/-- No entry has mount data up to the first, if any, whose target no path can be made of. -/
def DataUnused : List MountSpec → Prop
  | [] => True
  | m :: ms => ¬ HasNul m.target → m.data = none ∧ DataUnused ms

/-- By recursion along the list. -/
instance decidableDataUnused : (ms : List MountSpec) → Decidable (DataUnused ms)
  | [] => isTrue trivial
  | m :: ms =>
    have := decidableDataUnused ms
    inferInstanceAs (Decidable (¬ HasNul m.target → m.data = none ∧ DataUnused ms))

/-- One entry, and then the rest. -/
theorem mountAll_cons (reroot : MountSpec → MountSpec) (m : MountSpec) (ms : List MountSpec) :
    mountAll reroot (m :: ms) = (do
      (reroot m).mount.mapErr
        (Err.context ("failed to process mount spec " ++ (reroot m).target))
      mountAll reroot ms) := rfl

/-- A target with a NUL is an error before any call. -/
theorem mount_of_nul {spec : MountSpec} (hnul : HasNul spec.target) :
    spec.mount = Prog.fail .nul := by
  rw [MountSpec.mount_eq, cString_of_nul hnul]
  rfl

/-- Under the root a target contains a NUL as before. -/
theorem hasNul_retarget {m : MountSpec} (hrootfs : ¬ HasNul rootfs) :
    HasNul (retarget rootfs m).target ↔ HasNul m.target := by
  have hslash : ¬ HasNul "/" := by decide
  rw [← not_iff_not, retarget, not_hasNul_append, not_hasNul_append]
  simp [hrootfs, hslash]

/-- Without mount data the loop is the one that was specified. -/
theorem mountAll_eq (hrootfs : ¬ HasNul rootfs) {ms : List MountSpec} (hdata : DataUnused ms) :
    mountAll (parentedMount rootfs) ms = mountAll (retarget rootfs) ms := by
  induction ms with
  | nil => rfl
  | cons m ms ih =>
    rw [mountAll_cons, mountAll_cons]
    by_cases htarget : HasNul m.target
    · -- both stop here, before they look at the data
      have hnul : HasNul (retarget rootfs m).target := (hasNul_retarget hrootfs).2 htarget
      have hnul' : HasNul (parentedMount rootfs m).target := hnul
      rw [mount_of_nul hnul, mount_of_nul hnul']
      rfl
    · obtain ⟨hnone, hrest⟩ := hdata htarget
      rw [parentedMount_eq hnone, ih hrest]

/-- If the loop does what was specified there is no mount data. -/
theorem dataUnused_of_eq (hrootfs : ¬ HasNul rootfs) {ms : List MountSpec} {rest : Sys Unit}
    (heq : (do
      mountAll (parentedMount rootfs) ms
      rest) = do
      mountAll (retarget rootfs) ms
      rest) : DataUnused ms := by
  -- Along the list: what precedes an entry can succeed, so the two runs agree on it
  induction ms with
  | nil => trivial
  | cons m ms ih =>
    intro htarget
    have htarget' : ¬ HasNul (retarget rootfs m).target := mt (hasNul_retarget hrootfs).1 htarget
    rw [mountAll_cons, mountAll_cons, bind_assoc, bind_assoc] at heq
    cases hdata : m.data with
    | none =>
      rw [parentedMount_eq hdata] at heq
      have hrest := bind_cancel heq (.mapErr (MountSpec.mount_canEnd htarget' hdata))
      exact ⟨rfl, ih hrest⟩
    | some data =>
      -- up to the call of `mount` the two entries do the same
      rw [MountSpec.mount_eq, MountSpec.mount_eq, mapErr_bind, mapErr_bind, bind_assoc,
        bind_assoc] at heq
      have heq₁ := bind_cancel heq (.mapErr (orFail_canEnd htarget'))
      rw [mapErr_bind, mapErr_bind, bind_assoc, bind_assoc] at heq₁
      have heq₂ := bind_cancel heq₁
        (.mapErr (.when fun _ => (retarget rootfs m).createTarget_canEnd))
      -- and there one passes the data on, unless it is refused first
      have hhead := congrArg Prog.head heq₂
      rw [head_bind ((head_mapErr _ _).trans (MountSpec.head_mountAt_none rfl _))] at hhead
      have hdata' : (retarget rootfs m).data = some data := hdata
      rcases MountSpec.head_mountAt_some hdata' _ with ⟨d, hd⟩ | ⟨e, he⟩
      · rw [head_bind ((head_mapErr _ _).trans hd)] at hhead
        cases hhead
      · rw [he] at hhead
        cases hhead

/-- The entries `ms` of `mounts` are carried out as specified: `pivot_fs` has the runs that it has
    if each entry is changed in its target only, and it ends where an entry fails. -/
structure MountsCarriedOut (req : CreateRequest) (ms : List MountSpec) : Prop where
  runs : ∀ h r, req.pivotFs.Runs h r ↔ (req.pivotFsWith retarget).Runs h r
  stops : ∀ rootfs before m rest h₁ h₂ h₃ e, ms = before ++ m :: rest →
    req.prepareRoot.Runs h₁ (.ok rootfs) →
    (mountAll (parentedMount rootfs) before).Runs h₂ (.ok ()) →
    (parentedMount rootfs m).mount.Runs h₃ (.err e) →
    ∃ e', req.pivotFs.Runs (⟨.enter .pivotFs, ()⟩ :: (h₁ ++ (h₂ ++ h₃))) (.err e')

variable {ms : List MountSpec}

/-- The loop ends at the first entry that fails. -/
theorem mountAll_stops {reroot : MountSpec → MountSpec} {before rest : List MountSpec}
    {m : MountSpec} {h₂ h₃ : List Event} {e : Err}
    (hbefore : (mountAll reroot before).Runs h₂ (.ok ()))
    (hfails : (reroot m).mount.Runs h₃ (.err e)) :
    ∃ e', (mountAll reroot (before ++ m :: rest)).Runs (h₂ ++ h₃) (.err e') := by
  refine ⟨Err.context ("failed to process mount spec " ++ (reroot m).target) e, ?_⟩
  unfold mountAll at hbefore ⊢
  rw [List.forM_append]
  refine hbefore.bind ?_
  rw [List.forM_cons]
  exact (hfails.mapErr_err _).bind_err _

/-- An entry that fails ends `pivot_fs`. -/
theorem pivotFsWith_stops {reroot : String → MountSpec → MountSpec} (hms : req.mounts = some ms)
    {before rest : List MountSpec} {m : MountSpec} {h₁ h₂ h₃ : List Event} {e : Err}
    (hsplit : ms = before ++ m :: rest) (hroot : req.prepareRoot.Runs h₁ (.ok rootfs))
    (hbefore : (mountAll (reroot rootfs) before).Runs h₂ (.ok ()))
    (hfails : (reroot rootfs m).mount.Runs h₃ (.err e)) :
    ∃ e', (req.pivotFsWith reroot).Runs (⟨.enter .pivotFs, ()⟩ :: (h₁ ++ (h₂ ++ h₃)))
      (.err e') := by
  obtain ⟨e', hall⟩ := mountAll_stops hbefore hfails
  refine ⟨e', .call (hroot.bind ?_)⟩
  rw [hms, Option.getD_some, hsplit]
  exact hall.bind_err _

/-- If the entries come to be mounted, and as specified, they have no mount data. -/
theorem dataUnused_of_runs (hms : req.mounts = some ms)
    (hruns : ∀ h r, req.pivotFs.Runs h r ↔ (req.pivotFsWith retarget).Runs h r)
    (hreq : req.Rootable) : DataUnused ms := by
  have heq := eq_of_runs (fun c => ⟨Call.success c⟩) hruns
  obtain ⟨root, hroot, hcan⟩ := prepareRoot_canEnd hreq
  rw [pivotFs_eq, pivotFsWith, pivotFsWith, hms, Option.getD_some] at heq
  have heq₁ := bind_cancel heq (.sys (I := calls) ())
  have heq₂ := bind_cancel heq₁ hcan
  exact dataUnused_of_eq hroot heq₂

/-- The entries of `mounts` are carried out as specified exactly if `pivot_fs` never comes to
    them or they have no mount data. -/
theorem pivotFs_mounts_iff (hms : req.mounts = some ms) :
    req.MountsCarriedOut ms ↔ ¬ req.Rootable ∨ DataUnused ms := by
  constructor
  · intro hdone
    by_cases hreq : req.Rootable
    · exact .inr (dataUnused_of_runs hms hdone.runs hreq)
    · exact .inl hreq
  · intro hcond
    have heq : req.pivotFs = req.pivotFsWith retarget := by
      rw [pivotFs_eq, pivotFsWith, pivotFsWith]
      congr 1
      funext u
      refine bind_congr_of_runs fun h root hr => ?_
      -- Without a usable root no entry is reached
      rcases hcond with hno | hdata
      · exact absurd (rootable_of_runs hr) hno
      · rw [hms, Option.getD_some, mountAll_eq (not_hasNul_of_runs hr) hdata]
    refine ⟨fun h r => by rw [heq], fun rootfs before m rest h₁ h₂ h₃ e hsplit hr hb hf => ?_⟩
    rw [pivotFs_eq]
    exact pivotFsWith_stops hms hsplit hr hb hf

/-- A request that mounts a temporary file system. -/
def withTmpfs (data : Option String) : CreateRequest :=
  { (default : CreateRequest) with
    rootfs := some "/srv/rootfs"
    mounts := some
      [{ (default : MountSpec) with
          source := some "tmpfs", target := "tmp", fstype := some "tmpfs", data := data }] }

/-- The example's root is usable. -/
theorem withTmpfs_rootable (data : Option String) : (withTmpfs data).Rootable :=
  ⟨"/srv/rootfs", rfl, by decide, fun heq => absurd heq (by decide)⟩

/-- Without mount data it is carried out as specified. -/
theorem pivotFs_mounts_tmpfs : (withTmpfs none).MountsCarriedOut
    [{ (default : MountSpec) with
        source := some "tmpfs", target := "tmp", fstype := some "tmpfs" }] :=
  (pivotFs_mounts_iff rfl).2 (.inr (by decide))

/-- With a size for it, the size is lost. -/
theorem pivotFs_loses_data : ¬ (withTmpfs (some "size=64m")).MountsCarriedOut
    [{ (default : MountSpec) with
        source := some "tmpfs", target := "tmp", fstype := some "tmpfs",
        data := some "size=64m" }] := by
  intro hdone
  have hdata := dataUnused_of_runs rfl hdone.runs (withTmpfs_rootable _)
  exact absurd hdata (by decide)

end CreateRequest

end Styrolite
