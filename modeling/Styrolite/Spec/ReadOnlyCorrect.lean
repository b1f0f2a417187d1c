import Styrolite.Spec.PivotRun
import Styrolite.Spec.VfsSteps

/-!
# A read-only root

With `rootfs_readonly` the new root is bound recursively and then sealed by one
change of attributes that is not recursive. So of the mounts that the bind copies
exactly those are read-only in the container that were so before, that the path
of the new root leads to, or that a later change of attributes reaches
(`readOnly_iff`).
-/

namespace Styrolite

open Prog LocalRules

/-- The call does not take attributes away from a mount. -/
def Call.SetsOnly (c : Call) : Prop :=
  ∀ dir path flags attr, c = .mountSetattr dir path flags attr → attr.attrClr = 0

namespace Vfs

variable {s s' s'' : Vfs} {n : Nat}

/-! ## The flags of a mount -/

/-- There may be more mounts, and those that were there have kept their flags. -/
structure KeepsFlags (s s' : Vfs) : Prop where
  size : s.mounts.size ≤ s'.mounts.size
  readOnly : ∀ {n}, n < s.mounts.size → s'.readOnly n = s.readOnly n

namespace KeepsFlags

/-- What changes neither mounts nor flags. -/
theorem of_eq (hmounts : s'.mounts = s.mounts) (hro : s'.readOnly = s.readOnly) :
    s.KeepsFlags s' where
  size := by rw [hmounts]
  readOnly _ := by rw [hro]

/-- Nothing is done. -/
theorem refl (s : Vfs) : s.KeepsFlags s := of_eq rfl rfl

/-- One change after the other. -/
theorem trans (h₁ : s.KeepsFlags s') (h₂ : s'.KeepsFlags s'') : s.KeepsFlags s'' where
  size := Nat.le_trans h₁.size h₂.size
  readOnly hn := by rw [h₂.readOnly (Nat.lt_of_lt_of_le hn h₁.size), h₁.readOnly hn]

end KeepsFlags

/-- An edit keeps the flags of the mounts there are. -/
theorem Edit.keepsFlags (he : Edit s s') : s.KeepsFlags s' := by
  -- A new mount has a number of its own, so the old flags stay
  cases he with
  | look hmounts hnode hcount hro hroot => exact .of_eq hmounts hro
  | attach fs root dst ro =>
    unfold Vfs.attach
    split
    · exact ⟨Nat.le_succ _, fun hn => if_neg (Nat.ne_of_lt hn)⟩
    · exact .refl s
  | addTmpfs => exact .of_eq rfl rfl
  | bindRec src dst => exact ⟨Nat.le_add_right _ _, fun hn => if_pos hn⟩
  | create hwalk hnd =>
    unfold Vfs.create
    split <;> exact .of_eq rfl rfl

/-- So do several. -/
theorem Edits.keepsFlags (he : Edits s s') : s.KeepsFlags s' := by
  induction he with
  | refl => exact .refl s
  | tail _ he ih => exact ih.trans he.keepsFlags

/-- The call makes the mount read-only. -/
def sets (s : Vfs) (c : Call) (a : c.Answer) (n : Nat) : Bool :=
  match c, a with
  | .mountSetattr dir path flags attr, .ok () =>
    attr.attrSet &&& MOUNT_ATTR_RDONLY != 0 && s.reaches dir path flags n
  | _, _ => false

/-- A mount is read-only after the call if it was so before, or the call reaches it with the
    attribute. -/
theorem mountSetattr_readOnly {dir : DirFd} {path : String} {flags : CInt} {attr : MountAttr}
    (hm : s.mountSetattr dir path flags attr = some s') (hclr : attr.attrClr = 0) (n : Nat) :
    s'.mounts = s.mounts ∧ s'.readOnly n =
      (s.readOnly n || (attr.attrSet &&& MOUNT_ATTR_RDONLY != 0 && s.reaches dir path flags n)) := by
  unfold mountSetattr at hm
  -- The call succeeded, so the place is the root of a mount
  split at hm
  · split at hm
    · cases hm
      refine ⟨rfl, ?_⟩
      dsimp only
      rw [hclr]
      split
      · -- The mount is reached, and its flag is the one that was set or the old one
        next hreach => simp [hreach]
      · next hreach => simp [hreach]
    · cases hm
  · cases hm

/-- A mount that is there is read-only after the call if it was so or is made so. -/
theorem next_readOnly {c : Call} {a : c.Answer} (ha : s.allows c a) (hc : c.SetsOnly)
    (hn : n < s.mounts.size) : s.mounts.size ≤ (s.next c a).mounts.size ∧
      (s.next c a).readOnly n = (s.readOnly n || s.sets c a n) := by
  by_cases hev : ∃ dir path flags attr,
      (⟨c, a⟩ : Event) = ⟨.mountSetattr dir path flags attr, Except.ok ()⟩
  · obtain ⟨dir, path, flags, attr, hev⟩ := hev
    cases hev
    obtain ⟨s', hs'⟩ := Option.isSome_iff_exists.1 ha
    have hnext : s.next (.mountSetattr dir path flags attr) (.ok ()) = s' :=
      next_of_mountSetattr hs'
    obtain ⟨hmounts, hro⟩ := mountSetattr_readOnly hs' (hc dir path flags attr rfl) n
    rw [hnext, hmounts]
    exact ⟨Nat.le_refl _, hro⟩
  · -- No other call sets a flag
    have hsets : s.sets c a n = false := by
      unfold sets
      split
      · exact absurd ⟨_, _, _, _, rfl⟩ hev
      · rfl
    rw [hsets, Bool.or_false]
    -- By what a call can do: truncate, pivot, or add mounts and files
    rcases next_cases ha with ⟨dir, path, flags, attr, heq, -⟩ | ⟨_, l, -, -, -, heq⟩ |
      ⟨_, _, -, hm⟩ | he
    · exact absurd ⟨dir, path, flags, attr, heq⟩ hev
    · obtain ⟨hmounts, -, hro, -⟩ := s.truncate_eq l
      rw [heq, hmounts, hro]
      exact ⟨Nat.le_refl _, rfl⟩
    · obtain ⟨hmounts, -, -, hro⟩ := pivotRoot_eq_some hm
      rw [hmounts, hro]
      exact ⟨Nat.le_refl _, rfl⟩
    · have hkeeps := Edits.keepsFlags he
      exact ⟨hkeeps.size, hkeeps.readOnly hn⟩

/-- A mount that is there is read-only after some calls if it was so or one of them makes it so. -/
theorem after_readOnly {h : List Event} (hl : vfsRules.Lawful s h) (hc : ∀ e ∈ h, e.call.SetsOnly)
    (hn : n < s.mounts.size) : (vfsRules.after s h).readOnly n = true ↔
      s.readOnly n = true ∨ ∃ h₁ e h₂, h = h₁ ++ e :: h₂ ∧
        (vfsRules.after s h₁).sets e.call e.answer n = true := by
  -- Along the history: the flag is set by the first event, or by a later one
  induction h generalizing s with
  | nil => simp
  | cons e h ih =>
    obtain ⟨ha, hl⟩ := lawful_cons.1 hl
    obtain ⟨hsize, hro⟩ := next_readOnly ha (hc e List.mem_cons_self) hn
    have hrest := ih hl (fun e' he' => hc e' (List.mem_cons_of_mem e he'))
      (Nat.lt_of_lt_of_le hn hsize)
    -- The first call, and then the rest from the state after it
    have hfirst : (vfsRules.next s e.call e.answer).readOnly n = true ↔
        s.readOnly n = true ∨ s.sets e.call e.answer n = true := by
      rw [← Bool.or_eq_true, ← hro]
      rfl
    rw [after_cons, hrest, hfirst, or_assoc]
    refine or_congr_right ?_
    constructor
    · rintro (hset | ⟨h₁, e', h₂, rfl, hset⟩)
      · exact ⟨[], e, h, rfl, hset⟩
      · exact ⟨e :: h₁, e', h₂, rfl, hset⟩
    · rintro ⟨h₁, e', h₂, heq, hset⟩
      cases h₁ with
      | nil =>
        cases heq
        exact .inl hset
      | cons e₁ h₁ =>
        cases heq
        exact .inr ⟨h₁, e', h₂, rfl, hset⟩

/-- A recursive bind. -/
theorem mount_bindRec {source target : String} {fstype data : Option String} {flags : U64}
    (hm : s.mount (some source) target fstype flags data = some s') (hbind : flags &&& MS_BIND ≠ 0)
    (hrec : flags &&& MS_REC ≠ 0) : ∃ x y, s.Leads source x ∧ s.Leads target y ∧
      s' = s.bindRec x (s.mounts.top y) := by
  obtain ⟨y, hy, ⟨-, src, x, hsource, hx, heq⟩ | ⟨hno, -, -⟩ | ⟨hno, -, -⟩⟩ := mount_cases hm
  · cases hsource
    rw [if_pos hrec] at heq
    exact ⟨x, y, hx, hy, heq⟩
  · exact absurd hno hbind
  · exact absurd hno hbind

/-- Only mounts of the table are under a place. -/
theorem lt_of_under {l : Place FileName} (hl : s.mounts.Has l) (hu : s.mounts.under l n) :
    n < s.mounts.size := by
  rcases MountTable.under_iff.1 hu with rfl | ⟨m, l', hm, -, -⟩
  · exact hl.lt
  · exact (s.mounts.older hm).1

/-- An opened tree is of the place that the path leads to. -/
theorem openTree_eq_some {path : String} {fd : Nat} (hm : s.openTree path fd = some s') :
    ∃ l, s.Leads path l ∧ s'.trees fd = some l ∧ s'.mounts = s.mounts ∧
      s'.readOnly = s.readOnly := by
  unfold openTree at hm
  split at hm
  · next l k hl =>
    cases hm
    exact ⟨l, ⟨k, hl⟩, if_pos rfl, rfl, rfl⟩
  · cases hm

/-- After a place has been bound onto itself every path comes to the place it came to, or to the
    copy of that. -/
theorem resolve_bindRec {src : Place FileName} (hsrc : s.mounts.Has src)
    (hroot : s.mounts.Within src s.root → s.root = src) (follow : Bool) (path : String) :
    ((s.bindRec src (s.mounts.top src)).resolve follow path).Rel
      (MountTable.CopyOf s.mounts src) (s.resolve follow path) := by
  unfold resolve
  split
  · exact .missing
  · have hsim : PathSpace.Bisim ((s.mounts.clone src (s.mounts.top src)).space s.files s.root)
        (s.space s.root) (MountTable.CopyOf s.mounts src) :=
      MountTable.bisim_kept hsrc rfl s.has_root hroot
    exact hsim.walk ⟨s.has_start path, .inl rfl⟩

/-- After a recursive bind a path leads where it led, or to the copy of that place. -/
theorem leads_bindRec {src l' : Place FileName} (hsrc : s.mounts.Has src)
    (hroot : s.mounts.Within src s.root → s.root = src) {path : String}
    (hl' : (s.bindRec src (s.mounts.top src)).Leads path l') :
    ∃ l, s.Leads path l ∧ MountTable.CopyOf s.mounts src l' l := by
  obtain ⟨k, hk⟩ := hl'
  have hrel := resolve_bindRec hsrc hroot true path
  rw [hk] at hrel
  obtain ⟨l, hl, hcopy⟩ := hrel.exists_at_left
  exact ⟨l, ⟨k, hl⟩, hcopy⟩

end Vfs

/-! ## The calls of `pivot_fs` -/

/-- What `pivot_fs` does after the seal, where it succeeds: it opens no tree, changes attributes by
    path and takes none away, and is refused no directory or file. -/
def Event.Populates : Event → Prop
  | ⟨.openTree _ _, _⟩ => False
  | ⟨.mountSetattr dir _ _ attr, _⟩ => dir = .cwd ∧ attr.attrClr = 0
  | ⟨.fsCreateDirAll _, a⟩ => a = Except.ok ()
  | ⟨.fsFileCreate _, a⟩ => a = Except.ok ()
  | _ => True

/-- A call of the population sets only attributes. -/
theorem Event.Populates.setsOnly {e : Event} (he : e.Populates) : e.call.SetsOnly := by
  obtain ⟨c, a⟩ := e
  intro dir path flags attr heq
  change c = _ at heq
  subst heq
  exact he.2

/-- Directories are made. -/
theorem fsCreateDirAll_emits (path : String) :
    (do check (← sys (.fsCreateDirAll path)) : Sys Unit).Emits Event.Populates :=
  .sys_bind (I := calls) (fun _ _ _ hr => (runs_check_ok.1 hr).2) fun _ => .check _ _

/-- Files are made. -/
theorem fsFileCreate_emits (path : String) :
    (do check (← sys (.fsFileCreate path)) : Sys Unit).Emits Event.Populates :=
  .sys_bind (I := calls) (fun _ _ _ hr => (runs_check_ok.1 hr).2) fun _ => .check _ _

namespace MountSpec

/-- A target is made by such calls. -/
theorem createTarget_emits (spec : MountSpec) :
    spec.createTarget.Emits Event.Populates := by
  unfold createTarget sourceIsFile
  refine .bind ?_ fun isFile => ?_
  · split
    · refine .bind (.sys (I := calls) fun a => trivial) fun r => ?_
      split <;> exact .pure _
    · exact .pure _
  · split
    · exact .bind (.whenSome fun parent => fsCreateDirAll_emits parent) fun _ =>
        fsFileCreate_emits spec.target
    · exact fsCreateDirAll_emits spec.target

/-- A mount is made by such calls. -/
theorem mount_emits (spec : MountSpec) : spec.mount.Emits Event.Populates := by
  rw [mount_eq]
  refine .bind (.check _ _) fun target => .bind (.when fun _ => spec.createTarget_emits) fun _ => ?_
  unfold mountAt dataArg mountSetattr
  refine .bind ?_ fun data => .bind (.sys (I := calls) fun a => trivial) fun r =>
    .bind (.mapErr (.check _ _)) fun _ => .when fun _ => .bind (.check _ _) fun path =>
      .bind (.sys (I := calls) fun a => ⟨rfl, rfl⟩) fun r => .check _ _
  split
  · exact .pure _
  · rw [map_eq_pure_bind]
    exact .bind (.mapErr (.check _ _)) fun _ => .pure _

/-- The pivot is made by such calls. -/
theorem pivot_emits (spec : MountSpec) : spec.pivot.Emits Event.Populates := by
  unfold pivot
  exact .bind (.sys (I := calls) fun a => trivial) fun r => .bind (.check _ _) fun _ =>
    .bind (.sys (I := calls) fun a => trivial) fun r => .bind (.mapErr (.check _ _)) fun _ =>
    .bind (.sys (I := calls) fun a => trivial) fun r => .bind (.mapErr (.check _ _)) fun _ =>
    .bind (.sys (I := calls) fun a => trivial) fun r => .check _ _

end MountSpec

/-- A mount on a path that is looked at first. -/
theorem stat_emits (target : String) {f : Metadata → MountSpec} :
    (do
      match ← sys (.fsSymlinkMetadata target) with
      | .ok m => (f m).mount
      | .error e =>
        if e = Errno.ENOENT then pure ()
        else Prog.fail (Err.context ("stat " ++ target) (.os e)) : Sys Unit).Emits
      Event.Populates := by
  refine .bind (.sys (I := calls) fun a => trivial) fun r => ?_
  split
  · exact MountSpec.mount_emits _
  · split
    · exact .pure _
    · exact .fail _

namespace CreateRequest

/-- All that follows the seal is made of such calls. -/
theorem populate_emits (req : CreateRequest) (rootfs : String) :
    (req.populate rootfs).Emits Event.Populates := by
  unfold populate mountAll finishRoot
  refine .bind (.mapErr (MountSpec.mount_emits _)) fun _ =>
    .bind (.forM fun m => .mapErr (MountSpec.mount_emits _)) fun _ =>
    .bind (.forM fun m => ?_) fun _ =>
    .bind (.forM fun path => .mapErr (stat_emits (joinRootfs rootfs path))) fun _ =>
    .bind (.forM fun path => .mapErr (stat_emits (joinRootfs rootfs path))) fun _ =>
    .mapErr (MountSpec.pivot_emits _)
  cases m with
  | createDir cdm => exact .mapErr (fsCreateDirAll_emits _)

/-- The new root is bound without attributes. -/
theorem newroot_attrEvents (root : String) : (newroot root).attrEvents = [] := by
  simp [MountSpec.attrEvents, MountSpec.attrSet, newroot]

/-- It is bound with its mounts. -/
theorem newroot_mountFlags (root : String) :
    (newroot root).mountFlags = MS_SILENT ||| MS_BIND ||| MS_REC := by
  simp [MountSpec.mountFlags, newroot]

/-- The change of attributes that seals the new root. -/
def sealEvents (root : String) (fd : Nat) : List Event :=
  [⟨.openTree root OPEN_TREE_CLOEXEC, Except.ok fd⟩,
    ⟨.mountSetattr (.tree fd) "" AT_EMPTY_PATH { attrSet := MOUNT_ATTR_RDONLY, attrClr := 0 },
      Except.ok ()⟩]

/-- To seal the root is to open its tree, without its mounts, and to set the attribute on it. -/
theorem sealRoot_runs {req : CreateRequest} {root : String} {h : List Event}
    (hro : req.rootfsReadonly = some true) :
    (req.sealRoot root).Runs h (.ok ()) ↔ ¬ HasNul root ∧ ∃ fd, h = sealEvents root fd := by
  have hseal : req.sealRoot root =
      (newroot root).sealMount.mapErr (Err.context "failed to make new rootfs readonly") := by
    rw [sealRoot, hro]
    rfl
  rw [hseal, runs_mapErr_ok]
  constructor
  · intro hr
    -- The tree is opened and its attributes are set through the descriptor
    obtain ⟨fd, h₁, h₂, hopen, hset, rfl⟩ := runs_bind_ok.1 hr
    unfold openTree at hopen
    obtain ⟨cPath, _, h₃, hpath, hopen, rfl⟩ := runs_bind_ok.1 hopen
    obtain ⟨rfl, hcstr⟩ := runs_orFail_ok.1 hpath
    have hnul := not_hasNul_of_cString hcstr
    rw [cString_of_not_nul hnul] at hcstr
    cases hcstr
    obtain ⟨a, _, h₄, hsys, hcheck, rfl⟩ := runs_bind_ok.1 hopen
    obtain rfl := runs_sys_ok.1 hsys
    obtain ⟨rfl, rfl⟩ := runs_check_ok.1 hcheck
    refine ⟨hnul, fd, ?_⟩
    rw [(MountSpec.runs_mountSetattr.1 hset).2]
    rfl
  · -- The two calls are a run of it
    rintro ⟨hnul, fd, rfl⟩
    have hopen : (openTree root OPEN_TREE_CLOEXEC).Runs
        [⟨.openTree root OPEN_TREE_CLOEXEC, Except.ok fd⟩] (.ok fd) := by
      unfold openTree
      rw [cString_of_not_nul hnul]
      exact .call (.refl _)
    exact hopen.bind (MountSpec.runs_mountSetattr.2 ⟨by decide, rfl⟩)

namespace PivotRun

variable {req : CreateRequest} {s₀ : Vfs} (run : PivotRun req s₀)

/-- The place that the path of the new root leads to is mounted there again, recursively. -/
theorem atSeal_eq : ∃ l, run.atBind.Leads run.root l ∧
    run.atSeal = run.atBind.bindRec l (run.atBind.mounts.top l) := by
  obtain ⟨hnul, making, data, hmaking, -, heq⟩ := MountSpec.mount_runs run.bind_runs
  -- The one call of the bind
  obtain ⟨rfl, -⟩ := runs_pure.1 hmaking
  rw [newroot_attrEvents, newroot_mountFlags] at heq
  have hsource : (newroot run.root).sourceArg = some run.root :=
    MountSpec.sourceArg_of_not_nul rfl hnul
  obtain ⟨-, hl, -⟩ := run.lawful_split
  rw [heq] at hl
  obtain ⟨s', hs'⟩ := Option.isSome_iff_exists.1 (lawful_cons.1 hl).1
  have hseal : run.atSeal = s' := by
    rw [atSeal, heq]
    exact Vfs.next_of_mount hs'
  rw [hsource] at hs'
  obtain ⟨x, y, hx, hy, hbind⟩ := Vfs.mount_bindRec hs' (by decide) (by decide)
  obtain rfl := hx.unique hy
  exact ⟨x, hx, hseal.trans hbind⟩

/-- Every mount that the bind of the new root has copied is read-only in the end. -/
def ReadOnlyThroughout : Prop := ∀ l n, run.atBind.Leads run.root l →
  run.atBind.mounts.under l n → run.final.readOnly (run.atBind.mounts.size + n) = true

/-- The path of the new root leads to the copy of the mount, so that the seal is for that. -/
def SealsCopy (n : Nat) : Prop :=
  ∃ q, run.atSeal.Leads run.root (run.atBind.mounts.size + n, q)

/-- After the seal the attributes of the copy of the mount are changed to read-only. -/
def SetsCopy (n : Nat) : Prop := ∃ h₁ e h₂, run.populating = h₁ ++ e :: h₂ ∧
  (vfsRules.after run.atPopulate h₁).sets e.call e.answer (run.atBind.mounts.size + n) = true

/-- The root's path leads somewhere when it is sealed. -/
theorem exists_leads (hro : req.rootfsReadonly = some true) :
    ∃ x, run.atSeal.Leads run.root x := by
  obtain ⟨-, fd, hseal⟩ := (sealRoot_runs hro).1 run.seal_runs
  obtain ⟨-, -, hl, -⟩ := run.lawful_split
  rw [hseal] at hl
  obtain ⟨s', hs'⟩ := Option.isSome_iff_exists.1 (lawful_cons.1 hl).1
  obtain ⟨x, hx, -⟩ := Vfs.openTree_eq_some hs'
  exact ⟨x, hx⟩

/-- After the seal the mount that the path leads to is read-only, and nothing else has changed. -/
theorem atPopulate_readOnly (hro : req.rootfsReadonly = some true) {k : Nat}
    (hk : k < run.atSeal.mounts.size) :
    run.atSeal.mounts.size ≤ run.atPopulate.mounts.size ∧ (run.atPopulate.readOnly k = true ↔
      run.atSeal.readOnly k = true ∨ ∃ q, run.atSeal.Leads run.root (k, q)) := by
  obtain ⟨-, fd, hseal⟩ := (sealRoot_runs hro).1 run.seal_runs
  obtain ⟨-, -, hl, -⟩ := run.lawful_split
  rw [hseal] at hl
  obtain ⟨hopen, hrest⟩ := lawful_cons.1 hl
  obtain ⟨hset, -⟩ := lawful_cons.1 hrest
  -- the descriptor is of the place that the path leads to
  obtain ⟨s', hs'⟩ := Option.isSome_iff_exists.1 hopen
  have hnext : vfsRules.next run.atSeal (.openTree run.root OPEN_TREE_CLOEXEC) (Except.ok fd) =
      s' := Vfs.next_of_openTree OPEN_TREE_CLOEXEC hs'
  obtain ⟨x, hx, htree, hmounts, hsame⟩ := Vfs.openTree_eq_some hs'
  have hset' : s'.allows (.mountSetattr (.tree fd) "" AT_EMPTY_PATH
      { attrSet := MOUNT_ATTR_RDONLY, attrClr := 0 }) (Except.ok ()) := hnext ▸ hset
  have hsets : Call.SetsOnly (.mountSetattr (.tree fd) "" AT_EMPTY_PATH
      { attrSet := MOUNT_ATTR_RDONLY, attrClr := 0 }) := by
    intro _ _ _ _ heq
    cases heq
    rfl
  obtain ⟨hsize, hflag⟩ := Vfs.next_readOnly hset' hsets (by rw [hmounts]; exact hk)
  have hreach : s'.sets (.mountSetattr (.tree fd) "" AT_EMPTY_PATH
      { attrSet := MOUNT_ATTR_RDONLY, attrClr := 0 }) (Except.ok ()) k = decide (k = x.1) := by
    have hplace : s'.attrPlace (.tree fd) "" = some x := by
      show (if "" = "" then s'.trees fd else none) = some x
      rw [if_pos rfl, htree]
    -- The descriptor reaches its own mount alone
    have hone : s'.reaches (.tree fd) "" AT_EMPTY_PATH k = decide (k = x.1) := by
      rw [Vfs.reaches, hplace]
      exact if_neg (by decide)
    unfold Vfs.sets
    dsimp only
    rw [hone]
    exact Bool.true_and _
  have hend : run.atPopulate = s'.next (.mountSetattr (.tree fd) "" AT_EMPTY_PATH
      { attrSet := MOUNT_ATTR_RDONLY, attrClr := 0 }) (Except.ok ()) := by
    rw [atPopulate, hseal, ← hnext]
    rfl
  rw [hend, hflag, hreach, hsame, Bool.or_eq_true, decide_eq_true_iff, ← hmounts]
  -- The mount that the path leads to is the one sealed
  refine ⟨hsize, or_congr_right ⟨?_, ?_⟩⟩
  · -- The mount of the place
    rintro rfl
    exact ⟨x.2, hx⟩
  · rintro ⟨q, hq⟩
    rw [← hq.unique hx]

/-- Where the path of the new root does not lead to where it starts from, the seal is for the copy of
    the one mount that it leads to. -/
theorem sealsCopy_iff (hro : req.rootfsReadonly = some true) {l : Place FileName} {n : Nat}
    (hfirst : run.atBind.mounts.IsFirst run.atBind.root) (hl : run.atBind.Leads run.root l)
    (hroot : l ≠ run.atBind.root) (hcwd : l ≠ run.atBind.cwd) : run.SealsCopy n ↔ n = l.1 := by
  obtain ⟨x, hx, heq⟩ := run.atSeal_eq
  obtain rfl := hx.unique hl
  have hhas := hl.place.1
  -- nothing covers the place before it is bound, and its copy does after
  -- A path with a component leads to no covered place
  have hstart : ∀ s : Vfs, s.root = run.atBind.root → s.cwd = run.atBind.cwd →
      x ≠ s.start run.root := by
    intro s hr hc hstart
    unfold Vfs.start at hstart
    split at hstart
    · exact hroot (hstart.trans hr)
    · exact hcwd (hstart.trans hc)
  have htop : run.atBind.mounts.top x = x := by
    rcases hl.place.2 with h | h | hun
    · exact absurd h hroot
    · exact absurd h (hstart _ rfl rfl)
    · exact MountTable.top_of_uncovered hun
  -- The copy is on the place, so the place itself is covered now
  have hcopy : ∀ x', run.atSeal.Leads run.root x' → x' = run.atBind.mounts.copy x := by
    intro x' hx'
    have hold := hx'
    rw [heq] at hold
    obtain ⟨l, hl', -, rfl | ⟨-, rfl⟩⟩ :=
      Vfs.leads_bindRec hhas (hfirst.within_iff hhas).1 hold
    · rw [hl'.unique hx] at hold
      exfalso
      obtain ⟨m, hm, -⟩ := hl.place.1
      have hdst : run.atBind.mounts.Has (run.atBind.mounts.top x) := htop.symm ▸ hhas
      have hnew := MountTable.clone_mount_src hm hdst
      rcases hold.place.2 with h | h | hun
      · exact hroot h
      · exact hstart _ rfl rfl h
      · exact hun _ _ hnew (congrArg some htop)
    · rw [hl'.unique hx]
  constructor
  · rintro ⟨q, hq⟩
    have hfst := congrArg Prod.fst (hcopy _ hq)
    exact Nat.add_left_cancel hfst
  · rintro rfl
    obtain ⟨x', hx'⟩ := run.exists_leads hro
    rw [hcopy x' hx'] at hx'
    exact ⟨_, hx'⟩

/-- The new root is read-only throughout exactly if each mount under it was so before it was
    bound, or the seal or a later change of attributes makes the copy so. -/
theorem readOnly_iff (hro : req.rootfsReadonly = some true) :
    run.ReadOnlyThroughout ↔ ∀ l n, run.atBind.Leads run.root l → run.atBind.mounts.under l n →
      run.atBind.readOnly n = true ∨ run.SealsCopy n ∨ run.SetsCopy n := by
  obtain ⟨x, hx, heq⟩ := run.atSeal_eq
  obtain ⟨-, -, -, hl⟩ := run.lawful_split
  refine forall₂_congr fun l n => forall₂_congr fun hleads hunder => ?_
  have hn : n < run.atBind.mounts.size := Vfs.lt_of_under hleads.place.1 hunder
  -- The copy of each mount is there when the root is sealed, with the flag of its original
  have hk : run.atBind.mounts.size + n < run.atSeal.mounts.size := by
    rw [heq]
    exact Nat.add_lt_add_left hn _
  have hcopy : run.atSeal.readOnly (run.atBind.mounts.size + n) = run.atBind.readOnly n := by
    rw [heq]
    show (if _ < _ then _ else _) = _
    rw [if_neg (by omega), Nat.add_sub_cancel_left]
  obtain ⟨hsize, hsealed⟩ := run.atPopulate_readOnly hro hk
  have hk' : run.atBind.mounts.size + n < run.atPopulate.mounts.size := Nat.lt_of_lt_of_le hk hsize
  have hsets : ∀ e ∈ run.populating, e.call.SetsOnly :=
    fun e he => (req.populate_emits run.root _ _ run.populate_runs e he).setsOnly
  have hfinal := Vfs.after_readOnly hl hsets hk'
  rw [hsealed, hcopy, or_assoc] at hfinal
  exact hfinal

end PivotRun

/-- A request for a read-only root. -/
def readOnlyRequest : CreateRequest :=
  { (default : CreateRequest) with rootfs := some "/srv", rootfsReadonly := some true }

/-- A host with a volume that is mounted on a directory of the root to be. -/
def hostWithVolume (ro : Bool) : Vfs :=
  (Vfs.host fun q =>
    if q ∈ [[], ["srv".toList], ["srv".toList, "proc".toList], ["srv".toList, "data".toList],
      ["vol".toList]] then some .dir else none).attach 0 ["vol".toList]
        (0, ["srv".toList, "data".toList]) ro

/-- The run in which every call succeeds. -/
def volumeRun (ro : Bool) : PivotRun readOnlyRequest (hostWithVolume ro) where
  root := "/srv"
  choosing :=
    [⟨.mount none "/" none (MS_SILENT ||| MS_PRIVATE ||| MS_REC) none, Except.ok ()⟩,
      ⟨.getpid, (1 : Nat)⟩, ⟨.getpid, (1 : Nat)⟩, ⟨.getpid, (1 : Nat)⟩]
  binding :=
    [⟨.mount (some "/srv") "/srv" none (MS_SILENT ||| MS_BIND ||| MS_REC) none, Except.ok ()⟩]
  sealing := sealEvents "/srv" 3
  populating :=
    [⟨.mount (some "proc") "/srv/proc" (some "proc") (MS_SILENT ||| MS_REC) none, Except.ok ()⟩,
      ⟨.mountSetattr .cwd "/srv/proc" AT_RECURSIVE
        { attrSet := MOUNT_ATTR_NOSUID ||| MOUNT_ATTR_NODEV ||| MOUNT_ATTR_NOEXEC, attrClr := 0 },
        Except.ok ()⟩,
      ⟨.setCurrentDir "/srv", Except.ok ()⟩, ⟨.pivotRoot "." ".", Except.ok ()⟩,
      ⟨.umount2 "." MNT_DETACH, Except.ok ()⟩, ⟨.setCurrentDir "/", Except.ok ()⟩]
  choose_runs := .call (.call (.call (.call (.refl _))))
  bind_runs := .call (.refl _)
  seal_runs := .call (.call (.refl _))
  populate_runs := .call (.call (.call (.call (.call (.call (.refl _))))))
  lawful := by
    simp only [sealEvents, List.cons_append, List.nil_append, lawful_cons]
    refine ⟨trivial, ?_, trivial, trivial, trivial, ?_, ?_, ?_, ?_, ?_, ?_, ?_, trivial, ?_,
      lawful_nil _ _⟩
    all_goals
      show Option.isSome _ = true
      revert ro
      decide +kernel

/-- The volume under the root stays writable. -/
theorem not_readOnly_volume : ¬ (volumeRun false).ReadOnlyThroughout := by
  intro hro
  have hvolume := hro (0, ["srv".toList]) 1 ⟨40, by decide +kernel⟩ (by decide +kernel)
  exact absurd hvolume (by decide +kernel)

/-- If it is read-only before, it is so in the container. -/
theorem readOnly_volume : (volumeRun true).ReadOnlyThroughout := by
  refine ((volumeRun true).readOnly_iff rfl).2 fun l n hleads hunder => ?_
  have hroot : (volumeRun true).atBind.Leads "/srv" (0, ["srv".toList]) := ⟨40, by decide +kernel⟩
  obtain rfl := hleads.unique hroot
  have hn : n < (volumeRun true).atBind.mounts.size := Vfs.lt_of_under hleads.place.1 hunder
  have hsize : (volumeRun true).atBind.mounts.size = 2 := by decide +kernel
  rw [hsize] at hn
  have hcases : n = 0 ∨ n = 1 := by omega
  rcases hcases with rfl | rfl
  · exact .inr (.inl ⟨["srv".toList], 40, by decide +kernel⟩)
  · exact .inl (by decide +kernel)

end CreateRequest

end Styrolite
