import Styrolite.ForStd.Triples
import Styrolite.Spec.ReadOnlyCorrect
import Styrolite.Spec.TargetsCorrect

/-!
# The read-only paths

`make_readonly` binds a path recursively onto itself and then makes the copies
read-only. The loop over `readonly_paths` leaves every path leading to what it led
to, and every existing path of the list, with all that is beneath it, on mounts
that are read-only (`readonlyLoop_correct`), whatever the order of the list and
however its paths lie within each other.
-/

namespace Styrolite

open Prog LocalRules

namespace Vfs

variable {s s' s'' : Vfs} {l src : Place FileName} {root path target : String}

/-! ## What a path finds -/

/-- The name that the place has in a file system, wherever that is mounted. -/
def object (s : Vfs) (l : Place FileName) : Option (Nat × List FileName) :=
  (s.mounts.mount l.1).map fun m => (m.fs, l.2)

/-- What the path leads to. -/
def finds (s : Vfs) (follow : Bool) (path : String) :
    Arrival (Option (Nat × List FileName)) FileName := (s.resolve follow path).map s.object

/-- Every path comes to the same end in both, and the file systems hold the same. -/
structure LooksLike (s s' : Vfs) : Prop where
  node : s'.node = s.node
  finds : ∀ follow path, s'.finds follow path = s.finds follow path

/-- A state looks like itself. -/
theorem LooksLike.refl (s : Vfs) : s.LooksLike s := ⟨rfl, fun _ _ => rfl⟩

/-- Looking alike is passed on. -/
theorem LooksLike.trans (h₁ : s.LooksLike s') (h₂ : s'.LooksLike s'') : s.LooksLike s'' where
  node := h₂.node.trans h₁.node
  finds follow path := (h₂.finds follow path).trans (h₁.finds follow path)

/-! ## The tree of a process -/

/-- The process is in the tree of its root directory. -/
def InTree (s : Vfs) : Prop := s.mounts.Within s.root s.cwd

/-- Every path starts within the root directory, if the process is in its tree. -/
theorem InTree.start (h : s.InTree) (path : String) : s.mounts.Within s.root (s.start path) := by
  unfold Vfs.start
  split
  · exact MountTable.within_self _
  · exact h

/-- Nothing else is found by a path. -/
theorem InTree.resolve (h : s.InTree) (follow : Bool) (path : String) :
    (s.resolve follow path).Within fun x => s.mounts.Has x ∧ s.mounts.Within s.root x := by
  unfold Vfs.resolve
  split
  · trivial
  · have hjail : (s.space s.root).Jail (s.space s.root) (s.mounts.leaves s.root)
        fun x => s.mounts.Has x ∧ s.mounts.Within s.root x :=
      MountTable.jail (fun _ => rfl) s.has_root
    exact hjail.walk_within ⟨s.has_start path, h.start path⟩

/-- And leads to a place within it. -/
theorem InTree.leads (h : s.InTree) (hl : s.Leads path l) :
    s.mounts.Has l ∧ s.mounts.Within s.root l := by
  obtain ⟨k, hk⟩ := hl
  have hin := h.resolve true path
  rw [hk] at hin
  exact hin

/-- The root directory is in no place that a path leads to, other than itself. -/
theorem InTree.root_eq (h : s.InTree) (hl : s.Leads path l) (hw : s.mounts.Within l s.root) :
    s.root = l := ((h.leads hl).2.antisymm hw).symm

/-- A process stays in its tree when mounts are added. -/
theorem InTree.of_extends (h : s.InTree) (hext : s.mounts.Extends s'.mounts)
    (hroot : s'.root = s.root) (hcwd : s'.cwd = s.cwd) : s'.InTree := by
  unfold InTree
  rw [hroot, hcwd, hext.within s.has_cwd.lt]
  exact h

/-! ## A place bound onto itself -/

/-- The copy of a place has the name of the place. -/
theorem object_bindRec (hsrc : s.mounts.Has src) {l' : Place FileName}
    (hcopy : MountTable.CopyOf s.mounts src l' l) :
    (s.bindRec src (s.mounts.top src)).object l' = s.object l := by
  show ((s.mounts.clone src (s.mounts.top src)).mount l'.1).map _ = (s.mounts.mount l.1).map _
  obtain ⟨⟨m, hm, hpre⟩, rfl | ⟨hw, rfl⟩⟩ := hcopy
  · -- An old place is where it was
    rw [MountTable.extends_clone.mount (s.mounts.older hm).1]
  · have hdst := MountTable.has_top hsrc
    rw [hm]
    -- The mount that was copied first, and the mounts below it
    by_cases heq : l.1 = src.1
    · have hm' := hm
      rw [heq] at hm'
      show ((s.mounts.clone _ _).mount (s.mounts.size + l.1)).map _ = _
      rw [heq, MountTable.clone_mount_src hm' hdst]
      rfl
    · show ((s.mounts.clone _ _).mount (s.mounts.size + l.1)).map _ = _
      rw [MountTable.clone_mount_copy hm heq hw.1]
      rfl

/-- A recursive copy of a place over itself cannot be told from outside. -/
theorem bindRec_looksLike (h : s.InTree) (hsrc : s.Leads target src) :
    s.LooksLike (s.bindRec src (s.mounts.top src)) where
  node := rfl
  finds follow path :=
    (resolve_bindRec (h.leads hsrc).1 (h.root_eq hsrc) follow path).map_eq
      fun _ _ => object_bindRec (h.leads hsrc).1

/-! ## Sealed places -/

/-- Every mount that shows the place, or is mounted within it, is read-only. -/
def Sealed (s : Vfs) (l : Place FileName) : Prop :=
  ∀ n m, s.mounts.mount n = some m → s.mounts.under l n → s.readOnly n = true

/-- What the path leads to, if it leads anywhere, is sealed. -/
def SealedAt (s : Vfs) (path : String) : Prop := ∀ l, s.Leads path l → s.Sealed l

/-- The copies are read-only, and so is all that was. -/
structure Seals (s s' : Vfs) (src : Place FileName) : Prop where
  mounts : s'.mounts = s.mounts.clone src (s.mounts.top src)
  old : ∀ {n}, n < s.mounts.size → s.readOnly n = true → s'.readOnly n = true
  new : ∀ {n m}, s.mounts.size ≤ n → s'.mounts.mount n = some m → s'.readOnly n = true

/-- What was sealed is sealed, and so is its copy. -/
theorem Seals.sealed (hs : Seals s s' src) {l' : Place FileName} (hl : s.Sealed l)
    (hcopy : MountTable.CopyOf s.mounts src l' l) : s'.Sealed l' := by
  intro n m hm hu
  by_cases hn : s.mounts.size ≤ n
  · exact hs.new hn hm
  · have hlt : n < s.mounts.size := by omega
    rw [hs.mounts, MountTable.extends_clone.mount hlt] at hm
    rw [hs.mounts, MountTable.extends_clone.under hlt] at hu
    obtain ⟨-, rfl | ⟨-, rfl⟩⟩ := hcopy
    · exact hs.old hlt (hl n m hm hu)
    · -- the mounts within the copy are copies
      have hle : s.mounts.size + l.1 ≤ n := MountTable.le_of_under hu
      omega

/-- A change of attributes changes flags only. -/
theorem mountSetattr_eq {dir : DirFd} {flags : CInt} {attr : MountAttr}
    (hm : s.mountSetattr dir path flags attr = some s') : s' = { s with readOnly := s'.readOnly } := by
  unfold mountSetattr at hm
  split at hm
  · split at hm
    · cases hm
      rfl
    · cases hm
  · cases hm

/-- A path bound onto itself and made read-only, with all that is below it. -/
theorem seals_of_mount (h : s.InTree) {fstype data : Option String} {flags : U64}
    (hbound : s.mount (some target) target fstype flags data = some s')
    (hbind : flags &&& MS_BIND ≠ 0) (hrec : flags &&& MS_REC ≠ 0)
    (hset : s'.mountSetattr .cwd target AT_RECURSIVE
      { attrSet := MOUNT_ATTR_RDONLY, attrClr := 0 } = some s'') :
    ∃ src, Seals s s'' src ∧ s.LooksLike s'' ∧ s''.SealedAt target ∧
      ∀ path l', s''.Leads path l' → ∃ l, s.Leads path l ∧ MountTable.CopyOf s.mounts src l' l := by
  obtain ⟨src, y, hsrc, hy, rfl⟩ := mount_bindRec hbound hbind hrec
  obtain rfl := hsrc.unique hy
  have hhas := (h.leads hsrc).1
  have heq := mountSetattr_eq hset
  have hflags := fun n => (mountSetattr_readOnly hset rfl n).2
  -- the path leads now to the place or to its copy, and both have the copies within them
  obtain ⟨k, hk⟩ := hsrc
  obtain ⟨dst, hdst, hcopy⟩ : ∃ dst, (s.bindRec src (s.mounts.top src)).resolve true target =
      .at dst k ∧ MountTable.CopyOf s.mounts src dst src := by
    have hrel := resolve_bindRec hhas (h.root_eq ⟨k, hk⟩) true target
    rw [hk] at hrel
    exact hrel.exists_at_right
  have hreach : ∀ n, (s.bindRec src (s.mounts.top src)).reaches .cwd target AT_RECURSIVE n =
      (s.mounts.clone src (s.mounts.top src)).under dst n := by
    intro n
    unfold reaches attrPlace
    rw [hdst]
    rfl
  have hset : ∀ n, (s.mounts.clone src (s.mounts.top src)).under dst n = true →
      s''.readOnly n = true := by
    intro n hu
    rw [hflags n, hreach n, hu]
    simp [MOUNT_ATTR_RDONLY]
  -- The old flags stay, and every copy gets the flag
  refine ⟨src, ⟨?_, fun {n} hn hro => ?_, fun {n m} hn hm => ?_⟩, ?_, ?_, fun path l' hl' => ?_⟩
  · rw [heq]
    rfl
  · have hold : (s.bindRec src (s.mounts.top src)).readOnly n = true := (if_pos hn).trans hro
    rw [hflags n, hold, Bool.true_or]
  · rw [heq] at hm
    obtain ⟨i, rfl⟩ := Nat.exists_eq_add_of_le hn
    have hnew := MountTable.within_copy_of_clone (MountTable.has_top hhas) hm
    apply hset
    -- Seen from the place itself, or from its copy
    obtain ⟨-, rfl | ⟨-, rfl⟩⟩ := hcopy
    · exact ((MountTable.within_src_of_clone hhas rfl).trans hnew).1
    · exact hnew.1
  · have hlooks := bindRec_looksLike h ⟨k, hk⟩
    rw [heq]
    exact ⟨hlooks.node, hlooks.finds⟩
  · rintro x ⟨j, hx⟩ n m hm hu
    rw [heq] at hx hu
    change (s.bindRec src (s.mounts.top src)).resolve true target = .at x j at hx
    rw [hdst] at hx
    cases hx
    exact hset n hu
  · rw [heq] at hl'
    exact leads_bindRec hhas (h.root_eq ⟨k, hk⟩) hl'

/-- What making a path read-only leaves. -/
structure Remade (s s' : Vfs) (target : String) : Prop where
  inTree : s'.InTree
  looksLike : s.LooksLike s'
  sealed : s'.SealedAt target
  keeps : ∀ path, s.SealedAt path → s'.SealedAt path

/-- The bind and the change of attributes after it make the target read-only. -/
theorem remade_of_mount (h : s.InTree) {fstype data : Option String} {flags : U64}
    (hbound : s.mount (some target) target fstype flags data = some s')
    (hbind : flags &&& MS_BIND ≠ 0) (hrec : flags &&& MS_REC ≠ 0)
    (hset : s'.mountSetattr .cwd target AT_RECURSIVE
      { attrSet := MOUNT_ATTR_RDONLY, attrClr := 0 } = some s'') : s.Remade s'' target := by
  obtain ⟨src, hseals, hlooks, hsealed, hleads⟩ := seals_of_mount h hbound hbind hrec hset
  obtain ⟨x, y, -, -, heq⟩ := mount_bindRec hbound hbind hrec
  -- The tree has grown, by copies that look like what they copy
  refine ⟨h.of_extends ?_ ?_ ?_, hlooks, hsealed, fun path hpath l' hl' => ?_⟩
  · rw [hseals.mounts]
    exact MountTable.extends_clone
  · rw [mountSetattr_eq hset, heq]
    rfl
  · rw [mountSetattr_eq hset, heq]
    rfl
  · -- What was sealed before is sealed, and so are its copies
    obtain ⟨l, hl, hcopy⟩ := hleads path l' hl'
    exact hseals.sealed (hpath l hl) hcopy

/-- A path that leads somewhere is not missing. -/
theorem not_leads_of_isMissing (hmissing : s.isMissing target = true) : ¬ s.Leads target l := by
  rintro ⟨k, hk⟩
  obtain ⟨hne, hnul, hwalk⟩ := resolve_eq_at.1 hk
  have hresolve : s.resolve false target =
      (s.space s.root).walk false MAXSYMLINKS (s.start target) (steps target) :=
    if_neg fun hor => hor.elim hne hnul
  unfold isMissing at hmissing
  rw [if_neg hnul] at hmissing
  -- a link that dangles is not missing
  have hsame : (s.space s.root).walk true MAXSYMLINKS (s.start target) (steps target) =
      (s.space s.root).walk false MAXSYMLINKS (s.start target) (steps target) := by
    apply PathSpace.walk_follow_eq
    intro m j hm
    rw [hresolve, hm] at hmissing
    cases hmissing
  rw [hresolve, ← hsame, hwalk] at hmissing
  cases hmissing

/-- Nothing is done for a path at which there is nothing. -/
theorem remade_of_isMissing (h : s.InTree) (hmissing : s.isMissing target = true) :
    s.Remade s target :=
  ⟨h, .refl s, fun _ hl => absurd hl (not_leads_of_isMissing hmissing), fun _ hpath => hpath⟩

end Vfs

/-! ## The loop -/

/-- The two calls that make a path read-only. -/
def readonlyEvents (target : String) (fstype data : Option String) : List Event :=
  [⟨.mount (some target) target fstype (MS_SILENT ||| MS_BIND ||| MS_REC) data, Except.ok ()⟩,
    ⟨.mountSetattr .cwd target AT_RECURSIVE { attrSet := MOUNT_ATTR_RDONLY, attrClr := 0 },
      Except.ok ()⟩]

/-- The calls of a turn: the bind, and the attributes of the copy. -/
theorem readonlySpec_runs {target : String} {h : List Event}
    (hr : (readonlySpec target).mount.Runs h (.ok ())) :
    ∃ fstype data, h = readonlyEvents target fstype data := by
  obtain ⟨hnul, making, data, hmaking, -, rfl⟩ := MountSpec.mount_runs hr
  -- No mount point is made
  obtain ⟨rfl, -⟩ := runs_pure.1 hmaking
  refine ⟨(readonlySpec target).fstypeArg, data, ?_⟩
  have hsource : (readonlySpec target).sourceArg = some target :=
    MountSpec.sourceArg_of_not_nul rfl hnul
  have hattrs : (readonlySpec target).attrEvents =
      [⟨.mountSetattr .cwd target AT_RECURSIVE { attrSet := MOUNT_ATTR_RDONLY, attrClr := 0 },
        Except.ok ()⟩] := by
    simp [MountSpec.attrEvents, MountSpec.attrSet, readonlySpec, MOUNT_ATTR_RDONLY]
  have hflags : (readonlySpec target).mountFlags = MS_SILENT ||| MS_BIND ||| MS_REC := by
    simp [MountSpec.mountFlags, readonlySpec]
  rw [hsource, hattrs, hflags]
  rfl

/-- What the two calls come to. -/
theorem after_readonlyEvents {s : Vfs} {target : String} {fstype data : Option String}
    (hl : vfsRules.Lawful s (readonlyEvents target fstype data)) :
    ∃ s' s'', s.mount (some target) target fstype (MS_SILENT ||| MS_BIND ||| MS_REC) data = some s' ∧
      s'.mountSetattr .cwd target AT_RECURSIVE { attrSet := MOUNT_ATTR_RDONLY, attrClr := 0 } =
        some s'' ∧ vfsRules.after s (readonlyEvents target fstype data) = s'' := by
  -- Both calls are allowed, so both have a state to go to
  obtain ⟨hbound, hl'⟩ := lawful_cons.1 hl
  obtain ⟨s', hs'⟩ := Option.isSome_iff_exists.1 hbound
  have hnext : vfsRules.next s (.mount (some target) target fstype
      (MS_SILENT ||| MS_BIND ||| MS_REC) data) (.ok ()) = s' := Vfs.next_of_mount hs'
  have hset : s'.allows (.mountSetattr .cwd target AT_RECURSIVE
      { attrSet := MOUNT_ATTR_RDONLY, attrClr := 0 }) (.ok ()) := hnext ▸ (lawful_cons.1 hl').1
  obtain ⟨s'', hs''⟩ := Option.isSome_iff_exists.1 hset
  refine ⟨s', s'', hs', hs'', ?_⟩
  rw [readonlyEvents, after_cons]
  dsimp only
  rw [hnext, after_cons]
  exact Vfs.next_of_mountSetattr hs''

/-- A turn of the loop that succeeds makes its path read-only. -/
theorem remade_of_lawful {s : Vfs} (h : s.InTree) {target : String} {fstype data : Option String}
    (hl : vfsRules.Lawful s (readonlyEvents target fstype data)) :
    s.Remade (vfsRules.after s (readonlyEvents target fstype data)) target := by
  obtain ⟨s', s'', hs', hs'', hafter⟩ := after_readonlyEvents hl
  rw [hafter]
  exact Vfs.remade_of_mount h hs' (by decide) (by decide) hs''

/-- One turn of the loop. -/
theorem makeReadonly_remade {s : Vfs} (h : s.InTree) (rootfs path : String) :
    vfsRules.Ends s (makeReadonly rootfs path)
      (fun _ s' => s.Remade s' (joinRootfs rootfs path)) fun _ => True := by
  unfold makeReadonly
  refine .bind (.sys (I := calls) fun a ha => ?_)
  cases a with
  | error e =>
    dsimp only
    split
    · -- Nothing is done where nothing is
      next heq => exact .pure (Vfs.remade_of_isMissing h (ha heq))
    · exact .fail trivial
  | ok m =>
    intro h₁ r hl hr
    cases r with
    | ok u =>
      obtain ⟨fstype, data, rfl⟩ := readonlySpec_runs hr
      exact remade_of_lawful h hl
    | err e => trivial
    | halt n => trivial

/-- The last loop of `pivot_fs`. -/
def readonlyLoop (rootfs : String) (paths : List String) : Sys Unit :=
  forM paths fun path =>
    (makeReadonly rootfs path).mapErr (Err.context ("failed to make " ++ path ++ " read-only"))

/-- `finish_root`, with its second loop by name. -/
theorem CreateRequest.finishRoot_eq (req : CreateRequest) (rootfs : String) :
    req.finishRoot rootfs = (do
      forM (req.mutations.getD []) (mutate rootfs)
      forM (req.maskedPaths.getD []) fun path =>
        (maskPath rootfs path).mapErr (Err.context ("failed to mask " ++ path))
      readonlyLoop rootfs (req.readonlyPaths.getD [])
      (newroot rootfs).pivot.mapErr (Err.context "failed to pivot to new rootfs")) := rfl

/-- What some turns of the loop have made of the state `s`. -/
structure Vfs.LoopInv (s : Vfs) (rootfs : String) (done : List String) (s' : Vfs) : Prop where
  inTree : s'.InTree
  looksLike : s.LooksLike s'
  sealed : ∀ path ∈ done, s'.SealedAt (joinRootfs rootfs path)

/-- Each turn keeps what the turns before it have sealed. -/
theorem readonlyLoop_inv {s : Vfs} (h : s.InTree) (rootfs : String) (paths : List String) :
    vfsRules.Ends s (readonlyLoop rootfs paths) (fun _ => s.LoopInv rootfs paths)
      fun _ => True := by
  apply Ends.forM (J := s.LoopInv rootfs)
  · intro done path rest t heq hinv
    apply Ends.mapErr
    refine (makeReadonly_remade hinv.inTree rootfs path).mono (fun _ t' hr => ?_) fun _ _ => trivial
    refine ⟨hr.inTree, hinv.looksLike.trans hr.looksLike, fun p hp => ?_⟩
    rcases List.mem_append.1 hp with hdone | hlast
    · exact hr.keeps _ (hinv.sealed p hdone)
    · rw [List.mem_singleton.1 hlast]
      exact hr.sealed
  · exact ⟨h, .refl s, fun path hpath => by cases hpath⟩

/-- What the path leads to is on a read-only mount, and so is what a path finds that stays beneath
    it. -/
def Vfs.ReadOnlyAt (s : Vfs) (target : String) : Prop :=
  ∀ l, s.Leads target l → s.readOnly l.1 = true ∧
    ∀ rest follow, s.StaysBeneath s target rest l →
      (s.resolve follow (target ++ "/" ++ rest)).Within fun x => s.readOnly x.1 = true

/-- What is sealed at a path is read-only there. -/
theorem Vfs.SealedAt.readOnlyAt {s : Vfs} {target : String} (h : s.InTree)
    (hsealed : s.SealedAt target) : s.ReadOnlyAt target := by
  intro l hl
  have hro : ∀ x, s.mounts.Has x → s.mounts.Within l x → s.readOnly x.1 = true := by
    rintro x ⟨m, hm, -⟩ hw
    exact hsealed l hl x.1 m hm hw.1
  refine ⟨hro l (h.leads hl).1 (MountTable.within_self l), fun rest follow hb => ?_⟩
  exact (Vfs.resolve_within follow (h.root_eq hl) hb).mono fun x hx => hro x hx.1 hx.2

/-- The loop leaves every path leading to what it led to, and makes the paths of the list
    read-only. -/
theorem readonlyLoop_correct {s : Vfs} {rootfs : String} {paths : List String} {h : List Event}
    (htree : s.InTree) (hl : vfsRules.Lawful s h)
    (hr : (readonlyLoop rootfs paths).Runs h (.ok ())) :
    s.LooksLike (vfsRules.after s h) ∧
      ∀ path ∈ paths, (vfsRules.after s h).ReadOnlyAt (joinRootfs rootfs path) := by
  obtain ⟨hinTree, hlooks, hsealed⟩ := readonlyLoop_inv htree rootfs paths h _ hl hr
  exact ⟨hlooks, fun path hpath => (hsealed path hpath).readOnlyAt hinTree⟩

/-- A run in which a directory is made read-only twice, with the root around it in between. -/
def readonlyRun : List Event :=
  ⟨.fsSymlinkMetadata "/srv/data", Except.ok ⟨true⟩⟩ :: readonlyEvents "/srv/data" none none ++
    ⟨.fsSymlinkMetadata "/srv/", Except.ok ⟨true⟩⟩ :: readonlyEvents "/srv/" none none ++
    ⟨.fsSymlinkMetadata "/srv/missing", Except.error Errno.ENOENT⟩ ::
    ⟨.fsSymlinkMetadata "/srv/data", Except.ok ⟨true⟩⟩ :: readonlyEvents "/srv/data" none none

/-- A run with a directory, the root, a missing path and one that comes twice. -/
theorem readonlyRun_correct : (CreateRequest.hostWithVolume false).LooksLike
      (vfsRules.after (CreateRequest.hostWithVolume false) readonlyRun) ∧
    ∀ path ∈ ["/data", "/", "/missing", "/data"],
      (vfsRules.after (CreateRequest.hostWithVolume false) readonlyRun).ReadOnlyAt
        (joinRootfs "/srv" path) := by
  apply readonlyLoop_correct
  · exact MountTable.within_self _
  · simp only [readonlyRun, readonlyEvents, List.cons_append, List.nil_append, lawful_cons]
    -- The kernel's answers, one by one
    refine ⟨?_, ?_, ?_, ?_, ?_, ?_, fun _ => ?_, ?_, ?_, ?_, lawful_nil _ _⟩
    · show Vfs.stat _ false "/srv/data" = some ⟨true⟩
      decide +kernel
    · show Option.isSome _ = true
      decide +kernel
    · show Option.isSome _ = true
      decide +kernel
    · show Vfs.stat _ false "/srv/" = some ⟨true⟩
      decide +kernel
    · show Option.isSome _ = true
      decide +kernel
    · show Option.isSome _ = true
      decide +kernel
    · decide +kernel
    · show Vfs.stat _ false "/srv/data" = some ⟨true⟩
      decide +kernel
    · show Option.isSome _ = true
      decide +kernel
    · show Option.isSome _ = true
      decide +kernel
  · -- The events are those of the loop, in order
    exact .call (.call (.call (.call (.call (.call (.call (.call (.call (.call (.refl _))))))))))

end Styrolite
