import Styrolite.Spec.JoinRootfsCorrect
import Styrolite.Spec.ReadOnlyPathsCorrect

/-!
# The masked paths

`mask_path` looks a path of the container up under the path of the new root, as the
host sees it, and mounts over what it finds. The container looks the path up from its
own root directory. So an absolute link, or a `..` out of the root, has the host mask
one place and leaves the container another.

## Key results

- `CreateRequest.PivotRun.masked_inaccessible`: the masked paths are inaccessible in the
  container, if each turn of the loop masks what the container would find
- `Vfs.maskHits_of_beneath`: so does the turn of a path that stays beneath the new root
-/

namespace Styrolite

open Prog LocalRules

namespace Vfs

variable {s s' : Vfs} {d l x dst src : Place FileName} {fs : Nat} {root : List FileName}
  {rootfs path target p : String}

/-! ## Paths under the new root -/

/-- A joined path starts where the rootfs does. -/
theorem isAbsolute_joinRootfs (hne : rootfs ≠ "") (p : String) :
    IsAbsolute (joinRootfs rootfs p) ↔ IsAbsolute rootfs := by
  obtain ⟨n, hn⟩ := Fields.exists_append_replicate '/' rootfs.toList
  rw [IsAbsolute, IsAbsolute, toList_joinRootfs, Fields.join]
  cases hfront : rootfs.toList.rdropWhile (· == '/') with
  -- The rootfs is nothing but slashes
  | nil =>
    rw [hfront, List.nil_append] at hn
    cases n with
    | zero => exact absurd (String.toList_inj.1 hn) hne
    | succ n =>
      rw [hn]
      exact iff_of_true rfl rfl
  | cons c cs =>
    rw [hfront] at hn
    rw [hn]
    rfl

/-- A joined path is walked from where the rootfs is. -/
theorem start_joinRootfs (hroot : s.Leads rootfs d) (p : String) :
    s.start (joinRootfs rootfs p) = s.start rootfs := by
  obtain ⟨k, hk⟩ := hroot
  exact start_eq (isAbsolute_joinRootfs (resolve_eq_at.1 hk).1 p)

/-- Slashes at the end of a path are steps that stay. -/
theorem steps_append_slashes (path : String) (n : Nat) :
    steps (path ++ slashes n) = steps path ++ List.replicate n .stay := by
  induction n generalizing path with
  | zero =>
    have hnone : slashes 0 = "" := rfl
    rw [hnone, String.append_empty, List.replicate_zero, List.append_nil]
  | succ n ih =>
    have hone : path ++ slashes (n + 1) = path ++ "/" ++ slashes n := by
      apply String.toList_inj.1
      simp [slashes, List.replicate_succ]
    have hslash := steps_append_slash path ""
    rw [String.append_empty] at hslash
    rw [hone, ih, hslash, List.append_assoc]
    rfl

/-- Slashes at the beginning of a path are steps that stay. -/
theorem steps_slashes_append (n : Nat) (path : String) :
    steps (slashes n ++ path) = List.replicate n .stay ++ steps path := by
  induction n with
  | zero =>
    have hnone : slashes 0 = "" := rfl
    rw [hnone, String.empty_append, List.replicate_zero, List.nil_append]
  | succ n ih =>
    have hone : slashes (n + 1) ++ path = "" ++ "/" ++ (slashes n ++ path) := by
      apply String.toList_inj.1
      simp [slashes, List.replicate_succ]
    rw [hone, steps_append_slash, ih]
    rfl

/-- What a path leads to from the new root, it leads to under its path. -/
theorem leads_joinRootfs {k j : Nat} (hroot : s.resolve true rootfs = .at d k) (hnul : ¬ HasNul p)
    (hwalk : (s.space s.root).walk true k d (steps p) = .at x j) :
    s.Leads (joinRootfs rootfs p) x := by
  have hstart : s.start (joinRootfs rootfs p) = s.start rootfs := start_joinRootfs ⟨k, hroot⟩ p
  obtain ⟨-, hnulRoot, hwalkRoot⟩ := resolve_eq_at.1 hroot
  obtain ⟨front, back, hjoin, ⟨m, rfl⟩, -, ⟨n, rfl⟩, -⟩ := joinRootfs_oneSlash rootfs p
  rw [steps_append_slashes] at hwalkRoot
  obtain ⟨l, i, hfront, hstays⟩ := PathSpace.walk_append_at.1 hwalkRoot
  rw [← List.append_nil (List.replicate m _)] at hstays
  cases PathSpace.walk_nil.symm.trans (PathSpace.walk_stays hstays)
  rw [steps_slashes_append] at hwalk
  rw [hjoin] at hstart ⊢
  -- The joined path is neither empty nor has it a NUL byte
  refine ⟨j, resolve_eq_at.2 ⟨?_, ?_, ?_⟩⟩
  · intro hempty
    have hlist := congrArg String.toList hempty
    simp at hlist
  · exact not_hasNul_append.2 ⟨not_hasNul_append.2 ⟨(not_hasNul_append.1 hnulRoot).1, by decide⟩,
      (not_hasNul_append.1 hnul).2⟩
  · rw [hstart, steps_append_slash]
    exact PathSpace.walk_append_at.2 ⟨d, k, hfront, PathSpace.walk_stays hwalk⟩

/-! ## Masked paths -/

/-- There is the null device, or an empty directory. -/
def Blank (s : Vfs) (l : Place FileName) : Prop :=
  s.nodeAt l = some .nullDevice ∨
    s.nodeAt l = some .dir ∧ ∀ a, s.nodeAt (l.1, l.2 ++ [a]) = none

/-- A process whose root directory is where `rootfs` leads finds nothing at the path `p`. -/
def Inaccessible (s : Vfs) (rootfs p : String) : Prop :=
  ∀ d x, s.Leads rootfs d → s.LeadsIn d ("/" ++ p) x → s.Blank x

/-- What the container would find at the path `p` is blank, or `join_rootfs` leads to it and a
    mount covers it. `/dev/null` is the null device, if that is what is mounted. -/
structure MaskHits (s : Vfs) (rootfs p : String) : Prop where
  device : s.stat false (joinRootfs rootfs p) = some ⟨false⟩ →
    ∀ z, s.Leads "/dev/null" z → s.nodeAt z = some .nullDevice
  hits : ∀ d x, s.Leads rootfs d → s.LeadsIn d ("/" ++ p) x →
    s.Blank x ∨ s.Leads (joinRootfs rootfs p) x ∧ x ≠ s.root ∧ x ≠ s.start rootfs

/-- The mask is where it should be for a path that takes no `..` out of the new root, follows no
    absolute link and not too many others, if the process is not in the new root itself. -/
theorem maskHits_of_beneath (hb : s.StaysBeneath s rootfs p d)
    (hloop : s.resolve true (rootfs ++ "/" ++ p) ≠ .loop) (hroot : ¬ s.mounts.Within d s.root)
    (hstart : ¬ s.mounts.Within d (s.start rootfs))
    (hdevice : ∀ z, s.Leads "/dev/null" z → s.nodeAt z = some .nullDevice) :
    s.MaskHits rootfs p where
  device _ := hdevice
  hits d' x hd' hx := by
    have hhas := hb.has
    obtain ⟨k, hd, hbeneath⟩ := hb
    obtain rfl := hd'.unique ⟨k, hd⟩
    obtain ⟨hnul, j, hwalk⟩ := hx
    have hnulp : ¬ HasNul p := (not_hasNul_append.1 hnul).2
    have hone : steps ("/" ++ p) = List.replicate 1 .stay ++ steps p := steps_slashes_append 1 p
    rw [hone] at hwalk
    have hcontainer := PathSpace.walk_stays hwalk
    rw [resolve_join hd hnulp] at hloop
    -- the container does not leave its root directory, and the host goes the same way
    have hjail := jail (fun hw => absurd hw hroot) hhas
    have hsame : (s.space d').walk true k d' (steps p) =
        (s.space s.root).walk true k d' (steps p) :=
      hjail.walk_eq_of_beneath ⟨hhas, MountTable.within_self d'⟩ hbeneath
    rw [← hsame] at hloop
    have hle : k ≤ MAXSYMLINKS := PathSpace.links_le (resolve_eq_at.1 hd).2.2
    -- The host follows the same links, and has not run out of them
    obtain ⟨i, hi⟩ := PathSpace.walk_at_of_le hle hcontainer hloop
    have hin : ((s.space d').walk true k d' (steps p)).Within
        fun y => s.mounts.Has y ∧ s.mounts.Within d' y :=
      hjail.walk_within ⟨hhas, MountTable.within_self d'⟩
    rw [hi] at hin
    refine .inr ⟨leads_joinRootfs hd hnulp (hsame ▸ hi), ?_, ?_⟩
    · -- The place is within the new root, so it is neither the host's root nor where relative
      -- paths start
      rintro rfl
      exact hroot hin.2
    · rintro rfl
      exact hstart hin.2

/-! ## One more mount -/

/-- The directory `root` of the file system `fs`, with nothing in it, or the null device is mounted
    at `dst`. -/
structure Hides (s s' : Vfs) (fs : Nat) (root : List FileName) (dst : Place FileName) : Prop where
  mounts : s'.mounts = s.mounts.attach fs root dst
  covers : MountTable.Covers s.mounts s.files s'.files fs root dst
  node : ∀ n m, s.mounts.mount n = some m → s'.node m.fs = s.node m.fs
  root_eq : s'.root = s.root
  cwd_eq : s'.cwd = s.cwd
  blank : s'.Blank (s.mounts.size, root)

namespace Hides

/-- A mount on `dst` changes no node of the tree before it. -/
theorem nodeAt (h : s.Hides s' fs root dst) (hl : s.mounts.Has l) : s'.nodeAt l = s.nodeAt l := by
  obtain ⟨m, hm, -⟩ := hl
  rw [Vfs.nodeAt, Vfs.nodeAt, h.mounts, MountTable.extends_attach.mount (s.mounts.older hm).1, hm,
    Option.bind_some, Option.bind_some, h.node _ _ hm]

/-- What was blank is blank under it. -/
theorem blank_old (h : s.Hides s' fs root dst) (hl : s.mounts.Has l) (hblank : s.Blank l) :
    s'.Blank l := by
  refine hblank.imp (fun hnull => ?_) fun hdir => ⟨?_, fun a => ?_⟩
  · rw [h.nodeAt hl, hnull]
  · rw [h.nodeAt hl, hdir.1]
  · rw [h.nodeAt (hl.child a), hdir.2 a]

/-- Paths start where they started before the mount. -/
theorem start (h : s.Hides s' fs root dst) (path : String) : s'.start path = s.start path := by
  rw [Vfs.start, Vfs.start, h.root_eq, h.cwd_eq]

/-- Walks go the same ways as before, but for those that come to `dst`. -/
theorem sim_root (h : s.Hides s' fs root dst) {r : Place FileName} (hr : s.mounts.Has r) :
    PathSpace.Sim (s'.space r) (s.space r)
      (MountTable.CoverOf s.mounts root dst fun _ => True) := by
  rw [space, h.mounts]
  exact h.covers.sim_root hr

/-- A path leads to what it led to, or to what covers that. -/
theorem leads (h : s.Hides s' fs root dst) {l' : Place FileName} (hl' : s'.Leads path l') :
    ∃ l, s.Leads path l ∧ MountTable.CoverOf s.mounts root dst (fun _ => True) l' l := by
  obtain ⟨k, hk⟩ := hl'
  obtain ⟨hne, hnul, hwalk⟩ := resolve_eq_at.1 hk
  rw [h.root_eq, h.start] at hwalk
  obtain ⟨l, hl, hcover⟩ := (h.sim_root s.has_root).walk
    ⟨s.has_start path, .inl ⟨rfl, trivial⟩⟩ hwalk
  exact ⟨l, ⟨k, resolve_eq_at.2 ⟨hne, hnul, hl⟩⟩, hcover⟩

/-- So does a path of the container, whose root directory may be covered. -/
theorem leadsIn (h : s.Hides s' fs root dst) {d' x' : Place FileName}
    (hd : MountTable.CoverOf s.mounts root dst (fun _ => True) d' d) (hx' : s'.LeadsIn d' path x') :
    ∃ x, s.LeadsIn d path x ∧ MountTable.CoverOf s.mounts root dst (fun _ => True) x' x := by
  obtain ⟨hnul, k, hwalk⟩ := hx'
  obtain ⟨hhas, ⟨rfl, -⟩ | ⟨rfl, rfl⟩⟩ := hd
  · obtain ⟨x, hx, hcover⟩ := (h.sim_root hhas).walk ⟨hhas, .inl ⟨rfl, trivial⟩⟩ hwalk
    exact ⟨x, ⟨hnul, k, hx⟩, hcover⟩
  · rw [space, h.mounts] at hwalk
    obtain ⟨x, hx, hhasx, hcase⟩ := h.covers.sim_cover.walk ⟨hhas, .inr ⟨rfl, rfl⟩⟩ hwalk
    exact ⟨x, ⟨hnul, k, hx⟩, hhasx, hcase.imp_left fun heq => ⟨heq.1, trivial⟩⟩

/-- What was masked is so still. -/
theorem inaccessible (h : s.Hides s' fs root dst) (hp : s.Inaccessible rootfs p) :
    s'.Inaccessible rootfs p := by
  intro d' x' hd' hx'
  obtain ⟨d, hd, hcover⟩ := h.leads hd'
  obtain ⟨x, hx, hhas, ⟨rfl, -⟩ | ⟨-, rfl⟩⟩ := h.leadsIn hcover hx'
  · exact h.blank_old hhas (hp d x' hd hx)
  · exact h.blank

/-- The container does not come to what is covered, unless it starts there. -/
theorem ne_of_leadsIn (h : s.Hides s' fs root dst) {d' x' : Place FileName}
    (hd' : s'.Leads rootfs d') (hx' : s'.LeadsIn d' path x') (hroot : dst ≠ s.root)
    (hstart : dst ≠ s.start rootfs) : x' ≠ dst := by
  -- There is a mount on `dst` now
  have hcovered : ¬ s'.mounts.Uncovered dst := by
    rw [h.mounts]
    exact fun hun => hun _ _ (MountTable.attach_mount_new h.covers.has) rfl
  have hd := hd'.place
  rw [h.root_eq, h.start] at hd
  have hne : d' ≠ dst := by
    rintro rfl
    exact hd.2.elim hroot fun hor => hor.elim hstart hcovered
  -- The root directory is not `dst`, so it is not where a walk ends by staying
  obtain ⟨-, k, hwalk⟩ := hx'
  have hin : ((s'.space d').walk true MAXSYMLINKS d' (steps path)).Within fun x =>
      s'.mounts.Has x ∧ (x = d' ∨ x = d' ∨ s'.mounts.Uncovered x) :=
    MountTable.walk_uncovered hd.1 hd.1
  rw [hwalk] at hin
  rintro rfl
  exact hin.2.elim (fun heq => hne heq.symm) fun hor => hor.elim (fun heq => hne heq.symm) hcovered

/-- What is covered is masked. -/
theorem inaccessible_of_hits (h : s.Hides s' fs root dst)
    (hhits : ∀ d x, s.Leads rootfs d → s.LeadsIn d ("/" ++ p) x →
      s.Blank x ∨ x = dst ∧ x ≠ s.root ∧ x ≠ s.start rootfs) : s'.Inaccessible rootfs p := by
  intro d' x' hd' hx'
  obtain ⟨d, hd, hcover⟩ := h.leads hd'
  obtain ⟨x, hx, hhas, ⟨rfl, -⟩ | ⟨-, rfl⟩⟩ := h.leadsIn hcover hx'
  · rcases hhits d x' hd hx with hblank | ⟨rfl, hroot, hstart⟩
    · exact h.blank_old hhas hblank
    · exact absurd rfl (h.ne_of_leadsIn hd' hx' hroot hstart)
  · exact h.blank

end Hides

/-! ## Masking one path -/

/-- An empty directory of its own. -/
theorem hides_tmpfs (source : Option String) (hhas : s.mounts.Has dst)
    (huncovered : s.mounts.Uncovered dst) (hdir : s.isDir dst) :
    s.Hides (s.mountNew (some "tmpfs") source dst) s.fsCount [] dst := by
  have heq : s.mountNew (some "tmpfs") source dst = s.addTmpfs.attach s.fsCount [] dst false :=
    if_pos rfl
  have hlt : s.fsCount < s.addTmpfs.fsCount := Nat.lt_succ_self s.fsCount
  have hentry : s.mounts.entry s.files dst = some .dir := of_decide_eq_true hdir
  rw [heq, attach, dif_pos hlt]
  -- The file systems that are mounted stay, and the new one has nothing but its root
  have hsame : ∀ n m, s.mounts.mount n = some m → s.addTmpfs.node m.fs = s.node m.fs := by
    intro n m hm
    funext q
    exact if_neg (Nat.ne_of_lt (s.fs_lt hm))
  have hroot : s.addTmpfs.node s.fsCount [] = some .dir := (if_pos rfl).trans (if_pos rfl)
  have hempty : ∀ a, s.addTmpfs.node s.fsCount ([] ++ [a]) = none :=
    fun a => (if_pos rfl).trans (if_neg (by simp))
  refine ⟨rfl, ⟨hhas, huncovered, fun n m hm => ?_, .inr ⟨?_, fun a => ?_⟩, fun _ => hentry,
    fun target hlink => ?_⟩, hsame, rfl, rfl, .inr ⟨?_, fun a => ?_⟩⟩
  · -- Old mounts show what they showed
    funext q
    show (s.addTmpfs.node m.fs q).map Node.entry = (s.node m.fs q).map Node.entry
    rw [hsame n m hm]
  · -- The new one is an empty directory
    show (s.addTmpfs.node s.fsCount []).map Node.entry = _
    rw [hroot]
    rfl
  · show (s.addTmpfs.node s.fsCount ([] ++ [a])).map Node.entry = _
    rw [hempty]
    rfl
  · -- `dst` is a directory, so it is no link
    rw [hentry] at hlink
    cases hlink
  · -- What a walk finds there is blank
    show ((s.mounts.attach s.fsCount [] dst).mount s.mounts.size).bind _ = _
    rw [MountTable.attach_mount_new hhas]
    exact hroot
  · show ((s.mounts.attach s.fsCount [] dst).mount s.mounts.size).bind _ = _
    rw [MountTable.attach_mount_new hhas]
    exact hempty a

/-- The null device. -/
theorem hides_nullDevice {z : Place FileName} (hhas : s.mounts.Has dst)
    (huncovered : s.mounts.Uncovered dst) (hz : s.nodeAt z = some .nullDevice)
    (hfits : s.fits z dst) : ∃ fs, s.Hides (s.bind z dst) fs z.2 dst := by
  obtain ⟨m, hm, hnode⟩ := Option.bind_eq_some_iff.1 hz
  have hleaf : s.files m.fs z.2 = some .leaf := by
    rw [files, hnode]
    rfl
  -- A file can only be mounted on a file, so `dst` is neither a directory nor a link
  have hentry : s.mounts.entry s.files dst = some .leaf := by
    have hsrc : s.entry z = some .leaf := by
      rw [entry, MountTable.entry, hm]
      exact hleaf
    have hboth := of_decide_eq_true hfits
    rw [hsrc] at hboth
    exact hboth.1.symm
  refine ⟨m.fs, ?_⟩
  rw [bind, hm]
  dsimp only
  rw [attach, dif_pos (s.fs_lt hm)]
  -- The device is a leaf, so it has no entries and is no link
  refine ⟨rfl, ⟨hhas, huncovered, fun _ _ _ => rfl, .inl hleaf, fun hdir => ?_,
    fun target hlink => ?_⟩, fun _ _ _ => rfl, rfl, rfl, .inl ?_⟩
  · change s.files m.fs z.2 = some .dir at hdir
    rw [hleaf] at hdir
    cases hdir
  · rw [hentry] at hlink
    cases hlink
  · show ((s.mounts.attach m.fs z.2 dst).mount s.mounts.size).bind _ = _
    rw [MountTable.attach_mount_new hhas]
    exact hnode

/-- The mount that masks a path hides what it leads to. -/
theorem hides_of_mount {m : Metadata} {data : Option String}
    (hnull : m = ⟨false⟩ → ∀ z, s.Leads "/dev/null" z → s.nodeAt z = some .nullDevice)
    (hm : s.mount (maskSpec target m).sourceArg target (maskSpec target m).fstypeArg
      (maskSpec target m).mountFlags data = some s') :
    ∃ y fs root, s.Leads target y ∧ s.Hides s' fs root (s.mounts.top y) := by
  -- The call succeeded, so the target leads somewhere, and the mount is on top of it
  unfold mount at hm
  split at hm
  · next y k hy =>
    have hhas : s.mounts.Has (s.mounts.top y) := MountTable.has_top (Leads.place ⟨k, hy⟩).1
    have hun := MountTable.uncovered_top s.mounts y
    -- What masks the target goes by what `lstat` has found there
    cases hdir : m.isDir with
    | true =>
      have hspec : (maskSpec target m).fstypeArg = some "tmpfs" ∧
          (maskSpec target m).mountFlags = MS_SILENT := by
        rw [maskSpec, if_pos hdir]
        exact ⟨rfl, by simp [MountSpec.mountFlags]⟩
      rw [hspec.1, hspec.2, if_neg (by decide), if_neg (by decide)] at hm
      split at hm
      · next hmay =>
        cases hm
        exact ⟨y, _, _, ⟨k, hy⟩, hides_tmpfs _ hhas hun hmay.1⟩
      · cases hm
    -- A file is masked by a bind of the null device
    | false =>
      have hspec : (maskSpec target m).sourceArg = some "/dev/null" ∧
          (maskSpec target m).mountFlags = MS_SILENT ||| MS_BIND := by
        rw [maskSpec, if_neg (by simp [hdir])]
        exact ⟨MountSpec.sourceArg_of_not_nul rfl (by decide), by simp [MountSpec.mountFlags]⟩
      rw [hspec.1, hspec.2, if_pos (by decide), Option.map_some] at hm
      split at hm
      · next z j hz =>
        split at hm
        · next hfits =>
          rw [if_neg (by decide)] at hm
          cases hm
          have hfile : m = ⟨false⟩ := by rw [← hdir]
          have hz := hnull hfile z ⟨j, Option.some.inj hz⟩
          obtain ⟨fs, hhides⟩ := hides_nullDevice hhas hun hz hfits
          exact ⟨y, fs, _, ⟨k, hy⟩, hhides⟩
        · cases hm
      · cases hm
  · cases hm

/-- The mount is not undone by the change of attributes after it. -/
theorem Hides.of_flags (h : s.Hides s' fs root dst) (ro : Nat → Bool) :
    s.Hides { s' with readOnly := ro } fs root dst :=
  ⟨h.mounts, h.covers, h.node, h.root_eq, h.cwd_eq, h.blank⟩

/-- What masking a path leaves. -/
structure MaskedAt (s s' : Vfs) (rootfs p : String) : Prop where
  inaccessible : s'.Inaccessible rootfs p
  keeps : ∀ q, s.Inaccessible rootfs q → s'.Inaccessible rootfs q

/-- A path that is missing is masked by itself. -/
theorem maskedAt_of_isMissing (hhits : s.MaskHits rootfs p)
    (hmissing : s.isMissing (joinRootfs rootfs p) = true) : s.MaskedAt s rootfs p where
  inaccessible d x hd hx := (hhits.hits d x hd hx).resolve_right
    fun hlead => not_leads_of_isMissing hmissing hlead.1
  keeps _ hq := hq

/-- A mount that masks the joined path leaves nothing to be reached by it. -/
theorem maskedAt_of_mount {m : Metadata} {data : Option String} (hhits : s.MaskHits rootfs p)
    (hstat : s.stat false (joinRootfs rootfs p) = some m)
    (hm : s.mount (maskSpec (joinRootfs rootfs p) m).sourceArg (joinRootfs rootfs p)
      (maskSpec (joinRootfs rootfs p) m).fstypeArg
      (maskSpec (joinRootfs rootfs p) m).mountFlags data = some s') (ro : Nat → Bool) :
    s.MaskedAt { s' with readOnly := ro } rootfs p := by
  have hnull : m = ⟨false⟩ → ∀ z, s.Leads "/dev/null" z → s.nodeAt z = some .nullDevice :=
    fun hfile => hhits.device (hfile ▸ hstat)
  obtain ⟨y, fs, root, hy, hmount⟩ := hides_of_mount hnull hm
  have hhides := hmount.of_flags ro
  refine ⟨hhides.inaccessible_of_hits fun d x hd hx => ?_, fun q => hhides.inaccessible⟩
  rcases hhits.hits d x hd hx with hblank | ⟨hlead, hroot, hstart⟩
  · -- The container finds nothing there, masked or not
    exact .inl hblank
  · -- It leads where the host's `mount(2)` led, which is where the mask is
    obtain rfl := hlead.unique hy
    have hun : s.mounts.Uncovered x := by
      have hplace := hy.place.2
      rw [start_joinRootfs hd] at hplace
      exact (hplace.resolve_left hroot).resolve_left hstart
    exact .inr ⟨(MountTable.top_of_uncovered hun).symm, hroot, hstart⟩

end Vfs

/-- Setting the attributes of a mount changes the flags and nothing else. -/
theorem MountSpec.after_attrEvents {spec : MountSpec} {s : Vfs}
    (hl : vfsRules.Lawful s spec.attrEvents) :
    ∃ ro, vfsRules.after s spec.attrEvents = { s with readOnly := ro } := by
  unfold attrEvents at hl ⊢
  split
  · rw [if_pos (by assumption)] at hl
    obtain ⟨s', hs'⟩ := Option.isSome_iff_exists.1 (lawful_cons.1 hl).1
    refine ⟨s'.readOnly, ?_⟩
    rw [after_cons]
    exact (Vfs.next_of_mountSetattr hs').trans (Vfs.mountSetattr_eq hs')
  · exact ⟨s.readOnly, rfl⟩

/-- One turn of the loop that succeeds masks its path. -/
theorem maskedAt_of_runs {s : Vfs} {rootfs p : String} {m : Metadata} {h : List Event}
    (hhits : s.MaskHits rootfs p) (hstat : s.stat false (joinRootfs rootfs p) = some m)
    (hl : vfsRules.Lawful s h) (hr : (maskSpec (joinRootfs rootfs p) m).mount.Runs h (.ok ())) :
    s.MaskedAt (vfsRules.after s h) rootfs p := by
  obtain ⟨-, making, data, hmaking, -, rfl⟩ := MountSpec.mount_runs hr
  -- No mount point is made, so the first call is the one of `mount(2)`
  have hspec : (maskSpec (joinRootfs rootfs p) m).target = joinRootfs rootfs p ∧
      (maskSpec (joinRootfs rootfs p) m).createMountpoint = false := by
    unfold maskSpec
    split <;> exact ⟨rfl, rfl⟩
  rw [hspec.2] at hmaking
  obtain ⟨rfl, -⟩ := runs_pure.1 hmaking
  rw [hspec.1, List.nil_append] at hl ⊢
  obtain ⟨hmount, hattr⟩ := lawful_cons.1 hl
  obtain ⟨s', hs'⟩ := Option.isSome_iff_exists.1 hmount
  have hnext : vfsRules.next s (.mount (maskSpec (joinRootfs rootfs p) m).sourceArg
      (joinRootfs rootfs p) (maskSpec (joinRootfs rootfs p) m).fstypeArg
      (maskSpec (joinRootfs rootfs p) m).mountFlags data) (.ok ()) = s' :=
    Vfs.next_of_mount hs'
  dsimp only at hattr
  rw [hnext] at hattr
  -- The change of attributes after it does not undo it
  obtain ⟨ro, hro⟩ := MountSpec.after_attrEvents hattr
  rw [after_cons]
  dsimp only
  rw [hnext, hro]
  exact Vfs.maskedAt_of_mount hhits hstat hs' ro

/-- One turn of the loop. -/
theorem maskPath_maskedAt {s : Vfs} {rootfs p : String} (hhits : s.MaskHits rootfs p) :
    vfsRules.Ends s (maskPath rootfs p) (fun _ s' => s.MaskedAt s' rootfs p) fun _ => True := by
  unfold maskPath
  refine .bind (.sys (I := calls) fun a ha => ?_)
  cases a with
  | error e =>
    dsimp only
    -- There is nothing to mask, or the error ends the loop
    split
    · next heq => exact .pure (Vfs.maskedAt_of_isMissing hhits (ha heq))
    · exact .fail trivial
  | ok m =>
    intro h r hl hr
    cases r with
    | ok u => exact maskedAt_of_runs hhits ha hl hr
    | err e => trivial
    | halt n => trivial

/-! ## Making one path read-only -/

namespace Vfs

variable {s s' : Vfs} {l src : Place FileName} {rootfs path target p : String}

/-- What a place shows is the object under it. -/
theorem nodeAt_eq_object (s : Vfs) (l : Place FileName) :
    s.nodeAt l = (s.object l).bind fun o => s.node o.1 o.2 := by
  rw [nodeAt, object]
  cases s.mounts.mount l.1 <;> rfl

/-- The copy of a place holds what the place does. -/
theorem blank_bindRec (hsrc : s.mounts.Has src) {l' : Place FileName}
    (hcopy : MountTable.CopyOf s.mounts src l' l) (hblank : s.Blank l) :
    (s.bindRec src (s.mounts.top src)).Blank l' := by
  have hnode : ∀ {x' x : Place FileName}, MountTable.CopyOf s.mounts src x' x →
      (s.bindRec src (s.mounts.top src)).nodeAt x' = s.nodeAt x := by
    intro x' x hx
    rw [nodeAt_eq_object, nodeAt_eq_object, object_bindRec hsrc hx]
    rfl
  refine hblank.imp (fun hnull => ?_) fun hdir => ⟨?_, fun a => ?_⟩
  · rw [hnode hcopy, hnull]
  · rw [hnode hcopy, hdir.1]
  · rw [hnode (hcopy.child a), hdir.2 a]

/-- A recursive copy of a tree over itself uncovers nothing that was masked. -/
theorem Inaccessible.bindRec (h : s.Inaccessible rootfs p) (hsrc : s.mounts.Has src)
    (hroot : s.mounts.Within src s.root → s.root = src) :
    (s.bindRec src (s.mounts.top src)).Inaccessible rootfs p := by
  intro d' x' hd' hx'
  obtain ⟨d, hd, hcopy⟩ := leads_bindRec hsrc hroot hd'
  obtain ⟨hnul, k, hwalk⟩ := hx'
  obtain ⟨x, hx, hcopyx⟩ := MountTable.walk_clone hsrc rfl hcopy hwalk
  exact blank_bindRec hsrc hcopyx (h d x hd ⟨hnul, k, hx⟩)

end Vfs

/-- Neither does a turn of the read-only loop. -/
theorem inaccessible_of_readonlyEvents {s : Vfs} (hfirst : s.mounts.IsFirst s.root)
    {target rootfs : String} {fstype data : Option String}
    (hl : vfsRules.Lawful s (readonlyEvents target fstype data)) {p : String}
    (hp : s.Inaccessible rootfs p) :
    (vfsRules.after s (readonlyEvents target fstype data)).Inaccessible rootfs p := by
  obtain ⟨s', s'', hbound, hset, hafter⟩ := after_readonlyEvents hl
  obtain ⟨src, y, hsrc, hy, rfl⟩ := Vfs.mount_bindRec hbound (by decide) (by decide)
  obtain rfl := hsrc.unique hy
  have hhas := hsrc.place.1
  rw [hafter, Vfs.mountSetattr_eq hset]
  exact hp.bindRec hhas (hfirst.within_iff hhas).1

/-- One turn of the loop over `readonly_paths`. -/
theorem makeReadonly_inaccessible {s : Vfs} (hfirst : s.mounts.IsFirst s.root)
    (rootfs path : String) : vfsRules.Ends s (makeReadonly rootfs path)
      (fun _ s' => ∀ p, s.Inaccessible rootfs p → s'.Inaccessible rootfs p) fun _ => True := by
  unfold makeReadonly
  refine .bind (.sys (I := calls) fun a ha => ?_)
  cases a with
  | error e =>
    dsimp only
    -- Nothing is done where nothing is, or the error ends the loop
    split
    · exact .pure fun _ hp => hp
    · exact .fail trivial
  | ok m =>
    intro h r hl hr
    cases r with
    | ok u =>
      obtain ⟨fstype, data, rfl⟩ := readonlySpec_runs hr
      exact fun p hp => inaccessible_of_readonlyEvents hfirst hl hp
    | err e => trivial
    | halt n => trivial

/-- The read-only loop leaves masked what was masked. -/
theorem readonlyLoop_inaccessible {s : Vfs} (hfirst : s.mounts.IsFirst s.root) (rootfs : String)
    (paths : List String) : vfsRules.Ends s (readonlyLoop rootfs paths)
      (fun _ s' => ∀ p, s.Inaccessible rootfs p → s'.Inaccessible rootfs p) fun _ => True := by
  refine Ends.forM_of_runs (fun before path rest h _ hl hr hkeeps => .mapErr ?_) fun _ hp => hp
  have hfirst' : (vfsRules.after s h).mounts.IsFirst (vfsRules.after s h).root := by
    refine isFirst_after [.file, .mount] hfirst hl (fun e he => ?_) (by decide)
    have huses : (readonlyLoop rootfs before).Uses (Call.within [.file, .mount]) :=
      .forM fun path _ => .mapErr (makeReadonly_uses rootfs path)
    exact huses.mem hr he
  exact (makeReadonly_inaccessible hfirst' rootfs path).mono (fun _ _ hstep p hp =>
    hstep p (hkeeps p hp)) fun _ _ => trivial

/-! ## The pivot -/

/-- The root directory of the container is where the path of the new root leads to. -/
theorem after_pivot {s : Vfs} {spec : MountSpec} {h : List Event} (hl : vfsRules.Lawful s h)
    (hr : spec.pivot.Runs h (.ok ())) : s.Leads spec.target (vfsRules.after s h).root ∧
      (vfsRules.after s h).mounts = s.mounts ∧ (vfsRules.after s h).node = s.node := by
  rw [MountSpec.pivot_runs hr] at hl ⊢
  obtain ⟨l, hlead, -, hin⟩ := MountSpec.after_pivotEvents hl
  rw [hin.root]
  exact ⟨hlead, hin.mounts, hin.node⟩

/-- What is inaccessible under the new root is so in the container. -/
theorem Vfs.Inaccessible.after_pivot {s : Vfs} {rootfs p : String} {h : List Event}
    (hp : s.Inaccessible rootfs p) (hl : vfsRules.Lawful s h)
    (hr : (CreateRequest.newroot rootfs).pivot.Runs h (.ok ())) {x : Place FileName}
    (hx : (vfsRules.after s h).Leads ("/" ++ p) x) : (vfsRules.after s h).Blank x := by
  obtain ⟨hroot, hmounts, hnode⟩ := Styrolite.after_pivot hl hr
  have habs : IsAbsolute ("/" ++ p) := by simp [IsAbsolute]
  -- The pivot has changed neither the files nor the mounts, only the root
  have hfiles : (vfsRules.after s h).files = s.files := by
    funext fs q
    rw [Vfs.files, Vfs.files, hnode]
  have hat : ∀ l, (vfsRules.after s h).nodeAt l = s.nodeAt l := by
    intro l
    rw [Vfs.nodeAt, Vfs.nodeAt, hmounts, hnode]
  obtain ⟨k, hk⟩ := hx
  obtain ⟨-, hnul, hwalk⟩ := Vfs.resolve_eq_at.1 hk
  have hstart : (vfsRules.after s h).start ("/" ++ p) = (vfsRules.after s h).root := if_pos habs
  rw [hstart, Vfs.space, hmounts, hfiles] at hwalk
  have hblank := hp _ x hroot ⟨hnul, k, hwalk⟩
  unfold Vfs.Blank at hblank ⊢
  simpa only [hat] using hblank

/-! ## The loop -/

/-- The loop over `masked_paths`. -/
def maskLoop (rootfs : String) (paths : List String) : Sys Unit :=
  forM paths fun path => (maskPath rootfs path).mapErr (Err.context ("failed to mask " ++ path))

/-- The loop makes the paths of the list inaccessible, if each turn masks what the container would
    find. -/
theorem maskLoop_inaccessible {s : Vfs} {rootfs : String} {paths : List String} {h : List Event}
    (hl : vfsRules.Lawful s h) (hr : (maskLoop rootfs paths).Runs h (.ok ()))
    (hhits : ∀ done p rest h₁ h₂, paths = done ++ p :: rest → h = h₁ ++ h₂ →
      (maskLoop rootfs done).Runs h₁ (.ok ()) → (vfsRules.after s h₁).MaskHits rootfs p) :
    ∀ p ∈ paths, (vfsRules.after s h).Inaccessible rootfs p := by
  -- By the turns of the loop: what the earlier ones have masked stays so
  refine Runs.forM_induction (J := fun done h₁ => ∀ p ∈ done,
    (vfsRules.after s h₁).Inaccessible rootfs p) hr (fun p hp => absurd hp List.not_mem_nil) ?_
  intro done p rest h₁ h₂ h₃ heq hh hdone hturn ih
  have hhit := hhits done p rest h₁ (h₂ ++ h₃) heq hh hdone
  rw [hh, lawful_append, lawful_append] at hl
  have hat := maskPath_maskedAt hhit h₂ _ hl.2.1 (runs_mapErr_ok.1 hturn)
  rw [after_append]
  intro q hq
  rcases List.mem_append.1 hq with hold | hlast
  · -- Masked before, and kept by this turn
    exact hat.keeps q (ih q hold)
  · rw [List.mem_singleton.1 hlast]
    exact hat.inaccessible

namespace CreateRequest

/-- `pivot_fs` from the seal to where the paths of the container are hardened. -/
def furnish (req : CreateRequest) (rootfs : String) : Sys Unit := do
  req.setUp rootfs
  forM (req.mutations.getD []) (mutate rootfs)

/-- `pivot_fs` from the seal to where the paths `done` have been masked. -/
def untilMask (req : CreateRequest) (rootfs : String) (done : List String) : Sys Unit := do
  req.furnish rootfs
  maskLoop rootfs done

/-- `populate` as what comes up to the masks, the read-only loop and the pivot. -/
theorem populate_masks (req : CreateRequest) (rootfs : String) : req.populate rootfs = (do
    req.untilMask rootfs (req.maskedPaths.getD [])
    readonlyLoop rootfs (req.readonlyPaths.getD [])
    (newroot rootfs).pivot.mapErr (Err.context "failed to pivot to new rootfs")) := by
  unfold populate untilMask furnish setUp
  simp only [finishRoot_eq, bind_assoc]
  rfl

/-- Up to the masks only files and mounts are touched. -/
theorem untilMask_uses (req : CreateRequest) (rootfs : String) (done : List String) :
    (req.untilMask rootfs done).Uses (Call.within [.file, .mount]) :=
  .bind (.bind (req.setUp_uses rootfs) fun _ =>
    .forM fun m _ => (mutate_uses rootfs m).widen (by decide)) fun _ =>
    .forM fun path _ => .mapErr (maskPath_uses rootfs path)

namespace PivotRun

variable {req : CreateRequest} {s₀ : Vfs} (run : PivotRun req s₀)

/-- A masked path leads the container to the null device, to an empty directory, or nowhere. -/
def PathsMasked : Prop :=
  ∀ p ∈ req.maskedPaths.getD [], ∀ x, run.final.Leads ("/" ++ p) x → run.final.Blank x

/-- When the turn of a path comes, what the container would find at it is what is masked. -/
def MasksHit : Prop := ∀ done p rest h h', req.maskedPaths.getD [] = done ++ p :: rest →
  run.populating = h ++ h' → (req.untilMask run.root done).Runs h (.ok ()) →
    (vfsRules.after run.atPopulate h).MaskHits run.root p

/-- Until the pivot the process keeps its root directory. -/
theorem isFirst_after_populating (hfirst : s₀.mounts.IsFirst s₀.root) {h h' : List Event}
    (heq : run.populating = h ++ h') (hh : ∀ e ∈ h, Call.within [.file, .mount] e.call) :
    (vfsRules.after run.atPopulate h).mounts.IsFirst (vfsRules.after run.atPopulate h).root := by
  -- Up to there the calls are those of `bindRoot` and those in `h`
  have hbound : req.bindRoot.Runs
      (⟨.enter .pivotFs, ()⟩ :: (run.choosing ++ (run.binding ++ (run.sealing ++ []))))
      (.ok run.root) :=
    .call (run.choose_runs.bind ((runs_mapErr_ok.2 run.bind_runs).bind
      (run.seal_runs.bind (runs_pure.2 ⟨rfl, rfl⟩))))
  rw [List.append_nil] at hbound
  obtain ⟨hchoose, hbind, hseal, hpopulate⟩ := run.lawful_split
  rw [heq] at hpopulate
  have hl : vfsRules.Lawful s₀
      (⟨.enter .pivotFs, ()⟩ :: (run.choosing ++ (run.binding ++ (run.sealing ++ h)))) :=
    lawful_cons.2 ⟨trivial, lawful_append.2 ⟨hchoose, lawful_append.2 ⟨hbind,
      lawful_append.2 ⟨hseal, (lawful_append.1 hpopulate).1⟩⟩⟩⟩
  have hafter : vfsRules.after run.atPopulate h = vfsRules.after s₀
      (⟨.enter .pivotFs, ()⟩ :: (run.choosing ++ (run.binding ++ (run.sealing ++ h)))) := by
    rw [after_cons, after_append, after_append, after_append]
    rfl
  rw [hafter]
  refine isFirst_after [.env, .enterPivot, .file, .mount] hfirst hl (fun e he => ?_) (by decide)
  -- None of them is one that changes the root directory
  have hsplit : ⟨.enter .pivotFs, ()⟩ :: (run.choosing ++ (run.binding ++ (run.sealing ++ h))) =
      (⟨.enter .pivotFs, ()⟩ :: (run.choosing ++ (run.binding ++ run.sealing)) : List Event) ++
        h := by
    simp only [List.cons_append, List.append_assoc]
  rw [hsplit] at he
  rcases List.mem_append.1 he with hearlier | hlater
  · exact req.bindRoot_uses.mem hbound hearlier
  · have hsub : [Call.Kind.file, .mount] ⊆ [.env, .enterPivot, .file, .mount] := by decide
    exact hsub (hh e hlater)

/-- In every run in whose turns what is masked is what the container would find, the masked paths
    are inaccessible in the container. -/
theorem masked_inaccessible (hfirst : s₀.mounts.IsFirst s₀.root) (hhits : run.MasksHit) :
    run.PathsMasked := by
  have hr := run.populate_runs
  rw [populate_masks] at hr
  obtain ⟨_, h₁, _, huntil, hrest, hpop⟩ := runs_bind_ok.1 hr
  -- The list of paths is in the request, so each has had its turn
  obtain ⟨_, h₂, h₃, hreadonly, hpivot, rfl⟩ := runs_bind_ok.1 hrest
  obtain ⟨_, a, c, hfurnish, hloop, rfl⟩ := runs_bind_ok.1 huntil
  obtain ⟨-, -, -, hl⟩ := run.lawful_split
  rw [hpop] at hl
  obtain ⟨hl₁, hl⟩ := lawful_append.1 hl
  obtain ⟨hl₂, hl₃⟩ := lawful_append.1 hl
  -- what the loop has masked is inaccessible
  have hmasked : ∀ p ∈ req.maskedPaths.getD [],
      (vfsRules.after run.atPopulate (a ++ c)).Inaccessible run.root p := by
    rw [after_append]
    refine maskLoop_inaccessible (lawful_append.1 hl₁).2 hloop ?_
    intro done p rest c₁ c₂ heq hc hdone
    rw [← after_append]
    refine hhits done p rest (a ++ c₁) (c₂ ++ (h₂ ++ h₃)) heq ?_ (hfurnish.bind hdone)
    rw [hpop, hc]
    simp only [List.append_assoc]
  -- and so it is after the next loop
  have hfirst' := run.isFirst_after_populating hfirst hpop fun e he =>
    (req.untilMask_uses run.root _).mem huntil he
  have hkeeps := readonlyLoop_inaccessible hfirst' run.root (req.readonlyPaths.getD []) h₂ _ hl₂
    hreadonly
  have hfinal : run.final = vfsRules.after
      (vfsRules.after (vfsRules.after run.atPopulate (a ++ c)) h₂) h₃ := by
    rw [final, hpop, after_append, after_append]
  intro p hp x hx
  rw [hfinal] at hx ⊢
  exact (hkeeps p (hmasked p hp)).after_pivot hl₃ (runs_mapErr_ok.1 hpivot) hx

end PivotRun

/-- A request that masks a path of the container, or not. -/
def secretRequest (masked : Bool) : CreateRequest :=
  { (default : CreateRequest) with
    rootfs := some "/srv", maskedPaths := if masked then some ["/secret"] else none }

/-- A host with the same file outside the root to be and in it. A secret of the container is a
    file, or an absolute link to that. -/
def hostWithSecret (link : Bool) : Vfs := Vfs.host fun q =>
  if [[], ["dev".toList], ["srv".toList], ["srv".toList, "proc".toList]].contains q then some .dir
  else if q = ["dev".toList, "null".toList] then some .nullDevice
  else if q = ["key".toList] ∨ q = ["srv".toList, "key".toList] then some (.file [42])
  else if q = ["srv".toList, "secret".toList] then
    some (if link then .symlink "/key" else .file [42])
  else none

/-- The two calls that mask the path. -/
def secretEvents : List Event :=
  [⟨.fsSymlinkMetadata "/srv/secret", Except.ok ⟨false⟩⟩,
    ⟨.mount (some "/dev/null") "/srv/secret" none (MS_SILENT ||| MS_BIND) none, Except.ok ()⟩]

/-- The calls after the root is bound, of which each succeeds. -/
def secretPopulating (masked : Bool) : List Event :=
  procEvents ++ ((if masked then secretEvents else []) ++ (newroot "/srv").pivotEvents)

/-- The kernel may answer as in the run, with the link and without, masked and not. -/
private theorem secret_lawful (link masked : Bool) : vfsRules.Lawful (hostWithSecret link)
    (⟨.enter .pivotFs, ()⟩ :: ((volumeRun true).choosing ++
      ((volumeRun true).binding ++ ([] ++ secretPopulating masked)))) := by
  cases masked with
  | false =>
    simp only [volumeRun, secretPopulating, procEvents, MountSpec.pivotEvents, Bool.false_eq_true,
      if_false, List.cons_append, List.nil_append, lawful_cons]
    -- Each answer is checked on both hosts
    refine ⟨trivial, ?_, trivial, trivial, trivial, ?_, ?_, ?_, ?_, ?_, trivial, ?_, lawful_nil _ _⟩
    all_goals
      show Option.isSome _ = true
      revert link
      decide +kernel
  | true =>
    simp only [volumeRun, secretPopulating, procEvents, secretEvents, MountSpec.pivotEvents,
      if_true, List.cons_append, List.nil_append, lawful_cons]
    refine ⟨trivial, ?_, trivial, trivial, trivial, ?_, ?_, ?_, ?stat, ?_, ?_, ?_, trivial, ?_,
      lawful_nil _ _⟩
    case stat =>
      show Vfs.stat _ false "/srv/secret" = some ⟨false⟩
      revert link
      decide +kernel
    all_goals
      show Option.isSome _ = true
      revert link
      decide +kernel

/-- The run in which every call succeeds. -/
def secretRun (link masked : Bool) : PivotRun (secretRequest masked) (hostWithSecret link) where
  root := "/srv"
  choosing := (volumeRun true).choosing
  binding := (volumeRun true).binding
  sealing := []
  populating := secretPopulating masked
  choose_runs := (volumeRun true).choose_runs
  bind_runs := (volumeRun true).bind_runs
  seal_runs := .refl _
  populate_runs := by
    cases masked with
    | false => exact .call (.call (.call (.call (.call (.call (.refl _))))))
    | true => exact .call (.call (.call (.call (.call (.call (.call (.call (.refl _))))))))
  lawful := secret_lawful link masked

/-- Behind the absolute link the secret is open: what has been masked is the file of the host. -/
theorem not_pathsMasked_link :
    (∃ x, (secretRun true false).final.Leads "//secret" x ∧
      (secretRun true false).final.nodeAt x = some (.file [42])) ∧
    ¬ (secretRun true true).PathsMasked := by
  refine ⟨⟨(1, ["srv".toList, "key".toList]), ⟨39, by decide +kernel⟩, by decide +kernel⟩,
    fun h => ?_⟩
  have hkey := h "/secret" (by decide) (1, ["srv".toList, "key".toList]) ⟨39, by decide +kernel⟩
  have hnode : (secretRun true true).final.nodeAt (1, ["srv".toList, "key".toList]) =
      some (.file [42]) := by decide +kernel
  unfold Vfs.Blank at hkey
  rw [hnode] at hkey
  rcases hkey with hnull | ⟨hdir, -⟩
  · cases hnull
  · cases hdir

/-- Elsewhere it is not. -/
theorem pathsMasked_file : (secretRun false true).PathsMasked := by
  refine (secretRun false true).masked_inaccessible ⟨_, rfl, rfl, rfl⟩ ?_
  intro done p rest h h' heq hpop hr
  -- There is one turn, before which only `/proc` is mounted
  have hdone : done = [] ∧ p = "/secret" := by
    cases done with
    | nil =>
      cases heq
      exact ⟨rfl, rfl⟩
    | cons q done =>
      change ["/secret"] = _ at heq
      simp at heq
  obtain ⟨rfl, rfl⟩ := hdone
  have hproc : ((secretRequest true).untilMask "/srv" []).Runs procEvents (.ok ()) :=
    .call (.call (.refl _))
  obtain rfl := hr.eq_of_append hproc hpop.symm
  refine Vfs.maskHits_of_beneath (d := (1, ["srv".toList]))
    ⟨40, by decide +kernel, by decide +kernel⟩ (by decide +kernel) (by decide +kernel)
    (by decide +kernel) fun z hz => ?_
  have hnull : (vfsRules.after (secretRun false true).atPopulate procEvents).Leads "/dev/null"
      (0, ["dev".toList, "null".toList]) := ⟨40, by decide +kernel⟩
  obtain rfl := hz.unique hnull
  decide +kernel

end CreateRequest

end Styrolite
