import Styrolite.ForStd.Fields
import Styrolite.Spec.PivotRun
import Styrolite.Spec.VfsSteps

/-!
# The mount points under the new root

The targets of `/proc` and of the entries of `mounts` are joined textually to the
path of the new root. What is then mounted on or made is within the subtree that
the path leads to, if the walk of the target stays beneath it
(`SetUpCall.confined`); a `..` or an absolute link in it may lead anywhere.
-/

namespace Styrolite

open Prog LocalRules

/-! ## Paths -/

/-- A component that stays is empty or a dot. -/
theorem component_eq_stay {c : FileName} : component c = .stay ↔ c = [] ∨ c = ['.'] := by
  unfold component
  split
  · next h => simp [h]
  · next h =>
    split
    · simp [h]
    · simp [h]

/-- The steps of a path that do not stay. -/
def moves (path : String) : List (Component FileName) := (steps path).filter (· ≠ .stay)

/-- The moves of a path are those of its components. -/
theorem moves_eq (path : String) : moves path = (pathComponents path).map component := by
  rw [moves, steps, pathComponents, List.filter_map]
  refine congrArg _ (List.filter_congr fun c _ => ?_)
  simp [component_eq_stay]

/-- The parent of a path goes all the way but the last move. -/
theorem moves_pathParent {path parent : String} (hparent : pathParent path = some parent) :
    moves parent = (moves path).dropLast := by
  rw [moves_eq, moves_eq, ← List.map_dropLast, (pathParent_eq_some hparent).2]

namespace Vfs

variable {s s' s'' : Vfs} {l dst : Place FileName} {root target : String} {k : Nat}

/-! ## What is changed within a place -/

/-- The new mounts are on places within `l`, apart from those on other new ones, and what has
    changed in the file systems is within `l`. -/
structure Confined (s s' : Vfs) (l : Place FileName) : Prop where
  mounts : ∀ {n m x}, s.mounts.size ≤ n → s'.mounts.mount n = some m → m.parent = some x →
    x.1 < s.mounts.size → s.mounts.Within l x
  node : ∀ {fs q}, fs < s.fsCount → s'.node fs q ≠ s.node fs q →
    ∃ x m, s.mounts.mount x.1 = some m ∧ m.fs = fs ∧ x.2 = q ∧ s.mounts.Within l x

namespace Confined

/-- There is no new mount. -/
theorem of_mounts (hmounts : s'.mounts = s.mounts)
    (hnode : ∀ {fs q}, fs < s.fsCount → s'.node fs q ≠ s.node fs q →
      ∃ x m, s.mounts.mount x.1 = some m ∧ m.fs = fs ∧ x.2 = q ∧ s.mounts.Within l x) :
    s.Confined s' l where
  mounts hn hm := by
    rw [hmounts] at hm
    exact absurd (s.mounts.older hm).1 (Nat.not_lt.2 hn)
  node := hnode

/-- What changes neither mounts nor files is confined to every place. -/
theorem of_eq (hmounts : s'.mounts = s.mounts) (hnode : s'.node = s.node) : s.Confined s' l :=
  of_mounts hmounts fun _ hne => absurd (by rw [hnode]) hne

/-- Nothing is done. -/
theorem refl (s : Vfs) (l : Place FileName) : s.Confined s l := of_eq rfl rfl

/-- One change after the other. -/
theorem trans (h₁ : s.Confined s' l) (hmounts : s'.mounts = s.mounts)
    (hcount : s.fsCount ≤ s'.fsCount) (h₂ : s'.Confined s'' l) : s.Confined s'' l where
  mounts hn hm hp hx := by
    rw [← hmounts] at hn hx ⊢
    exact h₂.mounts hn hm hp hx
  node {fs q} hfs hne := by
    by_cases heq : s'.node fs q = s.node fs q
    · have hlast := h₂.node (Nat.lt_of_lt_of_le hfs hcount) (by rwa [heq])
      rwa [hmounts] at hlast
    · exact h₁.node hfs heq

end Confined

/-- A mount on a place within `l`. -/
theorem attach_confined (fs : Nat) (q : List FileName) (hdst : s.mounts.Within l dst) (ro : Bool) :
    s.Confined (s.attach fs q dst ro) l := by
  unfold attach
  split
  · -- Only the new mount could be outside
    refine ⟨fun {n m x} hn hm hp _ => ?_, fun _ hne => absurd rfl hne⟩
    change (if n = s.mounts.size then _ else s.mounts.mount n) = some m at hm
    split at hm
    · cases hm
      change (if s.mounts.Has dst then some dst else none) = some x at hp
      split at hp
      · cases hp
        exact hdst
      · cases hp
    · exact absurd (s.mounts.older hm).1 (Nat.not_lt.2 hn)
  · exact .refl s l

/-- A bind on a place within `l`. -/
theorem bind_confined (src : Place FileName) (hdst : s.mounts.Within l dst) :
    s.Confined (s.bind src dst) l := by
  unfold bind
  split
  · exact attach_confined _ _ hdst _
  · exact .refl s l

/-- A new file system is no change of an old one. -/
theorem addTmpfs_confined : s.Confined s.addTmpfs l :=
  .of_mounts rfl fun hfs hne => absurd (if_neg (Nat.ne_of_lt hfs)) hne

/-- A new mount on a place within `l`. -/
theorem mountNew_confined (fstype source : Option String) (hdst : s.mounts.Within l dst) :
    s.Confined (s.mountNew fstype source dst) l := by
  unfold mountNew
  split
  · exact addTmpfs_confined.trans rfl (Nat.le_succ _)
      (attach_confined (s := s.addTmpfs) _ _ hdst _)
  · exact attach_confined _ _ hdst _

/-- A recursive bind on a place within `l`. -/
theorem bindRec_confined (src : Place FileName) (hhas : s.mounts.Has dst)
    (hdst : s.mounts.Within l dst) : s.Confined (s.bindRec src dst) l := by
  refine ⟨fun {n m x} hn hm hp hx => ?_, fun _ hne => absurd rfl hne⟩
  obtain ⟨i, rfl⟩ := Nat.exists_eq_add_of_le hn
  obtain ⟨m₀, -, -, hcase⟩ := MountTable.clone_mount_eq_some hhas hm
  split at hcase
  · subst hcase
    cases hp
    exact hdst
  · -- the copies of the other mounts are on copies
    subst hcase
    obtain ⟨y, -, rfl⟩ := Option.map_eq_some_iff.1 hp
    exact absurd hx (Nat.not_lt.2 (Nat.le_add_right _ _))

/-- A mount on a target that leads to a place within `l`. -/
theorem mount_confined {source fstype data : Option String} {flags : U64}
    (hm : s.mount source target fstype flags data = some s')
    (hin : ∀ y, s.Leads target y → s.mounts.Has y ∧ s.mounts.Within l y) : s.Confined s' l := by
  -- In the order of `mount`: a bind, a remount, a new mount
  unfold mount at hm
  split at hm
  · next y k hy =>
    obtain ⟨hhas, hw⟩ := hin y ⟨k, hy⟩
    split at hm
    · split at hm
      · split at hm
        · split at hm
          · cases hm
            exact bindRec_confined _ (MountTable.has_top hhas) hw.top
          · cases hm
            exact bind_confined _ hw.top
        · cases hm
      · cases hm
    · split at hm
      · split at hm
        · cases hm
          exact .refl s l
        · cases hm
      · split at hm
        · cases hm
          exact mountNew_confined _ _ hw.top
        · cases hm
  · cases hm

/-- A file or directory made in a directory within `l`. -/
theorem create_confined (hdst : s.mounts.Within l dst) (name : FileName) (nd : Node) :
    s.Confined (s.create dst name nd) l := by
  unfold create
  split
  · next m hm =>
    refine .of_mounts rfl fun {fs q} _ hne => ?_
    change (if fs = m.fs ∧ q = dst.2 ++ [name] then some nd else s.node fs q) ≠ s.node fs q at hne
    split at hne
    · next hat =>
      obtain ⟨rfl, rfl⟩ := hat
      exact ⟨(dst.1, dst.2 ++ [name]), m, hm, rfl, rfl, hdst.child name⟩
    · exact absurd rfl hne
  · exact .refl s l

/-- A file within `l` is emptied. -/
theorem truncate_confined (hdst : s.mounts.Within l dst) : s.Confined (s.truncate dst) l := by
  unfold truncate
  split
  · next m content hm hfile =>
    refine .of_mounts rfl fun {fs q} _ hne => ?_
    change (if fs = m.fs ∧ q = dst.2 then some (Node.file []) else s.node fs q) ≠ s.node fs q at hne
    split at hne
    · next hat =>
      obtain ⟨rfl, rfl⟩ := hat
      exact ⟨dst, m, hm, rfl, rfl, hdst⟩
    · exact absurd rfl hne
  · exact .refl s l

/-! ## The directories on the way -/

/-- There may be more directories and files, and nothing else has changed. -/
structure MoreFiles (s s' : Vfs) : Prop where
  mounts : s'.mounts = s.mounts
  root : s'.root = s.root
  cwd : s'.cwd = s.cwd
  fsCount : s'.fsCount = s.fsCount
  node : ∀ {fs q nd}, s.node fs q = some nd → s'.node fs q = some nd
  link : ∀ {fs q target}, s'.node fs q = some (.symlink target) →
    s.node fs q = some (.symlink target)

namespace MoreFiles

/-- A state has its own files. -/
theorem refl (s : Vfs) : s.MoreFiles s := ⟨rfl, rfl, rfl, rfl, fun h => h, fun h => h⟩

/-- More files, and more again. -/
theorem trans (h₁ : s.MoreFiles s') (h₂ : s'.MoreFiles s'') : s.MoreFiles s'' where
  mounts := h₂.mounts.trans h₁.mounts
  root := h₂.root.trans h₁.root
  cwd := h₂.cwd.trans h₁.cwd
  fsCount := h₂.fsCount.trans h₁.fsCount
  node h := h₂.node (h₁.node h)
  link h := h₁.link (h₂.link h)

/-- A walk has more to go by where there are more files. -/
theorem grown (h : s.MoreFiles s') (r : Place FileName) : (s.space r).Grown (s'.space r) := by
  have hspace : s'.space r = s.mounts.space s'.files r := by rw [space, h.mounts]
  rw [hspace]
  refine MountTable.grown (fun {fs q e} he => ?_) fun {fs q target} he => ?_
  · obtain ⟨nd, hnd, rfl⟩ := Option.map_eq_some_iff.1 he
    exact Option.map_eq_some_iff.2 ⟨nd, h.node hnd, rfl⟩
  · obtain ⟨nd, hnd, hlink⟩ := Option.map_eq_some_iff.1 he
    cases nd with
    | symlink path => exact Option.map_eq_some_iff.2 ⟨.symlink path, h.link hnd, hlink⟩
    | dir => cases hlink
    | file content => cases hlink
    | nullDevice => cases hlink
    | special => cases hlink
    | socket => cases hlink

end MoreFiles

/-- `mkdir` only adds a directory. -/
theorem mkdir_moreFiles (l₀ : Place FileName) (cs : List (Component FileName)) :
    s.MoreFiles (s.mkdir l₀ cs) := by
  unfold mkdir
  split
  · next dir name hwalk =>
    split
    · exact .refl s
    · unfold create
      split
      · next m hm =>
        -- nothing was there by the name
        have hnone := node_of_free hwalk hm
        refine ⟨rfl, rfl, rfl, rfl, fun {fs q nd} h => ?_, fun {fs q path} h => ?_⟩
        · -- The new directory is at a name that was free
          show (if fs = m.fs ∧ q = dir.2 ++ [name] then some Node.dir else s.node fs q) = _
          rw [if_neg, h]
          rintro ⟨rfl, rfl⟩
          rw [hnone] at h
          cases h
        · change (if fs = m.fs ∧ q = dir.2 ++ [name] then some Node.dir else s.node fs q) = _ at h
          split at h
          · cases h
          · exact h
      · exact .refl s
  · exact .refl s

/-- A process whose root directory is `l` is jailed there. -/
theorem jail (hroot : s.mounts.Within l s.root → s.root = l) (hl : s.mounts.Has l) :
    (s.space s.root).Jail (s.space l) (s.mounts.leaves l)
      fun x => s.mounts.Has x ∧ s.mounts.Within l x := MountTable.jail hroot hl

/-- Makes what is missing at the end of each of the paths from `l₀`. -/
def mkdirs (s : Vfs) (l₀ : Place FileName) (css : List (List (Component FileName))) : Vfs :=
  css.foldl (fun t cs => t.mkdir l₀ cs) s

/-- Several of them only add directories. -/
theorem mkdirs_moreFiles (l₀ : Place FileName) (css : List (List (Component FileName))) :
    s.MoreFiles (s.mkdirs l₀ css) := by
  induction css generalizing s with
  | nil => exact .refl s
  | cons cs css ih => exact (mkdir_moreFiles l₀ cs).trans ih

/-- Directories made on the way to a target that stays beneath `l` are made within `l`. -/
theorem mkdirs_confined {l₀ : Place FileName} {as bs : List (Component FileName)}
    {css : List (List (Component FileName))} (hfirst : s.mounts.IsFirst s.root)
    (hl : s.mounts.Has l)
    (hroot : (s.space s.root).walk true MAXSYMLINKS l₀ as = .at l k)
    (hb : ((s.mkdirs l₀ css).space s.root).beneath (s.mounts.leaves l) k l bs = true)
    (hcss : ∀ cs ∈ css, cs.filter (· ≠ .stay) <+: (as ++ bs).filter (· ≠ .stay)) :
    s.Confined (s.mkdirs l₀ css) l := by
  -- Induction on the directories that are made
  induction css generalizing s with
  | nil => exact .refl s l
  | cons cs css ih =>
    have hmore : s.MoreFiles (s.mkdir l₀ cs) := mkdir_moreFiles l₀ cs
    have hall : s.MoreFiles (s.mkdirs l₀ (cs :: css)) := mkdirs_moreFiles l₀ _
    -- One directory is made within `l`, and that it is there now takes nothing from the hypotheses
    have hone : s.Confined (s.mkdir l₀ cs) l := by
      unfold mkdir
      split
      · next dir name hfree =>
        split
        · exact .refl s l
        · have hjail := jail (hfirst.within_iff hl).1 hl
          have hin := hjail.within_of_free ⟨hl, MountTable.within_self l⟩ hroot
            ((hall.grown s.root).beneath hb) (hcss cs List.mem_cons_self) hfree
          exact create_confined hin.2 name .dir
      · exact .refl s l
    refine hone.trans hmore.mounts (Nat.le_of_eq hmore.fsCount.symm) ?_
    refine ih ?_ ?_ ?_ ?_ fun cs' hcs' => hcss cs' (List.mem_cons_of_mem cs hcs')
    · -- What was so before the directory was made is so with it
      rw [hmore.mounts, hmore.root]
      exact hfirst
    · rw [hmore.mounts]
      exact hl
    · rw [hmore.root]
      exact (hmore.grown s.root).walk_at hroot
    · rw [hmore.mounts, hmore.root]
      exact hb

/-! ## A target under the new root -/

/-- A target is looked up from where the root is. -/
theorem isAbsolute_join (hroot : root ≠ "") : IsAbsolute (root ++ "/" ++ target) ↔ IsAbsolute root := by
  unfold IsAbsolute
  cases hlist : root.toList with
  | nil => exact absurd (String.toList_inj.1 hlist) hroot
  | cons c cs => simp [hlist]

/-- A path starts at the root directory, or at the working directory. -/
theorem start_eq {path path' : String} (habs : IsAbsolute path ↔ IsAbsolute path') :
    s.start path = s.start path' := if_congr habs rfl rfl

/-- A target joined to a path is looked up from where the path leads. -/
theorem resolve_join {follow : Bool} (hroot : s.resolve true root = .at l k)
    (hnul : ¬ HasNul target) : s.resolve follow (root ++ "/" ++ target) =
      (s.space s.root).walk follow k l (steps target) := by
  obtain ⟨hne, hnul', hwalk⟩ := resolve_eq_at.1 hroot
  have hjoin : ¬ (root ++ "/" ++ target = "" ∨ HasNul (root ++ "/" ++ target)) := by
    rintro (hempty | hhas)
    · have hlist := congrArg String.toList hempty
      simp at hlist
    · exact not_hasNul_append.2 ⟨not_hasNul_append.2 ⟨hnul', by decide⟩, hnul⟩ hhas
  rw [resolve, if_neg hjoin, start_eq (isAbsolute_join hne), steps_append_slash,
    PathSpace.walk_append (steps_ne_nil target), hwalk]
  rfl

/-- The path `root` leads to `l`, and from there the walk of the target, in `s'`, takes no `..` that
    leads out of `l` and follows no absolute link. -/
def StaysBeneath (s s' : Vfs) (root target : String) (l : Place FileName) : Prop :=
  ∃ k, s.resolve true root = .at l k ∧
    (s'.space s.root).beneath (s.mounts.leaves l) k l (steps target) = true

/-- The directory that the target stays beneath is there. -/
theorem StaysBeneath.has (hb : s.StaysBeneath s' root target l) : s.mounts.Has l := by
  obtain ⟨k, hroot, -⟩ := hb
  exact (Leads.place ⟨k, hroot⟩).1

/-- Where a target that stays beneath `l` leads. -/
theorem resolve_within (follow : Bool) (hroot : s.mounts.Within l s.root → s.root = l)
    (hb : s.StaysBeneath s root target l) :
    (s.resolve follow (root ++ "/" ++ target)).Within
      fun y => s.mounts.Has y ∧ s.mounts.Within l y := by
  have hl := hb.has
  obtain ⟨k, hlead, hb⟩ := hb
  -- A path with a NUL leads nowhere
  by_cases hnul : HasNul target
  · have hjoin : HasNul (root ++ "/" ++ target) :=
      by_contra fun hno => (not_hasNul_append.1 hno).2 hnul
    rw [resolve, if_pos (.inr hjoin)]
    trivial
  · have hin : s.mounts.Has l ∧ s.mounts.Within l l := ⟨hl, MountTable.within_self l⟩
    rw [resolve_join hlead hnul, ← (jail hroot hl).walk_eq_of_beneath hin hb]
    exact (jail hroot hl).walk_within hin

/-- What the target leads to is within the directory. -/
theorem leads_within (hfirst : s.mounts.IsFirst s.root) (hb : s.StaysBeneath s root target l)
    {y : Place FileName} (hy : s.Leads (root ++ "/" ++ target) y) :
    s.mounts.Has y ∧ s.mounts.Within l y := by
  obtain ⟨k, hy⟩ := hy
  have hin := resolve_within true (hfirst.within_iff hb.has).1 hb
  rw [hy] at hin
  exact hin

/-- The directories made on the way to a target, or to its parent. -/
theorem makeDirs_confined {path : String} {n : Nat} (hfirst : s.mounts.IsFirst s.root)
    (hb : s.StaysBeneath (s.makeDirs path n) root target l)
    (hpath : path = root ++ "/" ++ target ∨ pathParent (root ++ "/" ++ target) = some path) :
    s.Confined (s.makeDirs path n) l := by
  unfold makeDirs at hb ⊢
  split
  · exact .refl s l
  · next hnul =>
    rw [if_neg hnul] at hb
    obtain ⟨k, hroot, hb⟩ := hb
    obtain ⟨hne, -, hwalk⟩ := resolve_eq_at.1 hroot
    -- The parent's path is a part of the target's, in the moves it makes
    have hmoves : moves path <+: moves (root ++ "/" ++ target) ∧
        (IsAbsolute path ↔ IsAbsolute (root ++ "/" ++ target)) := by
      rcases hpath with rfl | hparent
      · exact ⟨List.prefix_refl _, Iff.rfl⟩
      · rw [moves_pathParent hparent]
        exact ⟨List.dropLast_prefix _, (pathParent_eq_some hparent).1⟩
    have hstart : s.start path = s.start root := start_eq (hmoves.2.trans (isAbsolute_join hne))
    rw [← hstart] at hwalk
    refine mkdirs_confined hfirst ((Leads.place ⟨k, hroot⟩).1) hwalk hb fun cs hcs => ?_
    have hpre := (List.mem_inits cs _).1 (List.mem_of_mem_take hcs)
    rw [← steps_append_slash]
    exact ((hpre.trans (dirSteps_initial path)).filter _).trans hmoves.1

end Vfs

/-! ## The calls of a mount -/

/-- The call may be one that carries out a mount on the path. -/
def Call.SetsUp (path : String) : Call → Prop
  | .fsMetadata _ => True
  | .fsCreateDirAll p => p = path ∨ pathParent path = some p
  | .fsFileCreate p => p = path
  | .mount _ p _ _ _ => p = path
  | .mountSetattr _ p _ _ => p = path
  | _ => False

namespace MountSpec

/-- Making a target names only the target and its parent. -/
theorem createTarget_setsUp (spec : MountSpec) :
    spec.createTarget.Uses (Call.SetsUp spec.target) := by
  unfold createTarget sourceIsFile
  refine .bind ?_ fun isFile => ?_
  · split
    · refine .bind (.sys (I := calls) trivial) fun r => ?_
      split <;> exact .pure _
    · exact .pure _
  · split
    · refine .bind (.whenSome fun parent hparent => ?_) fun _ => ?_
      · exact .bind (.sys (I := calls) (.inr hparent)) fun r => .check _ _
      · exact .bind (.sys (I := calls) rfl) fun r => .check _ _
    · exact .bind (.sys (I := calls) (.inl rfl)) fun r => .check _ _

/-- A mount is set up by calls that name its target. -/
theorem mount_setsUp (spec : MountSpec) : spec.mount.Uses (Call.SetsUp spec.target) := by
  rw [mount_eq]
  -- The target, then the mount and its attributes
  refine .bind_runs (.check _ _) fun h target hr => .bind (.when fun _ => ?_) fun _ => ?_
  · exact spec.createTarget_setsUp
  · have htarget : target = spec.target := eq_of_cString (runs_orFail_ok.1 hr).2
    unfold mountAt dataArg
    refine .bind ?_ fun data => .bind (.sys (I := calls) htarget) fun r =>
      .bind (.mapErr (.check _ _)) fun _ => .when fun _ => ?_
    · split
      · exact .pure _
      · rw [map_eq_pure_bind]
        exact .bind (.mapErr (.check _ _)) fun _ => .pure _
    · unfold mountSetattr
      refine .bind_runs (.check _ _) fun h path hr => .bind (.sys (I := calls) ?_) fun r => .check _ _
      exact eq_of_cString (runs_orFail_ok.1 hr).2

end MountSpec

namespace Vfs

variable {s s' : Vfs} {l : Place FileName} {root target : String}

/-- The state in which a mount looks up its target: if the call makes directories, they are there. -/
def made (s : Vfs) (c : Call) (a : c.Answer) : Vfs :=
  match c, a with
  | .fsCreateDirAll path, a => s.next (.fsCreateDirAll path) a
  | _, _ => s

/-- `create_dir_all` has made some of the path's directories. -/
theorem next_createDirAll {path : String} {a : Except Errno Unit}
    (ha : s.allows (.fsCreateDirAll path) a) :
    ∃ n, s.next (.fsCreateDirAll path) a = s.makeDirs path n := by
  cases a with
  | error e => exact ⟨s.headway, rfl⟩
  | ok u =>
    obtain ⟨s', hs'⟩ := Option.isSome_iff_exists.1 ha
    refine ⟨(dirSteps path).length + 1, ?_⟩
    rw [← createDirAll_eq_some hs']
    exact next_of_createDirAll hs'

/-- It only adds directories. -/
theorem makeDirs_moreFiles (path : String) (n : Nat) : s.MoreFiles (s.makeDirs path n) := by
  unfold makeDirs
  split
  · exact .refl s
  · exact mkdirs_moreFiles _ _

/-- What stays beneath a directory once there are more files does so there. -/
theorem MoreFiles.staysBeneath (hmore : s.MoreFiles s') (hb : s.StaysBeneath s' root target l) :
    s'.StaysBeneath s' root target l := by
  obtain ⟨k, hroot, hb⟩ := hb
  obtain ⟨hne, hnul, hwalk⟩ := resolve_eq_at.1 hroot
  have hstart : s'.start root = s.start root := by rw [start, start, hmore.root, hmore.cwd]
  refine ⟨k, resolve_eq_at.2 ⟨hne, hnul, ?_⟩, ?_⟩
  · rw [hmore.root, hstart]
    exact (hmore.grown s.root).walk_at hwalk
  · rw [hmore.root, hmore.mounts]
    exact hb

/-- A call that carries out a mount on a target that stays beneath `l` is confined there. -/
theorem next_confined {c : Call} {a : c.Answer} (hfirst : s.mounts.IsFirst s.root)
    (ha : s.allows c a) (hc : c.SetsUp (root ++ "/" ++ target))
    (hb : s.StaysBeneath (s.made c a) root target l) :
    (∀ y, (s.made c a).Leads (root ++ "/" ++ target) y → s.mounts.Within l y) ∧
      s.Confined (s.next c a) l := by
  -- By the calls that name a target
  cases c with
  | fsMetadata path => exact ⟨fun y hy => (leads_within hfirst hb hy).2, .refl s l⟩
  | fsCreateDirAll path =>
    obtain ⟨n, hn⟩ := next_createDirAll ha
    change s.StaysBeneath (s.next (.fsCreateDirAll path) a) root target l at hb
    show (∀ y, (s.next (.fsCreateDirAll path) a).Leads (root ++ "/" ++ target) y →
      s.mounts.Within l y) ∧ s.Confined (s.next (.fsCreateDirAll path) a) l
    rw [hn] at hb ⊢
    -- Where the target stays beneath `l` afterwards, it did so before
    have hmore : s.MoreFiles (s.makeDirs path n) := makeDirs_moreFiles path n
    refine ⟨fun y hy => ?_, makeDirs_confined hfirst hb hc⟩
    have hfirst' : (s.makeDirs path n).mounts.IsFirst (s.makeDirs path n).root := by
      rw [hmore.mounts, hmore.root]
      exact hfirst
    have hin := (leads_within hfirst' (hmore.staysBeneath hb) hy).2
    rwa [hmore.mounts] at hin
  | fsFileCreate path =>
    obtain rfl := hc
    refine ⟨fun y hy => (leads_within hfirst hb hy).2, ?_⟩
    cases a with
    | error e => exact .refl s l
    | ok u =>
      obtain ⟨s', hs'⟩ := Option.isSome_iff_exists.1 ha
      have hnext : s.next (.fsFileCreate (root ++ "/" ++ target)) (.ok u) = s' :=
        next_of_createFile hs'
      -- A new file in a directory within `l`, or a file within `l` that is emptied
      have hin := resolve_within true (hfirst.within_iff hb.has).1 hb
      rw [hnext]
      unfold createFile at hs'
      split at hs'
      · next dir name hfree =>
        split at hs'
        · cases hs'
        · cases hs'
          rw [hfree] at hin
          exact create_confined hin.2 name _
      · next y k hat =>
        split at hs'
        · cases hs'
          rw [hat] at hin
          exact truncate_confined hin.2
        · cases hs'
      · cases hs'
  | mount source path fstype flags data =>
    obtain rfl := hc
    -- A mount on a place within `l`
    have hin := fun y hy => leads_within (y := y) hfirst hb hy
    refine ⟨fun y hy => (hin y hy).2, ?_⟩
    cases a with
    | error e => exact .refl s l
    | ok u =>
      obtain ⟨s', hs'⟩ := Option.isSome_iff_exists.1 ha
      have hnext : s.next (.mount source (root ++ "/" ++ target) fstype flags data) (.ok u) = s' :=
        next_of_mount hs'
      rw [hnext]
      exact mount_confined hs' hin
  | mountSetattr dir path flags attr =>
    refine ⟨fun y hy => (leads_within hfirst hb hy).2, ?_⟩
    cases a with
    | error e => exact .refl s l
    | ok u =>
      obtain ⟨s', hs'⟩ := Option.isSome_iff_exists.1 ha
      have hnext : s.next (.mountSetattr dir path flags attr) (.ok u) = s' :=
        next_of_mountSetattr hs'
      -- Attributes: no mount and no file changes
      obtain ⟨hmounts, hnode, -⟩ := mountSetattr_eq_some hs'
      rw [hnext]
      exact .of_eq hmounts hnode
  | _ => exact absurd hc id

end Vfs

/-! ## The mounts under the new root -/

/-- A first root directory stays one while mounts are added. -/
theorem isFirst_of_extends {s s' : Vfs} (hfirst : s.mounts.IsFirst s.root)
    (hext : s.mounts.Extends s'.mounts) (hroot : s'.root = s.root) : s'.mounts.IsFirst s'.root := by
  obtain ⟨m, hm, hmroot, hp⟩ := hfirst
  rw [hroot]
  exact ⟨m, (hext.mount (s.mounts.older hm).1).trans hm, hmroot, hp⟩

/-- Until it calls `pivot_root` a process has the root directory that it started with. -/
theorem isFirst_after {s : Vfs} {h : List Event} (ks : List Call.Kind)
    (hfirst : s.mounts.IsFirst s.root) (hl : vfsRules.Lawful s h)
    (hh : ∀ e ∈ h, Call.within ks e.call) (hks : Call.Kind.pivot ∉ ks) :
    (vfsRules.after s h).mounts.IsFirst (vfsRules.after s h).root := by
  refine hl.preserves (J := fun t : Vfs => t.mounts.IsFirst t.root) (S := Call.within ks) ?_ hh hfirst
  intro t c a hc ht ha
  obtain ⟨hext, hroot⟩ := Vfs.next_extends ha fun newRoot putOld heq => hks (by rw [heq] at hc; exact hc)
  exact isFirst_of_extends ht hext hroot

namespace CreateRequest

variable {req : CreateRequest} {s₀ : Vfs}

/-- `pivot_fs` up to where the new root is bound and sealed; the result is its path. -/
def bindRoot (req : CreateRequest) : Sys String := do
  let _ ← sys (.enter .pivotFs)
  let rootfs ← req.chooseRoot
  (newroot rootfs).mount.mapErr (Err.context "failed to bind new rootfs")
  req.sealRoot rootfs
  pure rootfs

/-- The mounts of `/proc` and of the entries of `mounts`. -/
def setUp (req : CreateRequest) (rootfs : String) : Sys Unit := do
  (procfs rootfs).mount.mapErr (Err.context "failed to mount /proc")
  mountAll (parentedMount rootfs) (req.mounts.getD [])

/-- `pivot_fs` in three parts: the root is bound, the targets are set up, the rest. -/
theorem pivotFs_setUp (req : CreateRequest) : req.pivotFs = (do
    let rootfs ← req.bindRoot
    req.setUp rootfs
    req.finishRoot rootfs) := by
  rw [pivotFs_phases]
  unfold bindRoot setUp populate
  simp only [bind_assoc, pure_bind]

/-- The targets of these mounts. -/
def targets (req : CreateRequest) : List String :=
  "proc" :: (req.mounts.getD []).map MountSpec.target

/-- Only what the request names below the root is set up. -/
theorem setUp_setsUp (req : CreateRequest) (rootfs : String) : (req.setUp rootfs).Uses
    fun c : Call => ∃ target ∈ req.targets, c.SetsUp (rootfs ++ "/" ++ target) := by
  unfold setUp mountAll
  refine .bind (.mapErr ?_) fun _ => .forM fun m hm => .mapErr ?_
  · have hproc : (procfs rootfs).target = rootfs ++ "/" ++ "proc" := by
      rw [String.append_assoc]
      rfl
    exact (procfs rootfs).mount_setsUp.mono fun (c : Call) hc =>
      ⟨"proc", List.mem_cons_self, hproc ▸ hc⟩
  · have hmem : m.target ∈ req.targets := List.mem_cons_of_mem _ (List.mem_map_of_mem hm)
    exact (parentedMount rootfs m).mount_setsUp.mono fun c hc => ⟨m.target, hmem, hc⟩

/-- Binding the root touches files and mounts. -/
theorem bindRoot_uses (req : CreateRequest) :
    req.bindRoot.Uses (Call.within [.env, .enterPivot, .file, .mount]) := by
  unfold bindRoot chooseRoot sealRoot
  have hid : req.identity.Uses (Call.within [.env, .enterPivot, .file, .mount]) :=
    req.identity_uses.widen (by decide)
  refine .bind (uses_sys _ rfl) fun _ => .bind ?_ fun rootfs =>
    .bind (.mapErr ((MountSpec.mount_uses _).widen (by decide))) fun _ =>
    .bind (.when fun _ => .mapErr ((MountSpec.sealMount_uses _).widen (by decide))) fun _ => .pure _
  exact .bind (uses_orFail _) fun rootfs =>
    .bind (.mapErr ((MountSpec.mount_uses _).widen (by decide))) fun _ =>
    .bind hid fun _ => .bind hid fun _ => .bind hid fun _ =>
    (stageRootfs_uses _ _ _ _).widen (by decide)

/-- Setting up the targets touches files and mounts. -/
theorem setUp_uses (req : CreateRequest) (rootfs : String) :
    (req.setUp rootfs).Uses (Call.within [.file, .mount]) := by
  unfold setUp mountAll
  exact .bind (.mapErr (MountSpec.mount_uses _)) fun _ => .forM fun m _ =>
    .mapErr (MountSpec.mount_uses _)

/-- A call of these mounts, in a run of `pivot_fs` that has come to it. -/
structure SetUpCall (req : CreateRequest) (s₀ : Vfs) where
  root : String
  binding : List Event
  earlier : List Event
  call : Call
  answer : call.Answer
  bind_runs : req.bindRoot.Runs binding (.ok root)
  reached : (req.setUp root).At earlier call
  lawful : vfsRules.Lawful s₀ (binding ++ (earlier ++ [⟨call, answer⟩]))

namespace SetUpCall

/-- The state before the call. -/
def before (c : SetUpCall req s₀) : Vfs := vfsRules.after s₀ (c.binding ++ c.earlier)

/-- The state after it. -/
def result (c : SetUpCall req s₀) : Vfs := c.before.next c.call c.answer

/-- The state in which the target is looked up. -/
def lookup (c : SetUpCall req s₀) : Vfs := c.before.made c.call c.answer

variable (c : SetUpCall req s₀)

/-- The call that is looked at is made by `pivot_fs`. -/
theorem at_pivotFs : req.pivotFs.At (c.binding ++ c.earlier) c.call := by
  rw [pivotFs_setUp]
  exact at_bind.2 (.inr ⟨c.root, c.binding, c.earlier, c.bind_runs, at_bind.2 (.inl c.reached), rfl⟩)

/-- What the call is for, and what it mounts on or makes, is within `l`. -/
def Within (c : SetUpCall req s₀) (target : String) (l : Place FileName) : Prop :=
  (∀ y, c.lookup.Leads (c.root ++ "/" ++ target) y → c.before.mounts.Within l y) ∧
    c.before.Confined c.result l

/-- The call keeps to the subtree that the path of the new root leads to. -/
def InsideRoot (c : SetUpCall req s₀) : Prop := ∀ target l,
  c.call.SetsUp (c.root ++ "/" ++ target) → c.before.Leads c.root l → c.Within target l

/-- Its answer is one that the kernel gives. -/
theorem allows : c.before.allows c.call c.answer := by
  have hl := c.lawful
  rw [← List.append_assoc, lawful_append] at hl
  exact (lawful_cons.1 hl.2).1

/-- The root directory is the first one when the call is made. -/
theorem isFirst_before (hfirst : s₀.mounts.IsFirst s₀.root) :
    c.before.mounts.IsFirst c.before.root := by
  have hl := c.lawful
  rw [← List.append_assoc, lawful_append] at hl
  obtain ⟨q, hreached⟩ := c.reached
  refine isFirst_after [.env, .enterPivot, .file, .mount] hfirst hl.1 ?_ (by decide)
  intro e he
  rcases List.mem_append.1 he with hbind | hearlier
  · exact req.bindRoot_uses.mem c.bind_runs hbind
  · exact ((req.setUp_uses c.root).widen (by decide)).mem hreached hearlier

/-- Each call is for one of the targets, and keeps to the subtree that the path of the new root leads
    to if the target stays beneath it. -/
theorem confined (hfirst : s₀.mounts.IsFirst s₀.root) :
    (∃ target ∈ req.targets, c.call.SetsUp (c.root ++ "/" ++ target)) ∧
      ∀ target l, c.call.SetsUp (c.root ++ "/" ++ target) →
        c.before.StaysBeneath c.lookup c.root target l → c.Within target l :=
  ⟨req.setUp_setsUp c.root c.earlier c.call c.reached,
    fun _ _ hc hb => Vfs.next_confined (c.isFirst_before hfirst) c.allows hc hb⟩

end SetUpCall

/-- A request that mounts a temporary file system. -/
def tmpfsRequest (target : String) : CreateRequest :=
  { (default : CreateRequest) with
    rootfs := some "/srv"
    mounts := some
      [{ (default : MountSpec) with
          source := some "tmpfs", target := target, fstype := some "tmpfs" }] }

/-- A host with a directory next to the root to be, and a link to it there. -/
def hostWithOut : Vfs := Vfs.host fun q =>
  if [[], ["srv".toList], ["srv".toList, "proc".toList], ["srv".toList, "data".toList],
    ["out".toList]].contains q then some .dir
  else if q = ["srv".toList, "link".toList] then some (.symlink "/out") else none

/-- The calls up to where the root is bound. -/
def tmpfsBinding : List Event :=
  [⟨.enter .pivotFs, ()⟩,
    ⟨.mount none "/" none (MS_SILENT ||| MS_PRIVATE ||| MS_REC) none, Except.ok ()⟩,
    ⟨.getpid, (1 : Nat)⟩, ⟨.getpid, (1 : Nat)⟩, ⟨.getpid, (1 : Nat)⟩,
    ⟨.mount (some "/srv") "/srv" none (MS_SILENT ||| MS_BIND ||| MS_REC) none, Except.ok ()⟩]

/-- The mount of `/proc`. -/
def procEvents : List Event :=
  [⟨.mount (some "proc") "/srv/proc" (some "proc") (MS_SILENT ||| MS_REC) none, Except.ok ()⟩,
    ⟨.mountSetattr .cwd "/srv/proc" AT_RECURSIVE
      { attrSet := MOUNT_ATTR_NOSUID ||| MOUNT_ATTR_NODEV ||| MOUNT_ATTR_NOEXEC, attrClr := 0 },
      Except.ok ()⟩]

/-- The answers of the example's run are ones that the kernel gives. -/
private theorem tmpfs_lawful {target : String} (htarget : target ∈ ["data", "../out", "link"]) :
    vfsRules.Lawful hostWithOut (tmpfsBinding ++ (procEvents ++
      [⟨.mount (some "tmpfs") ("/srv/" ++ target) (some "tmpfs") MS_SILENT none, Except.ok ()⟩])) := by
  simp only [tmpfsBinding, procEvents, List.cons_append, List.nil_append, lawful_cons]
  refine ⟨trivial, ?_, trivial, trivial, trivial, ?_, ?_, ?_, ?_, lawful_nil _ _⟩
  all_goals
    show Option.isSome _ = true
    revert target
    decide +kernel

/-- The mount of it. -/
def tmpfsCall (target : String) (htarget : target ∈ ["data", "../out", "link"]) :
    SetUpCall (tmpfsRequest target) hostWithOut where
  root := "/srv"
  binding := tmpfsBinding
  earlier := procEvents
  call := .mount (some "tmpfs") ("/srv/" ++ target) (some "tmpfs") MS_SILENT none
  answer := Except.ok ()
  bind_runs := .call (.call (.call (.call (.call (.call (.refl _))))))
  reached := by
    -- The same events for each of the three targets
    simp only [List.mem_cons, List.not_mem_nil, or_false] at htarget
    rcases htarget with rfl | rfl | rfl
    · exact ⟨_, .call (.call (.refl _))⟩
    · exact ⟨_, .call (.call (.refl _))⟩
    · exact ⟨_, .call (.call (.refl _))⟩
  lawful := tmpfs_lawful htarget

/-- By `..` or an absolute link a mount gets out of the new root. -/
theorem not_insideRoot : hostWithOut.mounts.IsFirst hostWithOut.root ∧
    ¬ (tmpfsCall "../out" (by decide)).InsideRoot ∧ ¬ (tmpfsCall "link" (by decide)).InsideRoot := by
  refine ⟨⟨_, rfl, rfl, rfl⟩, fun hin => ?_, fun hin => ?_⟩
  · have hout := (hin "../out" (1, ["srv".toList]) rfl ⟨40, by decide +kernel⟩).1
      (0, ["out".toList]) ⟨40, by decide +kernel⟩
    exact absurd hout (by decide +kernel)
  · have hout := (hin "link" (1, ["srv".toList]) rfl ⟨40, by decide +kernel⟩).1
      (0, ["out".toList]) ⟨39, by decide +kernel⟩
    exact absurd hout (by decide +kernel)

/-- Elsewhere it does not. -/
theorem within_data :
    (tmpfsCall "data" (by decide)).Within "data" (1, ["srv".toList]) :=
  ((tmpfsCall "data" (by decide)).confined ⟨_, rfl, rfl, rfl⟩).2 "data" _ rfl
    ⟨40, by decide +kernel, by decide +kernel⟩

end CreateRequest

end Styrolite
