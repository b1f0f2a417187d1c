import Styrolite.Spec.Vfs

/-!
# What one call does to the mounts and files

Every call that is allowed changes the flags of mounts, truncates a file, changes
the root directory, or comes down to a sequence of a few kinds of `Edit`, none of
which touches a mount or a file that was there (`next_cases`).
-/

namespace Styrolite

open LocalRules

namespace Vfs

/-- A change that adds a mount, a file system or a file, or moves the process. -/
inductive Edit (s : Vfs) : Vfs → Prop
  | look {s' : Vfs} (hmounts : s'.mounts = s.mounts) (hnode : s'.node = s.node)
      (hcount : s'.fsCount = s.fsCount) (hro : s'.readOnly = s.readOnly)
      (hroot : s'.root = s.root) : Edit s s'
  | attach (fs : Nat) (root : List FileName) (dst : Place FileName) (ro : Bool) :
      Edit s (s.attach fs root dst ro)
  | addTmpfs : Edit s s.addTmpfs
  | bindRec (src dst : Place FileName) : Edit s (s.bindRec src dst)
  | create {follow : Bool} {n : Nat} {l dir : Place FileName} {cs : List (Component FileName)}
      {name : FileName} {nd : Node} (hwalk : (s.space s.root).walk follow n l cs = .free dir name)
      (hnd : nd = .dir ∨ nd = .file []) : Edit s (s.create dir name nd)

/-- Several edits, one after the other. -/
abbrev Edits : Vfs → Vfs → Prop := Relation.ReflTransGen Edit

variable {s s' : Vfs}

/-! ## Where a path leads -/

/-- A path leads to one place at most. -/
theorem Leads.unique {path : String} {l l' : Place FileName} (hl : s.Leads path l)
    (hl' : s.Leads path l') : l = l' := by
  obtain ⟨k, hk⟩ := hl
  obtain ⟨k', hk'⟩ := hl'
  rw [hk] at hk'
  cases hk'
  rfl

/-- Every walk starts at a place of the table. -/
theorem has_start (path : String) : s.mounts.Has (s.start path) := by
  unfold start
  split
  · exact s.has_root
  · exact s.has_cwd

/-- What a path leads to is in some mount, and nothing covers it, unless the path starts there or
    goes through the root directory. -/
theorem Leads.place {path : String} {l : Place FileName} (hl : s.Leads path l) :
    s.mounts.Has l ∧ (l = s.root ∨ l = s.start path ∨ s.mounts.Uncovered l) := by
  obtain ⟨k, hk⟩ := hl
  unfold resolve at hk
  split at hk
  · cases hk
  · have hwithin : ((s.space s.root).walk true MAXSYMLINKS (s.start path) (steps path)).Within
        fun x => s.mounts.Has x ∧ (x = s.root ∨ x = s.start path ∨ s.mounts.Uncovered x) :=
      MountTable.walk_uncovered s.has_root (s.has_start path)
    rw [hk] at hwithin
    exact hwithin

/-- A path leads somewhere if the walk of its steps does. -/
theorem resolve_eq_at {path : String} {l : Place FileName} {k : Nat} :
    s.resolve true path = .at l k ↔ path ≠ "" ∧ ¬ HasNul path ∧
      (s.space s.root).walk true MAXSYMLINKS (s.start path) (steps path) = .at l k := by
  unfold resolve
  split
  · next h =>
    refine iff_of_false (fun heq => by cases heq) ?_
    rintro ⟨hne, hnul, -⟩
    exact h.elim hne hnul
  · next h =>
    rw [not_or] at h
    simp [h]

/-- The absolute path leads to `x`, for a process with the root directory `r`. -/
def LeadsIn (s : Vfs) (r : Place FileName) (path : String) (x : Place FileName) : Prop :=
  ¬ HasNul path ∧ ∃ k, (s.space r).walk true MAXSYMLINKS r (steps path) = .at x k

/-- A path that is not absolute may also be looked up from its root directory. -/
theorem leads_iff_leadsIn {path : String} {x : Place FileName} (hcwd : s.cwd = s.root) :
    s.Leads path x ↔ path ≠ "" ∧ s.LeadsIn s.root path x := by
  have hstart : s.start path = s.root := by
    unfold start
    split
    · rfl
    · exact hcwd
  unfold Leads LeadsIn
  simp only [resolve_eq_at, hstart, exists_and_left]

/-- The working directory is at `.`. -/
theorem leads_dot (hdir : s.isDir s.cwd) : s.Leads "." s.cwd := by
  refine ⟨MAXSYMLINKS, resolve_eq_at.2 ⟨by decide, by decide, ?_⟩⟩
  have hstart : s.start "." = s.cwd := if_neg (by decide)
  have hsteps : steps "." = [.stay] := by decide
  have hdir' : (s.space s.root).isDir s.cwd = true := hdir
  rw [hstart, hsteps, PathSpace.walk_stay, if_pos hdir', PathSpace.walk_nil]

/-- The root directory is at `/`. -/
theorem leads_slash {l : Place FileName} (hl : s.Leads "/" l) : l = s.root := by
  obtain ⟨k, hk⟩ := hl
  obtain ⟨-, -, hwalk⟩ := resolve_eq_at.1 hk
  have hstart : s.start "/" = s.root := if_pos (by decide)
  have hsteps : steps "/" = List.replicate 2 .stay ++ [] := by decide
  rw [hstart, hsteps] at hwalk
  cases (PathSpace.walk_stays hwalk).symm.trans PathSpace.walk_nil
  rfl

/-! ## After a call that succeeds -/

section

variable {path : String}

/-- A mount that succeeds leads to the state it makes. -/
theorem next_of_mount {source fstype data : Option String} {flags : U64}
    (hs : s.mount source path fstype flags data = some s') :
    s.next (.mount source path fstype flags data) (.ok ()) = s' := by
  show (s.mount source path fstype flags data).getD s = s'
  rw [hs, Option.getD_some]

/-- So does a change of attributes. -/
theorem next_of_mountSetattr {dir : DirFd} {flags : CInt} {attr : MountAttr}
    (hs : s.mountSetattr dir path flags attr = some s') :
    s.next (.mountSetattr dir path flags attr) (.ok ()) = s' := by
  show (s.mountSetattr dir path flags attr).getD s = s'
  rw [hs, Option.getD_some]

/-- So does an opened tree. -/
theorem next_of_openTree {fd : Nat} (flags : CInt) (hs : s.openTree path fd = some s') :
    s.next (.openTree path flags) (Except.ok fd) = s' := by
  show (s.openTree path fd).getD s = s'
  rw [hs, Option.getD_some]

/-- So does the making of directories. -/
theorem next_of_createDirAll (hs : s.createDirAll path = some s') :
    s.next (.fsCreateDirAll path) (.ok ()) = s' := by
  show (s.createDirAll path).getD s = s'
  rw [hs, Option.getD_some]

/-- So does the making of a file. -/
theorem next_of_createFile (hs : s.createFile path = some s') :
    s.next (.fsFileCreate path) (.ok ()) = s' := by
  show (s.createFile path).getD s = s'
  rw [hs, Option.getD_some]

/-- So does a change of the working directory. -/
theorem next_of_setCurrentDir (hs : s.setCurrentDir path = some s') :
    s.next (.setCurrentDir path) (.ok ()) = s' := by
  show (s.setCurrentDir path).getD s = s'
  rw [hs, Option.getD_some]

/-- So does a pivot. -/
theorem next_of_pivotRoot (putOld : String) (hs : s.pivotRoot path = some s') :
    s.next (.pivotRoot path putOld) (.ok ()) = s' := by
  show (s.pivotRoot path).getD s = s'
  rw [hs, Option.getD_some]

end

/-! ## What one call changes -/

/-- One mount attached is one edit. -/
theorem attach_edits (fs : Nat) (root : List FileName) (dst : Place FileName) (ro : Bool) :
    Edits s (s.attach fs root dst ro) := .single (.attach fs root dst ro)

/-- A bind attaches one mount, or none. -/
theorem bind_edits (src dst : Place FileName) : Edits s (s.bind src dst) := by
  unfold bind
  split
  · exact attach_edits _ _ _ _
  · exact .refl

/-- A new mount may need a new file system first. -/
theorem mountNew_edits (fstype source : Option String) (dst : Place FileName) :
    Edits s (s.mountNew fstype source dst) := by
  unfold mountNew
  split
  · exact .head .addTmpfs (attach_edits _ _ _ _)
  · exact attach_edits _ _ _ _

/-- What `mount(2)` can do: bind, change how a mount is propagated, or mount a file system. -/
theorem mount_cases {source fstype data : Option String} {target : String} {flags : U64}
    (hm : s.mount source target fstype flags data = some s') : ∃ y, s.Leads target y ∧
      ((flags &&& MS_BIND ≠ 0 ∧ ∃ src x, source = some src ∧ s.Leads src x ∧
          s' = if flags &&& MS_REC ≠ 0 then s.bindRec x (s.mounts.top y)
            else s.bind x (s.mounts.top y)) ∨
        (flags &&& MS_BIND = 0 ∧ flags &&& MS_PRIVATE ≠ 0 ∧ s' = s) ∨
        (flags &&& MS_BIND = 0 ∧ flags &&& MS_PRIVATE = 0 ∧
          s' = s.mountNew fstype source (s.mounts.top y))) := by
  -- In the order of `mount`: a bind, a change of propagation, a new mount
  unfold mount at hm
  split at hm
  · next y k hy =>
    refine ⟨y, ⟨k, hy⟩, ?_⟩
    split at hm
    · next hbind =>
      split at hm
      · next x k' hx =>
        obtain ⟨src, rfl, hsrc⟩ := Option.map_eq_some_iff.1 hx
        split at hm
        · refine .inl ⟨hbind, src, x, rfl, ⟨k', hsrc⟩, ?_⟩
          split at hm
          · next hrec => rw [if_pos hrec]; exact (Option.some.inj hm).symm
          · next hrec => rw [if_neg hrec]; exact (Option.some.inj hm).symm
        · cases hm
      · cases hm
    · next hbind =>
      rw [not_not] at hbind
      split at hm
      · next hprivate =>
        split at hm
        · exact .inr (.inl ⟨hbind, hprivate, (Option.some.inj hm).symm⟩)
        · cases hm
      · next hprivate =>
        split at hm
        · exact .inr (.inr ⟨hbind, not_not.1 hprivate, (Option.some.inj hm).symm⟩)
        · cases hm
  · cases hm

/-- A mount is a sequence of edits. -/
theorem mount_edits {source fstype data : Option String} {target : String} {flags : U64}
    (hm : s.mount source target fstype flags data = some s') : Edits s s' := by
  obtain ⟨y, -, ⟨-, src, x, -, -, rfl⟩ | ⟨-, -, rfl⟩ | ⟨-, -, rfl⟩⟩ := mount_cases hm
  · split
    · exact .single (.bindRec _ _)
    · exact bind_edits _ _
  · exact .refl
  · exact mountNew_edits _ _ _

/-- An opened tree only adds a descriptor. -/
theorem openTree_edits {path : String} {fd : Nat} (hm : s.openTree path fd = some s') :
    Edits s s' := by
  unfold openTree at hm
  split at hm
  · cases hm
    exact .single (.look rfl rfl rfl rfl rfl)
  · cases hm

/-- A change of the working directory only moves the process. -/
theorem setCurrentDir_edits {path : String} (hm : s.setCurrentDir path = some s') :
    Edits s s' := by
  unfold setCurrentDir at hm
  split at hm
  · split at hm
    · cases hm
      exact .single (.look rfl rfl rfl rfl rfl)
    · cases hm
  · cases hm

/-- A directory is made, or nothing is done. -/
theorem mkdir_edits (l : Place FileName) (cs : List (Component FileName)) :
    Edits s (s.mkdir l cs) := by
  unfold mkdir
  split
  · next dir name hwalk =>
    split
    · exact .refl
    · exact .single (.create hwalk (.inl rfl))
  · exact .refl

/-- Each directory of the path is one edit at most. -/
theorem makeDirs_edits (path : String) (n : Nat) : Edits s (s.makeDirs path n) := by
  unfold makeDirs
  split
  · exact .refl
  · have hfold : ∀ (css : List (List (Component FileName))) (t : Vfs),
        Edits t (css.foldl (fun t cs => t.mkdir (s.start path) cs) t) := by
      intro css
      induction css with
      | nil => exact fun t => .refl
      | cons cs css ih => exact fun t => (mkdir_edits _ cs).trans (ih _)
    exact hfold _ s

/-- A `create_dir_all` that succeeds has made every directory of the path. -/
theorem createDirAll_eq_some {path : String} (hm : s.createDirAll path = some s') :
    s' = s.makeDirs path ((dirSteps path).length + 1) := by
  unfold createDirAll at hm
  dsimp only at hm
  split at hm
  · split at hm
    · exact (Option.some.inj hm).symm
    · cases hm
  · split at hm
    · exact (Option.some.inj hm).symm
    · cases hm

/-- It is a sequence of edits. -/
theorem createDirAll_edits {path : String} (hm : s.createDirAll path = some s') : Edits s s' := by
  rw [createDirAll_eq_some hm]
  exact makeDirs_edits _ _

/-- A regular file that is there is truncated, for which its mount must not be read-only. -/
theorem createFile_cases {path : String} (hm : s.createFile path = some s') :
    (∃ l, s.Leads path l ∧ (s.isFile l → s.readOnly l.1 = false) ∧ s' = s.truncate l) ∨
      Edits s s' := by
  -- A new file at a free name, or a file there that is emptied
  unfold createFile at hm
  split at hm
  · next dir name hwalk =>
    split at hm
    · cases hm
    · cases hm
      unfold resolve at hwalk
      split at hwalk
      · cases hwalk
      · exact .inr (.single (.create hwalk (.inr rfl)))
  · next l k hat =>
    split at hm
    · next hleaf =>
      cases hm
      exact .inl ⟨l, ⟨k, hat⟩, fun hfile => Bool.eq_false_iff.2 fun hro =>
        hleaf.2.2 ⟨hfile, hro⟩, rfl⟩
    · cases hm
  · cases hm

/-- What a call can do. -/
theorem next_cases {c : Call} {a : c.Answer} (ha : s.allows c a) :
    (∃ dir path flags attr, (⟨c, a⟩ : Event) = ⟨.mountSetattr dir path flags attr, Except.ok ()⟩ ∧
      s.mountSetattr dir path flags attr = some (s.next c a)) ∨
    (∃ path l, (⟨c, a⟩ : Event) = ⟨.fsFileCreate path, Except.ok ()⟩ ∧ s.Leads path l ∧
      (s.isFile l → s.readOnly l.1 = false) ∧ s.next c a = s.truncate l) ∨
    (∃ newRoot putOld, (⟨c, a⟩ : Event) = ⟨.pivotRoot newRoot putOld, Except.ok ()⟩ ∧
      s.pivotRoot newRoot = some (s.next c a)) ∨
    Edits s (s.next c a) := by
  -- A call that succeeds has led to the next state
  have hget : ∀ {o : Option Vfs}, o.isSome → o = some (o.getD s) := by
    intro o ho
    cases o with
    | none => cases ho
    | some s' => rfl
  unfold allows at ha
  unfold next
  split
  · -- The calls in the order of `next`
    exact .inr (.inr (.inr (mount_edits (hget ha))))
  · exact .inl ⟨_, _, _, _, rfl, hget ha⟩
  · exact .inr (.inr (.inr (openTree_edits (hget ha))))
  · exact .inr (.inr (.inr (createDirAll_edits (hget ha))))
  · exact .inr (.inr (.inr (makeDirs_edits _ _)))
  · rcases createFile_cases (hget ha) with ⟨l, hl, hro, heq⟩ | hedits
    · exact .inr (.inl ⟨_, l, rfl, hl, hro, heq⟩)
    · exact .inr (.inr (.inr hedits))
  · exact .inr (.inr (.inr (setCurrentDir_edits (hget ha))))
  · exact .inr (.inr (.inl ⟨_, _, rfl, hget ha⟩))
  · exact .inr (.inr (.inr .refl))

/-- A pivot changes no mount, no file and no attribute. -/
theorem pivotRoot_eq_some {newRoot : String} (hm : s.pivotRoot newRoot = some s') :
    s'.mounts = s.mounts ∧ s'.node = s.node ∧ s'.fsCount = s.fsCount ∧
      s'.readOnly = s.readOnly := by
  unfold pivotRoot at hm
  split at hm
  · split at hm
    · cases hm
      exact ⟨rfl, rfl, rfl, rfl⟩
    · cases hm
  · cases hm

/-- The new root is where the path leads to, which is on another mount than the old root. -/
theorem pivotRoot_moves {newRoot : String} (hm : s.pivotRoot newRoot = some s') :
    s.Leads newRoot s'.root ∧ s'.root.1 ≠ s.root.1 ∧
      s'.cwd = if s.cwd = s.root then s'.root else s.cwd := by
  unfold pivotRoot at hm
  split at hm
  · next l k hl =>
    split at hm
    · next hmay =>
      cases hm
      exact ⟨⟨k, hl⟩, hmay.1.2.2, rfl⟩
    · cases hm
  · cases hm

/-- A change of the working directory changes nothing else. -/
theorem setCurrentDir_eq_some {path : String} (hm : s.setCurrentDir path = some s') :
    ∃ l, s.Leads path l ∧ s'.isDir l ∧ s'.cwd = l ∧ s'.mounts = s.mounts ∧ s'.node = s.node ∧
      s'.root = s.root ∧ s'.readOnly = s.readOnly := by
  unfold setCurrentDir at hm
  split at hm
  · next l k hl =>
    split at hm
    · next hdir =>
      cases hm
      exact ⟨l, ⟨k, hl⟩, hdir.1, rfl, rfl, rfl, rfl, rfl⟩
    · cases hm
  · cases hm

/-- Attributes are all that `mount_setattr` changes. -/
theorem mountSetattr_eq_some {dir : DirFd} {path : String} {flags : CInt} {attr : MountAttr}
    (hm : s.mountSetattr dir path flags attr = some s') :
    s'.mounts = s.mounts ∧ s'.node = s.node ∧ s'.fsCount = s.fsCount ∧ s'.root = s.root := by
  unfold mountSetattr at hm
  split at hm
  · split at hm
    · cases hm
      exact ⟨rfl, rfl, rfl, rfl⟩
    · cases hm
  · cases hm

/-- What has content is a file. -/
theorem isFile_of_nodeAt {l : Place FileName} {content : List UInt8}
    (hnode : s.nodeAt l = some (.file content)) : s.isFile l = true := by
  rw [isFile, hnode]

/-- Emptying a file changes no mount. -/
theorem truncate_eq (l : Place FileName) : (s.truncate l).mounts = s.mounts ∧
    (s.truncate l).fsCount = s.fsCount ∧ (s.truncate l).readOnly = s.readOnly ∧
    (s.truncate l).root = s.root := by
  unfold truncate
  split <;> exact ⟨rfl, rfl, rfl, rfl⟩

/-! ## What stays -/

/-- A free name names nothing in the file system that its directory is in. -/
theorem node_of_free {follow : Bool} {n : Nat} {l dir : Place FileName}
    {cs : List (Component FileName)} {name : FileName} {m : Mount FileName}
    (hwalk : (s.space s.root).walk follow n l cs = .free dir name)
    (hm : s.mounts.mount dir.1 = some m) : s.node m.fs (dir.2 ++ [name]) = none := by
  obtain ⟨-, hchild⟩ := PathSpace.isDir_of_free hwalk
  -- A file of that name would have been found by the walk
  cases hnode : s.node m.fs (dir.2 ++ [name]) with
  | none => rfl
  | some nd =>
    have hentry : s.mounts.entry s.files (dir.1, dir.2 ++ [name]) = some nd.entry := by
      rw [MountTable.entry, hm, Option.bind_some, files, hnode]
      rfl
    have hsome : (s.space s.root).child dir name = some (s.mounts.top (dir.1, dir.2 ++ [name])) :=
      MountTable.space_child_eq_some.2 ⟨by rw [hentry]; rfl, rfl⟩
    rw [hchild] at hsome
    cases hsome

/-- An edit takes no mount away, and leaves the root directory. -/
theorem Edit.extends (he : Edit s s') : s.mounts.Extends s'.mounts ∧ s'.root = s.root := by
  have hrefl : s.mounts.Extends s.mounts := ⟨Nat.le_refl _, fun _ => rfl⟩
  -- Only `attach` and `bindRec` touch the mounts, and they add to them
  cases he with
  | look hmounts hnode hcount hro hroot =>
    rw [hmounts]
    exact ⟨hrefl, hroot⟩
  | attach fs root dst ro =>
    unfold Vfs.attach
    split
    · exact ⟨MountTable.extends_attach, rfl⟩
    · exact ⟨hrefl, rfl⟩
  | addTmpfs => exact ⟨hrefl, rfl⟩
  | bindRec src dst => exact ⟨MountTable.extends_clone, rfl⟩
  | create hwalk hnd =>
    unfold Vfs.create
    split <;> exact ⟨hrefl, rfl⟩

/-- A process that does not call `pivot_root` keeps its root directory, and no mount goes away. -/
theorem next_extends {c : Call} {a : c.Answer} (ha : s.allows c a)
    (hc : ∀ newRoot putOld, c ≠ .pivotRoot newRoot putOld) :
    s.mounts.Extends (s.next c a).mounts ∧ (s.next c a).root = s.root := by
  have hrefl : s.mounts.Extends s.mounts := ⟨Nat.le_refl _, fun _ => rfl⟩
  rcases next_cases ha with ⟨_, _, _, _, -, hm⟩ | ⟨_, l, -, -, -, heq⟩ | ⟨_, _, hev, -⟩ | he
  · obtain ⟨hmounts, -, -, hroot⟩ := mountSetattr_eq_some hm
    rw [hmounts]
    exact ⟨hrefl, hroot⟩
  · obtain ⟨hmounts, -, -, hroot⟩ := s.truncate_eq l
    rw [heq, hmounts]
    exact ⟨hrefl, hroot⟩
  · exact absurd (congrArg Interface.Event.call hev) (hc _ _)
  · -- No edit takes a mount away, so none of their sequences does
    have hedits : ∀ {t : Vfs}, Edits s t → s.mounts.Extends t.mounts ∧ t.root = s.root := by
      intro t ht
      induction ht with
      | refl => exact ⟨hrefl, rfl⟩
      | tail _ he ih =>
        obtain ⟨hext, hroot⟩ := Edit.extends he
        exact ⟨⟨Nat.le_trans ih.1.size hext.size,
          fun hn => (hext.mount (Nat.lt_of_lt_of_le hn ih.1.size)).trans (ih.1.mount hn)⟩,
          hroot.trans ih.2⟩
    exact hedits he

end Vfs

end Styrolite
