import Styrolite.ForStd.Triples
import Styrolite.Spec.MountsCorrect
import Styrolite.Spec.VfsSteps

/-!
# Creating mount points

A list of mounts carried out in order leaves every regular file as it was exactly
if no mount comes up whose mount point is made as a file over a file with something
in it: `File::create` empties that (`mounts_keep_files_iff`).

The file system may hold anything, and each call may be refused.
-/

namespace Styrolite

open Prog LocalRules

namespace Vfs

variable {s s' s'' : Vfs}

/-- Every regular file is as it was. -/
def Keeps (s s' : Vfs) : Prop := ∀ fs q content, fs < s.fsCount →
  s.node fs q = some (.file content) → s'.node fs q = some (.file content)

/-- What is in the files was there before. -/
structure WritesNothing (s s' : Vfs) : Prop where
  fsCount : s.fsCount ≤ s'.fsCount
  content : ∀ {fs q content}, fs < s'.fsCount → s'.node fs q = some (.file content) →
    content ≠ [] → fs < s.fsCount ∧ s.node fs q = some (.file content)

/-- There may be more files, with nothing in them, and what there was is there. -/
structure Grows (s s' : Vfs) : Prop extends WritesNothing s s' where
  node : ∀ {fs q nd}, fs < s.fsCount → s.node fs q = some nd → s'.node fs q = some nd

/-- Writing nothing, twice. -/
theorem WritesNothing.trans (h₁ : s.WritesNothing s') (h₂ : s'.WritesNothing s'') :
    s.WritesNothing s'' where
  fsCount := Nat.le_trans h₁.fsCount h₂.fsCount
  content hfs hnode hne := by
    obtain ⟨hfs', hnode'⟩ := h₂.content hfs hnode hne
    exact h₁.content hfs' hnode' hne

namespace Grows

/-- A state that grows keeps its files. -/
theorem keeps (hg : s.Grows s') : s.Keeps s' := fun _ _ _ hfs hnode => hg.node hfs hnode

/-- The file systems are the same, and what is in them. -/
theorem of_eq (hcount : s'.fsCount = s.fsCount) (hnode : s'.node = s.node) : s.Grows s' where
  fsCount := Nat.le_of_eq hcount.symm
  content hfs h _ := by
    rw [hcount] at hfs
    rw [hnode] at h
    exact ⟨hfs, h⟩
  node _ h := by rw [hnode]; exact h

/-- A state grows into itself. -/
theorem refl (s : Vfs) : s.Grows s := of_eq rfl rfl

/-- Growing is passed on. -/
theorem trans (h₁ : s.Grows s') (h₂ : s'.Grows s'') : s.Grows s'' where
  toWritesNothing := h₁.toWritesNothing.trans h₂.toWritesNothing
  node hfs h := h₂.node (Nat.lt_of_lt_of_le hfs h₁.fsCount) (h₁.node hfs h)

end Grows

/-! ## What each call does to the files -/

/-- No edit of the tree changes a file that has data. -/
theorem Edit.grows (he : Edit s s') : s.Grows s' := by
  cases he with
  | look hmounts hnode hcount hro hroot => exact .of_eq hcount hnode
  | attach fs root dst ro =>
    unfold Vfs.attach
    split
    · exact .of_eq rfl rfl
    · exact .refl s
  | bindRec src dst => exact .of_eq rfl rfl
  | addTmpfs =>
    -- the new file system holds no file
    refine ⟨⟨Nat.le_succ _, fun {fs q content} hfs h hne => ?_⟩, fun {fs q nd} hfs h => ?_⟩
    · replace h : (if fs = s.fsCount then if q = [] then some Node.dir else none
        else s.node fs q) = some (.file content) := h
      have hlt : fs < s.fsCount + 1 := hfs
      split at h
      · split at h <;> cases h
      · next hold => exact ⟨by omega, h⟩
    · show (if fs = s.fsCount then _ else s.node fs q) = _
      rw [if_neg (Nat.ne_of_lt hfs), h]
  | @create follow n l dir cs name nd hwalk hnd =>
    -- what is made has no data in it, and nothing was there
    unfold Vfs.create
    split
    · next m hm =>
      have hnone := node_of_free hwalk hm
      refine ⟨⟨Nat.le_refl _, fun {fs q content} hfs h hne => ?_⟩, fun {fs q nd'} _ h => ?_⟩
      · replace h : (if fs = m.fs ∧ q = dir.2 ++ [name] then some nd else s.node fs q) =
          some (.file content) := h
        split at h
        · rcases hnd with rfl | rfl
          · cases h
          · cases h
            exact absurd rfl hne
        · exact ⟨hfs, h⟩
      · show (if fs = m.fs ∧ q = dir.2 ++ [name] then some nd else s.node fs q) = _
        rw [if_neg, h]
        rintro ⟨rfl, rfl⟩
        rw [hnone] at h
        cases h
    · exact .refl s

/-- Nor do many of them. -/
theorem Edits.grows (he : Edits s s') : s.Grows s' := by
  induction he with
  | refl => exact .refl s
  | tail _ he ih => exact ih.trans he.grows

/-! ## Truncation -/

/-- The path leads to a regular file with something in it, which may be written to. -/
def HoldsData (s : Vfs) (path : String) : Prop := ∃ l content, s.Leads path l ∧
  s.readOnly l.1 = false ∧ s.nodeAt l = some (.file content) ∧ content ≠ []

/-- Emptying a file writes nothing into another. -/
theorem truncate_writesNothing (l : Place FileName) : s.WritesNothing (s.truncate l) where
  fsCount := Nat.le_of_eq (s.truncate_eq l).2.1.symm
  content {fs q content} hfs h hne := by
    rw [(s.truncate_eq l).2.1] at hfs
    unfold truncate at h
    split at h
    · replace h : (if _ then some (Node.file []) else s.node fs q) = some (.file content) := h
      split at h
      · cases h
        exact absurd rfl hne
      · exact ⟨hfs, h⟩
    · exact ⟨hfs, h⟩

/-- A file with nothing in it, or none, is not changed. -/
theorem truncate_grows {l : Place FileName}
    (hempty : ∀ content, s.nodeAt l = some (.file content) → content = []) :
    s.Grows (s.truncate l) where
  toWritesNothing := truncate_writesNothing l
  node {fs q nd} _ h := by
    unfold truncate
    split
    · next m content hm hnode =>
      show (if fs = m.fs ∧ q = l.2 then some (Node.file []) else s.node fs q) = _
      split
      · -- The one file that is emptied was empty
        next hat =>
        obtain ⟨rfl, rfl⟩ := hat
        obtain rfl := hempty content hnode
        rw [nodeAt, hm, Option.bind_some, h] at hnode
        exact hnode.symm
      · exact h
    · exact h

/-- A file with something in it is emptied. -/
theorem createFile_empties {path : String} (hdata : s.HoldsData path) :
    ∃ s', s.createFile path = some s' ∧ s.WritesNothing s' ∧ ∃ fs q content, content ≠ [] ∧
      fs < s.fsCount ∧ s.node fs q = some (.file content) ∧ s'.node fs q = some (.file []) := by
  obtain ⟨l, content, ⟨k, hat⟩, hro, hnode, hne⟩ := hdata
  cases hm : s.mounts.mount l.1 with
  | none =>
    rw [nodeAt, hm] at hnode
    cases hnode
  | some m =>
    have hfile : s.node m.fs l.2 = some (.file content) := by
      rw [nodeAt, hm] at hnode
      exact hnode
    have hleaf : s.entry l = some .leaf := by
      rw [entry, MountTable.entry, hm, Option.bind_some, files, hfile]
      rfl
    refine ⟨s.truncate l, ?_, truncate_writesNothing l, m.fs, l.2, content, hne, s.fs_lt hm,
      hfile, ?_⟩
    · -- The file is a leaf, and not on a read-only mount
      rw [createFile, hat]
      refine if_pos ⟨hleaf, ?_, fun hboth => Bool.false_ne_true (hro.symm.trans hboth.2)⟩
      simp [hnode]
    · simp [truncate, hm, hnode]

/-- Only `File::create` writes to a file, where it empties it. -/
theorem next_grows {c : Call} {a : c.Answer} (ha : s.allows c a)
    (hc : ∀ path, c = .fsFileCreate path → ¬ s.HoldsData path) : s.Grows (s.next c a) := by
  rcases next_cases ha with ⟨_, _, _, _, -, hm⟩ | ⟨path, l, hev, hl, hro, heq⟩ | ⟨_, _, -, hm⟩ | he
  · obtain ⟨-, hnode, hcount, -⟩ := mountSetattr_eq_some hm
    exact .of_eq hcount hnode
  · rw [heq]
    have hcall : c = .fsFileCreate path := congrArg Interface.Event.call hev
    refine truncate_grows fun content hnode => by_contra fun hne => hc path hcall ?_
    exact ⟨l, content, hl, hro (isFile_of_nodeAt hnode), hnode, hne⟩
  · obtain ⟨-, hnode, hcount, -⟩ := pivotRoot_eq_some hm
    exact .of_eq hcount hnode
  · exact Edits.grows he

/-- Nothing is ever written to a file. -/
theorem next_writesNothing {c : Call} {a : c.Answer} (ha : s.allows c a) :
    s.WritesNothing (s.next c a) := by
  rcases next_cases ha with ⟨_, _, _, _, -, hm⟩ | ⟨_, l, -, -, -, heq⟩ | ⟨_, _, -, hm⟩ | he
  · obtain ⟨-, hnode, hcount, -⟩ := mountSetattr_eq_some hm
    exact (Grows.of_eq hcount hnode).toWritesNothing
  · rw [heq]
    exact truncate_writesNothing l
  · obtain ⟨-, hnode, hcount, -⟩ := pivotRoot_eq_some hm
    exact (Grows.of_eq hcount hnode).toWritesNothing
  · exact (Edits.grows he).toWritesNothing

/-- Each call may be refused. -/
theorem exists_allows (s : Vfs) (c : Call) : ∃ a, s.allows c a := by
  cases c with
  | fsSymlinkMetadata path => exact ⟨.error Errno.EPERM, fun heq => absurd heq (by decide)⟩
  | mount | mountSetattr | openTree | fsCreateDirAll | fsFileCreate | fsMetadata | setCurrentDir
  | pivotRoot => exact ⟨.error Errno.EPERM, trivial⟩
  | _ => exact ⟨Call.success _, trivial⟩

end Vfs

/-! ## One mount -/

namespace MountSpec

variable {s s' : Vfs} {spec : MountSpec}

/-- The state in which the mount point is made as a file, if it may come to that: the directories
    that were missing on the way have been made. -/
def fileStage (spec : MountSpec) (s : Vfs) : Option Vfs :=
  if spec.createMountpoint ∧ spec.bind ∧ ¬ HasNul spec.target ∧
      spec.source.bind (s.stat true) = some ⟨false⟩ then
    match pathParent spec.target with
    | some parent => s.createDirAll parent
    | none => some s
  else none

/-- The mount point would be made over a file with something in it. -/
def Overwrites (spec : MountSpec) (s : Vfs) : Prop :=
  ∃ s', spec.fileStage s = some s' ∧ s'.HoldsData spec.target

/-- A program that does not call `File::create`. -/
theorem ends_of_uses {α : Type} {p : Sys α}
    (hp : p.Uses fun c : Call => ∀ path, c ≠ .fsFileCreate path) :
    vfsRules.Ends s p (fun _ => s.Grows) s.Grows := by
  intro h r hl hr
  have hgrows : s.Grows (vfsRules.after s h) := by
    refine hl.preserves (J := s.Grows) (S := fun c : Call => ∀ path, c ≠ .fsFileCreate path) ?_
      (fun e he => hp.mem hr he) (.refl s)
    intro t c a hc ht ha
    exact ht.trans (Vfs.next_grows ha fun path heq => absurd heq (hc path))
  cases r <;> exact hgrows

/-- Once the target is there, only mounts are touched. -/
theorem mountAt_uses (spec : MountSpec) (target : String) :
    (spec.mountAt target).Uses (Call.within [.mount]) := by
  unfold mountAt dataArg
  refine .bind ?_ fun data => .bind (uses_sys _ rfl) fun r =>
    .bind (.mapErr (uses_check r)) fun _ => .when fun _ => mountSetattr_uses _ _ _ _
  split
  · exact .pure _
  · rw [map_eq_pure_bind]
    exact .bind (.mapErr (uses_orFail _)) fun _ => .pure _

/-- No file loses its data from then on. -/
theorem mountAt_ends (spec : MountSpec) (target : String) :
    vfsRules.Ends s (spec.mountAt target) (fun _ => s.Grows) s.Grows := by
  refine ends_of_uses ((spec.mountAt_uses target).mono fun c hc path heq => ?_)
  subst heq
  exact absurd hc (by simp [Call.within, Call.kind])

/-- It is found out whether there is a file to be bound. -/
theorem sourceIsFile_ends (spec : MountSpec) (s : Vfs) :
    vfsRules.Ends s spec.sourceIsFile
      (fun isFile s' => s' = s ∧
        (isFile = true → spec.bind ∧ spec.source.bind (s.stat true) = some ⟨false⟩))
      fun _ => False := by
  unfold sourceIsFile
  split
  · -- Only a bind with a source looks at it
    next src hbind hsource =>
    refine Ends.call fun a ha => ?_
    cases a with
    | error e => exact Ends.pure ⟨rfl, fun h => by cases h⟩
    | ok m =>
      refine Ends.pure ⟨rfl, fun hfile => ⟨hbind, ?_⟩⟩
      have hstat : s.stat true src = some m := ha
      have hdir : m.isDir = false := by simpa using hfile
      rw [hsource, Option.bind_some, hstat, ← hdir]
  · exact Ends.pure ⟨rfl, fun h => by cases h⟩

/-- Making the target keeps every file, unless there is data at the target itself. -/
theorem createTarget_ends (hcreate : spec.createMountpoint) (hnul : ¬ HasNul spec.target)
    (hno : ¬ spec.Overwrites s) :
    vfsRules.Ends s spec.createTarget (fun _ => s.Grows) s.Grows := by
  unfold createTarget
  refine Ends.bind ((spec.sourceIsFile_ends s).mono (fun isFile s' hpost => ?_) fun _ h => h.elim)
  obtain ⟨rfl, hfile⟩ := hpost
  cases isFile with
  -- A directory is made, which touches no file
  | false =>
    refine ends_of_uses (.bind (.sys (I := calls) fun path heq => by cases heq) fun r => ?_)
    exact .check _ _
  | true =>
    obtain ⟨hbind, hstat⟩ := hfile rfl
    -- once the directories on the way are there, there is no data at the target
    have hlast : ∀ t : Vfs, spec.fileStage s' = some t → s'.Grows t →
        vfsRules.Ends t (do check (← sys (.fsFileCreate spec.target))) (fun _ => s'.Grows)
          s'.Grows := by
      intro t hstage hgrows
      have hdata : ¬ t.HoldsData spec.target := fun hdata => hno ⟨t, hstage, hdata⟩
      refine Ends.call fun a ha => ?_
      have hnext : t.Grows (t.next (.fsFileCreate spec.target) a) :=
        Vfs.next_grows ha fun path heq => by cases heq; exact hdata
      exact Ends.check (fun _ _ => hgrows.trans hnext) fun _ _ => hgrows.trans hnext
    have hif : spec.createMountpoint ∧ spec.bind ∧ ¬ HasNul spec.target ∧
        spec.source.bind (s'.stat true) = some ⟨false⟩ := ⟨hcreate, hbind, hnul, hstat⟩
    rw [if_pos rfl]
    cases hparent : pathParent spec.target with
    -- The target has no parent, so it is made where it is
    | none =>
      refine hlast s' ?_ (.refl s')
      rw [fileStage, if_pos hif, hparent]
    | some parent =>
      refine Ends.bind (Ends.call fun a ha => ?_)
      -- The directories on the way are made first
      have hnext : s'.Grows (s'.next (.fsCreateDirAll parent) a) :=
        Vfs.next_grows ha fun path heq => by cases heq
      refine Ends.check (fun _ hok => ?_) fun _ _ => hnext
      subst hok
      obtain ⟨t, ht⟩ := Option.isSome_iff_exists.1 ha
      have heq : s'.next (.fsCreateDirAll parent) (.ok ()) = t := Vfs.next_of_createDirAll ht
      refine hlast _ ?_ hnext
      rw [fileStage, if_pos hif, hparent]
      exact ht.trans (congrArg some heq.symm)

/-- A mount that does not come to overwrite a file leaves the files as they are. -/
theorem mount_ends (hno : ¬ spec.Overwrites s) :
    vfsRules.Ends s spec.mount (fun _ => s.Grows) s.Grows := by
  rw [mount_eq]
  refine Ends.bind (Ends.check (fun target htarget => ?_) fun _ _ => Vfs.Grows.refl s)
  have hpoint : vfsRules.Ends s (Prog.when spec.createMountpoint spec.createTarget)
      (fun _ => s.Grows) s.Grows :=
    Ends.when (fun hcreate => createTarget_ends hcreate (not_hasNul_of_cString htarget) hno)
      fun _ => .refl s
  refine Ends.bind (hpoint.mono (fun _ s' hgrows => ?_) fun _ hgrows => hgrows)
  exact (spec.mountAt_ends target).mono (fun _ _ h => hgrows.trans h) fun _ h => hgrows.trans h

/-- The stage at which the target would be made is one that a run comes to. -/
theorem createTarget_at (hstage : spec.fileStage s = some s') :
    ∃ h, vfsRules.Lawful s h ∧ spec.createTarget.At h (.fsFileCreate spec.target) ∧
      vfsRules.after s h = s' := by
  unfold fileStage at hstage
  split at hstage
  · next hif =>
    obtain ⟨-, hbind, -, hsource⟩ := hif
    obtain ⟨src, hsource, hstat⟩ := Option.bind_eq_some_iff.1 hsource
    -- The source is found to be a file
    have hisFile : spec.sourceIsFile.Runs [⟨.fsMetadata src, .ok ⟨false⟩⟩] (.ok true) := by
      unfold sourceIsFile
      rw [hbind, hsource]
      exact .call (.refl _)
    unfold createTarget
    split at hstage
    · next parent hparent =>
      -- The parent is made, which succeeds and leads to `s'`
      have hallows : s.allows (.fsCreateDirAll parent) (.ok ()) := Option.isSome_of_eq_some hstage
      have hnext : s.next (.fsCreateDirAll parent) (.ok ()) = s' :=
        Vfs.next_of_createDirAll hstage
      refine ⟨[⟨.fsMetadata src, .ok ⟨false⟩⟩, ⟨.fsCreateDirAll parent, .ok ()⟩],
        lawful_cons.2 ⟨hstat, lawful_cons.2 ⟨hallows, lawful_nil _ _⟩⟩, ?_, hnext⟩
      rw [hparent]
      exact at_bind.2 (.inr ⟨true, _, [⟨.fsCreateDirAll parent, .ok ()⟩], hisFile,
        ⟨_, .call (.refl _)⟩, rfl⟩)
    · next hparent =>
      cases hstage
      refine ⟨[⟨.fsMetadata src, .ok ⟨false⟩⟩], lawful_cons.2 ⟨hstat, lawful_nil _ _⟩, ?_, rfl⟩
      rw [hparent]
      exact at_bind.2 (.inr ⟨true, _, [], hisFile, ⟨_, .refl _⟩, rfl⟩)
  · cases hstage

/-- There is such a stage only where a mount point was asked for, at a target without NUL bytes. -/
theorem fileStage_eq_some (hstage : spec.fileStage s = some s') :
    spec.createMountpoint ∧ ¬ HasNul spec.target := by
  unfold fileStage at hstage
  split at hstage
  · next hif => exact ⟨hif.1, hif.2.2.1⟩
  · cases hstage

/-- Where nothing is refused the mount point comes to be made as a file. -/
theorem mount_at (hstage : spec.fileStage s = some s') :
    ∃ h, vfsRules.Lawful s h ∧ spec.mount.At h (.fsFileCreate spec.target) ∧
      vfsRules.after s h = s' := by
  obtain ⟨hcreate, hnul⟩ := fileStage_eq_some hstage
  obtain ⟨h, hl, hat, hafter⟩ := createTarget_at hstage
  have hpoint : (Prog.when spec.createMountpoint spec.createTarget).At h
      (.fsFileCreate spec.target) := at_when.2 ⟨hcreate, hat⟩
  have htarget : (orFail (cString spec.target)).Runs [] (.ok spec.target) :=
    runs_orFail_ok.2 ⟨rfl, cString_of_not_nul hnul⟩
  rw [mount_eq]
  exact ⟨h, hl, at_bind.2 (.inr ⟨_, [], h, htarget, at_bind.2 (.inl hpoint), rfl⟩), hafter⟩

end MountSpec

/-! ## A list of mounts -/

section

variable {s : Vfs} {specs before rest : List MountSpec} {m : MountSpec} {h : List Event}

/-- A mount that comes to overwrite a file can do so. -/
theorem mounts_at_create (heq : specs = before ++ m :: rest) (hl : vfsRules.Lawful s h)
    (hr : (forM before MountSpec.mount).Runs h (.ok ())) {s' : Vfs}
    (hstage : m.fileStage (vfsRules.after s h) = some s') :
    ∃ h', vfsRules.Lawful s h' ∧ (forM specs MountSpec.mount).At h' (.fsFileCreate m.target) ∧
      vfsRules.after s h' = s' := by
  obtain ⟨h₂, hl₂, hat, hafter⟩ := MountSpec.mount_at hstage
  refine ⟨h ++ h₂, lawful_append.2 ⟨hl, hl₂⟩, ?_, by rw [after_append, hafter]⟩
  rw [heq, List.forM_append]
  refine at_bind.2 (.inr ⟨⟨⟩, h, h₂, hr, ?_, rfl⟩)
  rw [List.forM_cons]
  exact at_bind.2 (.inl hat)

/-- What is in the files of a process was there before. -/
theorem after_writesNothing (hl : vfsRules.Lawful s h) : s.WritesNothing (vfsRules.after s h) :=
  hl.preserves (J := s.WritesNothing) (S := fun _ => True)
    (fun _ _ _ _ ht ha => ht.trans (Vfs.next_writesNothing ha)) (fun _ _ => trivial)
    (Vfs.Grows.refl s).toWritesNothing

/-- Where a mount comes to overwrite a file, some run does so. -/
theorem exists_not_keeps (heq : specs = before ++ m :: rest) (hl : vfsRules.Lawful s h)
    (hr : (forM before MountSpec.mount).Runs h (.ok ()))
    (hover : m.Overwrites (vfsRules.after s h)) :
    ∃ h' r, vfsRules.Lawful s h' ∧ (forM specs MountSpec.mount).Runs h' r ∧
      ¬ s.Keeps (vfsRules.after s h') := by
  obtain ⟨s₁, hstage, hdata⟩ := hover
  obtain ⟨h₁, hl₁, ⟨k, hreach⟩, rfl⟩ := mounts_at_create heq hl hr hstage
  obtain ⟨s₂, hcreate, hwrites, fs, q, content, hne, hfs, hfile, hempty⟩ := Vfs.createFile_empties hdata
  -- the file was there from the beginning, and what it held is not written again
  obtain ⟨hfs₀, hfile₀⟩ := (after_writesNothing hl₁).content hfs hfile hne
  obtain ⟨h₂, r, hl₂, hr₂⟩ := exists_lawful_run (R := vfsRules) (t := s₂) Vfs.exists_allows (k (.ok ()))
  have hallows : vfsRules.allows (vfsRules.after s h₁) (.fsFileCreate m.target) (.ok ()) :=
    Option.isSome_of_eq_some hcreate
  have hnext : vfsRules.next (vfsRules.after s h₁) (.fsFileCreate m.target) (.ok ()) = s₂ :=
    Vfs.next_of_createFile hcreate
  -- The run goes on to its end in some way
  refine ⟨h₁ ++ ⟨.fsFileCreate m.target, .ok ()⟩ :: h₂, r, ?_, hreach.trans (.call hr₂), ?_⟩
  · exact lawful_append.2 ⟨hl₁, lawful_cons.2 ⟨hallows, hnext ▸ hl₂⟩⟩
  · intro hkeeps
    have hend := hkeeps fs q content hfs₀ hfile₀
    rw [after_append, after_cons, hnext] at hend
    -- What is left of the run writes nothing back
    have hrest := after_writesNothing hl₂
    have hlt : fs < (vfsRules.after s₂ h₂).fsCount :=
      Nat.lt_of_lt_of_le (Nat.lt_of_lt_of_le hfs hwrites.fsCount) hrest.fsCount
    obtain ⟨-, hfile₂⟩ := hrest.content hlt hend hne
    rw [hempty] at hfile₂
    cases hfile₂
    exact hne rfl

/-- The mounts leave every regular file as it was, whatever happens, exactly if none comes up that
    would make its mount point over a file with something in it. -/
theorem mounts_keep_files_iff (s : Vfs) (specs : List MountSpec) :
    (∀ h r, vfsRules.Lawful s h → (forM specs MountSpec.mount).Runs h r →
      s.Keeps (vfsRules.after s h)) ↔
    ∀ before m rest h, specs = before ++ m :: rest → vfsRules.Lawful s h →
      (forM before MountSpec.mount).Runs h (.ok ()) → ¬ m.Overwrites (vfsRules.after s h) := by
  constructor
  · intro hkeeps before m rest h heq hl hr hover
    obtain ⟨h', r, hl', hr', hno⟩ := exists_not_keeps heq hl hr hover
    exact hno (hkeeps h' r hl' hr')
  · intro hno h r hl hr
    have hends : vfsRules.Ends s (forM specs MountSpec.mount) (fun _ => s.Grows) s.Grows := by
      refine Ends.forM_of_runs (fun before m rest h₁ heq hl₁ hr₁ hgrows => ?_) (.refl s)
      exact (MountSpec.mount_ends (hno before m rest h₁ heq hl₁ hr₁)).mono
        (fun _ _ h => hgrows.trans h) fun _ h => hgrows.trans h
    have hpost := hends h r hl hr
    cases r with
    | ok u => exact hpost.keeps
    | err e => exact hpost.keeps
    | halt n => exact hpost.keeps

end

/-- A host with a file of one byte. -/
def hostWithData : Vfs := Vfs.host fun q =>
  if q = [] then some .dir else if q = ["data".toList] then some (.file [42]) else none

/-- Binds the file, and makes the mount point. -/
def bindData (target : String) : MountSpec :=
  { (default : MountSpec) with
    source := some "/data", target := target, bind := true, createMountpoint := true }

/-- A file that is bound where there is one empties that. -/
theorem mounts_empty_file : ¬ ∀ h r, vfsRules.Lawful hostWithData h →
    (forM [bindData "/data"] MountSpec.mount).Runs h r →
    hostWithData.Keeps (vfsRules.after hostWithData h) := by
  intro hkeeps
  have hover : (bindData "/data").Overwrites hostWithData :=
    ⟨_, rfl, (0, ["data".toList]), [42], ⟨40, rfl⟩, rfl, rfl, by decide⟩
  have heq : [bindData "/data"] = [] ++ bindData "/data" :: [] := rfl
  obtain ⟨h, r, hl, hr, hno⟩ := exists_not_keeps heq (lawful_nil _ _) (.refl _) hover
  exact hno (hkeeps h r hl hr)

end Styrolite
