import Styrolite.Spec.MaskCorrect
import Styrolite.Spec.ValidateCorrect

/-!
# The workload stays in its root

After the pivot the working directory of the child is in the tree of mounts that its
new root directory begins. No path leads out of a tree that one is in
(`Vfs.Enclosed.resolve`), and no call that takes a path, but `pivot_root`, moves a
process out of it (`Vfs.Enclosed.next`). So neither what styrolite does between the
pivot and the workload nor what the workload does with paths brings it back to the
host's root.

A path goes through directories, mounts and symbolic links with a text here. The
links of `/proc` that stand for a file of another process, such as `/proc/1/root`,
do lead out where the container sees the host's processes, and so do an inherited
descriptor of a directory and `setns`. None of these is covered, nor is a mount that
is moved or taken away.

## Key results

- `CreateRequest.wrap_enclosed`: the workload cannot leave its root by a path
-/

namespace Styrolite

open Prog LocalRules

namespace Vfs

variable {s s' : Vfs} {c : Call} {a : c.Answer}

/-- The process is in the tree of mounts that its root directory begins. -/
def Enclosed (s : Vfs) : Prop := s.mounts.Within s.root s.cwd

/-- No path leads out of it. -/
theorem Enclosed.resolve (h : s.Enclosed) {follow : Bool} {path : String} {l : Place FileName}
    {k : Nat} (hl : s.resolve follow path = .at l k) : s.mounts.Within s.root l := by
  -- The walk starts within the root directory, and `..` does not lead out of that
  have hjail : (s.space s.root).Jail (s.space s.root) (s.mounts.leaves s.root)
      fun x => s.mounts.Has x ∧ s.mounts.Within s.root x :=
    MountTable.jail (fun _ => rfl) s.has_root
  have hstart : s.mounts.Has (s.start path) ∧ s.mounts.Within s.root (s.start path) := by
    refine ⟨s.has_start path, ?_⟩
    unfold start
    split
    · exact MountTable.within_self _
    · exact h
  unfold Vfs.resolve at hl
  split at hl
  · cases hl
  · have hin : ((s.space s.root).walk follow MAXSYMLINKS (s.start path) (steps path)).Within
        fun x => s.mounts.Has x ∧ s.mounts.Within s.root x := hjail.walk_within hstart
    rw [hl] at hin
    exact hin.2

/-! ## The working directory -/

/-- Attaching a file system leaves the working directory. -/
theorem attach_cwd (fs : Nat) (root : List FileName) (dst : Place FileName) (ro : Bool) :
    (s.attach fs root dst ro).cwd = s.cwd := by
  unfold attach
  split <;> rfl

/-- So does `mount(2)`. -/
theorem mount_cwd {source fstype data : Option String} {target : String} {flags : U64}
    (hm : s.mount source target fstype flags data = some s') : s'.cwd = s.cwd := by
  obtain ⟨y, -, ⟨-, src, x, -, -, rfl⟩ | ⟨-, -, rfl⟩ | ⟨-, -, rfl⟩⟩ := mount_cases hm
  · split
    · rfl
    · unfold bind
      split
      · exact attach_cwd _ _ _ _
      · rfl
  · rfl
  · unfold mountNew
    split
    · exact attach_cwd _ _ _ _
    · exact attach_cwd _ _ _ _

/-- So does `mount_setattr(2)`. -/
theorem mountSetattr_cwd {dir : DirFd} {path : String} {flags : CInt} {attr : MountAttr}
    (hm : s.mountSetattr dir path flags attr = some s') : s'.cwd = s.cwd := by
  unfold mountSetattr at hm
  split at hm
  · split at hm
    · cases hm
      rfl
    · cases hm
  · cases hm

/-- So does `open_tree(2)`. -/
theorem openTree_cwd {path : String} {fd : Nat} (hm : s.openTree path fd = some s') :
    s'.cwd = s.cwd := by
  unfold openTree at hm
  split at hm
  · cases hm
    rfl
  · cases hm

/-- So does making a node. -/
theorem create_cwd (dir : Place FileName) (name : FileName) (nd : Node) :
    (s.create dir name nd).cwd = s.cwd := by
  unfold create
  split <;> rfl

/-- So does `mkdir`. -/
theorem mkdir_cwd (l : Place FileName) (cs : List (Component FileName)) :
    (s.mkdir l cs).cwd = s.cwd := by
  unfold mkdir
  split
  · split
    · rfl
    · exact create_cwd _ _ _
  · rfl

/-- So does making one directory after the other. -/
theorem makeDirs_cwd (path : String) (n : Nat) : (s.makeDirs path n).cwd = s.cwd := by
  unfold makeDirs
  split
  · rfl
  · generalize (dirSteps path).inits.take n = css
    have hfold : ∀ t : Vfs, t.cwd = s.cwd →
        (css.foldl (fun t cs => t.mkdir (s.start path) cs) t).cwd = s.cwd := by
      induction css with
      | nil => exact fun t ht => ht
      | cons cs css ih => exact fun t ht => ih _ ((mkdir_cwd _ cs).trans ht)
    exact hfold s rfl

/-- So does `File::create`. -/
theorem createFile_cwd {path : String} (hm : s.createFile path = some s') : s'.cwd = s.cwd := by
  unfold createFile at hm
  split at hm
  · split at hm
    · cases hm
    · cases hm
      exact create_cwd _ _ _
  · split at hm
    · cases hm
      unfold truncate
      split <;> rfl
    · cases hm
  · cases hm

/-- A call other than `pivot_root` moves a process only to where a path leads. -/
theorem next_cwd (ha : s.allows c a) (hc : ∀ newRoot putOld, c ≠ .pivotRoot newRoot putOld) :
    (s.next c a).cwd = s.cwd ∨ ∃ path, s.Leads path (s.next c a).cwd := by
  have hget : ∀ {o : Option Vfs}, o.isSome → o = some (o.getD s) := by
    intro o ho
    cases o with
    | none => cases ho
    | some s' => rfl
  -- By the call: each that succeeds leaves the directory or goes to one that a path leads to
  unfold allows at ha
  unfold next
  split
  · exact .inl (mount_cwd (hget ha))
  · exact .inl (mountSetattr_cwd (hget ha))
  · exact .inl (openTree_cwd (hget ha))
  · rw [createDirAll_eq_some (hget ha)]
    exact .inl (makeDirs_cwd _ _)
  · exact .inl (makeDirs_cwd _ _)
  · exact .inl (createFile_cwd (hget ha))
  · obtain ⟨l, hleads, -, hcwd, -⟩ := setCurrentDir_eq_some (hget ha)
    rw [hcwd]
    exact .inr ⟨_, hleads⟩
  · exact absurd rfl (hc _ _)
  · exact .inl rfl

/-- A process that is enclosed stays so, whatever it calls but `pivot_root`. -/
theorem Enclosed.next (h : s.Enclosed) (ha : s.allows c a)
    (hc : ∀ newRoot putOld, c ≠ .pivotRoot newRoot putOld) : (s.next c a).Enclosed := by
  obtain ⟨hext, hroot⟩ := next_extends ha hc
  have hwithin : s.mounts.Has (s.next c a).cwd ∧ s.mounts.Within s.root (s.next c a).cwd := by
    rcases next_cwd ha hc with hcwd | ⟨path, k, hk⟩
    · rw [hcwd]
      exact ⟨s.has_cwd, h⟩
    · exact ⟨Leads.place ⟨k, hk⟩ |>.1, h.resolve hk⟩
  rw [Enclosed, hroot]
  exact (hext.within hwithin.1.lt).2 hwithin.2

end Vfs

/-! ## The pivot -/

section

variable {s : Vfs} {h h' : List Event}

/-- The call may move the process out of its root. -/
def Call.Pivots (c : Call) : Prop := ∃ newRoot putOld, c = .pivotRoot newRoot putOld

/-- None of the events is a `pivot_root`. -/
def Pivotless (h : List Event) : Prop := ∀ e ∈ h, ¬ e.call.Pivots

/-- The empty history has no pivot. -/
theorem pivotless_nil : Pivotless [] := List.forall_mem_nil _

/-- Two histories without a pivot have none together. -/
theorem pivotless_append : Pivotless (h ++ h') ↔ Pivotless h ∧ Pivotless h' :=
  List.forall_mem_append

/-- A history has no pivot if neither its first call nor the rest is one. -/
theorem pivotless_cons {e : Event} : Pivotless (e :: h) ↔ ¬ e.call.Pivots ∧ Pivotless h :=
  List.forall_mem_cons

/-- A call of another kind does not pivot. -/
theorem not_pivots_of_kind {c : Call} (hc : c.kind ≠ .pivot) : ¬ c.Pivots := by
  rintro ⟨newRoot, putOld, rfl⟩
  exact hc rfl

/-- The flags of `mount(2)` that there are rules for. -/
def MS_KNOWN : U64 := MS_BIND ||| MS_REC ||| MS_PRIVATE ||| MS_SILENT

/-- The calls on files, and on mounts those that add some or change their attributes. -/
def Call.onPaths : Call → Bool
  | .mount _ _ _ flags _ => flags &&& ~~~MS_KNOWN = 0
  | .openTree _ _ | .mountSetattr _ _ _ _ => true
  | c => c.kind = .file

/-- A call on paths is of another kind than the pivot. -/
theorem Call.kind_of_onPaths {c : Call} (hc : c.onPaths = true) : c.kind ≠ .pivot := by
  intro hk
  unfold onPaths at hc
  split at hc
  · cases hk
  · cases hk
  · cases hk
  · rw [hk] at hc
    cases hc

/-- A program without such calls does not pivot. -/
theorem pivotless_of_reaches {α : Type} {p q : Sys α} {ks : List Call.Kind}
    (hp : p.Uses (Call.within ks)) (hks : .pivot ∉ ks) (hr : p.Reaches h q) : Pivotless h := by
  intro e he
  have hin : e.call.kind ∈ ks := hp.mem (e := e) hr he
  exact not_pivots_of_kind fun heq => hks (heq ▸ hin)

/-- Without a `pivot_root` the root directory stays, and mounts are only added. -/
theorem Pivotless.after (hh : Pivotless h) (hl : vfsRules.Lawful s h) :
    (vfsRules.after s h).root = s.root ∧ s.mounts.Extends (vfsRules.after s h).mounts := by
  refine hl.preserves (J := fun t : Vfs => t.root = s.root ∧ s.mounts.Extends t.mounts)
    (S := fun c : Call => ¬ c.Pivots) ?_ (fun e he => hh e he) ⟨rfl, Nat.le_refl _, fun _ => rfl⟩
  rintro t c a hc ⟨hroot, hext⟩ ha
  obtain ⟨hext', hroot'⟩ := Vfs.next_extends ha fun newRoot putOld heq => hc ⟨newRoot, putOld, heq⟩
  refine ⟨hroot'.trans hroot, Nat.le_trans hext.size hext'.size, fun hn => ?_⟩
  exact (hext'.mount (Nat.lt_of_lt_of_le hn hext.size)).trans (hext.mount hn)

/-- Nothing that a process does but `pivot_root` brings it out of its root. -/
theorem Vfs.Enclosed.after (hs : s.Enclosed) (hh : Pivotless h) (hl : vfsRules.Lawful s h) :
    (vfsRules.after s h).Enclosed := by
  refine hl.preserves (J := Vfs.Enclosed) (S := fun c : Call => ¬ c.Pivots) ?_
    (fun e he => hh e he) hs
  intro t c a hc ht ha
  exact ht.next ha fun newRoot putOld heq => hc ⟨newRoot, putOld, heq⟩

/-- The call looks at mounts or files, or changes them. -/
def Call.aboutFiles : Call → Bool
  | .mount _ _ _ _ _ | .mountSetattr _ _ _ _ | .openTree _ _ | .fsCreateDirAll _ | .fsFileCreate _
  | .fsMetadata _ | .fsSymlinkMetadata _ | .setCurrentDir _ | .pivotRoot _ _ => true
  | _ => false

/-- Other calls are allowed and leave them alone. -/
theorem lawful_of_others (hh : ∀ e ∈ h, e.call.aboutFiles = false) :
    vfsRules.Lawful s h ∧ vfsRules.after s h = s := by
  -- A call that is not about files is allowed and changes nothing
  have hstep : ∀ {c : Call} {a : c.Answer}, c.aboutFiles = false →
      s.allows c a ∧ s.next c a = s := by
    intro c a hc
    constructor
    · unfold Vfs.allows
      split <;> trivial
    · unfold Vfs.next
      split <;> first | rfl | cases hc
  induction h with
  | nil => exact ⟨lawful_nil _ _, rfl⟩
  | cons e h ih =>
    obtain ⟨he, hrest⟩ := List.forall_mem_cons.1 hh
    obtain ⟨hallowed, hnext⟩ := hstep (a := e.answer) he
    change vfsRules.next s e.call e.answer = s at hnext
    rw [lawful_cons, after_cons, hnext]
    exact ⟨⟨hallowed, (ih hrest).1⟩, (ih hrest).2⟩

/-- A pivot puts the process into the new root, which is another than before. -/
theorem enclosed_after_pivotEvents {spec : MountSpec} (hl : vfsRules.Lawful s spec.pivotEvents) :
    (vfsRules.after s spec.pivotEvents).Enclosed ∧
      (vfsRules.after s spec.pivotEvents).root.1 ≠ s.root.1 ∧
      (vfsRules.after s spec.pivotEvents).mounts = s.mounts := by
  obtain ⟨l, -, hne, hin⟩ := MountSpec.after_pivotEvents hl
  rw [Vfs.Enclosed, hin.root, hin.cwd]
  exact ⟨MountTable.within_self _, hne, hin.mounts⟩

end

/-! ## The one pivot of a launch -/

namespace CreateRequest

variable {req : CreateRequest} {h : List Event} {program : String} {args env : List String}

/-- The pivot is the last that `pivot_fs` does. -/
theorem pivotFs_pivots (hr : req.pivotFs.Runs h (.ok ())) :
    ∃ root h₁, h = h₁ ++ (newroot root).pivotEvents ∧ Pivotless h₁ := by
  rw [pivotFs_phases] at hr
  obtain ⟨_, _, h₁, henter, hr₁, rfl⟩ := runs_bind_ok.1 hr
  obtain ⟨root, choosing, h₂, hchoose, hr₂, rfl⟩ := runs_bind_ok.1 hr₁
  obtain ⟨_, binding, h₃, hbind, hr₃, rfl⟩ := runs_bind_ok.1 hr₂
  obtain ⟨_, sealing, populating, hseal, hpopulate, rfl⟩ := runs_bind_ok.1 hr₃
  rw [populate_masks] at hpopulate
  obtain ⟨_, masking, h₄, hmask, hr₄, rfl⟩ := runs_bind_ok.1 hpopulate
  obtain ⟨_, hardening, pivoting, hharden, hpivot, rfl⟩ := runs_bind_ok.1 hr₄
  obtain rfl := MountSpec.pivot_runs (runs_mapErr_ok.1 hpivot)
  obtain rfl := runs_sys_ok.1 henter
  have hbound : req.bindRoot.Runs
      (⟨.enter .pivotFs, ()⟩ :: (choosing ++ (binding ++ (sealing ++ [])))) (.ok root) :=
    .call (hchoose.bind (hbind.bind (hseal.bind (runs_pure.2 ⟨rfl, rfl⟩))))
  -- No phase before the pivot has one
  have hfree := pivotless_of_reaches req.bindRoot_uses (by decide) hbound
  have hloop : (readonlyLoop root (req.readonlyPaths.getD [])).Uses
      (Call.within [.file, .mount]) := .forM fun path _ => .mapErr (makeReadonly_uses root path)
  refine ⟨root,
    ⟨.enter .pivotFs, ()⟩ :: (choosing ++ (binding ++ (sealing ++ (masking ++ hardening)))),
    by simp, ?_⟩
  simp only [pivotless_cons, pivotless_append, List.append_nil] at hfree ⊢
  exact ⟨hfree.1, hfree.2.1, hfree.2.2.1, hfree.2.2.2,
    pivotless_of_reaches (req.untilMask_uses root _) (by decide) hmask,
    pivotless_of_reaches hloop (by decide) hharden⟩

/-- On its way to the workload the child pivots exactly once. -/
theorem childMain_pivotsOnce (hat : req.childMain.At h (.execvpe program args env))
    (hm : .mount ∈ req.targetNs) : ∃ h₁ root h₂,
      h = h₁ ++ ((newroot root).pivotEvents ++ h₂) ∧ Pivotless h₁ ∧ Pivotless h₂ := by
  obtain ⟨hs, n, h', rfl, hsig, hrest⟩ := childMain_at_late hat (by simp [Call.kind, lateKinds])
  obtain ⟨hreset, hstage, rfl, hsignal, hstaged⟩ := childSignal_runs hsig
  obtain ⟨hp, ho, hc, hq, he, rfl, hpr, hor, hcr, hqr, hexec⟩ := childRest_at_exec hrest
  -- No part of the child but `pivot_fs` has a pivot
  have hsignal' := pivotless_of_reaches (orExit_uses resetChildSignalHandlers_uses) (by decide)
    hsignal
  have hor' := pivotless_of_reaches (applyOomScore_uses _) (by decide) hor
  have hcr' := pivotless_of_reaches (setupConsole_uses _) (by decide) hcr
  have hqr' := pivotless_of_reaches (preexecPrep_uses _ _) (by decide) hqr
  have hexec' : Pivotless he := by
    obtain ⟨k, hk⟩ := hexec
    exact pivotless_of_reaches req.exec.execute_uses (by decide) hk
  have hwrite : ¬ Call.Pivots (.efdWrite .parent 2) :=
    not_pivots_of_kind (by decide)
  have hread : ¬ Call.Pivots (.efdRead .child) :=
    not_pivots_of_kind (by decide)
  by_cases hskip : req.skipTwoStage = true
  · -- after the release
    obtain rfl := stage_runs_skip hskip hstaged
    obtain ⟨root, h₁, rfl, hfree⟩ :=
      pivotFs_pivots ((runs_when_ok.1 ((runs_when_ok.1 hpr).1 hskip)).1 hm)
    refine ⟨hreset ++ ⟨.efdWrite .parent 2, .ok ()⟩ :: ⟨.efdRead .child, .ok n⟩ :: h₁, root,
      ho ++ (hc ++ (hq ++ he)), by simp, ?_, ?_⟩
    · simp only [pivotless_append, pivotless_cons]
      exact ⟨hsignal', hwrite, hread, hfree⟩
    · simp only [pivotless_append]
      exact ⟨hor', hcr', hqr', hexec'⟩
  · -- before the signal
    obtain ⟨hpivot, hu, rfl, hpr', hus⟩ := stage_runs (by simpa using hskip) hstaged
    obtain ⟨root, h₁, rfl, hfree⟩ := pivotFs_pivots ((runs_when_ok.1 hpr').1 hm)
    obtain rfl := (runs_when_ok.1 hpr).2 hskip
    have hus' : Pivotless hu := by
      rw [hus]
      split
      · exact pivotless_cons.2 ⟨not_pivots_of_kind (by decide), pivotless_nil⟩
      · exact pivotless_nil
    refine ⟨hreset ++ h₁, root, hu ++ ⟨.efdWrite .parent 2, .ok ()⟩ :: ⟨.efdRead .child, .ok n⟩ ::
      (ho ++ (hc ++ (hq ++ he))), by simp, pivotless_append.2 ⟨hsignal', hfree⟩, ?_⟩
    simp only [pivotless_append, pivotless_cons]
    exact ⟨hus', hwrite, hread, hor', hcr', hqr', hexec'⟩

/-- On the way to the workload the root directory is changed once. -/
theorem wrap_pivotsOnce (hat : req.wrap.At h (.execvpe program args env))
    (hm : .mount ∈ req.targetNs) : ∃ h₁ root h₂,
      h = h₁ ++ ((newroot root).pivotEvents ++ h₂) ∧ Pivotless h₁ ∧ Pivotless h₂ := by
  have hk : (Call.execvpe program args env).kind ∈ [.exec] := by simp [Call.kind]
  obtain ⟨⟨⟩, hpro, _, hr, hat₁, rfl⟩ := req.prologue_uses.at_past (by decide) hk hat
  rcases at_sys_bind.1 hat₁ with ⟨-, hc⟩ | ⟨r, h₃, rfl, hat₂⟩
  · cases hc
  rcases r with e | child | _
  · exact absurd hat₂ at_done
  · exact absurd hat₂ ((req.supervise_uses child).not_at (by decide) hk)
  · obtain ⟨h₁, root, h₂, rfl, hfree, hfree'⟩ := childMain_pivotsOnce hat₂ hm
    refine ⟨hpro ++ ⟨.fork, .ok .child⟩ :: h₁, root, h₂, by simp, ?_, hfree'⟩
    simp only [pivotless_append, pivotless_cons]
    exact ⟨pivotless_of_reaches req.prologue_uses (by decide) hr,
      not_pivots_of_kind (by decide), hfree⟩

/-- With a mount namespace of its own the workload is in the tree of mounts that its root directory
    begins, no path leads out of that, and the root of the host is not in it. The calls on files
    that the workload itself makes, and the mounts that it adds, keep it so. -/
theorem wrap_enclosed {s₀ : Vfs} {h' : List Event} (hat : req.wrap.At h (.execvpe program args env))
    (hm : .mount ∈ req.targetNs) (hfirst : s₀.mounts.IsFirst s₀.root)
    (hl : vfsRules.Lawful s₀ (h ++ h'))
    (hpaths : ∀ e ∈ h', e.call.onPaths = true) :
    (vfsRules.after s₀ (h ++ h')).Enclosed ∧
    (∀ follow path l k, (vfsRules.after s₀ (h ++ h')).resolve follow path = .at l k →
      (vfsRules.after s₀ (h ++ h')).mounts.Within (vfsRules.after s₀ (h ++ h')).root l) ∧
    ¬ (vfsRules.after s₀ (h ++ h')).mounts.Within (vfsRules.after s₀ (h ++ h')).root s₀.root := by
  obtain ⟨h₁, root, h₂, rfl, hfree, hfree'⟩ := wrap_pivotsOnce hat hm
  -- The workload's calls on paths do not pivot either
  have hh : Pivotless h' := fun e he => not_pivots_of_kind (Call.kind_of_onPaths (hpaths e he))
  have hsplit : h₁ ++ ((newroot root).pivotEvents ++ h₂) ++ h' =
      h₁ ++ ((newroot root).pivotEvents ++ (h₂ ++ h')) := by simp
  rw [hsplit, lawful_append, lawful_append] at hl
  obtain ⟨hl₁, hpivot, hl₂⟩ := hl
  simp only [hsplit, after_append]
  -- before the pivot the root directory is that of the host
  obtain ⟨hroot₁, hext₁⟩ := hfree.after hl₁
  generalize vfsRules.after s₀ h₁ = s₁ at *
  obtain ⟨henclosed, hne, hmounts⟩ := enclosed_after_pivotEvents hpivot
  generalize vfsRules.after s₁ (newroot root).pivotEvents = s₂ at *
  -- and after it the new one
  have hfree₂ : Pivotless (h₂ ++ h') := pivotless_append.2 ⟨hfree', hh⟩
  obtain ⟨hroot₃, hext₃⟩ := hfree₂.after hl₂
  have hend := henclosed.after hfree₂ hl₂
  rw [after_append] at hroot₃ hext₃ hend
  generalize vfsRules.after (vfsRules.after s₂ h₂) h' = s₃ at *
  refine ⟨hend, fun follow path l k hl => hend.resolve hl, fun hw => hne ?_⟩
  -- The first mount is still the host's root
  have hfirst₃ : s₃.mounts.IsFirst s₀.root := by
    obtain ⟨m, hm₀, hmroot, hp⟩ := hfirst
    have hlt := (s₀.mounts.older hm₀).1
    have hm₁ := (hext₁.mount hlt).trans hm₀
    rw [← hmounts] at hm₁
    exact ⟨m, (hext₃.mount (s₂.mounts.older hm₁).1).trans hm₁, hmroot, hp⟩
  -- Were it within the new root, both would be the host's
  have heq := (hfirst₃.within_iff s₃.has_root).1 hw
  rw [← hroot₃, ← heq, hroot₁]

/-- A read-only root with a volume, in a mount namespace of its own. -/
def volumeRequest : CreateRequest :=
  { readOnlyRequest with
    exec := { (default : ExecutableSpec) with executable := some "/bin/true" }
    namespaces := some [.mount] }

/-- What its child does before the workload if every call succeeds. -/
def volumeHistory : List Event :=
  (volumeRequest.wrap.eval (answering .fork (.ok .child)) []).1.dropLast

/-- A workload that goes up from its root stays there. -/
theorem wrap_enclosed_volume :
    volumeRequest.wrap.At volumeHistory (.execvpe "/bin/true" ["/bin/true"] []) ∧
    vfsRules.Lawful (hostWithVolume false)
      (volumeHistory ++ [⟨.setCurrentDir "..", Except.ok ()⟩]) ∧
    ∀ follow path l k, (vfsRules.after (hostWithVolume false)
        (volumeHistory ++ [⟨.setCurrentDir "..", Except.ok ()⟩])).resolve follow path = .at l k →
      (vfsRules.after (hostWithVolume false)
        (volumeHistory ++ [⟨.setCurrentDir "..", Except.ok ()⟩])).mounts.Within
          (vfsRules.after (hostWithVolume false)
            (volumeHistory ++ [⟨.setCurrentDir "..", Except.ok ()⟩])).root l := by
  have hat : volumeRequest.wrap.At volumeHistory (.execvpe "/bin/true" ["/bin/true"] []) := by
    have hr := volumeRequest.wrap.eval_runs (answering .fork (.ok .child)) []
    have hlast : (volumeRequest.wrap.eval (answering .fork (.ok .child)) []).1 =
        volumeHistory ++ [⟨.execvpe "/bin/true" ["/bin/true"] [], Except.ok ()⟩] := rfl
    -- The history is the run on these answers, up to its last call
    rw [hlast] at hr
    exact hr.at_of_split
  -- before and after `pivot_fs` nothing is about mounts
  have hsplit : volumeHistory =
      volumeHistory.take 20 ++ ((volumeRun false).trace ++ volumeHistory.drop 34) := rfl
  have hl : vfsRules.Lawful (hostWithVolume false)
      (volumeHistory ++ [⟨.setCurrentDir "..", Except.ok ()⟩]) := by
    obtain ⟨hbefore, hsame⟩ := lawful_of_others (s := hostWithVolume false)
      (h := volumeHistory.take 20) (by decide +kernel)
    obtain ⟨hafter, hsame'⟩ := lawful_of_others (s := (volumeRun false).final)
      (h := volumeHistory.drop 34) (by decide +kernel)
    have hfinal := (volumeRun false).final_eq
    rw [hsplit]
    -- So the kernel may answer as it does
    simp only [lawful_append, after_append, hsame, ← hfinal, hsame']
    refine ⟨⟨hbefore, (volumeRun false).lawful, hafter⟩, lawful_cons.2 ⟨?_, lawful_nil _ _⟩⟩
    show Option.isSome _ = true
    decide +kernel
  have hfirst : (hostWithVolume false).mounts.IsFirst (hostWithVolume false).root :=
    ⟨_, rfl, rfl, rfl⟩
  have hup : ∀ e ∈ ([⟨.setCurrentDir "..", Except.ok ()⟩] : List Event), e.call.onPaths = true := by
    decide
  exact ⟨hat, hl, (wrap_enclosed hat (by decide) hfirst hl hup).2.1⟩

end CreateRequest

end Styrolite
