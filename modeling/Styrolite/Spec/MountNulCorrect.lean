import Styrolite.Spec.MountpointCorrect

/-!
# Mounts with an unusable string

A target with a NUL byte is refused first. Mount data with one is refused only
once the mount point has been made, and a source or a file-system type with one is
mounted as the empty string. So such a mount is rejected before anything changes
just if nothing is made for it, and it cannot come to `mount(2)`
(`MountSpec.rejected_iff`).
-/

namespace Styrolite

open Prog LocalRules

/-- `fs::create_dir_all` changes nothing, whether it is refused on the way or not. -/
def Vfs.Settled (s : Vfs) (path : String) : Prop :=
  s.makeDirs path s.headway = s ∧ ∀ t, s.createDirAll path = some t → t = s

namespace MountSpec

variable {s : Vfs} {spec : MountSpec}

/-- A string of the specification has a NUL byte. -/
def HasNulString (spec : MountSpec) : Prop :=
  HasNul spec.target ∨ (∃ source, spec.source = some source ∧ HasNul source) ∨
    (∃ fstype, spec.fstype = some fstype ∧ HasNul fstype) ∨
    ∃ data, spec.data = some data ∧ HasNul data

def HasNulData (spec : MountSpec) : Prop := ∃ data, spec.data = some data ∧ HasNul data

/-- The mount fails without a mount call, and has changed nothing. -/
structure Rejected (spec : MountSpec) (s : Vfs) : Prop where
  fails : ∀ h r, vfsRules.Lawful s h → spec.mount.Runs h r → ∃ e, r = .err e
  noMount : ∀ h source target fstype flags data, vfsRules.Lawful s h →
    ¬ spec.mount.At h (.mount source target fstype flags data)
  unchanged : ∀ h r, vfsRules.Lawful s h → spec.mount.Runs h r → vfsRules.after s h = s

/-- What is to be bound is a file. -/
def BindsFile (spec : MountSpec) (s : Vfs) : Prop :=
  spec.bind = true ∧ spec.source.bind (s.stat true) = some ⟨false⟩

/-- Each directory on the way to the mount point is there, and so is the mount point, with nothing
    in it where a file is to be bound. -/
structure Idle (spec : MountSpec) (s : Vfs) : Prop where
  dir : s.Settled spec.target
  parent : spec.BindsFile s → ∀ p, pathParent spec.target = some p → s.Settled p
  file : spec.BindsFile s → (∀ p, pathParent spec.target = some p → (s.createDirAll p).isSome) →
    ∀ t, s.createFile spec.target = some t → t = s

/-- The mount point is there, or can be made. -/
def CanMake (spec : MountSpec) (s : Vfs) : Prop :=
  (s.createDirAll spec.target).isSome ∨ spec.BindsFile s ∧
    (∀ p, pathParent spec.target = some p → (s.createDirAll p).isSome) ∧
    (s.createFile spec.target).isSome

/-! ## Making the mount point -/

section

variable {A : Unit → Vfs → Prop} {B : Vfs → Prop}

theorem ends_createDirAll {path : String} :
    vfsRules.Ends s (do check (← sys (.fsCreateDirAll path))) A B ↔
      B (s.makeDirs path s.headway) ∧ ∀ t, s.createDirAll path = some t → A () t := by
  constructor
  · intro hends
    -- Any error may come, and success where the directories can be made
    have hends := ends_call.1 hends
    refine ⟨ends_fail.1 (hends (.error Errno.EPERM) trivial), fun t ht => ?_⟩
    have hok := ends_pure.1 (hends (.ok ()) (Option.isSome_of_eq_some ht))
    have hnext : vfsRules.next s (.fsCreateDirAll path) (.ok ()) = t := Vfs.next_of_createDirAll ht
    rwa [hnext] at hok
  · rintro ⟨herr, hok⟩
    refine Ends.call fun a ha => Ends.check (fun u hu => ?_) fun e he => ?_
    · subst hu
      obtain ⟨t, ht⟩ := Option.isSome_iff_exists.1 ha
      have hnext : vfsRules.next s (.fsCreateDirAll path) (.ok ()) = t :=
        Vfs.next_of_createDirAll ht
      rw [hnext]
      exact hok t ht
    · subst he
      exact herr

theorem ends_createFile {path : String} :
    vfsRules.Ends s (do check (← sys (.fsFileCreate path))) A B ↔
      B s ∧ ∀ t, s.createFile path = some t → A () t := by
  constructor
  · intro hends
    -- Any error may come, and success where the file can be made
    have hends := ends_call.1 hends
    refine ⟨ends_fail.1 (hends (.error Errno.EPERM) trivial), fun t ht => ?_⟩
    have hok := ends_pure.1 (hends (.ok ()) (Option.isSome_of_eq_some ht))
    have hnext : vfsRules.next s (.fsFileCreate path) (.ok ()) = t := Vfs.next_of_createFile ht
    rwa [hnext] at hok
  · rintro ⟨herr, hok⟩
    refine Ends.call fun a ha => Ends.check (fun u hu => ?_) fun e he => ?_
    · subst hu
      obtain ⟨t, ht⟩ := Option.isSome_iff_exists.1 ha
      have hnext : vfsRules.next s (.fsFileCreate path) (.ok ()) = t :=
        Vfs.next_of_createFile ht
      rw [hnext]
      exact hok t ht
    · subst he
      exact herr

/-- A source that is a file may also not be readable. -/
theorem ends_sourceIsFile {A : Bool → Vfs → Prop} : vfsRules.Ends s spec.sourceIsFile A B ↔
    A false s ∧ (spec.BindsFile s → A true s) := by
  -- Only a bind looks at its source
  have hno : (∀ source, ¬ (spec.bind = true ∧ spec.source = some source)) →
      spec.sourceIsFile = pure false := by
    intro hno
    unfold sourceIsFile
    split
    · next source hbind hsource => exact absurd ⟨hbind, hsource⟩ (hno source)
    · rfl
  by_cases hfile : ∃ source, spec.bind = true ∧ spec.source = some source
  · obtain ⟨source, hbind, hsource⟩ := hfile
    have hbinds : spec.BindsFile s ↔ s.stat true source = some ⟨false⟩ := by
      rw [BindsFile, hsource]
      exact and_iff_right hbind
    unfold sourceIsFile
    rw [hbind, hsource, hbinds]
    refine ends_call.trans ⟨fun hall => ⟨?_, fun hstat => ?_⟩, ?_⟩
    · exact ends_pure.1 (hall (.error Errno.EPERM) trivial)
    · exact ends_pure.1 (hall (.ok ⟨false⟩) hstat)
    · -- `metadata` may fail, which counts as no file
      rintro ⟨hdir, hisFile⟩ a ha
      cases a with
      | error e => exact ends_pure.2 hdir
      | ok m =>
        refine ends_pure.2 ?_
        cases hm : m.isDir with
        | true => exact hdir
        | false => exact hisFile (ha.trans (congrArg some (by cases m; cases hm; rfl)))
  · rw [not_exists] at hfile
    rw [hno hfile, ends_pure]
    refine ⟨fun hA => ⟨hA, fun hbinds => ?_⟩, And.left⟩
    obtain ⟨source, hsource, -⟩ := Option.bind_eq_some_iff.1 hbinds.2
    exact absurd ⟨hbinds.1, hsource⟩ (hfile source)

/-- The mount point is made as a directory, or, where a file is to be bound, as a file. -/
theorem ends_createTarget : vfsRules.Ends s spec.createTarget A B ↔
    (B (s.makeDirs spec.target s.headway) ∧ ∀ t, s.createDirAll spec.target = some t → A () t) ∧
    (spec.BindsFile s →
      (∀ p, pathParent spec.target = some p → B (s.makeDirs p s.headway) ∧
        ∀ t, s.createDirAll p = some t →
          B t ∧ ∀ t', t.createFile spec.target = some t' → A () t') ∧
      (pathParent spec.target = none →
        B s ∧ ∀ t', s.createFile spec.target = some t' → A () t')) := by
  unfold createTarget
  rw [ends_bind, ends_sourceIsFile]
  refine and_congr ?_ (forall_congr' fun _ => ?_)
  · rw [if_neg Bool.false_ne_true]
    exact ends_createDirAll
  · rw [if_pos rfl, ends_bind]
    -- For a file the parent is made first, if there is one
    cases hparent : pathParent spec.target with
    | none =>
      rw [Prog.whenSome, ends_pure, ends_createFile]
      simp
    | some p =>
      rw [Prog.whenSome, ends_createDirAll]
      constructor
      · rintro ⟨herr, hok⟩
        refine ⟨fun q hq => ?_, fun hnone => by cases hnone⟩
        cases hq
        exact ⟨herr, fun t ht => ends_createFile.1 (hok t ht)⟩
      · rintro ⟨hall, -⟩
        obtain ⟨herr, hok⟩ := hall p rfl
        exact ⟨herr, fun t ht => ends_createFile.2 (hok t ht)⟩

end

/-! ## The mount call -/

theorem mountAt_of_nul (hdata : spec.HasNulData) (target : String) :
    ∃ e, spec.mountAt target = Prog.fail e := by
  obtain ⟨data, hsome, hnul⟩ := hdata
  rw [mountAt, dataArg, hsome]
  dsimp only
  rw [cString_of_nul hnul]
  exact ⟨_, rfl⟩

/-- Without a NUL byte in the data the mount call is made. -/
theorem mountAt_of_not_nul (hdata : ¬ spec.HasNulData) (target : String) :
    ∃ data, (spec.mountAt target).At []
      (.mount spec.sourceArg target spec.fstypeArg spec.mountFlags data) := by
  cases hsome : spec.data with
  | none =>
    rw [mountAt, dataArg, hsome]
    exact ⟨none, _, .refl _⟩
  | some data =>
    have hnul : ¬ HasNul data := fun hnul => hdata ⟨data, hsome, hnul⟩
    rw [mountAt, dataArg, hsome]
    dsimp only
    rw [cString_of_not_nul hnul]
    exact ⟨some data, _, .refl _⟩

theorem createTarget_returns (spec : MountSpec) : spec.createTarget.Returns := by
  unfold createTarget sourceIsFile
  refine .bind ?_ fun isFile => ?_
  · split
    · refine .bind (.sys (I := calls) _) fun r => ?_
      cases r with
      | ok m => exact .pure _
      | error e => exact .pure _
    · exact .pure _
  · split
    · refine .bind (.whenSome fun _ _ => .bind (.sys (I := calls) _) fun _ => .check _ _) fun _ => ?_
      exact .bind (.sys (I := calls) _) fun _ => .check _ _
    · exact .bind (.sys (I := calls) _) fun _ => .check _ _

theorem mount_returns (spec : MountSpec) : spec.mount.Returns := by
  rw [mount_eq]
  refine .bind (.check _ _) fun target => .bind (.when fun _ => spec.createTarget_returns) fun _ => ?_
  unfold mountAt dataArg mountSetattr
  refine .bind ?_ fun data => .bind (.sys (I := calls) _) fun _ => .bind (.mapErr (.check _ _)) fun _ =>
    .when fun _ => .bind (.check _ _) fun _ => .bind (.sys (I := calls) _) fun _ => .check _ _
  split
  · exact .pure _
  · rw [map_eq_pure_bind]
    exact .bind (.mapErr (.check _ _)) fun _ => .pure _

/-- The mount is rejected if its data are, once the mount point has been made without a trace. -/
theorem rejected_iff_ends (htarget : ¬ HasNul spec.target) : spec.Rejected s ↔
    vfsRules.Ends s (Prog.when spec.createMountpoint spec.createTarget)
      (fun _ t => t = s ∧ spec.HasNulData) fun t => t = s := by
  have hmount : spec.mount =
      (Prog.when spec.createMountpoint spec.createTarget >>= fun _ => spec.mountAt spec.target) := by
    rw [mount_eq, cString_of_not_nul htarget]
    rfl
  have hreturns : (Prog.when spec.createMountpoint spec.createTarget).Returns :=
    .when fun _ => spec.createTarget_returns
  constructor
  · intro hrej h r hl hr
    cases r with
    | ok u =>
      -- Good data would get the mount to `mount(2)`
      have hdata : spec.HasNulData := by
        by_contra hdata
        obtain ⟨data, hat⟩ := mountAt_of_not_nul hdata spec.target
        have hcall : spec.mount.At h
            (.mount spec.sourceArg spec.target spec.fstypeArg spec.mountFlags data) := by
          rw [hmount]
          exact at_bind.2 (.inr ⟨u, h, [], hr, hat, (List.append_nil h).symm⟩)
        exact hrej.noMount h _ _ _ _ data hl hcall
      -- So the mount ends in an error after the same calls
      obtain ⟨e, hfail⟩ := mountAt_of_nul hdata spec.target
      have hrun : spec.mount.Runs (h ++ []) (.err e) := by
        rw [hmount]
        refine hr.bind ?_
        rw [hfail]
        exact .refl _
      rw [List.append_nil] at hrun
      exact ⟨hrej.unchanged h _ hl hrun, hdata⟩
    | err e =>
      refine hrej.unchanged h (.err e) hl ?_
      rw [hmount]
      exact hr.bind_err _
    | halt n => exact absurd hr (hreturns h n)
  · intro hends
    -- The mount point takes no call of `mount(2)`, and after it the data stop the mount
    have hat (h : List Event) (c : Call) (hl : vfsRules.Lawful s h) (hc : c.kind = .mount) :
        ¬ spec.mount.At h c := by
      intro hat
      rw [hmount] at hat
      have huses : Uses (Call.within [.file])
          (Prog.when spec.createMountpoint spec.createTarget) := .when fun _ => spec.createTarget_uses
      obtain ⟨u, h₁, h₂, hr, hat₂, rfl⟩ := at_bind_right huses (by simp [Call.within, hc]) hat
      obtain ⟨-, hdata⟩ := hends h₁ (.ok u) (lawful_append.1 hl).1 hr
      obtain ⟨e, hfail⟩ := mountAt_of_nul hdata spec.target
      rw [hfail] at hat₂
      exact at_fail hat₂
    -- Every end is an error in the same state
    have hboth : vfsRules.Ends s spec.mount (fun _ _ => False) fun t => t = s := by
      rw [hmount]
      refine .bind (hends.mono (fun _ t hpost => ?_) fun _ heq => heq)
      obtain ⟨e, hfail⟩ := mountAt_of_nul hpost.2 spec.target
      rw [hfail]
      exact .fail hpost.1
    refine ⟨fun h r hl hr => ?_, fun h _ _ _ _ _ hl => hat h _ hl rfl, fun h r hl hr => ?_⟩
    · cases r with
      | ok u => exact (hboth h _ hl hr).elim
      | err e => exact ⟨e, rfl⟩
      | halt n => exact absurd hr (spec.mount_returns h n)
    · cases r with
      | ok u => exact (hboth h _ hl hr).elim
      | err e => exact hboth h _ hl hr
      | halt n => exact hboth h _ hl hr

/-- The mount point is made without a trace, in every way it may be, and then the data are bad. -/
theorem ends_createTarget_idle : vfsRules.Ends s spec.createTarget
      (fun _ t => t = s ∧ spec.HasNulData) (fun t => t = s) ↔
    spec.Idle s ∧ (spec.HasNulData ∨ ¬ spec.CanMake s) := by
  rw [ends_createTarget]
  constructor
  · rintro ⟨⟨herr, hok⟩, hfile⟩
    -- Made as a directory, as a parent and as a file: each without a trace
    refine ⟨⟨⟨herr, fun t ht => (hok t ht).1⟩, fun hbinds p hp => ?_, fun hbinds hparent t ht => ?_⟩,
      ?_⟩
    · obtain ⟨herr, hok⟩ := (hfile hbinds).1 p hp
      exact ⟨herr, fun t ht => (hok t ht).1⟩
    · cases hp : pathParent spec.target with
      | none => exact (((hfile hbinds).2 hp).2 t ht).1
      | some p =>
        obtain ⟨t₀, ht₀⟩ := Option.isSome_iff_exists.1 (hparent p hp)
        obtain ⟨rfl, hlast⟩ := ((hfile hbinds).1 p hp).2 t₀ ht₀
        exact (hlast t ht).1
    · -- If one of the ways can be gone to the end, the data are looked at
      by_contra hno
      rw [not_or, not_not] at hno
      obtain ⟨hdata, hmake⟩ := hno
      rcases hmake with hdir | ⟨hbinds, hparent, hcreate⟩
      · obtain ⟨t, ht⟩ := Option.isSome_iff_exists.1 hdir
        exact hdata (hok t ht).2
      · obtain ⟨t, ht⟩ := Option.isSome_iff_exists.1 hcreate
        cases hp : pathParent spec.target with
        | none => exact hdata (((hfile hbinds).2 hp).2 t ht).2
        | some p =>
          obtain ⟨t₀, ht₀⟩ := Option.isSome_iff_exists.1 (hparent p hp)
          obtain ⟨rfl, hlast⟩ := ((hfile hbinds).1 p hp).2 t₀ ht₀
          exact hdata (hlast t ht).2
  · rintro ⟨⟨⟨herr, hok⟩, hparent, hfile⟩, hmake⟩
    -- Conversely any way that is gone to the end shows that the data are bad
    have hdata (hcan : spec.CanMake s) : spec.HasNulData :=
      hmake.resolve_right (not_not.2 hcan)
    refine ⟨⟨herr, fun t ht => ⟨hok t ht, hdata (.inl (ht ▸ rfl))⟩⟩, fun hbinds => ⟨?_, ?_⟩⟩
    · intro p hp
      obtain ⟨herr, hok⟩ := hparent hbinds p hp
      refine ⟨herr, fun t ht => ?_⟩
      obtain rfl := hok t ht
      have hall : ∀ q, pathParent spec.target = some q → (t.createDirAll q).isSome := by
        intro q hq
        rw [hp] at hq
        cases hq
        rw [ht]
        rfl
      exact ⟨rfl, fun u hu => ⟨hfile hbinds hall u hu, hdata (.inr ⟨hbinds, hall, hu ▸ rfl⟩)⟩⟩
    · intro hp
      have hall : ∀ q, pathParent spec.target = some q → (s.createDirAll q).isSome := by
        intro q hq
        rw [hp] at hq
        cases hq
      exact ⟨rfl, fun u hu => ⟨hfile hbinds hall u hu, hdata (.inr ⟨hbinds, hall, hu ▸ rfl⟩)⟩⟩

/-- A mount is rejected before anything changes exactly if its target has a NUL byte, or nothing is
    made for it and its data have one or its mount point cannot be made. -/
theorem rejected_iff (spec : MountSpec) (s : Vfs) : spec.Rejected s ↔ HasNul spec.target ∨
    (spec.createMountpoint = false ∧ spec.HasNulData) ∨
    (spec.createMountpoint = true ∧ spec.Idle s ∧ (spec.HasNulData ∨ ¬ spec.CanMake s)) := by
  by_cases htarget : HasNul spec.target
  · refine iff_of_true ?_ (.inl htarget)
    have hmount : spec.mount = Prog.fail .nul := CreateRequest.mount_of_nul htarget
    refine ⟨fun h r _ hr => ?_, fun h _ _ _ _ _ _ hat => ?_, fun h r _ hr => ?_⟩
    · rw [hmount] at hr
      exact ⟨_, (runs_fail.1 hr).2⟩
    · rw [hmount] at hat
      exact at_fail hat
    · rw [hmount] at hr
      rw [(runs_fail.1 hr).1, after_nil]
  · rw [rejected_iff_ends htarget, or_iff_right htarget]
    cases hcreate : spec.createMountpoint with
    | false =>
      rw [Prog.when, if_neg Bool.false_ne_true, ends_pure]
      simp
    | true =>
      rw [Prog.when, if_pos rfl, ends_createTarget_idle]
      simp

/-- A source with a NUL byte is bound as the empty string. -/
theorem not_rejected_source : ¬ ∀ (spec : MountSpec) (s : Vfs), spec.HasNulString →
    spec.Rejected s := by
  intro hall
  have hrej := hall
    { (default : MountSpec) with source := some "\x00", target := "/", bind := true }
    (Vfs.host fun _ => none) (.inr (.inl ⟨_, rfl, by decide⟩))
  exact hrej.noMount [] (some "") "/" none (MS_SILENT ||| MS_BIND) none (lawful_nil _ _)
    ⟨_, .refl _⟩

end MountSpec

end Styrolite
