import Styrolite.Spec.CapabilityNames
import Styrolite.Spec.HandshakeCorrect
import Styrolite.Spec.Location

/-!
# Confinement fails closed

A workload starts only after every step that confines it has succeeded. For each
part of a `wrap` that confines, a lemma says which successful system calls its
history holds once it has ended well; `CreateRequest.Confined` collects them, in
terms of the fields of the request.

## Key results

- `MountSpec.mount_done`, `maskPath_done`, `makeReadonly_done`: what mounts leave behind
- `Capabilities.apply_done`: what `apply_capabilities` has done for the lists of names
- `CreateRequest.wrap_confined`: nothing is left out before the workload starts
-/

namespace Styrolite

open Prog Kernel

variable {h : List Event}

/-! ## Mounts -/

/-- A string that a system call is given; one with a NUL byte is given as the empty one. -/
def passed (s : String) : String := if HasNul s then "" else s

/-- An optional string is handed over as the string itself is. -/
theorem unpack_some (s : String) : unpack (some s) = passed s := by
  unfold passed
  split
  · next hs => exact unpack_of_nul hs
  · next hs => exact unpack_of_not_nul hs

/-- What the specification asks for has been mounted at the target, and if it is to be safe or
    read-only it has the attributes for that. -/
structure MountSpec.MountedAt (spec : MountSpec) (target : String) (h : List Event) : Prop where
  mounted : ∃ data, (⟨.mount (spec.source.map passed) target
    (if spec.bind then none else spec.fstype.map passed)
    (MS_SILENT ||| (if spec.bind then MS_BIND else 0) ||| (if spec.unshare then MS_PRIVATE else 0)
      ||| (if spec.recurse then MS_REC else 0)) data, .ok ()⟩ : Event) ∈ h
  attrs : spec.safe = true ∨ spec.readOnly = true →
    (⟨.mountSetattr .cwd target (if spec.recurse then AT_RECURSIVE else 0)
      { attrSet :=
          (if spec.safe then MOUNT_ATTR_NOSUID ||| MOUNT_ATTR_NODEV ||| MOUNT_ATTR_NOEXEC else 0)
            ||| (if spec.readOnly then MOUNT_ATTR_RDONLY else 0)
        attrClr := 0 }, .ok ()⟩ : Event) ∈ h

/-- The calls with their arguments worked out. -/
theorem MountSpec.MountedAt.mount_mem {spec : MountSpec} {target : String}
    (hdone : spec.MountedAt target h) {source fstype : Option String} {flags : U64}
    (hsource : spec.source.map passed = source)
    (hfstype : (if spec.bind then none else spec.fstype.map passed) = fstype)
    (hflags : MS_SILENT ||| (if spec.bind then MS_BIND else 0) |||
      (if spec.unshare then MS_PRIVATE else 0) ||| (if spec.recurse then MS_REC else 0) = flags) :
    ∃ data, (⟨.mount source target fstype flags data, .ok ()⟩ : Event) ∈ h := by
  subst hsource hfstype hflags
  exact hdone.mounted

/-- A mount that has been made has had its attributes set, if it asked for any. -/
theorem MountSpec.MountedAt.setattr_mem {spec : MountSpec} {target : String}
    (hdone : spec.MountedAt target h) (hattrs : spec.safe = true ∨ spec.readOnly = true)
    {flags : CInt} {attrSet : U64} (hflags : (if spec.recurse then AT_RECURSIVE else 0) = flags)
    (hset : (if spec.safe then MOUNT_ATTR_NOSUID ||| MOUNT_ATTR_NODEV ||| MOUNT_ATTR_NOEXEC else 0)
      ||| (if spec.readOnly then MOUNT_ATTR_RDONLY else 0) = attrSet) :
    (⟨.mountSetattr .cwd target flags { attrSet := attrSet, attrClr := 0 }, .ok ()⟩ : Event) ∈ h := by
  subst hflags hset
  exact hdone.attrs hattrs

/-- The attributes have been set, if the call has succeeded. -/
theorem mountSetattr_done {dir : DirFd} {path : String} {flags : CInt} {attr : MountAttr}
    (hr : (mountSetattr dir path flags attr).RanIn h ()) :
    (⟨.mountSetattr dir path flags attr, .ok ()⟩ : Event) ∈ h := by
  obtain ⟨cPath, hpath, hr'⟩ := hr.bind
  obtain rfl := eq_of_cString (ranIn_orFail hpath)
  obtain ⟨r, hmem, hok⟩ :=
    mem_of_checked (c := .mountSetattr dir cPath flags attr) (f := fun r => r) hr'
  rwa [hok] at hmem

namespace MountSpec

variable {spec : MountSpec}

/-- The source handed to `mount(2)`. -/
theorem sourceArg_eq : spec.sourceArg = spec.source.map passed := by
  unfold sourceArg
  cases spec.source with
  | none => rfl
  | some s => exact congrArg some (unpack_some s)

/-- The type handed to `mount(2)`: none for a bind. -/
theorem fstypeArg_eq : spec.fstypeArg = if spec.bind then none else spec.fstype.map passed := by
  unfold fstypeArg
  cases hbind : spec.bind <;> cases hfstype : spec.fstype <;> simp [unpack_some]

/-- What a mount that has succeeded leaves behind. -/
theorem mount_done (hr : spec.mount.RanIn h ()) :
    ¬ HasNul spec.target ∧ spec.MountedAt spec.target h := by
  obtain ⟨target, htarget, hr'⟩ := hr.bind
  have hnul := not_hasNul_of_cString (ranIn_orFail htarget)
  obtain rfl := eq_of_cString (ranIn_orFail htarget)
  clear hr
  obtain ⟨-, -, hr⟩ := hr'.bind
  obtain ⟨data, -, hr⟩ := hr.bind
  obtain ⟨r, hmount, hr⟩ := hr.bind
  obtain ⟨⟨⟩, hok, hattr⟩ := hr.bind
  have hmem := ranIn_sys hmount
  rw [ranIn_check hok.mapErr, sourceArg_eq, fstypeArg_eq] at hmem
  exact ⟨hnul, ⟨data, hmem⟩, fun hattrs =>
    mountSetattr_done (hattr.when (attrSet_ne_zero.2 hattrs))⟩

/-- The seal has been set on the tree at the source. -/
theorem sealMount_done (hr : spec.sealMount.RanIn h ()) :
    ∃ source fd, spec.source = some source ∧
      (⟨.openTree source OPEN_TREE_CLOEXEC, .ok fd⟩ : Event) ∈ h ∧
      (⟨.mountSetattr (.tree fd) "" AT_EMPTY_PATH { attrSet := MOUNT_ATTR_RDONLY, attrClr := 0 },
        .ok ()⟩ : Event) ∈ h := by
  unfold sealMount at hr
  cases hsource : spec.source with
  -- Without a source the function fails
  | none =>
    rw [hsource] at hr
    obtain ⟨_, -, hr⟩ := hr
    exact nomatch (runs_fail.1 hr).2
  | some source =>
    rw [hsource] at hr
    obtain ⟨fd, htree, hattr⟩ := hr.bind
    obtain ⟨cPath, hpath, hopen⟩ := htree.bind
    obtain rfl := eq_of_cString (ranIn_orFail hpath)
    obtain ⟨r, hmem, hok⟩ :=
      mem_of_checked (c := .openTree cPath OPEN_TREE_CLOEXEC) (f := fun r => r) hopen
    rw [hok] at hmem
    exact ⟨_, fd, rfl, hmem, mountSetattr_done hattr⟩

/-- The new root has been pivoted to, and the old one unmounted. -/
theorem pivot_done (hr : spec.pivot.RanIn h ()) :
    (⟨.setCurrentDir spec.target, .ok ()⟩ : Event) ∈ h ∧
      (⟨.pivotRoot "." ".", .ok ()⟩ : Event) ∈ h ∧
      (⟨.umount2 "." MNT_DETACH, .ok ()⟩ : Event) ∈ h ∧
      (⟨.setCurrentDir "/", .ok ()⟩ : Event) ∈ h := by
  obtain ⟨r₁, hcd, hr⟩ := hr.bind
  obtain ⟨⟨⟩, hok₁, hr⟩ := hr.bind
  obtain ⟨r₂, hpivot, hr⟩ := hr.bind
  obtain ⟨⟨⟩, hok₂, hr⟩ := hr.bind
  obtain ⟨r₃, humount, hr⟩ := hr.bind
  obtain ⟨⟨⟩, hok₃, hr⟩ := hr.bind
  -- Each of the four calls is checked, so each has succeeded
  obtain ⟨r₄, hcd', hok₄⟩ := mem_of_checked (c := .setCurrentDir "/") (f := fun r => r) hr
  rw [ranIn_check hok₁] at hcd
  rw [ranIn_check hok₂.mapErr] at hpivot
  rw [ranIn_check hok₃.mapErr] at humount
  rw [hok₄] at hcd'
  exact ⟨ranIn_sys hcd, ranIn_sys hpivot, ranIn_sys humount, hcd'⟩

end MountSpec

/-- The path has been masked, or was not there: a directory with an empty read-only tmpfs, anything
    else with the null device. -/
def Masked (target : String) (h : List Event) : Prop :=
  (⟨.fsSymlinkMetadata target, .error Errno.ENOENT⟩ : Event) ∈ h ∨
    ∃ m : Metadata, (⟨.fsSymlinkMetadata target, .ok m⟩ : Event) ∈ h ∧
      if m.isDir then
        (∃ data, (⟨.mount (some "tmpfs") target (some "tmpfs") MS_SILENT data, .ok ()⟩ : Event) ∈ h) ∧
        (⟨.mountSetattr .cwd target 0
          { attrSet := MOUNT_ATTR_NOSUID ||| MOUNT_ATTR_NODEV ||| MOUNT_ATTR_NOEXEC |||
              MOUNT_ATTR_RDONLY
            attrClr := 0 }, .ok ()⟩ : Event) ∈ h
      else
        ∃ data, (⟨.mount (some "/dev/null") target none (MS_SILENT ||| MS_BIND) data,
          .ok ()⟩ : Event) ∈ h

/-- The path has been made read-only, or was not there: it has been bound onto itself, with all that
    is mounted below it. -/
def MadeReadonly (target : String) (h : List Event) : Prop :=
  (⟨.fsSymlinkMetadata target, .error Errno.ENOENT⟩ : Event) ∈ h ∨
    ∃ m, (⟨.fsSymlinkMetadata target, .ok m⟩ : Event) ∈ h ∧
      (∃ data, (⟨.mount (some target) target none (MS_SILENT ||| MS_BIND ||| MS_REC) data,
        .ok ()⟩ : Event) ∈ h) ∧
      (⟨.mountSetattr .cwd target AT_RECURSIVE { attrSet := MOUNT_ATTR_RDONLY, attrClr := 0 },
        .ok ()⟩ : Event) ∈ h

/-- Both kinds of paths are looked up, and mounted over if they are there. -/
private theorem lookup_done {target : String} {mount : Metadata → Sys Unit}
    (hr : (sys (.fsSymlinkMetadata target) >>= fun r => match r with
      | .ok m => mount m
      | .error e => if e = Errno.ENOENT then pure ()
        else Prog.fail (Err.context ("stat " ++ target) (.os e))).RanIn h ()) :
    (⟨.fsSymlinkMetadata target, .error Errno.ENOENT⟩ : Event) ∈ h ∨
      ∃ m, (⟨.fsSymlinkMetadata target, .ok m⟩ : Event) ∈ h ∧ (mount m).RanIn h () := by
  obtain ⟨r, hlook, hr⟩ := hr.bind
  have hmem := ranIn_sys hlook
  cases r with
  | ok m => exact .inr ⟨m, hmem, hr⟩
  | error e =>
    by_cases he : e = Errno.ENOENT
    · subst he
      exact .inl hmem
    · -- Any other error ends the function
      simp only [he, if_false] at hr
      obtain ⟨_, -, hr⟩ := hr
      exact nomatch (runs_fail.1 hr).2

/-- A path has been masked once `mask_path` has succeeded. -/
theorem maskPath_done {rootfs path : String} (hr : (maskPath rootfs path).RanIn h ()) :
    Masked (joinRootfs rootfs path) h := by
  rcases lookup_done hr with hno | ⟨m, hmem, hmount⟩
  · exact .inl hno
  · refine .inr ⟨m, hmem, ?_⟩
    have hdone := (MountSpec.mount_done hmount).2
    unfold maskSpec at hdone
    -- A directory is covered by a tmpfs, anything else by the null device
    split
    · next hdir =>
      rw [if_pos hdir] at hdone
      have htmpfs : (some "tmpfs").map passed = some "tmpfs" := by decide
      exact ⟨hdone.mount_mem htmpfs htmpfs (by simp), hdone.setattr_mem (.inl rfl) rfl rfl⟩
    · next hfile =>
      rw [if_neg hfile] at hdone
      have hnull : (some "/dev/null").map passed = some "/dev/null" := by decide
      exact hdone.mount_mem hnull rfl (by simp)

/-- A path is read-only once `make_readonly` has succeeded. -/
theorem makeReadonly_done {rootfs path : String} (hr : (makeReadonly rootfs path).RanIn h ()) :
    MadeReadonly (joinRootfs rootfs path) h := by
  rcases lookup_done hr with hno | ⟨m, hmem, hmount⟩
  · exact .inl hno
  · obtain ⟨hnul, hdone⟩ := MountSpec.mount_done hmount
    -- The path is its own source, and is passed as it is
    have hsource : (readonlySpec (joinRootfs rootfs path)).source.map passed =
        some (joinRootfs rootfs path) := congrArg some (if_neg hnul)
    exact .inr ⟨m, hmem, hdone.mount_mem hsource rfl (by simp [readonlySpec]),
      hdone.setattr_mem (.inr rfl) rfl (by simp [readonlySpec])⟩

/-! ## Id maps -/

/-- The id maps and `setgroups` of the process have been written. -/
structure CreateRequest.UsernsPrepared (req : CreateRequest) (pid : Int) (h : List Event) :
    Prop where
  uidMap : ∀ m, req.uidMappings = some m →
    (⟨.procWrite (.uidMap pid) (renderUidgidMappings m), .ok ()⟩ : Event) ∈ h
  setgroups : req.setgroupsDeny.getD true = true →
    (⟨.procWrite (.setgroups pid) "deny", .ok ()⟩ : Event) ∈ h
  gidMap : ∀ m, req.gidMappings = some m →
    (⟨.procWrite (.gidMap pid) (renderUidgidMappings m), .ok ()⟩ : Event) ∈ h

/-- A write whose error is passed on. -/
private theorem procWrite_done {file : ProcFile} {text : String}
    (hr : (sys (.procWrite file text) >>= fun r => check r).RanIn h ()) :
    (⟨.procWrite file text, .ok ()⟩ : Event) ∈ h := by
  obtain ⟨r, hmem, hok⟩ := mem_of_checked (c := .procWrite file text) (f := fun r => r) hr
  rwa [hok] at hmem

/-- What `prepare_userns` has done when it ends well. -/
theorem CreateRequest.prepareUserns_done {req : CreateRequest} {pid : Int}
    (hr : (req.prepareUserns pid).RanIn h ()) : req.UsernsPrepared pid h := by
  obtain ⟨_, -, hr⟩ := hr.bind
  obtain ⟨⟨⟩, huid, hr⟩ := hr.bind
  obtain ⟨⟨⟩, hset, hgid⟩ := hr.bind
  exact ⟨fun m hm => procWrite_done (huid.whenSome hm), fun hdeny => procWrite_done (hset.when hdeny),
    fun m hm => procWrite_done (hgid.whenSome hm)⟩

/-! ## Capabilities -/

/-- What the lists of the request name has been carried out: the drops from the bounding set, where
    the capability is neither raised nor to be ambient; one `capset(2)`, for which each of the three
    sets has what is raised and what was effective and is not dropped; and the ambient changes. -/
structure Capabilities.Applied (caps : Capabilities) (h : List Event) : Prop where
  known : Known (caps.drop.getD []) ∧ Known (caps.raise.getD []) ∧
    Known (caps.raiseAmbient.getD [])
  bounding : ∀ c, Names (caps.drop.getD []) c → ¬ Names (caps.raise.getD []) c →
    ¬ Names (caps.raiseAmbient.getD []) c → (⟨.prCapbsetDrop c.toCapNumber, .ok ()⟩ : Event) ∈ h
  sets : ∃ pid read pid' data, (⟨.capget pid, .ok read⟩ : Event) ∈ h ∧
    (⟨.capset pid' data, .ok ()⟩ : Event) ∈ h ∧ ∀ n < 64, ∀ set,
      set = CapInternalData.effective ∨ set = CapInternalData.permitted ∨
        set = CapInternalData.inheritable →
      ((set (capWord data (n / 32))).getLsbD (n % 32) = true ↔ NamesBit (caps.raise.getD []) n ∨
        (capWord read (n / 32)).effective.getLsbD (n % 32) = true ∧
          ¬ NamesBit (caps.drop.getD []) n)
  lowered : ∀ c, Names (caps.drop.getD []) c →
    (⟨.prCapAmbient .lower c.toCapNumber, .ok ()⟩ : Event) ∈ h
  raised : ∀ c, Names (caps.raiseAmbient.getD []) c →
    (⟨.prCapAmbient .raise c.toCapNumber, .ok ()⟩ : Event) ∈ h

namespace Capabilities

/-- The list read back from the set has its elements. -/
theorem namesAsBits_done {names : List String} {l : List CapabilityBit}
    (hr : (namesAsBits names).RanIn h l) :
    ∃ s, namesAsSet names = .ok s ∧ ∀ c, c ∈ l ↔ c ∈ s := by
  obtain ⟨s, hs, hr⟩ := hr.bind
  obtain ⟨l', -, hr⟩ := hr.bind
  obtain rfl := hr.pure
  exact ⟨s, ranIn_orFail hs, l'.2.2⟩

/-- The list has what the names stand for. -/
theorem mem_of_namesAsBits {names : List String} {l : List CapabilityBit}
    (hr : (namesAsBits names).RanIn h l) (c : CapabilityBit) : c ∈ l ↔ Names names c := by
  obtain ⟨s, hs, hmem⟩ := namesAsBits_done hr
  rw [hmem, namesAsSet_ok hs]

/-- A list of names that was read has known names only. -/
theorem known_of_namesAsBits {names : List String} {l : List CapabilityBit}
    (hr : (namesAsBits names).RanIn h l) : Known names := by
  obtain ⟨s, hs, -⟩ := namesAsBits_done hr
  exact known_of_namesAsSet hs

/-- The sets of the process have been read. -/
theorem getCaps_done {r : CapResult} (hr : getCaps.RanIn h r) :
    ∃ pid read, (⟨.capget pid, .ok read⟩ : Event) ∈ h ∧ r = capDataToResult read := by
  obtain ⟨pid, -, hr₁⟩ := hr.bind
  obtain ⟨a, hcall, hr₂⟩ := hr₁.bind
  obtain ⟨read, hok, hpure⟩ := hr₂.bind
  rw [ranIn_check hok.mapErr] at hcall
  exact ⟨pid, read, ranIn_sys hcall, hpure.pure.symm⟩

/-- All of that has been done once `apply_capabilities` has succeeded. -/
theorem apply_done {caps : Capabilities} (hr : caps.apply.RanIn h ()) : caps.Applied h := by
  obtain ⟨current, hget, hr⟩ := hr.bind
  obtain ⟨ds, hdrops, hr⟩ := hr.bind
  obtain ⟨rs, hraises, hr⟩ := hr.bind
  obtain ⟨as, hambient, hr⟩ := hr.bind
  obtain ⟨⟨⟩, hbound, hr⟩ := hr.bind
  obtain ⟨⟨⟩, hset, hr⟩ := hr.bind
  obtain ⟨⟨⟩, hlower, hraise⟩ := hr.bind
  have hds := mem_of_namesAsBits hdrops
  have hrs := mem_of_namesAsBits hraises
  have has := mem_of_namesAsBits hambient
  refine ⟨⟨known_of_namesAsBits hdrops, known_of_namesAsBits hraises,
    known_of_namesAsBits hambient⟩, fun c hc hnr hna => ?_, ?_, fun c hc => ?_, fun c hc => ?_⟩
  · -- Dropped from the bounding set, unless raised or wanted ambient
    obtain ⟨r, hcall, hok⟩ :=
      ((hbound.forM c ((hds c).2 hc)).when ⟨by rwa [hrs], by rwa [has]⟩).bind
    rw [ranIn_check hok.mapErr] at hcall
    exact ranIn_sys hcall
  · -- The sets that `capset` is given
    obtain ⟨pid, read, hread, rfl⟩ := getCaps_done hget
    obtain ⟨pid', -, hset⟩ := hset.bind
    obtain ⟨r, hcall, hok⟩ := hset.bind
    rw [ranIn_check hok.mapErr] at hcall
    exact ⟨pid, read, pid', _, hread, ranIn_sys hcall, capset_words hds hrs read⟩
  · -- Lowered, and then raised, in the ambient set
    obtain ⟨r, hcall, hok⟩ := (hlower.forM c ((hds c).2 hc)).bind
    rw [ranIn_check hok.mapErr] at hcall
    exact ranIn_sys hcall
  · obtain ⟨r, hcall, hok⟩ := (hraise.forM c ((has c).2 hc)).bind
    rw [ranIn_check hok.mapErr] at hcall
    exact ranIn_sys hcall

end Capabilities

/-! ## The last steps -/

/-- The transition for the next `execve` has been staged, on either node. -/
def AppArmorStaged (profile : String) (h : List Event) : Prop :=
  ((⟨.fsOpenWrite "/proc/self/attr/apparmor/exec", .ok ()⟩ : Event) ∈ h ∧
      (⟨.fsWriteAll "/proc/self/attr/apparmor/exec" ("exec " ++ profile), .ok ()⟩ : Event) ∈ h) ∨
    ((⟨.fsOpenWrite "/proc/self/attr/apparmor/exec", .error Errno.ENOENT⟩ : Event) ∈ h ∧
      (⟨.fsOpenWrite "/proc/self/attr/exec", .ok ()⟩ : Event) ∈ h ∧
      (⟨.fsWriteAll "/proc/self/attr/exec" ("exec " ++ profile), .ok ()⟩ : Event) ∈ h)

/-- What `change_onexec` has done when it ends well. -/
theorem changeOnexec_done {profile : String} (hr : (changeOnexec profile).RanIn h ()) :
    AppArmorStaged profile h := by
  obtain ⟨r, hopen, hr⟩ := hr.bind
  have hmem := ranIn_sys hopen
  -- The file of the newer interface is there, or the older one is used
  cases r with
  | ok u =>
    obtain ⟨r, hw, hok⟩ := mem_of_checked
      (c := .fsWriteAll "/proc/self/attr/apparmor/exec" ("exec " ++ profile)) (f := fun r => r) hr
    rw [hok] at hw
    exact .inl ⟨hmem, hw⟩
  | error e =>
    by_cases he : e = Errno.ENOENT
    · subst he
      obtain ⟨r₁, hopen', hr⟩ := hr.bind
      obtain ⟨⟨⟩, hok₁, hr⟩ := hr.bind
      rw [ranIn_check hok₁] at hopen'
      obtain ⟨r₂, hw, hok₂⟩ := mem_of_checked
        (c := .fsWriteAll "/proc/self/attr/exec" ("exec " ++ profile)) (f := fun r => r) hr
      rw [hok₂] at hw
      exact .inr ⟨hmem, ranIn_sys hopen', hw⟩
    · simp only [he, if_false] at hr
      obtain ⟨_, -, hr⟩ := hr
      exact nomatch (runs_fail.1 hr).2

namespace ExecutableSpec

variable {exec : ExecutableSpec} {program : String} {args env : List String}

/-- `set_no_new_privs` has set the flag when it ends well. -/
theorem setNoNewPrivs_done (hr : setNoNewPrivs.RanIn h ()) :
    (⟨.prSetNoNewPrivs, .ok ()⟩ : Event) ∈ h := by
  obtain ⟨r, hcall, hok⟩ := hr.bind
  rw [ranIn_check hok.mapErr] at hcall
  exact ranIn_sys hcall

/-- A filter was installed, and `no_new_privs` was asked for. -/
theorem installSeccomp_done (hr : exec.installSeccomp.RanIn h ()) {filter : SeccompFilter}
    (hf : exec.seccomp = some filter) :
    exec.noNewPrivs = true ∧
      (⟨.seccomp filter.instructions (UInt16.ofNat filter.instructions.length), .ok ()⟩ : Event) ∈
        h := by
  have hr' := hr.whenSome hf
  cases hn : exec.noNewPrivs with
  -- A filter without `no_new_privs` is refused
  | false =>
    rw [hn] at hr'
    obtain ⟨_, -, hr'⟩ := hr'
    exact nomatch (runs_fail.1 hr').2
  | true =>
    rw [hn] at hr'
    obtain ⟨r, hmem, hok⟩ := mem_of_checked (c := .seccomp filter.instructions
      (UInt16.ofNat filter.instructions.length)) (f := fun r => r) hr'
    rw [hok] at hmem
    exact ⟨rfl, hmem⟩

/-- `execute` once it is in the working directory. -/
def lastSteps (exec : ExecutableSpec) (program : String) (args env : List String) : Sys Unit := do
  Prog.when exec.noNewPrivs setNoNewPrivs
  exec.installSeccomp
  Prog.whenSome exec.apparmor fun profile =>
    (changeOnexec profile).mapErr
      (Err.context ("failed to set AppArmor profile " ++ profile.quote))
  resetSigpipe
  match ← sys (.execvpe program args env) with
  | .ok () => pure ()
  | .error e =>
    Prog.fail (.caused ("failed to execute '" ++ program ++ "'") (.os e) (execHint program e))

/-- A call of these kinds is one of the last steps, after the argument vectors. -/
private theorem execute_at_lastSteps {c : Call} (hat : exec.execute.At h c)
    (hc : c.kind ∈ [.confine, .exec]) :
    ∃ program args env h', h' <:+ h ∧ (exec.lastSteps program args env).At h' c := by
  rcases at_sys_bind.1 hat with ⟨-, rfl⟩ | ⟨u, h', rfl, hat₁⟩
  · simp [Call.kind] at hc
  simp only [at_orFail_bind] at hat₁
  obtain ⟨executable, -, program, -, args, -, env, -, hat₂⟩ := hat₁
  have hdir : Uses (Call.within [.file]) (whenSome exec.workingDirectory fun dir => do
      check (← sys (.setCurrentDir dir))) := .whenSome fun _ _ => uses_checked _ rfl
  obtain ⟨⟨⟩, h₁, h₂, -, hat₃, rfl⟩ := hdir.at_past (by decide) hc hat₂
  exact ⟨program, args, env, h₂, ⟨⟨.enter .execute, u⟩ :: h₁, by simp⟩, hat₃⟩

/-- What `execute` has done when it comes to `execvpe`. -/
theorem execute_at_execvpe (hat : exec.execute.At h (.execvpe program args env)) :
    (exec.noNewPrivs = true → (⟨.prSetNoNewPrivs, .ok ()⟩ : Event) ∈ h) ∧
      exec.installSeccomp.RanIn h () ∧
      ∀ profile, exec.apparmor = some profile → (changeOnexec profile).RanIn h () := by
  have hk : (Call.execvpe program args env).kind ∈ [.exec] := by simp [Call.kind]
  -- Of the last steps all but the last are behind the call
  obtain ⟨_, _, _, h', hsuf, hat₁⟩ := execute_at_lastSteps hat (by simp [Call.kind])
  obtain ⟨⟨⟩, h₂, _, hnnp, hat₂, rfl⟩ :=
    Uses.at_past (.when fun _ => setNoNewPrivs_uses) (by decide) hk hat₁
  obtain ⟨⟨⟩, h₃, _, hsec, hat₃, rfl⟩ := exec.installSeccomp_uses.at_past (by decide) hk hat₂
  obtain ⟨⟨⟩, h₄, h₅, harm, -, rfl⟩ := Uses.at_past
    (.whenSome fun _ _ => .mapErr (changeOnexec_uses _)) (by decide) hk hat₃
  refine ⟨fun hn => ?_, ?_, fun profile hp => ?_⟩
  · exact setNoNewPrivs_done (((hnnp.ranIn.when hn).append_left _).mono hsuf.isInfix)
  · exact ((hsec.ranIn.append_left _).append_right h₂).mono hsuf.isInfix
  · exact ((((harm.ranIn.whenSome hp).mapErr.append_left _).append_right h₃).append_right h₂).mono
      hsuf.isInfix

/-- A filter is installed only after `no_new_privs` is set. -/
theorem execute_at_seccomp {filter : List BpfInstruction} {len : UInt16}
    (hat : exec.execute.At h (.seccomp filter len)) :
    (⟨.prSetNoNewPrivs, .ok ()⟩ : Event) ∈ h := by
  have hk : (Call.seccomp filter len).kind ∈ [.confine] := by simp [Call.kind]
  obtain ⟨_, _, _, h', hsuf, hat₁⟩ := execute_at_lastSteps hat (by simp [Call.kind])
  rcases at_bind.1 hat₁ with hat₂ | ⟨⟨⟩, h₂, h₃, hnnp, hat₂, rfl⟩
  · have hset := (at_when.1 hat₂).2
    simp only [setNoNewPrivs, at_sys_bind, at_mapErr, not_at_check, and_false, exists_false,
      or_false] at hset
    cases hset.2
  rcases at_bind.1 hat₂ with hat₃ | ⟨⟨⟩, _, h₄, -, hat₃, -⟩
  · obtain ⟨f, -, hat₄⟩ := at_whenSome.1 hat₃
    -- Where a filter is configured, `no_new_privs` is set or execution is refused
    cases hn : exec.noNewPrivs with
    | false =>
      rw [hn] at hat₄
      exact absurd hat₄ at_fail
    | true => exact setNoNewPrivs_done (((hnnp.ranIn.when hn).append_left _).mono hsuf.isInfix)
  · -- no filter is installed later
    have hks : ∀ k ∈ [Call.Kind.file, .signal, .exec], k ∉ [Call.Kind.confine] := by decide
    refine absurd hat₃ (Uses.not_at ?_ hks hk)
    refine .bind (.whenSome fun _ _ => .mapErr ((changeOnexec_uses _).widen (by decide))) fun _ =>
      .bind (resetSigpipe_uses.widen (by decide)) fun _ => .bind (uses_sys _ rfl) fun r => ?_
    split
    · exact .pure _
    · exact .fail _

end ExecutableSpec

namespace CreateRequest

variable {req : CreateRequest} {root child : Int} {s₀ : World}
  {cfg : Config calls Int World Err Unit} {program : String} {args env : List String}

/-! ## The new root -/

/-- The mount tree has been set up at `rootfs`, and pivoted to. -/
structure RootSetUp (req : CreateRequest) (rootfs : String) (h : List Event) : Prop where
  rootfs_eq : ∃ r wid, req.rootfs = some r ∧
    rootfs = if r = "/" then "/tmp/styrolite-stage-" ++ wid ++ "/root" else r
  sealed : req.rootfsReadonly.getD false = true → ∃ fd,
    (⟨.openTree rootfs OPEN_TREE_CLOEXEC, .ok fd⟩ : Event) ∈ h ∧
    (⟨.mountSetattr (.tree fd) "" AT_EMPTY_PATH { attrSet := MOUNT_ATTR_RDONLY, attrClr := 0 },
      .ok ()⟩ : Event) ∈ h
  proc : (∃ data, (⟨.mount (some "proc") (rootfs ++ "/proc") (some "proc") (MS_SILENT ||| MS_REC)
      data, .ok ()⟩ : Event) ∈ h) ∧
    (⟨.mountSetattr .cwd (rootfs ++ "/proc") AT_RECURSIVE
      { attrSet := MOUNT_ATTR_NOSUID ||| MOUNT_ATTR_NODEV ||| MOUNT_ATTR_NOEXEC, attrClr := 0 },
      .ok ()⟩ : Event) ∈ h
  mounts : ∀ m ∈ req.mounts.getD [], m.MountedAt (rootfs ++ "/" ++ m.target) h
  mutations : ∀ m, .createDir m ∈ req.mutations.getD [] →
    (⟨.fsCreateDirAll (pathPush rootfs m.target), .ok ()⟩ : Event) ∈ h
  masked : ∀ path ∈ req.maskedPaths.getD [], Masked (joinRootfs rootfs path) h
  readonly : ∀ path ∈ req.readonlyPaths.getD [], MadeReadonly (joinRootfs rootfs path) h
  pivoted : (⟨.setCurrentDir rootfs, .ok ()⟩ : Event) ∈ h ∧
    (⟨.pivotRoot "." ".", .ok ()⟩ : Event) ∈ h ∧ (⟨.umount2 "." MNT_DETACH, .ok ()⟩ : Event) ∈ h ∧
    (⟨.setCurrentDir "/", .ok ()⟩ : Event) ∈ h

/-- A directory that was asked for has been made under the rootfs. -/
theorem mutate_done {rootfs : String} {m : CreateDirMutation}
    (hr : (mutate rootfs (.createDir m)).RanIn h ()) :
    (⟨.fsCreateDirAll (pathPush rootfs m.target), .ok ()⟩ : Event) ∈ h := by
  obtain ⟨r, hmem, hok⟩ := mem_of_checked
    (c := .fsCreateDirAll (pathPush rootfs m.target)) (f := fun r => r) hr.mapErr
  rwa [hok] at hmem

/-- `pivot_fs` has set up some root filesystem. -/
theorem pivotFs_rootSetUp (hr : req.pivotFs.RanIn h ()) : ∃ rootfs, req.RootSetUp rootfs h := by
  obtain ⟨rootfs, hdone⟩ := pivotFs_done hr
  have hproc := (MountSpec.mount_done hdone.proc).2
  have hname : (some "proc").map passed = some "proc" := by decide
  have hmounts : ∀ m ∈ req.mounts.getD [], m.MountedAt (rootfs ++ "/" ++ m.target) h := by
    intro m hm
    -- An entry is mounted with its own fields, but for its target and its data
    obtain ⟨hmounted, hattrs⟩ := (MountSpec.mount_done (hdone.mounted m hm)).2
    exact ⟨hmounted, hattrs⟩
  refine ⟨rootfs, hdone.rootfs_eq, fun hs => ?_, ⟨hproc.mount_mem hname hname (by simp [procfs]),
    hproc.setattr_mem (.inl rfl) rfl (by simp [procfs])⟩, hmounts,
    fun m hm => mutate_done (hdone.mutated _ hm),
    fun p hp => maskPath_done (hdone.masked p hp),
    fun p hp => makeReadonly_done (hdone.madeReadonly p hp), MountSpec.pivot_done hdone.pivoted⟩
  obtain ⟨source, fd, hsource, htree, hattr⟩ := MountSpec.sealMount_done (hdone.sealed hs)
  obtain rfl := Option.some.inj hsource
  exact ⟨fd, htree, hattr⟩

/-! ## Main theorem -/

/-- Everything that confines the workload has been done, `h` being the history of the child
    with the number `child`, and `hs` that of the supervisor. -/
structure Confined (req : CreateRequest) (child : Int) (hs h : List Event) : Prop where
  unshared : ∀ ns ∈ req.targetNs, ∃ flags, ns.inFlags flags ∧ (⟨.unshare flags, .ok ()⟩ : Event) ∈ h
  root : ∃ rootfs, req.RootSetUp rootfs h
  userns : .user ∈ req.targetNs → req.UsernsPrepared (req.usernsPid child) hs
  capabilities : ∀ caps, req.capabilities = some caps → caps.Applied h
  noNewPrivs : req.exec.noNewPrivs = true → (⟨.prSetNoNewPrivs, .ok ()⟩ : Event) ∈ h
  seccomp : ∀ filter, req.exec.seccomp = some filter →
    (⟨.seccomp filter.instructions (UInt16.ofNat filter.instructions.length), .ok ()⟩ : Event) ∈ h
  seccompLast : ∀ h₁ e h₂ filter len, h = h₁ ++ e :: h₂ → e.call = .seccomp filter len →
    (⟨.prSetNoNewPrivs, .ok ()⟩ : Event) ∈ h₁
  apparmor : ∀ profile, req.exec.apparmor = some profile → AppArmorStaged profile h

/-- Both kinds of calls of the workload's last steps are made by `execute`. -/
private theorem childMain_at_execute {c : Call} (hat : req.childMain.At h c)
    (hc : c.kind ∈ [.confine, .exec]) : ∃ h', h' <:+ h ∧ req.exec.execute.At h' c := by
  obtain ⟨hs, n, h₁, rfl, -, hrest⟩ := childMain_at_late hat
    ((by decide : ∀ k ∈ [Call.Kind.confine, .exec], k ∈ lateKinds) _ hc)
  obtain ⟨⟨⟩, hp, _, -, hat₁, rfl⟩ :=
    Uses.at_past (.when fun _ => req.pivotIfMount_uses) (by decide) hc hrest
  obtain ⟨⟨⟩, ho, _, -, hat₂, rfl⟩ := (applyOomScore_uses _).at_past (by decide) hc hat₁
  obtain ⟨⟨⟩, hc', _, -, hat₃, rfl⟩ := (setupConsole_uses _).at_past (by decide) hc hat₂
  obtain ⟨⟨⟩, hq, he, -, hat₄, rfl⟩ := (preexecPrep_uses _ _).at_past (by decide) hc hat₃
  exact ⟨he, ⟨hs ++ ⟨.efdRead .child, .ok n⟩ :: (hp ++ (ho ++ (hc' ++ hq))), by simp⟩, hat₄⟩

/-- The capabilities have been applied when the child comes to `execvpe`. -/
private theorem childMain_capabilities (hat : req.childMain.At h (.execvpe program args env))
    {caps : Capabilities} (hcaps : req.capabilities = some caps) : caps.apply.RanIn h () := by
  obtain ⟨hs, n, h₁, rfl, -, hrest⟩ := childMain_at_late hat (by simp [Call.kind, lateKinds])
  obtain ⟨hp, ho, hc, hq, he, rfl, -, -, -, hqr, -⟩ := childRest_at_exec hrest
  refine RanIn.mono (h := hq) ?_
    ⟨hs ++ ⟨.efdRead .child, .ok n⟩ :: (hp ++ (ho ++ hc)), he, by simp⟩
  obtain ⟨_, -, hr⟩ := hqr.ranIn.bind
  obtain ⟨_, -, hr⟩ := hr.bind
  obtain ⟨_, -, hr⟩ := hr.bind
  exact hr.whenSome hcaps

/-- Each requested namespace has been unshared, before the fork or by the child. -/
private theorem Pair.unshared {h₀ h₁ h₂ : List Event} {p₁ p₂ : Sys Unit}
    (hp : req.Pair root s₀ cfg child h₀ h₁ h₂ p₁ p₂)
    (hat : req.childMain.At h₂ (.execvpe program args env)) {ns : Namespace}
    (hns : ns ∈ req.targetNs) :
    ∃ flags, ns.inFlags flags ∧ (⟨.unshare flags, .ok ()⟩ : Event) ∈
      h₀ ++ ⟨.fork, .ok .child⟩ :: h₂ := by
  by_cases hfirst : ns ∈ req.firstLevelNs
  · obtain ⟨h₃, h₄, heq, -, -⟩ := prologue_runs hp.prologue
    exact ⟨_, (Namespace.inFlags_cloneFlags ns _).2 hfirst, by simp [heq]⟩
  · -- the user namespace of the two-stage mode
    rw [mem_firstLevelNs, not_and, not_or, not_not] at hfirst
    obtain ⟨hskip, rfl⟩ := hfirst hns
    obtain ⟨hs, n, h', rfl, hsig, -⟩ := childMain_at_late hat (by simp [Call.kind, lateKinds])
    obtain ⟨h₅, h₆, rfl, -, hstage⟩ := childSignal_runs hsig
    obtain ⟨hp', hu, rfl, -, rfl⟩ := stage_runs (by simpa using hskip) hstage
    exact ⟨Namespace.cloneFlags [.user], by simp, by simp [hns]⟩

/-- A filter is installed by the child, and only after `no_new_privs` is set. -/
private theorem Pair.seccompLast {h₀ h₁ h₂ h₃ h₄ : List Event} {p₁ p₂ : Sys Unit} {e : Event}
    {filter : List BpfInstruction} {len : UInt16}
    (hp : req.Pair root s₀ cfg child h₀ h₁ h₂ p₁ p₂)
    (heq : h₀ ++ ⟨.fork, .ok .child⟩ :: h₂ = h₃ ++ e :: h₄) (he : e.call = .seccomp filter len) :
    (⟨.prSetNoNewPrivs, .ok ()⟩ : Event) ∈ h₃ := by
  have hfork : e ≠ ⟨.fork, .ok .child⟩ := by
    rintro rfl
    exact nomatch he
  -- The event is the child's, or was there before the fork
  rcases List.append_eq_append_iff.1 heq with ⟨as, rfl, htail⟩ | ⟨bs, rfl, htail⟩
  · -- The event comes after the fork
    cases as with
    | nil => exact absurd (List.cons.inj htail).1.symm hfork
    | cons e' as =>
      obtain ⟨rfl, rfl⟩ := List.cons.inj htail
      have hat := hp.childReaches.at_of_split
      rw [he] at hat
      obtain ⟨h', hsuf, hexec⟩ := childMain_at_execute hat (by simp [Call.kind])
      simp [hsuf.subset (ExecutableSpec.execute_at_seccomp hexec)]
  · -- Or it comes before it, where there is no filter
    cases bs with
    | nil => exact absurd (List.cons.inj htail).1 hfork
    | cons e' bs =>
      obtain ⟨rfl, rfl⟩ := List.cons.inj htail
      -- Before the fork no filter is installed
      have hin : e.call.kind ∈ _ := req.prologue_uses.mem (e := e) hp.prologue (by simp)
      rw [he] at hin
      exact absurd hin (by simp [Call.kind])

/-- Confinement fails closed. In every run, under every pattern of answers, a process about to
    execute the workload of a request with a mount namespace is confined as requested. -/
theorem wrap_confined (hr : linux.Reachable root req.wrap s₀ cfg) (hm : .mount ∈ req.targetNs)
    {k : Except Errno Unit → Sys Unit}
    (hproc : cfg.procs child = some ⟨h, .call (I := calls) (.execvpe program args env) k⟩) :
    ∃ hs p, cfg.procs root = some ⟨hs, p⟩ ∧ req.Confined child hs h := by
  obtain ⟨h₀, h₁, h₂, p₁, p₂, hp, rfl, hat⟩ :=
    late_cases hr hproc (by simp [Call.kind, lateKinds])
  -- What has run in the child's part has run in its whole history
  have hlift : ∀ {h'}, h' <:+ h₂ → h' <:+: h₀ ++ ⟨.fork, .ok .child⟩ :: h₂ := fun hsuf =>
    (hsuf.trans ⟨h₀ ++ [⟨.fork, .ok .child⟩], by simp⟩).isInfix
  obtain ⟨he, hsuf, hexec⟩ := childMain_at_execute hat (by simp [Call.kind])
  obtain ⟨hnnp, hsec, harm⟩ := ExecutableSpec.execute_at_execvpe hexec
  have hmem : ∀ e ∈ he, e ∈ h₀ ++ ⟨.fork, .ok .child⟩ :: h₂ := fun e => ((hlift hsuf).subset ·)
  refine ⟨_, p₁, hp.rootProc, fun ns hns => hp.unshared hat hns, ?_, fun hu => ?_,
    fun caps hcaps => ?_, fun hn => hmem _ (hnnp hn), fun filter hf => ?_, ?_, fun profile ha => ?_⟩
  · -- The root file system
    exact pivotFs_rootSetUp ((childMain_pivots hat hm).mono (hlift (List.suffix_refl h₂)))
  · -- The maps: they are the supervisor's, and the child has waited for it
    obtain ⟨hs, n, h', rfl, -, -⟩ := childMain_at_late hat (by simp [Call.kind, lateKinds])
    have hran := hp.released (taken_pos (n := n) (by simp)) hu
    exact prepareUserns_done ((hran.append_right [⟨.fork, .ok (.parent child)⟩]).append_right h₀)
  · exact Capabilities.apply_done
      ((childMain_capabilities hat hcaps).mono (hlift (List.suffix_refl h₂)))
  · exact hmem _ (ExecutableSpec.installSeccomp_done hsec hf).2
  · -- No filter before `no_new_privs`, and last the profile
    exact fun h₃ e h₄ filter len heq hcall => hp.seccompLast heq hcall
  · exact changeOnexec_done ((harm profile ha).mono (hlift hsuf))

/-- A request that asks for most of what confines. -/
def hardened : CreateRequest :=
  { simple [.mount, .user, .pid] with
    rootfsReadonly := some true
    maskedPaths := some ["/proc/kcore"]
    uidMappings := some [{ baseNsid := 0, baseHostid := 1000, remapCount := 1 }]
    capabilities := some { raise := none, raiseAmbient := none, drop := some ["CAP_SYS_ADMIN"] }
    exec :=
      { (simple []).exec with
        noNewPrivs := true, seccomp := some { instructions := [.allowAll] },
        apparmor := some "styrolite" } }

/-- It comes to its workload, and is confined there. -/
theorem wrap_confined_hardened : ∃ cfg h k hs,
    linux.Reachable 1 hardened.wrap .fresh cfg ∧
      cfg.procs 2 = some ⟨h, .call (I := calls) (.execvpe "/bin/true" ["/bin/true"] []) k⟩ ∧
      hardened.Confined 2 hs h := by
  obtain ⟨cfg, h, k, hr, hproc⟩ := childRest_comes_to
    (c := .execvpe "/bin/true" ["/bin/true"] []) .fresh
    (forks_of_succeeds hardened succeeding 1 2 ⟨(), by decide⟩ rfl (by decide)) ⟨(), by decide⟩
    rfl ⟨(), by decide⟩ rfl (fun s h₁ e h₂ heq _ => childRest_allows (by decide) s h₁ e h₂ heq)
    (by decide)
  obtain ⟨hs, -, -, hconf⟩ := wrap_confined (linux_of_under hr) (by decide) hproc
  exact ⟨cfg, h, k, hs, linux_of_under hr, hproc, hconf⟩

end CreateRequest

end Styrolite
