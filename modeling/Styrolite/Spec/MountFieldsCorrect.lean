import Styrolite.Spec.PivotRun
import Styrolite.Spec.VfsSteps

/-!
# The fields of a mount specification

One call of `mount(2)` performs one operation: a bind, or else a change of how
mounts are propagated, or else the mount of a file system. `MountSpec::mount` folds
its fields into the flags of one such call, and looks the target up once more to set
attributes. Where it succeeds it has done all that the fields ask for exactly if they
do not ask for two operations, and the target still leads to what was mounted there
(`done_iff`).

The mounts are those of `Vfs`, with what is told of each in
`/proc/self/mountinfo`. They are not propagated to others.
-/

namespace Styrolite

open Prog LocalRules

/-- How the mounts on a mount are propagated. -/
inductive Propagation where
  | shared
  | slave
  | priv
  deriving DecidableEq, Repr

/-- What a mount has beside the place it is at. -/
structure MountInfo where
  /-- `nosuid`, `nodev` and `noexec`. -/
  attrs : U64
  propagation : Propagation
  source : Option String
  fstype : Option String
  deriving DecidableEq, Repr

namespace MountInfo

/-- What is mounted on a shared mount becomes shared. -/
def onto (info parent : MountInfo) : MountInfo :=
  if parent.propagation = .shared then { info with propagation := .shared } else info

/-- What is mounted on another is private unless the other is shared or it is not private itself. -/
theorem onto_propagation {info parent : MountInfo} : (info.onto parent).propagation = .priv ↔
    parent.propagation ≠ .shared ∧ info.propagation = .priv := by
  unfold onto
  split
  · next h => simp [h]
  · next h => simp [h]

end MountInfo

/-- The attributes that are set are there afterwards. -/
theorem setattr_attrs (a set rdonly : U64) (ro : Bool) :
    set &&& ((a ||| set &&& ~~~rdonly) ||| if ro || set &&& rdonly != 0 then rdonly else 0) =
      set := by
  -- Bit by bit, by whether the read-only bit is among those to set
  apply BitVec.eq_of_getElem_eq
  intro i hi
  by_cases h : set &&& rdonly = 0
  · have hbit : (set[i] && rdonly[i]) = false := by
      rw [← BitVec.getElem_and, h]
      exact BitVec.getElem_zero hi
    simp only [BitVec.getElem_and, BitVec.getElem_or, BitVec.getElem_not]
    cases hs : set[i] with
    | false => rfl
    | true =>
      rw [hs, Bool.true_and] at hbit
      simp [hbit]
  · rw [bne_iff_ne.2 h, Bool.or_true, if_pos rfl]
    simp only [BitVec.getElem_and, BitVec.getElem_or, BitVec.getElem_not]
    cases set[i] <;> cases rdonly[i] <;> simp

/-! ## Mount namespaces -/

/-- The mounts of a process, with what is told of each. -/
structure MountNs where
  vfs : Vfs
  info : Nat → MountInfo

namespace MountNs

variable (t : MountNs)

/-- The attributes of a mount, read-only included. -/
def attrs (n : Nat) : U64 :=
  (t.info n).attrs ||| if t.vfs.readOnly n then MOUNT_ATTR_RDONLY else 0

/-- The mount has the attributes. -/
def Carries (n : Nat) (set : U64) : Prop := set &&& t.attrs n = set

/-- What is told of the mounts after a bind: a copy takes over what is told of the mount. -/
def bindInfo (x dst : Place FileName) (recurse : Bool) (n : Nat) : MountInfo :=
  if recurse then
    if n < t.vfs.mounts.size then t.info n
    else (t.info (n - t.vfs.mounts.size)).onto (t.info dst.1)
  else if n = t.vfs.mounts.size then (t.info x.1).onto (t.info dst.1)
  else t.info n

/-- What is told of the mounts after a change of propagation. -/
def privateInfo (y : Place FileName) (recurse : Bool) (n : Nat) : MountInfo :=
  if if recurse then t.vfs.mounts.under y n else n = y.1 then
    { t.info n with propagation := .priv }
  else t.info n

/-- What is told of the mounts after a new file system is mounted. -/
def newInfo (source fstype : Option String) (dst : Place FileName) (n : Nat) : MountInfo :=
  if n = t.vfs.mounts.size then
    MountInfo.onto { attrs := 0, propagation := .priv, source := source, fstype := fstype }
      (t.info dst.1)
  else t.info n

/-- What `mount(2)` makes of the mounts' data: a bind, a change of propagation, a new mount. -/
def mountInfo (source : Option String) (target : String) (fstype : Option String) (flags : U64) :
    Nat → MountInfo :=
  match t.vfs.resolve true target with
  | .at y _ =>
    if flags &&& MS_BIND ≠ 0 then
      match source.map (t.vfs.resolve true) with
      | some (.at x _) => t.bindInfo x (t.vfs.mounts.top y) (flags &&& MS_REC ≠ 0)
      | _ => t.info
    else if flags &&& MS_PRIVATE ≠ 0 then t.privateInfo y (flags &&& MS_REC ≠ 0)
    else t.newInfo source fstype (t.vfs.mounts.top y)
  | _ => t.info

/-- What `mount_setattr` makes of a mount's data. -/
def attrInfo (dir : DirFd) (path : String) (flags : CInt) (attr : MountAttr) (n : Nat) :
    MountInfo :=
  if t.vfs.reaches dir path flags n then
    { t.info n with attrs :=
        (t.info n).attrs &&& ~~~attr.attrClr ||| attr.attrSet &&& ~~~MOUNT_ATTR_RDONLY }
  else t.info n

/-- What a call makes of the mounts and of what is told of them. -/
def next (c : Call) (a : c.Answer) : MountNs where
  vfs := t.vfs.next c a
  info := match c, a with
    | .mount source target fstype flags _, .ok () => t.mountInfo source target fstype flags
    | .mountSetattr dir path flags attr, .ok () => t.attrInfo dir path flags attr
    | _, _ => t.info

variable {t} {n : Nat}

/-- Attributes are all that it changes. -/
theorem attrInfo_eq {dir : DirFd} {path : String} {flags : CInt} {attr : MountAttr} (n : Nat) :
    (t.attrInfo dir path flags attr n).propagation = (t.info n).propagation ∧
      (t.attrInfo dir path flags attr n).source = (t.info n).source ∧
      (t.attrInfo dir path flags attr n).fstype = (t.info n).fstype := by
  unfold attrInfo
  split
  · exact ⟨rfl, rfl, rfl⟩
  · exact ⟨rfl, rfl, rfl⟩

/-- A mount that the call reaches gets the attributes, and another keeps its own. -/
theorem carries_setattr {dir : DirFd} {path : String} {flags : CInt} {set : U64} {s : Vfs}
    (hs : t.vfs.mountSetattr dir path flags { attrSet := set, attrClr := 0 } = some s) :
    MountNs.Carries ⟨s, t.attrInfo dir path flags { attrSet := set, attrClr := 0 }⟩ n set ↔
      t.vfs.reaches dir path flags n = true ∨ t.Carries n set := by
  -- `mount_setattr` has found its place
  unfold Vfs.mountSetattr at hs
  split at hs
  · split at hs
    · cases hs
      unfold Carries attrs attrInfo
      dsimp only
      by_cases hreach : t.vfs.reaches dir path flags n = true
      · refine iff_of_true ?_ (.inl hreach)
        -- With nothing to clear only the attributes to set count
        have hkeep : ∀ ro : Bool, (ro && (0 : U64) &&& MOUNT_ATTR_RDONLY == 0) = ro := by
          intro ro
          cases ro <;> decide
        have hall : ∀ a : U64, a &&& ~~~(0 : U64) = a := by
          intro a
          exact BitVec.and_allOnes
        simp only [if_pos hreach, hkeep, hall]
        exact setattr_attrs _ _ _ _
      · simp only [hreach, Bool.false_eq_true, if_false, false_or]
    · cases hs
  · cases hs

end MountNs

/-- The rules of Linux for mounts and files, with what is told of the mounts. -/
def nsRules : LocalRules calls MountNs where
  allows t := t.vfs.allows
  next := MountNs.next

/-- The mounts' data restrict nothing that the file system allows. -/
theorem nsRules_lawful {t : MountNs} {h : List Event} :
    (vfsRules.Lawful t.vfs h ↔ nsRules.Lawful t h) ∧
      (nsRules.after t h).vfs = vfsRules.after t.vfs h := by
  constructor
  · have hstep := lawful_of_step nsRules vfsRules MountNs.vfs (S := fun _ => True) (t := t)
      (fun _ _ _ _ => Iff.rfl) (fun _ _ _ _ _ => rfl) (h := h) fun _ _ => trivial
    exact hstep.1
  · induction h generalizing t with
    | nil => rfl
    | cons e h ih => exact ih

/-! ## What a mount asks for -/

namespace MountSpec

variable {spec : MountSpec} {t₀ : MountNs}

/-- The mount that shows the place, and with `recurse` those below it. -/
def concerns (spec : MountSpec) (s : Vfs) (l : Place FileName) (n : Nat) : Bool :=
  if spec.recurse then s.mounts.under l n else n = l.1

/-- What a bind of the source `x` shows: with `recurse`, what is mounted over it is copied too. -/
def seen (spec : MountSpec) (s : Vfs) (x : Place FileName) : Place FileName :=
  if spec.recurse then s.mounts.top x else x

/-- A run in which a mount succeeds. -/
structure MountRun (spec : MountSpec) (t₀ : MountNs) where
  making : List Event
  data : Option String
  not_nul : ¬ HasNul spec.target
  make_runs : (Prog.when spec.createMountpoint spec.createTarget).Runs making (.ok ())
  data_runs : spec.dataArg.Runs [] (.ok data)
  lawful : nsRules.Lawful t₀ (making ++ ⟨.mount spec.sourceArg spec.target spec.fstypeArg
    spec.mountFlags data, Except.ok ()⟩ :: spec.attrEvents)

namespace MountRun

variable (run : MountRun spec t₀)

/-- The calls of the mount and of its attributes, with their answers. -/
def trace : List Event := run.making ++ ⟨.mount spec.sourceArg spec.target spec.fstypeArg
  spec.mountFlags run.data, Except.ok ()⟩ :: spec.attrEvents

/-- The mounts when the mount point is there. -/
def before : MountNs := nsRules.after t₀ run.making

/-- The mounts after the call of `mount(2)`. -/
def mounted : MountNs := run.before.next
  (.mount spec.sourceArg spec.target spec.fstypeArg spec.mountFlags run.data) (Except.ok ())

/-- The state after the whole run. -/
def final : MountNs := nsRules.after run.mounted spec.attrEvents

/-- That state, from the start. -/
theorem final_eq : run.final = nsRules.after t₀ run.trace := by
  rw [trace, after_append, after_cons]
  rfl

/-- What is on top at the place `y` in the end. -/
def topmost (y : Place FileName) : Place FileName := run.final.vfs.mounts.top y

/-- What the fields ask for has been done, where the target led to `y`. -/
structure DoneAt (y : Place FileName) : Prop where
  bound : spec.bind = true → run.before.vfs.mounts.size ≤ (run.topmost y).1 ∧
    ∃ src x m m', spec.source = some src ∧ run.before.vfs.Leads src x ∧
      run.before.vfs.mounts.mount (spec.seen run.before.vfs x).1 = some m ∧
      run.final.vfs.mounts.mount (run.topmost y).1 = some m' ∧
      m'.fs = m.fs ∧ m'.root = (spec.seen run.before.vfs x).2
  mounted : spec.bind = false → spec.fstype.isSome → run.before.vfs.mounts.size ≤ (run.topmost y).1 ∧
    (run.final.info (run.topmost y).1).source = spec.source ∧
    (run.final.info (run.topmost y).1).fstype = spec.fstype
  unshared : spec.unshare = true → ∀ n, spec.concerns run.final.vfs (run.topmost y) n = true →
    (run.final.info n).propagation = .priv
  attributes : spec.safe = true ∨ spec.readOnly = true → ∀ n,
    spec.concerns run.final.vfs (run.topmost y) n = true → run.final.Carries n spec.attrSet

/-- The fields ask for one operation at a time, and both calls find the same mount. -/
structure HeedsAt (y : Place FileName) : Prop where
  /-- A file system is not asked for along with a change of propagation, nor by a name that cannot
      be passed on. -/
  mounted : spec.bind = false → spec.fstype.isSome → spec.unshare = false ∧
    (∀ s, spec.source = some s → ¬ HasNul s) ∧ ∀ s, spec.fstype = some s → ¬ HasNul s
  /-- The mounts that are bound are private, and are not bound on a shared one. -/
  bound : spec.unshare = true → spec.bind = true → ∀ src x, spec.source = some src →
    run.before.vfs.Leads src x →
      (run.before.info (run.before.vfs.mounts.top y).1).propagation ≠ .shared ∧
      ∀ n, spec.concerns run.before.vfs (spec.seen run.before.vfs x) n = true →
        (run.before.info n).propagation = .priv
  /-- The target leads to the mount on top, which is private otherwise. -/
  unshared : spec.unshare = true → spec.bind = false → spec.recurse = true ∨
    (run.before.vfs.mounts.top y).1 = y.1 ∨
    (run.before.info (run.before.vfs.mounts.top y).1).propagation = .priv
  /-- The target leads to the mount on top once more, which has the attributes otherwise. -/
  attributes : spec.safe = true ∨ spec.readOnly = true → ∃ l, run.mounted.vfs.Leads spec.target l ∧
    ∀ n, spec.concerns run.mounted.vfs (run.mounted.vfs.mounts.top y) n = true →
      spec.concerns run.mounted.vfs l n = true ∨ run.mounted.Carries n spec.attrSet

/-- All that the fields ask for has been done at the target. -/
def Done : Prop := ∃ y, run.before.vfs.Leads spec.target y ∧ run.DoneAt y

/-- At the place that the target leads to, the request's fields are heeded. -/
def Heeds : Prop := ∃ y, run.before.vfs.Leads spec.target y ∧ run.HeedsAt y

end MountRun

/-- Every run in which a mount succeeds is one of these. -/
theorem exists_mountRun {h : List Event} (hl : nsRules.Lawful t₀ h)
    (hr : spec.mount.Runs h (.ok ())) : ∃ run : MountRun spec t₀, run.trace = h := by
  obtain ⟨hnul, making, data, hmaking, hdata, rfl⟩ := mount_runs hr
  exact ⟨⟨making, data, hnul, hmaking, hdata, hl⟩, rfl⟩

/-! ## The flags -/

/-- `MS_BIND` is set for a bind. -/
theorem mountFlags_bind : spec.mountFlags &&& MS_BIND ≠ 0 ↔ spec.bind = true := by
  unfold mountFlags
  cases spec.bind <;> cases spec.unshare <;> cases spec.recurse <;> decide

/-- `MS_PRIVATE` is set to unshare. -/
theorem mountFlags_private : spec.mountFlags &&& MS_PRIVATE ≠ 0 ↔ spec.unshare = true := by
  unfold mountFlags
  cases spec.bind <;> cases spec.unshare <;> cases spec.recurse <;> decide

/-- `MS_REC` is set to recurse. -/
theorem mountFlags_rec : spec.mountFlags &&& MS_REC ≠ 0 ↔ spec.recurse = true := by
  unfold mountFlags
  cases spec.bind <;> cases spec.unshare <;> cases spec.recurse <;> decide

/-- A string is passed on exactly if it has no NUL byte. -/
theorem unpack_eq_iff {o : Option String} :
    (if o.isNone then none else some (unpack o)) = o ↔ ∀ s, o = some s → ¬ HasNul s := by
  cases o with
  | none => simp
  | some s =>
    by_cases hs : HasNul s
    · have hne : "" ≠ s := by
        rintro rfl
        exact absurd hs (by decide)
      simp [unpack_of_nul hs, hs, hne]
    · simp [unpack_of_not_nul hs, hs]

/-- The source is passed on as it is unless it contains a NUL. -/
theorem sourceArg_eq_iff :
    spec.sourceArg = spec.source ↔ ∀ s, spec.source = some s → ¬ HasNul s := unpack_eq_iff

/-- So is the type of a file system. -/
theorem fstypeArg_eq_iff (hbind : spec.bind = false) :
    spec.fstypeArg = spec.fstype ↔ ∀ s, spec.fstype = some s → ¬ HasNul s := by
  rw [fstypeArg, hbind]
  simp only [Bool.false_eq_true, or_false]
  exact unpack_eq_iff

/-- A source that leads somewhere is the one that is asked for. -/
theorem source_of_leads {s : Vfs} {src : String} {x : Place FileName}
    (hsrc : spec.sourceArg = some src) (hx : s.Leads src x) : spec.source = some src := by
  -- A source with a NUL is passed on as empty, and leads nowhere
  cases hsource : spec.source with
  | none =>
    rw [sourceArg, hsource] at hsrc
    cases hsrc
  | some src' =>
    rw [sourceArg, hsource] at hsrc
    replace hsrc : some (unpack (some src')) = some src := hsrc
    by_cases hnul : HasNul src'
    · rw [unpack_of_nul hnul] at hsrc
      cases hsrc
      obtain ⟨k, hk⟩ := hx
      rw [Vfs.resolve, if_pos (.inl rfl)] at hk
      cases hk
    · rw [unpack_of_not_nul hnul] at hsrc
      exact hsrc

/-! ## The two calls -/

namespace MountRun

variable (run : MountRun spec t₀)

/-- The mount has succeeded, and so have its attributes. -/
theorem lawful_split : (run.before.vfs.mount spec.sourceArg spec.target spec.fstypeArg
      spec.mountFlags run.data).isSome ∧ nsRules.Lawful run.mounted spec.attrEvents := by
  obtain ⟨-, hrest⟩ := lawful_append.1 run.lawful
  exact lawful_cons.1 hrest

/-- The file system after the mount. -/
theorem mounted_vfs {s : Vfs} (hs : run.before.vfs.mount spec.sourceArg spec.target spec.fstypeArg
    spec.mountFlags run.data = some s) : run.mounted.vfs = s :=
  Vfs.next_of_mount hs

/-- The mounts' data after the mount. -/
theorem mounted_info {y : Place FileName} (hy : run.before.vfs.Leads spec.target y) :
    run.mounted.info =
      if spec.bind then
        match spec.sourceArg.map (run.before.vfs.resolve true) with
        | some (.at x _) => run.before.bindInfo x (run.before.vfs.mounts.top y) spec.recurse
        | _ => run.before.info
      else if spec.unshare then run.before.privateInfo y spec.recurse
      else run.before.newInfo spec.sourceArg spec.fstypeArg (run.before.vfs.mounts.top y) := by
  obtain ⟨k, hk⟩ := hy
  show run.before.mountInfo _ _ _ _ = _
  unfold MountNs.mountInfo
  rw [hk]
  dsimp only
  simp only [mountFlags_bind, mountFlags_private, mountFlags_rec, Bool.decide_eq_true]

/-- The one operation that the call of `mount(2)` performs. -/
theorem mounted_cases {y : Place FileName} (hy : run.before.vfs.Leads spec.target y) :
    (spec.bind = true ∧ ∃ src x, spec.source = some src ∧ run.before.vfs.Leads src x ∧
      run.mounted.vfs = (if spec.recurse then
        run.before.vfs.bindRec x (run.before.vfs.mounts.top y)
        else run.before.vfs.bind x (run.before.vfs.mounts.top y)) ∧
      run.mounted.info = run.before.bindInfo x (run.before.vfs.mounts.top y) spec.recurse) ∨
    (spec.bind = false ∧ spec.unshare = true ∧ run.mounted.vfs = run.before.vfs ∧
      run.mounted.info = run.before.privateInfo y spec.recurse) ∨
    (spec.bind = false ∧ spec.unshare = false ∧
      run.mounted.vfs = run.before.vfs.mountNew spec.fstypeArg spec.sourceArg
        (run.before.vfs.mounts.top y) ∧
      run.mounted.info = run.before.newInfo spec.sourceArg spec.fstypeArg
        (run.before.vfs.mounts.top y)) := by
  obtain ⟨s, hs⟩ := Option.isSome_iff_exists.1 run.lawful_split.1
  have hinfo := run.mounted_info hy
  rw [run.mounted_vfs hs]
  obtain ⟨y', hy', hcases⟩ := Vfs.mount_cases hs
  obtain rfl := hy'.unique hy
  -- The flags say which of the fields are set
  have hbind (h : spec.mountFlags &&& MS_BIND = 0) : spec.bind = false :=
    Bool.eq_false_iff.2 fun htrue => mountFlags_bind.2 htrue h
  rcases hcases with ⟨hflag, src, x, hsrc, hx, rfl⟩ | ⟨hflag, hprivate, rfl⟩ |
    ⟨hflag, hprivate, rfl⟩
  · -- A bind of what its source leads to
    have htrue := mountFlags_bind.1 hflag
    refine .inl ⟨htrue, src, x, source_of_leads hsrc hx, hx, ?_, ?_⟩
    · simp only [mountFlags_rec]
    · obtain ⟨k, hk⟩ := hx
      rw [hinfo, if_pos htrue, hsrc, Option.map_some, hk]
  · -- A change of propagation, which adds no mount
    have htrue := mountFlags_private.1 hprivate
    refine .inr (.inl ⟨hbind hflag, htrue, rfl, ?_⟩)
    rw [hinfo, hbind hflag, htrue]
    rfl
  · -- A new mount
    have hfalse : spec.unshare = false :=
      Bool.eq_false_iff.2 fun htrue => mountFlags_private.2 htrue hprivate
    refine .inr (.inr ⟨hbind hflag, hfalse, rfl, ?_⟩)
    rw [hinfo, hbind hflag, hfalse]
    rfl

/-- Attributes are set by one call. -/
theorem attrEvents_eq (hset : spec.attrSet ≠ 0) : spec.attrEvents =
    [⟨.mountSetattr .cwd spec.target (if spec.recurse then AT_RECURSIVE else 0)
      { attrSet := spec.attrSet, attrClr := 0 }, Except.ok ()⟩] := if_pos hset

/-- The change of attributes changes nothing else. -/
theorem final_eq_mounted : run.final.vfs.mounts = run.mounted.vfs.mounts ∧ ∀ n,
    (run.final.info n).propagation = (run.mounted.info n).propagation ∧
    (run.final.info n).source = (run.mounted.info n).source ∧
    (run.final.info n).fstype = (run.mounted.info n).fstype := by
  -- Without attributes to set there is no second call
  by_cases hset : spec.attrSet = 0
  · have hnil : spec.attrEvents = [] := if_neg (not_not.2 hset)
    rw [final, hnil, after_nil]
    exact ⟨rfl, fun n => ⟨rfl, rfl, rfl⟩⟩
  · have hl := run.lawful_split.2
    rw [attrEvents_eq hset, lawful_cons] at hl
    obtain ⟨s, hs⟩ := Option.isSome_iff_exists.1 hl.1
    rw [final, attrEvents_eq hset, after_cons, after_nil]
    constructor
    · show ((run.mounted.vfs.mountSetattr _ _ _ _).getD _).mounts = _
      rw [hs, Option.getD_some]
      exact (Vfs.mountSetattr_eq_some hs).1
    · exact fun n => MountNs.attrInfo_eq n

/-- The change of attributes is for the mounts that the target leads to by then. -/
theorem final_carries (hset : spec.attrSet ≠ 0) : ∃ l, run.mounted.vfs.Leads spec.target l ∧ ∀ n,
    run.final.Carries n spec.attrSet ↔
      spec.concerns run.mounted.vfs l n = true ∨ run.mounted.Carries n spec.attrSet := by
  have hl := run.lawful_split.2
  rw [attrEvents_eq hset, lawful_cons] at hl
  obtain ⟨s, hs⟩ := Option.isSome_iff_exists.1 hl.1
  -- One call, at the place that the target leads to by then
  have hfinal : run.final = ⟨s, run.mounted.attrInfo .cwd spec.target
      (if spec.recurse then AT_RECURSIVE else 0) { attrSet := spec.attrSet, attrClr := 0 }⟩ := by
    rw [final, attrEvents_eq hset, after_cons, after_nil]
    show MountNs.mk ((run.mounted.vfs.mountSetattr _ _ _ _).getD _) _ = _
    rw [hs, Option.getD_some]
  have hplace : ∃ l, run.mounted.vfs.Leads spec.target l ∧
      run.mounted.vfs.attrPlace .cwd spec.target = some l := by
    -- It has succeeded, so the target leads somewhere
    cases hat : run.mounted.vfs.resolve true spec.target with
    | «at» l k =>
      refine ⟨l, ⟨k, hat⟩, ?_⟩
      rw [Vfs.attrPlace, hat]
    | _ =>
      rw [Vfs.mountSetattr, Vfs.attrPlace, hat] at hs
      cases hs
  obtain ⟨l, hl, hplace⟩ := hplace
  refine ⟨l, hl, fun n => ?_⟩
  have hreach : run.mounted.vfs.reaches .cwd spec.target
      (if spec.recurse then AT_RECURSIVE else 0) n = spec.concerns run.mounted.vfs l n := by
    rw [Vfs.reaches, hplace, concerns]
    cases spec.recurse <;> rfl
  rw [hfinal, MountNs.carries_setattr hs, hreach]

end MountRun

/-! ## What is on top afterwards -/

section

variable {t : MountNs} {x y : Place FileName}

/-- A bind attaches the directory bound. -/
theorem bind_mounts {s : Vfs} {dst : Place FileName} {m : Mount FileName}
    (hm : s.mounts.mount x.1 = some m) :
    (s.bind x dst).mounts = s.mounts.attach m.fs x.2 dst := by
  rw [Vfs.bind, hm]
  exact congrArg Vfs.mounts (dif_pos (s.fs_lt hm))

/-- A new mount attaches the root of a file system. -/
theorem mountNew_mounts (s : Vfs) (fstype source : Option String) (dst : Place FileName) :
    ∃ fs, (s.mountNew fstype source dst).mounts = s.mounts.attach fs [] dst := by
  unfold Vfs.mountNew
  split
  · exact ⟨s.fsCount, congrArg Vfs.mounts (dif_pos (Nat.lt_succ_self s.fsCount))⟩
  · exact ⟨_, congrArg Vfs.mounts (dif_pos (s.device_lt _ _ _))⟩

/-- What is mounted on what is on top at `y` is on top there. -/
theorem top_attach_self {s : Vfs} {fs : Nat} {root : List FileName} (hy : s.mounts.Has y) :
    (s.mounts.attach fs root (s.mounts.top y)).top y = (s.mounts.size, root) := by
  rw [MountTable.top_attach (MountTable.has_top hy), if_pos rfl]

/-- A bind puts a copy of the source on top. -/
theorem bind_topmost {s : Vfs} (hs : s = if spec.recurse then t.vfs.bindRec x (t.vfs.mounts.top y)
    else t.vfs.bind x (t.vfs.mounts.top y)) (hx : t.vfs.mounts.Has x) (hy : t.vfs.mounts.Has y) :
    t.vfs.mounts.size ≤ (s.mounts.top y).1 ∧ ∃ m m',
      t.vfs.mounts.mount (spec.seen t.vfs x).1 = some m ∧
      s.mounts.mount (s.mounts.top y).1 = some m' ∧ m'.fs = m.fs ∧
      m'.root = (spec.seen t.vfs x).2 := by
  have hdst : t.vfs.mounts.Has (t.vfs.mounts.top y) := MountTable.has_top hy
  subst hs
  unfold seen
  -- The one directory, or the tree of mounts below it
  cases spec.recurse with
  | false =>
    obtain ⟨m, hm, -⟩ := hx
    simp only [Bool.false_eq_true, if_false]
    rw [bind_mounts hm, top_attach_self hy]
    exact ⟨Nat.le_refl _, m, _, hm, MountTable.attach_mount_new hdst, rfl, rfl⟩
  | true =>
    -- The top of the copy is the copy of the top
    have htop : (t.vfs.mounts.clone x (t.vfs.mounts.top y)).top y =
        t.vfs.mounts.copy (t.vfs.mounts.top x) := by
      rw [MountTable.top_clone hx hdst hy, if_pos rfl]
    simp only [if_true]
    show _ ≤ ((t.vfs.mounts.clone x (t.vfs.mounts.top y)).top y).1 ∧ ∃ m m', _ ∧
      (t.vfs.mounts.clone x (t.vfs.mounts.top y)).mount
        ((t.vfs.mounts.clone x (t.vfs.mounts.top y)).top y).1 = some m' ∧ _
    rw [htop]
    refine ⟨Nat.le_add_right _ _, ?_⟩
    -- What is seen at the source: the source itself, or the root of a mount on it
    rcases MountTable.top_cases t.vfs.mounts x with heq | ⟨hlt, m, hm, hroot⟩
    · obtain ⟨m, hm, -⟩ := hx
      rw [heq]
      exact ⟨m, _, hm, MountTable.clone_mount_src hm hdst, rfl, rfl⟩
    · have hu := (MountTable.within_self (t := t.vfs.mounts) x).top.1
      exact ⟨m, _, hm, MountTable.clone_mount_copy hm (Nat.ne_of_gt hlt) hu, rfl, hroot⟩

/-- The copies that a bind puts there are private if what is copied is, and is not put on a shared
    mount. -/
theorem bind_private_iff {s : Vfs} (hs : s = if spec.recurse then
      t.vfs.bindRec x (t.vfs.mounts.top y) else t.vfs.bind x (t.vfs.mounts.top y))
    (hx : t.vfs.mounts.Has x) (hy : t.vfs.mounts.Has y) :
    (∀ n, spec.concerns s (s.mounts.top y) n = true →
      (t.bindInfo x (t.vfs.mounts.top y) spec.recurse n).propagation = .priv) ↔
    (t.info (t.vfs.mounts.top y).1).propagation ≠ .shared ∧
      ∀ n, spec.concerns t.vfs (spec.seen t.vfs x) n = true → (t.info n).propagation = .priv := by
  have hdst : t.vfs.mounts.Has (t.vfs.mounts.top y) := MountTable.has_top hy
  subst hs
  unfold concerns seen
  -- One mount, or a copy of each mount under what is seen at the source
  cases spec.recurse with
  | false =>
    obtain ⟨m, hm, -⟩ := hx
    simp only [Bool.false_eq_true, if_false, decide_eq_true_iff, forall_eq]
    rw [bind_mounts hm, top_attach_self hy, MountNs.bindInfo, if_neg Bool.false_ne_true,
      if_pos rfl, MountInfo.onto_propagation]
  | true =>
    have htop : (t.vfs.mounts.clone x (t.vfs.mounts.top y)).top y =
        t.vfs.mounts.copy (t.vfs.mounts.top x) := by
      rw [MountTable.top_clone hx hdst hy, if_pos rfl]
    have hin := (MountTable.within_self (t := t.vfs.mounts) x).top
    have hcopy : ∀ k, t.bindInfo x (t.vfs.mounts.top y) true (t.vfs.mounts.size + k) =
        (t.info k).onto (t.info (t.vfs.mounts.top y).1) := by
      intro k
      rw [MountNs.bindInfo, if_pos rfl, if_neg (by omega), Nat.add_sub_cancel_left]
    simp only [if_true]
    show (∀ n, (t.vfs.mounts.clone x (t.vfs.mounts.top y)).under
      ((t.vfs.mounts.clone x (t.vfs.mounts.top y)).top y) n = true → _) ↔ _
    rw [htop]
    constructor
    · intro hall
      -- each mount under the source has its copy on top
      have hpriv : ∀ k, t.vfs.mounts.under (t.vfs.mounts.top x) k = true →
          ((t.info k).onto (t.info (t.vfs.mounts.top y).1)).propagation = .priv := by
        intro k hu
        obtain ⟨m, hm⟩ := MountTable.exists_of_under (MountTable.has_top hx) hu
        rw [← hcopy k]
        exact hall _ ((MountTable.clone_under_copy hdst hin hm).2 hu)
      have hself := hpriv _ (MountTable.under_iff.2 (.inl rfl))
      exact ⟨(MountInfo.onto_propagation.1 hself).1,
        fun n hu => (MountInfo.onto_propagation.1 (hpriv n hu)).2⟩
    · -- What is under the copy is a copy
      rintro ⟨hshared, hall⟩ n hu
      have hle : t.vfs.mounts.size + (t.vfs.mounts.top x).1 ≤ n := MountTable.le_of_under hu
      obtain ⟨k, rfl⟩ : ∃ k, n = t.vfs.mounts.size + k := ⟨n - t.vfs.mounts.size, by omega⟩
      have hhas := MountTable.has_copy hdst (MountTable.has_top hx) hin
      obtain ⟨m', hm'⟩ := MountTable.exists_of_under hhas hu
      obtain ⟨m, hm, -⟩ := MountTable.clone_mount_eq_some hdst hm'
      rw [hcopy k, MountInfo.onto_propagation]
      exact ⟨hshared, hall k ((MountTable.clone_under_copy hdst hin hm).1 hu)⟩

/-- A change of propagation is for the mount that the target leads to, and with `recurse` for what
    is on it. -/
theorem private_iff : (∀ n, spec.concerns t.vfs (t.vfs.mounts.top y) n = true →
      (t.privateInfo y spec.recurse n).propagation = .priv) ↔
    spec.recurse = true ∨ (t.vfs.mounts.top y).1 = y.1 ∨
      (t.info (t.vfs.mounts.top y).1).propagation = .priv := by
  unfold concerns MountNs.privateInfo
  cases spec.recurse with
  | false =>
    simp only [Bool.false_eq_true, if_false, decide_eq_true_iff, forall_eq, false_or]
    split
    · next h => exact iff_of_true rfl (.inl h)
    · next h => simp [h]
  | true =>
    refine iff_of_true (fun n hu => ?_) (.inl rfl)
    have hu' : t.vfs.mounts.under y n = true := (MountTable.within_self y).top.under hu
    simp only [if_true, if_pos hu']

end

/-! ## The fields -/

namespace MountRun

variable {run : MountRun spec t₀} {y : Place FileName}

/-- What is topmost at the end was so after the mount. -/
theorem topmost_eq : run.topmost y = run.mounted.vfs.mounts.top y := by
  rw [topmost, run.final_eq_mounted.1]

/-- The mounts concerned at the end were so after the mount. -/
theorem concerns_final {n : Nat} : spec.concerns run.final.vfs (run.topmost y) n =
    spec.concerns run.mounted.vfs (run.mounted.vfs.mounts.top y) n := by
  rw [topmost_eq, concerns, concerns, run.final_eq_mounted.1]

/-- A bind puts the source's directory at the target. -/
theorem bound_of_bind (hy : run.before.vfs.Leads spec.target y) (hbind : spec.bind = true) :
    run.before.vfs.mounts.size ≤ (run.topmost y).1 ∧
      ∃ src x m m', spec.source = some src ∧ run.before.vfs.Leads src x ∧
        run.before.vfs.mounts.mount (spec.seen run.before.vfs x).1 = some m ∧
        run.final.vfs.mounts.mount (run.topmost y).1 = some m' ∧
        m'.fs = m.fs ∧ m'.root = (spec.seen run.before.vfs x).2 := by
  -- Only the first of the three kinds is a bind
  rcases run.mounted_cases hy with ⟨-, src, x, hsource, hx, hvfs, -⟩ | ⟨hno, -⟩ | ⟨hno, -⟩
  · obtain ⟨hsize, m, m', hm, hm', hfs, hroot⟩ := bind_topmost hvfs hx.place.1 hy.place.1
    rw [topmost_eq, run.final_eq_mounted.1]
    exact ⟨hsize, src, x, m, m', hsource, hx, hm, hm', hfs, hroot⟩
  · rw [hno] at hbind
    cases hbind
  · rw [hno] at hbind
    cases hbind

/-- A new mount is at the target, with its source and type, if there is no `unshare` and no NUL. -/
theorem mounted_iff (hy : run.before.vfs.Leads spec.target y) (hbind : spec.bind = false) :
    (run.before.vfs.mounts.size ≤ (run.topmost y).1 ∧
      (run.final.info (run.topmost y).1).source = spec.source ∧
      (run.final.info (run.topmost y).1).fstype = spec.fstype) ↔
    spec.unshare = false ∧ (∀ s, spec.source = some s → ¬ HasNul s) ∧
      ∀ s, spec.fstype = some s → ¬ HasNul s := by
  rw [(run.final_eq_mounted.2 _).2.1, (run.final_eq_mounted.2 _).2.2, topmost_eq]
  -- A bind is excluded; a change of propagation mounts nothing
  rcases run.mounted_cases hy with ⟨hyes, -⟩ | ⟨-, hunshare, hvfs, -⟩ | ⟨-, hunshare, hvfs, hinfo⟩
  · rw [hyes] at hbind
    cases hbind
  · -- nothing has been mounted
    refine iff_of_false (fun h => ?_) fun h => ?_
    · have hlt := (MountTable.has_top hy.place.1).lt
      rw [hvfs] at h
      omega
    · rw [hunshare] at h
      cases h.1
  · obtain ⟨fs, hmounts⟩ := mountNew_mounts run.before.vfs spec.fstypeArg spec.sourceArg
      (run.before.vfs.mounts.top y)
    rw [hvfs, hmounts, top_attach_self hy.place.1, hinfo, ← sourceArg_eq_iff,
      ← fstypeArg_eq_iff hbind]
    -- What is mounted has the source and type that the call was given
    have hnew : ∀ parent : MountInfo, (MountInfo.onto (MountInfo.mk 0 .priv spec.sourceArg
        spec.fstypeArg) parent).source = spec.sourceArg ∧ (MountInfo.onto (MountInfo.mk 0 .priv
        spec.sourceArg spec.fstypeArg) parent).fstype = spec.fstypeArg := by
      intro parent
      unfold MountInfo.onto
      split <;> exact ⟨rfl, rfl⟩
    rw [MountNs.newInfo, if_pos rfl, (hnew _).1, (hnew _).2]
    exact and_congr_left' (iff_of_true (Nat.le_refl _) hunshare)

/-- All mounts concerned are private, if those bound or changed are to be so. -/
theorem unshared_iff (hy : run.before.vfs.Leads spec.target y) (hunshare : spec.unshare = true) :
    (∀ n, spec.concerns run.final.vfs (run.topmost y) n = true →
      (run.final.info n).propagation = .priv) ↔
    (spec.bind = true → ∀ src x, spec.source = some src → run.before.vfs.Leads src x →
      (run.before.info (run.before.vfs.mounts.top y).1).propagation ≠ .shared ∧
      ∀ n, spec.concerns run.before.vfs (spec.seen run.before.vfs x) n = true →
        (run.before.info n).propagation = .priv) ∧
    (spec.bind = false → spec.recurse = true ∨ (run.before.vfs.mounts.top y).1 = y.1 ∨
      (run.before.info (run.before.vfs.mounts.top y).1).propagation = .priv) := by
  simp only [concerns_final, (run.final_eq_mounted.2 _).1]
  -- A bind, a change of propagation, or a new mount, which `hunshare` excludes
  rcases run.mounted_cases hy with ⟨hbind, src, x, hsource, hx, hvfs, hinfo⟩ |
    ⟨hbind, -, hvfs, hinfo⟩ | ⟨-, hno, -⟩
  · -- A bind makes copies, whose propagation depends on what is copied, and onto what
    rw [hinfo, bind_private_iff hvfs hx.place.1 hy.place.1]
    constructor
    · intro h
      refine ⟨fun _ src' x' hsource' hx' => ?_, fun hfalse => ?_⟩
      · cases hsource.symm.trans hsource'
        obtain rfl := hx'.unique hx
        exact h
      · rw [hbind] at hfalse
        cases hfalse
    · exact fun h => h.1 hbind src x hsource hx
  · -- The propagation is what the call has set
    rw [hvfs, hinfo, private_iff, hbind]
    simp
  · rw [hno] at hunshare
    cases hunshare

/-- Where the target led to `y`, all that the fields ask for has been done exactly if they ask for
    one operation at a time and both calls find the same mount. -/
theorem doneAt_iff (hy : run.before.vfs.Leads spec.target y) : run.DoneAt y ↔ run.HeedsAt y := by
  -- Where attributes are asked for, `l` is the place that the second call finds
  have hattrs : spec.safe = true ∨ spec.readOnly = true →
      ((∀ n, spec.concerns run.final.vfs (run.topmost y) n = true →
        run.final.Carries n spec.attrSet) ↔
      ∃ l, run.mounted.vfs.Leads spec.target l ∧ ∀ n,
        spec.concerns run.mounted.vfs (run.mounted.vfs.mounts.top y) n = true →
          spec.concerns run.mounted.vfs l n = true ∨ run.mounted.Carries n spec.attrSet) := by
    intro hset
    obtain ⟨l, hl, hcarries⟩ := run.final_carries (attrSet_ne_zero.2 hset)
    simp only [concerns_final, hcarries]
    constructor
    · exact fun h => ⟨l, hl, h⟩
    · rintro ⟨l', hl', h⟩
      rwa [hl'.unique hl] at h
  -- Field by field, in both directions
  constructor
  · intro hdone
    exact
      { mounted := fun hbind hfstype => (mounted_iff hy hbind).1 (hdone.mounted hbind hfstype)
        bound := fun hunshare => ((unshared_iff hy hunshare).1 (hdone.unshared hunshare)).1
        unshared := fun hunshare => ((unshared_iff hy hunshare).1 (hdone.unshared hunshare)).2
        attributes := fun hset => (hattrs hset).1 (hdone.attributes hset) }
  · intro hheeds
    exact
      { bound := bound_of_bind hy
        mounted := fun hbind hfstype => (mounted_iff hy hbind).2 (hheeds.mounted hbind hfstype)
        unshared := fun hunshare =>
          (unshared_iff hy hunshare).2 ⟨hheeds.bound hunshare, hheeds.unshared hunshare⟩
        attributes := fun hset => (hattrs hset).2 (hheeds.attributes hset) }

/-- A mount that succeeds has done all that its fields ask for exactly if they ask for one operation
    at a time and both calls find the same mount. -/
theorem done_iff (run : MountRun spec t₀) : run.Done ↔ run.Heeds :=
  exists_congr fun _ => and_congr_right doneAt_iff

end MountRun

/-- A file system of its own, on a directory that has something mounted on it. -/
def scratchSpec (unshare : Bool) : MountSpec :=
  { source := some "tmpfs", target := "/data", fstype := some "tmpfs", bind := false,
    recurse := false, unshare := unshare, safe := true, createMountpoint := false,
    readOnly := false, data := none }

/-- A host with a volume that is mounted on a directory. -/
def hostWithData : MountNs where
  vfs := (Vfs.host fun q =>
    if [[], ["data".toList], ["vol".toList]].contains q then some .dir else none).attach 0
      ["vol".toList] (0, ["data".toList]) false
  info _ := { attrs := 0, propagation := .shared, source := none, fstype := none }

/-- The run in which `/data` gets a tmpfs. -/
def scratchRun (unshare : Bool) : MountRun (scratchSpec unshare) hostWithData where
  making := []
  data := none
  not_nul := show ¬ HasNul "/data" by decide
  make_runs := .refl _
  data_runs := .refl _
  lawful := by
    have hset : (scratchSpec unshare).attrSet ≠ 0 := attrSet_ne_zero.2 (.inl rfl)
    rw [List.nil_append, lawful_cons, MountRun.attrEvents_eq hset, lawful_cons]
    refine ⟨?_, ?_, lawful_nil _ _⟩
    all_goals
      show Option.isSome _ = true
      revert unshare
      decide +kernel

/-- Its target leads to the directory `vol` of the second mount. -/
theorem scratchRun_leads (unshare : Bool) :
    (scratchRun unshare).before.vfs.Leads "/data" (1, ["vol".toList]) := by
  refine ⟨40, ?_⟩
  revert unshare
  decide +kernel

/-- A file system that is to be private is not mounted at all. -/
theorem not_done_scratch : ¬ (scratchRun true).Done := by
  rintro ⟨y, hy, hdone⟩
  obtain rfl := hy.unique (scratchRun_leads true)
  have hsize := (hdone.mounted rfl rfl).1
  revert hsize
  decide +kernel

/-- Otherwise it is mounted, with the attributes that are asked for. -/
theorem done_scratch : (scratchRun false).Done := by
  have htop : (scratchRun false).mounted.vfs.mounts.top (1, ["vol".toList]) = (2, []) := by
    decide +kernel
  have hagain : (scratchRun false).mounted.vfs.Leads "/data" (2, []) := ⟨40, by decide +kernel⟩
  refine (scratchRun false).done_iff.2 ⟨_, scratchRun_leads false, ?_⟩
  exact
    { mounted := by
        refine fun _ _ => ⟨rfl, fun s hs => ?_, fun s hs => ?_⟩
        all_goals
          cases hs
          decide
      bound := fun hunshare => by cases hunshare
      unshared := fun hunshare => by cases hunshare
      attributes := fun _ => ⟨(2, []), hagain, fun n hn => .inl (htop ▸ hn)⟩ }

end MountSpec

end Styrolite
