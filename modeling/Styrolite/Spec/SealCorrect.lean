import Styrolite.Spec.ReadOnlyCorrect
import Styrolite.Spec.TargetsCorrect

/-!
# Setting up under a read-only root

`pivot_fs` seals the new root before it makes the mount points and the directories
in it. What succeeds without the seal goes the same way with it exactly if nothing
is made or emptied after the seal on the mount that is sealed or on a copy of it
(`sealedAlike_iff`).

The two runs are compared step by step. Their states are the same but for the
attributes of some mounts (`Vfs.twin`), of which there are more with each bind of
one of them (`Vfs.spread`).
-/

namespace Styrolite

open Prog LocalRules

namespace Vfs

/-- The state in which the mounts in `K` are read-only too. The descriptors may be others. -/
def twin (trees : Nat → Option (Place FileName)) (s : Vfs) (K : Nat → Bool) : Vfs :=
  { s with readOnly := fun n => s.readOnly n || K n, trees := trees }

/-- The mounts in `K`, and the copies of them that the call makes. -/
def spread (s : Vfs) (K : Nat → Bool) (c : Call) (a : c.Answer) (n : Nat) : Bool :=
  match c, a with
  | .mount source _ _ flags _, .ok () =>
    if flags &&& MS_BIND ≠ 0 then
      match source.map (s.resolve true) with
      | some (.at x _) =>
        if flags &&& MS_REC ≠ 0 then if n < s.mounts.size then K n else K (n - s.mounts.size)
        else if n = s.mounts.size then K x.1 else K n
      | _ => K n
    else if flags &&& MS_PRIVATE ≠ 0 then K n
    else if n = s.mounts.size then false else K n
  | _, _ => K n

/-- The mount on which `mkdir(2)` makes a directory, if the name is free. -/
def mkdirOn (s : Vfs) (l : Place FileName) (cs : List (Component FileName)) : List Nat :=
  match (s.space s.root).walk false MAXSYMLINKS l cs with
  | .free dir _ => [dir.1]
  | _ => []

/-- The mounts on which the call makes directories or a file, or empties a regular file. -/
def writes (s : Vfs) : Call → List Nat
  | .fsCreateDirAll path => (List.range ((dirSteps path).length + 1)).flatMap fun i =>
      (s.makeDirs path i).mkdirOn (s.start path) ((dirSteps path).take i)
  | .fsFileCreate path =>
    match s.resolve true path with
    | .free dir _ => [dir.1]
    | .at l _ => if s.isFile l then [l.1] else []
    | _ => []
  | _ => []

variable {s : Vfs} {trees : Nat → Option (Place FileName)} {K : Nat → Bool}

/-! ## Mounts in the two states -/

/-- Attaching a file system in the twin: the new mount has the flag it gets there. -/
theorem attach_twin {fs : Nat} {root : List FileName} {dst : Place FileName} (ro b : Bool)
    (hfs : fs < s.fsCount) : (s.twin trees K).attach fs root dst (ro || b) =
      (s.attach fs root dst ro).twin trees fun n => if n = s.mounts.size then b else K n := by
  rw [attach, attach, dif_pos hfs, dif_pos (show fs < (s.twin trees K).fsCount from hfs)]
  unfold twin
  congr 1
  funext n
  dsimp only
  split <;> rfl

/-- A bind in the twin: the copy has the flag of its source. -/
theorem bind_twin {src dst : Place FileName} (hsrc : s.mounts.Has src) :
    (s.twin trees K).bind src dst =
      (s.bind src dst).twin trees fun n => if n = s.mounts.size then K src.1 else K n := by
  obtain ⟨m, hm, -⟩ := hsrc
  have hm' : (s.twin trees K).mounts.mount src.1 = some m := hm
  rw [bind, bind, hm, hm']
  exact attach_twin _ _ (s.fs_lt hm)

/-- A recursive bind in the twin: every copy has the flag of what it is a copy of. -/
theorem bindRec_twin {src dst : Place FileName} : (s.twin trees K).bindRec src dst =
    (s.bindRec src dst).twin trees fun n =>
      if n < s.mounts.size then K n else K (n - s.mounts.size) := by
  unfold bindRec twin
  congr 1
  funext n
  dsimp only
  split <;> rfl

/-- A new mount in the twin has no flag of the twin's own. -/
theorem mountNew_twin {fstype source : Option String} {dst : Place FileName} :
    (s.twin trees K).mountNew fstype source dst = (s.mountNew fstype source dst).twin trees
      fun n => if n = s.mounts.size then false else K n := by
  unfold mountNew
  split
  · exact attach_twin (s := s.addTmpfs) false false (Nat.lt_succ_self s.fsCount)
  · exact attach_twin false false (s.device_lt _ _ _)

/-- `mount(2)` succeeds in the twin exactly when it does in the state itself. -/
theorem mount_twin (source : Option String) (target : String) (fstype : Option String)
    (flags : U64) (data : Option String) : (s.twin trees K).mount source target fstype flags data =
      (s.mount source target fstype flags data).map fun s' =>
        s'.twin trees (s.spread K (.mount source target fstype flags data) (.ok ())) := by
  -- Flags of mounts play no part in where a path leads
  have hresolve : (s.twin trees K).resolve true = s.resolve true := rfl
  have hfits : (s.twin trees K).fits = s.fits := rfl
  have hroot : (s.twin trees K).isMountRoot = s.isMountRoot := rfl
  have hdir : (s.twin trees K).isDir = s.isDir := rfl
  have hmounts : (s.twin trees K).mounts = s.mounts := rfl
  have hmountable : (s.twin trees K).mountable = s.mountable := rfl
  unfold mount
  rw [hresolve, hfits, hroot, hdir, hmounts, hmountable]
  split
  · next y k hy =>
    split
    · next hbind =>
      split
      · next x k' hx =>
        split
        · obtain ⟨path, -, hpath⟩ := Option.map_eq_some_iff.1 hx
          have hhas : s.mounts.Has x := (Leads.place ⟨k', hpath⟩).1
          -- A copy has the flag of what it is a copy of
          have hspread : s.spread K (.mount source target fstype flags data) (.ok ()) = fun n =>
              if flags &&& MS_REC ≠ 0 then
                if n < s.mounts.size then K n else K (n - s.mounts.size)
              else if n = s.mounts.size then K x.1 else K n := by
            funext n
            rw [spread, if_pos hbind, hx]
          rw [hspread]
          split
          · next hrec =>
            rw [Option.map_some, bindRec_twin]
          · next hrec =>
            rw [Option.map_some, bind_twin hhas]
        · rfl
      · rfl
    · next hbind =>
      split
      · next hprivate =>
        -- No mount is added
        have hspread : s.spread K (.mount source target fstype flags data) (.ok ()) = K := by
          funext n
          rw [spread, if_neg hbind, if_pos hprivate]
        rw [hspread]
        split <;> rfl
      · next hprivate =>
        -- A new mount has no flag
        have hspread : s.spread K (.mount source target fstype flags data) (.ok ()) = fun n =>
            if n = s.mounts.size then false else K n := by
          funext n
          rw [spread, if_neg hbind, if_neg hprivate]
        rw [hspread]
        split
        · rw [Option.map_some, mountNew_twin]
        · rfl
  · rfl

/-! ## Directories in the two states -/

/-- A node is made alike in both. -/
theorem create_twin {dir : Place FileName} {name : FileName} {nd : Node} :
    (s.twin trees K).create dir name nd = (s.create dir name nd).twin trees K := by
  cases hm : s.mounts.mount dir.1 with
  | none =>
    have hm' : (s.twin trees K).mounts.mount dir.1 = none := hm
    rw [create, create, hm, hm']
  | some m =>
    have hm' : (s.twin trees K).mounts.mount dir.1 = some m := hm
    rw [create, create, hm, hm']
    rfl

/-- The mounts on which `mkdir` would write: that of the parent, if the name is free. -/
theorem mem_mkdirOn {l : Place FileName} {cs : List (Component FileName)} {n : Nat} :
    n ∈ s.mkdirOn l cs ↔
      ∃ dir name, (s.space s.root).walk false MAXSYMLINKS l cs = .free dir name ∧ n = dir.1 := by
  unfold mkdirOn
  split
  · next dir name hfree => simp [hfree]
  · next hno =>
    simp only [List.not_mem_nil, false_iff]
    rintro ⟨dir, name, hfree, -⟩
    exact hno dir name hfree

/-- `mkdir` does the same in both, unless it would write on a mount in `K`. -/
theorem mkdir_twin {l : Place FileName} {cs : List (Component FileName)}
    (hK : ∀ n ∈ s.mkdirOn l cs, K n = false) :
    (s.twin trees K).mkdir l cs = (s.mkdir l cs).twin trees K := by
  have hwalk : ((s.twin trees K).space (s.twin trees K).root).walk false MAXSYMLINKS l cs =
      (s.space s.root).walk false MAXSYMLINKS l cs := rfl
  unfold mkdir
  rw [hwalk]
  split
  · next dir name hfree =>
    -- The parent is on no mount of `K`, so its flag is the same
    have hro : (s.twin trees K).readOnly dir.1 = s.readOnly dir.1 := by
      show (s.readOnly dir.1 || K dir.1) = s.readOnly dir.1
      rw [hK _ (mem_mkdirOn.2 ⟨dir, name, hfree, rfl⟩), Bool.or_false]
    rw [hro]
    split
    · rfl
    · exact create_twin
  · rfl

/-- One more component made. -/
theorem makeDirs_succ {path : String} {i : Nat} (hnul : ¬ HasNul path)
    (hi : i ≤ (dirSteps path).length) :
    s.makeDirs path (i + 1) = (s.makeDirs path i).mkdir (s.start path) ((dirSteps path).take i) := by
  have hlt : i < (dirSteps path).inits.length := by
    rw [List.length_inits]
    omega
  have hcs : (dirSteps path).inits[i]? = some ((dirSteps path).take i) := by
    rw [List.getElem?_eq_getElem hlt, List.getElem_inits]
  rw [makeDirs, makeDirs, if_neg hnul, if_neg hnul, List.take_add_one, hcs]
  simp

/-- As long as nothing is made on a mount in `K`, the same directories are made. -/
theorem makeDirs_twin {path : String} {i : Nat} (hi : i ≤ (dirSteps path).length + 1)
    (hK : ∀ j < i, ∀ n ∈ (s.makeDirs path j).mkdirOn (s.start path) ((dirSteps path).take j),
      K n = false) :
    (s.twin trees K).makeDirs path i = (s.makeDirs path i).twin trees K := by
  by_cases hnul : HasNul path
  · rw [makeDirs, makeDirs, if_pos hnul, if_pos hnul]
  · induction i with
    | zero => rw [makeDirs, makeDirs, if_neg hnul, if_neg hnul]; rfl
    | succ i ih =>
      have hprev := ih (by omega) fun j hj => hK j (by omega)
      rw [makeDirs_succ hnul (by omega), makeDirs_succ hnul (by omega), hprev]
      exact mkdir_twin (hK i (by omega))

/-- Where a directory is missing that cannot be made, no more are made. -/
theorem makeDirs_stuck {path : String} {i : Nat} {dir : Place FileName} {name : FileName}
    (hfree : ((s.makeDirs path i).space (s.makeDirs path i).root).walk false MAXSYMLINKS
      (s.start path) ((dirSteps path).take i) = .free dir name)
    (hro : (s.makeDirs path i).readOnly dir.1 = true) {d : Nat}
    (hj : i + d ≤ (dirSteps path).length + 1) : s.makeDirs path (i + d) = s.makeDirs path i := by
  by_cases hnul : HasNul path
  · rw [makeDirs, makeDirs, if_pos hnul, if_pos hnul]
  · induction d with
    | zero => rfl
    | succ d ih =>
      rw [← Nat.add_assoc, makeDirs_succ hnul (by omega), ih (by omega), mkdir]
      rcases PathSpace.walk_take_of_free false hfree (Nat.le_add_right i d) with h | h
      · rw [h]
        exact if_pos hro
      · rw [h]

/-- The mounts on which `create_dir_all` writes: those of each of its `mkdir`s. -/
theorem mem_writes_createDirAll {path : String} {n : Nat} :
    n ∈ s.writes (.fsCreateDirAll path) ↔ ∃ i, i ≤ (dirSteps path).length ∧
      n ∈ (s.makeDirs path i).mkdirOn (s.start path) ((dirSteps path).take i) := by
  simp only [writes, List.mem_flatMap, List.mem_range, Nat.lt_succ_iff]

/-- A directory that cannot be made is missing afterwards. -/
theorem createDirAll_stuck {path : String} {i : Nat} {dir : Place FileName} (name : FileName)
    (hi : i ≤ (dirSteps path).length)
    (hfree : ((s.makeDirs path i).space (s.makeDirs path i).root).walk false MAXSYMLINKS
      (s.start path) ((dirSteps path).take i) = .free dir name)
    (hro : (s.makeDirs path i).readOnly dir.1 = true) : s.createDirAll path = none := by
  have hne : path ≠ "" := by
    rintro rfl
    obtain ⟨ds, k, hlast, -⟩ := PathSpace.exists_of_free hfree
    have hmem : Component.down name ∈ dirSteps "" := by
      apply List.mem_of_mem_take (i := i)
      rw [hlast]
      simp
    exact absurd ((dirSteps_initial "").subset hmem) (by simp [steps, component])
  -- However long the call goes on, it gets no further than `i` components
  have hall : s.makeDirs path ((dirSteps path).length + 1) = s.makeDirs path i := by
    have hstuck := makeDirs_stuck hfree hro (d := (dirSteps path).length + 1 - i) (by omega)
    rwa [Nat.add_sub_cancel' (by omega)] at hstuck
  -- So the path leads nowhere afterwards
  have hno : ∀ l k, (s.makeDirs path i).resolve true path ≠ .at l k := by
    intro l k hat
    obtain ⟨-, -, hwalk⟩ := resolve_eq_at.1 hat
    have hmore : s.MoreFiles (s.makeDirs path i) := makeDirs_moreFiles path i
    have hstart : (s.makeDirs path i).start path = s.start path := by
      rw [start, start, hmore.root, hmore.cwd]
    rw [take_dirSteps hi] at hfree
    rw [hstart, ← List.take_length (l := steps path)] at hwalk
    rcases PathSpace.walk_take_of_free true hfree (hi.trans (length_dirSteps_le path)) with h | h
    · rw [h] at hwalk
      cases hwalk
    · rw [h] at hwalk
      cases hwalk
  unfold createDirAll
  dsimp only
  rw [hall]
  split
  · next l k hat => exact absurd hat (hno l k)
  · exact if_neg hne

/-- `create_dir_all` does the same in the twin, unless it would write on a mount in `K`. -/
theorem createDirAll_twin (s : Vfs) (trees : Nat → Option (Place FileName)) (K : Nat → Bool)
    (path : String) : (s.twin trees K).createDirAll path =
    if ∀ n ∈ s.writes (.fsCreateDirAll path), K n = false then
      (s.createDirAll path).map fun s' => s'.twin trees K
    else none := by
  split
  · next hK =>
    have hall : (s.twin trees K).makeDirs path ((dirSteps path).length + 1) =
        (s.makeDirs path ((dirSteps path).length + 1)).twin trees K :=
      makeDirs_twin (Nat.le_refl _) fun j hj n hn =>
        hK n (mem_writes_createDirAll.2 ⟨j, Nat.lt_succ_iff.1 hj, hn⟩)
    -- A path leads to the same place afterwards
    have hsame : ∀ t : Vfs, (t.twin trees K).resolve true path = t.resolve true path ∧
        (t.twin trees K).isDir = t.isDir := fun t => ⟨rfl, rfl⟩
    unfold createDirAll
    dsimp only
    rw [hall, (hsame _).1, (hsame _).2]
    split
    · split <;> rfl
    · split <;> rfl
  · next hK =>
    -- the first directory that is to be made on a mount in `K` is not made
    have hex : ∃ i, i ≤ (dirSteps path).length ∧ ∃ n ∈ (s.makeDirs path i).mkdirOn (s.start path)
        ((dirSteps path).take i), K n = true := by
      by_contra hno
      refine hK fun n hn => Bool.eq_false_iff.2 fun htrue => hno ?_
      obtain ⟨i, hi, hmem⟩ := mem_writes_createDirAll.1 hn
      exact ⟨i, hi, n, hmem, htrue⟩
    classical
    obtain ⟨hi, n, hmem, htrue⟩ := Nat.find_spec hex
    -- Up to there nothing is written on a mount in `K`
    have hbefore : (s.twin trees K).makeDirs path (Nat.find hex) =
        (s.makeDirs path (Nat.find hex)).twin trees K := by
      refine makeDirs_twin (Nat.le_succ_of_le hi) fun j hj m hm => Bool.eq_false_iff.2 fun h => ?_
      exact Nat.find_min hex hj ⟨by omega, m, hm, h⟩
    obtain ⟨dir, name, hfree, rfl⟩ := mem_mkdirOn.1 hmem
    -- That directory would be on a mount in `K`, which is read-only in the twin
    have hro : ((s.makeDirs path (Nat.find hex)).twin trees K).readOnly dir.1 = true := by
      show (_ || K dir.1) = true
      rw [htrue, Bool.or_true]
    rw [← hbefore] at hro
    refine createDirAll_stuck name hi ?_ hro
    rw [hbefore]
    exact hfree

/-! ## A call in the two states -/

/-- A file is emptied alike in both. -/
theorem truncate_twin {l : Place FileName} :
    (s.twin trees K).truncate l = (s.truncate l).twin trees K := by
  have hmounts : (s.twin trees K).mounts.mount l.1 = s.mounts.mount l.1 := rfl
  have hnode : (s.twin trees K).nodeAt l = s.nodeAt l := rfl
  unfold truncate
  rw [hmounts, hnode]
  split <;> rfl

/-- `File::create` does the same in the twin, unless it would write on a mount in `K`. -/
theorem createFile_twin (s : Vfs) (trees : Nat → Option (Place FileName)) (K : Nat → Bool)
    (path : String) : (s.twin trees K).createFile path =
    if ∀ n ∈ s.writes (.fsFileCreate path), K n = false then
      (s.createFile path).map fun s' => s'.twin trees K
    else none := by
  have hresolve : (s.twin trees K).resolve true path = s.resolve true path := rfl
  have hentry : (s.twin trees K).entry = s.entry := rfl
  have hnode : (s.twin trees K).nodeAt = s.nodeAt := rfl
  have hisFile : (s.twin trees K).isFile = s.isFile := rfl
  have hro : ∀ n, (s.twin trees K).readOnly n = (s.readOnly n || K n) := fun _ => rfl
  unfold createFile
  rw [hresolve, hentry, hnode]
  -- A file is made in a directory or emptied where it is: either is a write to that mount
  cases hat : s.resolve true path with
  | free dir name =>
    have hwrites : s.writes (.fsFileCreate path) = [dir.1] := by rw [writes, hat]
    simp only [hwrites, List.mem_singleton, forall_eq, hro]
    cases hK : K dir.1 with
    | true => simp
    | false =>
      rw [if_pos rfl, Bool.or_false, create_twin]
      split <;> rfl
  | «at» l k =>
    have hwrites : s.writes (.fsFileCreate path) = if s.isFile l then [l.1] else [] := by
      rw [writes, hat]
    dsimp only
    rw [hwrites, hisFile, hro]
    cases hfile : s.isFile l with
    | true =>
      simp only [if_true, List.mem_singleton, forall_eq]
      cases hK : K l.1 with
      | true => simp
      | false =>
        rw [if_pos rfl, Bool.or_false, truncate_twin]
        split <;> rfl
    | false =>
      -- a device is opened whatever the flags of its mount are
      rw [if_neg Bool.false_ne_true, if_pos fun _ hn => absurd hn List.not_mem_nil, truncate_twin]
      simp only [Bool.false_eq_true, false_and]
      split <;> rfl
  | missing => simp
  | notDir => simp
  | loop => simp

/-- `chdir` goes to the same place in both. -/
theorem setCurrentDir_twin (path : String) : (s.twin trees K).setCurrentDir path =
    (s.setCurrentDir path).map fun s' => s'.twin trees K := by
  have hresolve : (s.twin trees K).resolve true path = s.resolve true path := rfl
  unfold setCurrentDir
  rw [hresolve]
  split
  · next l k hl =>
    by_cases hdir : s.isDir l ∧ s.mounts.Has l
    · have hdir' : (s.twin trees K).isDir l ∧ (s.twin trees K).mounts.Has l := hdir
      rw [dif_pos hdir, dif_pos hdir']
      rfl
    · have hdir' : ¬ ((s.twin trees K).isDir l ∧ (s.twin trees K).mounts.Has l) := hdir
      rw [dif_neg hdir, dif_neg hdir']
      rfl
  · rfl

/-- `pivot_root` does the same in both. -/
theorem pivotRoot_twin (newRoot : String) : (s.twin trees K).pivotRoot newRoot =
    (s.pivotRoot newRoot).map fun s' => s'.twin trees K := by
  -- No condition of `pivot_root` is on flags
  have hresolve : (s.twin trees K).resolve true newRoot = s.resolve true newRoot := rfl
  unfold pivotRoot
  rw [hresolve]
  split
  · next l k hl =>
    by_cases hdir : (s.isDir l ∧ s.isMountRoot l ∧ l.1 ≠ s.root.1) ∧ s.mounts.Has l
    · have hdir' : ((s.twin trees K).isDir l ∧ (s.twin trees K).isMountRoot l ∧
          l.1 ≠ (s.twin trees K).root.1) ∧ (s.twin trees K).mounts.Has l := hdir
      rw [dif_pos hdir, dif_pos hdir']
      rfl
    · have hdir' : ¬ (((s.twin trees K).isDir l ∧ (s.twin trees K).isMountRoot l ∧
          l.1 ≠ (s.twin trees K).root.1) ∧ (s.twin trees K).mounts.Has l) := hdir
      rw [dif_neg hdir, dif_neg hdir']
      rfl
  · rfl

/-- The attributes of a mount at a path are changed in one state as in the other. -/
theorem mountSetattr_twin {path : String} {flags : CInt} {attr : MountAttr}
    (hclr : attr.attrClr = 0) : (s.twin trees K).mountSetattr .cwd path flags attr =
      (s.mountSetattr .cwd path flags attr).map fun s' => s'.twin trees K := by
  -- The twin has the same place and the same mounts below it
  have hplace : (s.twin trees K).attrPlace .cwd path = s.attrPlace .cwd path := rfl
  have hroot : (s.twin trees K).isMountRoot = s.isMountRoot := rfl
  have hreach : (s.twin trees K).reaches .cwd path flags = s.reaches .cwd path flags := rfl
  unfold mountSetattr
  rw [hplace, hroot, hreach, hclr]
  split
  · split
    · rw [Option.map_some]
      unfold twin
      congr 2
      funext n
      dsimp only
      split
      · -- A flag set now and a flag of the twin's own come to the same in either order
        simp [Bool.or_right_comm]
      · rfl
    · rfl
  · rfl

/-- An event of the setup can happen in the second state if it can in the first and writes on no
    mount in `K`, and leads on to states that are the same again. -/
theorem event_twin {c : Call} {a : c.Answer} (he : Event.Populates ⟨c, a⟩) :
    ((s.twin trees K).allows c a ↔ s.allows c a ∧ ∀ n ∈ s.writes c, K n = false) ∧
      (s.allows c a → (∀ n ∈ s.writes c, K n = false) →
        (s.twin trees K).next c a = (s.next c a).twin trees (s.spread K c a)) := by
  -- A call that answers with a state: the twin answers with the twin of it, or refuses
  have hcall : ∀ {o o' : Option Vfs} {K' : Nat → Bool} {P : Prop},
      (P → o' = o.map fun s' => s'.twin trees K') → (¬ P → o' = none) →
        (o'.isSome ↔ o.isSome ∧ P) ∧
          (o.isSome → P → o'.getD (s.twin trees K) = (o.getD s).twin trees K') := by
    intro o o' K' P hsame hnone
    constructor
    · -- The condition decides whether the twin answers at all
      by_cases hP : P
      · rw [hsame hP, Option.isSome_map]
        exact ⟨fun h => ⟨h, hP⟩, fun h => h.1⟩
      · rw [hnone hP]
        exact iff_of_false Bool.false_ne_true fun h => hP h.2
    · intro ho hP
      obtain ⟨s', rfl⟩ := Option.isSome_iff_exists.1 ho
      rw [hsame hP]
      rfl
  -- a call that writes on no mount
  have hwrites : ∀ {P : Prop}, s.writes c = [] → ¬ (∀ n ∈ s.writes c, K n = false) → P := by
    intro P hnil hno
    rw [hnil] at hno
    exact absurd (fun n hn => absurd hn List.not_mem_nil) hno
  have hplain : ∀ {P Q : Prop}, s.writes c = [] → (P ↔ Q) →
      (P ↔ Q ∧ ∀ n ∈ s.writes c, K n = false) := by
    intro P Q hnil hPQ
    rw [hPQ, hnil]
    simp
  cases c with
  -- Each call that writes nothing answers as before, and the others as shown above
  | mount source target fstype flags data =>
    cases a with
    | error e => exact ⟨hplain rfl Iff.rfl, fun _ _ => rfl⟩
    | ok u => exact hcall (fun _ => mount_twin source target fstype flags data) (hwrites rfl)
  | mountSetattr dir path flags attr =>
    obtain ⟨rfl, hclr⟩ := he
    cases a with
    | error e => exact ⟨hplain rfl Iff.rfl, fun _ _ => rfl⟩
    | ok u => exact hcall (fun _ => mountSetattr_twin hclr) (hwrites rfl)
  | openTree path flags => exact he.elim
  | fsCreateDirAll path =>
    obtain rfl : a = Except.ok () := he
    have hmake := createDirAll_twin s trees K path
    exact hcall (fun hK => hmake.trans (if_pos hK)) fun hK => hmake.trans (if_neg hK)
  | fsFileCreate path =>
    obtain rfl : a = Except.ok () := he
    have hmake := createFile_twin s trees K path
    exact hcall (fun hK => hmake.trans (if_pos hK)) fun hK => hmake.trans (if_neg hK)
  | setCurrentDir path =>
    cases a with
    | error e => exact ⟨hplain rfl Iff.rfl, fun _ _ => rfl⟩
    | ok u => exact hcall (fun _ => setCurrentDir_twin path) (hwrites rfl)
  | pivotRoot newRoot putOld =>
    cases a with
    | error e => exact ⟨hplain rfl Iff.rfl, fun _ _ => rfl⟩
    | ok u => exact hcall (fun _ => pivotRoot_twin newRoot) (hwrites rfl)
  | fsMetadata path => cases a <;> exact ⟨hplain rfl Iff.rfl, fun _ _ => rfl⟩
  | fsSymlinkMetadata path => cases a <;> exact ⟨hplain rfl Iff.rfl, fun _ _ => rfl⟩
  | _ => exact ⟨hplain rfl Iff.rfl, fun _ _ => rfl⟩

end Vfs

/-- The rules for a run that writes on no mount of a set, with the copies that are made of these. -/
def sparingRules : LocalRules calls (Vfs × (Nat → Bool)) where
  allows t c a := t.1.allows c a ∧ ∀ n ∈ t.1.writes c, t.2 n = false
  next t c a := (t.1.next c a, t.1.spread t.2 c a)

/-- The sparing rules pass through the same states as the rules themselves. -/
theorem sparingRules_after (s : Vfs) (K : Nat → Bool) (h : List Event) :
    (sparingRules.after (s, K) h).1 = vfsRules.after s h := by
  induction h generalizing s K with
  | nil => rfl
  | cons e h ih => exact ih _ _

/-- A run of the setup can happen in the second state if it can in the first and writes on no mount
    in `K` and no copy of one. -/
theorem lawful_twin {s : Vfs} {trees : Nat → Option (Place FileName)} {K : Nat → Bool}
    {h : List Event} (hh : ∀ e ∈ h, e.Populates) :
    (vfsRules.Lawful (s.twin trees K) h ↔ sparingRules.Lawful (s, K) h) ∧
      (sparingRules.Lawful (s, K) h → vfsRules.after (s.twin trees K) h =
        (vfsRules.after s h).twin trees (sparingRules.after (s, K) h).2) := by
  have hstep := lawful_of_step sparingRules vfsRules (fun t => t.1.twin trees t.2) (t := (s, K))
    (h := h) (S := Event.Populates)
    (fun t c a he => (Vfs.event_twin he).1)
    (fun t c a he ha => (Vfs.event_twin he).2 ha.1 ha.2) hh
  refine ⟨hstep.1, fun hsparing => ?_⟩
  rw [hstep.2 hsparing, sparingRules_after]

namespace CreateRequest

/-- The request with a read-only root. -/
def sealed (req : CreateRequest) : CreateRequest := { req with rootfsReadonly := some true }

/-- The seal can be made where the path of the new root leads to the root of a mount. -/
theorem sealEvents_twin {s : Vfs} {root : String} {l : Place FileName} (hl : s.Leads root l)
    (fd : Nat) : (vfsRules.Lawful s (sealEvents root fd) ↔ s.isMountRoot l) ∧
      (s.isMountRoot l → ∃ trees,
        vfsRules.after s (sealEvents root fd) = s.twin trees fun n => n = l.1) := by
  obtain ⟨k, hk⟩ := hl
  let trees : Nat → Option (Place FileName) := fun fd' => if fd' = fd then some l else s.trees fd'
  let t : Vfs := { s with trees := trees }
  have hopen : s.openTree root fd = some t := by
    rw [Vfs.openTree, hk]
  have hplace : t.attrPlace (.tree fd) "" = some l := by
    rw [Vfs.attrPlace, if_pos rfl]
    exact if_pos rfl
  -- The second call sets the flag of one mount, if the place is the root of that
  have hset : t.mountSetattr (.tree fd) "" AT_EMPTY_PATH
      { attrSet := MOUNT_ATTR_RDONLY, attrClr := 0 } =
        if s.isMountRoot l then some (s.twin trees fun n => n = l.1) else none := by
    have hroot : t.isMountRoot = s.isMountRoot := rfl
    unfold Vfs.mountSetattr
    rw [hplace, hroot]
    dsimp only
    split
    · unfold Vfs.twin
      congr 2
      funext n
      -- An open tree without `AT_RECURSIVE` reaches its own mount alone
      have hreach : t.reaches (.tree fd) "" AT_EMPTY_PATH n = decide (n = l.1) := by
        rw [Vfs.reaches, hplace]
        exact if_neg (by decide)
      rw [hreach]
      by_cases hn : n = l.1
      · simp [hn, MOUNT_ATTR_RDONLY]
      · simp [hn, t]
    · rfl
  have hfirst : vfsRules.next s (.openTree root OPEN_TREE_CLOEXEC) (Except.ok fd) = t :=
    Vfs.next_of_openTree OPEN_TREE_CLOEXEC hopen
  have hallows : vfsRules.allows s (.openTree root OPEN_TREE_CLOEXEC) (Except.ok fd) :=
    Option.isSome_of_eq_some hopen
  constructor
  · rw [sealEvents, lawful_cons, lawful_cons, hfirst]
    -- Both calls are allowed exactly if the second is
    have hsome : vfsRules.allows t (.mountSetattr (.tree fd) "" AT_EMPTY_PATH
        { attrSet := MOUNT_ATTR_RDONLY, attrClr := 0 }) (Except.ok ()) ↔ s.isMountRoot l := by
      show (t.mountSetattr _ _ _ _).isSome ↔ _
      rw [hset]
      split
      · next hroot => exact iff_of_true rfl hroot
      · next hroot => exact iff_of_false Bool.false_ne_true hroot
    rw [← hsome]
    exact ⟨fun h => h.2.1, fun h => ⟨hallows, h, lawful_nil _ _⟩⟩
  · intro hroot
    refine ⟨trees, ?_⟩
    rw [if_pos hroot] at hset
    rw [sealEvents, after_cons, after_cons, hfirst]
    exact Vfs.next_of_mountSetattr hset

namespace PivotRun

variable {req : CreateRequest} {s₀ : Vfs} (run : PivotRun req s₀)

/-- Two states show the same tree of files, directories and mounts. The attributes of the mounts are
    the same too, but for the mount `n`. -/
structure SameTree (n : Nat) (s s' : Vfs) : Prop where
  mounts : s'.mounts = s.mounts
  node : s'.node = s.node
  root : s'.root = s.root
  cwd : s'.cwd = s.cwd
  readOnly : ∀ path l, s.Leads path l → l.1 ≠ n → s'.readOnly l.1 = s.readOnly l.1

/-- With a read-only root and the same answers `pivot_fs` succeeds too, and ends with the same tree
    up to the attribute of the root. -/
def SealedAlike : Prop := ∃ run' : PivotRun req.sealed s₀, run'.root = run.root ∧
  run'.choosing = run.choosing ∧ run'.binding = run.binding ∧ run'.populating = run.populating ∧
  ∃ l, run.atSeal.Leads run.root l ∧ SameTree l.1 run.final run'.final

/-- After the new root is bound, its path leads to the root of a mount; no call makes or empties
    anything on that mount or on a copy of it; and the copies that can be seen from the new root
    when the pivot is due are read-only all the same. -/
def SparesRoot : Prop := ∃ l, run.atSeal.Leads run.root l ∧ run.atSeal.isMountRoot l ∧
  sparingRules.Lawful (run.atSeal, fun n => n = l.1) run.populating ∧
  ∀ r path x, run.atPivot.Leads run.root r → run.atPivot.LeadsIn r path x → x.1 ≠ l.1 →
    (sparingRules.after (run.atSeal, fun n => n = l.1) run.furnishing).2 x.1 = true →
    run.atPivot.readOnly x.1 = true

/-- The pivot copies no mount. -/
theorem copies_populating (s : Vfs) (K : Nat → Bool) :
    (sparingRules.after (s, K) run.populating).2 = (sparingRules.after (s, K) run.furnishing).2 := by
  rw [run.populating_eq, after_append]
  rfl

/-- Without a seal `populate` starts where the seal would be. -/
theorem atPopulate_eq (hro : req.rootfsReadonly.getD false = false) :
    run.sealing = [] ∧ run.atPopulate = run.atSeal := by
  have hseal := run.seal_runs
  unfold sealRoot at hseal
  rw [hro] at hseal
  have hnil : run.sealing = [] := (runs_pure.1 hseal).1
  refine ⟨hnil, ?_⟩
  rw [atPopulate, hnil, after_nil]

/-- The same run with the seal put in. -/
def withSeal (hnul : ¬ HasNul run.root) (fd : Nat)
    (hseal : vfsRules.Lawful run.atSeal (sealEvents run.root fd))
    (hpopulate : vfsRules.Lawful (vfsRules.after run.atSeal (sealEvents run.root fd))
      run.populating) : PivotRun req.sealed s₀ where
  root := run.root
  choosing := run.choosing
  binding := run.binding
  sealing := sealEvents run.root fd
  populating := run.populating
  choose_runs := run.choose_runs
  bind_runs := run.bind_runs
  seal_runs := (sealRoot_runs rfl).2 ⟨hnul, fd, rfl⟩
  populate_runs := run.populate_runs
  lawful := by
    obtain ⟨hchoose, hbind, -, -⟩ := run.lawful_split
    have hrest := lawful_append.2 ⟨hbind, lawful_append.2 ⟨hseal, hpopulate⟩⟩
    exact lawful_cons.2 ⟨trivial, lawful_append.2 ⟨hchoose, hrest⟩⟩

/-- What a run with the seal ends with, if it goes on from where the seal has been made. -/
theorem final_twin {req' : CreateRequest} (run' : PivotRun req' s₀) {K : Nat → Bool}
    {trees : Nat → Option (Place FileName)} (hro : req.rootfsReadonly.getD false = false)
    (heq : run'.atPopulate = run.atSeal.twin trees K) (hpop : run'.populating = run.populating)
    (hsparing : sparingRules.Lawful (run.atSeal, K) run.populating) :
    run'.final =
      run.final.twin trees (sparingRules.after (run.atSeal, K) run.populating).2 := by
  have hevents := req.populate_emits run.root _ _ run.populate_runs
  rw [final, final, heq, hpop, (run.atPopulate_eq hro).2]
  exact (lawful_twin hevents).2 hsparing

/-- With a read-only root and the same answers `pivot_fs` succeeds too exactly if the setup spares
    the root, and the trees are the same exactly if the copies of it are read-only all the same. -/
theorem sealedAlike_iff (hro : req.rootfsReadonly.getD false = false) :
    run.SealedAlike ↔ run.SparesRoot := by
  have hevents := req.populate_emits run.root _ _ run.populate_runs
  constructor
  · -- A run of the sealed request that is alike
    rintro ⟨run', hroot, hchoosing, hbinding, hpopulating, l, hl, htree⟩
    -- The sealed run is in the same state up to the seal, and in a twin of it after
    have hatSeal : run'.atSeal = run.atSeal := by
      rw [atSeal, atSeal, atBind, atBind, hchoosing, hbinding]
    obtain ⟨-, fd, hsealing⟩ := (sealRoot_runs rfl).1 run'.seal_runs
    obtain ⟨-, -, hseal, hpopulate⟩ := run'.lawful_split
    rw [hatSeal, hsealing, hroot] at hseal
    obtain ⟨hmountRoot, htwin⟩ := sealEvents_twin hl fd
    obtain ⟨trees, hafter⟩ := htwin (hmountRoot.1 hseal)
    have heq : run'.atPopulate = run.atSeal.twin trees fun n => n = l.1 := by
      rw [atPopulate, hatSeal, hsealing, hroot, hafter]
    rw [heq, hpopulating] at hpopulate
    have hsparing := (lawful_twin hevents).1.1 hpopulate
    -- What has got the flag on the way is read-only in the twin, and so without the seal
    refine ⟨l, hl, hmountRoot.1 hseal, hsparing, fun r path x hr hx hne hcopy => ?_⟩
    obtain ⟨r', hr', hin⟩ := run.exists_entered
    obtain rfl := hr.unique hr'
    obtain ⟨path', hx'⟩ := hin.exists_leads hx
    have hsame := htree.readOnly path' x hx' hne
    rw [run.final_twin run' hro heq hpopulating hsparing] at hsame
    change (run.final.readOnly x.1 || _) = run.final.readOnly x.1 at hsame
    rwa [run.copies_populating, hcopy, Bool.or_true, eq_comm, hin.readOnly] at hsame
  · rintro ⟨l, hl, hmountRoot, hsparing, hcopies⟩
    -- Conversely a seal is put into the run, which the other calls do not notice
    have hnul : ¬ HasNul run.root := by
      obtain ⟨k, hk⟩ := hl
      exact (Vfs.resolve_eq_at.1 hk).2.1
    obtain ⟨hseal, htwin⟩ := sealEvents_twin hl 0
    obtain ⟨trees, hafter⟩ := htwin hmountRoot
    have hpopulate : vfsRules.Lawful (vfsRules.after run.atSeal (sealEvents run.root 0))
        run.populating := by
      rw [hafter]
      exact (lawful_twin hevents).1.2 hsparing
    refine ⟨run.withSeal hnul 0 (hseal.2 hmountRoot) hpopulate, rfl, rfl, rfl, rfl, l, hl, ?_⟩
    -- The states differ in flags at most, and `hcopies` says that these agree where a path leads
    have hfinal := run.final_twin (run.withSeal hnul 0 (hseal.2 hmountRoot) hpopulate) hro hafter
      rfl hsparing
    rw [hfinal]
    refine ⟨rfl, rfl, rfl, rfl, fun path x hx hne => ?_⟩
    show (run.final.readOnly x.1 || _) = run.final.readOnly x.1
    rw [run.copies_populating]
    obtain ⟨r, hr, hin⟩ := run.exists_entered
    cases hcopy : (sparingRules.after (run.atSeal, fun n => n = l.1) run.furnishing).2 x.1 with
    | false => rw [Bool.or_false]
    | true =>
      rw [hin.readOnly, hcopies r path x hr (hin.leads_iff.1 hx).2 hne hcopy, Bool.or_true]

end PivotRun

/-- A request for a directory under the new root. -/
def dirRequest : CreateRequest :=
  { (default : CreateRequest) with rootfs := some "/srv", mutations := some [.createDir ⟨"data"⟩] }

/-- A host with the root to be, which has the directory or not. -/
def hostWithRoot (made : Bool) : Vfs :=
  Vfs.host fun q =>
    if [[], ["srv".toList], ["srv".toList, "proc".toList]].contains q ∨
      made ∧ q = ["srv".toList, "data".toList] then some .dir else none

/-- The calls after the root is bound, of which each succeeds. -/
def dirPopulating : List Event :=
  [⟨.mount (some "proc") "/srv/proc" (some "proc") (MS_SILENT ||| MS_REC) none, Except.ok ()⟩,
    ⟨.mountSetattr .cwd "/srv/proc" AT_RECURSIVE
      { attrSet := MOUNT_ATTR_NOSUID ||| MOUNT_ATTR_NODEV ||| MOUNT_ATTR_NOEXEC, attrClr := 0 },
      Except.ok ()⟩,
    ⟨.fsCreateDirAll "/srv/data", Except.ok ()⟩,
    ⟨.setCurrentDir "/srv", Except.ok ()⟩, ⟨.pivotRoot "." ".", Except.ok ()⟩,
    ⟨.umount2 "." MNT_DETACH, Except.ok ()⟩, ⟨.setCurrentDir "/", Except.ok ()⟩]

/-- The kernel may answer as in the run, whether or not the directory is there. -/
private theorem dir_lawful (made : Bool) : vfsRules.Lawful (hostWithRoot made)
    (⟨.enter .pivotFs, ()⟩ ::
      ((volumeRun made).choosing ++ ((volumeRun made).binding ++ ([] ++ dirPopulating)))) := by
  simp only [volumeRun, dirPopulating, List.cons_append, List.nil_append, lawful_cons]
  refine ⟨trivial, ?_, trivial, trivial, trivial, ?_, ?_, ?_, ?_, ?_, ?_, trivial, ?_,
    lawful_nil _ _⟩
  all_goals
    show Option.isSome _ = true
    revert made
    decide +kernel

/-- The run in which every call succeeds. -/
def dirRun (made : Bool) : PivotRun dirRequest (hostWithRoot made) where
  root := "/srv"
  choosing := (volumeRun made).choosing
  binding := (volumeRun made).binding
  sealing := []
  populating := dirPopulating
  choose_runs := (volumeRun made).choose_runs
  bind_runs := (volumeRun made).bind_runs
  seal_runs := .refl _
  populate_runs := .call (.call (.call (.call (.call (.call (.call (.refl _)))))))
  lawful := dir_lawful made

/-- The root filesystem is the one mount that is not the host's. -/
theorem dirRun_leads (made : Bool) :
    (dirRun made).atSeal.Leads "/srv" (1, ["srv".toList]) := by
  refine ⟨40, ?_⟩
  revert made
  decide +kernel

/-- A directory that is there need not be made. -/
theorem sealedAlike_dir : (dirRun true).SealedAlike := by
  refine ((dirRun true).sealedAlike_iff rfl).2 ⟨_, dirRun_leads true, by decide +kernel, ?_, ?_⟩
  · simp only [dirRun, dirPopulating, lawful_cons]
    -- No call writes on the mount that is sealed
    refine ⟨⟨?_, ?_⟩, ⟨?_, ?_⟩, ⟨?_, ?_⟩, ⟨?_, ?_⟩, ⟨?_, ?_⟩, ⟨trivial, ?_⟩, ⟨?_, ?_⟩,
      lawful_nil _ _⟩
    all_goals first
      | decide +kernel
      | show Option.isSome _ = true
        decide +kernel
  · intro r path x hr hx hne hcopy
    obtain ⟨r', hr', hin⟩ := (dirRun true).exists_entered
    obtain rfl := hr.unique hr'
    -- Only the mount itself has got the flag, and none was copied
    obtain ⟨path', hx'⟩ := hin.exists_leads hx
    have hn : x.1 < (dirRun true).final.mounts.size := hx'.place.1.lt
    have hsize : (dirRun true).final.mounts.size = 3 := by decide +kernel
    have hcopies : ∀ n < 3, n ≠ 1 → (sparingRules.after ((dirRun true).atSeal, fun n => n = 1)
        (dirRun true).furnishing).2 n = false := by
      decide +kernel
    rw [hcopies x.1 (hsize ▸ hn) hne] at hcopy
    cases hcopy

/-- A change of how mounts are propagated changes nothing that is known here. -/
theorem mount_private {s : Vfs} {source fstype data : Option String} {target : String} {flags : U64}
    (hbind : flags &&& MS_BIND = 0) (hprivate : flags &&& MS_PRIVATE ≠ 0) :
    (s.mount source target fstype flags data).getD s = s := by
  unfold Vfs.mount
  split
  · rw [if_neg (not_not.2 hbind), if_pos hprivate]
    split <;> rfl
  · rfl

/-- A directory that is not there cannot be made once the root is sealed, whatever is answered. -/
theorem not_sealed_dir : (∃ h, vfsRules.Lawful (hostWithRoot false) h ∧
      dirRequest.pivotFs.Runs h (.ok ())) ∧
    ∀ h, vfsRules.Lawful (hostWithRoot false) h → ¬ dirRequest.sealed.pivotFs.Runs h (.ok ()) := by
  refine ⟨⟨_, (dirRun false).lawful, (dirRun false).runs⟩, fun h hl hr => ?_⟩
  obtain ⟨run, -⟩ := exists_pivotRun hl hr
  -- the root is chosen, and nothing has been changed
  have hchoose : run.root = "/srv" ∧ run.atBind = hostWithRoot false := by
    have hchoosing := run.choose_runs
    unfold PivotRun.atBind
    obtain ⟨a, h₁, heq, hr₁⟩ := runs_call.1 hchoosing
    cases a with
    | error e => cases (runs_done.1 hr₁).2
    | ok u =>
      obtain ⟨_, h₂, rfl, hr₂⟩ := runs_call.1 hr₁
      obtain ⟨_, h₃, rfl, hr₃⟩ := runs_call.1 hr₂
      obtain ⟨_, h₄, rfl, hr₄⟩ := runs_call.1 hr₃
      obtain ⟨rfl, hroot⟩ := runs_done.1 hr₄
      rw [heq]
      -- The first call makes mounts private, which changes no state
      refine ⟨Outcome.ok.inj hroot, ?_⟩
      show ((hostWithRoot false).mount oldroot.sourceArg oldroot.target oldroot.fstypeArg
        oldroot.mountFlags none).getD (hostWithRoot false) = hostWithRoot false
      exact mount_private (by decide) (by decide)
  have hl : run.atSeal.Leads run.root (1, ["srv".toList]) ∧
      run.atSeal = (hostWithRoot false).bindRec (0, ["srv".toList]) (0, ["srv".toList]) := by
    obtain ⟨l, hl, heq⟩ := run.atSeal_eq
    rw [hchoose.1, hchoose.2] at hl
    have hplace : (hostWithRoot false).Leads "/srv" (0, ["srv".toList]) := ⟨40, by decide +kernel⟩
    obtain rfl := hl.unique hplace
    have htop : (hostWithRoot false).mounts.top (0, ["srv".toList]) = (0, ["srv".toList]) := by
      decide +kernel
    rw [heq, hchoose.1, hchoose.2, htop]
    exact ⟨⟨40, by decide +kernel⟩, rfl⟩
  -- it is sealed
  obtain ⟨-, fd, hsealing⟩ := (sealRoot_runs rfl).1 run.seal_runs
  obtain ⟨-, -, hseal, hpopulate⟩ := run.lawful_split
  rw [hsealing] at hseal
  obtain ⟨hmountRoot, htwin⟩ := sealEvents_twin hl.1 fd
  obtain ⟨trees, hafter⟩ := htwin (hmountRoot.1 hseal)
  have hevents := dirRequest.sealed.populate_emits run.root _ _ run.populate_runs
  rw [PivotRun.atPopulate, hsealing, hafter] at hpopulate
  have hsparing := (lawful_twin hevents).1.1 hpopulate
  rw [hl.2] at hsparing
  -- the directory comes after the two calls for `/proc`
  have hpopulating := run.populate_runs
  rw [hchoose.1] at hpopulating
  obtain ⟨a, h₁, heq, hr₁⟩ := runs_call.1 hpopulating
  rw [heq] at hsparing
  cases a with
  | error e => cases (runs_done.1 hr₁).2
  | ok u =>
    cases u
    obtain ⟨a, h₂, rfl, hr₂⟩ := runs_call.1 hr₁
    cases a with
    | error e => cases (runs_done.1 hr₂).2
    | ok u =>
      cases u
      obtain ⟨a, h₃, rfl, hr₃⟩ := runs_call.1 hr₂
      obtain ⟨-, hsparing⟩ := lawful_cons.1 hsparing
      obtain ⟨-, hsparing⟩ := lawful_cons.1 hsparing
      -- So the write of the directory is to mount 1, which the seal covers
      have hwrites := (lawful_cons.1 hsparing).1.2 1
      dsimp only at hwrites
      revert hwrites
      decide +kernel

end CreateRequest

end Styrolite
