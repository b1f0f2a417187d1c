import Styrolite.ForStd.MountTable
import Styrolite.ForStd.PathWalk

/-!
# Paths through mounts

A mount table and the contents of the file systems make up the `PathSpace` that a
process with a given root directory walks in. A process whose root directory is
elsewhere is jailed there. What `attach` and `clone` change in a space is given by
simulations: a path that leads somewhere afterwards led to the place of which that
is the cover, or the copy.
-/

/-- What is found at a place. -/
inductive Entry (α : Type) where
  | dir
  | link (target : SymLink α)
  | leaf
  deriving DecidableEq, Repr

namespace MountTable

variable {α : Type}

/-- The entry at a place, given what is in each file system. -/
def entry (t : MountTable α) (files : Nat → List α → Option (Entry α)) (l : Place α) :
    Option (Entry α) :=
  (t.mount l.1).bind fun m => files m.fs l.2

/-- An old place has its old entry, as long as the mounted file systems are the same. -/
theorem Extends.entry {t t' : MountTable α} {files files' : Nat → List α → Option (Entry α)}
    {l : Place α} (he : t.Extends t')
    (hfiles : ∀ n m, t.mount n = some m → files' m.fs = files m.fs) (hl : l.1 < t.size) :
    t'.entry files' l = t.entry files l := by
  unfold MountTable.entry
  rw [he.mount hl]
  cases hm : t.mount l.1 with
  | none => rfl
  | some m => simp only [Option.bind_some, hfiles l.1 m hm]

variable [DecidableEq α]

/-- The tree that a process with the root directory `r` sees. -/
def space (t : MountTable α) (files : Nat → List α → Option (Entry α)) (r : Place α) :
    PathSpace (Place α) α where
  root := r
  isDir l := t.entry files l = some .dir
  up l := t.top (t.climb r l)
  child l a :=
    if (t.entry files (l.1, l.2 ++ [a])).isSome then some (t.top (l.1, l.2 ++ [a])) else none
  link l :=
    match t.entry files l with
    | some (.link target) => some target
    | _ => none

variable {t : MountTable α} {files files' : Nat → List α → Option (Entry α)}
  {r r' l x : Place α} {a : α}

/-- A directory of the space is an entry that is one. -/
theorem space_isDir : (t.space files r).isDir l ↔ t.entry files l = some .dir :=
  decide_eq_true_iff

/-- A child of the space is an entry below, seen from its top mount. -/
theorem space_child_eq_some : (t.space files r).child l a = some x ↔
    (t.entry files (l.1, l.2 ++ [a])).isSome ∧ t.top (l.1, l.2 ++ [a]) = x := by
  show (if _ then _ else _) = _ ↔ _
  split
  · next h => simp [h]
  · next h => simp [h]

/-! ## Jails -/

/-- The places under which a process leaves the root directory by `..`. -/
def leaves (t : MountTable α) (r l : Place α) : Bool := t.base r l = r

/-- A process with the root directory `r'` is jailed in the tree of one whose root directory is
    not further down. -/
theorem jail (hr : t.Within r' r → r = r') (hr' : t.Has r') :
    (t.space files r).Jail (t.space files r') (t.leaves r') fun l => t.Has l ∧ t.Within r' l where
  isDir := rfl
  child := rfl
  link := rfl
  up {l} hl hno := by
    show t.top (t.climb r' l) = t.top (t.climb r l)
    rw [hl.2.climb_eq hr' hr (of_decide_eq_false hno)]
  within_root := ⟨hr', within_self r'⟩
  within_up hl _ := ⟨has_top (has_climb hr' hl.1), (hl.2.climb hr').top⟩
  within_child {l a l'} hl _ hchild := by
    obtain ⟨-, rfl⟩ := space_child_eq_some.1 hchild
    exact ⟨has_top (hl.1.child a), (hl.2.child a).top⟩

/-- There may be more files, none of them a link. -/
theorem grown (hkeep : ∀ {fs q e}, files fs q = some e → files' fs q = some e)
    (hlink : ∀ {fs q target}, files' fs q = some (.link target) → files fs q = some (.link target)) :
    (t.space files r).Grown (t.space files' r) := by
  -- What was there is there still, and a link there is one from before
  have hentry : ∀ {l e}, t.entry files l = some e → t.entry files' l = some e := by
    intro l e he
    obtain ⟨m, hm, he⟩ := Option.bind_eq_some_iff.1 he
    exact Option.bind_eq_some_iff.2 ⟨m, hm, hkeep he⟩
  have hentry' : ∀ {l target}, t.entry files' l = some (.link target) →
      t.entry files l = some (.link target) := by
    intro l target he
    obtain ⟨m, hm, he⟩ := Option.bind_eq_some_iff.1 he
    exact Option.bind_eq_some_iff.2 ⟨m, hm, hlink he⟩
  refine ⟨rfl, rfl, fun hdir => space_isDir.2 (hentry (space_isDir.1 hdir)), fun {l a x} hchild => ?_⟩
  obtain ⟨hsome, hx⟩ := space_child_eq_some.1 hchild
  obtain ⟨e, he⟩ := Option.isSome_iff_exists.1 hsome
  refine ⟨space_child_eq_some.2 ⟨by rw [hentry he]; rfl, hx⟩, ?_⟩
  -- The name leads to the same file; that it is no new link needs the cases of both entries
  show (match t.entry files' x with | some (.link target) => some target | _ => none) =
    match t.entry files x with | some (.link target) => some target | _ => none
  cases hold : t.entry files x with
  | some e => rw [hentry hold]
  | none =>
    cases hnew : t.entry files' x with
    | none => rfl
    | some e =>
      cases e with
      | dir => rfl
      | leaf => rfl
      | link target =>
        rw [hentry' hnew] at hold
        cases hold

/-- What a path leads to, other than where it may start, is uncovered. -/
theorem walk_uncovered {follow : Bool} {n : Nat} {cs : List (Component α)} (hr : t.Has r)
    (hl : t.Has l) :
    ((t.space files r).walk follow n l cs).Within fun x =>
      t.Has x ∧ (x = r ∨ x = l ∨ t.Uncovered x) := by
  -- The walk stays among the places that are shown, and each step leads to what is on top
  have hj : (t.space files r).Jail (t.space files r) (fun _ => true) fun x =>
      t.Has x ∧ (x = r ∨ x = l ∨ t.Uncovered x) :=
    { isDir := rfl
      child := rfl
      link := rfl
      up := fun _ _ => rfl
      within_root := ⟨hr, .inl rfl⟩
      within_up := fun {x} hx _ =>
        ⟨has_top (has_climb hr hx.1), .inr (.inr (uncovered_top t _))⟩
      within_child := by
        intro x a x' hx _ hchild
        obtain ⟨-, rfl⟩ := space_child_eq_some.1 hchild
        exact ⟨has_top (hx.1.child a), .inr (.inr (uncovered_top t _))⟩ }
  exact hj.walk_within ⟨hl, .inr (.inl rfl)⟩

/-! ## More mounts -/

/-- Two places with one entry are the same link, if any. -/
theorem space_link_of_entry {t' : MountTable α} {l' : Place α}
    (h : t'.entry files' l' = t.entry files l) :
    (t'.space files' r').link l' = (t.space files r).link l := by
  show (match t'.entry files' l' with | some (.link target) => some target | _ => none) = _
  rw [h]
  rfl

/-- Nothing is to be found in the directory, if it is one, and it is no link. -/
def Blank (e : List α → Option (Entry α)) (root : List α) : Prop :=
  e root = some .leaf ∨ e root = some .dir ∧ ∀ a, e (root ++ [a]) = none

/-- What the new mount shows: nothing that one could walk on to. -/
structure Covers (t : MountTable α) (files files' : Nat → List α → Option (Entry α)) (fs : Nat)
    (root : List α) (dst : Place α) : Prop where
  has : t.Has dst
  uncovered : t.Uncovered dst
  same : ∀ n m, t.mount n = some m → files' m.fs = files m.fs
  blank : Blank (files' fs) root
  isDir : files' fs root = some .dir → t.entry files dst = some .dir
  noLink : ∀ target, t.entry files dst ≠ some (.link target)

/-- `x'` is the place `x` as it is seen with the new mount: its cover, at `dst`. -/
def CoverOf (t : MountTable α) (root : List α) (dst : Place α) (P : Place α → Prop)
    (x' x : Place α) : Prop := t.Has x ∧ ((x' = x ∧ P x) ∨ (x = dst ∧ x' = (t.size, root)))

section

variable {fs : Nat} {root : List α} {dst : Place α} {P : Place α → Prop}

/-- The new mount shows its own root on top of `dst`. -/
theorem Covers.entry_new (hc : Covers t files files' fs root dst) :
    (t.attach fs root dst).entry files' (t.size, root) = files' fs root := by
  rw [entry, attach_mount_new hc.has]
  rfl

/-- There is nothing in the directory that the new mount shows. -/
theorem Covers.child_new (hc : Covers t files files' fs root dst)
    (hdir : (t.attach fs root dst).entry files' (t.size, root) = some .dir) (a : α) :
    (t.attach fs root dst).entry files' (t.size, root ++ [a]) = none := by
  rw [hc.entry_new] at hdir
  rw [entry, attach_mount_new hc.has]
  rcases hc.blank with hleaf | ⟨-, hno⟩
  · rw [hdir] at hleaf
    cases hleaf
  · exact hno a

/-- What is on top of an old place covers it, if the place is `dst`. -/
theorem Covers.top (hc : Covers t files files' fs root dst) (hP : ∀ x, x ≠ dst → P x)
    (hx : t.Has x) : CoverOf t root dst P ((t.attach fs root dst).top x) (t.top x) := by
  refine ⟨has_top hx, ?_⟩
  rw [top_attach hc.has]
  by_cases heq : t.top x = dst
  · exact .inr ⟨heq, if_pos heq⟩
  · exact .inl ⟨if_neg heq, hP _ heq⟩

/-- The new space is simulated by the old one if `..` is. -/
theorem Covers.sim (hc : Covers t files files' fs root dst) (hP : ∀ x, x ≠ dst → P x)
    (hroot : CoverOf t root dst P r' r)
    (hup : ∀ x' x, CoverOf t root dst P x' x →
      CoverOf t root dst P ((t.attach fs root dst).top ((t.attach fs root dst).climb r' x'))
        (t.top (t.climb r x))) :
    PathSpace.Sim ((t.attach fs root dst).space files' r') (t.space files r)
      (CoverOf t root dst P) where
  root := hroot
  isDir {x' x} hR hdir := by
    -- An old place has the entry it had; what covers `dst` is a directory only where `dst` is
    obtain ⟨hx, ⟨rfl, -⟩ | ⟨rfl, rfl⟩⟩ := hR
    · rw [space_isDir, extends_attach.entry hc.same hx.lt] at hdir
      exact space_isDir.2 hdir
    · rw [space_isDir, hc.entry_new] at hdir
      exact space_isDir.2 (hc.isDir hdir)
  link {x' x} hR := by
    obtain ⟨hx, ⟨rfl, -⟩ | ⟨rfl, rfl⟩⟩ := hR
    · exact space_link_of_entry (extends_attach.entry hc.same hx.lt)
    · -- Neither `dst` nor what covers it is a link
      have hnew : ((t.attach fs root x).space files' r').link (t.size, root) = none := by
        show (match (t.attach fs root x).entry files' (t.size, root) with
          | some (.link target) => some target
          | _ => none) = none
        rw [hc.entry_new]
        rcases hc.blank with hleaf | ⟨hdir, -⟩
        · rw [hleaf]
        · rw [hdir]
      rw [hnew]
      show none = match t.entry files x with
        | some (.link target) => some target
        | _ => none
      split
      · next target h => exact absurd h (hc.noLink target)
      · rfl
  up {x' x} hR _ := hup x' x hR
  child {x' x a y'} hR hdir hchild := by
    obtain ⟨hsome, rfl⟩ := space_child_eq_some.1 hchild
    obtain ⟨hx, ⟨rfl, -⟩ | ⟨rfl, rfl⟩⟩ := hR
    · have hsub : t.Has (x'.1, x'.2 ++ [a]) := hx.child a
      -- Below an old place: the mount may cover the child, which `top` then shows
      rw [extends_attach.entry hc.same hsub.lt] at hsome
      exact ⟨_, space_child_eq_some.2 ⟨hsome, rfl⟩, hc.top hP hsub⟩
    · -- there is nothing in the directory that covers `dst`
      rw [hc.child_new (space_isDir.1 hdir) a] at hsome
      cases hsome

/-- A process keeps its root directory. -/
theorem Covers.sim_root (hc : Covers t files files' fs root dst) (hr : t.Has r) :
    PathSpace.Sim ((t.attach fs root dst).space files' r) (t.space files r)
      (CoverOf t root dst fun _ => True) := by
  refine hc.sim (fun _ _ => trivial) ⟨hr, .inl ⟨rfl, trivial⟩⟩ fun x' x hR => ?_
  have hclimb : (t.attach fs root dst).climb r x' = t.climb r x := by
    obtain ⟨hx, ⟨rfl, -⟩ | ⟨rfl, rfl⟩⟩ := hR
    · exact extends_attach.climb hx.lt
    · refine attach_climb_new hc.has fun heq => ?_
      have hlt := hr.lt
      rw [← heq] at hlt
      exact absurd hlt (Nat.lt_irrefl _)
  rw [hclimb]
  exact hc.top (fun _ _ => trivial) (has_climb hr hR.1)

/-- The root directory itself is covered, for one that comes to it anew. -/
theorem Covers.sim_cover (hc : Covers t files files' fs root dst) :
    PathSpace.Sim ((t.attach fs root dst).space files' (t.size, root)) (t.space files dst)
      (CoverOf t root dst (· ≠ dst)) := by
  refine hc.sim (fun _ h => h) ⟨hc.has, .inr ⟨rfl, rfl⟩⟩ fun x' x hR => ?_
  obtain ⟨hx, ⟨rfl, hne⟩ | ⟨rfl, rfl⟩⟩ := hR
  · -- Below the covered root directory no climb comes back to it
    rw [extends_attach.climb hx.lt,
      climb_of_uncovered hc.uncovered hne (Nat.le_refl t.size) hx.lt]
    exact hc.top (fun _ h => h) (has_climb hc.has hx)
  · -- both are at their root directory
    have hself : t.climb x x = x := climb_of_base_eq (base_self x)
    have hself' : (t.attach fs root x).climb (t.size, root) (t.size, root) = (t.size, root) :=
      climb_of_base_eq (base_self _)
    have hun : t.Uncovered (t.size, root) := by
      intro n m hm hp
      have hlt := (parent_has hm hp).lt
      exact absurd hlt (Nat.lt_irrefl _)
    rw [hself, hself', top_of_uncovered hc.uncovered, top_attach hc.has, top_of_uncovered hun]
    refine ⟨hx, .inr ⟨rfl, if_neg fun heq => ?_⟩⟩
    have hlt := hx.lt
    rw [← heq] at hlt
    exact absurd hlt (Nat.lt_irrefl _)

end

/-! ## A recursive bind onto itself -/

section

variable {src dst : Place α}

/-- An old place has its old entry among the copies. -/
theorem clone_entry_old (hl : t.Has l) :
    (t.clone src dst).entry files l = t.entry files l :=
  extends_clone.entry (fun _ _ _ => rfl) hl.lt

/-- A copy has the entry of what it is a copy of. -/
theorem clone_entry_copy (hdst : t.Has dst) (hl : t.Has l) (hw : t.Within src l) :
    (t.clone src dst).entry files (t.copy l) = t.entry files l := by
  obtain ⟨m, hm, -⟩ := hl
  show ((t.clone src dst).mount (t.size + l.1)).bind (fun m => files m.fs l.2) = _
  by_cases heq : l.1 = src.1
  · have hm' := hm
    rw [heq] at hm'
    rw [heq, clone_mount_src hm' hdst, entry, hm]
    rfl
  · rw [clone_mount_copy hm heq hw.1, entry, hm]
    rfl

/-- `x'` is the place `x`, or its copy. -/
def CopyOf (t : MountTable α) (src x' x : Place α) : Prop :=
  t.Has x ∧ (x' = x ∨ t.Within src x ∧ x' = t.copy x)

/-- On top of a copy is the copy of what was on top. -/
theorem copyOf_top (hsrc : t.Has src) (hdst : t.top src = dst) (hx : t.Has x) {x' : Place α}
    (hR : CopyOf t src x' x) : CopyOf t src ((t.clone src dst).top x') (t.top x) := by
  have hhas : t.Has dst := hdst ▸ has_top hsrc
  refine ⟨has_top hx, ?_⟩
  obtain ⟨-, rfl | ⟨hw, rfl⟩⟩ := hR
  · rw [top_clone hsrc hhas hx, hdst]
    split
    · next heq => exact .inr ⟨heq ▸ hdst ▸ (within_self src).top, by rw [heq]⟩
    · exact .inl rfl
  · exact .inr ⟨hw.top, top_clone_copy hhas hw⟩

/-- A copy, or an old place, has the entry it stands for. -/
theorem CopyOf.entry (hsrc : t.Has src) (hdst : t.top src = dst) {x' : Place α}
    (hR : CopyOf t src x' x) : (t.clone src dst).entry files x' = t.entry files x := by
  obtain ⟨hx, rfl | ⟨hw, rfl⟩⟩ := hR
  · exact clone_entry_old hx
  · exact clone_entry_copy (hdst ▸ has_top hsrc) hx hw

/-- Names below a copy lead to copies. -/
theorem CopyOf.child {x' : Place α} (hR : CopyOf t src x' x) (a : α) :
    CopyOf t src (x'.1, x'.2 ++ [a]) (x.1, x.2 ++ [a]) := by
  obtain ⟨hx, rfl | ⟨hw, rfl⟩⟩ := hR
  · exact ⟨hx.child a, .inl rfl⟩
  · exact ⟨hx.child a, .inr ⟨hw.child a, rfl⟩⟩

/-- A process whose root directory is not copied, unless it is `src`, keeps to what is not
    copied, or comes to the copies, and cannot tell them apart. -/
theorem bisim_kept (hsrc : t.Has src) (hdst : t.top src = dst) (hr : t.Has r)
    (hrs : t.Within src r → r = src) :
    PathSpace.Bisim ((t.clone src dst).space files r) (t.space files r) (CopyOf t src) where
  root := ⟨hr, .inl rfl⟩
  -- A copy has the same entries as its original, so all but `..` is the same on both sides
  isDir {x' x} hR := by
    have hentry : (t.clone src dst).entry files x' = t.entry files x := hR.entry hsrc hdst
    show decide ((t.clone src dst).entry files x' = _) = decide (t.entry files x = _)
    rw [hentry]
  link hR := space_link_of_entry (hR.entry hsrc hdst)
  up {x' x} hR := by
    obtain ⟨hx, hcase⟩ := hR
    have hclimb := has_climb hr hx
    -- `..` from an old place and `..` from a copy, which may lead out of the copies
    apply copyOf_top hsrc hdst hclimb
    rcases hcase with rfl | ⟨hw, rfl⟩
    · exact ⟨hclimb, .inl (extends_clone.climb hx.lt)⟩
    · exact ⟨hclimb, clone_climb_old hsrc hdst hr (.inl hrs) hx hw⟩
  child {x' x} a hR := by
    have hsub := hR.child a
    have hentry : (t.clone src dst).entry files _ = t.entry files _ := hsub.entry hsrc hdst
    show Option.Rel _ (if ((t.clone src dst).entry files _).isSome then _ else _)
      (if (t.entry files _).isSome then _ else _)
    rw [hentry]
    split
    · exact .some (copyOf_top hsrc hdst hsub.1 hsub)
    · exact .none

/-- A process whose root directory is copied sees the copies. -/
theorem bisim_copied (hsrc : t.Has src) (hdst : t.Has dst) (hr : t.Has r)
    (hrs : t.Within src r) :
    PathSpace.Bisim ((t.clone src dst).space files (t.copy r)) (t.space files r)
      fun x' x => t.Has x ∧ t.Within r x ∧ x' = t.copy x where
  root := ⟨hr, within_self r, rfl⟩
  -- Within the copied tree every place has its copy
  isDir {x' x} hR := by
    obtain ⟨hx, hw, rfl⟩ := hR
    show decide ((t.clone src dst).entry files (t.copy x) = _) = decide (t.entry files x = _)
    rw [clone_entry_copy hdst hx (hrs.trans hw)]
  link {x' x} hR := by
    obtain ⟨hx, hw, rfl⟩ := hR
    exact space_link_of_entry (clone_entry_copy hdst hx (hrs.trans hw))
  up {x' x} hR := by
    obtain ⟨hx, hw, rfl⟩ := hR
    refine ⟨has_top (has_climb hr hx), (hw.climb hr).top, ?_⟩
    show (t.clone src dst).top ((t.clone src dst).climb (t.copy r) (t.copy x)) = _
    -- No `..` leads out of the root directory, so the climb stays among the copies
    rw [clone_climb_copy hsrc hdst hr hrs hx hw, top_clone_copy hdst (hrs.trans (hw.climb hr))]
    rfl
  child {x' x} a hR := by
    obtain ⟨hx, hw, rfl⟩ := hR
    have hentry : (t.clone src dst).entry files (t.copy (x.1, x.2 ++ [a])) = _ :=
      clone_entry_copy hdst (hx.child a) (hrs.trans (hw.child a))
    show Option.Rel _ (if ((t.clone src dst).entry files (t.copy (x.1, x.2 ++ [a]))).isSome
      then some ((t.clone src dst).top (t.copy (x.1, x.2 ++ [a]))) else none)
      (if (t.entry files (x.1, x.2 ++ [a])).isSome then _ else _)
    rw [hentry]
    split
    · exact .some ⟨has_top (hx.child a), (hw.child a).top,
        top_clone_copy hdst (hrs.trans (hw.child a))⟩
    · exact .none


/-- A process in its root directory, which is not itself a copy, comes to the copies of what is
    there, and cannot tell them apart. -/
theorem bisim_root (hsrc : t.Has src) (hdst : t.top src = dst) (hr : t.Has r) :
    PathSpace.Bisim ((t.clone src dst).space files r) (t.space files r)
      fun x' x => CopyOf t src x' x ∧ t.Within r x ∧ (x' = x ∨ t.Within r dst) := by
  have hhas : t.Has dst := hdst ▸ has_top hsrc
  -- what is seen at an old place is a copy only if the copy is in the root directory
  have htop : ∀ {x' x : Place α}, CopyOf t src x' x → t.Within r x → (x' = x ∨ t.Within r dst) →
      CopyOf t src ((t.clone src dst).top x') (t.top x) ∧ t.Within r (t.top x) ∧
        ((t.clone src dst).top x' = t.top x ∨ t.Within r dst) := by
    intro x' x hR hw hin
    -- An old place may be covered by the copy of `src`, a copy is one in any case
    refine ⟨copyOf_top hsrc hdst hR.1 hR, hw.top, ?_⟩
    rcases hin with rfl | hin
    · rw [top_clone hsrc hhas hR.1]
      split
      · next heq => exact .inr (heq ▸ hw.top)
      · exact .inl rfl
    · exact .inr hin
  exact
  -- As in `bisim_kept`, and what is seen stays within the root directory
  { root := ⟨⟨hr, .inl rfl⟩, within_self r, .inl rfl⟩
    isDir := by
      rintro x' x ⟨hR, -⟩
      have hentry : (t.clone src dst).entry files x' = t.entry files x := hR.entry hsrc hdst
      show decide ((t.clone src dst).entry files x' = _) = decide (t.entry files x = _)
      rw [hentry]
    link := fun hR => space_link_of_entry (hR.1.entry hsrc hdst)
    up := by
      rintro x' x ⟨⟨hx, hcase⟩, hw, hin⟩
      have hclimb := has_climb hr hx
      rcases hcase with rfl | ⟨hws, rfl⟩
      · exact htop ⟨hclimb, .inl (extends_clone.climb hx.lt)⟩ (hw.climb hr)
          (.inl (extends_clone.climb hx.lt))
      · have hin' : t.Within r dst := hin.resolve_left (copy_ne hx.lt)
        exact htop ⟨hclimb, clone_climb_old hsrc hdst hr (.inr ⟨hw, hin'⟩) hx hws⟩ (hw.climb hr)
          (.inr hin')
    child := by
      rintro x' x a ⟨hR, hw, hin⟩
      have hsub := hR.child a
      have hentry : (t.clone src dst).entry files _ = t.entry files _ := hsub.entry hsrc hdst
      show Option.Rel _ (if ((t.clone src dst).entry files _).isSome then _ else _)
        (if (t.entry files _).isSome then _ else _)
      rw [hentry]
      split
      · refine .some (htop hsub (hw.child a) (hin.imp_left fun heq => ?_))
        rw [heq]
      · exact .none }

/-- From its root directory, or from the copy of that, a process comes to the same. -/
theorem walk_clone (hsrc : t.Has src) (hdst : t.top src = dst) {r' x' : Place α}
    (hr : CopyOf t src r' r) {follow : Bool} {k : Nat} {cs : List (Component α)}
    (hwalk : ((t.clone src dst).space files r').walk follow n r' cs = .at x' k) :
    ∃ x, (t.space files r).walk follow n r cs = .at x k ∧ CopyOf t src x' x := by
  obtain ⟨hhas, rfl | ⟨hw, rfl⟩⟩ := hr
  · obtain ⟨x, hx, hR, -⟩ := (bisim_root hsrc hdst hhas).walk_at
      ⟨⟨hhas, .inl rfl⟩, within_self _, .inl rfl⟩ hwalk
    exact ⟨x, hx, hR⟩
  · obtain ⟨x, hx, hasx, hwx, rfl⟩ := (bisim_copied hsrc (hdst ▸ has_top hsrc) hhas hw).walk_at
      ⟨hhas, within_self _, rfl⟩ hwalk
    exact ⟨x, hx, hasx, .inr ⟨hw.trans hwx, rfl⟩⟩

end

end MountTable
