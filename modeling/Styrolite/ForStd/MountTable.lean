import Mathlib.Data.List.Basic
import Mathlib.Logic.Relation

/-!
# Mount tables

A mount shows part of a file system at a place in another mount. Mounts are
numbered in the order in which they are made, so that each is on one with a
smaller number. A place is a mount and a path in the file system it shows; what
is mounted there covers it (`top`), and `..` leads through the roots of mounts
(`climb`), up to the root directory of a process.

`attach` adds one mount, and `clone` copies a mount with all that is mounted
below a place in it, as a recursive bind does.
-/

/-- A mount, and a path in the file system it shows. -/
abbrev Place (α : Type) := Nat × List α

/-- The directory `root` of the file system `fs`, mounted on `parent` unless it is the first. -/
structure Mount (α : Type) where
  fs : Nat
  root : List α
  parent : Option (Place α)

/-- The mounts there are, by their numbers. That a parent is older is part of the table, so that
    what recurses along parents ends. -/
structure MountTable (α : Type) where
  size : Nat
  mount : Nat → Option (Mount α)
  /-- Each mount is on an older one. -/
  older : ∀ {n m}, mount n = some m → n < size ∧ ∀ {k q}, m.parent = some (k, q) →
    k < n ∧ ∃ m', mount k = some m' ∧ m'.root <+: q

namespace MountTable

variable {α : Type}

/-- The place is in what its mount shows. -/
def Has (t : MountTable α) (l : Place α) : Prop := ∃ m, t.mount l.1 = some m ∧ m.root <+: l.2

section

variable {t : MountTable α} {l : Place α} {n : Nat} {m : Mount α}

/-- A mount's own root is in it. -/
theorem has_root (hm : t.mount n = some m) : t.Has (n, m.root) := ⟨m, hm, List.prefix_refl _⟩

/-- A place of the table is in one of its mounts. -/
theorem Has.lt (hl : t.Has l) : l.1 < t.size := by
  obtain ⟨m, hm, -⟩ := hl
  exact (t.older hm).1

/-- A parent has a smaller number. -/
theorem parent_lt (hm : t.mount n = some m) (hp : m.parent = some l) : l.1 < n := ((t.older hm).2 hp).1

/-- What a mount is on is a place of the table. -/
theorem parent_has (hm : t.mount n = some m) (hp : m.parent = some l) : t.Has l := ((t.older hm).2 hp).2

/-- A step down stays in the mount. -/
theorem Has.child (hl : t.Has l) (a : α) : t.Has (l.1, l.2 ++ [a]) := by
  obtain ⟨m, hm, hpre⟩ := hl
  exact ⟨m, hm, hpre.trans (List.prefix_append _ _)⟩

/-- The mounts of `t` are there in `t'`, which may have more. -/
structure Extends (t t' : MountTable α) : Prop where
  size : t.size ≤ t'.size
  mount : ∀ {n}, n < t.size → t'.mount n = t.mount n

/-- The places of a table are places of a larger one. -/
theorem Extends.has {t' : MountTable α} (he : t.Extends t') (hl : t.Has l) : t'.Has l := by
  obtain ⟨m, hm, hpre⟩ := hl
  exact ⟨m, (he.mount (t.older hm).1).trans hm, hpre⟩

/-- The place in a copy of the table, numbered on from it. -/
def copy (t : MountTable α) (l : Place α) : Place α := (t.size + l.1, l.2)

/-- Different places have different copies. -/
theorem copy_injective : Function.Injective t.copy := by
  intro l l' heq
  rw [copy, copy, Prod.mk.injEq] at heq
  exact Prod.ext (Nat.add_left_cancel heq.1) heq.2

/-- A copy is none of the old places. -/
theorem copy_ne {l' : Place α} (hl : l.1 < t.size) : t.copy l' ≠ l := by
  rintro rfl
  simp only [copy] at hl
  omega

end

variable [DecidableEq α] (t : MountTable α)

/-- Onto the mount `n`, if it is mounted here. -/
def cover (n : Nat) (l : Place α) : Place α :=
  match t.mount n with
  | some m => if m.parent = some l then (n, m.root) else l
  | none => l

/-- What is seen at a place: the root of the mount that covers it, if any. -/
def top (l : Place α) : Place α := (List.range t.size).foldl (fun l n => t.cover n l) l

/-- The place that the mount is on, at the root of a mount. -/
def below (l : Place α) : Option (Place α) :=
  match t.mount l.1 with
  | some m => if m.root = l.2 then m.parent else none
  | none => none

/-- Down from `l` through the mounts below, `n` of them at most, as far as `r`. -/
def baseAux (r : Place α) : Nat → Place α → Place α
  | 0, l => l
  | n + 1, l =>
    if l = r then l
    else match t.below l with
      | some l' => baseAux r n l'
      | none => l

/-- The place under all the mounts whose roots are here, but not under `r`. -/
def base (r l : Place α) : Place α := t.baseAux r (l.1 + 1) l

/-- The parent directory, but for the root of a mount. -/
def rise (l : Place α) : Place α :=
  match t.mount l.1 with
  | some m => if m.root = l.2 then l else (l.1, l.2.dropLast)
  | none => l

/-- The directory that `..` leads to for a process with the root directory `r`, before it is
    covered. -/
def climb (r l : Place α) : Place α := if t.base r l = r then r else t.rise (t.base r l)

/-- Whether the mount `n` is on the place, directly or through others, `k` of them at most. -/
def underAux (l : Place α) : Nat → Nat → Bool
  | 0, n => n == l.1
  | k + 1, n =>
    n == l.1 ||
      match t.mount n with
      | some ⟨_, _, some (i, q)⟩ => underAux l k i && (i != l.1 || l.2.isPrefixOf q)
      | _ => false

/-- The mount shows the place, or is mounted, directly or not, within it. -/
def under (r : Place α) (n : Nat) : Bool := t.underAux r n n

/-- The place `l` is in the subtree of `r`. -/
def Within (r l : Place α) : Prop := t.under r l.1 ∧ (l.1 = r.1 → r.2 <+: l.2)

/-- A place is looked up in its mount. -/
instance (l : Place α) : Decidable (t.Has l) :=
  match hm : t.mount l.1 with
  | some m => decidable_of_iff (m.root <+: l.2) (by simp [Has, hm])
  | none => isFalse (by simp [Has, hm])

/-- Both parts of `Within` are decided. -/
instance (r l : Place α) : Decidable (t.Within r l) :=
  inferInstanceAs (Decidable (_ ∧ _))

/-- Nothing is mounted at the place. -/
def Uncovered (l : Place α) : Prop := ∀ n m, t.mount n = some m → m.parent ≠ some l

/-- The first mount, seen as a place. -/
def IsFirst (r : Place α) : Prop := ∃ m, t.mount r.1 = some m ∧ m.root = r.2 ∧ m.parent = none

variable {t} {r l x : Place α} {n : Nat} {m : Mount α}

/-! ## Places within others -/

/-- As many steps as the mount has a number are enough. -/
theorem underAux_of_le {k : Nat} (hk : n ≤ k) : t.underAux r k n = t.underAux r n n := by
  induction n using Nat.strongRecOn generalizing k with
  | _ n ih =>
    -- Strong induction on the mount: its parent is an older one
    have hstep : ∀ j, n ≤ j → t.underAux r j n = (n == r.1 || match t.mount n with
        | some ⟨_, _, some (i, q)⟩ => t.underAux r i i && (i != r.1 || r.2.isPrefixOf q)
        | _ => false) := by
      intro j hj
      cases j with
      | zero =>
        obtain rfl : n = 0 := by omega
        -- The first mount has no parent
        rw [underAux]
        split
        · next hm => exact absurd (parent_lt hm rfl) (by omega)
        · simp
      | succ j =>
        rw [underAux]
        split
        · next i q hm =>
          have hlt : i < n := parent_lt hm rfl
          simp only [ih i hlt (k := j) (by omega)]
        · rfl
    rw [hstep k hk, hstep n (Nat.le_refl n)]

/-- A mount is under a place if it is the place's own, or is on a place that is within it. -/
theorem under_iff : t.under r n ↔
    n = r.1 ∨ ∃ m l, t.mount n = some m ∧ m.parent = some l ∧ t.Within r l := by
  -- Unfold one step, for which `n + 1` is fuel enough
  have hone : t.under r n = t.underAux r (n + 1) n := (underAux_of_le (Nat.le_succ n)).symm
  rw [hone, underAux, Bool.or_eq_true, beq_iff_eq]
  refine or_congr_right ?_
  split
  · next f q i p hm =>
    have hlt : i < n := parent_lt hm rfl
    rw [underAux_of_le (by omega : i ≤ n), Bool.and_eq_true, Bool.or_eq_true, bne_iff_ne,
      -- The parent's own steps are enough for it
      List.isPrefixOf_iff_prefix]
    -- Mount `n` is on the place `(i, p)`
    constructor
    · rintro ⟨hu, hpre⟩
      exact ⟨_, (i, p), hm, rfl, hu, fun heq => hpre.resolve_left (absurd heq)⟩
    · rintro ⟨m, l, hm', hp, hu, hpre⟩
      cases hm.symm.trans hm'
      cases hp
      exact ⟨hu, or_iff_not_imp_left.2 fun hne => hpre (not_not.1 hne)⟩
  · next hno =>
    -- Mount `n` has no parent
    constructor
    · intro h
      cases h
    · rintro ⟨⟨f, q, par⟩, l, hm, rfl, -⟩
      exact absurd hm (hno f q l.1 l.2)

/-- What is under a place is not older than the mount the place is in. -/
theorem le_of_under (hu : t.under r n) : r.1 ≤ n := by
  induction n using Nat.strongRecOn with
  | _ n ih =>
    rcases under_iff.1 hu with rfl | ⟨m, l, hm, hp, hw⟩
    · exact Nat.le_refl _
    · have hlt := parent_lt hm hp
      exact Nat.le_trans (ih l.1 hlt hw.1) (Nat.le_of_lt hlt)

/-- A place is within itself. -/
theorem within_self (r : Place α) : t.Within r r :=
  ⟨under_iff.2 (.inl rfl), fun _ => List.prefix_refl _⟩

/-- A step down leads to nothing outside. -/
theorem Within.child (hw : t.Within r l) (a : α) : t.Within r (l.1, l.2 ++ [a]) :=
  ⟨hw.1, fun heq => (hw.2 heq).trans (List.prefix_append _ _)⟩

/-- A mount on a place within `r` is within `r`. -/
theorem Within.onto (hw : t.Within r l) (hm : t.mount n = some m) (hp : m.parent = some l) :
    t.Within r (n, m.root) := by
  refine ⟨under_iff.2 (.inr ⟨m, l, hm, hp, hw⟩), fun heq => ?_⟩
  have hlt := parent_lt hm hp
  have hle := le_of_under hw.1
  omega

/-- What is within a place that is within another is within the other. -/
theorem Within.trans {r' : Place α} (hw : t.Within r' r) (hl : t.Within r l) : t.Within r' l := by
  -- Strong induction on the mount that `l` is in
  obtain ⟨n, q⟩ := l
  induction n using Nat.strongRecOn generalizing q with
  | _ n ih =>
    rcases under_iff.1 hl.1 with heq | ⟨m, x, hm, hp, hx⟩
    · dsimp only at heq
      subst heq
      exact ⟨hw.1, fun h => (hw.2 h).trans (hl.2 rfl)⟩
    · have hlt : x.1 < n := parent_lt hm hp
      have hx' := ih x.1 hlt x.2 hx
      have hle : r'.1 ≤ x.1 := le_of_under hx'.1
      refine ⟨under_iff.2 (.inr ⟨m, x, hm, hp, hx'⟩), fun h => ?_⟩
      -- A mount under `r'` is not older than it
      dsimp only at h
      omega

/-- What is under a place within `r` is under `r`. -/
theorem Within.under (hw : t.Within r l) (hu : t.under l n) : t.under r n := by
  rcases under_iff.1 hu with rfl | ⟨m, x, hm, hp, hx⟩
  · exact hw.1
  · exact under_iff.2 (.inr ⟨m, x, hm, hp, hw.trans hx⟩)

/-- There is such a mount. -/
theorem exists_of_under (hl : t.Has l) (hu : t.under l n) : ∃ m, t.mount n = some m := by
  rcases under_iff.1 hu with rfl | ⟨m, x, hm, -, -⟩
  · obtain ⟨m, hm, -⟩ := hl
    exact ⟨m, hm⟩
  · exact ⟨m, hm⟩

/-! ## What is seen at a place -/

/-- What is seen when only the first `k` mounts are there. -/
private def topOf (t : MountTable α) (k : Nat) (l : Place α) : Place α :=
  (List.range k).foldl (fun l n => t.cover n l) l

/-- One more mount is looked at. -/
private theorem topOf_succ (k : Nat) : t.topOf (k + 1) l = t.cover k (t.topOf k l) := by
  rw [topOf, List.range_succ, List.foldl_append]
  rfl

/-- A mount covers the place it is on. -/
theorem cover_of_parent (hm : t.mount n = some m) (hp : m.parent = some l) :
    t.cover n l = (n, m.root) := by
  rw [cover, hm]
  exact if_pos hp

/-- A mount that is on another place covers nothing here. -/
theorem cover_of_ne (hno : ∀ m, t.mount n = some m → m.parent ≠ some l) : t.cover n l = l := by
  unfold cover
  split
  · next m hm => exact if_neg (hno m hm)
  · rfl

/-- A property of places that each mount keeps is kept by all. -/
private theorem topOf_induction {P : Place α → Prop} (k : Nat) (hl : P l)
    (hstep : ∀ n m x, t.mount n = some m → m.parent = some x → P x → P (n, m.root)) :
    P (t.topOf k l) := by
  induction k with
  | zero => exact hl
  | succ k ih =>
    rw [topOf_succ]
    unfold cover
    split
    · next m hm =>
      -- The mount is on the place reached so far, or is passed over
      split
      · next hp => exact hstep k m _ hm hp ih
      · exact ih
    · exact ih

/-- A property of places that each mount keeps is one of what is seen. -/
theorem top_induction {P : Place α → Prop} (hl : P l)
    (hstep : ∀ n m x, t.mount n = some m → m.parent = some x → P x → P (n, m.root)) :
    P (t.top l) := topOf_induction t.size hl hstep

/-- What is seen at a place is the place, or the root of a younger mount. -/
theorem top_cases (t : MountTable α) (l : Place α) :
    t.top l = l ∨ l.1 < (t.top l).1 ∧ ∃ m, t.mount (t.top l).1 = some m ∧ m.root = (t.top l).2 := by
  refine top_induction (P := fun x => x = l ∨ l.1 < x.1 ∧ ∃ m, t.mount x.1 = some m ∧ m.root = x.2)
    (.inl rfl) fun n m x hm hp hx => .inr ⟨?_, m, hm, rfl⟩
  have hlt := parent_lt hm hp
  rcases hx with rfl | ⟨hx, -⟩
  · exact hlt
  · exact Nat.lt_trans hx hlt

/-- What is seen at a place is a place of the table. -/
theorem has_top (hl : t.Has l) : t.Has (t.top l) :=
  top_induction hl fun _ _ _ hm _ _ => has_root hm

/-- Only mounts within the place are passed on the way to what is seen at it. -/
private theorem Within.topOf (hw : t.Within r l) (k : Nat) : t.Within r (t.topOf k l) :=
  topOf_induction k hw fun _ _ _ hm hp hx => hx.onto hm hp

/-- What is seen at a place is within it. -/
theorem Within.top (hw : t.Within r l) : t.Within r (t.top l) := hw.topOf t.size

/-- A mount is younger than the one that it is on. -/
private theorem topOf_of_le {k : Nat} (hk : k ≤ l.1 + 1) : t.topOf k l = l := by
  induction k with
  | zero => rfl
  | succ k ih =>
    rw [topOf_succ, ih (by omega)]
    refine cover_of_ne fun m hm hp => ?_
    have hlt := parent_lt hm hp
    omega

/-- Nothing covers what is seen at a place. -/
theorem uncovered_top (t : MountTable α) (l : Place α) : t.Uncovered (t.top l) := by
  -- Induction on the number of mounts that `topOf` has looked at
  suffices h : ∀ k n m, n < k → t.mount n = some m → m.parent ≠ some (t.topOf k l) from
    fun n m hm => h t.size n m (t.older hm).1 hm
  intro k
  induction k with
  | zero => exact fun n m hn => absurd hn (Nat.not_lt_zero n)
  | succ k ih =>
    intro n m hn hm hp
    rw [topOf_succ] at hp
    by_cases hcov : ∃ mk, t.mount k = some mk ∧ mk.parent = some (t.topOf k l)
    · -- the mount `k` covers the place, and the older ones are not on it
      obtain ⟨mk, hmk, hpk⟩ := hcov
      rw [cover_of_parent hmk hpk] at hp
      have hlt := parent_lt hm hp
      dsimp only at hlt
      omega
    · -- The mount `k` is not on the place, so it is as for the older ones
      have hno : ∀ mk, t.mount k = some mk → mk.parent ≠ some (t.topOf k l) :=
        fun mk hmk hpk => hcov ⟨mk, hmk, hpk⟩
      rw [cover_of_ne hno] at hp
      rcases Nat.lt_succ_iff_lt_or_eq.1 hn with hlt | rfl
      · exact ih n m hlt hm hp
      · exact hno m hm hp

/-- A place that nothing covers is seen as it is. -/
theorem top_of_uncovered (hl : t.Uncovered l) : t.top l = l := by
  suffices h : ∀ k, t.topOf k l = l from h t.size
  intro k
  induction k with
  | zero => rfl
  | succ k ih => rw [topOf_succ, ih, cover_of_ne fun m hm => hl k m hm]

/-! ## The way out -/

/-- Below the root of a mount is the place it is on. -/
theorem below_of_root (hm : t.mount n = some m) : t.below (n, m.root) = m.parent := by
  simp [below, hm]

/-- Only the roots of mounts that are on something have anything below. -/
theorem below_eq_some {l' : Place α} : t.below l = some l' ↔
    ∃ m, t.mount l.1 = some m ∧ m.root = l.2 ∧ m.parent = some l' := by
  unfold below
  cases hm : t.mount l.1 with
  | none => simp
  | some m =>
    by_cases hroot : m.root = l.2
    · simp [hroot]
    · simp [hroot]

/-- Induction along the mounts below: each is older. -/
theorem below_induction {P : Place α → Prop} (h : ∀ l, (∀ l', t.below l = some l' → P l') → P l)
    (l : Place α) : P l := by
  obtain ⟨n, q⟩ := l
  induction n using Nat.strongRecOn generalizing q with
  | _ n ih =>
    refine h (n, q) fun l' hl' => ?_
    obtain ⟨m, hm, -, hp⟩ := below_eq_some.1 hl'
    exact ih l'.1 (parent_lt hm hp) l'.2

/-- As many steps as the number of the mount are enough. -/
theorem baseAux_eq (hn : l.1 < n) : t.baseAux r n l = t.base r l := by
  induction n using Nat.strongRecOn generalizing l with
  | _ n ih =>
    obtain ⟨n, rfl⟩ : ∃ k, n = k + 1 := ⟨n - 1, by omega⟩
    rw [base, baseAux, baseAux]
    split
    · rfl
    · split
      · next l' hl' =>
        -- What is below is in an older mount
        obtain ⟨m, hm, -, hp⟩ := below_eq_some.1 hl'
        have hlt := parent_lt hm hp
        by_cases hn' : l.1 = n
        · rw [hn']
        · rw [ih n (by omega) (by omega), ih l.1 hn hlt]
      · rfl

/-- The root directory is its own base. -/
theorem base_self (r : Place α) : t.base r r = r := by
  rw [base, baseAux, if_pos rfl]

/-- The base, from the place below. -/
theorem base_step {l' : Place α} (hne : l ≠ r) (hl' : t.below l = some l') :
    t.base r l = t.base r l' := by
  obtain ⟨m, hm, -, hp⟩ := below_eq_some.1 hl'
  rw [base, baseAux, if_neg hne]
  simp only [hl']
  exact baseAux_eq (parent_lt hm hp)

/-- Where nothing is below, the way ends. -/
theorem base_end (hl : t.below l = none) : t.base r l = l := by
  rw [base, baseAux]
  split
  · rfl
  · simp only [hl]

/-- The way out of a place within `r` does not leave it. -/
theorem Within.below (hw : t.Within r l) (hr : t.Has r) (hne : l ≠ r) {l' : Place α}
    (hl' : t.below l = some l') : t.Within r l' := by
  obtain ⟨m, hm, hroot, hp⟩ := below_eq_some.1 hl'
  rcases under_iff.1 hw.1 with heq | ⟨m', x, hm', hx, hwx⟩
  · -- the mount of `r` itself: its root is not within `r`, unless it is `r`
    obtain ⟨mr, hmr, hpre⟩ := hr
    rw [heq] at hm
    cases hm.symm.trans hmr
    rw [hroot] at hpre
    have hsame : l.2 = r.2 := List.IsPrefix.eq_of_length hpre
      (Nat.le_antisymm hpre.length_le (hw.2 heq).length_le)
    exact absurd (Prod.ext heq hsame) hne
  · cases hm.symm.trans hm'
    cases hp.symm.trans hx
    exact hwx

/-- The parent directory of a place within `r` other than `r` is within it. -/
theorem Within.dropLast (hw : t.Within r l) (hne : l ≠ r) : t.Within r (l.1, l.2.dropLast) := by
  refine ⟨hw.1, fun heq => ?_⟩
  -- The path from `r` to the place is not empty
  obtain ⟨q, hq⟩ := hw.2 heq
  have hq0 : q ≠ [] := by
    rintro rfl
    rw [List.append_nil] at hq
    exact hne (Prod.ext heq hq.symm)
  show r.2 <+: l.2.dropLast
  rw [← hq, List.dropLast_append_of_ne_nil hq0]
  exact List.prefix_append _ _

/-- The way down does not leave the root directory. -/
theorem Within.base (hw : t.Within r l) (hr : t.Has r) : t.Within r (t.base r l) := by
  induction l using t.below_induction with
  | h l ih =>
    -- Down to the root directory, or to where nothing is below
    by_cases hne : l = r
    · rw [hne, base_self]
      exact within_self r
    · cases hl' : t.below l with
      | none => rwa [base_end hl']
      | some l' =>
        rw [base_step hne hl']
        exact ih l' hl' (hw.below hr hne hl')

/-- The base is a place of the table. -/
theorem has_base (hl : t.Has l) : t.Has (t.base r l) := by
  induction l using t.below_induction with
  | h l ih =>
    by_cases hne : l = r
    · rwa [hne, base_self, ← hne]
    · cases hl' : t.below l with
      | none => rwa [base_end hl']
      | some l' =>
        obtain ⟨m, hm, -, hp⟩ := below_eq_some.1 hl'
        rw [base_step hne hl']
        exact ih l' hl' (parent_has hm hp)

/-- `..` stays at the root directory. -/
theorem climb_of_base_eq (hb : t.base r l = r) : t.climb r l = r := if_pos hb

/-- Anywhere else `..` is a step up from the base. -/
theorem climb_of_base_ne (hb : t.base r l ≠ r) : t.climb r l = t.rise (t.base r l) := if_neg hb

/-- `..` does not lead out of the root directory. -/
theorem Within.climb (hw : t.Within r l) (hr : t.Has r) : t.Within r (t.climb r l) := by
  have hb := hw.base hr
  by_cases hne : t.base r l = r
  · rw [climb_of_base_eq hne]
    exact within_self r
  · rw [climb_of_base_ne hne]
    unfold rise
    split
    · split
      · exact hb
      · exact hb.dropLast hne
    · exact hb

/-- A step up leads to a place of the table. -/
theorem has_rise (hl : t.Has l) : t.Has (t.rise l) := by
  -- A place other than the root of its mount has a last component
  obtain ⟨m, hm, q, hq⟩ := hl
  simp only [rise, hm]
  split
  · exact ⟨m, hm, q, hq⟩
  · next hroot =>
    have hq0 : q ≠ [] := by
      rintro rfl
      exact hroot (by rw [← hq, List.append_nil])
    refine ⟨m, hm, ?_⟩
    show m.root <+: l.2.dropLast
    rw [← hq, List.dropLast_append_of_ne_nil hq0]
    exact List.prefix_append _ _

/-- `..` leads to a place of the table. -/
theorem has_climb (hr : t.Has r) (hl : t.Has l) : t.Has (t.climb r l) := by
  unfold climb
  split
  · exact hr
  · exact has_rise (has_base hl)

/-- Below its root directory `r'` a process climbs as one does whose root directory is not further
    down. -/
theorem Within.climb_eq {r' : Place α} (hl : t.Within r' l) (hr' : t.Has r')
    (hr : t.Within r' r → r = r') (hne : t.base r' l ≠ r') : t.climb r l = t.climb r' l := by
  -- Down through the mounts below `l` neither root directory is met
  have hbase : t.base r l = t.base r' l := by
    induction l using t.below_induction with
    | h l ih =>
      have hlr' : l ≠ r' := by
        rintro rfl
        exact hne (base_self l)
      have hlr : l ≠ r := by
        rintro rfl
        exact hlr' (hr hl)
      cases hl' : t.below l with
      | none => rw [base_end hl', base_end hl']
      | some l' =>
        rw [base_step hlr' hl'] at hne
        rw [base_step hlr' hl', base_step hlr hl', ih l' hl' (hl.below hr' hlr' hl') hne]
  -- So neither process stops at its root directory
  have hne' : t.base r l ≠ r := by
    intro heq
    have hin := hl.base hr'
    rw [← hbase, heq] at hin
    rw [← hbase, heq] at hne
    exact hne (hr hin)
  rw [climb_of_base_ne hne, climb_of_base_ne hne', hbase]

/-! ## More mounts -/

section

variable {t' : MountTable α}

/-- A larger table has the same below an old place. -/
theorem Extends.below (he : t.Extends t') (hl : l.1 < t.size) : t'.below l = t.below l := by
  rw [MountTable.below, MountTable.below, he.mount hl]

/-- A larger table goes up alike from an old place. -/
theorem Extends.rise (he : t.Extends t') (hl : l.1 < t.size) : t'.rise l = t.rise l := by
  rw [MountTable.rise, MountTable.rise, he.mount hl]

/-- A larger table goes down alike from an old place. -/
theorem Extends.base (he : t.Extends t') (hl : l.1 < t.size) : t'.base r l = t.base r l := by
  induction l using t.below_induction with
  | h l ih =>
    by_cases hne : l = r
    · rw [hne, base_self, base_self]
    · cases hl' : t.below l with
      | none => rw [base_end hl', base_end ((he.below hl).trans hl')]
      | some l' =>
        -- What is below is in an older mount, so it is old as well
        obtain ⟨m, hm, -, hp⟩ := below_eq_some.1 hl'
        have hlt := parent_lt hm hp
        rw [base_step hne hl', base_step hne ((he.below hl).trans hl'), ih l' hl' (by omega)]

/-- The way down from an old place stays among the old places. -/
theorem base_lt (hl : l.1 < t.size) : (t.base r l).1 < t.size := by
  induction l using t.below_induction with
  | h l ih =>
    by_cases hne : l = r
    · rwa [hne, base_self, ← hne]
    · cases hl' : t.below l with
      | none => rwa [base_end hl']
      | some l' =>
        obtain ⟨m, hm, -, hp⟩ := below_eq_some.1 hl'
        have hlt := parent_lt hm hp
        rw [base_step hne hl']
        exact ih l' hl' (by omega)

/-- `..` is the same in a larger table. -/
theorem Extends.climb (he : t.Extends t') (hl : l.1 < t.size) : t'.climb r l = t.climb r l := by
  rw [MountTable.climb, MountTable.climb, he.base hl, he.rise (base_lt hl)]

/-- No mount that was there is within other places than before. -/
theorem Extends.under (he : t.Extends t') (hn : n < t.size) : t'.under r n ↔ t.under r n := by
  induction n using Nat.strongRecOn with
  | _ n ih =>
    rw [under_iff, under_iff, he.mount hn]
    refine or_congr_right (exists_congr fun m => exists_congr fun l => and_congr_right fun hm =>
      and_congr_right fun hp => ?_)
    have hlt := parent_lt hm hp
    exact and_congr_left fun _ => ih l.1 hlt (by omega)

/-- What is within a place is the same in a larger table. -/
theorem Extends.within (he : t.Extends t') (hl : l.1 < t.size) : t'.Within r l ↔ t.Within r l :=
  and_congr_left fun _ => he.under hl

/-- The old mounts cover in a larger table what they covered. -/
private theorem Extends.topOf (he : t.Extends t') {k : Nat} (hk : k ≤ t.size) :
    t'.topOf k l = t.topOf k l := by
  induction k with
  | zero => rfl
  | succ k ih =>
    have hlt : k < t.size := hk
    rw [topOf_succ, topOf_succ, ih (by omega), cover, cover, he.mount hlt]

end

/-- The directory `root` of the file system `fs` is mounted at `dst`. -/
def attach (t : MountTable α) (fs : Nat) (root : List α) (dst : Place α) : MountTable α where
  size := t.size + 1
  mount n := if n = t.size then some ⟨fs, root, if t.Has dst then some dst else none⟩ else t.mount n
  older := by
    intro n m hm
    by_cases hn : n = t.size
    · rw [if_pos hn] at hm
      -- The new mount is on an old place, if on any
      cases hm
      refine ⟨by omega, fun {k q} hp => ?_⟩
      dsimp only at hp
      split at hp
      · next hdst =>
        cases hp
        obtain ⟨m', hm', hpre⟩ := hdst
        have hlt := (t.older hm').1
        exact ⟨by omega, m', by rw [if_neg (by omega), hm'], hpre⟩
      · cases hp
    · -- An old mount is as it was
      rw [if_neg hn] at hm
      obtain ⟨hlt, hold⟩ := t.older hm
      refine ⟨by omega, fun {k q} hp => ?_⟩
      obtain ⟨hkn, m', hm', hpre⟩ := hold hp
      exact ⟨hkn, m', by rw [if_neg (by omega), hm'], hpre⟩

section

variable {fs : Nat} {root : List α} {dst : Place α}

/-- `attach` leaves the mounts there are. -/
theorem extends_attach : t.Extends (t.attach fs root dst) where
  size := Nat.le_succ _
  mount hn := if_neg (by omega)

/-- The mount that is added. -/
theorem attach_mount_new (hdst : t.Has dst) :
    (t.attach fs root dst).mount t.size = some ⟨fs, root, some dst⟩ := by
  show (if t.size = t.size then _ else _) = _
  rw [if_pos rfl, if_pos hdst]

/-- `attach` adds no file system but the one attached. -/
theorem fs_of_attach {m' : Mount α} (hm' : (t.attach fs root dst).mount n = some m') :
    m'.fs = fs ∨ t.mount n = some m' := by
  change (if n = t.size then _ else t.mount n) = _ at hm'
  split at hm'
  · cases hm'
    exact .inl rfl
  · exact .inr hm'

/-- What is attached is seen where its place was seen. -/
theorem top_attach (hdst : t.Has dst) : (t.attach fs root dst).top l =
    if t.top l = dst then (t.size, root) else t.top l := by
  show (t.attach fs root dst).topOf (t.size + 1) l = _
  rw [topOf_succ, extends_attach.topOf (Nat.le_refl _)]
  show _ = if t.topOf t.size l = dst then _ else t.topOf t.size l
  unfold cover
  rw [attach_mount_new hdst]
  simp only [Option.some.injEq, eq_comm]

/-- Below the new mount is the place it is on. -/
theorem attach_below_new (hdst : t.Has dst) :
    (t.attach fs root dst).below (t.size, root) = some dst := by
  rw [below, attach_mount_new hdst]
  exact if_pos rfl

/-- The way down from the new mount goes on from the place it is on. -/
theorem attach_base_new (hdst : t.Has dst) (hne : (t.size, root) ≠ r) :
    (t.attach fs root dst).base r (t.size, root) = t.base r dst := by
  rw [base_step hne (attach_below_new hdst), extends_attach.base hdst.lt]

/-- So `..` at the new mount is `..` at the place it is on. -/
theorem attach_climb_new (hdst : t.Has dst) (hne : (t.size, root) ≠ r) :
    (t.attach fs root dst).climb r (t.size, root) = t.climb r dst := by
  rw [climb, climb, attach_base_new hdst hne, extends_attach.rise (base_lt hdst.lt)]

/-- A place that nothing leads out through does not change what climbs past it. -/
theorem climb_of_uncovered (hr : t.Uncovered r) (hne : l ≠ r) {r' : Place α} (hr' : t.size ≤ r'.1)
    (hl : l.1 < t.size) : t.climb r' l = t.climb r l := by
  have hno : ∀ x : Place α, x.1 < t.size → x ≠ r' := by
    rintro x hx rfl
    omega
  -- No mount below leads to `r'`, which is new, or to `r`, which is uncovered
  have hbase : t.base r' l = t.base r l ∧ t.base r l ≠ r := by
    induction l using t.below_induction with
    | h l ih =>
      cases hl' : t.below l with
      | none => rw [base_end hl', base_end hl']; exact ⟨rfl, hne⟩
      | some l' =>
        obtain ⟨m, hm, -, hp⟩ := below_eq_some.1 hl'
        have hlt := parent_lt hm hp
        have hne' : l' ≠ r := by
          rintro rfl
          exact hr _ _ hm hp
        rw [base_step hne hl', base_step (hno l hl) hl']
        exact ih l' hl' hne' (by omega)
  rw [climb, climb, hbase.1, if_neg (hno _ (base_lt hl)), if_neg hbase.2]

end

/-! ## A copy of what is mounted within a place -/

/-- The mounts within `src` are copied, and the copy of `src` is mounted at `dst`. -/
def clone (t : MountTable α) (src dst : Place α) : MountTable α where
  size := t.size + t.size
  mount n :=
    if n < t.size then t.mount n
    else match t.mount (n - t.size) with
      | some m =>
        if n - t.size = src.1 then some ⟨m.fs, src.2, if t.Has dst then some dst else none⟩
        else if t.under src (n - t.size) then some ⟨m.fs, m.root, m.parent.map t.copy⟩
        else none
      | none => none
  older := by
    intro n m hm
    -- An old mount is as it was
    by_cases hn : n < t.size
    · rw [if_pos hn] at hm
      obtain ⟨hlt, hold⟩ := t.older hm
      refine ⟨by omega, fun {k q} hp => ?_⟩
      obtain ⟨hkn, m', hm', hpre⟩ := hold hp
      exact ⟨hkn, m', by rw [if_pos (by omega), hm'], hpre⟩
    · -- A copy: of the mount of `src`, or of one under it
      rw [if_neg hn] at hm
      cases hj : t.mount (n - t.size) with
      | none =>
        rw [hj] at hm
        cases hm
      | some mj =>
        have hlt := (t.older hj).1
        rw [hj] at hm
        dsimp only at hm
        refine ⟨by omega, fun {k q} hp => ?_⟩
        split at hm
        · -- the copy of the mount that shows `src`
          cases hm
          dsimp only at hp
          split at hp
          · next hdst =>
            cases hp
            obtain ⟨m', hm', hpre⟩ := hdst
            have hk := (t.older hm').1
            exact ⟨by omega, m', by rw [if_pos hk, hm'], hpre⟩
          · cases hp
        · next hne =>
          split at hm
          · next hunder =>
            cases hm
            -- the mount that it is on is within `src` and is copied as well
            rcases under_iff.1 hunder with heq | ⟨m', l, hm', hl, hw⟩
            · exact absurd heq hne
            cases hj.symm.trans hm'
            rw [hl] at hp
            cases hp
            obtain ⟨hlj, ml, hml, hpre⟩ := (t.older hj).2 (k := l.1) (q := l.2) hl
            refine ⟨by omega, ?_⟩
            rw [if_neg (by omega)]
            simp only [Nat.add_sub_cancel_left, hml]
            split
            · next heq => exact ⟨_, rfl, hw.2 heq⟩
            · rw [if_pos hw.1]
              exact ⟨_, rfl, hpre⟩
          · cases hm

section

variable {src dst : Place α}

/-- `clone` leaves the mounts there are. -/
theorem extends_clone : t.Extends (t.clone src dst) where
  size := Nat.le_add_right _ _
  mount hn := if_pos hn

/-- The copies show what the mounts do of which they are the copies. -/
theorem fs_of_clone {m' : Mount α} (hm' : (t.clone src dst).mount n = some m') :
    ∃ k m, t.mount k = some m ∧ m'.fs = m.fs := by
  change (if n < t.size then t.mount n else _) = _ at hm'
  split at hm'
  · -- An old mount
    exact ⟨n, m', hm', rfl⟩
  · cases hm : t.mount (n - t.size) with
    | none =>
      rw [hm] at hm'
      cases hm'
    | some m =>
      rw [hm] at hm'
      dsimp only at hm'
      refine ⟨_, m, hm, ?_⟩
      split at hm'
      · cases hm'
        rfl
      · split at hm'
        · cases hm'
          rfl
        · cases hm'

/-- The copy of the mount that shows `src`: its root is `src`, and it is on `dst`. -/
theorem clone_mount_src (hm : t.mount src.1 = some m) (hdst : t.Has dst) :
    (t.clone src dst).mount (t.size + src.1) = some ⟨m.fs, src.2, some dst⟩ := by
  show (if _ then _ else _) = _
  rw [if_neg (by omega), Nat.add_sub_cancel_left, hm]
  simp only [if_true, if_pos hdst]

/-- The copy of any other mount is on the copy of what the mount is on. -/
theorem clone_mount_copy (hm : t.mount n = some m) (hne : n ≠ src.1) (hu : t.under src n) :
    (t.clone src dst).mount (t.size + n) = some ⟨m.fs, m.root, m.parent.map t.copy⟩ := by
  show (if _ then _ else _) = _
  rw [if_neg (by omega), Nat.add_sub_cancel_left, hm]
  simp only [if_neg hne, if_pos hu]

/-- The copies that there are. -/
theorem clone_mount_eq_some (hdst : t.Has dst) {m' : Mount α}
    (hm' : (t.clone src dst).mount (t.size + n) = some m') :
    ∃ m, t.mount n = some m ∧ t.under src n ∧
      if n = src.1 then m' = ⟨m.fs, src.2, some dst⟩ else m' = ⟨m.fs, m.root, m.parent.map t.copy⟩ := by
  change (if _ then _ else _) = _ at hm'
  rw [if_neg (by omega), Nat.add_sub_cancel_left] at hm'
  cases hm : t.mount n with
  | none =>
    rw [hm] at hm'
    cases hm'
  | some m =>
    rw [hm] at hm'
    simp only [if_pos hdst] at hm'
    refine ⟨m, rfl, ?_⟩
    -- The mount of `src`, or one under it
    by_cases heq : n = src.1
    · rw [if_pos heq] at hm' ⊢
      exact ⟨under_iff.2 (.inl heq), (Option.some.inj hm').symm⟩
    · rw [if_neg heq] at hm' ⊢
      split at hm'
      · next hu => exact ⟨hu, (Option.some.inj hm').symm⟩
      · cases hm'

/-- The copy of a place within `src` is a place of the new table. -/
theorem has_copy (hdst : t.Has dst) (hl : t.Has l) (hw : t.Within src l) :
    (t.clone src dst).Has (t.copy l) := by
  obtain ⟨m, hm, hpre⟩ := hl
  -- The mount of `src` shows less of its file system in the copy
  by_cases heq : l.1 = src.1
  · rw [heq] at hm
    refine ⟨_, (congrArg _ ?_).trans (clone_mount_src hm hdst), hw.2 heq⟩
    show t.size + l.1 = _
    rw [heq]
  · exact ⟨_, clone_mount_copy hm heq hw.1, hpre⟩

/-- The new mounts are within the copy of `src`. -/
theorem within_copy_of_clone (hdst : t.Has dst) {m' : Mount α}
    (hm' : (t.clone src dst).mount (t.size + n) = some m') :
    (t.clone src dst).Within (t.copy src) (t.size + n, m'.root) := by
  induction n using Nat.strongRecOn generalizing m' with
  | _ n ih =>
    obtain ⟨m, hm, hu, hcase⟩ := clone_mount_eq_some hdst hm'
    split at hcase
    · next heq =>
      subst hcase heq
      exact within_self _
    · next hne =>
      subst hcase
      obtain ⟨m₁, x, hm₁, hp, hw⟩ := (under_iff.1 hu).resolve_left hne
      cases hm.symm.trans hm₁
      -- what it is mounted on is within the copy, and so is the mount itself
      obtain ⟨m'', hm'', hpre⟩ := has_copy hdst (parent_has hm hp) hw
      have hx : (t.clone src dst).Within (t.copy src) (t.copy x) := by
        refine ⟨(ih x.1 (parent_lt hm hp) hm'').1, fun heq => hw.2 ?_⟩
        simp only [copy] at heq
        omega
      exact hx.onto hm' (by rw [hp, Option.map_some])

/-- The copy of `src` is within `src`, as `dst` is. -/
theorem within_src_of_clone (hsrc : t.Has src) (hdst : t.top src = dst) :
    (t.clone src dst).Within src (t.copy src) := by
  have hhas : t.Has dst := hdst ▸ has_top hsrc
  have hw : (t.clone src dst).Within src dst := by
    rw [extends_clone.within hhas.lt, ← hdst]
    exact (within_self src).top
  obtain ⟨m, hm, -⟩ := hsrc
  exact hw.onto (clone_mount_src hm hhas) rfl

/-- The copies of the first `k` mounts, seen from `l`. -/
private def copiesOf (t : MountTable α) (src dst : Place α) (k : Nat) (l : Place α) : Place α :=
  (List.range k).foldl (fun l n => (t.clone src dst).cover (t.size + n) l) l

/-- One more copy is looked at. -/
private theorem copiesOf_succ (k : Nat) : t.copiesOf src dst (k + 1) l =
    (t.clone src dst).cover (t.size + k) (t.copiesOf src dst k l) := by
  rw [copiesOf, List.range_succ, List.foldl_append]
  rfl

/-- The old mounts are looked at first, then the copies. -/
private theorem top_clone_eq (l : Place α) :
    (t.clone src dst).top l =
      t.copiesOf src dst t.size ((t.clone src dst).topOf t.size l) := by
  show (List.range (t.size + t.size)).foldl _ l = _
  rw [List.range_add, List.foldl_append, List.foldl_map]
  rfl

/-- The copy of a mount covers the copy of a place if the mount covers the place. -/
private theorem cover_copy (hdst : t.Has dst) (n : Nat) (hw : t.Within src l) :
    (t.clone src dst).cover (t.size + n) (t.copy l) = t.copy (t.cover n l) := by
  by_cases hcov : ∃ m, t.mount n = some m ∧ m.parent = some l
  · obtain ⟨m, hm, hp⟩ := hcov
    -- the mount is on a place within `src`, so it is not the one that shows `src`
    have hlt := parent_lt hm hp
    have hle := le_of_under hw.1
    have hne : n ≠ src.1 := by omega
    have hu : t.under src n := under_iff.2 (.inr ⟨m, l, hm, hp, hw⟩)
    rw [cover_of_parent hm hp, cover_of_parent (clone_mount_copy hm hne hu) (by simp [hp])]
    rfl
  · have hold : t.cover n l = l := cover_of_ne fun m hm hp => hcov ⟨m, hm, hp⟩
    rw [hold]
    -- A copy that covers is the copy of a mount that covers
    refine cover_of_ne fun m' hm' hp' => ?_
    obtain ⟨m, hm, -, hcase⟩ := clone_mount_eq_some hdst hm'
    split at hcase
    · subst hcase
      exact copy_ne hdst.lt (Option.some.inj hp').symm
    · subst hcase
      obtain ⟨x, hx, hcopy⟩ := Option.map_eq_some_iff.1 hp'
      rw [copy_injective hcopy] at hx
      exact hcov ⟨m, hm, hx⟩

/-- The copies on old places are on `dst`, and there is one. -/
private theorem cover_old (hdst : t.Has dst) (n : Nat) (hl : l.1 < t.size)
    (hne : l ≠ dst ∨ n ≠ src.1) : (t.clone src dst).cover (t.size + n) l = l := by
  refine cover_of_ne fun m' hm' hp' => ?_
  obtain ⟨m, hm, -, hcase⟩ := clone_mount_eq_some hdst hm'
  split at hcase
  · next heq =>
    subst hcase
    exact hne.resolve_right (absurd heq) (Option.some.inj hp').symm
  · subst hcase
    obtain ⟨x, -, hcopy⟩ := Option.map_eq_some_iff.1 hp'
    exact copy_ne hl hcopy

/-- What is seen at the copy of a place is the copy of what is seen there. -/
theorem top_clone_copy (hdst : t.Has dst) (hw : t.Within src l) :
    (t.clone src dst).top (t.copy l) = t.copy (t.top l) := by
  -- The old mounts are older than the copy, so none is on it
  have hold : ∀ k, k ≤ t.size → (t.clone src dst).topOf k (t.copy l) = t.copy l := by
    intro k
    induction k with
    | zero => exact fun _ => rfl
    | succ k ih =>
      intro hk
      rw [topOf_succ, ih (by omega)]
      refine cover_of_ne fun m hm hp => ?_
      rw [extends_clone.mount hk] at hm
      have hlt := parent_lt hm hp
      simp only [copy] at hlt
      omega
  -- The copies cover the copy as the mounts cover the place
  have hnew : ∀ k, t.copiesOf src dst k (t.copy l) = t.copy (t.topOf k l) := by
    intro k
    induction k with
    | zero => rfl
    | succ k ih => rw [copiesOf_succ, topOf_succ, ih, cover_copy hdst k (hw.topOf k)]
  rw [top_clone_eq, hold t.size (Nat.le_refl _), hnew t.size]
  rfl

/-- What is seen at an old place: at `dst`, the copy of what is seen at `src`. -/
theorem top_clone (hsrc : t.Has src) (hdst : t.Has dst) (hl : t.Has l) :
    (t.clone src dst).top l = if t.top l = dst then t.copy (t.top src) else t.top l := by
  have hold : (t.clone src dst).topOf t.size l = t.top l := extends_clone.topOf (Nat.le_refl _)
  rw [top_clone_eq, hold]
  by_cases heq : t.top l = dst
  · rw [if_pos heq, heq]
    -- first the copy of the mount that shows `src`, and then the copies of those on it
    have hnew : ∀ k, t.copiesOf src dst k dst =
        if k ≤ src.1 then dst else t.copy (t.topOf k src) := by
      intro k
      induction k with
      | zero => rw [if_pos (Nat.zero_le _)]; rfl
      | succ k ih =>
        rw [copiesOf_succ, ih]
        -- Before the copy of the mount of `src`, that copy, and after it
        rcases Nat.lt_trichotomy k src.1 with hlt | heqk | hgt
        · rw [if_pos (by omega), if_pos (by omega), cover_old hdst k hdst.lt (.inr (by omega))]
        · subst heqk
          obtain ⟨m, hm, -⟩ := hsrc
          rw [if_pos (Nat.le_refl _), if_neg (by omega), topOf_of_le (Nat.le_refl _)]
          exact cover_of_parent (clone_mount_src hm hdst) rfl
        · rw [if_neg (by omega), if_neg (by omega), cover_copy hdst k ((within_self src).topOf k),
            topOf_succ]
    have hlt := hsrc.lt
    rw [hnew, if_neg (by omega)]
    rfl
  · rw [if_neg heq]
    have hlt : (t.top l).1 < t.size := (has_top hl).lt
    -- The copies are on `dst` or on copies, so none is on this place
    have hkeep : ∀ k, t.copiesOf src dst k (t.top l) = t.top l := by
      intro k
      induction k with
      | zero => rfl
      | succ k ih => rw [copiesOf_succ, ih, cover_old hdst k hlt (.inl heq)]
    exact hkeep t.size

/-- Under the copy of a place are the copies of the mounts under the place. -/
theorem clone_under_copy (hdst : t.Has dst) (hw : t.Within src l) {m : Mount α}
    (hm : t.mount n = some m) : (t.clone src dst).under (t.copy l) (t.size + n) ↔ t.under l n := by
  induction n using Nat.strongRecOn generalizing m with
  | _ n ih =>
    rw [under_iff, under_iff]
    -- Strong induction on the mount: its parent is an older one
    have hparent : ∀ x : Place α, m.parent = some x →
        ((t.clone src dst).Within (t.copy l) (t.copy x) ↔ t.Within l x) := by
      intro x hp
      obtain ⟨mx, hmx, -⟩ := parent_has hm hp
      refine and_congr (ih x.1 (parent_lt hm hp) hmx) ?_
      simp only [copy, Nat.add_left_cancel_iff]
    constructor
    · rintro (heq | ⟨m', x', hm', hp', hw'⟩)
      · exact .inl (Nat.add_left_cancel heq)
      · obtain ⟨m₁, hm₁, hu, hcase⟩ := clone_mount_eq_some hdst hm'
        cases hm.symm.trans hm₁
        split at hcase
        · -- the copy of `src` is on an old place
          subst hcase
          cases hp'
          have hle : t.size + l.1 ≤ dst.1 := le_of_under hw'.1
          have hlt := hdst.lt
          omega
        · -- Any other copy is on the copy of what the mount is on
          subst hcase
          obtain ⟨x, hp, rfl⟩ := Option.map_eq_some_iff.1 hp'
          exact .inr ⟨m, x, hm, hp, (hparent x hp).1 hw'⟩
    · rintro (rfl | ⟨m₁, x, hm₁, hp, hx⟩)
      · exact .inl rfl
      · cases hm.symm.trans hm₁
        -- The mount is under `src`, but it is not the one that `src` is in
        have hlt := parent_lt hm hp
        have hle := le_of_under (hw.trans hx).1
        have hu : t.under src n := under_iff.2 (.inr ⟨m, x, hm, hp, hw.trans hx⟩)
        have hne : n ≠ src.1 := by omega
        exact .inr ⟨_, t.copy x, clone_mount_copy hm hne hu, by rw [hp, Option.map_some],
          (hparent x hp).2 hx⟩

/-- Below the copy of `src` is the place that the copy is on. -/
theorem clone_below_src (hsrc : t.Has src) (hdst : t.Has dst) :
    (t.clone src dst).below (t.copy src) = some dst := by
  obtain ⟨m, hm, -⟩ := hsrc
  show (match (t.clone src dst).mount (t.size + src.1) with
    | some m => if m.root = src.2 then m.parent else none
    | none => none) = _
  rw [clone_mount_src hm hdst]
  exact if_pos rfl

/-- Within `src` the root of the mount that shows it is `src` at most. -/
theorem root_ne_of_within (hsrc : t.Has src) (hm : t.mount l.1 = some m) (hw : t.Within src l)
    (hne : l ≠ src) (heq : l.1 = src.1) : m.root ≠ l.2 := by
  intro hroot
  obtain ⟨m', hm', hpre⟩ := hsrc
  rw [heq] at hm
  cases hm.symm.trans hm'
  rw [hroot] at hpre
  exact hne (Prod.ext heq (List.IsPrefix.eq_of_length hpre
    (Nat.le_antisymm hpre.length_le (hw.2 heq).length_le)))

/-- Below any other copy is the copy of what is below. -/
theorem clone_below_copy (hsrc : t.Has src) (hdst : t.Has dst) (hl : t.Has l)
    (hw : t.Within src l) (hne : l ≠ src) :
    (t.clone src dst).below (t.copy l) = (t.below l).map t.copy := by
  obtain ⟨m, hm, hpre⟩ := hl
  show (match (t.clone src dst).mount (t.size + l.1) with
    | some m => if m.root = l.2 then m.parent else none
    | none => none) = _
  -- The mount of `src` has another root in the copy
  by_cases heq : l.1 = src.1
  · have hroot := root_ne_of_within hsrc hm hw hne heq
    have hsrc' : src.2 ≠ l.2 := fun h => hne (Prod.ext heq h.symm)
    rw [below, hm, heq]
    rw [heq] at hm
    rw [clone_mount_src hm hdst]
    simp only [if_neg hsrc', if_neg hroot, Option.map_none]
  · rw [clone_mount_copy hm heq hw.1, below, hm]
    dsimp only
    split <;> rfl

/-- A step up from a copy is the copy of a step up. -/
theorem clone_rise_copy (hsrc : t.Has src) (hdst : t.Has dst) (hl : t.Has l)
    (hw : t.Within src l) (hne : l ≠ src) :
    (t.clone src dst).rise (t.copy l) = t.copy (t.rise l) := by
  obtain ⟨m, hm, hpre⟩ := hl
  show (match (t.clone src dst).mount (t.size + l.1) with
    | some m => if m.root = l.2 then t.copy l else (t.size + l.1, l.2.dropLast)
    | none => t.copy l) = _
  -- The mount of `src` has another root in the copy
  by_cases heq : l.1 = src.1
  · have hroot := root_ne_of_within hsrc hm hw hne heq
    have hsrc' : src.2 ≠ l.2 := fun h => hne (Prod.ext heq h.symm)
    have hm' := hm
    rw [heq] at hm'
    rw [rise, hm, heq, clone_mount_src hm' hdst]
    simp only [if_neg hsrc', if_neg hroot, copy]
  · rw [clone_mount_copy hm heq hw.1, rise, hm]
    dsimp only
    split <;> rfl

/-- A step up leaves no place but `r` itself. -/
theorem Within.rise (hw : t.Within r l) (hne : l ≠ r) : t.Within r (t.rise l) := by
  unfold MountTable.rise
  split
  · split
    · exact hw
    · exact hw.dropLast hne
  · exact hw

/-- Two places that lie within each other are the same. -/
theorem Within.antisymm (hw : t.Within r l) (hw' : t.Within l r) : l = r := by
  have heq : l.1 = r.1 := Nat.le_antisymm (le_of_under hw'.1) (le_of_under hw.1)
  have hpre := hw.2 heq
  have hpre' := hw'.2 heq.symm
  exact Prod.ext heq (List.IsPrefix.eq_of_length hpre'
    (Nat.le_antisymm hpre'.length_le hpre.length_le))

/-- The first root directory is within nothing but itself. -/
theorem IsFirst.within_iff (hr : t.IsFirst r) (hl : t.Has l) : t.Within l r ↔ r = l := by
  constructor
  · intro hw
    obtain ⟨m, hm, hroot, hp⟩ := hr
    -- The first mount is on nothing, so only its own places are below
    rcases under_iff.1 hw.1 with heq | ⟨m', x, hm', hx, -⟩
    · obtain ⟨m', hm', hpre⟩ := hl
      rw [heq] at hm
      cases hm.symm.trans hm'
      rw [hroot] at hpre
      exact Prod.ext heq (List.IsPrefix.eq_of_length hpre
        (Nat.le_antisymm hpre.length_le (hw.2 heq).length_le))
    · cases hm.symm.trans hm'
      rw [hp] at hx
      cases hx
  · rintro rfl
    exact within_self r

/-- Under what is mounted at a place is what is under the place, but for a root directory in
    between. -/
theorem base_top (hr : t.Within l r → r = l) : t.base r (t.top l) = t.base r l := by
  suffices h : t.base r (t.top l) = t.base r l ∧ t.Within l (t.top l) from h.1
  -- Along the chain of mounts from `l` up to what is seen there
  refine top_induction (P := fun x => t.base r x = t.base r l ∧ t.Within l x) ⟨rfl, within_self l⟩ ?_
  rintro n m x hm hp ⟨hbase, hw⟩
  have hon := hw.onto hm hp
  have hlt := parent_lt hm hp
  have hle := le_of_under hw.1
  have hne : (n, m.root) ≠ r := by
    rintro rfl
    have heq := congrArg Prod.fst (hr hon)
    dsimp only at heq
    omega
  exact ⟨by rw [base_step hne ((below_of_root hm).trans hp), hbase], hon⟩

/-- Of the places within `src` only those have what is seen at `src` within them that are on the way
    to it. -/
theorem base_of_within_top (hr : t.Has r) (hrs : t.Within src r) (hw : t.Within r (t.top src)) :
    t.base src r = src ∧ t.base r (t.top src) = r := by
  -- Along the chain of mounts from `src` up to what is seen there, for every `r` at once
  suffices h : t.Within src (t.top src) ∧ t.base src (t.top src) = src ∧
      ∀ r, t.Has r → t.Within src r → t.Within r (t.top src) →
        t.base src r = src ∧ t.base r (t.top src) = r from h.2.2 r hr hrs hw
  refine top_induction (P := fun x => t.Within src x ∧ t.base src x = src ∧ ∀ r, t.Has r →
    t.Within src r → t.Within r x → t.base src r = src ∧ t.base r x = r) ?_ ?_
  · refine ⟨within_self src, base_self src, fun r _ hrs hw => ?_⟩
    obtain rfl := hrs.antisymm hw
    exact ⟨base_self r, base_self r⟩
  · rintro n m x hm hp ⟨hx, hbase, ih⟩
    -- One more mount: it is younger than the one that `src` is in
    have hlt := parent_lt hm hp
    have hle := le_of_under hx.1
    have hne : (n, m.root) ≠ src := by
      rintro rfl
      dsimp only at hle
      omega
    have hbelow : t.below (n, m.root) = some x := (below_of_root hm).trans hp
    have hbase' : t.base src (n, m.root) = src := by rw [base_step hne hbelow, hbase]
    refine ⟨hx.onto hm hp, hbase', fun r hr hrs hw => ?_⟩
    by_cases heq : r = (n, m.root)
    · -- The root directory is the root of that mount
      subst heq
      exact ⟨hbase', base_self _⟩
    · obtain ⟨hsrc, hrx⟩ := ih r hr hrs (hw.below hr (Ne.symm heq) hbelow)
      exact ⟨hsrc, by rw [base_step (Ne.symm heq) hbelow, hrx]⟩

/-- From a place on the way to what is seen at `src` one climbs out of the copy. -/
theorem clone_base_exit (hsrc : t.Has src) (hdst : t.Has dst) (hr : r.1 < t.size) (hl : t.Has l)
    (hws : t.Within src l) (hout : t.base src l = src) :
    (t.clone src dst).base r (t.copy l) = t.base r dst := by
  induction l using t.below_induction with
  | h l ih =>
    -- Down through the mounts below the copy, until it is left at `src`
    by_cases hlsrc : l = src
    · rw [hlsrc, base_step (copy_ne hr) (clone_below_src hsrc hdst), extends_clone.base hdst.lt]
    · have hbelow : (t.clone src dst).below (t.copy l) = _ :=
        clone_below_copy hsrc hdst hl hws hlsrc
      cases hl' : t.below l with
      | none =>
        rw [base_end hl'] at hout
        exact absurd hout hlsrc
      | some l' =>
        obtain ⟨m, hm, -, hp⟩ := below_eq_some.1 hl'
        rw [hl'] at hbelow
        rw [base_step hlsrc hl'] at hout
        rw [base_step (copy_ne hr) hbelow]
        exact ih l' hl' (parent_has hm hp) (hws.below hsrc hlsrc hl') hout

/-- In the copy a process climbs as it does in what is copied, and out of that from `src`, if its
    root directory is not copied, or if the place and what the copy is mounted on are in it. -/
theorem clone_climb_old (hsrc : t.Has src) (hdst : t.top src = dst) (hr : t.Has r)
    (hrs : (t.Within src r → r = src) ∨ t.Within r l ∧ t.Within r dst) (hl : t.Has l)
    (hws : t.Within src l) :
    (t.clone src dst).climb r (t.copy l) = t.climb r l ∨
      (t.Within src (t.climb r l) ∧
        (t.clone src dst).climb r (t.copy l) = t.copy (t.climb r l)) := by
  have hhas : t.Has dst := hdst ▸ has_top hsrc
  have hne : ∀ x, t.copy x ≠ r := fun x => copy_ne hr.lt
  -- Down through the mounts below the copy: either out of it at `src`, or to an end in it
  have hbase : (t.clone src dst).base r (t.copy l) = t.base r l ∨
      (t.Within src (t.base r l) ∧ t.base r l ≠ src ∧ t.base r l ≠ r ∧
        (t.clone src dst).base r (t.copy l) = t.copy (t.base r l)) := by
    induction l using t.below_induction with
    | h l ih =>
      -- One mount further down
      by_cases hlsrc : l = src
      · -- out of the copy
        left
        subst hlsrc
        have hroot : t.Within l r → r = l := fun hw =>
          hrs.elim (fun h => h hw) fun h => h.1.antisymm hw |>.symm
        rw [base_step (hne l) (clone_below_src hsrc hhas), extends_clone.base hhas.lt, ← hdst,
          base_top hroot]
      · by_cases hlr : l = r
        · -- the root directory is on the way to what is seen at `src`
          left
          subst hlr
          rcases hrs with hrs | ⟨-, hin⟩
          · exact absurd (hrs hws) hlsrc
          · obtain ⟨hout, hback⟩ := base_of_within_top hr hws (hdst ▸ hin)
            rw [clone_base_exit hsrc hhas hr.lt hr hws hout, ← hdst, hback, base_self]
        · have hbelow : (t.clone src dst).below (t.copy l) = _ :=
            clone_below_copy hsrc hhas hl hws hlsrc
          cases hl' : t.below l with
          | none =>
            rw [hl'] at hbelow
            rw [base_end hl', base_end hbelow]
            exact .inr ⟨hws, hlsrc, hlr, rfl⟩
          | some l' =>
            obtain ⟨m, hm, -, hp⟩ := below_eq_some.1 hl'
            rw [hl'] at hbelow
            rw [base_step hlr hl', base_step (hne l) hbelow]
            exact ih l' hl' (hrs.imp_right fun h => ⟨h.1.below hr hlr hl', h.2⟩) (parent_has hm hp)
              (hws.below hsrc hlsrc hl')
  -- One step up from there
  rcases hbase with heq | ⟨hw, hnesrc, hner, heq⟩
  · left
    rw [climb, climb, heq, extends_clone.rise (base_lt hl.lt)]
  · right
    rw [climb, climb, heq, if_neg hner, if_neg (hne _)]
    exact ⟨hw.rise hnesrc, clone_rise_copy hsrc hhas (has_base hl) hw hnesrc⟩

/-- In the copy of its root directory a process climbs as it does there. -/
theorem clone_climb_copy (hsrc : t.Has src) (hdst : t.Has dst) (hr : t.Has r)
    (hrs : t.Within src r) (hl : t.Has l) (hw : t.Within r l) :
    (t.clone src dst).climb (t.copy r) (t.copy l) = t.copy (t.climb r l) := by
  -- Down through the mounts below the copy, which ends where the original does
  have hbase : (t.clone src dst).base (t.copy r) (t.copy l) = t.copy (t.base r l) := by
    induction l using t.below_induction with
    | h l ih =>
      by_cases hlr : l = r
      · rw [hlr, base_self, base_self]
      · have hlsrc : l ≠ src := by
          rintro rfl
          exact hlr (hw.antisymm hrs)
        have hne : t.copy l ≠ t.copy r := fun heq => hlr (copy_injective heq)
        have hbelow : (t.clone src dst).below (t.copy l) = _ :=
          clone_below_copy hsrc hdst hl (hrs.trans hw) hlsrc
        cases hl' : t.below l with
        | none =>
          rw [hl'] at hbelow
          rw [base_end hl', base_end hbelow]
        | some l' =>
          obtain ⟨m, hm, -, hp⟩ := below_eq_some.1 hl'
          rw [hl'] at hbelow
          rw [base_step hlr hl', base_step hne hbelow]
          exact ih l' hl' (parent_has hm hp) (hw.below hr hlr hl')
  rw [climb, climb, hbase]
  -- One step up from there, unless it is the root directory
  by_cases hb : t.base r l = r
  · rw [if_pos hb, if_pos (congrArg t.copy hb)]
  · have hwb := hw.base hr
    rw [if_neg hb, if_neg fun heq => hb (copy_injective heq)]
    apply clone_rise_copy hsrc hdst (has_base hl) (hrs.trans hwb)
    intro heq
    rw [← heq] at hrs
    exact hb (hwb.antisymm hrs)

end

end MountTable
