import Mathlib.Data.List.Basic

/-!
# Path resolution with symbolic links

A `PathSpace` is a tree of files as one process sees it: where `..` and a name
lead from each location, which locations are symbolic links, and where an
absolute path starts. `PathSpace.walk` resolves a path as a kernel does, with a
budget of links to follow.

The results compare two spaces. A path that stays beneath a directory leads to
the same location in a space that is jailed there (`walk_eq_of_beneath`), from
which no path gets out (`walk_within`). A path that leads somewhere in one space
leads to a related location in another that it simulates (`Sim.walk`), and comes to
the same end in both if they are bisimilar (`Bisim.walk`).
-/

/-- A component of a path. An empty one is the same as `.`. -/
inductive Component (α : Type) where
  | stay
  | up
  | down (name : α)
  deriving DecidableEq, Repr

/-- What a symbolic link points to. -/
structure SymLink (α : Type) where
  absolute : Bool
  path : List (Component α)
  deriving DecidableEq, Repr

/-- A tree of files, seen by a process with the root directory `root`. -/
structure PathSpace (Loc α : Type) where
  root : Loc
  isDir : Loc → Bool
  up : Loc → Loc
  child : Loc → α → Option Loc
  link : Loc → Option (SymLink α)

/-- Where a path leads: to a location, with `links` links left of the budget; to a name that is
    free in a directory; or nowhere. -/
inductive Arrival (Loc α : Type) where
  | at (l : Loc) (links : Nat)
  | free (dir : Loc) (name : α)
  | missing
  | notDir
  | loop
  deriving DecidableEq, Repr

namespace Arrival

variable {Loc α : Type}

/-- Goes on from a location. -/
def andThen (x : Arrival Loc α) (f : Loc → Nat → Arrival Loc α) : Arrival Loc α :=
  match x with
  | .at l links => f l links
  | .free _ _ => .missing
  | .missing => .missing
  | .notDir => .notDir
  | .loop => .loop

/-- Every location the walk has led to is in `P`. -/
def Within (P : Loc → Prop) : Arrival Loc α → Prop
  | .at l _ => P l
  | .free l _ => P l
  | _ => True

/-- What holds of the place arrived at may be weakened. -/
theorem Within.mono {P Q : Loc → Prop} {x : Arrival Loc α} (h : x.Within P)
    (hPQ : ∀ l, P l → Q l) : x.Within Q := by
  cases x with
  | «at» l k => exact hPQ l h
  | free l a => exact hPQ l h
  | missing => trivial
  | notDir => trivial
  | loop => trivial

/-- What the walk has led to, told by `f`. -/
def map {β : Type} (f : Loc → β) : Arrival Loc α → Arrival β α
  | .at l links => .at (f l) links
  | .free l a => .free (f l) a
  | .missing => .missing
  | .notDir => .notDir
  | .loop => .loop

/-- Two walks come to the same end, at related locations. -/
inductive Rel {Loc' : Type} (R : Loc' → Loc → Prop) : Arrival Loc' α → Arrival Loc α → Prop
  | at {l' : Loc'} {l : Loc} {links : Nat} (h : R l' l) : Rel R (.at l' links) (.at l links)
  | free {l' : Loc'} {l : Loc} {a : α} (h : R l' l) : Rel R (.free l' a) (.free l a)
  | missing : Rel R .missing .missing
  | notDir : Rel R .notDir .notDir
  | loop : Rel R .loop .loop

/-- Related arrivals are mapped alike. -/
theorem Rel.map_eq {Loc' β : Type} {R : Loc' → Loc → Prop} {x' : Arrival Loc' α}
    {x : Arrival Loc α} (h : x'.Rel R x) {f' : Loc' → β} {f : Loc → β}
    (hf : ∀ l' l, R l' l → f' l' = f l) : x'.map f' = x.map f := by
  cases h with
  | «at» h => rw [map, map, hf _ _ h]
  | free h => rw [map, map, hf _ _ h]
  | missing => rfl
  | notDir => rfl
  | loop => rfl

/-- Where the one walk arrives, so does the other. -/
theorem Rel.exists_at_left {Loc' : Type} {R : Loc' → Loc → Prop} {l' : Loc'} {k : Nat}
    {x : Arrival Loc α} (h : Rel R (.at l' k) x) : ∃ l, x = .at l k ∧ R l' l := by
  cases h with
  | «at» h => exact ⟨_, rfl, h⟩

/-- And the other way round. -/
theorem Rel.exists_at_right {Loc' : Type} {R : Loc' → Loc → Prop} {l : Loc} {k : Nat}
    {x' : Arrival Loc' α} (h : Rel R x' (.at l k)) : ∃ l', x' = .at l' k ∧ R l' l := by
  cases h with
  | «at» h => exact ⟨_, rfl, h⟩

/-- With `d` more links left. -/
def addLinks (d : Nat) : Arrival Loc α → Arrival Loc α
  | .at l links => .at l (links + d)
  | x => x

end Arrival

namespace PathSpace

variable {Loc α : Type} (S : PathSpace Loc α)

/-- Where a link met in the directory `l` leads on from. -/
def start (l : Loc) (t : SymLink α) : Loc := if t.absolute then S.root else l

/-- A walk that goes on with `onLink` where it follows a link. -/
def walkWith (follow : Bool) (links : Nat) (onLink : Loc → List (Component α) → Arrival Loc α) :
    Loc → List (Component α) → Arrival Loc α
  | l, [] => .at l links
  | l, .stay :: cs =>
    if S.isDir l then walkWith follow links onLink l cs else .notDir
  | l, .up :: cs =>
    if S.isDir l then walkWith follow links onLink (S.up l) cs else .notDir
  | l, .down a :: cs =>
    if S.isDir l then
      match S.child l a with
      | none => if cs.isEmpty then .free l a else .missing
      | some l' =>
        match S.link l' with
        | none => walkWith follow links onLink l' cs
        | some t =>
          if cs.isEmpty && !follow then .at l' links else onLink (S.start l t) (t.path ++ cs)
    else .notDir

/-- Where the path leads from `l`, following no more than so many links. A link at its end is
    followed if `follow` says so. -/
def walk (follow : Bool) : Nat → Loc → List (Component α) → Arrival Loc α
  | 0 => S.walkWith follow 0 fun _ _ => .loop
  | n + 1 => S.walkWith follow (n + 1) (walk follow n)

/-- A walk that keeps off `barrier`, going on with `onLink` where it follows a link. -/
def beneathWith (barrier : Loc → Bool) (onLink : Loc → List (Component α) → Bool) :
    Loc → List (Component α) → Bool
  | _, [] => true
  | l, .stay :: cs => !S.isDir l || beneathWith barrier onLink l cs
  | l, .up :: cs => !S.isDir l || (!barrier l && beneathWith barrier onLink (S.up l) cs)
  | l, .down a :: cs =>
    !S.isDir l ||
      match S.child l a with
      | none => true
      | some l' =>
        match S.link l' with
        | none => beneathWith barrier onLink l' cs
        | some t => !t.absolute && onLink l (t.path ++ cs)

/-- The walk of the path takes no `..` at a location in `barrier`, and follows no absolute link. -/
def beneath (barrier : Loc → Bool) : Nat → Loc → List (Component α) → Bool
  | 0 => S.beneathWith barrier fun _ _ => true
  | n + 1 => S.beneathWith barrier (beneath barrier n)

variable {S} {follow : Bool} {n : Nat} {l : Loc} {a : α} {cs : List (Component α)}

/-- The walk of an empty path stays. -/
@[simp] theorem walk_nil : S.walk follow n l [] = .at l n := by
  cases n <;> rfl

/-- A component that stays only asks for a directory. -/
theorem walk_stay :
    S.walk follow n l (.stay :: cs) = if S.isDir l then S.walk follow n l cs else .notDir := by
  cases n <;> rfl

/-- `..` leads up from a directory. -/
theorem walk_up : S.walk follow n l (.up :: cs) =
    if S.isDir l then S.walk follow n (S.up l) cs else .notDir := by
  cases n <;> rfl

/-- A name leads down, through a link if there is one. -/
theorem walk_down : S.walk follow n l (.down a :: cs) =
    if S.isDir l then
      match S.child l a with
      | none => if cs.isEmpty then .free l a else .missing
      | some l' =>
        match S.link l' with
        | none => S.walk follow n l' cs
        | some t =>
          if cs.isEmpty && !follow then .at l' n
          else match n with
            | 0 => .loop
            | n + 1 => S.walk follow n (S.start l t) (t.path ++ cs)
    else .notDir := by
  cases n <;> rfl

/-- Nothing leads on from what is no directory. -/
theorem walk_notDir {c : Component α} (hdir : S.isDir l = false) :
    S.walk follow n l (c :: cs) = .notDir := by
  cases c with
  | stay => rw [walk_stay, hdir]; rfl
  | up => rw [walk_up, hdir]; rfl
  | down a => rw [walk_down, hdir]; rfl

/-- A name that is not there is free at the end of the path, and missing before. -/
theorem walk_missing (hdir : S.isDir l) (hchild : S.child l a = none) :
    S.walk follow n l (.down a :: cs) = if cs.isEmpty then .free l a else .missing := by
  rw [walk_down, if_pos hdir, hchild]

/-- A name that is no link leads on. -/
theorem walk_leaf {l' : Loc} (hdir : S.isDir l) (hchild : S.child l a = some l')
    (hlink : S.link l' = none) : S.walk follow n l (.down a :: cs) = S.walk follow n l' cs := by
  rw [walk_down, if_pos hdir, hchild]
  simp only [hlink]

/-- A link at the end of the path that is not followed. -/
theorem walk_link_end {l' : Loc} {t : SymLink α} (hdir : S.isDir l)
    (hchild : S.child l a = some l') (hlink : S.link l' = some t)
    (hend : (cs.isEmpty && !follow) = true) : S.walk follow n l (.down a :: cs) = .at l' n := by
  rw [walk_down, if_pos hdir, hchild]
  simp only [hlink, if_pos hend]

/-- Without a link left to follow, the walk ends in `loop`. -/
theorem walk_link_loop {l' : Loc} {t : SymLink α} (hdir : S.isDir l)
    (hchild : S.child l a = some l') (hlink : S.link l' = some t)
    (hend : ¬ (cs.isEmpty && !follow) = true) : S.walk follow 0 l (.down a :: cs) = .loop := by
  rw [walk_down, if_pos hdir, hchild]
  simp only [hlink, if_neg hend]

/-- A link is followed, and takes one of the links left. -/
theorem walk_link {l' : Loc} {t : SymLink α} (hdir : S.isDir l) (hchild : S.child l a = some l')
    (hlink : S.link l' = some t) (hend : ¬ (cs.isEmpty && !follow) = true) :
    S.walk follow (n + 1) l (.down a :: cs) = S.walk follow n (S.start l t) (t.path ++ cs) := by
  rw [walk_down, if_pos hdir, hchild]
  simp only [hlink, if_neg hend]

/-- Induction along a path, for one budget; `link` treats the links. -/
private theorem walk_induction_path {motive : Loc → List (Component α) → Prop}
    (nil : ∀ l, motive l []) (notDir : ∀ l c cs, S.isDir l = false → motive l (c :: cs))
    (stay : ∀ l cs, S.isDir l → motive l cs → motive l (.stay :: cs))
    (up : ∀ l cs, S.isDir l → motive (S.up l) cs → motive l (.up :: cs))
    (missing : ∀ l a cs, S.isDir l → S.child l a = none → motive l (.down a :: cs))
    (leaf : ∀ l a cs l', S.isDir l → S.child l a = some l' → S.link l' = none → motive l' cs →
      motive l (.down a :: cs))
    (link : ∀ l a cs l' t, S.isDir l → S.child l a = some l' → S.link l' = some t →
      motive l (.down a :: cs))
    (l : Loc) (cs : List (Component α)) : motive l cs := by
  -- Along the path: a link ends the recursion, since its own path is another
  induction cs generalizing l with
  | nil => exact nil l
  | cons c cs ih =>
    cases hdir : S.isDir l with
    | false => exact notDir l c cs hdir
    | true =>
      cases c with
      | stay => exact stay l cs hdir (ih l)
      | up => exact up l cs hdir (ih _)
      | down a =>
        cases hchild : S.child l a with
        | none => exact missing l a cs hdir hchild
        | some l' =>
          cases hlink : S.link l' with
          | none => exact leaf l a cs l' hdir hchild hlink (ih l')
          | some t => exact link l a cs l' t hdir hchild hlink

/-- Induction along a walk: over the budget, and over the path for each. -/
theorem walk_induction {motive : Nat → Loc → List (Component α) → Prop}
    (nil : ∀ n l, motive n l [])
    (notDir : ∀ n l c cs, S.isDir l = false → motive n l (c :: cs))
    (stay : ∀ n l cs, S.isDir l → motive n l cs → motive n l (.stay :: cs))
    (up : ∀ n l cs, S.isDir l → motive n (S.up l) cs → motive n l (.up :: cs))
    (missing : ∀ n l a cs, S.isDir l → S.child l a = none → motive n l (.down a :: cs))
    (leaf : ∀ n l a cs l', S.isDir l → S.child l a = some l' → S.link l' = none →
      motive n l' cs → motive n l (.down a :: cs))
    (loop : ∀ l a cs l' t, S.isDir l → S.child l a = some l' → S.link l' = some t →
      motive 0 l (.down a :: cs))
    (link : ∀ n l a cs l' t, S.isDir l → S.child l a = some l' → S.link l' = some t →
      motive n (S.start l t) (t.path ++ cs) → motive (n + 1) l (.down a :: cs))
    (n : Nat) (l : Loc) (cs : List (Component α)) : motive n l cs := by
  -- On the links left, and along the path for each of their numbers
  induction n generalizing l cs with
  | zero => exact walk_induction_path (nil 0) (notDir 0) (stay 0) (up 0) (missing 0) (leaf 0) loop l cs
  | succ n ih =>
    exact walk_induction_path (nil _) (notDir _) (stay _) (up _) (missing _) (leaf _)
      (fun l a cs l' t hdir hchild hlink => link n l a cs l' t hdir hchild hlink (ih _ _)) l cs

/-! ## A path in two parts -/

/-- A path made of two is walked by walking one after the other. -/
theorem walk_append {ds : List (Component α)} (hds : ds ≠ []) :
    S.walk follow n l (cs ++ ds) =
      (S.walk true n l cs).andThen fun l' n' => S.walk follow n' l' ds := by
  -- The first part does not end the path, so a link at its end is followed
  have hne : ∀ cs : List (Component α), (cs ++ ds).isEmpty = false := by
    intro cs
    cases cs with
    | nil => simpa using hds
    | cons c cs => rfl
  induction n, l, cs using S.walk_induction with
  -- A walk that stops early stops in the first part
  | nil n l => rw [walk_nil]; rfl
  | notDir n l c cs hdir => rw [List.cons_append, walk_notDir hdir, walk_notDir hdir]; rfl
  | stay n l cs hdir ih => rw [List.cons_append, walk_stay, walk_stay, if_pos hdir, if_pos hdir, ih]
  | up n l cs hdir ih => rw [List.cons_append, walk_up, walk_up, if_pos hdir, if_pos hdir, ih]
  | missing n l a cs hdir hchild =>
    rw [List.cons_append, walk_missing hdir hchild, walk_missing hdir hchild, hne]
    cases cs <;> rfl
  | leaf n l a cs l' hdir hchild hlink ih =>
    rw [List.cons_append, walk_leaf hdir hchild hlink, walk_leaf hdir hchild hlink, ih]
  -- It stops at a link in the first part, which is followed there whatever comes after
  | loop l a cs l' t hdir hchild hlink =>
    rw [List.cons_append, walk_link_loop hdir hchild hlink (by simp [hne]),
      walk_link_loop hdir hchild hlink (by simp)]
    rfl
  -- The link's own path is put in front of both parts
  | link n l a cs l' t hdir hchild hlink ih =>
    rw [List.cons_append, walk_link hdir hchild hlink (by simp [hne]),
      walk_link hdir hchild hlink (by simp), ← List.append_assoc, ih]

/-- A path leads somewhere exactly if its first part does, and the rest from there. -/
theorem walk_append_at {ds : List (Component α)} {m : Loc} {k : Nat} :
    S.walk true n l (cs ++ ds) = .at m k ↔
      ∃ l' n', S.walk true n l cs = .at l' n' ∧ S.walk true n' l' ds = .at m k := by
  by_cases hds : ds = []
  · subst hds
    simp
  · rw [walk_append hds]
    cases S.walk true n l cs with
    | «at» l' n' => simp [Arrival.andThen]
    | free dir b => simp [Arrival.andThen]
    | missing => simp [Arrival.andThen]
    | notDir => simp [Arrival.andThen]
    | loop => simp [Arrival.andThen]

/-- Only a directory leads on. -/
theorem isDir_of_walk_at {c : Component α} {m : Loc} {k : Nat}
    (hwalk : S.walk follow n l (c :: cs) = .at m k) : S.isDir l = true := by
  by_contra hdir
  rw [walk_notDir (Bool.eq_false_iff.2 hdir)] at hwalk
  cases hwalk

/-- With more links to follow a walk that does not run out of them leads to the same place. -/
theorem walk_add (hloop : S.walk follow n l cs ≠ .loop) (d : Nat) :
    S.walk follow (n + d) l cs = (S.walk follow n l cs).addLinks d := by
  -- Along the walk, which follows the same links with more of them left
  induction n, l, cs using S.walk_induction with
  | nil n l => rw [walk_nil, walk_nil]; rfl
  | notDir n l c cs hdir => rw [walk_notDir hdir, walk_notDir hdir]; rfl
  | stay n l cs hdir ih =>
    rw [walk_stay, if_pos hdir] at hloop
    rw [walk_stay, walk_stay, if_pos hdir, if_pos hdir, ih hloop]
  | up n l cs hdir ih =>
    rw [walk_up, if_pos hdir] at hloop
    rw [walk_up, walk_up, if_pos hdir, if_pos hdir, ih hloop]
  | missing n l a cs hdir hchild =>
    rw [walk_missing hdir hchild, walk_missing hdir hchild]
    split <;> rfl
  | leaf n l a cs l' hdir hchild hlink ih =>
    rw [walk_leaf hdir hchild hlink] at hloop
    rw [walk_leaf hdir hchild hlink, walk_leaf hdir hchild hlink, ih hloop]
  | loop l a cs l' t hdir hchild hlink =>
    -- No link is left: the last component does not need one, any other ends in `loop`
    by_cases hend : (cs.isEmpty && !follow) = true
    · rw [walk_link_end hdir hchild hlink hend, walk_link_end hdir hchild hlink hend]
      rfl
    · exact absurd (walk_link_loop hdir hchild hlink hend) hloop
  | link n l a cs l' t hdir hchild hlink ih =>
    by_cases hend : (cs.isEmpty && !follow) = true
    · rw [walk_link_end hdir hchild hlink hend, walk_link_end hdir hchild hlink hend]
      rfl
    · -- One of the links is used
      rw [walk_link hdir hchild hlink hend] at hloop
      rw [Nat.add_right_comm, walk_link hdir hchild hlink hend, walk_link hdir hchild hlink hend,
        ih hloop]

/-- A walk leaves no more links than there were. -/
theorem links_le {m : Loc} {k : Nat} (hwalk : S.walk follow n l cs = .at m k) : k ≤ n := by
  -- On the way of the walk: only following a link takes one off the number
  induction n, l, cs using S.walk_induction with
  | nil n l =>
    rw [walk_nil] at hwalk
    cases hwalk
    exact Nat.le_refl _
  | notDir n l c cs hdir =>
    rw [walk_notDir hdir] at hwalk
    cases hwalk
  | stay n l cs hdir ih =>
    rw [walk_stay, if_pos hdir] at hwalk
    exact ih hwalk
  | up n l cs hdir ih =>
    rw [walk_up, if_pos hdir] at hwalk
    exact ih hwalk
  | missing n l a cs hdir hchild =>
    rw [walk_missing hdir hchild] at hwalk
    split at hwalk <;> cases hwalk
  | leaf n l a cs l' hdir hchild hlink ih =>
    rw [walk_leaf hdir hchild hlink] at hwalk
    exact ih hwalk
  | loop l a cs l' t hdir hchild hlink =>
    -- It ends on the link, or there is none left to follow it
    by_cases hend : (cs.isEmpty && !follow) = true
    · rw [walk_link_end hdir hchild hlink hend] at hwalk
      cases hwalk
      exact Nat.le_refl _
    · rw [walk_link_loop hdir hchild hlink hend] at hwalk
      cases hwalk
  | link n l a cs l' t hdir hchild hlink ih =>
    by_cases hend : (cs.isEmpty && !follow) = true
    · rw [walk_link_end hdir hchild hlink hend] at hwalk
      cases hwalk
      exact Nat.le_refl _
    · -- One of the links is used
      rw [walk_link hdir hchild hlink hend] at hwalk
      exact Nat.le_succ_of_le (ih hwalk)

/-- Where a walk leads that may follow more links, it leads with fewer, if they are enough. -/
theorem walk_at_of_le {k j : Nat} {m : Loc} (hk : k ≤ n) (hwalk : S.walk follow n l cs = .at m j)
    (hloop : S.walk follow k l cs ≠ .loop) : ∃ i, S.walk follow k l cs = .at m i := by
  have hadd := walk_add hloop (n - k)
  rw [Nat.add_sub_cancel' hk, hwalk] at hadd
  -- More links left change an arrival in nothing but their number
  cases hcs : S.walk follow k l cs with
  | «at» x i =>
    rw [hcs] at hadd
    cases hadd
    exact ⟨i, rfl⟩
  | free x a =>
    rw [hcs] at hadd
    cases hadd
  | missing =>
    rw [hcs] at hadd
    cases hadd
  | notDir =>
    rw [hcs] at hadd
    cases hadd
  | loop => exact absurd hcs hloop

/-- Components that stay lead nowhere else. -/
theorem walk_stays {i : Nat} {m : Loc} {k : Nat}
    (hwalk : S.walk follow n l (List.replicate i .stay ++ cs) = .at m k) :
    S.walk follow n l cs = .at m k := by
  induction i with
  | zero => exact hwalk
  | succ i ih =>
    rw [List.replicate_succ, List.cons_append] at hwalk
    have hdir := isDir_of_walk_at hwalk
    rw [walk_stay, if_pos hdir] at hwalk
    exact ih hwalk

/-- It makes no difference to a walk that ends at no link whether one would be followed there. -/
theorem walk_follow_eq (hend : ∀ m k, S.walk false n l cs = .at m k → S.link m = none) :
    S.walk true n l cs = S.walk false n l cs := by
  -- On the way of the walk, which ends at no link
  induction n, l, cs using S.walk_induction with
  | nil n l => rw [walk_nil, walk_nil]
  | notDir n l c cs hdir => rw [walk_notDir hdir, walk_notDir hdir]
  | stay n l cs hdir ih =>
    simp only [walk_stay, if_pos hdir] at hend ⊢
    exact ih hend
  | up n l cs hdir ih =>
    simp only [walk_up, if_pos hdir] at hend ⊢
    exact ih hend
  | missing n l a cs hdir hchild => rw [walk_missing hdir hchild, walk_missing hdir hchild]
  | leaf n l a cs l' hdir hchild hlink ih =>
    rw [walk_leaf hdir hchild hlink] at hend
    rw [walk_leaf hdir hchild hlink, walk_leaf hdir hchild hlink, ih hend]
  | loop l a cs l' t hdir hchild hlink =>
    cases cs with
    -- The path ends at a link, which `hend` excludes
    | nil => exact absurd ((hend l' 0 (walk_link_end hdir hchild hlink rfl)).symm.trans hlink) (by simp)
    | cons c cs =>
      rw [walk_link_loop hdir hchild hlink (by simp), walk_link_loop hdir hchild hlink (by simp)]
  | link n l a cs l' t hdir hchild hlink ih =>
    cases cs with
    | nil =>
      exact absurd ((hend l' (n + 1) (walk_link_end hdir hchild hlink rfl)).symm.trans hlink) (by simp)
    | cons c cs =>
      rw [walk_link hdir hchild hlink (by simp)] at hend
      rw [walk_link hdir hchild hlink (by simp), walk_link hdir hchild hlink (by simp), ih hend]

/-- A path at whose end no link is followed, and a name is free, ends with that name. -/
theorem exists_of_free {m : Loc} {b : α} (hwalk : S.walk false n l cs = .free m b) :
    ∃ ds k, cs = ds ++ [.down b] ∧ S.walk true n l ds = .at m k ∧ S.child m b = none := by
  -- By the last component: only a name can be free, and all before it leads to a directory
  rcases List.eq_nil_or_concat cs with rfl | ⟨ds, c, rfl⟩
  · rw [walk_nil] at hwalk
    cases hwalk
  · rw [List.concat_eq_append, walk_append (List.cons_ne_nil c [])] at hwalk
    cases hds : S.walk true n l ds with
    | «at» l' k =>
      rw [hds] at hwalk
      change S.walk false k l' [c] = .free m b at hwalk
      cases hdir : S.isDir l' with
      | false =>
        rw [walk_notDir hdir] at hwalk
        cases hwalk
      | true =>
        cases c with
        | stay =>
          rw [walk_stay, if_pos hdir, walk_nil] at hwalk
          cases hwalk
        | up =>
          rw [walk_up, if_pos hdir, walk_nil] at hwalk
          cases hwalk
        | down a =>
          cases hchild : S.child l' a with
          | none =>
            -- The one case in which a name is free
            rw [walk_missing hdir hchild] at hwalk
            cases hwalk
            exact ⟨ds, k, List.concat_eq_append, hds, hchild⟩
          | some x =>
            cases hlink : S.link x with
            | none =>
              rw [walk_leaf hdir hchild hlink, walk_nil] at hwalk
              cases hwalk
            | some t =>
              rw [walk_link_end hdir hchild hlink rfl] at hwalk
              cases hwalk
    | free dir a =>
      -- No walk that stops earlier finds a free name
      rw [hds] at hwalk
      cases hwalk
    | missing =>
      rw [hds] at hwalk
      cases hwalk
    | notDir =>
      rw [hds] at hwalk
      cases hwalk
    | loop =>
      rw [hds] at hwalk
      cases hwalk

/-- A longer path leads nowhere as long as a name on the way is free. -/
theorem walk_take_of_free (follow : Bool) {m : Loc} {b : α} {i j : Nat}
    (hfree : S.walk false n l (cs.take i) = .free m b) (hij : i ≤ j) :
    S.walk follow n l (cs.take j) = .free m b ∨ S.walk follow n l (cs.take j) = .missing := by
  -- The first part ends at a free name, so it ends at no link
  have htrue : S.walk true n l (cs.take i) = .free m b := by
    rw [walk_follow_eq, hfree]
    intro x k hat
    rw [hfree] at hat
    cases hat
  have hsplit : cs.take j = cs.take i ++ (cs.take j).drop i := by
    have happend := List.take_append_drop i (cs.take j)
    rw [List.take_take, Nat.min_eq_left hij] at happend
    exact happend.symm
  rw [hsplit]
  -- Nothing comes after the free name, or something does
  by_cases hrest : (cs.take j).drop i = []
  · rw [hrest, List.append_nil]
    cases follow with
    | true => exact .inl htrue
    | false => exact .inl hfree
  · rw [walk_append hrest, htrue]
    exact .inr rfl

/-- The components that stay may be left out of a path that leads somewhere. -/
theorem walk_unstay [DecidableEq α] {m : Loc} {k : Nat} (hwalk : S.walk true n l cs = .at m k) :
    S.walk true n l (cs.filter (· ≠ .stay)) = .at m k := by
  -- By the components: one that stays needs a directory, which the walk has found
  induction cs generalizing n l with
  | nil => exact hwalk
  | cons c cs ih =>
    have hdir : S.isDir l = true := isDir_of_walk_at hwalk
    cases c with
    | stay =>
      rw [walk_stay, if_pos hdir] at hwalk
      rw [List.filter_cons_of_neg (by simp)]
      exact ih hwalk
    | up =>
      rw [walk_up, if_pos hdir] at hwalk
      rw [List.filter_cons_of_pos (by simp), walk_up, if_pos hdir]
      exact ih hwalk
    | down a =>
      rw [List.filter_cons_of_pos (by simp)]
      cases hchild : S.child l a with
      | none =>
        rw [walk_missing hdir hchild] at hwalk
        split at hwalk <;> cases hwalk
      | some l' =>
        cases hlink : S.link l' with
        | none =>
          rw [walk_leaf hdir hchild hlink] at hwalk
          rw [walk_leaf hdir hchild hlink]
          exact ih hwalk
        | some t =>
          cases n with
          | zero =>
            rw [walk_link_loop hdir hchild hlink (by simp)] at hwalk
            cases hwalk
          | succ n =>
            -- the path of the link itself is not changed
            rw [walk_link hdir hchild hlink (by simp)] at hwalk
            rw [walk_link hdir hchild hlink (by simp)]
            obtain ⟨l₁, n₁, hfirst, hrest⟩ := walk_append_at.1 hwalk
            exact walk_append_at.2 ⟨l₁, n₁, hfirst, ih hrest⟩

/-! ## Staying beneath a directory -/

variable {barrier : Loc → Bool}

/-- The walk of an empty path stays beneath. -/
@[simp] theorem beneath_nil : S.beneath barrier n l [] = true := by
  cases n <;> rfl

/-- A component that stays does not leave. -/
theorem beneath_stay :
    S.beneath barrier n l (.stay :: cs) = (!S.isDir l || S.beneath barrier n l cs) := by
  cases n <;> rfl

/-- `..` leaves at the barrier. -/
theorem beneath_up : S.beneath barrier n l (.up :: cs) =
    (!S.isDir l || (!barrier l && S.beneath barrier n (S.up l) cs)) := by
  cases n <;> rfl

/-- Where the walk ends it does not leave. -/
theorem beneath_notDir {c : Component α} (hdir : S.isDir l = false) :
    S.beneath barrier n l (c :: cs) = true := by
  cases n <;> cases c <;> simp [beneath, beneathWith, hdir]

/-- A name that is not there does not lead out. -/
theorem beneath_missing (hchild : S.child l a = none) :
    S.beneath barrier n l (.down a :: cs) = true := by
  cases n <;> simp [beneath, beneathWith, hchild]

/-- A name that is no link leads on beneath. -/
theorem beneath_leaf {l' : Loc} (hdir : S.isDir l) (hchild : S.child l a = some l')
    (hlink : S.link l' = none) :
    S.beneath barrier n l (.down a :: cs) = S.beneath barrier n l' cs := by
  cases n <;> simp [beneath, beneathWith, hdir, hchild, hlink]

/-- A link that is not followed any more must be relative all the same. -/
theorem beneath_loop {l' : Loc} {t : SymLink α} (hdir : S.isDir l) (hchild : S.child l a = some l')
    (hlink : S.link l' = some t) : S.beneath barrier 0 l (.down a :: cs) = !t.absolute := by
  simp [beneath, beneathWith, hdir, hchild, hlink]

/-- A link that is followed must be relative, and its own path stay beneath. -/
theorem beneath_link {l' : Loc} {t : SymLink α} (hdir : S.isDir l) (hchild : S.child l a = some l')
    (hlink : S.link l' = some t) :
    S.beneath barrier (n + 1) l (.down a :: cs) =
      (!t.absolute && S.beneath barrier n l (t.path ++ cs)) := by
  simp [beneath, beneathWith, hdir, hchild, hlink]

/-- A relative link starts where it is. -/
theorem start_of_relative {t : SymLink α} (hrel : t.absolute = false) : S.start l t = l := by
  rw [start, hrel]
  rfl

/-- A path stays beneath the directory if its first part does, and the rest from where that
    leads. -/
theorem beneath_append {ds : List (Component α)} :
    S.beneath barrier n l (cs ++ ds) ↔
      S.beneath barrier n l cs ∧
        ∀ l' n', S.walk true n l cs = .at l' n' → S.beneath barrier n' l' ds := by
  induction n, l, cs using S.walk_induction with
  | nil n l =>
    simp only [List.nil_append, beneath_nil, walk_nil, Arrival.at.injEq, true_and]
    constructor
    · rintro hds l' n' ⟨rfl, rfl⟩
      exact hds
    · intro hds
      exact hds l n ⟨rfl, rfl⟩
  | notDir n l c cs hdir => simp [beneath_notDir hdir, walk_notDir hdir]
  | stay n l cs hdir ih => simpa [beneath_stay, walk_stay, hdir] using ih
  | up n l cs hdir ih =>
    simp only [List.cons_append, beneath_up, walk_up, hdir, Bool.not_true, Bool.false_or,
      Bool.and_eq_true, if_true, ih, and_assoc]
  | missing n l a cs hdir hchild =>
    simp only [List.cons_append, beneath_missing hchild, walk_missing hdir hchild, true_and, true_iff]
    intro l' n' heq
    split at heq <;> cases heq
  | leaf n l a cs l' hdir hchild hlink ih =>
    simpa only [List.cons_append, beneath_leaf hdir hchild hlink, walk_leaf hdir hchild hlink] using ih
  -- Following a link from the root of the walk is not beneath it
  | loop l a cs l' t hdir hchild hlink =>
    rw [List.cons_append, beneath_loop hdir hchild hlink, beneath_loop hdir hchild hlink,
      walk_link_loop hdir hchild hlink (by simp)]
    simp
  | link n l a cs l' t hdir hchild hlink ih =>
    rw [List.cons_append, beneath_link hdir hchild hlink, beneath_link hdir hchild hlink,
      walk_link hdir hchild hlink (by simp)]
    -- Only a relative link stays beneath; its target comes before the rest of the path
    cases hrel : t.absolute with
    | true => simp
    | false =>
      rw [start_of_relative hrel] at ih ⊢
      rw [List.append_assoc] at ih
      simpa using ih

/-- Without the components that stay, a path stays beneath as well. -/
theorem beneath_unstay [DecidableEq α] (hb : S.beneath barrier n l cs) :
    S.beneath barrier n l (cs.filter (· ≠ .stay)) = true := by
  induction cs generalizing n l with
  | nil => exact hb
  | cons c cs ih =>
    -- Where there is no directory, no path goes on
    cases hdir : S.isDir l with
    | false =>
      cases hfilter : (c :: cs).filter (· ≠ .stay) with
      | nil => exact beneath_nil
      | cons d ds => exact beneath_notDir hdir
    | true =>
      cases c with
      | stay =>
        rw [beneath_stay, hdir] at hb
        rw [List.filter_cons_of_neg (by simp)]
        exact ih hb
      | up =>
        rw [beneath_up, hdir, Bool.not_true, Bool.false_or, Bool.and_eq_true] at hb
        rw [List.filter_cons_of_pos (by simp), beneath_up, hb.1, ih hb.2]
        simp
      | down a =>
        rw [List.filter_cons_of_pos (by simp)]
        cases hchild : S.child l a with
        | none => exact beneath_missing hchild
        | some l' =>
          cases hlink : S.link l' with
          | none =>
            rw [beneath_leaf hdir hchild hlink] at hb
            rw [beneath_leaf hdir hchild hlink]
            exact ih hb
          | some t =>
            cases n with
            | zero =>
              rw [beneath_loop hdir hchild hlink] at hb
              rw [beneath_loop hdir hchild hlink, hb]
            | succ n =>
              rw [beneath_link hdir hchild hlink, Bool.and_eq_true] at hb
              -- The target of the link keeps its components, the rest of the path loses its own
              obtain ⟨hpath, hrest⟩ := beneath_append.1 hb.2
              rw [beneath_link hdir hchild hlink, hb.1, Bool.true_and]
              exact beneath_append.2 ⟨hpath, fun l₁ n₁ hwalk => ih (hrest l₁ n₁ hwalk)⟩

/-! ## More files -/

/-- In `S'` there is what is in `S`, and there may be more directories and files. -/
structure Grown (S S' : PathSpace Loc α) : Prop where
  root : S'.root = S.root
  up : S'.up = S.up
  isDir : ∀ {l}, S.isDir l = true → S'.isDir l = true
  child : ∀ {l a x}, S.child l a = some x → S'.child l a = some x ∧ S'.link x = S.link x

section

variable {S' : PathSpace Loc α}

/-- A path that leads somewhere leads there still. -/
theorem Grown.walk_at (hg : Grown S S') {m : Loc} {k : Nat}
    (hwalk : S.walk follow n l cs = .at m k) : S'.walk follow n l cs = .at m k := by
  -- The walk of the grown space goes the same way, step for step
  induction n, l, cs using S.walk_induction with
  | nil n l =>
    rw [walk_nil] at hwalk ⊢
    exact hwalk
  | notDir n l c cs hdir =>
    rw [walk_notDir hdir] at hwalk
    cases hwalk
  | stay n l cs hdir ih =>
    rw [walk_stay, if_pos hdir] at hwalk
    rw [walk_stay, if_pos (hg.isDir hdir)]
    exact ih hwalk
  | up n l cs hdir ih =>
    rw [walk_up, if_pos hdir] at hwalk
    rw [walk_up, if_pos (hg.isDir hdir), hg.up]
    exact ih hwalk
  | missing n l a cs hdir hchild =>
    rw [walk_missing hdir hchild] at hwalk
    split at hwalk <;> cases hwalk
  -- The child is there still, and no link still
  | leaf n l a cs l' hdir hchild hlink ih =>
    obtain ⟨hchild', hlink'⟩ := hg.child hchild
    rw [hlink] at hlink'
    rw [walk_leaf hdir hchild hlink] at hwalk
    rw [walk_leaf (hg.isDir hdir) hchild' hlink']
    exact ih hwalk
  | loop l a cs l' t hdir hchild hlink =>
    obtain ⟨hchild', hlink'⟩ := hg.child hchild
    rw [hlink] at hlink'
    -- A link is the last component and not followed, or there must be one left to follow
    by_cases hend : (cs.isEmpty && !follow) = true
    · rw [walk_link_end hdir hchild hlink hend] at hwalk
      rw [walk_link_end (hg.isDir hdir) hchild' hlink' hend]
      exact hwalk
    · rw [walk_link_loop hdir hchild hlink hend] at hwalk
      cases hwalk
  | link n l a cs l' t hdir hchild hlink ih =>
    obtain ⟨hchild', hlink'⟩ := hg.child hchild
    rw [hlink] at hlink'
    by_cases hend : (cs.isEmpty && !follow) = true
    · rw [walk_link_end hdir hchild hlink hend] at hwalk
      rw [walk_link_end (hg.isDir hdir) hchild' hlink' hend]
      exact hwalk
    · -- The link is followed from the same place
      have hstart : S'.start l t = S.start l t := by rw [start, start, hg.root]
      rw [walk_link hdir hchild hlink hend] at hwalk
      rw [walk_link (hg.isDir hdir) hchild' hlink' hend, hstart]
      exact ih hwalk

/-- A path that stays beneath the directory once there is more stayed beneath it before. -/
theorem Grown.beneath (hg : Grown S S') (hb : S'.beneath barrier n l cs = true) :
    S.beneath barrier n l cs = true := by
  -- What the larger walk meets is all that the smaller one meets
  induction n, l, cs using S.walk_induction with
  | nil n l => exact beneath_nil
  | notDir n l c cs hdir => exact beneath_notDir hdir
  | stay n l cs hdir ih =>
    rw [beneath_stay, hg.isDir hdir] at hb
    rw [beneath_stay, hdir]
    exact ih hb
  | up n l cs hdir ih =>
    rw [beneath_up, hg.isDir hdir, hg.up, Bool.not_true, Bool.false_or, Bool.and_eq_true] at hb
    rw [beneath_up, hb.1, ih hb.2]
    simp
  -- There is no child, so nothing more is met
  | missing n l a cs hdir hchild => exact beneath_missing hchild
  | leaf n l a cs l' hdir hchild hlink ih =>
    obtain ⟨hchild', hlink'⟩ := hg.child hchild
    rw [hlink] at hlink'
    rw [beneath_leaf (hg.isDir hdir) hchild' hlink'] at hb
    rw [beneath_leaf hdir hchild hlink]
    exact ih hb
  | loop l a cs l' t hdir hchild hlink =>
    obtain ⟨hchild', hlink'⟩ := hg.child hchild
    rw [hlink] at hlink'
    rw [beneath_loop (hg.isDir hdir) hchild' hlink'] at hb
    rw [beneath_loop hdir hchild hlink]
    exact hb
  | link n l a cs l' t hdir hchild hlink ih =>
    obtain ⟨hchild', hlink'⟩ := hg.child hchild
    rw [hlink] at hlink'
    rw [beneath_link (hg.isDir hdir) hchild' hlink', Bool.and_eq_true] at hb
    -- Only a relative link stays beneath
    have hrel : t.absolute = false := by simpa using hb.1
    rw [start_of_relative hrel] at ih
    rw [beneath_link hdir hchild hlink, hb.1, Bool.true_and]
    exact ih hb.2

end

/-- The space `J` is jailed in the locations `Within`: it looks like `S` there, except that no
    path leads out, by `..` in `barrier` or otherwise. -/
structure Jail (S J : PathSpace Loc α) (barrier : Loc → Bool) (Within : Loc → Prop) : Prop where
  isDir : J.isDir = S.isDir
  child : J.child = S.child
  link : J.link = S.link
  up : ∀ {l}, Within l → barrier l = false → J.up l = S.up l
  within_root : Within J.root
  within_up : ∀ {l}, Within l → J.isDir l → Within (J.up l)
  within_child : ∀ {l a l'}, Within l → J.isDir l → J.child l a = some l' → Within l'

variable {J : PathSpace Loc α} {Within : Loc → Prop}

/-- A link in the jail starts within it. -/
theorem Jail.within_start (hj : Jail S J barrier Within) (hl : Within l) (t : SymLink α) :
    Within (J.start l t) := by
  unfold start
  split
  · exact hj.within_root
  · exact hl

/-- No path leads out of a jail. -/
theorem Jail.walk_within (hj : Jail S J barrier Within) (hl : Within l) :
    (J.walk follow n l cs).Within Within := by
  induction n, l, cs using J.walk_induction with
  | nil n l =>
    rw [walk_nil]
    exact hl
  | notDir n l c cs hdir =>
    rw [walk_notDir hdir]
    trivial
  | stay n l cs hdir ih =>
    rw [walk_stay, if_pos hdir]
    exact ih hl
  | up n l cs hdir ih =>
    rw [walk_up, if_pos hdir]
    -- `..` stops at the root directory of the jail
    exact ih (hj.within_up hl hdir)
  | missing n l a cs hdir hchild =>
    rw [walk_missing hdir hchild]
    split
    · exact hl
    · trivial
  | leaf n l a cs l' hdir hchild hlink ih =>
    rw [walk_leaf hdir hchild hlink]
    exact ih (hj.within_child hl hdir hchild)
  | loop l a cs l' t hdir hchild hlink =>
    by_cases hend : (cs.isEmpty && !follow) = true
    · rw [walk_link_end hdir hchild hlink hend]
      exact hj.within_child hl hdir hchild
    · rw [walk_link_loop hdir hchild hlink hend]
      trivial
  | link n l a cs l' t hdir hchild hlink ih =>
    by_cases hend : (cs.isEmpty && !follow) = true
    · rw [walk_link_end hdir hchild hlink hend]
      exact hj.within_child hl hdir hchild
    · rw [walk_link hdir hchild hlink hend]
      -- An absolute link starts at that root directory, which is within
      exact ih (hj.within_start hl t)

/-- A name is free in a directory only. -/
theorem isDir_of_free {m : Loc} {b : α} (hwalk : S.walk follow n l cs = .free m b) :
    S.isDir m ∧ S.child m b = none := by
  -- On the way of the walk, all of whose ends but one are not free
  induction n, l, cs using S.walk_induction with
  | nil n l =>
    rw [walk_nil] at hwalk
    cases hwalk
  | notDir n l c cs hdir =>
    rw [walk_notDir hdir] at hwalk
    cases hwalk
  | stay n l cs hdir ih =>
    rw [walk_stay, if_pos hdir] at hwalk
    exact ih hwalk
  | up n l cs hdir ih =>
    rw [walk_up, if_pos hdir] at hwalk
    exact ih hwalk
  | missing n l a cs hdir hchild =>
    rw [walk_missing hdir hchild] at hwalk
    -- The name is free if it is the last component
    split at hwalk
    · cases hwalk
      exact ⟨hdir, hchild⟩
    · cases hwalk
  | leaf n l a cs l' hdir hchild hlink ih =>
    rw [walk_leaf hdir hchild hlink] at hwalk
    exact ih hwalk
  | loop l a cs l' t hdir hchild hlink =>
    by_cases hend : (cs.isEmpty && !follow) = true
    · rw [walk_link_end hdir hchild hlink hend] at hwalk
      cases hwalk
    · rw [walk_link_loop hdir hchild hlink hend] at hwalk
      cases hwalk
  -- It ends on the link, or goes on from where that leads
  | link n l a cs l' t hdir hchild hlink ih =>
    by_cases hend : (cs.isEmpty && !follow) = true
    · rw [walk_link_end hdir hchild hlink hend] at hwalk
      cases hwalk
    · rw [walk_link hdir hchild hlink hend] at hwalk
      exact ih hwalk

/-- A path that stays beneath the directory leads to the same place in the jail. -/
theorem Jail.walk_eq_of_beneath (hj : Jail S J barrier Within) (hl : Within l)
    (hb : S.beneath barrier n l cs) : J.walk follow n l cs = S.walk follow n l cs := by
  induction n, l, cs using S.walk_induction with
  | nil n l => rw [walk_nil, walk_nil]
  | notDir n l c cs hdir => rw [walk_notDir hdir, walk_notDir (by rw [hj.isDir, hdir])]
  | stay n l cs hdir ih =>
    rw [beneath_stay, hdir] at hb
    rw [walk_stay, walk_stay, hj.isDir, ih hl hb]
  | up n l cs hdir ih =>
    rw [beneath_up, hdir, Bool.not_true, Bool.false_or, Bool.and_eq_true, Bool.not_eq_true'] at hb
    -- The walk is not at the barrier, so `..` is the same in the jail
    have hup := hj.up hl hb.1
    have hin := hj.within_up hl (by rw [hj.isDir, hdir])
    rw [hup] at hin
    rw [walk_up, walk_up, hj.isDir, hup, ih hin hb.2]
  | missing n l a cs hdir hchild =>
    rw [walk_missing hdir hchild, walk_missing (by rw [hj.isDir, hdir]) (by rw [hj.child, hchild])]
  | leaf n l a cs l' hdir hchild hlink ih =>
    have hdir' : J.isDir l = true := by rw [hj.isDir, hdir]
    have hchild' : J.child l a = some l' := by rw [hj.child, hchild]
    rw [beneath_leaf hdir hchild hlink] at hb
    rw [walk_leaf hdir hchild hlink, walk_leaf hdir' hchild' (by rw [hj.link, hlink]),
      ih (hj.within_child hl hdir' hchild') hb]
  | loop l a cs l' t hdir hchild hlink =>
    have hdir' : J.isDir l = true := by rw [hj.isDir, hdir]
    have hchild' : J.child l a = some l' := by rw [hj.child, hchild]
    have hlink' : J.link l' = some t := by rw [hj.link, hlink]
    by_cases hend : (cs.isEmpty && !follow) = true
    · rw [walk_link_end hdir hchild hlink hend, walk_link_end hdir' hchild' hlink' hend]
    · rw [walk_link_loop hdir hchild hlink hend, walk_link_loop hdir' hchild' hlink' hend]
  | link n l a cs l' t hdir hchild hlink ih =>
    have hdir' : J.isDir l = true := by rw [hj.isDir, hdir]
    have hchild' : J.child l a = some l' := by rw [hj.child, hchild]
    have hlink' : J.link l' = some t := by rw [hj.link, hlink]
    rw [beneath_link hdir hchild hlink, Bool.and_eq_true, Bool.not_eq_true'] at hb
    -- The link is relative, so its target starts at the same place
    rw [start_of_relative hb.1] at ih
    by_cases hend : (cs.isEmpty && !follow) = true
    · rw [walk_link_end hdir hchild hlink hend, walk_link_end hdir' hchild' hlink' hend]
    · rw [walk_link hdir hchild hlink hend, walk_link hdir' hchild' hlink' hend,
        start_of_relative hb.1, start_of_relative hb.1, ih hl hb.2]

/-- Where a path stays beneath the directory that its first part leads to, a name that is free on
    the way is free there. -/
theorem Jail.within_of_free [DecidableEq α] (hj : Jail S J barrier Within) (hl : Within l) {k : Nat}
    {l₀ m : Loc} {b : α} {ds ps : List (Component α)} (hcs : S.walk true n l₀ cs = .at l k)
    (hb : S.beneath barrier k l ds)
    (hps : ps.filter (· ≠ .stay) <+: (cs ++ ds).filter (· ≠ .stay))
    (hfree : S.walk false n l₀ ps = .free m b) : Within m := by
  obtain ⟨qs, j, rfl, hqs, hchild⟩ := exists_of_free hfree
  have hcs' := walk_unstay hcs
  have hqs' := walk_unstay hqs
  rw [List.filter_append, List.filter_append, List.filter_cons_of_pos (by simp), List.filter_nil] at hps
  -- the first part leads to `l`, so that it does not contain the name that is free
  have hno : ∀ {rs : List (Component α)},
      cs.filter (· ≠ .stay) ≠ qs.filter (· ≠ .stay) ++ [.down b] ++ rs := by
    intro rs heq
    rw [heq, walk_append_at] at hcs'
    obtain ⟨_, _, hname, -⟩ := hcs'
    obtain ⟨m', j', hm', hname⟩ := walk_append_at.1 hname
    cases hm'.symm.trans hqs'
    rw [walk_missing (isDir_of_walk_at hname) hchild] at hname
    cases hname
  rcases List.prefix_or_prefix_of_prefix hps (List.prefix_append _ _) with ⟨rs, heq⟩ | hpre
  · exact absurd heq.symm hno
  · rcases List.prefix_concat_iff.1 hpre with heq | ⟨rs, hrs⟩
    · exact absurd (heq.trans (List.append_nil _).symm) hno
    · -- from `l` the walk stays beneath it
      rw [← hrs, List.append_assoc, List.prefix_append_right_inj] at hps
      obtain ⟨ts, hts⟩ := hps
      rw [← hrs] at hqs'
      obtain ⟨l', k', hl', hwalk⟩ := walk_append_at.1 hqs'
      cases hl'.symm.trans hcs'
      have hb' := beneath_unstay hb
      rw [← hts, List.append_assoc] at hb'
      have hin : (J.walk true k l rs).Within Within := hj.walk_within hl
      rw [hj.walk_eq_of_beneath hl (beneath_append.1 hb').1, hwalk] at hin
      exact hin

/-! ## Simulation -/

/-- Each step of a walk in `S'` is one in `S`, as far as it leads anywhere. -/
structure Sim (S' S : PathSpace Loc α) (R : Loc → Loc → Prop) : Prop where
  root : R S'.root S.root
  isDir : ∀ {l' l}, R l' l → S'.isDir l' → S.isDir l
  link : ∀ {l' l}, R l' l → S'.link l' = S.link l
  up : ∀ {l' l}, R l' l → S'.isDir l' → R (S'.up l') (S.up l)
  child : ∀ {l' l a m'}, R l' l → S'.isDir l' → S'.child l' a = some m' →
    ∃ m, S.child l a = some m ∧ R m' m

/-- Where a path leads in the simulated space, it leads to a related place. -/
theorem Sim.walk {S' : PathSpace Loc α} {R : Loc → Loc → Prop} (hs : Sim S' S R) {l' m' : Loc}
    {k : Nat} (hR : R l' l) (hwalk : S'.walk follow n l' cs = .at m' k) :
    ∃ m, S.walk follow n l cs = .at m k ∧ R m' m := by
  -- On the way of the larger walk, which the other follows
  induction n, l', cs using S'.walk_induction generalizing l with
  | nil n l' =>
    rw [walk_nil] at hwalk
    cases hwalk
    exact ⟨l, walk_nil, hR⟩
  | notDir n l' c cs hdir =>
    rw [walk_notDir hdir] at hwalk
    cases hwalk
  | stay n l' cs hdir ih =>
    rw [walk_stay, if_pos hdir] at hwalk
    rw [walk_stay, if_pos (hs.isDir hR hdir)]
    exact ih hR hwalk
  | up n l' cs hdir ih =>
    rw [walk_up, if_pos hdir] at hwalk
    rw [walk_up, if_pos (hs.isDir hR hdir)]
    exact ih (hs.up hR hdir) hwalk
  | missing n l' a cs hdir hchild =>
    rw [walk_missing hdir hchild] at hwalk
    split at hwalk <;> cases hwalk
  | leaf n l' a cs c' hdir hchild hlink ih =>
    rw [walk_leaf hdir hchild hlink] at hwalk
    -- The child the other walk comes to stands for the same
    obtain ⟨c, hc, hRc⟩ := hs.child hR hdir hchild
    rw [walk_leaf (hs.isDir hR hdir) hc (by rw [← hs.link hRc, hlink])]
    exact ih hRc hwalk
  | loop l' a cs c' t hdir hchild hlink =>
    obtain ⟨c, hc, hRc⟩ := hs.child hR hdir hchild
    by_cases hend : (cs.isEmpty && !follow) = true
    · rw [walk_link_end hdir hchild hlink hend] at hwalk
      cases hwalk
      exact ⟨c, walk_link_end (hs.isDir hR hdir) hc (by rw [← hs.link hRc, hlink]) hend, hRc⟩
    · -- There is no link left to follow, so the walk comes to no place
      rw [walk_link_loop hdir hchild hlink hend] at hwalk
      cases hwalk
  | link n l' a cs c' t hdir hchild hlink ih =>
    obtain ⟨c, hc, hRc⟩ := hs.child hR hdir hchild
    have hlink' : S.link c = some t := by rw [← hs.link hRc, hlink]
    by_cases hend : (cs.isEmpty && !follow) = true
    · rw [walk_link_end hdir hchild hlink hend] at hwalk
      cases hwalk
      exact ⟨c, walk_link_end (hs.isDir hR hdir) hc hlink' hend, hRc⟩
    · rw [walk_link hdir hchild hlink hend] at hwalk
      rw [walk_link (hs.isDir hR hdir) hc hlink' hend]
      refine ih ?_ hwalk
      -- an absolute link leads on from the root
      unfold start
      split
      · exact hs.root
      · exact hR

/-- The two spaces cannot be told apart by walking. -/
structure Bisim (S' S : PathSpace Loc α) (R : Loc → Loc → Prop) : Prop where
  root : R S'.root S.root
  isDir : ∀ {l' l}, R l' l → S'.isDir l' = S.isDir l
  link : ∀ {l' l}, R l' l → S'.link l' = S.link l
  up : ∀ {l' l}, R l' l → R (S'.up l') (S.up l)
  child : ∀ {l' l} (a : α), R l' l → Option.Rel R (S'.child l' a) (S.child l a)

/-- What the one space has under a name the other has too. -/
theorem Bisim.exists_child {S' : PathSpace Loc α} {R : Loc → Loc → Prop} (hs : Bisim S' S R)
    {l' m : Loc} (hR : R l' l) (hchild : S.child l a = some m) :
    ∃ m', S'.child l' a = some m' ∧ R m' m := by
  have hrel := hs.child a hR
  rw [hchild] at hrel
  cases hchild' : S'.child l' a with
  | none =>
    rw [hchild'] at hrel
    cases hrel
  | some m' =>
    rw [hchild'] at hrel
    cases hrel with
    | some h => exact ⟨m', rfl, h⟩

/-- From related locations a path comes to the same end in both spaces. -/
theorem Bisim.walk {S' : PathSpace Loc α} {R : Loc → Loc → Prop} (hs : Bisim S' S R) {l' : Loc}
    (hR : R l' l) : (S'.walk follow n l' cs).Rel R (S.walk follow n l cs) := by
  -- Both walks go the same way, so they stop together
  induction n, l, cs using S.walk_induction generalizing l' with
  | nil n l =>
    rw [walk_nil, walk_nil]
    exact .at hR
  | notDir n l c cs hdir =>
    rw [walk_notDir hdir, walk_notDir ((hs.isDir hR).trans hdir)]
    exact .notDir
  | stay n l cs hdir ih =>
    rw [walk_stay, walk_stay, if_pos hdir, if_pos ((hs.isDir hR).trans hdir)]
    exact ih hR
  | up n l cs hdir ih =>
    rw [walk_up, walk_up, if_pos hdir, if_pos ((hs.isDir hR).trans hdir)]
    exact ih (hs.up hR)
  | missing n l a cs hdir hchild =>
    have hdir' := (hs.isDir hR).trans hdir
    have hrel := hs.child a hR
    -- Neither has the child
    rw [hchild] at hrel
    cases hchild' : S'.child l' a with
    | some c' =>
      rw [hchild'] at hrel
      cases hrel
    | none =>
      rw [walk_missing hdir hchild, walk_missing hdir' hchild']
      split
      · exact .free hR
      · exact .missing
  | leaf n l a cs c hdir hchild hlink ih =>
    obtain ⟨c', hchild', hRc⟩ := hs.exists_child hR hchild
    rw [walk_leaf hdir hchild hlink,
      walk_leaf ((hs.isDir hR).trans hdir) hchild' ((hs.link hRc).trans hlink)]
    exact ih hRc
  -- Both run out of links at the same one
  | loop l a cs c t hdir hchild hlink =>
    obtain ⟨c', hchild', hRc⟩ := hs.exists_child hR hchild
    have hdir' := (hs.isDir hR).trans hdir
    have hlink' := (hs.link hRc).trans hlink
    by_cases hend : (cs.isEmpty && !follow) = true
    · rw [walk_link_end hdir hchild hlink hend, walk_link_end hdir' hchild' hlink' hend]
      exact .at hRc
    · rw [walk_link_loop hdir hchild hlink hend, walk_link_loop hdir' hchild' hlink' hend]
      exact .loop
  | link n l a cs c t hdir hchild hlink ih =>
    obtain ⟨c', hchild', hRc⟩ := hs.exists_child hR hchild
    have hdir' := (hs.isDir hR).trans hdir
    have hlink' := (hs.link hRc).trans hlink
    by_cases hend : (cs.isEmpty && !follow) = true
    · rw [walk_link_end hdir hchild hlink hend, walk_link_end hdir' hchild' hlink' hend]
      exact .at hRc
    · rw [walk_link hdir hchild hlink hend, walk_link hdir' hchild' hlink' hend]
      apply ih
      -- an absolute link leads on from the root
      unfold start
      split
      · exact hs.root
      · exact hR

/-- Where a path leads in one space, it leads to a related location in the other. -/
theorem Bisim.walk_at {S' : PathSpace Loc α} {R : Loc → Loc → Prop} (hs : Bisim S' S R)
    {l' m' : Loc} {k : Nat} (hR : R l' l) (hwalk : S'.walk follow n l' cs = .at m' k) :
    ∃ m, S.walk follow n l cs = .at m k ∧ R m' m := by
  have hrel := @Bisim.walk _ _ S follow n l cs S' R hs l' hR
  rw [hwalk] at hrel
  exact hrel.exists_at_left

end PathSpace
