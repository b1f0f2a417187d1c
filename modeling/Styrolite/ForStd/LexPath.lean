import Mathlib.Data.List.Basic
import Mathlib.Data.List.TakeDrop

/-!
# Lexical paths

A location in a tree of directories without links is the list of names from the
root down to it. A path is walked one step at a time, from a location: down by a
name, or up to the parent, where the root is its own parent. Steps up and down
cancel, which leaves every path in a normal form: so many levels up, and then
names down.
-/

namespace LexPath

variable {α : Type}

/-- A step of a path. -/
inductive Step (α : Type) where
  | up
  | down (name : α)
  deriving DecidableEq, Repr

/-- The location a step leads to. -/
def Step.lead (l : List α) : Step α → List α
  | up => l.dropLast
  | down name => l ++ [name]

/-- The location a path leads to. -/
def walk (l : List α) (ss : List (Step α)) : List α := ss.foldl Step.lead l

@[simp] theorem walk_nil (l : List α) : walk l [] = l := rfl

@[simp] theorem walk_cons (l : List α) (s : Step α) (ss : List (Step α)) :
    walk l (s :: ss) = walk (s.lead l) ss := rfl

theorem walk_append (l : List α) (ss ss' : List (Step α)) :
    walk l (ss ++ ss') = walk (walk l ss) ss' := List.foldl_append

/-- The normal form of a path: `ups` levels up, then down by `names`. -/
structure NormalForm (α : Type) where
  ups : Nat
  names : List α
  deriving DecidableEq, Repr

namespace NormalForm

/-- The location a path in normal form leads to. -/
def lead (n : NormalForm α) (l : List α) : List α := l.take (l.length - n.ups) ++ n.names

/-- One more step: up cancels the last name, if there is one left. -/
def snoc (n : NormalForm α) : Step α → NormalForm α
  | .up =>
    if n.names.isEmpty then { n with ups := n.ups + 1 } else { n with names := n.names.dropLast }
  | .down name => { n with names := n.names ++ [name] }

theorem lead_snoc (n : NormalForm α) (s : Step α) (l : List α) :
    (n.snoc s).lead l = s.lead (n.lead l) := by
  cases s with
  | down name => simp [snoc, lead, Step.lead]
  | up =>
    unfold snoc
    by_cases hempty : n.names = []
    · -- nothing to cancel: one level further up
      rw [if_pos (by simp [hempty])]
      simp only [lead, hempty, List.append_nil, Step.lead]
      rw [List.dropLast_eq_take, List.take_take, List.length_take]
      congr 1
      omega
    · rw [if_neg (by simpa using hempty)]
      simp only [lead, Step.lead]
      rw [List.dropLast_append_of_ne_nil hempty]

/-- The names that a path in normal form climbs out of. -/
def climbed (n : NormalForm α) (l : List α) : List α := l.drop (l.length - n.ups)

/-- To come out below `l` by `t` is to climb, and to come back by the same names. -/
theorem lead_eq_append_iff {n : NormalForm α} {l t : List α} :
    n.lead l = l ++ t ↔ n.names = n.climbed l ++ t := by
  have hsplit : l.take (l.length - n.ups) ++ n.climbed l = l := List.take_append_drop _ l
  constructor
  · intro heq
    have hboth : l.take (l.length - n.ups) ++ n.names =
        l.take (l.length - n.ups) ++ (n.climbed l ++ t) := by
      rw [← List.append_assoc, hsplit]
      exact heq
    exact List.append_cancel_left hboth
  · intro heq
    rw [lead, heq, ← List.append_assoc, hsplit]

/-- To come out above `l`, or at it, is to come back by the first of the names. -/
theorem lead_prefix_iff {n : NormalForm α} {l : List α} :
    n.lead l <+: l ↔ n.names <+: n.climbed l := by
  have hsplit : l.take (l.length - n.ups) ++ n.climbed l = l := List.take_append_drop _ l
  calc
    n.lead l <+: l ↔ n.lead l <+: l.take (l.length - n.ups) ++ n.climbed l := by rw [hsplit]
    _ ↔ n.names <+: n.climbed l := List.prefix_append_right_inj _

end NormalForm

/-- The normal form of a path. -/
def normalForm (ss : List (Step α)) : NormalForm α := ss.foldl NormalForm.snoc ⟨0, []⟩

/-- A path leads where its normal form does. -/
theorem walk_eq_lead (l : List α) (ss : List (Step α)) : walk l ss = (normalForm ss).lead l := by
  have hfrom : ∀ (n : NormalForm α), walk (n.lead l) ss = (ss.foldl NormalForm.snoc n).lead l := by
    induction ss with
    | nil => exact fun _ => rfl
    | cons s ss ih => exact fun n => by rw [walk_cons, ← n.lead_snoc, ih, List.foldl_cons]
  have hzero : (⟨0, []⟩ : NormalForm α).lead l = l := by simp [NormalForm.lead]
  rw [normalForm, ← hfrom, hzero]

theorem walk_eq_append_iff {l t : List α} {ss : List (Step α)} :
    walk l ss = l ++ t ↔ (normalForm ss).names = (normalForm ss).climbed l ++ t := by
  rw [walk_eq_lead, NormalForm.lead_eq_append_iff]

theorem walk_prefix_iff {l : List α} {ss : List (Step α)} :
    walk l ss <+: l ↔ (normalForm ss).names <+: (normalForm ss).climbed l := by
  rw [walk_eq_lead, NormalForm.lead_prefix_iff]

/-- From the root a path leads to its names. -/
theorem walk_root (ss : List (Step α)) : walk [] ss = (normalForm ss).names := by
  rw [walk_eq_lead, NormalForm.lead, List.take_nil, List.nil_append]

end LexPath
