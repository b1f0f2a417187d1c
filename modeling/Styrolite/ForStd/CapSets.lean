import Mathlib.Data.Finset.Basic
import Mathlib.Data.Finset.Lattice.Lemmas
import Mathlib.Logic.Relation

/-!
# Capability sets

The five capability sets of a Linux process (`capabilities(7)`) over any type of
capabilities, and what `capset`, `prctl`, a change of user ids and `execve` do
to them. The conditions under which the kernel allows a call stand beside it.

A capability in none of the five sets never comes back (`Gone.of_later`): no
call adds to the permitted or the inheritable set what was in no set before.
-/

/-- The capability sets of a process. -/
@[ext] structure CapSets (α : Type) where
  permitted : Finset α
  effective : Finset α
  inheritable : Finset α
  ambient : Finset α
  bounding : Finset α

/-- The capabilities of an executable file. -/
structure FileCaps (α : Type) where
  permitted : Finset α
  inheritable : Finset α
  effective : Bool

namespace CapSets

variable {α : Type} [DecidableEq α]

/-- `capset(2)` is allowed; `setpcap` says that the caller has `CAP_SETPCAP`. -/
def MayCapset (s : CapSets α) (setpcap : Prop) (effective permitted inheritable : Finset α) :
    Prop :=
  (setpcap ∨ inheritable ⊆ s.inheritable ∪ s.permitted) ∧
    inheritable ⊆ s.inheritable ∪ s.bounding ∧ permitted ⊆ s.permitted ∧ effective ⊆ permitted

/-- Whether `capset(2)` is allowed can be computed. -/
instance (s : CapSets α) (setpcap : Prop) [Decidable setpcap] (e p i : Finset α) :
    Decidable (s.MayCapset setpcap e p i) := inferInstanceAs (Decidable (_ ∧ _))

/-- `capset(2)`; ambient capabilities stay within permitted and inheritable ones. -/
def capset (s : CapSets α) (effective permitted inheritable : Finset α) : CapSets α :=
  { s with
    effective := effective
    permitted := permitted
    inheritable := inheritable
    ambient := s.ambient ∩ (permitted ∩ inheritable) }

/-- `PR_CAPBSET_DROP`. -/
def dropBounding (s : CapSets α) (c : α) : CapSets α := { s with bounding := s.bounding.erase c }

/-- `PR_CAP_AMBIENT_LOWER`. -/
def lowerAmbient (s : CapSets α) (c : α) : CapSets α := { s with ambient := s.ambient.erase c }

/-- `PR_CAP_AMBIENT_RAISE` is allowed, as far as the sets go. -/
def MayRaise (s : CapSets α) (c : α) : Prop := c ∈ s.permitted ∧ c ∈ s.inheritable

/-- Whether an ambient raise is allowed can be computed. -/
instance (s : CapSets α) (c : α) : Decidable (s.MayRaise c) := inferInstanceAs (Decidable (_ ∧ _))

/-- `PR_CAP_AMBIENT_RAISE`. -/
def raiseAmbient (s : CapSets α) (c : α) : CapSets α := { s with ambient := insert c s.ambient }

/-- `PR_CAPBSET_DROP` for each of the capabilities. -/
def dropAll (s : CapSets α) (cs : Finset α) : CapSets α := { s with bounding := s.bounding \ cs }

/-- `PR_CAP_AMBIENT_LOWER` for each of the capabilities. -/
def lowerAll (s : CapSets α) (cs : Finset α) : CapSets α := { s with ambient := s.ambient \ cs }

/-- `PR_CAP_AMBIENT_RAISE` for each of the capabilities. -/
def raiseAll (s : CapSets α) (cs : Finset α) : CapSets α := { s with ambient := s.ambient ∪ cs }

/-- Drops from the bounding set leave the effective set. -/
@[simp] theorem dropAll_effective (s : CapSets α) (cs : Finset α) :
    (s.dropAll cs).effective = s.effective := rfl

/-- Dropping nothing. -/
@[simp] theorem dropAll_empty (s : CapSets α) : s.dropAll ∅ = s := by simp [dropAll]

/-- Lowering nothing. -/
@[simp] theorem lowerAll_empty (s : CapSets α) : s.lowerAll ∅ = s := by simp [lowerAll]

/-- Raising nothing. -/
@[simp] theorem raiseAll_empty (s : CapSets α) : s.raiseAll ∅ = s := by simp [raiseAll]

/-- One more capability dropped. -/
theorem dropBounding_dropAll (s : CapSets α) (cs : Finset α) (c : α) :
    (s.dropAll cs).dropBounding c = s.dropAll (cs ∪ {c}) := by
  simp only [dropAll, dropBounding, Finset.erase_eq, sdiff_sdiff_left]
  rfl

/-- One more capability lowered. -/
theorem lowerAmbient_lowerAll (s : CapSets α) (cs : Finset α) (c : α) :
    (s.lowerAll cs).lowerAmbient c = s.lowerAll (cs ∪ {c}) := by
  simp only [lowerAll, lowerAmbient, Finset.erase_eq, sdiff_sdiff_left]
  rfl

/-- One more capability raised. -/
theorem raiseAmbient_raiseAll (s : CapSets α) (cs : Finset α) (c : α) :
    (s.raiseAll cs).raiseAmbient c = s.raiseAll (cs ∪ {c}) := by
  simp only [raiseAll, raiseAmbient, ← Finset.union_assoc]
  rw [Finset.insert_eq, Finset.union_comm]

/-- A change of user ids without `SECBIT_NO_SETUID_FIXUP`: the process gives up its last root id
    (`lost`, with `keep` for `SECBIT_KEEP_CAPS`), or its effective id stops or starts being root. -/
def switchUids (s : CapSets α) (lost keep wasRoot isRoot : Bool) : CapSets α :=
  let permitted := if lost ∧ ¬ keep then ∅ else s.permitted
  { s with
    permitted := permitted
    ambient := if lost then ∅ else s.ambient
    effective :=
      if wasRoot ∧ ¬ isRoot then ∅
      else if ¬ wasRoot ∧ isRoot then permitted
      else if lost ∧ ¬ keep then ∅
      else s.effective }

/-- `execve(2)`: `P' = (I & Fi) | (Fp & bset) | A'`. Under the root-uid rule (`root`) the file
    counts as having every capability; `effective` says that the effective set is filled, and
    `setid` that the file has a set-id bit. -/
def exec (s : CapSets α) (file : Option (FileCaps α)) (root effective setid : Bool) :
    CapSets α :=
  let ambient := if file.isSome ∨ setid then ∅ else s.ambient
  let granted :=
    if root then s.bounding ∪ s.inheritable
    else match file with
      | some f => (s.inheritable ∩ f.inheritable) ∪ (f.permitted ∩ s.bounding)
      | none => ∅
  { s with
    permitted := granted ∪ ambient
    ambient := ambient
    effective := if effective then granted ∪ ambient else ambient }

/-- What a process may do with its sets without leaving its user namespace. -/
inductive Later (s : CapSets α) : CapSets α → Prop where
  | capset {setpcap : Prop} {effective permitted inheritable : Finset α}
      (hmay : s.MayCapset setpcap effective permitted inheritable) :
      Later s (s.capset effective permitted inheritable)
  | raiseAmbient {c : α} (hmay : s.MayRaise c) : Later s (s.raiseAmbient c)
  | switchUids (lost keep wasRoot isRoot : Bool) : Later s (s.switchUids lost keep wasRoot isRoot)
  | keepUids : Later s s
  | exec (file : Option (FileCaps α)) (root effective setid : Bool) :
      Later s (s.exec file root effective setid)

/-- The capability is in none of the sets. -/
structure Gone (c : α) (s : CapSets α) : Prop where
  permitted : c ∉ s.permitted
  effective : c ∉ s.effective
  inheritable : c ∉ s.inheritable
  ambient : c ∉ s.ambient
  bounding : c ∉ s.bounding

namespace Gone

variable {c : α} {s s' : CapSets α}

/-- `capset(2)` does not bring back what is gone: it adds from the bounding set only. -/
theorem capset (hg : Gone c s) {setpcap : Prop} {e p i : Finset α}
    (hmay : s.MayCapset setpcap e p i) : Gone c (s.capset e p i) := by
  obtain ⟨-, hi, hp, he⟩ := hmay
  have hcp : c ∉ p := fun h => hg.permitted (hp h)
  refine ⟨hcp, fun h => hcp (he h), fun h => ?_, fun h => hg.ambient (Finset.mem_inter.1 h).1,
    hg.bounding⟩
  -- an inheritable capability was inheritable or bounding before
  rcases Finset.mem_union.1 (hi h) with h | h
  · exact hg.inheritable h
  · exact hg.bounding h

/-- An ambient raise does not either: it adds what is permitted only. -/
theorem raiseAmbient (hg : Gone c s) {d : α} (hmay : s.MayRaise d) :
    Gone c (s.raiseAmbient d) := by
  refine ⟨hg.permitted, hg.effective, hg.inheritable, fun h => ?_, hg.bounding⟩
  rcases Finset.mem_insert.1 h with rfl | h
  · exact hg.permitted hmay.1
  · exact hg.ambient h

omit [DecidableEq α] in
/-- Nor does a switch of user ids, whichever of its effects it has. -/
theorem switchUids (hg : Gone c s) (lost keep wasRoot isRoot : Bool) :
    Gone c (s.switchUids lost keep wasRoot isRoot) := by
  have hp := hg.permitted
  have he := hg.effective
  have ha := hg.ambient
  constructor
  · show c ∉ if _ then _ else _
    split
    · exact Finset.notMem_empty c
    · exact hp
  · show c ∉ if _ then _ else if _ then (if _ then _ else _) else if _ then _ else _
    repeat' split
    all_goals first | exact Finset.notMem_empty c | assumption
  · exact hg.inheritable
  · show c ∉ if _ then _ else _
    split
    · exact Finset.notMem_empty c
    · exact ha
  · exact hg.bounding

/-- Nor does an `execve`, whatever the capabilities of the file are. -/
theorem exec (hg : Gone c s) (file : Option (FileCaps α)) (root effective setid : Bool) :
    Gone c (s.exec file root effective setid) := by
  -- The ambient set is emptied or kept
  have hambient : c ∉ (s.exec file root effective setid).ambient := by
    show c ∉ if _ then _ else _
    split
    · exact Finset.notMem_empty c
    · exact hg.ambient
  -- Permission comes from the bounding set, the inheritable set or the ambient set
  have hpermitted : c ∉ (s.exec file root effective setid).permitted := by
    show c ∉ (if _ then _ else _) ∪ (s.exec file root effective setid).ambient
    rw [Finset.mem_union, not_or]
    refine ⟨?_, hambient⟩
    cases root with
    | true => simp [hg.bounding, hg.inheritable]
    | false =>
      cases file with
      | none => simp
      | some f => simp [hg.bounding, hg.inheritable]
  -- The effective set is one of the two
  refine ⟨hpermitted, ?_, hg.inheritable, hambient, hg.bounding⟩
  show c ∉ if effective then (s.exec file root effective setid).permitted
    else (s.exec file root effective setid).ambient
  split
  · exact hpermitted
  · exact hambient

/-- What is gone stays gone, whatever the process does later. -/
theorem later (hg : Gone c s) (hs : s.Later s') : Gone c s' := by
  cases hs with
  | capset hmay => exact hg.capset hmay
  | raiseAmbient hmay => exact hg.raiseAmbient hmay
  | switchUids lost keep wasRoot isRoot => exact hg.switchUids lost keep wasRoot isRoot
  | keepUids => exact hg
  | exec file root effective setid => exact hg.exec file root effective setid

/-- A capability that is gone is gone after any sequence of steps. -/
theorem of_later (hg : Gone c s) (hs : Relation.ReflTransGen Later s s') : Gone c s' := by
  induction hs with
  | refl => exact hg
  | tail _ hstep ih => exact ih.later hstep

end Gone

end CapSets
