import Mathlib.Data.List.Induction

/-!
# A setting behind a switch

A setting can be made only while its switch is on, and is lost when that goes off.
`run` carries out a list of acts one after the other, and `run_eq_iff` says when
the setting is made in the end: one of the acts makes it where the switch is on,
and none after that takes it away.
-/

namespace Switch

/-- What is done to the switch or to the setting. -/
inductive Act (α : Type) where
  | keep
  | on
  | off
  | set (a : α)
  deriving DecidableEq, Repr

/-- Nothing if the switch is off, else the setting if it has been made. -/
abbrev Cell (α : Type) := Option (Option α)

variable {α : Type}

/-- What an act does to a cell. -/
def step (σ : Cell α) (x : Act α) : Cell α :=
  match x with
  | .keep => σ
  | .on => some σ.join
  | .off => none
  | .set a => σ.map fun _ => some a

/-- What acts do to a cell, one after the other. -/
def run (σ : Cell α) (l : List (Act α)) : Cell α := l.foldl step σ

variable {σ : Cell α} {l : List (Act α)} {x : Act α} {a : α}

/-- No acts leave the cell. -/
@[simp] theorem run_nil : run σ [] = σ := rfl

/-- The first act, and then the rest. -/
@[simp] theorem run_cons : run σ (x :: l) = run (step σ x) l := rfl

/-- One more act at the end. -/
theorem run_concat : run σ (l ++ [x]) = step (run σ l) x := by
  rw [run, List.foldl_append]
  rfl

/-- Some acts, and then the others. -/
theorem run_append {l' : List (Act α)} : run σ (l ++ l') = run (run σ l) l' := List.foldl_append

/-- Acts that all keep the cell leave it. -/
theorem run_of_keep (hl : ∀ x ∈ l, x = .keep) : run σ l = σ := by
  induction l with
  | nil => rfl
  | cons x l ih =>
    obtain rfl := hl x List.mem_cons_self
    exact ih fun y hy => hl y (List.mem_cons_of_mem _ hy)

/-- The last act on the switch turns it on, or there is none and it was on. -/
def On (σ : Cell α) (l : List (Act α)) : Prop :=
  (∃ l₁ l₂, l = l₁ ++ .on :: l₂ ∧ .off ∉ l₂) ∨ (σ.isSome ∧ .off ∉ l)

/-- No act takes the setting `a` away. -/
def Leaves (a : α) (l : List (Act α)) : Prop := .off ∉ l ∧ ∀ b, .set b ∈ l → b = a

/-- An act makes the setting `a` where the switch is on, or it was made before, and none takes it
    away after that. -/
def Made (σ : Cell α) (l : List (Act α)) (a : α) : Prop :=
  (∃ l₁ l₂, l = l₁ ++ .set a :: l₂ ∧ On σ l₁ ∧ Leaves a l₂) ∨ (σ = some (some a) ∧ Leaves a l)

/-- Of a list with one more act the parts that begin with `y`. -/
private theorem exists_split_concat {y : Act α} {P : List (Act α) → List (Act α) → Prop} :
    (∃ l₁ l₂, l ++ [x] = l₁ ++ y :: l₂ ∧ P l₁ l₂) ↔
      (x = y ∧ P l []) ∨ ∃ l₁ l₂, l = l₁ ++ y :: l₂ ∧ P l₁ (l₂ ++ [x]) := by
  constructor
  · rintro ⟨l₁, l₂, heq, hP⟩
    rcases List.eq_nil_or_concat l₂ with rfl | ⟨l₂, z, rfl⟩
    · obtain ⟨rfl, hx⟩ := List.append_inj' heq rfl
      exact .inl ⟨by simpa using hx, hP⟩
    · rw [List.concat_eq_append, ← List.cons_append, ← List.append_assoc] at heq
      obtain ⟨rfl, hx⟩ := List.append_inj' heq rfl
      obtain rfl : x = z := by simpa using hx
      exact .inr ⟨l₁, l₂, rfl, by simpa using hP⟩
  · rintro (⟨rfl, hP⟩ | ⟨l₁, l₂, rfl, hP⟩)
    · exact ⟨l, [], rfl, hP⟩
    · exact ⟨l₁, l₂ ++ [x], by simp, hP⟩

/-- The cell is on after one more act: that turns it on, or does not turn it off. -/
theorem on_concat : On σ (l ++ [x]) ↔ x = .on ∨ (x ≠ .off ∧ On σ l) := by
  unfold On
  rw [exists_split_concat]
  simp only [List.mem_append, List.mem_singleton, not_or, List.not_mem_nil, not_false_eq_true,
    and_true, eq_comm (a := Act.off)]
  constructor
  · rintro ((hx | ⟨l₁, l₂, rfl, hl₂, hx⟩) | ⟨hσ, hl, hx⟩)
    · exact .inl hx
    · exact .inr ⟨hx, .inl ⟨l₁, l₂, rfl, hl₂⟩⟩
    · exact .inr ⟨hx, .inr ⟨hσ, hl⟩⟩
  · rintro (hx | ⟨hx, ⟨l₁, l₂, rfl, hl₂⟩ | ⟨hσ, hl⟩⟩)
    · exact .inl (.inl hx)
    · exact .inl (.inr ⟨l₁, l₂, rfl, hl₂, hx⟩)
    · exact .inr ⟨hσ, hl, hx⟩

/-- Nothing else is set by one more act. -/
theorem leaves_concat : Leaves a (l ++ [x]) ↔
    Leaves a l ∧ x ≠ .off ∧ ∀ b, x = .set b → b = a := by
  unfold Leaves
  simp only [List.mem_append, List.mem_singleton, not_or, or_imp, forall_and,
    eq_comm (b := x)]
  constructor
  · rintro ⟨⟨hl, hx⟩, hset, hb⟩
    exact ⟨⟨hl, hset⟩, hx, hb⟩
  · rintro ⟨⟨hl, hset⟩, hx, hb⟩
    exact ⟨⟨hl, hx⟩, hset, hb⟩

/-- A value is set after one more act: by that, or before and not undone by it. -/
theorem made_concat : Made σ (l ++ [x]) a ↔
    (x = .set a ∧ On σ l) ∨ (Made σ l a ∧ x ≠ .off ∧ ∀ b, x = .set b → b = a) := by
  unfold Made
  rw [exists_split_concat]
  simp only [leaves_concat]
  constructor
  · rintro ((⟨hx, hon, -⟩ | ⟨l₁, l₂, rfl, hon, hl₂, hx⟩) | ⟨hσ, hl, hx⟩)
    · exact .inl ⟨hx, hon⟩
    · exact .inr ⟨.inl ⟨l₁, l₂, rfl, hon, hl₂⟩, hx⟩
    · exact .inr ⟨.inr ⟨hσ, hl⟩, hx⟩
  · rintro (⟨hx, hon⟩ | ⟨⟨l₁, l₂, rfl, hon, hl₂⟩ | ⟨hσ, hl⟩, hx⟩)
    · exact .inl (.inl ⟨hx, hon, by simp [Leaves]⟩)
    · exact .inl (.inr ⟨l₁, l₂, rfl, hon, hl₂, hx⟩)
    · exact .inr ⟨hσ, hl, hx⟩

/-- There is a cell in the end exactly if it is on. -/
theorem run_isSome_iff : (run σ l).isSome ↔ On σ l := by
  induction l using List.reverseRecOn with
  | nil => simp [On]
  | append_singleton l x ih =>
    rw [run_concat, on_concat, ← ih]
    cases x with
    | keep => simp [step]
    | on => simp [step]
    | off => simp [step]
    | set b => simp [step]

/-- When the setting is made after all the acts. -/
theorem run_eq_iff : run σ l = some (some a) ↔ Made σ l a := by
  induction l using List.reverseRecOn with
  | nil => simp [Made, Leaves]
  | append_singleton l x ih =>
    rw [run_concat, made_concat, ← ih, ← run_isSome_iff]
    cases x with
    | keep => simp [step]
    | on =>
      -- If the switch is on, it stays so, and a setting that has been made is left
      cases h : run σ l with
      | none => simp [step]
      | some o => simp [step]
    | off => simp [step]
    | set b =>
      cases h : run σ l with
      | none => simp [step]
      | some o =>
        -- The last act sets the cell
        simp only [step, Option.map_some, Option.some.injEq, Act.set.injEq, Option.isSome_some,
          and_true]
        constructor
        · exact .inl
        · rintro (heq | ⟨-, -, hset⟩)
          · exact heq
          · exact hset b rfl

end Switch
