/-!
# Fields of a state that is built in steps

A state is built by a list of steps, of which some change a given field. If each
changes it by what it has and by nothing else of the state, the field goes its own
way (`foldl_field`). What comes of it is then known for the usual changes: the last
value set, or the values in the order in which they were added.
-/

namespace Folds

variable {σ ι α β : Type}

/-- A field is changed by the steps that `sel` selects as `put` says. -/
theorem foldl_field {step : σ → ι → σ} {sel : ι → Option α} (field : σ → β) (put : β → α → β)
    (hstep : ∀ s i, field (step s i) = (sel i).elim (field s) (put (field s)))
    (l : List ι) (s : σ) : field (l.foldl step s) = (l.filterMap sel).foldl put (field s) := by
  induction l generalizing s with
  | nil => rfl
  | cons i l ih =>
    rw [List.foldl_cons, ih, hstep]
    cases hsel : sel i with
    | none => rw [List.filterMap_cons_none hsel]; rfl
    | some a => rw [List.filterMap_cons_some hsel]; rfl

/-- The last value set. -/
theorem foldl_set (l : List α) (a : α) : l.foldl (fun _ b => b) a = l.getLast?.getD a := by
  induction l generalizing a with
  | nil => rfl
  | cons b l ih =>
    rw [List.foldl_cons, ih, List.getLast?_cons]
    rfl

theorem foldl_setSome (l : List α) (o : Option α) :
    l.foldl (fun _ b => some b) o = l.getLast?.or o := by
  induction l generalizing o with
  | nil => rfl
  | cons b l ih =>
    rw [List.foldl_cons, ih, List.getLast?_cons]
    cases l.getLast? <;> rfl

/-- Nothing, or the values if there are any. -/
def unlessNil : List α → Option (List α)
  | [] => none
  | a :: l => some (a :: l)

@[simp] theorem unlessNil_nil : unlessNil ([] : List α) = none := rfl

theorem unlessNil_of_ne_nil {l : List α} (hl : l ≠ []) : unlessNil l = some l := by
  cases l with
  | nil => exact absurd rfl hl
  | cons a l => rfl

/-- A list that is made when the first value is added. -/
theorem foldl_push (l : List α) :
    l.foldl (fun o a => some ((o.getD []) ++ [a])) none = unlessNil l := by
  have hsome : ∀ l acc : List α,
      l.foldl (fun o a => some ((o.getD []) ++ [a])) (some acc) = some (acc ++ l) := by
    intro l
    induction l with
    | nil => exact fun acc => congrArg some (List.append_nil acc).symm
    | cons a l ih =>
      intro acc
      rw [List.foldl_cons, Option.getD_some, ih, List.append_assoc]
      rfl
  cases l with
  | nil => rfl
  | cons a l => exact hsome l [a]

end Folds
