import Mathlib.Logic.Function.Basic
import Mathlib.Data.List.Basic

/-!
# Settings made one at a time

A table of settings is changed by a list of requests, made in order up to the
first one that is refused. Whether a request is refused depends on the setting
it changes and on nothing else. `setUntil` is the table that results; with one
request for each key, `setUntil_of_split` says what becomes of each of them.
-/

namespace Settings

variable {κ ν : Type} [DecidableEq κ] {accepts : κ → ν → ν → Bool} {t : κ → ν}
  {k : κ} {v : ν} {l before rest : List (κ × ν)}

/-- The table after the requests of the list, made until one is refused. -/
def setUntil (accepts : κ → ν → ν → Bool) : (κ → ν) → List (κ × ν) → κ → ν
  | t, [] => t
  | t, (k, v) :: l =>
    if accepts k (t k) v then setUntil accepts (Function.update t k v) l else t

@[simp] theorem setUntil_nil : setUntil accepts t [] = t := rfl

theorem setUntil_cons_of_accepted (ha : accepts k (t k) v = true) :
    setUntil accepts t ((k, v) :: l) = setUntil accepts (Function.update t k v) l := if_pos ha

theorem setUntil_cons_of_refused (hno : accepts k (t k) v ≠ true) :
    setUntil accepts t ((k, v) :: l) = t := if_neg hno

/-- A key without a request keeps its setting. -/
theorem setUntil_of_not_mem (hk : k ∉ l.map Prod.fst) : setUntil accepts t l k = t k := by
  induction l generalizing t with
  | nil => rfl
  | cons e l ih =>
    obtain ⟨k', v'⟩ := e
    simp only [List.map_cons, List.mem_cons, not_or] at hk
    by_cases ha : accepts k' (t k') v' = true
    · rw [setUntil_cons_of_accepted ha, ih hk.2, Function.update_of_ne hk.1]
    · rw [setUntil_cons_of_refused ha]

/-- A request is carried out if it and each one before it would be accepted on its own. -/
theorem setUntil_of_split (hnodup : ((before ++ (k, v) :: rest).map Prod.fst).Nodup) :
    setUntil accepts t (before ++ (k, v) :: rest) k =
      if (∀ e ∈ before, accepts e.1 (t e.1) e.2 = true) ∧ accepts k (t k) v = true then v
      else t k := by
  induction before generalizing t with
  | nil =>
    simp only [List.nil_append, List.map_cons, List.nodup_cons] at hnodup
    simp only [List.nil_append, List.not_mem_nil, false_imp_iff, implies_true, true_and]
    -- The request is the first one: it is carried out or ends the run, and none after it is for `k`
    by_cases ha : accepts k (t k) v = true
    · rw [setUntil_cons_of_accepted ha, setUntil_of_not_mem hnodup.1, Function.update_self,
        if_pos ha]
    · rw [setUntil_cons_of_refused ha, if_neg ha]
  | cons e before ih =>
    obtain ⟨k', v'⟩ := e
    simp only [List.cons_append, List.map_cons, List.nodup_cons, List.map_append, List.mem_append,
      List.mem_cons, not_or] at hnodup
    by_cases ha : accepts k' (t k') v' = true
    · -- the entry just written is not looked at again
      have hk : k ≠ k' := fun heq => hnodup.1.2.1 heq.symm
      have hsame : ∀ e ∈ before, Function.update t k' v' e.1 = t e.1 := by
        intro e he
        refine Function.update_of_ne (fun heq => hnodup.1.1 ?_) _ _
        rw [← heq]
        exact List.mem_map_of_mem he
      have hbefore : (∀ e ∈ before, accepts e.1 (Function.update t k' v' e.1) e.2 = true) ↔
          ∀ e ∈ before, accepts e.1 (t e.1) e.2 = true :=
        forall₂_congr fun e he => by rw [hsame e he]
      rw [List.cons_append, setUntil_cons_of_accepted ha, ih (by simpa using hnodup.2),
        Function.update_of_ne hk]
      simp only [hbefore, List.forall_mem_cons, ha, true_and]
    · rw [List.cons_append, setUntil_cons_of_refused ha, if_neg]
      exact fun hall => ha (hall.1 _ List.mem_cons_self)

/-- A request that would be accepted on its own is in force just if it was before, or if each
    request before it would be accepted. -/
theorem setUntil_eq_iff (hnodup : ((before ++ (k, v) :: rest).map Prod.fst).Nodup)
    (ha : accepts k (t k) v = true) :
    setUntil accepts t (before ++ (k, v) :: rest) k = v ↔
      t k = v ∨ ∀ e ∈ before, accepts e.1 (t e.1) e.2 = true := by
  rw [setUntil_of_split hnodup]
  split
  · next hall => exact iff_of_true rfl (.inr hall.1)
  · next hno => exact ⟨.inl, fun h => h.elim id fun hall => absurd ⟨hall, ha⟩ hno⟩

end Settings
