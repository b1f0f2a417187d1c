import Mathlib.Order.Defs.Unbundled

/-!
# Maps as sorted lists

A map from keys to values as the list of its entries in the order of their
distinct keys. Two such lists with the same value at each key are equal
(`Sorted.eq_of_lookup_eq`), so what a run of insertions builds is known from what
is found in it.
-/

namespace SortedMap

variable {κ α : Type}

/-- The keys are in order, and so distinct. -/
def Sorted [LT κ] (l : List (κ × α)) : Prop := (l.map Prod.fst).Pairwise (· < ·)

/-- The value at a key. -/
def lookup [DecidableEq κ] (k : κ) : List (κ × α) → Option α
  | [] => none
  | (k', a) :: l => if k = k' then some a else lookup k l

/-- Sets the value at a key. -/
def insert [DecidableEq κ] [LT κ] [DecidableLT κ] (k : κ) (a : α) : List (κ × α) → List (κ × α)
  | [] => [(k, a)]
  | (k', a') :: l =>
    if k < k' then (k, a) :: (k', a') :: l
    else if k = k' then (k, a) :: l
    else (k', a') :: insert k a l

/-- Sets the values of all of the entries in turn. -/
def insertAll [DecidableEq κ] [LT κ] [DecidableLT κ] (m l : List (κ × α)) : List (κ × α) :=
  l.foldl (fun m e => insert e.1 e.2 m) m

theorem sorted_nil [LT κ] : Sorted ([] : List (κ × α)) := List.Pairwise.nil

theorem sorted_cons [LT κ] {e : κ × α} {l : List (κ × α)} :
    Sorted (e :: l) ↔ (∀ e' ∈ l, e.1 < e'.1) ∧ Sorted l := by
  rw [Sorted, List.map_cons, List.pairwise_cons, List.forall_mem_map]
  rfl

theorem lookup_eq_none [DecidableEq κ] {k : κ} {l : List (κ × α)} (hne : ∀ e ∈ l, k ≠ e.1) :
    lookup k l = none := by
  induction l with
  | nil => rfl
  | cons e l ih =>
    rw [lookup, if_neg (hne e List.mem_cons_self)]
    exact ih fun e' he' => hne e' (List.mem_cons_of_mem _ he')

theorem mem_of_lookup [DecidableEq κ] {k : κ} {a : α} {l : List (κ × α)}
    (hfound : lookup k l = some a) : (k, a) ∈ l := by
  induction l with
  | nil => cases hfound
  | cons e l ih =>
    rw [lookup] at hfound
    split at hfound
    · next hk =>
      cases hk
      cases hfound
      exact List.mem_cons_self
    · exact List.mem_cons_of_mem _ (ih hfound)

section

variable [DecidableEq κ] [LT κ] [DecidableLT κ] {k : κ} {a : α} {l : List (κ × α)}

theorem mem_insert {e : κ × α} (he : e ∈ insert k a l) : e = (k, a) ∨ e ∈ l := by
  induction l with
  | nil => exact .inl (List.mem_singleton.1 he)
  | cons e' l ih =>
    obtain ⟨k', a'⟩ := e'
    rw [insert] at he
    split at he
    · exact List.mem_cons.1 he
    · split at he
      · exact (List.mem_cons.1 he).imp_right (List.mem_cons_of_mem _)
      · rcases List.mem_cons.1 he with rfl | he
        · exact .inr List.mem_cons_self
        · exact (ih he).imp_right (List.mem_cons_of_mem _)

/-- An insertion is seen at its own key only. -/
@[simp] theorem lookup_insert (k k' : κ) (a : α) (l : List (κ × α)) :
    lookup k' (insert k a l) = if k' = k then some a else lookup k' l := by
  induction l with
  | nil => rfl
  | cons e l ih =>
    obtain ⟨k₀, a₀⟩ := e
    rw [insert]
    split
    · -- The key comes before the first one
      rfl
    · split
      · -- It is the first one, whose value is replaced
        next heq =>
        subst heq
        rw [lookup, lookup]
        split <;> rfl
      · -- It comes after it, and goes into the rest
        next hne =>
        rw [lookup, lookup, ih]
        by_cases hk : k' = k₀
        · subst hk
          rw [if_pos rfl, if_neg (Ne.symm hne), if_pos rfl]
        · rw [if_neg hk, if_neg hk]

theorem insertAll_append (m l l' : List (κ × α)) :
    insertAll m (l ++ l') = insertAll (insertAll m l) l' := List.foldl_append

/-- The last entry of a key counts. -/
theorem lookup_insertAll (k : κ) (m l : List (κ × α)) :
    lookup k (insertAll m l) = (lookup k l.reverse).or (lookup k m) := by
  induction l generalizing m with
  | nil => rfl
  | cons e l ih =>
    -- The last entry of a list is looked up last
    have hreverse : ∀ l : List (κ × α), lookup k (l ++ [e]) =
        (lookup k l).or (if k = e.1 then some e.2 else none) := by
      intro l
      induction l with
      | nil => rfl
      | cons e' l ih =>
        rw [List.cons_append, lookup, lookup, ih]
        split <;> rfl
    show lookup k (insertAll (insert e.1 e.2 m) l) = _
    rw [ih, lookup_insert, List.reverse_cons, hreverse]
    cases lookup k l.reverse with
    | some b => rfl
    | none => split <;> rfl

variable [IsTrans κ (· < ·)] [Std.Trichotomous (α := κ) (· < ·)]

theorem Sorted.insert (hl : Sorted l) : Sorted (insert k a l) := by
  induction l with
  | nil => exact List.pairwise_singleton _ _
  | cons e l ih =>
    obtain ⟨k', a'⟩ := e
    obtain ⟨hlt, hl'⟩ := sorted_cons.1 hl
    rw [SortedMap.insert]
    split
    · next hk =>
      -- The new key is the least
      refine sorted_cons.2 ⟨fun e he => ?_, hl⟩
      rcases List.mem_cons.1 he with rfl | he
      · exact hk
      · exact Trans.trans hk (hlt e he)
    · next hk =>
      split
      · next heq =>
        subst heq
        exact sorted_cons.2 ⟨hlt, hl'⟩
      · next hne =>
        -- The first key stays the least
        have hk' : k' < k :=
          Decidable.byContradiction fun hno => hne (Std.Trichotomous.trichotomous _ _ hk hno)
        refine sorted_cons.2 ⟨fun e he => ?_, ih hl'⟩
        rcases mem_insert he with rfl | he
        · exact hk'
        · exact hlt e he

theorem Sorted.insertAll {m : List (κ × α)} (hm : Sorted m) (l : List (κ × α)) :
    Sorted (insertAll m l) := by
  induction l generalizing m with
  | nil => exact hm
  | cons e l ih => exact ih hm.insert

end

/-- The key of the first entry is found in another map as that of its first entry, or later. -/
private theorem eq_or_lt_of_lookup [DecidableEq κ] [LT κ] {e e' : κ × α} {m : List (κ × α)}
    (hm : Sorted (e' :: m)) (hfound : lookup e.1 (e' :: m) = some e.2) : e = e' ∨ e'.1 < e.1 := by
  rw [lookup] at hfound
  split at hfound
  · next hk => exact .inl (Prod.ext hk (Option.some.inj hfound).symm)
  · exact .inr ((sorted_cons.1 hm).1 _ (mem_of_lookup hfound))

section

variable [DecidableEq κ] [LT κ] [Std.Asymm (α := κ) (· < ·)]

/-- A sorted list is known from its lookups. -/
theorem Sorted.eq_of_lookup_eq {l m : List (κ × α)} (hl : Sorted l)
    (hm : Sorted m) (heq : ∀ k, lookup k l = lookup k m) : l = m := by
  induction l generalizing m with
  | nil =>
    cases m with
    | nil => rfl
    | cons e m => exact nomatch (heq e.1).trans (if_pos rfl)
  | cons e l ih =>
    cases m with
    | nil => exact nomatch (heq e.1).symm.trans (if_pos rfl)
    | cons e' m =>
      -- The least key of each list is found in the other
      have hhead : e = e' := by
        rcases eq_or_lt_of_lookup hm ((heq e.1).symm.trans (if_pos rfl)) with h | hlt
        · exact h
        · rcases eq_or_lt_of_lookup hl ((heq e'.1).trans (if_pos rfl)) with h | hlt'
          · exact h.symm
          · exact absurd hlt' (Std.Asymm.asymm _ _ hlt)
      subst hhead
      obtain ⟨hlt, hl'⟩ := sorted_cons.1 hl
      obtain ⟨hlt', hm'⟩ := sorted_cons.1 hm
      -- The rest has the same values, for the first key is in neither
      refine congrArg (e :: ·) (ih hl' hm' fun k => ?_)
      by_cases hk : k = e.1
      · have hne : ∀ {e' : κ × α}, e.1 < e'.1 → k ≠ e'.1 := by
          rintro e' hlt heq'
          rw [← heq', hk] at hlt
          exact Std.Asymm.asymm _ _ hlt hlt
        rw [lookup_eq_none fun e' he' => hne (hlt e' he'),
          lookup_eq_none fun e' he' => hne (hlt' e' he')]
      · have hrest := heq k
        rwa [lookup, lookup, if_neg hk, if_neg hk] at hrest

end

end SortedMap
