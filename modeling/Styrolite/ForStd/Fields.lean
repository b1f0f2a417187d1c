import Mathlib.Data.List.DropRight
import Mathlib.Data.List.Induction

/-!
# Fields between separators

The fields of a list are its pieces between separators, without the empty ones.
So separators in a row count as one, and those at either end do not count.

`join` puts two lists together with one separator at the seam, whatever separators
there are at the end of the one and at the front of the other. It appends the
fields (`fields_join`), and it nests (`join_assoc`).
-/

namespace Fields

variable {α : Type} [BEq α]

/-- The non-empty pieces of `l` between separators. -/
def fields (sep : α) (l : List α) : List (List α) := (l.splitOn sep).filter fun f => !f.isEmpty

/-- The empty list has no fields. -/
@[simp] theorem fields_nil (sep : α) : fields sep [] = [] := by simp [fields]

variable [LawfulBEq α]

/-- What is between two separators has none in it. -/
theorem not_mem_of_mem_splitOn {a : α} {xs c : List α}
    (hc : c ∈ xs.splitOn a) : a ∉ c := by
  induction xs generalizing c with
  | nil =>
    rw [List.splitOn_nil, List.mem_singleton] at hc
    rw [hc]
    exact List.not_mem_nil
  | cons x xs ih =>
    rw [List.splitOn_cons_eq_if_modifyHead] at hc
    split at hc
    · -- A separator: an empty field comes first
      rcases List.mem_cons.1 hc with rfl | hc
      · exact List.not_mem_nil
      · exact ih hc
    · next hne =>
      -- Anything else goes to the front of the first field of the rest
      cases hsplit : xs.splitOn a with
      | nil => exact absurd hsplit (List.splitOn_ne_nil a xs)
      | cons d ds =>
        rw [hsplit, List.modifyHead_cons, List.mem_cons] at hc
        rw [hsplit] at ih
        rcases hc with rfl | hc
        · intro ha
          rcases List.mem_cons.1 ha with heq | ha
          · exact hne (beq_iff_eq.2 heq.symm)
          · exact ih List.mem_cons_self ha
        · exact ih (List.mem_cons_of_mem d hc)

/-- The pieces that a list is made of, and that it is split into. -/
theorem splitOn_eq_iff {a : α} {xs : List α} {ls : List (List α)} :
    xs.splitOn a = ls ↔ ls ≠ [] ∧ (∀ l ∈ ls, a ∉ l) ∧ xs = [a].intercalate ls := by
  constructor
  · rintro rfl
    exact ⟨List.splitOn_ne_nil a xs, fun l hl => not_mem_of_mem_splitOn hl,
      (List.intercalate_splitOn a).symm⟩
  · rintro ⟨hne, hls, rfl⟩
    exact List.splitOn_intercalate a hls hne

section

omit [BEq α] [LawfulBEq α]

/-- An element of a joined list is of the first part, the separator, or of the rest. -/
theorem mem_intercalate_cons {a sep : α} {l : List α} {ls : List (List α)} (hnil : ls ≠ []) :
    a ∈ [sep].intercalate (l :: ls) ↔ a ∈ l ∨ a = sep ∨ a ∈ [sep].intercalate ls := by
  rw [List.intercalate_cons_of_ne_nil hnil, List.append_assoc, List.mem_append, List.mem_append,
    List.mem_singleton]

/-- What is put together has the elements of the pieces, and the separator. -/
theorem mem_intercalate {a sep : α} {ls : List (List α)} (ha : a ∈ [sep].intercalate ls) :
    a = sep ∨ ∃ l ∈ ls, a ∈ l := by
  induction ls with
  | nil => exact absurd ha List.not_mem_nil
  | cons l ls ih =>
    by_cases hnil : ls = []
    · subst hnil
      rw [List.intercalate_singleton] at ha
      exact .inr ⟨l, List.mem_cons_self, ha⟩
    · rcases (mem_intercalate_cons hnil).1 ha with ha | ha | ha
      · exact .inr ⟨l, List.mem_cons_self, ha⟩
      · exact .inl ha
      · exact (ih ha).imp_right fun ⟨k, hk, hak⟩ => ⟨k, List.mem_cons_of_mem l hk, hak⟩

/-- Every part is in the joined list. -/
theorem subset_intercalate {sep : α} {l : List α} {ls : List (List α)} (hl : l ∈ ls) :
    l ⊆ [sep].intercalate ls := by
  intro a ha
  induction ls with
  | nil => exact absurd hl List.not_mem_nil
  | cons k ls ih =>
    by_cases hnil : ls = []
    · subst hnil
      rw [List.intercalate_singleton, ← List.mem_singleton.1 hl]
      exact ha
    · apply (mem_intercalate_cons hnil).2
      rcases List.mem_cons.1 hl with rfl | hl
      · exact .inl ha
      · exact .inr (.inr (ih hl))

end

/-- The pieces of a list have nothing but what it has. -/
theorem subset_of_mem_splitOn {a : α} {xs l : List α} (hl : l ∈ xs.splitOn a) : l ⊆ xs := by
  have hsub : l ⊆ [a].intercalate (xs.splitOn a) := subset_intercalate hl
  rwa [List.intercalate_splitOn] at hsub

/-- A separator anywhere divides the fields. -/
theorem fields_append_cons (sep : α) (l l' : List α) :
    fields sep (l ++ sep :: l') = fields sep l ++ fields sep l' := by
  rw [fields, List.splitOn_append_cons_self, List.filter_append]
  rfl

/-- A separator at the beginning makes no field. -/
@[simp] theorem fields_cons (sep : α) (l : List α) : fields sep (sep :: l) = fields sep l := by
  have happend := fields_append_cons sep [] l
  rwa [List.nil_append, fields_nil, List.nil_append] at happend

/-- Neither does one at the end. -/
@[simp] theorem fields_concat (sep : α) (l : List α) : fields sep (l ++ [sep]) = fields sep l := by
  rw [fields_append_cons, fields_nil, List.append_nil]

/-- Pieces that are put together are the fields. -/
theorem fields_intercalate {sep : α} {ls : List (List α)} (hls : ∀ l ∈ ls, l ≠ [] ∧ sep ∉ l) :
    fields sep ([sep].intercalate ls) = ls := by
  by_cases hnil : ls = []
  · subst hnil
    exact fields_nil sep
  · rw [fields, List.splitOn_intercalate sep (fun l hl => (hls l hl).2) hnil, List.filter_eq_self]
    intro l hl
    simpa using (hls l hl).1

/-- Separators at the front do not count. -/
@[simp] theorem fields_dropWhile (sep : α) (l : List α) :
    fields sep (l.dropWhile (· == sep)) = fields sep l := by
  induction l with
  | nil => rfl
  | cons a l ih =>
    rw [List.dropWhile_cons]
    split
    · next heq => rw [ih, eq_of_beq heq, fields_cons]
    · rfl

/-- Nor do those at the end. -/
@[simp] theorem fields_rdropWhile (sep : α) (l : List α) :
    fields sep (l.reverse.dropWhile (· == sep)).reverse = fields sep l := by
  induction l using List.reverseRecOn with
  | nil => rfl
  | append_singleton l a ih =>
    rw [List.reverse_append, List.reverse_singleton, List.singleton_append, List.dropWhile_cons]
    split
    · next heq => rw [ih, eq_of_beq heq, fields_concat]
    · rw [List.reverse_cons, List.reverse_reverse]

/-! ## One separator at the seam -/

/-- The separators at the end of `l` and at the front of `l'` give way to a single one. -/
def join (sep : α) (l l' : List α) : List α :=
  l.rdropWhile (· == sep) ++ sep :: l'.dropWhile (· == sep)

/-- Two lists that are joined with one separator have the fields of both. -/
theorem fields_join (sep : α) (l l' : List α) :
    fields sep (join sep l l') = fields sep l ++ fields sep l' := by
  have hend : fields sep (l.rdropWhile (· == sep)) = fields sep l := fields_rdropWhile sep l
  rw [join, fields_append_cons, hend, fields_dropWhile]

/-- Dropping separators at the beginning drops all that are added there. -/
theorem dropWhile_replicate_append (sep : α) (n : Nat) (l : List α) :
    (List.replicate n sep ++ l).dropWhile (· == sep) = l.dropWhile (· == sep) := by
  apply List.dropWhile_append_of_pos
  intro a ha
  exact beq_iff_eq.2 (List.eq_of_mem_replicate ha)

/-- Dropping them at the end does, too. -/
theorem rdropWhile_append_replicate (sep : α) (n : Nat) (l : List α) :
    (l ++ List.replicate n sep).rdropWhile (· == sep) = l.rdropWhile (· == sep) := by
  rw [List.rdropWhile, List.reverse_append, List.reverse_replicate, dropWhile_replicate_append]
  rfl

/-- Separators at the seam do not count. -/
theorem join_replicate (sep : α) (m n : Nat) (l l' : List α) :
    join sep (l ++ List.replicate m sep) (List.replicate n sep ++ l') = join sep l l' := by
  rw [join, rdropWhile_append_replicate, dropWhile_replicate_append]
  rfl

/-- A list is what is left of it without the separators at its front, and these. -/
theorem exists_replicate_append (sep : α) (l : List α) :
    ∃ n, l = List.replicate n sep ++ l.dropWhile (· == sep) := by
  refine ⟨(l.takeWhile (· == sep)).length, ?_⟩
  have hsep : l.takeWhile (· == sep) = List.replicate (l.takeWhile (· == sep)).length sep := by
    rw [List.eq_replicate_iff]
    exact ⟨rfl, fun a ha => eq_of_beq (List.mem_takeWhile_imp (p := (· == sep)) ha)⟩
  rw [← hsep, List.takeWhile_append_dropWhile]

/-- A list is what is left of it, and separators. -/
theorem exists_append_replicate (sep : α) (l : List α) :
    ∃ n, l = l.rdropWhile (· == sep) ++ List.replicate n sep := by
  obtain ⟨n, hn⟩ := exists_replicate_append sep l.reverse
  refine ⟨n, ?_⟩
  rw [List.rdropWhile, ← List.reverse_replicate, ← List.reverse_append, ← hn, List.reverse_reverse]

/-- What is left does not start with a separator. -/
theorem head?_dropWhile_ne (sep : α) (l : List α) : (l.dropWhile (· == sep)).head? ≠ some sep := by
  have hnot := List.head?_dropWhile_not (· == sep) l
  intro hhead
  rw [hhead] at hnot
  simp at hnot

/-- What is left does not end in a separator. -/
theorem getLast?_rdropWhile_ne (sep : α) (l : List α) :
    (l.rdropWhile (· == sep)).getLast? ≠ some sep := by
  rw [List.rdropWhile, List.getLast?_reverse]
  exact head?_dropWhile_ne sep l.reverse

omit [BEq α] [LawfulBEq α] in
/-- What is cut off the end of `l ++ l'` reaches into `l` only if nothing of `l'` is left. -/
theorem rdropWhile_append (p : α → Bool) (l l' : List α) : (l ++ l').rdropWhile p =
    if l'.rdropWhile p = [] then l.rdropWhile p else l ++ l'.rdropWhile p := by
  rw [List.rdropWhile, List.reverse_append, List.dropWhile_append, apply_ite List.reverse,
    List.reverse_append, List.reverse_reverse]
  simp only [List.isEmpty_iff, List.rdropWhile, List.reverse_eq_nil_iff]

/-- Dropping from the end, where an element comes first. -/
theorem rdropWhile_cons_self (sep : α) (l : List α) : (sep :: l).rdropWhile (· == sep) =
    if l.rdropWhile (· == sep) = [] then [] else sep :: l.rdropWhile (· == sep) := by
  have happend := rdropWhile_append (· == sep) [sep] l
  rwa [List.rdropWhile_singleton, if_pos (beq_self_eq_true sep), List.singleton_append] at happend

/-- Dropping a separator from the beginning. -/
theorem dropWhile_cons_self (sep : α) (l : List α) :
    (sep :: l).dropWhile (· == sep) = l.dropWhile (· == sep) :=
  dropWhile_replicate_append sep 1 l

/-- The two ends are cut independently of each other. -/
theorem rdropWhile_dropWhile (sep : α) (l : List α) :
    (l.dropWhile (· == sep)).rdropWhile (· == sep) =
      (l.rdropWhile (· == sep)).dropWhile (· == sep) := by
  induction l with
  | nil => rfl
  | cons a l ih =>
    cases ha : a == sep with
    | true =>
      obtain rfl := eq_of_beq ha
      rw [dropWhile_cons_self, ih, rdropWhile_cons_self]
      split
      · next hnil => rw [hnil]
      · rw [dropWhile_cons_self]
    | false =>
      -- the first element stays, whatever is left of the rest
      have hkeep : ∀ k : List α, (a :: k).dropWhile (· == sep) = a :: k :=
        fun k => List.dropWhile_cons_of_neg (by simp [ha])
      have happend := rdropWhile_append (· == sep) [a] l
      rw [List.rdropWhile_singleton, ha, if_neg Bool.false_ne_true, List.singleton_append,
        List.singleton_append] at happend
      rw [hkeep, happend]
      split <;> exact (hkeep _).symm

/-- Joining nests. -/
theorem join_assoc (sep : α) (l l' l'' : List α) :
    join sep (join sep l l') l'' = join sep l (join sep l' l'') := by
  have hends := rdropWhile_dropWhile sep l'
  unfold join
  rw [rdropWhile_append, rdropWhile_cons_self, List.dropWhile_append, dropWhile_cons_self, ← hends,
    List.rdropWhile_idempotent]
  by_cases hnil : (l'.dropWhile (· == sep)).rdropWhile (· == sep) = []
  · simp only [hnil, if_true, List.isEmpty_nil, List.dropWhile_idempotent]
  · have hne : ((l'.dropWhile (· == sep)).rdropWhile (· == sep)).isEmpty = false := by
      rwa [← Bool.not_eq_true, List.isEmpty_iff]
    simp only [hnil, hne, if_false, Bool.false_eq_true, reduceCtorEq, List.append_assoc,
      List.cons_append]

end Fields
