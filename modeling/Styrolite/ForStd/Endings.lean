import Styrolite.ForStd.Prog

/-!
# How programs end

`p.Closes S`: if `p` ends with a value, its last event is in `S`. A program that
ends with no value closes with anything. `p.Lasts S`: once a call in `S` has been
answered, whatever the answer, `p` has ended.
-/

namespace Prog

variable {I : Interface} {ε ε' α β : Type} {S : I.Event → Prop}

/-- A value comes only after a last event in `S`. -/
def Closes (S : I.Event → Prop) (p : Prog I ε α) : Prop :=
  ∀ h a, p.Runs h (.ok a) → ∃ h' e, h = h' ++ [e] ∧ S e

namespace Closes

theorem fail (e : ε) : (Prog.fail e : Prog I ε α).Closes S :=
  fun _ _ hr => by cases (runs_fail.1 hr).2

theorem halt (n : Int) : (Prog.halt n : Prog I ε α).Closes S :=
  fun _ _ hr => by cases (runs_halt.1 hr).2

theorem bind {p : Prog I ε α} {f : α → Prog I ε β} (hf : ∀ a, (f a).Closes S) :
    (p >>= f).Closes S := by
  intro h b hr
  obtain ⟨a, h₁, h₂, -, hb, rfl⟩ := runs_bind_ok.1 hr
  obtain ⟨h', e, rfl, he⟩ := hf a h₂ b hb
  exact ⟨h₁ ++ h', e, (List.append_assoc _ _ _).symm, he⟩

/-- One call, and what is done with its answer without another. -/
theorem sys_bind {c : I.Call} {k : I.Answer c → Prog I ε β}
    (hk : ∀ a h b, (k a).Runs h (.ok b) → h = [] ∧ S ⟨c, a⟩) : (sys c >>= k).Closes S := by
  intro h b hr
  obtain ⟨a, h', rfl, hb⟩ := runs_call.1 hr
  obtain ⟨rfl, hS⟩ := hk a h' b hb
  exact ⟨[], _, rfl, hS⟩

end Closes

/-- After a call in `S` the program has ended. -/
def Lasts (S : I.Call → Prop) (p : Prog I ε α) : Prop :=
  ∀ h e h' q, p.Reaches (h ++ e :: h') q → S e.call → h' = [] ∧ ∃ r, q = .done r

namespace Lasts

variable {S : I.Call → Prop}

/-- The last call, of which the answer decides how the program ends. -/
theorem call {c : I.Call} {k : I.Answer c → Prog I ε α} (hk : ∀ a, ∃ r, k a = .done r) :
    (Prog.call c k).Lasts S := by
  intro h e h' q hr _
  rcases reaches_call.1 hr with ⟨hnil, -⟩ | ⟨a, h₁, heq, hr₁⟩
  · simp at hnil
  · obtain ⟨r, hdone⟩ := hk a
    rw [hdone] at hr₁
    obtain ⟨rfl, rfl⟩ := reaches_done.1 hr₁
    have hlen := congrArg List.length heq
    simp only [List.length_append, List.length_cons, List.length_nil] at hlen
    exact ⟨List.length_eq_zero_iff.1 (by omega), r, rfl⟩

theorem bind {p : Prog I ε α} {f : α → Prog I ε β} (hp : p.Uses fun c => ¬ S c)
    (hf : ∀ a, (f a).Lasts S) : (p >>= f).Lasts S := by
  intro h e h' q hr he
  have hnot : ∀ {h₁ q'}, p.Reaches h₁ q' → e ∉ h₁ := fun hr₁ hin => hp.mem hr₁ hin he
  rcases reaches_bind.1 hr with ⟨p', hp', -⟩ | ⟨a, h₁, h₂, hp', hf', heq⟩
  · exact absurd (List.mem_append_right h List.mem_cons_self) (hnot hp')
  · rcases List.append_eq_append_iff.1 heq with ⟨l, rfl, hl⟩ | ⟨l, rfl, rfl⟩
    · -- the call would be one of `p`, or `f` begins with it
      cases l with
      | nil =>
        rw [List.nil_append] at hl
        exact hf a [] e h' q (hl ▸ hf') he
      | cons e' l =>
        cases hl
        exact absurd (List.mem_append_right h List.mem_cons_self) (hnot hp')
    · exact hf a l e h' q hf' he

/-- Of the calls in `S` there is then only one. -/
theorem not_before {p q : Prog I ε α} {h h' : List I.Event} {e : I.Event} (hp : p.Lasts S)
    (hr : p.Reaches (h ++ e :: h') q) : ∀ e' ∈ h, ¬ S e'.call := by
  intro e' he' hin
  obtain ⟨h₁, h₂, rfl⟩ := List.append_of_mem he'
  rw [List.append_assoc, List.cons_append] at hr
  have hnil := (hp h₁ e' (h₂ ++ e :: h') q hr hin).1
  simp at hnil

end Lasts

/-- A run ends in the first part, if that has no value, or in the second. -/
theorem runs_bind_cases {p : Prog I ε α} {f : α → Prog I ε β} {h : List I.Event}
    {r : Outcome ε β} (hr : (p >>= f).Runs h r) :
    (∃ e, r = .err e ∧ p.Runs h (.err e)) ∨ (∃ n, r = .halt n ∧ p.Runs h (.halt n)) ∨
      ∃ a h₁ h₂, p.Runs h₁ (.ok a) ∧ (f a).Runs h₂ r ∧ h = h₁ ++ h₂ := by
  rcases reaches_bind.1 hr with ⟨p', hp', heq⟩ | hr
  · cases p' with
    | done s =>
      cases s with
      | ok a =>
        rw [ok_bind] at heq
        exact .inr (.inr ⟨a, h, [], hp', heq ▸ .refl _, (List.append_nil h).symm⟩)
      | err e =>
        cases heq
        exact .inl ⟨e, rfl, hp'⟩
      | halt n =>
        cases heq
        exact .inr (.inl ⟨n, rfl, hp'⟩)
    | call c k => cases heq
  · exact .inr (.inr hr)

/-- A run that ends the process ends it in the first part, or in the second. -/
theorem runs_bind_halt {p : Prog I ε α} {f : α → Prog I ε β} {h : List I.Event} {n : Int} :
    (p >>= f).Runs h (.halt n) ↔ p.Runs h (.halt n) ∨
      ∃ a h₁ h₂, p.Runs h₁ (.ok a) ∧ (f a).Runs h₂ (.halt n) ∧ h = h₁ ++ h₂ := by
  constructor
  · intro hr
    rcases runs_bind_cases hr with ⟨e, heq, -⟩ | ⟨m, heq, hp⟩ | hr
    · cases heq
    · cases heq
      exact .inl hp
    · exact .inr hr
  · rintro (hp | ⟨a, h₁, h₂, hp, hf, rfl⟩)
    · exact reaches_bind.2 (.inl ⟨_, hp, rfl⟩)
    · exact reaches_bind.2 (.inr ⟨a, h₁, h₂, hp, hf, rfl⟩)

/-- Only what comes after `p` can have ended the process. -/
theorem Returns.runs_bind_halt {p : Prog I ε α} {f : α → Prog I ε β} {h : List I.Event} {n : Int}
    (hp : p.Returns) (hr : (p >>= f).Runs h (.halt n)) :
    ∃ a h₁ h₂, p.Runs h₁ (.ok a) ∧ (f a).Runs h₂ (.halt n) ∧ h = h₁ ++ h₂ :=
  (Prog.runs_bind_halt.1 hr).resolve_left (hp h n)

end Prog
