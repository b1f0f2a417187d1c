import Styrolite.ForStd.Answers

/-!
# Rules about what is a process's own

Part of what a kernel keeps is private to a process (its credentials, its
descriptors, its signal dispositions) and copied when the process forks. Such a
state is a function of the process's own history. `LocalRules` gives the step of
the state and the answers allowed in it; `Kernel.withRules` adds the rules to a
kernel, and every history of a process is then `Lawful` (`Reachable.lawful`).
-/

/-- A state private to a process, and the answers that may be given in it. -/
structure LocalRules (I : Interface) (τ : Type) where
  allows : τ → (c : I.Call) → I.Answer c → Prop
  next : τ → (c : I.Call) → I.Answer c → τ

namespace LocalRules

variable {I : Interface} {τ : Type} (R : LocalRules I τ)

/-- The state after the calls of `h`. -/
def after (t : τ) (h : List I.Event) : τ := h.foldl (fun t e => R.next t e.call e.answer) t

@[simp] theorem after_nil (t : τ) : R.after t [] = t := rfl

@[simp] theorem after_cons (t : τ) (e : I.Event) (h : List I.Event) :
    R.after t (e :: h) = R.after (R.next t e.call e.answer) h := rfl

@[simp] theorem after_append (t : τ) (h₁ h₂ : List I.Event) :
    R.after t (h₁ ++ h₂) = R.after (R.after t h₁) h₂ := List.foldl_append

/-- Each answer of the history was allowed when it was given. -/
def Lawful (t : τ) (h : List I.Event) : Prop :=
  ∀ h₁ e h₂, h = h₁ ++ e :: h₂ → R.allows (R.after t h₁) e.call e.answer

theorem lawful_nil (t : τ) : R.Lawful t [] := fun h₁ _ _ heq => by simp at heq

variable {R} {t : τ}

theorem lawful_cons {e : I.Event} {h : List I.Event} :
    R.Lawful t (e :: h) ↔
      R.allows t e.call e.answer ∧ R.Lawful (R.next t e.call e.answer) h := by
  constructor
  · intro hl
    exact ⟨hl [] e h rfl, fun h₁ e' h₂ heq => hl (e :: h₁) e' h₂ (by rw [heq]; rfl)⟩
  · rintro ⟨he, hl⟩ h₁ e' h₂ heq
    cases h₁ with
    | nil => cases heq; exact he
    | cons e'' h₁ => cases heq; exact hl h₁ e' h₂ rfl

theorem lawful_append {h₁ h₂ : List I.Event} :
    R.Lawful t (h₁ ++ h₂) ↔ R.Lawful t h₁ ∧ R.Lawful (R.after t h₁) h₂ := by
  induction h₁ generalizing t with
  | nil => simp [R.lawful_nil]
  | cons e h₁ ih => rw [List.cons_append, lawful_cons, lawful_cons, ih, after_cons, and_assoc]

/-- A history of calls that leave the state alone does so too. -/
theorem after_eq_of_forall {h : List I.Event}
    (hh : ∀ e ∈ h, ∀ t, R.next t e.call e.answer = t) : R.after t h = t := by
  induction h with
  | nil => rfl
  | cons e h ih =>
    rw [after_cons, hh e List.mem_cons_self]
    exact ih fun e' he => hh e' (List.mem_cons_of_mem e he)

/-- A property of the state kept by each call that is allowed is kept by a lawful history. -/
theorem Lawful.preserves {J : τ → Prop} {S : I.Call → Prop}
    (hstep : ∀ t c a, S c → J t → R.allows t c a → J (R.next t c a)) {h : List I.Event}
    (hl : R.Lawful t h) (hS : ∀ e ∈ h, S e.call) (ht : J t) : J (R.after t h) := by
  induction h generalizing t with
  | nil => exact ht
  | cons e h ih =>
    obtain ⟨he, hl⟩ := lawful_cons.1 hl
    exact ih hl (fun e' he' => hS e' (List.mem_cons_of_mem e he'))
      (hstep t e.call e.answer (hS e List.mem_cons_self) ht he)

/-- Rules that go in step, over the events in `S`, allow the same history and lead to states that
    correspond. -/
theorem lawful_of_step {τ' : Type} (R : LocalRules I τ) (R' : LocalRules I τ') (f : τ → τ')
    {S : I.Event → Prop}
    (hallows : ∀ t c a, S ⟨c, a⟩ → (R'.allows (f t) c a ↔ R.allows t c a))
    (hnext : ∀ t c a, S ⟨c, a⟩ → R.allows t c a → R'.next (f t) c a = f (R.next t c a))
    {h : List I.Event} (hS : ∀ e ∈ h, S e) :
    (R'.Lawful (f t) h ↔ R.Lawful t h) ∧ (R.Lawful t h → R'.after (f t) h = f (R.after t h)) := by
  induction h generalizing t with
  | nil => exact ⟨⟨fun _ => R.lawful_nil t, fun _ => R'.lawful_nil (f t)⟩, fun _ => rfl⟩
  | cons e h ih =>
    -- The first event is allowed on both sides or on none, and the next states correspond
    have he : S e := hS e List.mem_cons_self
    have hrest := @ih (R.next t e.call e.answer) fun e' he' => hS e' (List.mem_cons_of_mem e he')
    constructor
    · rw [lawful_cons, lawful_cons, hallows t e.call e.answer he]
      constructor
      · rintro ⟨ha, hl⟩
        rw [hnext t e.call e.answer he ha] at hl
        exact ⟨ha, hrest.1.1 hl⟩
      · rintro ⟨ha, hl⟩
        rw [hnext t e.call e.answer he ha]
        exact ⟨ha, hrest.1.2 hl⟩
    · intro hl
      obtain ⟨ha, hl⟩ := lawful_cons.1 hl
      rw [after_cons, after_cons, hnext t e.call e.answer he ha]
      exact hrest.2 hl

/-- The answers of `success` where they are allowed, and of `refusal` elsewhere. -/
def obeying [∀ t c a, Decidable (R.allows t c a)] (t : τ) (success : (c : I.Call) → I.Answer c)
    (refusal : τ → (c : I.Call) → I.Answer c) : I.Answers := fun h c =>
  if R.allows (R.after t h) c (success c) then success c else refusal (R.after t h) c

theorem allows_obeying [∀ t c a, Decidable (R.allows t c a)] {success : (c : I.Call) → I.Answer c}
    {refusal : τ → (c : I.Call) → I.Answer c}
    (hrefusal : ∀ t c, ¬ R.allows t c (success c) → R.allows t c (refusal t c))
    (h : List I.Event) (c : I.Call) :
    R.allows (R.after t h) c (R.obeying t success refusal h c) := by
  unfold obeying
  split
  · assumption
  · next hno => exact hrefusal _ c hno

/-- A history with answers that obey the rules is lawful. -/
theorem lawful_of_follows {ω : I.Answers} (hω : ∀ h c, R.allows (R.after t h) c (ω h c))
    {h₀ h : List I.Event} (hf : Prog.Follows ω h₀ h) : R.Lawful (R.after t h₀) h := by
  intro h₁ e h₂ heq
  rw [← after_append, hf h₁ e h₂ heq]
  exact hω (h₀ ++ h₁) e.call

/-- Where each call may be answered, a program has a lawful run. -/
theorem exists_lawful_run {ε α : Type} (hanswer : ∀ t c, ∃ a, R.allows t c a) (p : Prog I ε α) :
    ∃ h r, R.Lawful t h ∧ p.Runs h r := by
  let ω : I.Answers := fun h c => Classical.choose (hanswer (R.after t h) c)
  have hω : ∀ h c, R.allows (R.after t h) c (ω h c) :=
    fun h c => Classical.choose_spec (hanswer (R.after t h) c)
  have hl : R.Lawful (R.after t []) (p.eval ω []).1 :=
    lawful_of_follows hω (p.eval_follows ω [])
  exact ⟨_, _, hl, p.eval_runs ω []⟩

end LocalRules

namespace Kernel

variable {I : Interface} {Pid σ τ ε α : Type} [DecidableEq Pid]

/-- The kernel with rules for a process whose private state starts as `t`. -/
def withRules (K : Kernel I Pid σ) (R : LocalRules I τ) (t : τ) : Kernel I Pid σ :=
  K.restrict fun _ _ h c a => R.allows (R.after t h) c a

variable {K : Kernel I Pid σ} {R : LocalRules I τ} {t : τ} {root : Pid} {p : Prog I ε α} {s : σ}
  {cfg : Config I Pid σ ε α}

/-- The history of every process is lawful, if any answer may be given to a new process. -/
theorem Reachable.lawful (hspawn : ∀ c a r b, K.spawn c a = some (r, b) → ∀ t, R.allows t c b)
    (hr : (K.withRules R t).Reachable root p s cfg) {pid : Pid} {h : List I.Event}
    {q : Prog I ε α} (hproc : cfg.procs pid = some ⟨h, q⟩) : R.Lawful t h := by
  intro h₁ e h₂ heq
  rcases Reachable.hist_allowed (A := fun h c a => R.allows (R.after t h) c a) hr hproc heq with
    ha | ⟨a, r, -, hs⟩
  · exact ha
  · exact hspawn _ _ _ _ hs _

/-- What runs under answers that obey the rules runs under the rules. -/
theorem Reachable.withRules_of_under {ω : I.Answers}
    (hω : ∀ h c, R.allows (R.after t h) c (ω h c))
    (hr : (K.under ω).Reachable root p s cfg) : (K.withRules R t).Reachable root p s cfg :=
  Reachable.restrict_mono K (fun _ _ h c a ha => by rw [ha]; exact hω h c) hr

end Kernel
