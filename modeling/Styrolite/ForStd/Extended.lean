import Styrolite.ForStd.Process

/-!
# Kernels with more state

`Kernel.extend` gives a kernel a second part of its state, which sees the first and
has its own say in what is allowed. The first part goes on as without it.
-/

namespace Kernel

variable {I : Interface} {Pid σ τ : Type}

/-- The kernel with a second part of the state. -/
def extend (K : Kernel I Pid σ) (A : σ → τ → Pid → (c : I.Call) → I.Answer c → Prop)
    (N : σ → τ → Pid → (c : I.Call) → I.Answer c → τ) : Kernel I Pid (σ × τ) where
  allows s pid h c a := K.allows s.1 pid h c a ∧ A s.1 s.2 pid c a
  next s pid c a := (K.next s.1 pid c a, N s.1 s.2 pid c a)
  spawn := K.spawn

variable {K : Kernel I Pid σ} {A : σ → τ → Pid → (c : I.Call) → I.Answer c → Prop}
  {N : σ → τ → Pid → (c : I.Call) → I.Answer c → τ}

@[simp] theorem extend_after_fst (s : σ × τ) (pid : Pid) (h : List I.Event) :
    ((K.extend A N).after s pid h).1 = K.after s.1 pid h := by
  induction h generalizing s with
  | nil => rfl
  | cons e h ih => exact ih _

/-- What comes later in a history was allowed as well, if the kernel does not look at histories. -/
theorem Lawful.right {s : σ} {pid : Pid} {h₁ h₂ : List I.Event}
    (hhist : ∀ {s h h' c a}, K.allows s pid h c a → K.allows s pid h' c a)
    (hl : K.Lawful s pid (h₁ ++ h₂)) : K.Lawful (K.after s pid h₁) pid h₂ := by
  intro h₃ e h₄ heq
  rw [← K.after_append]
  exact hhist (hl (h₁ ++ h₃) e h₄ (by rw [heq, List.append_assoc]))

theorem Lawful.cons {s : σ} {pid : Pid} {e : I.Event} {h : List I.Event}
    (hhist : ∀ {s h h' c a}, K.allows s pid h c a → K.allows s pid h' c a)
    (ha : K.allows s pid [] e.call e.answer)
    (hl : K.Lawful (K.next s pid e.call e.answer) pid h) : K.Lawful s pid (e :: h) := by
  intro h₁ e' h₂ heq
  cases h₁ with
  | nil =>
    cases heq
    exact ha
  | cons e'' h₁ =>
    cases heq
    exact hhist (hl h₁ e' h₂ rfl)

end Kernel
