import Mathlib.Data.List.Induction
import Styrolite.ForStd.Process

/-!
# Processes that come and go

A history in which processes start, each with a job of its own, share the state
of a kernel while they run, and end at any time. A process that runs no job may
change the state as well, as far as the system allows it.

`Jobs.Reachable.invariant` proves a fact about each running process from four
lemmas: it holds at the start of the job, the process keeps it with its own
calls, and neither another process's calls nor a change from outside break it.
-/

open Prog

variable {I : Interface} {Pid J σ ε α : Type}

/-- The jobs of a system, the kernel they run on, and what else may happen. -/
structure Jobs (I : Interface) (Pid J σ ε α : Type) where
  kernel : Kernel I Pid σ
  prog : J → Prog I ε α
  /-- The jobs a process may start. -/
  admits : Pid → J → Prop
  /-- What happens to a process without a job. -/
  outside : Pid → σ → σ → Prop

namespace Jobs

/-- The running processes, each with its job, and the state they share. -/
structure World (I : Interface) (Pid J σ ε α : Type) where
  procs : Pid → Option (J × Process I ε α)
  state : σ

/-- No process runs. -/
def World.idle (s : σ) : World I Pid J σ ε α := ⟨fun _ => none, s⟩

variable [DecidableEq Pid] (S : Jobs I Pid J σ ε α)

inductive Step : World I Pid J σ ε α → World I Pid J σ ε α → Prop where
  | start {w : World I Pid J σ ε α} {pid : Pid} {j : J} (hfree : w.procs pid = none)
      (hadmits : S.admits pid j) :
      Step w { w with procs := Function.update w.procs pid (some (j, ⟨[], S.prog j⟩)) }
  | call {w : World I Pid J σ ε α} {pid : Pid} {j : J} {h : List I.Event} {c : I.Call}
      {k : I.Answer c → Prog I ε α} {a : I.Answer c}
      (hproc : w.procs pid = some (j, ⟨h, .call c k⟩))
      (hallows : S.kernel.allows w.state pid h c a) :
      Step w
        { procs := Function.update w.procs pid (some (j, ⟨h ++ [⟨c, a⟩], k a⟩))
          state := S.kernel.next w.state pid c a }
  | exit {w : World I Pid J σ ε α} (pid : Pid) :
      Step w { w with procs := Function.update w.procs pid none }
  | outside {w : World I Pid J σ ε α} {pid : Pid} {s : σ} (hfree : w.procs pid = none)
      (houtside : S.outside pid w.state s) : Step w { w with state := s }

/-- The worlds of the histories that start in the state `s₀`, where nothing runs. -/
def Reachable (s₀ : σ) (w : World I Pid J σ ε α) : Prop :=
  Relation.ReflTransGen S.Step (.idle s₀) w

variable {S} {s₀ : σ} {w : World I Pid J σ ε α}

/-- A running process was admitted, and its history is one of its job. -/
theorem Reachable.job (hr : S.Reachable s₀ w) {pid : Pid} {j : J} {p : Process I ε α}
    (hproc : w.procs pid = some (j, p)) : S.admits pid j ∧ (S.prog j).Reaches p.hist p.prog := by
  induction hr generalizing pid j p with
  | refl => cases hproc
  | tail _ hs ih =>
    cases hs with
    | @start q j' hfree hadmits =>
      dsimp only at hproc
      -- The process that has started, and those before
      by_cases hpq : pid = q
      · subst hpq
        rw [Function.update_self] at hproc
        cases hproc
        exact ⟨hadmits, .refl _⟩
      · exact ih (by rwa [Function.update_of_ne hpq] at hproc)
    | @call q j' h c k a hq hallows =>
      dsimp only at hproc
      -- The process that has made the call, and the others
      by_cases hpq : pid = q
      · subst hpq
        rw [Function.update_self] at hproc
        cases hproc
        exact ⟨(ih hq).1, (ih hq).2.snoc a⟩
      · exact ih (by rwa [Function.update_of_ne hpq] at hproc)
    | exit q =>
      dsimp only at hproc
      by_cases hpq : pid = q
      · subst hpq
        rw [Function.update_self] at hproc
        cases hproc
      · exact ih (by rwa [Function.update_of_ne hpq] at hproc)
    | outside hfree houtside => exact ih hproc

/-- What each running process keeps to, whatever the others do. -/
theorem Reachable.invariant {Φ : Pid → J → List I.Event → σ → Prop}
    (hstart : ∀ pid j s, S.admits pid j → Φ pid j [] s)
    (hself : ∀ pid j h c k s a, S.admits pid j → (S.prog j).Reaches h (.call c k) → Φ pid j h s →
      S.kernel.allows s pid h c a → Φ pid j (h ++ [⟨c, a⟩]) (S.kernel.next s pid c a))
    (hother : ∀ pid j h s q j' h' c k a, pid ≠ q → Φ pid j h s → S.admits q j' →
      (S.prog j').Reaches h' (.call c k) → Φ q j' h' s → S.kernel.allows s q h' c a →
      Φ pid j h (S.kernel.next s q c a))
    (hout : ∀ pid j h s s' q, pid ≠ q → Φ pid j h s → S.outside q s s' → Φ pid j h s')
    (hr : S.Reachable s₀ w) {pid : Pid} {j : J} {p : Process I ε α}
    (hproc : w.procs pid = some (j, p)) : Φ pid j p.hist w.state := by
  induction hr generalizing pid j p with
  | refl => cases hproc
  | tail hr hs ih =>
    cases hs with
    | @start q j' hfree hadmits =>
      dsimp only at hproc
      by_cases hpq : pid = q
      · subst hpq
        rw [Function.update_self] at hproc
        cases hproc
        exact hstart pid j _ hadmits
      · exact ih (by rwa [Function.update_of_ne hpq] at hproc)
    | @call q j' h c k a hq hallows =>
      dsimp only at hproc
      obtain ⟨hadmits, hreach⟩ := Reachable.job hr hq
      by_cases hpq : pid = q
      · subst hpq
        rw [Function.update_self] at hproc
        cases hproc
        exact hself pid j h c k _ a hadmits hreach (ih hq) hallows
      · refine hother pid j p.hist _ q j' h c k a hpq (ih ?_) hadmits hreach (ih hq) hallows
        rwa [Function.update_of_ne hpq] at hproc
    | exit q =>
      dsimp only at hproc
      by_cases hpq : pid = q
      · subst hpq
        rw [Function.update_self] at hproc
        cases hproc
      · exact ih (by rwa [Function.update_of_ne hpq] at hproc)
    | @outside q s hfree houtside =>
      refine hout pid j p.hist _ _ q ?_ (ih hproc) houtside
      -- the process outside runs no job
      rintro rfl
      rw [hfree] at hproc
      cases hproc

/-- A process that is free can do any run of a job whose answers are allowed, while the others
    wait. -/
theorem Reachable.run (hr : S.Reachable s₀ w) {pid : Pid} {j : J} {h : List I.Event}
    {q : Prog I ε α} (hfree : w.procs pid = none) (hadmits : S.admits pid j)
    (hreach : (S.prog j).Reaches h q) (hlawful : S.kernel.Lawful w.state pid h) :
    S.Reachable s₀
      { procs := Function.update w.procs pid (some (j, ⟨h, q⟩))
        state := S.kernel.after w.state pid h } := by
  induction h using List.reverseRecOn generalizing q with
  | nil =>
    obtain rfl := hreach.unique (.refl _)
    exact hr.tail (.start hfree hadmits)
  | append_singleton h e ih =>
    obtain ⟨s, hbefore, hlast⟩ := hreach.split
    cases hlast with
    | call hend =>
      obtain rfl := hend.unique (.refl _)
      have hstep := (ih hbefore hlawful.left).tail
        (.call (Function.update_self _ _ _) (hlawful h _ [] rfl))
      simpa [Reachable] using hstep

end Jobs
