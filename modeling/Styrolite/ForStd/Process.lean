import Mathlib.Logic.Relation
import Mathlib.Logic.Function.Basic
import Styrolite.ForStd.Prog

/-!
# Interleaved processes over a shared kernel

A `Kernel` says which answers it may give to a call, how its state changes with
the answer, and which answers start a second process (as `fork` does): the copy
resumes the same program with an answer of its own. A `Config` is a table of
processes, each with its own history, over one kernel state; a step lets any
process make its next call. Every interleaving is a path of `Kernel.Step`.

The second half treats the common case of a program that forks at one place
only. Every reachable configuration is then either the root process alone or
two processes which share the history up to the fork (`reachable_cases`), and an
invariant of the pair is proved from one lemma for each of the two processes.
-/

/-- What the environment of the processes may do. -/
structure Kernel (I : Interface) (Pid σ : Type) where
  /-- The answers the kernel may give to a process with the given history. -/
  allows : σ → Pid → List I.Event → (c : I.Call) → I.Answer c → Prop
  /-- The state after the answer. -/
  next : σ → Pid → (c : I.Call) → I.Answer c → σ
  /-- The process an answer starts, and the answer that one resumes with. -/
  spawn : (c : I.Call) → I.Answer c → Option (Pid × I.Answer c)

/-- A running process: what it has done and what is left to do. -/
structure Process (I : Interface) (ε α : Type) where
  hist : List I.Event
  prog : Prog I ε α

/-- The processes, the kernel state and the calls answered so far, oldest first. -/
structure Config (I : Interface) (Pid σ ε α : Type) where
  procs : Pid → Option (Process I ε α)
  state : σ
  trace : List (Pid × I.Event)

variable {I : Interface} {Pid σ ε α : Type}

/-- One process `root` at the start of the program `p`. -/
def Config.start [DecidableEq Pid] (root : Pid) (p : Prog I ε α) (s : σ) : Config I Pid σ ε α where
  procs := Function.update (fun _ => none) root (some ⟨[], p⟩)
  state := s
  trace := []

/-- Where there are two processes, every process is one of them. -/
theorem Config.proc_cases {cfg : Config I Pid σ ε α} {q r pid : Pid} {Q R P : Process I ε α}
    (hq : cfg.procs q = some Q) (hr : cfg.procs r = some R)
    (hothers : ∀ p, p ≠ q → p ≠ r → cfg.procs p = none) (hP : cfg.procs pid = some P) :
    (pid = q ∧ P = Q) ∨ (pid ≠ q ∧ pid = r ∧ P = R) := by
  by_cases hpq : pid = q
  · subst hpq
    exact .inl ⟨rfl, Option.some.inj (hP.symm.trans hq)⟩
  · by_cases hpr : pid = r
    · subst hpr
      exact .inr ⟨hpq, rfl, Option.some.inj (hP.symm.trans hr)⟩
    · rw [hothers pid hpq hpr] at hP
      cases hP

namespace Kernel

variable (K : Kernel I Pid σ)

/-- One process makes its next call. -/
inductive Step [DecidableEq Pid] : Config I Pid σ ε α → Config I Pid σ ε α → Prop where
  | call {cfg : Config I Pid σ ε α} {pid : Pid} {h : List I.Event} {c : I.Call}
      {k : I.Answer c → Prog I ε α} {a : I.Answer c}
      (hproc : cfg.procs pid = some ⟨h, .call c k⟩)
      (hallows : K.allows cfg.state pid h c a) (hspawn : K.spawn c a = none) :
      Step cfg
        { procs := Function.update cfg.procs pid (some ⟨h ++ [⟨c, a⟩], k a⟩)
          state := K.next cfg.state pid c a
          trace := cfg.trace ++ [(pid, ⟨c, a⟩)] }
  | spawn {cfg : Config I Pid σ ε α} {pid q : Pid} {h : List I.Event} {c : I.Call}
      {k : I.Answer c → Prog I ε α} {a b : I.Answer c}
      (hproc : cfg.procs pid = some ⟨h, .call c k⟩)
      (hallows : K.allows cfg.state pid h c a) (hspawn : K.spawn c a = some (q, b))
      (hfresh : cfg.procs q = none) :
      Step cfg
        { procs := Function.update
            (Function.update cfg.procs pid (some ⟨h ++ [⟨c, a⟩], k a⟩))
            q (some ⟨h ++ [⟨c, b⟩], k b⟩)
          state := K.next cfg.state pid c a
          trace := cfg.trace ++ [(pid, ⟨c, a⟩), (q, ⟨c, b⟩)] }

/-- `K.Reachable root p s cfg`: `cfg` occurs in some run of `p` by `root` from the state `s`. -/
def Reachable [DecidableEq Pid] (root : Pid) (p : Prog I ε α) (s : σ) (cfg : Config I Pid σ ε α) : Prop :=
  Relation.ReflTransGen (K.Step (ε := ε) (α := α)) (Config.start root p s) cfg

/-- The kernel state after one process alone has made the calls of `h`. -/
def after (s : σ) (pid : Pid) (h : List I.Event) : σ :=
  h.foldl (fun s e => K.next s pid e.call e.answer) s

/-- No event leaves the state. -/
@[simp] theorem after_nil (s : σ) (pid : Pid) : K.after s pid [] = s := rfl

/-- One history after another. -/
@[simp] theorem after_append (s : σ) (pid : Pid) (h₁ h₂ : List I.Event) :
    K.after s pid (h₁ ++ h₂) = K.after (K.after s pid h₁) pid h₂ := List.foldl_append

/-- The first event, and then the rest. -/
@[simp] theorem after_cons (s : σ) (pid : Pid) (e : I.Event) (h : List I.Event) :
    K.after s pid (e :: h) = K.after (K.next s pid e.call e.answer) pid h := rfl

/-- The same kernel, giving only the answers in `A`. -/
def restrict (A : σ → Pid → List I.Event → (c : I.Call) → I.Answer c → Prop) :
    Kernel I Pid σ :=
  { K with allows := fun s pid h c a => K.allows s pid h c a ∧ A s pid h c a }

/-- A step under a restriction is a step. -/
theorem Step.of_restrict [DecidableEq Pid]
    {A : σ → Pid → List I.Event → (c : I.Call) → I.Answer c → Prop}
    {cfg cfg' : Config I Pid σ ε α} (hs : (K.restrict A).Step cfg cfg') :
    K.Step cfg cfg' := by
  cases hs with
  | call hproc hallows hspawn => exact .call hproc hallows.1 hspawn
  | spawn hproc hallows hspawn hfresh => exact .spawn hproc hallows.1 hspawn hfresh

/-- A run of the restricted kernel is a run of the kernel. -/
theorem Reachable.of_restrict [DecidableEq Pid]
    {A : σ → Pid → List I.Event → (c : I.Call) → I.Answer c → Prop} {root : Pid}
    {p : Prog I ε α} {s : σ} {cfg : Config I Pid σ ε α}
    (hr : (K.restrict A).Reachable root p s cfg) : K.Reachable root p s cfg := by
  induction hr with
  | refl => exact .refl
  | tail _ hs ih => exact ih.tail (hs.of_restrict K)

/-- A step under a restriction is one under a weaker restriction. -/
theorem Step.restrict_mono [DecidableEq Pid]
    {A B : σ → Pid → List I.Event → (c : I.Call) → I.Answer c → Prop}
    (hAB : ∀ s pid h c a, A s pid h c a → B s pid h c a) {cfg cfg' : Config I Pid σ ε α}
    (hs : (K.restrict A).Step cfg cfg') : (K.restrict B).Step cfg cfg' := by
  cases hs with
  | call hproc hallows hspawn =>
    exact Step.call (K := K.restrict B) hproc ⟨hallows.1, hAB _ _ _ _ _ hallows.2⟩ hspawn
  | spawn hproc hallows hspawn hfresh =>
    exact Step.spawn (K := K.restrict B) hproc ⟨hallows.1, hAB _ _ _ _ _ hallows.2⟩ hspawn hfresh

/-- A run of a kernel restricted more is one of the kernel restricted less. -/
theorem Reachable.restrict_mono [DecidableEq Pid]
    {A B : σ → Pid → List I.Event → (c : I.Call) → I.Answer c → Prop}
    (hAB : ∀ s pid h c a, A s pid h c a → B s pid h c a) {root : Pid} {p : Prog I ε α} {s : σ}
    {cfg : Config I Pid σ ε α} (hr : (K.restrict A).Reachable root p s cfg) :
    (K.restrict B).Reachable root p s cfg := by
  induction hr with
  | refl => exact .refl
  | tail _ hs ih => exact ih.tail (hs.restrict_mono K hAB)

/-- A run of a restricted kernel is one of another restriction that allows, in every
    configuration of such runs, the answers given there. -/
theorem Reachable.restrict_of [DecidableEq Pid]
    {A B : σ → Pid → List I.Event → (c : I.Call) → I.Answer c → Prop} {root : Pid}
    {p : Prog I ε α} {s : σ}
    (hAB : ∀ (cfg : Config I Pid σ ε α) pid h c k a, (K.restrict A).Reachable root p s cfg →
      cfg.procs pid = some ⟨h, .call c k⟩ → A cfg.state pid h c a → B cfg.state pid h c a)
    {cfg : Config I Pid σ ε α} (hr : (K.restrict A).Reachable root p s cfg) :
    (K.restrict B).Reachable root p s cfg := by
  -- Step by step: each answer that `A` allows here is one that `B` allows
  induction hr with
  | refl => exact .refl
  | tail hr hs ih =>
    refine ih.tail ?_
    cases hs with
    | call hproc hallows hspawn =>
      exact Step.call (K := K.restrict B) hproc ⟨hallows.1, hAB _ _ _ _ _ _ hr hproc hallows.2⟩ hspawn
    | spawn hproc hallows hspawn hfresh =>
      exact Step.spawn (K := K.restrict B) hproc
        ⟨hallows.1, hAB _ _ _ _ _ _ hr hproc hallows.2⟩ hspawn hfresh

/-- What holds of every answer allowed in a reachable configuration holds of every event of the
    trace, but for the answers given to new processes. -/
theorem Reachable.trace_of [DecidableEq Pid] {K : Kernel I Pid σ} {root : Pid} {p : Prog I ε α}
    {s : σ} {Φ : Pid → I.Event → Prop}
    (hΦ : ∀ (cfg : Config I Pid σ ε α) pid h c k a, K.Reachable root p s cfg →
      cfg.procs pid = some ⟨h, .call c k⟩ → K.allows cfg.state pid h c a → Φ pid ⟨c, a⟩)
    {cfg : Config I Pid σ ε α} (hr : K.Reachable root p s cfg) {pid : Pid} {e : I.Event}
    (he : (pid, e) ∈ cfg.trace) : Φ pid e ∨ ∃ a r, K.spawn e.call a = some (r, e.answer) := by
  induction hr with
  | refl => exact absurd he List.not_mem_nil
  | tail hr hs ih =>
    cases hs with
    | call hproc hallows _ =>
      rcases List.mem_append.1 he with he | he
      · exact ih he
      · cases List.mem_singleton.1 he
        exact .inl (hΦ _ _ _ _ _ _ hr hproc hallows)
    | spawn hproc hallows hspawn _ =>
      rcases List.mem_append.1 he with he | he
      · exact ih he
      · -- The parent's event and the child's
        rcases List.mem_cons.1 he with he | he
        · cases he
          exact .inl (hΦ _ _ _ _ _ _ hr hproc hallows)
        · cases List.mem_singleton.1 he
          exact .inr ⟨_, _, hspawn⟩

/-- Every answer in the trace was one the kernel allowed, or was given to a new process. -/
theorem Reachable.trace_allowed [DecidableEq Pid] {K : Kernel I Pid σ} {root : Pid}
    {p : Prog I ε α} {s : σ} {cfg : Config I Pid σ ε α} (hr : K.Reachable root p s cfg) {pid : Pid}
    {e : I.Event} (he : (pid, e) ∈ cfg.trace) :
    (∃ s h, K.allows s pid h e.call e.answer) ∨
      ∃ a r, K.spawn e.call a = some (r, e.answer) :=
  Reachable.trace_of (Φ := fun pid e => ∃ s h, K.allows s pid h e.call e.answer)
    (fun cfg _ h _ _ _ _ _ hallows => ⟨cfg.state, h, hallows⟩) hr he

/-- Every process runs the root's program: its history takes the program to what is left. -/
theorem Reachable.reaches [DecidableEq Pid] {K : Kernel I Pid σ} {root : Pid} {p : Prog I ε α}
    {s : σ} {cfg : Config I Pid σ ε α} (hr : K.Reachable root p s cfg) {pid : Pid}
    {h : List I.Event} {q : Prog I ε α} (hproc : cfg.procs pid = some ⟨h, q⟩) :
    p.Reaches h q := by
  induction hr generalizing pid h q with
  | refl =>
    by_cases hpid : pid = root
    · subst hpid
      simp only [Config.start, Function.update_self, Option.some.injEq, Process.mk.injEq] at hproc
      obtain ⟨rfl, rfl⟩ := hproc
      exact .refl p
    · simp [Config.start, hpid] at hproc
  | tail _ hstep ih =>
    cases hstep with
    | @call pid' h' c k a hproc' _ _ =>
      -- Only the process that makes the call goes on
      by_cases hpid : pid = pid'
      · subst hpid
        simp only [Function.update_self, Option.some.injEq, Process.mk.injEq] at hproc
        obtain ⟨rfl, rfl⟩ := hproc
        exact (ih hproc').snoc a
      · exact ih ((Function.update_of_ne hpid _ _).symm.trans hproc)
    | @spawn pid' q' h' c k a b hproc' _ _ _ =>
      by_cases hq : pid = q'
      · -- the new process has the history of its parent, with an answer of its own
        subst hq
        simp only [Function.update_self, Option.some.injEq, Process.mk.injEq] at hproc
        obtain ⟨rfl, rfl⟩ := hproc
        exact (ih hproc').snoc b
      · replace hproc := (Function.update_of_ne hq _ _).symm.trans hproc
        by_cases hpid : pid = pid'
        · subst hpid
          simp only [Function.update_self, Option.some.injEq, Process.mk.injEq] at hproc
          obtain ⟨rfl, rfl⟩ := hproc
          exact (ih hproc').snoc a
        · exact ih ((Function.update_of_ne hpid _ _).symm.trans hproc)

/-- A history with one more event, cut at an event: it is an old one, or the new one. -/
private theorem snoc_eq_split {h h₁ h₂ : List I.Event} {e e' : I.Event}
    (heq : h ++ [e'] = h₁ ++ e :: h₂) : (∃ h₃, h = h₁ ++ e :: h₃) ∨ (h = h₁ ∧ e' = e) := by
  rcases List.eq_nil_or_concat h₂ with rfl | ⟨h₃, e'', rfl⟩
  · obtain ⟨rfl, rfl⟩ := List.append_singleton_inj.1 heq
    exact .inr ⟨rfl, rfl⟩
  · rw [List.concat_eq_append, ← List.cons_append, ← List.append_assoc] at heq
    exact .inl ⟨h₃, (List.append_singleton_inj.1 heq).1⟩

/-- Under a restriction that looks at the caller's history only, each answer in a history
    obeys it, or was given to a new process. -/
theorem Reachable.hist_allowed [DecidableEq Pid] {K : Kernel I Pid σ}
    {A : List I.Event → (c : I.Call) → I.Answer c → Prop} {root : Pid} {p : Prog I ε α} {s : σ}
    {cfg : Config I Pid σ ε α}
    (hr : (K.restrict fun _ _ h c a => A h c a).Reachable root p s cfg) {pid : Pid}
    {h : List I.Event} {q : Prog I ε α} (hproc : cfg.procs pid = some ⟨h, q⟩)
    {h₁ h₂ : List I.Event} {e : I.Event} (heq : h = h₁ ++ e :: h₂) :
    A h₁ e.call e.answer ∨
      ∃ a r, A h₁ e.call a ∧ K.spawn e.call a = some (r, e.answer) := by
  induction hr generalizing pid h q h₁ e h₂ with
  | refl =>
    by_cases hpid : pid = root
    · subst hpid
      simp only [Config.start, Function.update_self, Option.some.injEq, Process.mk.injEq] at hproc
      obtain ⟨rfl, -⟩ := hproc
      simp at heq
    · simp [Config.start, hpid] at hproc
  | tail _ hstep ih =>
    cases hstep with
    | @call pid' h' c k a hproc' hallows hspawn =>
      -- Only the caller's history has grown: the event is an old one or the last
      by_cases hpid : pid = pid'
      · subst hpid
        simp only [Function.update_self, Option.some.injEq, Process.mk.injEq] at hproc
        obtain ⟨rfl, -⟩ := hproc
        rcases snoc_eq_split heq with ⟨h₃, hold⟩ | ⟨rfl, rfl⟩
        · exact ih hproc' hold
        · exact .inl hallows.2
      · exact ih ((Function.update_of_ne hpid _ _).symm.trans hproc) heq
    | @spawn pid' q' h' c k a b hproc' hallows hspawn hfresh =>
      by_cases hq : pid = q'
      · -- The child has its parent's history, the last answer apart
        subst hq
        simp only [Function.update_self, Option.some.injEq, Process.mk.injEq] at hproc
        obtain ⟨rfl, -⟩ := hproc
        rcases snoc_eq_split heq with ⟨h₃, hold⟩ | ⟨rfl, rfl⟩
        · exact ih hproc' hold
        · exact .inr ⟨a, pid, hallows.2, hspawn⟩
      · -- Neither the parent nor the child has changed the history
        replace hproc := (Function.update_of_ne hq _ _).symm.trans hproc
        by_cases hpid : pid = pid'
        · subst hpid
          simp only [Function.update_self, Option.some.injEq, Process.mk.injEq] at hproc
          obtain ⟨rfl, -⟩ := hproc
          rcases snoc_eq_split heq with ⟨h₃, hold⟩ | ⟨rfl, rfl⟩
          · exact ih hproc' hold
          · exact .inl hallows.2
        · exact ih ((Function.update_of_ne hpid _ _).symm.trans hproc) heq

/-- A configuration in which no process is allowed its next call has no later one. -/
theorem eq_of_stuck [DecidableEq Pid] {K : Kernel I Pid σ} {cfg cfg' : Config I Pid σ ε α}
    (hstuck : ∀ pid h c k a, cfg.procs pid = some ⟨h, .call c k⟩ →
      ¬ K.allows cfg.state pid h c a)
    (hsteps : Relation.ReflTransGen (K.Step (ε := ε) (α := α)) cfg cfg') : cfg' = cfg := by
  rcases hsteps.cases_head with rfl | ⟨cfg₁, hstep, -⟩
  · rfl
  · cases hstep with
    | call hproc hallows _ => exact absurd hallows (hstuck _ _ _ _ _ hproc)
    | spawn hproc hallows _ _ => exact absurd hallows (hstuck _ _ _ _ _ hproc)

/-- Each answer of the history was allowed when it was given, `pid` being alone. -/
def Lawful (s : σ) (pid : Pid) (h : List I.Event) : Prop :=
  ∀ h₁ e h₂, h = h₁ ++ e :: h₂ → K.allows (K.after s pid h₁) pid h₁ e.call e.answer

/-- The empty history is lawful. -/
theorem lawful_nil (s : σ) (pid : Pid) : K.Lawful s pid [] :=
  fun h₁ _ _ heq => by simp at heq

variable {K} in
/-- A lawful history and one more event that is allowed after it. -/
theorem Lawful.snoc {s : σ} {pid : Pid} {h : List I.Event} {e : I.Event}
    (hl : K.Lawful s pid h) (he : K.allows (K.after s pid h) pid h e.call e.answer) :
    K.Lawful s pid (h ++ [e]) := by
  intro h₁ e' h₂ heq
  rcases List.eq_nil_or_concat h₂ with rfl | ⟨h₃, e'', rfl⟩
  · obtain ⟨rfl, rfl⟩ := List.append_singleton_inj.1 heq
    exact he
  · rw [List.concat_eq_append, ← List.cons_append, ← List.append_assoc] at heq
    exact hl h₁ e' h₃ (List.append_singleton_inj.1 heq).1

variable {K} in
/-- The first part of a lawful history is lawful. -/
theorem Lawful.left {s : σ} {pid : Pid} {h₁ h₂ : List I.Event}
    (hl : K.Lawful s pid (h₁ ++ h₂)) : K.Lawful s pid h₁ :=
  fun h₃ e h₄ heq => hl h₃ e (h₄ ++ h₂) (by rw [heq]; simp)

/-- The answers to `c` start no process. -/
def NoSpawn (c : I.Call) : Prop := ∀ a, K.spawn c a = none

/-! ## Programs that fork at one place -/

variable {K}

/-- Where and how the root process forked: after the history `hist` its program `pre` had
    the value `val`, and the call `c₀` was answered with `answer`, which started `child`. -/
structure ForkPoint (I : Interface) (Pid γ : Type) (c₀ : I.Call) where
  val : γ
  hist : List I.Event
  answer : I.Answer c₀
  child : Pid
  childAnswer : I.Answer c₀

namespace ForkPoint

variable {γ : Type} {c₀ : I.Call}

/-- The history of the root process that has made the calls of `h` since the fork. -/
def rootHist (f : ForkPoint I Pid γ c₀) (h : List I.Event) : List I.Event :=
  f.hist ++ ⟨c₀, f.answer⟩ :: h

/-- The history of the child that has made the calls of `h` since the fork. -/
def childHist (f : ForkPoint I Pid γ c₀) (h : List I.Event) : List I.Event :=
  f.hist ++ ⟨c₀, f.childAnswer⟩ :: h

/-- One more event of the first process. -/
@[simp] theorem rootHist_snoc (f : ForkPoint I Pid γ c₀) (h : List I.Event) (e : I.Event) :
    f.rootHist h ++ [e] = f.rootHist (h ++ [e]) := by
  simp [rootHist]

/-- One more event of the child. -/
@[simp] theorem childHist_snoc (f : ForkPoint I Pid γ c₀) (h : List I.Event) (e : I.Event) :
    f.childHist h ++ [e] = f.childHist (h ++ [e]) := by
  simp [childHist]

/-- The fork happened as the kernel allows, in a run of `pre` from the state `s`. -/
structure Valid (K : Kernel I Pid σ) (root : Pid) (s : σ) (pre : Prog I ε γ)
    (f : ForkPoint I Pid γ c₀) : Prop where
  runs : pre.Runs f.hist (.ok f.val)
  lawful : K.Lawful s root f.hist
  allows : K.allows (K.after s root f.hist) root f.hist c₀ f.answer
  spawn : K.spawn c₀ f.answer = some (f.child, f.childAnswer)
  ne : f.child ≠ root

/-- The kernel state right after the fork. -/
def state (K : Kernel I Pid σ) (root : Pid) (s : σ) (f : ForkPoint I Pid γ c₀) : σ :=
  K.next (K.after s root f.hist) root c₀ f.answer

end ForkPoint

section ForkOnce

variable {γ : Type} {root : Pid} {s₀ : σ} {pre : Prog I ε γ} {c₀ : I.Call}
  {body : γ → I.Answer c₀ → Prog I ε α}

/-- The root process is alone and has not forked. -/
structure Solo (K : Kernel I Pid σ) (root : Pid) (s₀ : σ) (p : Prog I ε α)
    (cfg : Config I Pid σ ε α) (h : List I.Event) (q : Prog I ε α) : Prop where
  proc : cfg.procs root = some ⟨h, q⟩
  others : ∀ r, r ≠ root → cfg.procs r = none
  reaches : p.Reaches h q
  noSpawn : ∀ e ∈ h, K.spawn e.call e.answer = none
  lawful : K.Lawful s₀ root h
  state : cfg.state = K.after s₀ root h
  trace : cfg.trace = h.map (Prod.mk root)

/-- The root process has forked at `f`; since then it has made the calls of `h₁` and its
    child those of `h₂`, and `p₁` and `p₂` are left to do. -/
structure Forked (root : Pid) (body : γ → I.Answer c₀ → Prog I ε α)
    (f : ForkPoint I Pid γ c₀) (cfg : Config I Pid σ ε α)
    (h₁ h₂ : List I.Event) (p₁ p₂ : Prog I ε α) : Prop where
  rootProc : cfg.procs root = some ⟨f.rootHist h₁, p₁⟩
  childProc : cfg.procs f.child = some ⟨f.childHist h₂, p₂⟩
  others : ∀ r, r ≠ root → r ≠ f.child → cfg.procs r = none
  rootReaches : (body f.val f.answer).Reaches h₁ p₁
  childReaches : (body f.val f.childAnswer).Reaches h₂ p₂
  trace : cfg.trace.Perm
    (f.hist.map (Prod.mk root) ++ (root, ⟨c₀, f.answer⟩) :: (f.child, ⟨c₀, f.childAnswer⟩) ::
      (h₁.map (Prod.mk root) ++ h₂.map (Prod.mk f.child)))

/-- A call that starts a process is the one between `pre` and the body. -/
private theorem at_fork (hpre : pre.Uses K.NoSpawn) (hbody : ∀ x a, (body x a).Uses K.NoSpawn)
    {h : List I.Event} {c : I.Call} {k : I.Answer c → Prog I ε α} {a : I.Answer c}
    {r : Pid × I.Answer c} (hspawn : K.spawn c a = some r)
    (hr : (pre >>= fun x => .call c₀ (body x)).Reaches h (.call c k)) :
    ∃ x, pre.Runs h (.ok x) ∧ Prog.call c k = .call c₀ (body x) := by
  have hnot : ¬ K.NoSpawn c := fun hno => by
    rw [hno a] at hspawn
    cases hspawn
  -- Before the call nothing has been spawned, so it is the fork itself
  rcases Prog.reaches_bind.1 hr with ⟨p', hp', heq⟩ | ⟨x, h₁, h₂, hx, hk, rfl⟩
  · cases p' with
    | done r =>
      cases r with
      | ok x => exact ⟨x, hp', heq⟩
      | err e => cases heq
      | halt n => cases heq
    | call d k' =>
      cases heq
      -- No call before it spawns
      exact absurd (hpre h c ⟨k', hp'⟩) hnot
  · rcases Prog.reaches_call.1 hk with ⟨rfl, heq⟩ | ⟨a', h₃, rfl, hk'⟩
    · exact ⟨x, by rwa [List.append_nil], heq⟩
    · -- Nor does one after it
      exact absurd (hbody x a' h₃ c ⟨k, hk'⟩) hnot

/-- A call after a history without a fork is one of `pre` or the fork, if a body that was
    given no child makes no call. -/
private theorem at_cases (hbody : ∀ s h x a, K.allows s root h c₀ a → K.spawn c₀ a = none →
      ∃ r, body x a = .done r)
    {h : List I.Event} {c : I.Call} (hno : ∀ e ∈ h, K.spawn e.call e.answer = none)
    (hl : K.Lawful s₀ root h) (hat : (pre >>= fun x => .call c₀ (body x)).At h c) :
    pre.At h c ∨ c = c₀ := by
  rcases Prog.at_bind.1 hat with hat | ⟨x, h₁, h₂, -, hat, heq⟩
  · exact .inl hat
  · rcases Prog.at_call.1 hat with ⟨-, rfl⟩ | ⟨a, h₃, rfl, hbat⟩
    · exact .inr rfl
    · obtain ⟨r, hr⟩ := hbody _ _ x a (hl _ _ _ heq) (hno ⟨c₀, a⟩ (by simp [heq]))
      rw [hr] at hbat
      exact absurd hbat Prog.at_done

/-- The root process alone is in `pre` or about to fork. -/
theorem Solo.at_cases (hbody : ∀ s h x a, K.allows s root h c₀ a → K.spawn c₀ a = none →
      ∃ r, body x a = .done r)
    {cfg : Config I Pid σ ε α} {h : List I.Event} {c : I.Call} {k : I.Answer c → Prog I ε α}
    (hsolo : Solo K root s₀ (pre >>= fun x => .call c₀ (body x)) cfg h (.call c k)) :
    pre.At h c ∨ c = c₀ :=
  Kernel.at_cases hbody hsolo.noSpawn hsolo.lawful ⟨k, hsolo.reaches⟩

/-- What the root process alone has done are calls of `pre` and attempts to fork. -/
theorem Solo.event_cases (hbody : ∀ s h x a, K.allows s root h c₀ a → K.spawn c₀ a = none →
      ∃ r, body x a = .done r)
    {cfg : Config I Pid σ ε α} {h : List I.Event} {q : Prog I ε α}
    (hsolo : Solo K root s₀ (pre >>= fun x => .call c₀ (body x)) cfg h q)
    {e : I.Event} (he : e ∈ h) : (∃ h', pre.At h' e.call) ∨ e.call = c₀ := by
  obtain ⟨h₁, h₂, rfl⟩ := List.append_of_mem he
  rcases Kernel.at_cases hbody (fun e' he' => hsolo.noSpawn e' (List.mem_append_left _ he'))
    (hsolo.lawful.left) hsolo.reaches.at_of_split with hat | heq
  · exact .inl ⟨h₁, hat⟩
  · exact .inr heq

/-- While there is one process, it is the one that is found. -/
theorem Solo.proc_eq {p : Prog I ε α} {cfg : Config I Pid σ ε α} {h : List I.Event}
    {q : Prog I ε α} (hsolo : Solo K root s₀ p cfg h q) {pid : Pid} {P : Process I ε α}
    (hP : cfg.procs pid = some P) : pid = root ∧ P = ⟨h, q⟩ := by
  obtain rfl : pid = root := by
    by_contra hne
    rw [hsolo.others pid hne] at hP
    cases hP
  exact ⟨rfl, Option.some.inj (hP.symm.trans hsolo.proc)⟩

variable [DecidableEq Pid]

/-- A step of the root process alone keeps it alone, or is the fork. -/
private theorem Solo.step (hpre : pre.Uses K.NoSpawn)
    (hbody : ∀ x a, (body x a).Uses K.NoSpawn) {cfg cfg' : Config I Pid σ ε α}
    {h : List I.Event} {q : Prog I ε α}
    (hsolo : Solo K root s₀ (pre >>= fun x => .call c₀ (body x)) cfg h q)
    (hstep : K.Step cfg cfg') :
    (∃ h' q', Solo K root s₀ (pre >>= fun x => .call c₀ (body x)) cfg' h' q') ∨
      ∃ f p₁ p₂, ForkPoint.Valid K root s₀ pre f ∧ Forked root body f cfg' [] [] p₁ p₂ ∧
        cfg'.state = f.state K root s₀ := by
  cases hstep with
  | @call pid h' c k a hproc hallows hspawn =>
    obtain ⟨rfl, heq⟩ := hsolo.proc_eq hproc
    cases heq
    rw [hsolo.state] at hallows
    -- The call spawns nothing, so the process stays alone
    refine .inl ⟨h ++ [⟨c, a⟩], k a, by simp, ?_, hsolo.reaches.snoc a, ?_,
      hsolo.lawful.snoc hallows, ?_, ?_⟩
    · intro r hne
      exact (Function.update_of_ne hne _ _).trans (hsolo.others r hne)
    · intro e he
      rcases List.mem_append.1 he with he | he
      · exact hsolo.noSpawn e he
      · rw [List.mem_singleton.1 he]; exact hspawn
    · simp [hsolo.state]
    · simp [hsolo.trace]
  | @spawn pid q' h' c k a b hproc hallows hspawn hfresh =>
    obtain ⟨rfl, heq⟩ := hsolo.proc_eq hproc
    cases heq
    -- The new process is another one, since its number was free
    have hne : q' ≠ pid := by
      rintro rfl
      rw [hproc] at hfresh
      cases hfresh
    -- `pre` and the bodies spawn nothing, so the call is the fork
    obtain ⟨x, hx, heq⟩ := at_fork hpre hbody hspawn hsolo.reaches
    cases heq
    rw [hsolo.state] at hallows
    refine .inr ⟨⟨x, h, a, q', b⟩, _, _, ⟨hx, hsolo.lawful, hallows, hspawn, hne⟩,
      ⟨?_, ?_, ?_, .refl _, .refl _, ?_⟩, by simp [ForkPoint.state, hsolo.state]⟩
    · simp [ForkPoint.rootHist, Ne.symm hne]
    · simp [ForkPoint.childHist]
    · intro r hr₁ hr₂
      dsimp only at hr₂ ⊢
      rw [Function.update_of_ne hr₂, Function.update_of_ne hr₁]
      exact hsolo.others r hr₁
    · simp [hsolo.trace]

/-- A step of the pair is a call of the root process or of the child. -/
private theorem Forked.step (hbody : ∀ x a, (body x a).Uses K.NoSpawn)
    {f : ForkPoint I Pid γ c₀} (hne : f.child ≠ root) {cfg cfg' : Config I Pid σ ε α}
    {h₁ h₂ : List I.Event} {p₁ p₂ : Prog I ε α}
    (hduo : Forked root body f cfg h₁ h₂ p₁ p₂) (hstep : K.Step cfg cfg') :
    (∃ c k a, p₁ = .call c k ∧ K.allows cfg.state root (f.rootHist h₁) c a ∧
        Forked root body f cfg' (h₁ ++ [⟨c, a⟩]) h₂ (k a) p₂ ∧
        cfg'.state = K.next cfg.state root c a) ∨
      ∃ c k a, p₂ = .call c k ∧ K.allows cfg.state f.child (f.childHist h₂) c a ∧
        Forked root body f cfg' h₁ (h₂ ++ [⟨c, a⟩]) p₁ (k a) ∧
        cfg'.state = K.next cfg.state f.child c a := by
  have hproc : ∀ {pid P}, cfg.procs pid = some P →
      (pid = root ∧ P = ⟨f.rootHist h₁, p₁⟩) ∨ (pid = f.child ∧ P = ⟨f.childHist h₂, p₂⟩) :=
    fun hP => (Config.proc_cases hduo.rootProc hduo.childProc hduo.others hP).imp_right And.right
  cases hstep with
  | @call pid h' c k a hP hallows hspawn =>
    rcases hproc hP with ⟨rfl, heq⟩ | ⟨rfl, heq⟩
    · -- The first process went on: its history and the trace have one more event
      cases heq
      refine .inl ⟨c, k, a, rfl, hallows,
        ⟨by simp, ?_, ?_, hduo.rootReaches.snoc a, hduo.childReaches, ?_⟩, rfl⟩
      · exact (Function.update_of_ne hne _ _).trans hduo.childProc
      · intro r hr₁ hr₂
        exact (Function.update_of_ne hr₁ _ _).trans (hduo.others r hr₁ hr₂)
      · refine (hduo.trace.append_right _).trans ?_
        simp only [List.map_append, List.map_cons, List.map_nil, List.append_assoc,
          List.cons_append]
        exact List.Perm.append_left _
          (.cons _ (.cons _ (List.Perm.append_left _ List.perm_append_comm)))
    · -- The child went on, at the end of the trace, too
      cases heq
      refine .inr ⟨c, k, a, rfl, hallows,
        ⟨?_, by simp, ?_, hduo.rootReaches, hduo.childReaches.snoc a, ?_⟩, rfl⟩
      · exact (Function.update_of_ne hne.symm _ _).trans hduo.rootProc
      · intro r hr₁ hr₂
        exact (Function.update_of_ne hr₂ _ _).trans (hduo.others r hr₁ hr₂)
      · refine (hduo.trace.append_right _).trans ?_
        simp
  | @spawn pid q' h' c k a b hP hallows hspawn hfresh =>
    -- neither process forks again
    have hno : K.NoSpawn c := by
      rcases hproc hP with ⟨-, heq⟩ | ⟨-, heq⟩
      · cases heq; exact hbody f.val f.answer h₁ c ⟨k, hduo.rootReaches⟩
      · cases heq; exact hbody f.val f.childAnswer h₂ c ⟨k, hduo.childReaches⟩
    rw [hno a] at hspawn
    cases hspawn

/-- Every reachable configuration of a program that forks at one place is the root process
    alone or the pair. `J` is any invariant of the pair: it holds right after the fork and
    is kept by each call of the root process and of the child. -/
theorem reachable_cases (J : ForkPoint I Pid γ c₀ → σ → List I.Event → List I.Event → Prop)
    (hpre : pre.Uses K.NoSpawn) (hbody : ∀ x a, (body x a).Uses K.NoSpawn)
    (hstart : ∀ f, f.Valid K root s₀ pre → J f (f.state K root s₀) [] [])
    (hroot : ∀ f s h₁ h₂ c a, f.Valid K root s₀ pre → J f s h₁ h₂ →
      (body f.val f.answer).At h₁ c → K.allows s root (f.rootHist h₁) c a →
      J f (K.next s root c a) (h₁ ++ [⟨c, a⟩]) h₂)
    (hchild : ∀ f s h₁ h₂ c a, f.Valid K root s₀ pre → J f s h₁ h₂ →
      (body f.val f.childAnswer).At h₂ c → K.allows s f.child (f.childHist h₂) c a →
      J f (K.next s f.child c a) h₁ (h₂ ++ [⟨c, a⟩]))
    {cfg : Config I Pid σ ε α}
    (hr : K.Reachable root (pre >>= fun x => .call c₀ (body x)) s₀ cfg) :
    (∃ h q, Solo K root s₀ (pre >>= fun x => .call c₀ (body x)) cfg h q) ∨
      ∃ f h₁ h₂ p₁ p₂, ForkPoint.Valid K root s₀ pre f ∧
        Forked root body f cfg h₁ h₂ p₁ p₂ ∧ J f cfg.state h₁ h₂ := by
  induction hr with
  | refl =>
    refine .inl ⟨[], _, by simp [Config.start], ?_, .refl _, by simp, K.lawful_nil _ _, rfl, rfl⟩
    intro r hne
    simp [Config.start, hne]
  | tail _ hstep ih =>
    -- Alone the process goes on or forks; of a pair either goes on and keeps `J`
    rcases ih with ⟨h, q, hsolo⟩ | ⟨f, h₁, h₂, p₁, p₂, hf, hduo, hJ⟩
    · rcases hsolo.step hpre hbody hstep with hs | ⟨f, p₁, p₂, hf, hduo, hst⟩
      · exact .inl hs
      · exact .inr ⟨f, [], [], p₁, p₂, hf, hduo, hst ▸ hstart f hf⟩
    · rcases hduo.step hbody hf.ne hstep with
        ⟨c, k, a, rfl, hallows, hduo', hst⟩ | ⟨c, k, a, rfl, hallows, hduo', hst⟩
      · exact .inr ⟨f, _, _, _, _, hf, hduo',
          hst ▸ hroot f _ h₁ h₂ c a hf hJ ⟨k, hduo.rootReaches⟩ hallows⟩
      · exact .inr ⟨f, _, _, _, _, hf, hduo',
          hst ▸ hchild f _ h₁ h₂ c a hf hJ ⟨k, hduo.childReaches⟩ hallows⟩

end ForkOnce

end Kernel
