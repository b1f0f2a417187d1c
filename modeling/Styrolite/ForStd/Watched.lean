import Styrolite.ForStd.Process

/-!
# Answers about other processes

What a process is told of another one, as `wait` tells it, depends on more than
the state of the kernel. In a run watched by `A`, each answer is one that `A` allows
in the configuration in which it is given (`Kernel.Watched`). What holds wherever
`A` allows an answer, and is not changed by later steps, then holds of every
configuration in which someone has had that answer (`Watched.of_answered`). That a
process has ended is such a fact (`Step.ended`).
-/

namespace Kernel

variable {I : Interface} {Pid σ ε α : Type} [DecidableEq Pid] {K : Kernel I Pid σ}
  {A : Config I Pid σ ε α → I.Event → Prop} {root : Pid} {p : Prog I ε α} {s : σ}
  {cfg cfg' : Config I Pid σ ε α}

/-- A step with an answer that `A` allows. -/
def WatchedStep (K : Kernel I Pid σ) (A : Config I Pid σ ε α → I.Event → Prop)
    (cfg cfg' : Config I Pid σ ε α) : Prop :=
  K.Step cfg cfg' ∧ ∃ pid e t, cfg'.trace = cfg.trace ++ (pid, e) :: t ∧ A cfg e

/-- `K.Watched A root p s cfg`: `cfg` occurs in a run with answers that `A` allows. -/
def Watched (K : Kernel I Pid σ) (A : Config I Pid σ ε α → I.Event → Prop) (root : Pid)
    (p : Prog I ε α) (s : σ) (cfg : Config I Pid σ ε α) : Prop :=
  Relation.ReflTransGen (K.WatchedStep A) (Config.start root p s) cfg

theorem Watched.reachable (hr : K.Watched A root p s cfg) : K.Reachable root p s cfg := by
  induction hr with
  | refl => exact .refl
  | tail _ hs ih => exact ih.tail hs.1

/-- One more call of one process. -/
theorem Watched.call (hr : K.Watched A root p s cfg) {pid : Pid} {h : List I.Event} {c : I.Call}
    {k : I.Answer c → Prog I ε α} {a : I.Answer c} (hproc : cfg.procs pid = some ⟨h, .call c k⟩)
    (hallows : K.allows cfg.state pid h c a) (hspawn : K.spawn c a = none) (hA : A cfg ⟨c, a⟩) :
    ∃ cfg', K.Watched A root p s cfg' ∧ cfg'.procs pid = some ⟨h ++ [⟨c, a⟩], k a⟩ ∧
      ∀ r, r ≠ pid → cfg'.procs r = cfg.procs r :=
  ⟨_, hr.tail ⟨.call hproc hallows hspawn, _, _, _, rfl, hA⟩, Function.update_self _ _ _,
    fun _ hne => Function.update_of_ne hne _ _⟩

/-- The calls of a history that may be answered so whatever the others do. -/
theorem Watched.calls (hr : K.Watched A root p s cfg) {pid : Pid} {h₀ h : List I.Event}
    {q q' : Prog I ε α} (hproc : cfg.procs pid = some ⟨h₀, q⟩) (hq : q.Reaches h q')
    (hallows : ∀ e ∈ h, ∀ s h', K.allows s pid h' e.call e.answer)
    (hspawn : ∀ e ∈ h, K.spawn e.call e.answer = none) (hA : ∀ e ∈ h, ∀ cfg, A cfg e) :
    ∃ cfg', K.Watched A root p s cfg' ∧ cfg'.procs pid = some ⟨h₀ ++ h, q'⟩ ∧
      ∀ r, r ≠ pid → cfg'.procs r = cfg.procs r := by
  -- Call by call, each of which is allowed whatever the others have done
  induction hq generalizing cfg h₀ with
  | refl q => exact ⟨cfg, hr, by rw [hproc, List.append_nil], fun _ _ => rfl⟩
  | @call c k a h q' _ ih =>
    obtain ⟨cfg₁, hr₁, hproc₁, hothers₁⟩ := hr.call hproc
      (hallows _ List.mem_cons_self _ _) (hspawn _ List.mem_cons_self) (hA _ List.mem_cons_self _)
    obtain ⟨cfg₂, hr₂, hproc₂, hothers₂⟩ := ih hr₁ hproc₁
      (fun e he => hallows e (List.mem_cons_of_mem _ he))
      (fun e he => hspawn e (List.mem_cons_of_mem _ he))
      (fun e he => hA e (List.mem_cons_of_mem _ he))
    refine ⟨cfg₂, hr₂, by simpa using hproc₂, fun r hne => ?_⟩
    rw [hothers₂ r hne, hothers₁ r hne]

/-- The start of a process. -/
theorem Watched.fork (hr : K.Watched A root p s cfg) {pid q : Pid} {h : List I.Event} {c : I.Call}
    {k : I.Answer c → Prog I ε α} {a b : I.Answer c} (hproc : cfg.procs pid = some ⟨h, .call c k⟩)
    (hallows : K.allows cfg.state pid h c a) (hspawn : K.spawn c a = some (q, b))
    (hfresh : cfg.procs q = none) (hA : A cfg ⟨c, a⟩) :
    ∃ cfg', K.Watched A root p s cfg' ∧ cfg'.procs pid = some ⟨h ++ [⟨c, a⟩], k a⟩ ∧
      cfg'.procs q = some ⟨h ++ [⟨c, b⟩], k b⟩ := by
  have hne : pid ≠ q := by
    rintro rfl
    rw [hproc] at hfresh
    cases hfresh
  exact ⟨_, hr.tail ⟨.spawn hproc hallows hspawn hfresh, _, _, _, rfl, hA⟩,
    (Function.update_of_ne hne _ _).trans (Function.update_self _ _ _), Function.update_self _ _ _⟩

/-- A process that has ended stays as it is. -/
theorem Step.ended (hs : K.Step cfg cfg') {q : Pid} {h : List I.Event} {r : Outcome ε α}
    (hq : cfg.procs q = some ⟨h, .done r⟩) : cfg'.procs q = some ⟨h, .done r⟩ := by
  have hne : ∀ {pid h' c} {k : I.Answer c → Prog I ε α},
      cfg.procs pid = some ⟨h', .call c k⟩ → q ≠ pid := by
    rintro pid h' c k hproc rfl
    cases hproc.symm.trans hq
  cases hs with
  | call hproc hallows hspawn => exact (Function.update_of_ne (hne hproc) _ _).trans hq
  | @spawn pid q' h' c k a b hproc hallows hspawn hfresh =>
    have hother : q ≠ q' := by
      rintro rfl
      rw [hq] at hfresh
      cases hfresh
    exact (Function.update_of_ne hother _ _).trans
      ((Function.update_of_ne (hne hproc) _ _).trans hq)

/-- What is so wherever the answer is allowed, and stays so, is so wherever someone has had it. -/
theorem Watched.of_answered {P : Config I Pid σ ε α → Prop} {e : I.Event}
    (hA : ∀ cfg, A cfg e → P cfg) (hP : ∀ cfg cfg', K.Step cfg cfg' → P cfg → P cfg')
    (hspawn : ∀ a q b, K.spawn e.call a = some (q, b) → e.answer ≠ b)
    (hr : K.Watched A root p s cfg) {pid : Pid} {h : List I.Event} {q : Prog I ε α}
    (hproc : cfg.procs pid = some ⟨h, q⟩) (he : e ∈ h) : P cfg := by
  induction hr generalizing pid h q with
  | refl =>
    by_cases hpid : pid = root
    · subst hpid
      simp only [Config.start, Function.update_self, Option.some.injEq, Process.mk.injEq] at hproc
      obtain ⟨rfl, -⟩ := hproc
      cases he
    · simp [Config.start, hpid] at hproc
  | @tail cfg₁ cfg₂ _ hstep ih =>
    obtain ⟨hs, pid', e', t, htrace, hallowed⟩ := hstep
    -- who had the answer before
    have hold : ∀ {pid h q}, cfg₁.procs pid = some ⟨h, q⟩ → e ∈ h → P cfg₂ :=
      fun hproc he => hP _ _ hs (ih hproc he)
    -- and who has it now
    have hnew : ∀ {pid₁ h₁ t₁} {c : I.Call} {k : I.Answer c → Prog I ε α} {a : I.Answer c},
        cfg₁.procs pid₁ = some ⟨h₁, .call c k⟩ →
        cfg₂.trace = cfg₁.trace ++ (pid₁, ⟨c, a⟩) :: t₁ → e ∈ h₁ ++ [⟨c, a⟩] → P cfg₂ := by
      intro pid₁ h₁ t₁ c k a hproc₁ htrace₁ he
      rcases List.mem_append.1 he with he | he
      · exact hold hproc₁ he
      · obtain rfl := List.mem_singleton.1 he
        cases (List.cons.inj (List.append_cancel_left (htrace.symm.trans htrace₁))).1
        exact hP _ _ hs (hA _ hallowed)
    cases id hs with
    | @call pid₁ h₁ c k a hproc₁ _ _ =>
      by_cases hpid : pid = pid₁
      · subst hpid
        simp only [Function.update_self, Option.some.injEq, Process.mk.injEq] at hproc
        obtain ⟨rfl, -⟩ := hproc
        exact hnew hproc₁ rfl he
      · exact hold ((Function.update_of_ne hpid _ _).symm.trans hproc) he
    | @spawn pid₁ q₁ h₁ c k a b hproc₁ _ hspawned _ =>
      by_cases hq : pid = q₁
      · subst hq
        simp only [Function.update_self, Option.some.injEq, Process.mk.injEq] at hproc
        obtain ⟨rfl, -⟩ := hproc
        rcases List.mem_append.1 he with he | he
        · exact hold hproc₁ he
        · obtain rfl := List.mem_singleton.1 he
          exact absurd rfl (hspawn _ _ _ hspawned)
      · -- Neither the parent nor the child has it anew
        replace hproc := (Function.update_of_ne hq _ _).symm.trans hproc
        by_cases hpid : pid = pid₁
        · subst hpid
          simp only [Function.update_self, Option.some.injEq, Process.mk.injEq] at hproc
          obtain ⟨rfl, -⟩ := hproc
          exact hnew hproc₁ rfl he
        · exact hold ((Function.update_of_ne hpid _ _).symm.trans hproc) he

end Kernel
