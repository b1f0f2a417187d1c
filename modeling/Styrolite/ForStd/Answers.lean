import Styrolite.ForStd.Process

/-!
# Runs under given answers

A function from histories and calls to answers fixes every choice of the
environment. Under it a program has exactly one finished run, which `Prog.eval`
computes, and a process of a kernel that allows these answers makes it, step by
step (`Kernel.steps_of_reaches`). A program that forks is taken past its fork by
`Kernel.ForkPoint.Valid.exists_forked`.
-/

/-- The answer to each call after each history. -/
abbrev Interface.Answers (I : Interface) := List I.Event → (c : I.Call) → I.Answer c

namespace Prog

variable {I : Interface} {ε α β : Type} {ω : I.Answers}

/-- The run of the program under `ω`, from the history `h`: its calls, and how it ends. -/
def eval (ω : I.Answers) : Prog I ε α → List I.Event → List I.Event × Outcome ε α
  | done r, _ => ([], r)
  | call c k, h =>
    let run := (k (ω h c)).eval ω (h ++ [⟨c, ω h c⟩])
    (⟨c, ω h c⟩ :: run.1, run.2)

/-- After `h₀`, the answers in `h` are those of `ω`. -/
def Follows (ω : I.Answers) (h₀ h : List I.Event) : Prop :=
  ∀ h₁ e h₂, h = h₁ ++ e :: h₂ → e.answer = ω (h₀ ++ h₁) e.call

/-- The empty history follows any answers. -/
theorem follows_nil (h₀ : List I.Event) : Follows ω h₀ [] :=
  fun h₁ _ _ heq => by simp at heq

/-- A history follows answers if its first event does, and the rest after it. -/
theorem follows_cons {h₀ h : List I.Event} {e : I.Event} :
    Follows ω h₀ (e :: h) ↔ e.answer = ω h₀ e.call ∧ Follows ω (h₀ ++ [e]) h := by
  constructor
  · intro hf
    refine ⟨by simpa using hf [] e h rfl, fun h₁ e' h₂ heq => ?_⟩
    simpa using hf (e :: h₁) e' h₂ (by rw [heq]; rfl)
  · rintro ⟨he, hf⟩ h₁ e' h₂ heq
    cases h₁ with
    | nil =>
      cases heq
      simpa using he
    | cons e'' h₁ =>
      cases heq
      simpa using hf h₁ e' h₂ rfl

/-- A history follows answers if its two parts do, one after the other. -/
theorem follows_append {h₀ h₁ h₂ : List I.Event} :
    Follows ω h₀ (h₁ ++ h₂) ↔ Follows ω h₀ h₁ ∧ Follows ω (h₀ ++ h₁) h₂ := by
  induction h₁ generalizing h₀ with
  | nil => simp [follows_nil]
  | cons e h₁ ih => simp [follows_cons, ih, and_assoc]

/-- What a program comes to on given answers is a run of it. -/
theorem eval_runs (ω : I.Answers) (p : Prog I ε α) (h : List I.Event) :
    p.Runs (p.eval ω h).1 (p.eval ω h).2 := by
  induction p generalizing h with
  | done r => exact .refl _
  | call c k ih => exact .call (ih (ω h c) _)

/-- And that run follows the answers. -/
theorem eval_follows (ω : I.Answers) (p : Prog I ε α) (h : List I.Event) :
    Follows ω h (p.eval ω h).1 := by
  induction p generalizing h with
  | done r => exact follows_nil h
  | call c k ih => exact follows_cons.2 ⟨rfl, ih (ω h c) _⟩

/-- A history that follows `ω` is the beginning of the run under `ω`. -/
theorem eval_of_reaches {p q : Prog I ε α} {h h' : List I.Event} (hr : p.Reaches h' q)
    (hf : Follows ω h h') :
    p.eval ω h = (h' ++ (q.eval ω (h ++ h')).1, (q.eval ω (h ++ h')).2) := by
  induction hr generalizing h with
  | refl p => simp
  | @call c k a h' q _ ih =>
    obtain ⟨ha, hf'⟩ := follows_cons.1 hf
    obtain rfl : a = ω h c := ha
    simp only [eval, ih hf', List.append_assoc, List.cons_append, List.nil_append]

/-- A run that follows the answers is the one they lead to. -/
theorem eval_of_runs {p : Prog I ε α} {h h' : List I.Event} {r : Outcome ε α}
    (hr : p.Runs h' r) (hf : Follows ω h h') : p.eval ω h = (h', r) := by
  rw [eval_of_reaches hr hf]
  simp [eval]

/-- Under `ω`, after the history `h`, the program ends with a value. -/
def Succeeds (ω : I.Answers) (h : List I.Event) (p : Prog I ε α) : Prop :=
  ∃ a, (p.eval ω h).2 = .ok a

/-- A program that succeeds on the answers has a run that succeeds. -/
theorem Succeeds.runs {p : Prog I ε α} {h : List I.Event} (hs : p.Succeeds ω h) :
    ∃ a, p.Runs (p.eval ω h).1 (.ok a) := by
  obtain ⟨a, ha⟩ := hs
  exact ⟨a, ha ▸ p.eval_runs ω h⟩

/-- A run that follows the answers and succeeds shows that the program does. -/
theorem succeeds_of_runs {p : Prog I ε α} {h h' : List I.Event} {a : α}
    (hr : p.Runs h' (.ok a)) (hf : Follows ω h h') : p.Succeeds ω h :=
  ⟨a, by rw [eval_of_runs hr hf]⟩

/-- Whether the program makes the call under `ω`. -/
def makes [DecidableEq I.Call] (ω : I.Answers) (p : Prog I ε α) (c : I.Call) : Bool :=
  (p.eval ω []).1.any fun e => e.call = c

/-- A program that makes a call on the answers comes to it in a history that follows them. -/
theorem at_of_makes [DecidableEq I.Call] {p : Prog I ε α} {c : I.Call}
    (hc : p.makes ω c = true) : ∃ h, p.At h c ∧ Follows ω [] h := by
  obtain ⟨e, hmem, he⟩ := List.any_eq_true.1 hc
  obtain ⟨h₁, h₂, hsplit⟩ := List.append_of_mem hmem
  have hrun := p.eval_runs ω []
  have hfollows := p.eval_follows ω []
  rw [hsplit] at hrun hfollows
  refine ⟨h₁, ?_, (follows_append.1 hfollows).1⟩
  rw [← of_decide_eq_true he]
  exact hrun.at_of_split

/-- Under `ω` the program ends with a value, whatever the history it starts from. -/
def Always (ω : I.Answers) (p : Prog I ε α) : Prop :=
  ∀ h, ∃ h' a, p.Runs h' (.ok a) ∧ Follows ω h h'

namespace Always

/-- What always succeeds does so after any history. -/
theorem succeeds {p : Prog I ε α} (hp : p.Always ω) (h : List I.Event) : p.Succeeds ω h := by
  obtain ⟨h', a, hr, hf⟩ := hp h
  exact succeeds_of_runs hr hf

/-- Returning a value always succeeds. -/
theorem pure (a : α) : (Pure.pure a : Prog I ε α).Always ω :=
  fun h => ⟨[], a, .refl _, follows_nil h⟩

/-- A single call always succeeds: it returns its answer. -/
theorem sys (c : I.Call) : (Prog.sys c : Prog I ε _).Always ω :=
  fun h => ⟨[⟨c, ω h c⟩], ω h c, runs_sys.2 ⟨_, rfl, rfl⟩, follows_cons.2 ⟨rfl, follows_nil _⟩⟩

/-- So does one program after another. -/
theorem bind {p : Prog I ε α} {f : α → Prog I ε β} (hp : p.Always ω) (hf : ∀ a, (f a).Always ω) :
    (p >>= f).Always ω := by
  intro h
  obtain ⟨h₁, a, hr₁, hf₁⟩ := hp h
  obtain ⟨h₂, b, hr₂, hf₂⟩ := hf a (h ++ h₁)
  exact ⟨h₁ ++ h₂, b, runs_bind_ok.2 ⟨a, h₁, h₂, hr₁, hr₂, rfl⟩, follows_append.2 ⟨hf₁, hf₂⟩⟩

/-- A call whose answer leads to such a program. -/
theorem call {c : I.Call} {k : I.Answer c → Prog I ε α} (hk : ∀ h, (k (ω h c)).Always ω) :
    (Prog.call c k).Always ω := by
  intro h
  obtain ⟨h', a, hr, hf⟩ := hk h (h ++ [⟨c, ω h c⟩])
  exact ⟨⟨c, ω h c⟩ :: h', a, .call hr, follows_cons.2 ⟨rfl, hf⟩⟩

/-- Renaming errors makes no difference to what never fails. -/
theorem mapErr {ε' : Type} {f : ε → ε'} {p : Prog I ε α} (hp : p.Always ω) :
    (p.mapErr f).Always ω := by
  intro h
  obtain ⟨h', a, hr, hf⟩ := hp h
  exact ⟨h', a, runs_mapErr_ok.2 hr, hf⟩

/-- A program that does not halt comes to a result, good or bad. -/
theorem attempt {ε' : Type} {p : Prog I ε α} (hp : p.Returns) :
    (p.attempt : Prog I ε' _).Always ω := by
  intro h
  have hr := p.eval_runs ω h
  have hf := p.eval_follows ω h
  cases hout : (p.eval ω h).2 with
  | ok a => exact ⟨_, .ok a, runs_attempt_ok.2 (.inl ⟨a, rfl, hout ▸ hr⟩), hf⟩
  | err e => exact ⟨_, .error e, runs_attempt_ok.2 (.inr ⟨e, rfl, hout ▸ hr⟩), hf⟩
  | halt n => exact absurd (hout ▸ hr) (hp _ n)

/-- A program behind a condition has to succeed only under it. -/
theorem when {P : Prop} [Decidable P] {p : Prog I ε PUnit} (hp : P → p.Always ω) :
    (Prog.when P p).Always ω := by
  unfold Prog.when
  split
  · next hP => exact hp hP
  · exact pure _

/-- A program on an optional value has to succeed only if there is one. -/
theorem whenSome {o : Option β} {f : β → Prog I ε PUnit}
    (hf : ∀ x, o = some x → (f x).Always ω) : (Prog.whenSome o f).Always ω := by
  cases o with
  | none => exact pure _
  | some x => exact hf x rfl

/-- A loop always succeeds if each of its turns does. -/
theorem forM {l : List β} {f : β → Prog I ε PUnit} (hf : ∀ x ∈ l, (f x).Always ω) :
    (forM l f).Always ω := by
  induction l with
  | nil => exact pure _
  | cons x l ih =>
    rw [List.forM_cons]
    exact (hf x List.mem_cons_self).bind fun _ => ih fun y hy => hf y (List.mem_cons_of_mem x hy)

end Always

end Prog

namespace Kernel

variable {I : Interface} {Pid σ ε α : Type} (K : Kernel I Pid σ)

/-- The kernel that gives the answers `ω`, when it allows them. -/
def under (ω : I.Answers) : Kernel I Pid σ := K.restrict fun _ _ h c a => a = ω h c

end Kernel

variable {I : Interface} {Pid σ ε α : Type} [DecidableEq Pid]

/-- Under `ω` every answer in a history is that of `ω`, or was given to a new process. -/
theorem Kernel.Reachable.follows {K : Kernel I Pid σ} {ω : I.Answers} {root : Pid}
    {p : Prog I ε α} {s : σ} {cfg : Config I Pid σ ε α}
    (hr : (K.under ω).Reachable root p s cfg) {pid : Pid} {h : List I.Event} {q : Prog I ε α}
    (hproc : cfg.procs pid = some ⟨h, q⟩) {h₁ h₂ : List I.Event} {e : I.Event}
    (heq : h = h₁ ++ e :: h₂) :
    e.answer = ω h₁ e.call ∨ ∃ r, K.spawn e.call (ω h₁ e.call) = some (r, e.answer) := by
  rcases hr.hist_allowed hproc heq with ha | ⟨a, r, rfl, hs⟩
  · exact .inl ha
  · exact .inr ⟨r, hs⟩

/-- The configuration after `pid`, which had made the calls of `h₀`, has made those of `h` and
    become `q`. -/
def Config.advance (K : Kernel I Pid σ) (cfg : Config I Pid σ ε α) (pid : Pid)
    (h₀ h : List I.Event) (q : Prog I ε α) : Config I Pid σ ε α where
  procs := Function.update cfg.procs pid (some ⟨h₀ ++ h, q⟩)
  state := K.after cfg.state pid h
  trace := cfg.trace ++ h.map (Prod.mk pid)

/-- A history of one process whose answers are allowed in turn is a sequence of steps. -/
theorem Kernel.steps_of_reaches (K : Kernel I Pid σ) {cfg : Config I Pid σ ε α} {pid : Pid}
    {h₀ h : List I.Event} {p q : Prog I ε α} (hproc : cfg.procs pid = some ⟨h₀, p⟩)
    (hr : p.Reaches h q)
    (hallows : ∀ h₁ e h₂, h = h₁ ++ e :: h₂ →
      K.allows (K.after cfg.state pid h₁) pid (h₀ ++ h₁) e.call e.answer)
    (hspawn : ∀ e ∈ h, K.spawn e.call e.answer = none) :
    Relation.ReflTransGen (K.Step (ε := ε) (α := α)) cfg (cfg.advance K pid h₀ h q) := by
  induction hr generalizing cfg h₀ with
  | refl p =>
    -- No event: the configuration is left as it is
    have hself : cfg.advance K pid h₀ [] p = cfg := by
      obtain ⟨procs, state, trace⟩ := cfg
      simp only [Config.advance, List.append_nil, List.map_nil, Kernel.after_nil, ← hproc,
        Function.update_eq_self]
    rw [hself]
  | @call c k a h q _ ih =>
    have ha := hallows [] ⟨c, a⟩ h rfl
    rw [List.append_nil] at ha
    have hstep := Step.call (K := K) hproc ha (hspawn ⟨c, a⟩ List.mem_cons_self)
    refine .head hstep ?_
    -- After one step the rest of the history is advanced over from there
    have hadv : cfg.advance K pid h₀ (⟨c, a⟩ :: h) q =
        Config.advance K
          { procs := Function.update cfg.procs pid (some ⟨h₀ ++ [⟨c, a⟩], k a⟩)
            state := K.next cfg.state pid c a
            trace := cfg.trace ++ [(pid, ⟨c, a⟩)] } pid (h₀ ++ [⟨c, a⟩]) h q := by
      simp [Config.advance]
    rw [hadv]
    refine ih (Function.update_self pid _ cfg.procs) (fun h₁ e h₂ heq => ?_)
      fun e he => hspawn e (List.mem_cons_of_mem _ he)
    simpa using hallows (⟨c, a⟩ :: h₁) e h₂ (by rw [heq]; rfl)

/-- A lawful history of the first process that starts no other is made in some run. -/
theorem Kernel.reachable_of_reaches {K : Kernel I Pid σ} {root : Pid} {p q : Prog I ε α} {s : σ}
    {h : List I.Event} (hr : p.Reaches h q) (hl : K.Lawful s root h)
    (hspawn : ∀ e ∈ h, K.spawn e.call e.answer = none) :
    K.Reachable root p s ((Config.start root p s).advance K root [] h q) :=
  K.steps_of_reaches (by simp [Config.start]) hr hl hspawn

/-- A fork that the kernel allows is made in some run, if no call before it starts a process. -/
theorem Kernel.ForkPoint.Valid.exists_forked {K : Kernel I Pid σ} {γ : Type} {root : Pid} {s : σ}
    {pre : Prog I ε γ} {c₀ : I.Call} {f : Kernel.ForkPoint I Pid γ c₀}
    (hf : f.Valid K root s pre) (body : γ → I.Answer c₀ → Prog I ε α)
    (hspawn : ∀ e ∈ f.hist, K.spawn e.call e.answer = none) :
    ∃ cfg, K.Reachable root (pre >>= fun x => .call c₀ (body x)) s cfg ∧
      cfg.procs root = some ⟨f.hist ++ [⟨c₀, f.answer⟩], body f.val f.answer⟩ ∧
      cfg.procs f.child = some ⟨f.hist ++ [⟨c₀, f.childAnswer⟩], body f.val f.childAnswer⟩ := by
  have hreach : (pre >>= fun x => .call c₀ (body x)).Reaches f.hist (.call c₀ (body f.val)) :=
    Prog.reaches_bind.2 (.inr ⟨f.val, f.hist, [], hf.runs, .refl _, by simp⟩)
  have hr := Kernel.reachable_of_reaches hreach hf.lawful hspawn
  generalize hcfg : Config.advance K _ root [] f.hist _ = cfg at hr
  have hproc : cfg.procs root = some ⟨f.hist, .call c₀ (body f.val)⟩ := by
    simp [← hcfg, Config.advance]
  have hstate : cfg.state = K.after s root f.hist := by
    simp [← hcfg, Config.advance, Config.start]
  -- The number of the child is free, for there is one process
  have hfresh : cfg.procs f.child = none := by
    simp [← hcfg, Config.advance, Config.start, hf.ne]
  refine ⟨_, hr.tail (Step.spawn hproc (hstate ▸ hf.allows) hf.spawn hfresh), ?_, ?_⟩
  · simp [Function.update_of_ne hf.ne.symm]
  · simp
