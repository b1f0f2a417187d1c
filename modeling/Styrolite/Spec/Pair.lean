import Styrolite.Spec.Linux

/-!
# Supervisor and child

`CreateRequest.wrap` forks once. Every reachable configuration is therefore the
supervisor alone, in the prologue or at the fork, or a `Pair`: supervisor and
child, each somewhere in its own half. A `Pair` carries the two facts about the
shared state that everything else is derived from: the counter of each eventfd is
what the two have written less what they have read, and the namespaces are those
the child has made since the fork.
-/

namespace Styrolite

open Prog Kernel

namespace CreateRequest

variable {req : CreateRequest} {root : Int} {s₀ : World}
  {cfg : Config calls Int World Err Unit}

/-- `unshare` is one call for all kinds together. -/
theorem unshare_runs {nss : List Namespace} {h : List Event} :
    (unshare nss).Runs h (.ok ()) ↔ h = [⟨.unshare (Namespace.cloneFlags nss), .ok ()⟩] := by
  unfold unshare
  rw [runs_checked_ok (c := .unshare _) (f := fun r => r)]
  constructor
  · rintro ⟨r, rfl, rfl⟩
    rfl
  · rintro rfl
    exact ⟨_, rfl, rfl⟩

/-- `wrap` is the prologue, the fork, and either side after it. -/
theorem wrap_eq (req : CreateRequest) :
    req.wrap = req.prologue >>= fun _ => .call (I := calls) .fork req.afterFork := rfl

/-- The process that forked supervises the child. -/
theorem afterFork_parent (req : CreateRequest) (child : Int) :
    req.afterFork (.ok (.parent child)) = req.supervise child := rfl

/-- The child sets itself up and starts the workload. -/
theorem afterFork_child (req : CreateRequest) :
    req.afterFork (.ok .child) = req.childMain := rfl

/-- A fork that fails is an error. -/
theorem afterFork_error (req : CreateRequest) (e : Errno) :
    req.afterFork (.error e) = .done (.err (.os e)) := rfl

/-- The kinds of calls either process makes after the fork. -/
def pairKinds : List Call.Kind :=
  [.env, .enterPivot, .enterUserns, .enterLate, .file, .userns, .oom, .ns, .signal, .efd, .wait,
   .mount, .pivot, .chown, .cred, .confine, .exec]

/-- What is called after the fork. -/
theorem afterFork_uses (req : CreateRequest) (r : Except Errno ForkResult) :
    (req.afterFork r).Uses (Call.within pairKinds) := by
  match r with
  | .error _ => exact .done _
  | .ok (.parent child) => exact (req.supervise_uses child).widen (by decide)
  | .ok .child => exact req.childMain_uses.widen (by decide)

/-- `setup` ends with two new semaphores. -/
theorem setup_efd (s : World) {h : List Event} (hr : req.setup.Runs h (.ok ())) (x : Efd) :
    (linux.after s root h).efd x = { count := 0, semaphore := true } := by
  obtain ⟨-, h₁, _, -, hr₁, rfl⟩ := runs_bind_ok.1 hr
  obtain ⟨-, h₂, _, -, hr₂, rfl⟩ := runs_bind_ok.1 hr₁
  obtain ⟨-, h₃, _, -, hr₃, rfl⟩ := runs_bind_ok.1 hr₂
  obtain ⟨-, h₄, _, -, hr₄, rfl⟩ := runs_bind_ok.1 hr₃
  simp only [runs_sys_bind, runs_check_bind_ok] at hr₄
  obtain ⟨_, _, rfl, ⟨⟩, rfl, _, _, rfl, hr₅⟩ := hr₄
  obtain ⟨rfl, rfl⟩ := runs_check_ok.1 hr₅
  simp only [Kernel.after_append, Kernel.after_cons, Kernel.after_nil]
  cases x <;> rfl

/-- The prologue: first the cgroup, then the namespaces, then the rest. -/
theorem prologue_runs {h : List Event} (hr : req.prologue.Runs h (.ok ())) :
    ∃ h₁ h₂, h = h₁ ++ ⟨.unshare (Namespace.cloneFlags req.firstLevelNs), .ok ()⟩ :: h₂ ∧
      (∃ r, (attempt req.prepareCgroup).Runs h₁ (.ok r)) ∧ req.setup.Runs h₂ (.ok ()) := by
  obtain ⟨r, h₁, _, hcg, hr₁, rfl⟩ := runs_bind_ok.1 hr
  obtain ⟨⟨⟩, h₂, h₃, hun, hset, rfl⟩ := runs_bind_ok.1 hr₁
  rw [unshare_runs.1 hun]
  exact ⟨h₁, h₃, rfl, ⟨r, hcg⟩, hset⟩

/-- Supervisor and child after the fork. Before it the supervisor made the calls of `h₀`;
    since then it has made those of `h₁` and the child those of `h₂`, and `p₁` and `p₂` are
    left to do. -/
structure Pair (req : CreateRequest) (root : Int) (s₀ : World)
    (cfg : Config calls Int World Err Unit) (child : Int) (h₀ h₁ h₂ : List Event)
    (p₁ p₂ : Sys Unit) : Prop where
  ne : child ≠ root
  prologue : req.prologue.Runs h₀ (.ok ())
  rootProc : cfg.procs root = some ⟨h₀ ++ ⟨.fork, .ok (.parent child)⟩ :: h₁, p₁⟩
  childProc : cfg.procs child = some ⟨h₀ ++ ⟨.fork, .ok .child⟩ :: h₂, p₂⟩
  others : ∀ r, r ≠ root → r ≠ child → cfg.procs r = none
  rootReaches : (req.supervise child).Reaches h₁ p₁
  childReaches : req.childMain.Reaches h₂ p₂
  trace : cfg.trace.Perm
    (h₀.map (Prod.mk root) ++ (root, ⟨.fork, .ok (.parent child)⟩) ::
      (child, ⟨.fork, .ok .child⟩) :: (h₁.map (Prod.mk root) ++ h₂.map (Prod.mk child)))
  semaphore : ∀ x, (cfg.state.efd x).semaphore = true
  balance : ∀ x, (cfg.state.efd x).count + (taken x h₁ + taken x h₂) =
    posted x h₁ + posted x h₂
  ns : cfg.state.ns = ((s₀.ns.after root h₀).fork root child).after child h₂

/-- A process is one of the two. -/
theorem Pair.proc_cases {req : CreateRequest} {root : Int} {s₀ : World}
    {cfg : Config calls Int World Err Unit} {child : Int} {h₀ h₁ h₂ : List Event} {p₁ p₂ : Sys Unit}
    (hp : req.Pair root s₀ cfg child h₀ h₁ h₂ p₁ p₂) {pid : Int} {P : Process calls Err Unit}
    (hP : cfg.procs pid = some P) :
    (pid = root ∧ P = ⟨h₀ ++ ⟨.fork, .ok (.parent child)⟩ :: h₁, p₁⟩) ∨
      (pid ≠ root ∧ pid = child ∧ P = ⟨h₀ ++ ⟨.fork, .ok .child⟩ :: h₂, p₂⟩) :=
  Config.proc_cases hp.rootProc hp.childProc hp.others hP

/-- The invariant of the pair. -/
private def Shared (root : Int) (s₀ : World) (f : ForkPoint calls Int Unit .fork) (s : World)
    (h₁ h₂ : List Event) : Prop :=
  (∀ x, (s.efd x).semaphore = true ∧
    (s.efd x).count + (taken x h₁ + taken x h₂) = posted x h₁ + posted x h₂) ∧
  s.ns = ((s₀.ns.after root f.hist).fork root f.child).after f.child h₂

/-- A valid fork of `wrap` tells the parent its child and the child that it is one. -/
private theorem fork_answers {pre : Sys Unit} {f : ForkPoint calls Int Unit .fork}
    (hf : f.Valid linux root s₀ pre) :
    f.answer = .ok (.parent f.child) ∧ f.childAnswer = .ok .child :=
  spawn_some hf.spawn

/-- A call of either process keeps the balance of both eventfds. -/
private theorem balance_step {s : World} {pid : Int} {c : Call} {a : c.Answer} {n m : Nat}
    {x : Efd} (hk : c.kind ∈ pairKinds) (hallows : s.allows pid c a)
    (hsem : (s.efd x).semaphore = true) (hbal : (s.efd x).count + n = m) :
    ((s.next pid c a).efd x).semaphore = true ∧
      ((s.next pid c a).efd x).count + (n + takes x ⟨c, a⟩) = m + posts x ⟨c, a⟩ := by
  -- The eventfds are there already
  have hne : c.kind ≠ .eventfd := by
    intro heq
    rw [heq] at hk
    exact absurd hk (by decide)
  have hread : ∀ n, (⟨c, a⟩ : Event) = ⟨.efdRead x, .ok n⟩ → 0 < (s.efd x).count := by
    intro n heq
    cases heq
    exact hallows.1
  obtain ⟨hsem', hcount⟩ := nextEfd_balance x hne hsem hread
  refine ⟨hsem', ?_⟩
  change (nextEfd s.efd c a x).count + _ = _
  omega

/-- Right after the fork the two share the eventfds, which nobody has used. -/
private theorem shared_start {f : ForkPoint calls Int Unit .fork}
    (hf : f.Valid linux root s₀ req.prologue) :
    Shared root s₀ f (f.state linux root s₀) [] [] := by
  obtain ⟨ha, -⟩ := fork_answers hf
  refine ⟨fun x => ?_, ?_⟩
  · have hefd : (f.state linux root s₀).efd x = (linux.after s₀ root f.hist).efd x := by
      simp only [ForkPoint.state, linux_next, World.next]
      rw [nextEfd_of_kind _ _ (by decide) (by decide)]
    obtain ⟨h₁, h₂, heq, -, hset⟩ := prologue_runs hf.runs
    rw [hefd, heq, Kernel.after_append, Kernel.after_cons, setup_efd _ hset]
    exact ⟨rfl, rfl⟩
  · simp only [ForkPoint.state, linux_next, World.next, linux_after_ns, ha]
    rfl

/-- The supervisor's calls do not touch the namespaces. -/
private theorem shared_root {f : ForkPoint calls Int Unit .fork} {s : World}
    {h₁ h₂ : List Event} {c : Call} {a : c.Answer}
    (hf : f.Valid linux root s₀ req.prologue) (hJ : Shared root s₀ f s h₁ h₂)
    (hat : (req.afterFork f.answer).At h₁ c) (hallows : s.allows root c a) :
    Shared root s₀ f (s.next root c a) (h₁ ++ [⟨c, a⟩]) h₂ := by
  obtain ⟨ha, -⟩ := fork_answers hf
  rw [ha] at hat
  obtain ⟨htok, hns⟩ := hJ
  refine ⟨fun x => ?_, ?_⟩
  · -- Each eventfd has been read as often as what was written to it allows
    obtain ⟨hsem, hbal⟩ := htok x
    obtain ⟨hsem', hbal'⟩ := balance_step (req.afterFork_uses _ _ _ hat) hallows hsem hbal
    refine ⟨hsem', ?_⟩
    simp only [taken_append, posted_append, taken_cons, posted_cons, taken_nil, posted_nil]
    omega
  · -- The supervisor makes no namespaces after the fork
    have hkind : c.kind ∉ nsKinds := by
      have := req.supervise_uses f.child h₁ c hat
      revert this
      unfold Call.within
      cases c.kind <;> decide
    simp only [World.next, NsState.next_of_kind _ _ _ hkind, hns]

/-- A step of the child's keeps what the two share. -/
private theorem shared_child {f : ForkPoint calls Int Unit .fork} {s : World}
    {h₁ h₂ : List Event} {c : Call} {a : c.Answer} (hJ : Shared root s₀ f s h₁ h₂)
    (hat : (req.afterFork f.childAnswer).At h₂ c) (hallows : s.allows f.child c a) :
    Shared root s₀ f (s.next f.child c a) h₁ (h₂ ++ [⟨c, a⟩]) := by
  obtain ⟨htok, hns⟩ := hJ
  refine ⟨fun x => ?_, ?_⟩
  · obtain ⟨hsem, hbal⟩ := htok x
    obtain ⟨hsem', hbal'⟩ := balance_step (req.afterFork_uses _ _ _ hat) hallows hsem hbal
    refine ⟨hsem', ?_⟩
    simp only [taken_append, posted_append, taken_cons, posted_cons, taken_nil, posted_nil]
    omega
  · simp only [World.next, hns, NsState.after_append, NsState.after_cons, NsState.after_nil]

/-- Every reachable configuration of a `wrap`. -/
theorem wrap_cases (hr : linux.Reachable root req.wrap s₀ cfg) :
    (∃ h q, Solo linux root s₀ req.wrap cfg h q) ∨
      ∃ child h₀ h₁ h₂ p₁ p₂, req.Pair root s₀ cfg child h₀ h₁ h₂ p₁ p₂ := by
  rw [wrap_eq] at hr ⊢
  have hcases := reachable_cases (Shared root s₀)
    (noSpawn_of_uses req.prologue_uses (by decide))
    (fun _ a => noSpawn_of_uses (req.afterFork_uses a) (by decide))
    (fun _ hf => shared_start hf)
    (fun _ _ _ _ _ _ hf hJ hat hallows => shared_root hf hJ hat hallows)
    (fun _ _ _ _ _ _ _ hJ hat hallows => shared_child hJ hat hallows) hr
  rcases hcases with hsolo | ⟨f, h₁, h₂, p₁, p₂, hf, hduo, hJ, hns⟩
  · exact .inl hsolo
  · obtain ⟨ha, hb⟩ := fork_answers hf
    -- The histories are those of the fork, whose answers are these
    have hroot := hduo.rootProc
    have hchild := hduo.childProc
    have hrr := hduo.rootReaches
    have hcr := hduo.childReaches
    have htr := hduo.trace
    simp only [ForkPoint.rootHist, ForkPoint.childHist, ha, hb] at hroot hchild hrr hcr htr
    exact .inr ⟨f.child, f.hist, h₁, h₂, p₁, p₂, hf.ne, hf.runs, hroot, hchild, hduo.others,
      hrr, hcr, htr, fun x => (hJ x).1, fun x => (hJ x).2, hns⟩

/-- A supervisor that was given no child ends. -/
private theorem afterFork_alone (s : World) (h : List Event) (_ : Unit)
    (a : Except Errno ForkResult) (hallows : linux.allows s root h .fork a)
    (hspawn : linux.spawn .fork a = none) : ∃ r, req.afterFork a = .done r := by
  match a, hallows, hspawn with
  | .error e, _, _ => exact ⟨_, req.afterFork_error e⟩

/-- The supervisor alone is in the prologue or about to fork. -/
theorem solo_at {h : List Event} {c : Call} {k : c.Answer → Sys Unit}
    (hsolo : Solo linux root s₀ req.wrap cfg h (.call c k)) :
    req.prologue.At h c ∨ c = .fork := by
  rw [wrap_eq] at hsolo
  exact hsolo.at_cases afterFork_alone

/-- The kinds of calls before the fork. -/
def soloKinds : List Call.Kind := [.env, .file, .ns, .uts, .rlimit, .signal, .eventfd, .fork]

/-- What the supervisor alone has done are calls of the prologue and attempts to fork. -/
theorem solo_event {h : List Event} {q : Sys Unit} (hsolo : Solo linux root s₀ req.wrap cfg h q)
    {e : Event} (he : e ∈ h) : (∃ h', req.prologue.At h' e.call) ∨ e.call = .fork := by
  rw [wrap_eq] at hsolo
  exact hsolo.event_cases afterFork_alone he

/-- Before the fork only calls of these kinds are made. -/
theorem solo_kind {h : List Event} {q : Sys Unit} (hsolo : Solo linux root s₀ req.wrap cfg h q)
    {e : Event} (he : e ∈ h) : e.call.kind ∈ soloKinds := by
  rcases solo_event hsolo he with ⟨h', hat⟩ | heq
  · exact (req.prologue_uses.widen (by decide)) h' _ hat
  · rw [heq]
    decide

/-- Which process is about to make a call, and where it is. -/
theorem process_cases (hr : linux.Reachable root req.wrap s₀ cfg) {pid : Int} {h : List Event}
    {c : Call} {k : c.Answer → Sys Unit}
    (hproc : cfg.procs pid = some ⟨h, .call (I := calls) c k⟩) :
    (pid = root ∧ c.kind ∈ soloKinds ∧ ∀ e ∈ h, e.call.kind ∈ soloKinds) ∨
      ∃ child h₀ h₁ h₂ p₁ p₂, req.Pair root s₀ cfg child h₀ h₁ h₂ p₁ p₂ ∧
        ((pid = root ∧ h = h₀ ++ ⟨.fork, .ok (.parent child)⟩ :: h₁ ∧
            (req.supervise child).At h₁ c) ∨
          (pid = child ∧ h = h₀ ++ ⟨.fork, .ok .child⟩ :: h₂ ∧ req.childMain.At h₂ c)) := by
  rcases wrap_cases hr with ⟨h', q, hsolo⟩ | ⟨child, h₀, h₁, h₂, p₁, p₂, hpair⟩
  · obtain ⟨rfl, heq⟩ := hsolo.proc_eq hproc
    cases heq
    refine .inl ⟨rfl, ?_, fun e he => solo_kind hsolo he⟩
    rcases solo_at hsolo with hat | rfl
    · exact (req.prologue_uses.widen (by decide)) h c hat
    · decide
  · refine .inr ⟨child, h₀, h₁, h₂, p₁, p₂, hpair, ?_⟩
    -- After the fork it is the supervisor or the child
    rcases hpair.proc_cases hproc with ⟨rfl, heq⟩ | ⟨-, rfl, heq⟩
    · cases heq
      exact .inl ⟨rfl, rfl, k, hpair.rootReaches⟩
    · cases heq
      exact .inr ⟨rfl, rfl, k, hpair.childReaches⟩

end CreateRequest

end Styrolite
