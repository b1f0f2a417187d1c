import Styrolite.Spec.HandshakeCorrect

/-!
# Deadlock

Which patterns of failures leave one process of a `wrap` waiting for ever after
the other has ended. A `Pattern` fixes the outcome of every call; the interleaving
stays free. The handshake has no deadlock under a pattern if and only if a failure
of either process before its write does not meet a peer that waits for it
(`wrap_deadlockFree_iff`).
-/

namespace Styrolite

open Prog Kernel

/-- The answer to every call of each process. A semaphore is read in steps of 1. -/
structure Pattern where
  answers : calls.Answers
  reads : ∀ h x n, answers h (.efdRead x) = Except.ok n → n = 1

/-- Linux, with the calls that it leaves open answered by the pattern. -/
def Pattern.kernel (ω : Pattern) : Kernel calls Int World := linux.under ω.answers

/-- The process has ended. -/
def Exited (cfg : Config calls Int World Err Unit) (pid : Int) : Prop :=
  ∃ h r, cfg.procs pid = some ⟨h, .done r⟩

/-- The process waits in a read of an eventfd, and does so in every later configuration. -/
def BlockedForever (K : Kernel calls Int World) (cfg : Config calls Int World Err Unit)
    (pid : Int) : Prop :=
  ∃ h x k, cfg.procs pid = some ⟨h, .call (I := calls) (.efdRead x) k⟩ ∧
    ∀ cfg', Relation.ReflTransGen K.Step cfg cfg' → cfg'.procs pid = cfg.procs pid

/-- One process has ended and another waits for ever. -/
def Deadlocked (K : Kernel calls Int World) (cfg : Config calls Int World Err Unit) : Prop :=
  ∃ p q, Exited cfg p ∧ BlockedForever K cfg q

namespace CreateRequest

/-- Whoever waits is waited for: if the supervisor waits, the child signals, and if the child
    waits, the supervisor gets to its release. -/
def HandshakeCompletes (ω : Pattern) (req : CreateRequest) (child : Int) (h₀ : List Event) : Prop :=
  (SignalReadable ω.answers child h₀ → Signals ω.answers req h₀) ∧
    (Signals ω.answers req h₀ → ReleaseReadable ω.answers req h₀ →
      SignalReadable ω.answers child h₀ ∧ Configures ω.answers req child h₀)

variable {ω : Pattern} {req : CreateRequest} {root child : Int} {s₀ : World}
  {cfg : Config calls Int World Err Unit} {h h₀ h₁ h₂ : List Event} {p₁ p₂ : Sys Unit}

/-! ## Reads -/

/-- A process that can make its next call is not blocked for ever. -/
theorem not_blocked {K : Kernel calls Int World} {pid : Int} {c : Call} {a : c.Answer}
    {k : c.Answer → Sys Unit} (hproc : cfg.procs pid = some ⟨h, .call (I := calls) c k⟩)
    (hallows : K.allows cfg.state pid h c a) (hspawn : K.spawn c a = none) :
    ¬ ∀ cfg', Relation.ReflTransGen K.Step cfg cfg' → cfg'.procs pid = cfg.procs pid := by
  intro hforever
  have hstep := hforever _ (.single (.call hproc hallows hspawn))
  rw [hproc] at hstep
  simp at hstep

/-! ## No deadlock if the handshake completes -/

/-- A child that signals and has ended has signalled. -/
theorem childMain_begins {r : Outcome Err Unit} (hs : Signals ω.answers req h₀)
    (hr : req.childMain.Runs h r) (hf : Follows ω.answers (childStart h₀) h) :
    ∃ h₃ h₄, h = h₃ ++ h₄ ∧ req.childSignal.Runs h₃ (.ok ()) := by
  obtain ⟨⟨⟩, hrun⟩ := hs.runs
  have hmain : req.childMain.Reaches _ _ :=
    reaches_bind.2 (.inr ⟨(), _, [], hrun, .refl _, (List.append_nil _).symm⟩)
  have heval := eval_of_reaches hmain (eval_follows ω.answers _ _)
  rw [eval_of_runs hr hf] at heval
  exact ⟨_, _, congrArg Prod.fst heval, hrun⟩

/-- A supervisor that gets to its release and has ended has released the child. -/
theorem supervise_begins {r : Outcome Err Unit} (hread : SignalReadable ω.answers child h₀)
    (hconf : Configures ω.answers req child h₀) (hr : (req.supervise child).Runs h r)
    (hf : Follows ω.answers (rootStart h₀ child) h) :
    (⟨.efdWrite .child 1, .ok ()⟩ : Event) ∈ h := by
  obtain ⟨⟨⟩, hrun⟩ := hconf.runs
  have hafter : (req.configure child >>= fun _ => waitForPid child >>= fun exitcode =>
      reapChildren >>= fun _ => (Prog.halt exitcode : Sys Unit)).Reaches _ _ :=
    reaches_bind.2 (.inr ⟨(), _, [], hrun, .refl _, (List.append_nil _).symm⟩)
  have hmain : (req.supervise child).Reaches
      (⟨.storeChildPid child, ()⟩ :: ⟨.efdRead .parent, .ok 1⟩ :: _) _ := .call (.call hafter)
  have heval := eval_of_reaches hmain (follows_cons.2 ⟨rfl, follows_cons.2
    ⟨hread.symm, eval_follows ω.answers _ _⟩⟩)
  rw [eval_of_runs hr hf] at heval
  have hh : h = _ := congrArg Prod.fst heval
  have hmem := configure_releases hrun
  rw [hh]
  exact List.mem_append_left _ (.tail _ (.tail _ hmem))

theorem not_deadlocked_of_completes
    (hc : ∀ child h₀, Forks ω.answers req root child h₀ → HandshakeCompletes ω req child h₀)
    (hr : ω.kernel.Reachable root req.wrap s₀ cfg) : ¬ Deadlocked ω.kernel cfg := by
  rintro ⟨p, q, ⟨hpx, r, hpd⟩, hx, x, k, hq, hforever⟩
  have hlin := Reachable.of_restrict _ hr
  rcases process_cases hlin hq with ⟨-, hk, -⟩ | ⟨child, h₀, h₁, h₂, p₁, p₂, hp, hcase⟩
  · exact absurd hk (by simp [Call.kind, soloKinds])
  obtain ⟨hf₀, hfork, hf₁, hf₂⟩ := hp.follows hr
  obtain ⟨hsig, hrel⟩ := hc child h₀ ⟨hp.prologue, hf₀, hfork, hp.ne⟩
  -- One of the pair has ended and the other waits, so they are the two processes of the fork
  have hpq : p ≠ q := by
    rintro rfl
    cases hpd.symm.trans hq
  rcases hcase with ⟨rfl, rfl, hat⟩ | ⟨rfl, rfl, hat⟩
  · -- the supervisor waits, and the child has ended
    obtain ⟨rfl, rfl⟩ := supervise_at_read hat
    obtain ⟨-, rfl, heq⟩ := (hp.proc_cases hpd).resolve_left fun h => hpq h.1
    cases heq
    have hhist : h₀ ++ ⟨.fork, .ok (.parent p)⟩ :: [⟨.storeChildPid p, ()⟩] = rootWaiting p h₀ := by
      simp
    rw [hhist] at hq
    cases hans : ω.answers (rootWaiting p h₀) (.efdRead .parent) with
    -- A read that fails does not block
    | error e =>
      have hallows : ω.kernel.allows cfg.state q (rootWaiting p h₀) (.efdRead .parent) (.error e) :=
        ⟨trivial, hans.symm⟩
      exact not_blocked hq hallows rfl hforever
    | ok n =>
      obtain rfl := ω.reads _ _ _ hans
      -- The child has posted to the eventfd, and nobody has read it
      obtain ⟨h₃, h₄, rfl, hrun⟩ := childMain_begins (hsig hans) hp.childReaches hf₂
      have hpos := childSignal_posted hrun
      have hallows : ω.kernel.allows cfg.state q (rootWaiting p h₀) (.efdRead .parent) (.ok 1) :=
        ⟨hp.allows_read q ?_, hans.symm⟩
      · exact not_blocked hq hallows rfl hforever
      rw [hp.taken_parent, posted_append]
      simp only [taken_cons, takes, taken_nil]
      omega
  · -- the child waits, and the supervisor has ended
    obtain ⟨rfl, hrun⟩ := childMain_at_read hat
    obtain ⟨rfl, heq⟩ := (hp.proc_cases hpd).resolve_right fun h => hpq h.2.1
    cases heq
    have hhist : h₀ ++ ⟨.fork, .ok .child⟩ :: h₂ = childWaiting ω.answers req h₀ := by
      simp [childWaiting, eval_of_runs hrun hf₂]
    rw [hhist] at hq
    cases hans : ω.answers (childWaiting ω.answers req h₀) (.efdRead .child) with
    | error e =>
      have hallows : ω.kernel.allows cfg.state q (childWaiting ω.answers req h₀) (.efdRead .child)
          (.error e) := ⟨trivial, hans.symm⟩
      exact not_blocked hq hallows rfl hforever
    | ok n =>
      obtain rfl := ω.reads _ _ _ hans
      -- The supervisor has posted to the eventfd, and nobody has read it
      obtain ⟨hread, hconf⟩ := hrel (succeeds_of_runs hrun hf₂) hans
      have hpos := posted_pos Nat.one_pos (supervise_begins hread hconf hp.rootReaches hf₁)
      have hallows : ω.kernel.allows cfg.state q (childWaiting ω.answers req h₀) (.efdRead .child)
          (.ok 1) := ⟨hp.allows_read q ?_, hans.symm⟩
      · exact not_blocked hq hallows rfl hforever
      rw [hp.taken_child, childSignal_taken hrun]
      omega

/-! ## A deadlock if it does not -/

/-- A process whose read finds nothing is blocked for ever, once the other has ended. -/
private theorem Pair.blocked (hp : req.Pair root s₀ cfg child h₀ h₁ h₂ p₁ p₂) {x : Efd}
    {k : Except Errno Nat → Sys Unit} {p : Int} {h' : List Event}
    (hproc : cfg.procs p = some ⟨h', .call (I := calls) (.efdRead x) k⟩)
    (hdone : ∀ q, q ≠ p → ∀ h c k, cfg.procs q ≠ some ⟨h, .call (I := calls) c k⟩)
    (hz : posted x h₁ + posted x h₂ = 0) (hans : ω.answers h' (.efdRead x) = Except.ok 1) :
    BlockedForever ω.kernel cfg p := by
  refine ⟨h', x, k, hproc, fun cfg' hsteps => ?_⟩
  have hstuck : cfg' = cfg := Kernel.eq_of_stuck (fun q h c k a hq hallows => ?_) hsteps
  · rw [hstuck]
  · by_cases hqp : q = p
    · subst hqp
      cases hproc.symm.trans hq
      obtain ⟨hlin, ha⟩ := hallows
      rw [hans] at ha
      subst ha
      exact hp.not_allows_read q hz hlin
    · exact hdone q hqp _ _ _ hq

/-- The child has ended, and the supervisor waits for a signal that was not given. -/
private theorem Pair.deadlocked_root {k : Except Errno Nat → Sys Unit} {r : Outcome Err Unit}
    (hp : req.Pair root s₀ cfg child h₀ h₁ h₂ (.call (I := calls) (.efdRead .parent) k) (.done r))
    (hz : posted .parent h₁ + posted .parent h₂ = 0)
    (hans : ω.answers (rootStart h₀ child ++ h₁) (.efdRead .parent) = Except.ok 1) :
    Deadlocked ω.kernel cfg := by
  refine ⟨child, root, ⟨_, r, hp.childProc⟩, hp.blocked hp.rootProc (fun q hq h c k hP => ?_) hz
    (by simpa using hans)⟩
  obtain ⟨-, -, heq⟩ := (hp.proc_cases hP).resolve_left fun h => hq h.1
  cases heq

/-- The supervisor has ended, and the child waits for a release that was not given. -/
private theorem Pair.deadlocked_child {k : Except Errno Nat → Sys Unit} {r : Outcome Err Unit}
    (hp : req.Pair root s₀ cfg child h₀ h₁ h₂ (.done r) (.call (I := calls) (.efdRead .child) k))
    (hz : posted .child h₁ + posted .child h₂ = 0)
    (hans : ω.answers (childStart h₀ ++ h₂) (.efdRead .child) = Except.ok 1) :
    Deadlocked ω.kernel cfg := by
  refine ⟨root, child, ⟨_, r, hp.rootProc⟩, hp.blocked hp.childProc (fun q hq h c k hP => ?_) hz
    (by simpa using hans)⟩
  obtain ⟨-, heq⟩ := (hp.proc_cases hP).resolve_right fun h => hq h.2.1
  cases heq

/-- What `p` fails to do is not done by what comes after it. -/
private theorem fails_bind {α β : Type} {p : Sys α} {f : α → Sys β}
    (hp : ¬ p.Succeeds ω.answers h) : ∃ r, (p >>= f).Runs (p.eval ω.answers h).1 r := by
  have hmain := reaches_bind (f := f).2 (.inl ⟨_, p.eval_runs ω.answers h, rfl⟩)
  cases hout : (p.eval ω.answers h).2 with
  | ok a => exact absurd ⟨a, hout⟩ hp
  | err e => rw [hout] at hmain; exact ⟨_, hmain⟩
  | halt n => rw [hout] at hmain; exact ⟨_, hmain⟩

/-- The child fails before its signal, and the supervisor waits for it. -/
theorem deadlock_of_not_signals (s₀ : World) (hf : Forks ω.answers req root child h₀)
    (hread : SignalReadable ω.answers child h₀) (hsig : ¬ Signals ω.answers req h₀) :
    ∃ cfg, ω.kernel.Reachable root req.wrap s₀ cfg ∧ Deadlocked ω.kernel cfg := by
  obtain ⟨hpro, hfol, hfork, hne⟩ := hf
  obtain ⟨cfg₀, hr₀, hp₀⟩ := pair_starts s₀ hpro hfol hfork hne
  -- the child runs to its end
  have hfc := eval_follows ω.answers req.childSignal (childStart h₀)
  obtain ⟨r, hend⟩ : ∃ r, req.childMain.Runs _ r := fails_bind hsig
  obtain ⟨cfg₁, hs₁, hp₁⟩ := hp₀.child_steps hr₀ hend (by simpa using hfc) (allows_of_frees fun e =>
    req.childSignal_free.mem (e := e) (req.childSignal.eval_runs ω.answers _))
  -- the supervisor runs to its read
  have hr₁ := hr₀.trans hs₁
  obtain ⟨cfg₂, hs₂, hp₂⟩ := hp₁.root_steps hr₁ (req.supervise_waits child)
    (follows_cons.2 ⟨rfl, follows_nil _⟩) (allows_of_frees (by simp [Call.free]))
  refine ⟨cfg₂, hr₁.trans hs₂, hp₂.deadlocked_root ?_ hread⟩
  rw [Nat.add_eq_zero_iff]
  refine ⟨by simp [posted, posts], ?_⟩
  -- a signal in the child's history would be the end of a good run
  by_contra hpos
  obtain ⟨v, hv⟩ := exists_write_of_posted (Nat.pos_of_ne_zero hpos)
  rw [List.nil_append] at hv
  obtain ⟨h₃, h₄, heq, hsignal⟩ := signalled_of_write hend hv
  rw [heq] at hfc
  exact hsig (succeeds_of_runs hsignal (follows_append.1 hfc).1)

/-- The supervisor fails before its release, and the child waits for it. -/
theorem deadlock_of_not_configures (s₀ : World) (hf : Forks ω.answers req root child h₀)
    (hsig : Signals ω.answers req h₀) (hread : ReleaseReadable ω.answers req h₀)
    (hconf : ¬ (SignalReadable ω.answers child h₀ ∧ Configures ω.answers req child h₀)) :
    ∃ cfg, ω.kernel.Reachable root req.wrap s₀ cfg ∧ Deadlocked ω.kernel cfg := by
  have hno : ∀ {cfg h₁ h₂ p₁ p₂}, req.Pair root s₀ cfg child h₀ h₁ h₂ p₁ p₂ →
      posted .child h₁ = 0 → posted .child h₁ + posted .child h₂ = 0 := by
    intro cfg h₁ h₂ p₁ p₂ hp hz
    rw [hz, hp.posted_child]
  cases hans : ω.answers (rootWaiting child h₀) (.efdRead .parent) with
  | error e =>
    -- the supervisor fails at its read
    obtain ⟨cfg, hr, hp⟩ := pair_waits s₀ hf hsig
    obtain ⟨cfg', hs, hp'⟩ := hp.root_steps hr
      (h := [⟨.efdRead .parent, .error e⟩]) (.call (.refl _))
      (follows_cons.2 ⟨hans.symm, follows_nil _⟩) (allows_of_single trivial nofun)
    exact ⟨cfg', hr.trans hs, hp'.deadlocked_child (hno hp' (by simp [posted, posts])) hread⟩
  | ok n =>
    -- the supervisor fails while it configures
    obtain rfl := ω.reads _ _ _ hans
    have hfail : ¬ Configures ω.answers req child h₀ := fun hc => hconf ⟨hans, hc⟩
    obtain ⟨cfg, hr, hp⟩ := pair_configures s₀ hf hsig hans
    have hfr := eval_follows ω.answers (req.configure child) (rootSignalled child h₀)
    obtain ⟨r, hend⟩ := fails_bind (f := fun _ : Unit => waitForPid child >>= fun exitcode =>
      reapChildren >>= fun _ => (Prog.halt exitcode : Sys Unit)) hfail
    obtain ⟨cfg', hs, hp'⟩ := hp.root_steps hr hend (by simpa using hfr)
      (allows_of_frees fun e => (req.configure_free child).mem (e := e)
        ((req.configure child).eval_runs ω.answers _))
    refine ⟨cfg', hr.trans hs, hp'.deadlocked_child (hno hp' ?_) hread⟩
    -- a release in the supervisor's history would be the end of a good configuration
    by_contra hpos
    obtain ⟨v, hv⟩ := exists_write_of_posted (Nat.pos_of_ne_zero hpos)
    obtain ⟨n, h₃, h₄, heq, hgood⟩ := configured_of_release hp'.rootReaches hv
    simp only [List.cons_append, List.nil_append, List.cons.injEq, true_and] at heq
    obtain ⟨-, heq⟩ := heq
    rw [heq] at hfr
    exact hfail (succeeds_of_runs hgood (follows_append.1 hfr).1)

/-- Exactly when no process of a `wrap` ends while the other waits for it for ever. -/
theorem wrap_deadlockFree_iff (ω : Pattern) (req : CreateRequest) (root : Int) (s₀ : World) :
    (∀ cfg, ω.kernel.Reachable root req.wrap s₀ cfg → ¬ Deadlocked ω.kernel cfg) ↔
      ∀ child h₀, Forks ω.answers req root child h₀ → HandshakeCompletes ω req child h₀ := by
  constructor
  · intro hfree child h₀ hf
    refine ⟨fun hread => ?_, fun hsig hread => ?_⟩
    · by_contra hsig
      obtain ⟨cfg, hr, hd⟩ := deadlock_of_not_signals s₀ hf hread hsig
      exact hfree cfg hr hd
    · by_contra hconf
      obtain ⟨cfg, hr, hd⟩ := deadlock_of_not_configures s₀ hf hsig hread hconf
      exact hfree cfg hr hd
  · exact fun hc cfg hr => not_deadlocked_of_completes hc hr

/-- Every call succeeds but `pivot_root`. -/
def pivotRefused : Pattern where
  answers := answering (.pivotRoot "." ".") (.error Errno.EPERM)
  reads _ _ _ h := (Except.ok.inj h).symm

/-- A child whose `pivot_root` is refused ends, and its supervisor waits for ever. -/
theorem wrap_deadlock_pivotRefused : ∃ cfg,
    pivotRefused.kernel.Reachable 1 (simple [.mount]).wrap .fresh cfg ∧
      Deadlocked pivotRefused.kernel cfg := by
  have hforks := forks_of_succeeds (simple [.mount]) pivotRefused.answers 1 2
    ⟨(), by decide⟩ rfl (by decide)
  refine deadlock_of_not_signals .fresh hforks rfl fun hs => ?_
  obtain ⟨⟨⟩, hok⟩ := hs
  exact absurd hok (by decide)

end CreateRequest

end Styrolite
