import Styrolite.Spec.IdMapCorrect

/-!
# The identity of a workload

`identity` is the workload id, or else the process id of its caller. It is called
by the supervisor, for the control group and the hostname, and again by the
child, for the staging path of `pivot_fs`. Without a workload id the child's
answer is another one, unless both processes happen to have the number 1.

## Key results

- `trace_getpid`: the process ids a run is told
- `yields_of_stable`: where `identity` yields the same string everywhere
- `exists_staged`: a run in which the child calls `identity`
- `wrap_identities_iff`: when identities are stable, and staging paths then apart
-/

namespace Styrolite

open Prog Kernel

/-! ## Process ids -/

/-- The number of a process in its own process-id namespace. -/
def NsState.pidOf (s : NsState) (p : Int) : Option Int := s.number p (s.ns p .pid)

/-- Linux, where a process that asks for its id is told this number. -/
def withPids : Kernel calls Int World :=
  linux.restrict fun s p _ c a =>
    ∀ n : Nat, (⟨c, a⟩ : Event) = ⟨.getpid, n⟩ → s.ns.pidOf p = some (n : Int)

/-- The call neither makes a process nor moves one to another's namespaces. -/
def Call.keepsPids (c : Call) : Prop := c ≠ .fork ∧ ∀ target flags, c ≠ .setns target flags

/-- Only forks and joined namespaces change what pid a process has. -/
theorem Call.keepsPids_of_kind {c : Call} (hk : c.kind ∉ [.fork, .ns]) : c.keepsPids := by
  constructor
  · rintro rfl
    exact hk (by simp [Call.kind])
  · rintro target flags rfl
    exact hk (by simp [Call.kind])

/-- An `unshare` moves the children only. -/
theorem Call.keepsPids_unshare (flags : CInt) : (Call.unshare flags).keepsPids :=
  ⟨by simp, by simp⟩

namespace NsState

/-- An `unshare` leaves the caller itself in its process-id namespace. -/
theorem pidOf_next (s : NsState) (p q : Int) {c : Call} (a : c.Answer) (hc : c.keepsPids) :
    (s.next q c a).pidOf p = s.pidOf p := by
  unfold next
  split
  · next flags =>
    by_cases hpq : p = q
    · subst hpq
      simp [pidOf, unshare, Namespace.deferred]
    · simp [pidOf, unshare, hpq]
  · next target flags => exact absurd rfl (hc.2 target flags)
  · exact absurd rfl hc.1
  · rfl
  · rfl
  · rfl

/-- A history of such calls leaves the pids. -/
theorem pidOf_after (s : NsState) (p q : Int) {h : List Event} (hh : ∀ e ∈ h, e.call.keepsPids) :
    (s.after q h).pidOf p = s.pidOf p := by
  induction h generalizing s with
  | nil => rfl
  | cons e h ih =>
    rw [after_cons, ih _ fun e' he' => hh e' (List.mem_cons_of_mem e he')]
    exact s.pidOf_next p q e.answer (hh e List.mem_cons_self)

/-- A fork leaves the others' pids. -/
theorem pidOf_fork_of_ne (s : NsState) {p q r : Int} (hne : r ≠ q) :
    (s.fork p q).pidOf r = s.pidOf r := by
  simp [pidOf, fork, hne]

end NsState

namespace CreateRequest

variable {req : CreateRequest} {root : Nat} {child : Int} {s₀ : World}
  {cfg : Config calls Int World Err Unit} {h : List Event}

/-- The prologue makes no process and joins nothing. -/
theorem prologue_keepsPids (req : CreateRequest) : req.prologue.Uses Call.keepsPids := by
  have hk : ∀ {α : Type} {p : Sys α} {ks : List Call.Kind}, p.Uses (Call.within ks) →
      (∀ k ∈ ks, k ∉ [.fork, .ns]) → p.Uses Call.keepsPids := fun hp hks =>
    hp.mono fun _ hc => Call.keepsPids_of_kind (hks _ hc)
  exact .bind (hk (.attempt req.prepareCgroup_uses) (by decide)) fun _ =>
    .bind (.bind (Uses.sys (I := calls) (Call.keepsPids_unshare _)) fun _ => .check _ _) fun _ =>
    hk req.setup_uses (by decide)

/-- Neither does the child. -/
theorem childMain_keepsPids (req : CreateRequest) : req.childMain.Uses Call.keepsPids := by
  have hk : ∀ {α : Type} {p : Sys α} {ks : List Call.Kind}, p.Uses (Call.within ks) →
      (∀ k ∈ ks, k ∉ [.fork, .ns]) → p.Uses Call.keepsPids := fun hp hks =>
    hp.mono fun _ hc => Call.keepsPids_of_kind (hks _ hc)
  have hstage : req.stage.Uses Call.keepsPids :=
    .when fun _ => .bind (hk req.pivotIfMount_uses (by decide)) fun _ => .when fun _ =>
      .bind (Uses.sys (I := calls) (Call.keepsPids_unshare _)) fun _ => .check _ _
  exact .bind (.bind (hk (orExit_uses resetChildSignalHandlers_uses) (by decide)) fun _ =>
      .bind hstage fun _ => .bind (Uses.sys (I := calls) (Call.keepsPids_of_kind (by decide)))
        fun _ => .bind (.check _ _) fun _ => .pure _) fun _ =>
    .bind (Uses.sys (I := calls) (Call.keepsPids_of_kind (by decide))) fun _ =>
    .bind (.check _ _) fun _ => hk req.childRest_uses (by decide)

/-- The process id of the child. -/
def childPid (req : CreateRequest) (child : Int) : Int := if .pid ∈ req.targetNs then 1 else child

/-- The state a run starts in: the supervisor is named by its process id. -/
structure Starts (s₀ : World) (root : Nat) : Prop where
  initial : s₀.Initial root
  named : s₀.ns.pidOf root = some (root : Int)

/-- The supervisor's number is its own. -/
theorem Pair.pidOf_root {h₀ h₁ h₂ : List Event} {p₁ p₂ : Sys Unit} (hs₀ : Starts s₀ root)
    (hp : req.Pair root s₀ cfg child h₀ h₁ h₂ p₁ p₂) :
    cfg.state.ns.pidOf root = some (root : Int) := by
  rw [hp.ns, NsState.pidOf_after _ _ _ fun e he => req.childMain_keepsPids.mem hp.childReaches he,
    NsState.pidOf_fork_of_ne _ hp.ne.symm,
    NsState.pidOf_after _ _ _ fun e he => req.prologue_keepsPids.mem hp.prologue he]
  exact hs₀.named

/-- The child's number is 1 in a pid namespace of its own, or the one that the supervisor sees. -/
theorem Pair.pidOf_child {h₀ h₁ h₂ : List Event} {p₁ p₂ : Sys Unit} (hs₀ : Starts s₀ root)
    (hp : req.Pair root s₀ cfg child h₀ h₁ h₂ p₁ p₂) :
    cfg.state.ns.pidOf child = some (req.childPid child) := by
  have hforked : (s₀.ns.after root h₀).fork root child = req.forked s₀.ns root child := by
    rw [prologue_ns _ _ hp.prologue]
    rfl
  rw [hp.ns, NsState.pidOf_after _ _ _ fun e he => req.childMain_keepsPids.mem hp.childReaches he,
    hforked, childPid, NsState.pidOf]
  by_cases hpid : .pid ∈ req.targetNs
  · rw [forked_number_inner hs₀.initial hpid, if_pos hpid]
  · rw [forked_ns_child_pid hs₀.initial hpid, forked_number_outer, if_neg hpid]

/-- The process id of the process `pid` of a run. -/
def ownPid (req : CreateRequest) (root : Nat) (pid : Int) : Int :=
  if pid = root then root else req.childPid pid

/-- A process about to ask for its id has the number it is to be told. -/
theorem pidOf_at_getpid (hs₀ : Starts s₀ root) (hr : linux.Reachable root req.wrap s₀ cfg)
    {pid : Int} {k : Nat → Sys Unit}
    (hproc : cfg.procs pid = some ⟨h, .call (I := calls) .getpid k⟩) :
    cfg.state.ns.pidOf pid = some (req.ownPid root pid) := by
  -- The supervisor alone, or one of two processes
  rcases wrap_cases hr with ⟨h', q, hsolo⟩ | ⟨child, h₀, h₁, h₂, p₁, p₂, hp⟩
  · obtain ⟨rfl, heq⟩ := hsolo.proc_eq hproc
    cases heq
    rw [ownPid, if_pos rfl, hsolo.state, linux_after_ns]
    rcases solo_at hsolo with ⟨k', hat⟩ | hfork
    · rw [NsState.pidOf_after _ _ _ fun e he => req.prologue_keepsPids.mem hat he]
      exact hs₀.named
    · cases hfork
  · rcases hp.proc_cases hproc with ⟨rfl, -⟩ | ⟨hroot, rfl, -⟩
    · rw [ownPid, if_pos rfl]
      exact hp.pidOf_root hs₀
    · rw [ownPid, if_neg hroot]
      exact hp.pidOf_child hs₀

/-- The process ids that the processes of a run are told. -/
theorem trace_getpid (hs₀ : Starts s₀ root) (hr : withPids.Reachable root req.wrap s₀ cfg)
    {pid : Int} {n : Nat} (he : (pid, (⟨.getpid, n⟩ : Event)) ∈ cfg.trace) :
    (n : Int) = req.ownPid root pid := by
  have htold := Reachable.trace_of (K := withPids)
    (Φ := fun pid e => ∀ n : Nat, e = ⟨.getpid, n⟩ → (n : Int) = req.ownPid root pid)
    (fun cfg pid h c k a hr hproc hallows n heq => ?_) hr he
  · rcases htold with htold | ⟨a, r, hspawn⟩
    · exact htold n rfl
    · cases hspawn
  · cases heq
    have hnumber := hallows.2 n rfl
    rw [pidOf_at_getpid hs₀ (Reachable.of_restrict _ hr) hproc] at hnumber
    exact (Option.some.inj hnumber).symm

/-! ## Uses of `identity` -/

/-- Before `preexec_prep`, `identity` was called and yielded `wid`. (Apart from `identity`, only
    `prepare_cgroup` asks for the process id there, for its own use in the supervisor.) -/
def Yielded (req : CreateRequest) (h : List Event) (wid : String) : Prop :=
  ∃ h₁ h' h₂, h = h₁ ++ (h' ++ h₂) ∧ req.identity.Runs h' (.ok wid) ∧
    ∀ e ∈ h₁, e.call ≠ .enter .preexecPrep

/-- In `pivot_fs`, for its staging path, `identity` was called and yielded `wid`. -/
def Staged (req : CreateRequest) (h : List Event) (wid : String) : Prop :=
  ∃ h₁ h' h₂, h = h₁ ++ (h' ++ h₂) ∧ req.identity.Runs h' (.ok wid) ∧
    (∀ e ∈ h₁, e.call ≠ .enter .preexecPrep) ∧ ∃ e ∈ h₁, e.call = .enter .pivotFs

/-- What is staged has been yielded. -/
theorem Staged.yielded {wid : String} (hs : req.Staged h wid) : req.Yielded h wid := by
  obtain ⟨h₁, h', h₂, heq, hrun, hbefore, -⟩ := hs
  exact ⟨h₁, h', h₂, heq, hrun, hbefore⟩

/-- `identity` asks for the pid, and takes the given id if there is one. -/
theorem identity_runs {wid : String} (hr : req.identity.Runs h (.ok wid)) :
    ∃ n : Nat, h = [⟨.getpid, n⟩] ∧ wid = req.workloadId.getD (toString n) := by
  obtain ⟨n, h', rfl, hr'⟩ := runs_sys_bind.1 hr
  obtain ⟨rfl, heq⟩ := runs_pure.1 hr'
  cases heq
  exact ⟨n, rfl, rfl⟩

/-- What `identity` is to yield everywhere: the workload id, or else the supervisor's. -/
def workload (req : CreateRequest) (root : Nat) : String := req.workloadId.getD (toString root)

/-- Where the child is told the same as the supervisor, or is not asked. -/
def Stable (req : CreateRequest) (root : Nat) : Prop :=
  req.workloadId.isSome ∨ .mount ∉ req.targetNs ∨ req.rootfs = none ∨
    (.pid ∈ req.targetNs ∧ root = 1)

/-- The console is set up without asking for the pid. -/
theorem setupConsole_noGetpid (uid : Option UInt32) :
    (setupConsole uid).Uses fun (c : Call) => c ≠ .getpid := by
  -- The search for a terminal asks for terminals only
  have hfind : ∀ fds, (findTty fds).Uses fun (c : Call) => c ≠ .getpid := by
    intro fds
    induction fds with
    | nil => exact .pure _
    | cons fd fds ih =>
      refine .bind (Uses.sys (I := calls) (by simp)) fun b => ?_
      cases b with
      | true => exact .pure _
      | false => exact ih
  have hk : ∀ {α : Type} {p : Sys α} {ks : List Call.Kind}, p.Uses (Call.within ks) →
      .env ∉ ks → p.Uses fun (c : Call) => c ≠ .getpid := fun hp hks =>
    hp.mono fun _ hc heq => hks (by rw [heq] at hc; exact hc)
  -- No other part of it asks for the process's number
  refine .bind (Uses.sys (I := calls) (by simp)) fun _ => .whenSome fun execUid _ =>
    .bind (hfind _) fun _ => .whenSome fun ttyFd _ => ?_
  refine .bind (Uses.sys (I := calls) (by simp)) fun _ => .bind (.mapErr (.check _ _)) fun _ =>
    .bind (Uses.sys (I := calls) (by simp)) fun _ =>
    .bind (.when fun _ => .bind (Uses.sys (I := calls) (by simp)) fun _ =>
      .mapErr (.check _ _)) fun _ =>
    .bind (.mapErr (hk (MountSpec.mount_uses _) (by decide))) fun _ =>
    .bind (Uses.sys (I := calls) (by simp)) fun r => ?_
  split
  · exact .pure _
  · split
    · exact .pure _
    · exact .fail _

/-- `pivot_fs` asks for the process id only if it has a root to set up. -/
theorem pivotIfMount_at_getpid (hat : req.pivotIfMount.At h .getpid) :
    .mount ∈ req.targetNs ∧ req.rootfs ≠ none := by
  obtain ⟨hm, hat₁⟩ := at_when.1 hat
  refine ⟨hm, fun hnone => ?_⟩
  rcases at_sys_bind.1 hat₁ with ⟨-, hc⟩ | ⟨_, h', -, hat₂⟩
  · cases hc
  · unfold pivotFsBody at hat₂
    rw [hnone] at hat₂
    exact absurd hat₂ at_done

/-- Before `preexec_prep` the child asks for its process id only in `pivot_fs`. -/
theorem childMain_at_getpid (hat : req.childMain.At h .getpid)
    (hbefore : ∀ e ∈ h, e.call ≠ .enter .preexecPrep) :
    .mount ∈ req.targetNs ∧ req.rootfs ≠ none := by
  have hk : Call.getpid.kind ∈ [.env] := by simp [Call.kind]
  -- Along the child's own code: the pid is asked for in `pivot_fs` and in `preexec_prep`
  rcases at_bind.1 hat with hat₁ | ⟨⟨⟩, h₁, h₂, -, hat₁, rfl⟩
  · -- Before the signal to the supervisor
    obtain ⟨⟨⟩, _, h₃, -, hat₂, rfl⟩ :=
      (orExit_uses resetChildSignalHandlers_uses).at_past (by decide) hk hat₁
    rcases at_bind.1 hat₂ with hat₃ | ⟨⟨⟩, _, h₄, -, hat₃, -⟩
    · rcases at_bind.1 (at_when.1 hat₃).2 with hat₄ | ⟨⟨⟩, _, h₅, -, hat₄, -⟩
      · exact pivotIfMount_at_getpid hat₄
      · exact absurd (at_when.1 hat₄).2 ((unshare_uses _).not_at (by decide) hk)
    · simp at hat₃
  · -- After the answer
    simp only [at_sys_bind, at_check_bind] at hat₁
    rcases hat₁ with ⟨-, hc⟩ | ⟨_, h₃, rfl, n, -, hat₂⟩
    · cases hc
    rcases at_bind.1 hat₂ with hat₃ | ⟨⟨⟩, h₄, _, -, hat₃, rfl⟩
    · exact pivotIfMount_at_getpid (at_when.1 hat₃).2
    obtain ⟨⟨⟩, h₅, _, -, hat₄, rfl⟩ := (applyOomScore_uses _).at_past (by decide) hk hat₃
    rcases at_bind.1 hat₄ with hat₅ | ⟨⟨⟩, h₆, h₇, -, hat₅, rfl⟩
    · exact absurd rfl (setupConsole_noGetpid _ _ _ hat₅)
    -- from here on `preexec_prep` has been entered
    rcases at_bind.1 hat₅ with hat₆ | ⟨⟨⟩, h₈, _, -, hat₆, -⟩
    · rcases at_sys_bind.1 hat₆ with ⟨-, hc⟩ | ⟨u, h₉, rfl, -⟩
      · cases hc
      · exact absurd rfl (hbefore ⟨.enter .preexecPrep, u⟩ (by simp))
    · exact absurd hat₆ (req.exec.execute_uses.not_at (by decide) hk)

/-- A process that was told a process id was told the supervisor's, or is the child and asked
    after the fork. -/
theorem getpid_cases (hs₀ : Starts s₀ root) (hr : withPids.Reachable root req.wrap s₀ cfg)
    {pid : Int} {q : Sys Unit} (hproc : cfg.procs pid = some ⟨h, q⟩) {h₁ h₂ : List Event} {n : Nat}
    (heq : h = h₁ ++ ⟨.getpid, n⟩ :: h₂) :
    n = root ∨ ∃ h₀ h₃, h₁ = h₀ ++ ⟨.fork, .ok .child⟩ :: h₃ ∧ req.childMain.At h₃ .getpid ∧
      (n : Int) = req.childPid pid := by
  -- Whatever the supervisor is told is its own number
  have hroot : ((root : Int), (⟨.getpid, n⟩ : Event)) ∈ cfg.trace → n = root := by
    intro he
    have hn := trace_getpid hs₀ hr he
    rw [ownPid, if_pos rfl] at hn
    exact Int.ofNat.inj hn
  rcases wrap_cases (Reachable.of_restrict _ hr) with
    ⟨h', q', hsolo⟩ | ⟨child, h₀, hr₁, hc₁, p₁, p₂, hp⟩
  · obtain ⟨rfl, hP⟩ := hsolo.proc_eq hproc
    cases hP
    exact .inl (hroot (by simp [hsolo.trace, heq]))
  rcases hp.proc_cases hproc with ⟨rfl, hP⟩ | ⟨hpid, rfl, hP⟩
  · cases hP
    -- The supervisor: the answer came before the fork or after it
    have hmem : (⟨.getpid, n⟩ : Event) ∈ h₀ ++ ⟨.fork, .ok (.parent child)⟩ :: hr₁ := by
      rw [heq]
      simp
    refine .inl (hroot ?_)
    rw [hp.trace.mem_iff]
    rcases List.mem_append.1 hmem with hmem | hmem
    · simp [hmem]
    · rcases List.mem_cons.1 hmem with hfork | hmem
      · cases hfork
      · simp [hmem]
  · cases hP
    rcases List.append_eq_append_iff.1 heq with ⟨h', rfl, heq'⟩ | ⟨h', rfl, heq'⟩
    · -- after the fork
      cases h' with
      | nil => cases heq'
      | cons e h' =>
        obtain ⟨rfl, rfl⟩ : e = ⟨.fork, .ok .child⟩ ∧ hc₁ = h' ++ ⟨.getpid, n⟩ :: h₂ := by
          simpa [eq_comm] using heq'
        have he : (pid, (⟨.getpid, n⟩ : Event)) ∈ cfg.trace := by
          rw [hp.trace.mem_iff]
          simp
        have hn := trace_getpid hs₀ hr he
        rw [ownPid, if_neg hpid] at hn
        exact .inr ⟨h₀, h', rfl, hp.childReaches.at_of_split, hn⟩
    · -- before the fork
      cases h' with
      | nil => cases heq'
      | cons e h' =>
        obtain ⟨rfl, -⟩ : (⟨.getpid, n⟩ : Event) = e ∧ _ := by simpa using heq'
        refine .inl (hroot ?_)
        rw [hp.trace.mem_iff]
        simp

/-- Where the condition holds, `identity` yields the same string everywhere. -/
theorem yields_of_stable (hs₀ : Starts s₀ root) (hr : withPids.Reachable root req.wrap s₀ cfg)
    (hstable : req.Stable root) {pid : Int} {q : Sys Unit} (hproc : cfg.procs pid = some ⟨h, q⟩)
    {wid : String} (hy : req.Yielded h wid) : wid = req.workload root := by
  obtain ⟨h₁, h', h₂, rfl, hrun, hbefore⟩ := hy
  obtain ⟨n, rfl, rfl⟩ := identity_runs hrun
  unfold workload
  cases hwid : req.workloadId with
  | some wid => rfl
  | none =>
    suffices hn : n = root by rw [hn]
    -- The supervisor's own number, or the child's
    rcases getpid_cases hs₀ hr hproc rfl with hn | ⟨h₀, h₃, rfl, hat, hn⟩
    · exact hn
    -- the child asked, so it has a root to set up, and both have the number 1
    obtain ⟨hm, hrootfs⟩ := childMain_at_getpid hat fun e he => hbefore e (by simp [he])
    rcases hstable with hs | hs | hs | ⟨hpid, hone⟩
    · rw [hwid] at hs
      cases hs
    · exact absurd hm hs
    · exact absurd hs hrootfs
    · rw [childPid, if_pos hpid] at hn
      omega

/-! ## A run in which the child calls `identity` -/

/-- Every call succeeds; the supervisor is told that it is `root`, and its child that it is `n`. -/
def pidAnswers (root n : Nat) : calls.Answers := fun h c =>
  match c with
  | .getpid => if h.any (·.call = .fork) then n else root
  | .fork => .ok (.parent (root + 1 : Nat))
  | c => c.success

section

variable {n : Nat}

/-- After a call, whatever it is answered. -/
private theorem always_call {α : Type} {c : Call} {k : c.Answer → Sys α}
    (hk : ∀ h, (k (pidAnswers root n h c)).Always (pidAnswers root n)) :
    Prog.Always (pidAnswers root n) (Bind.bind (α := no_index c.Answer) (sys c) k) :=
  Always.call (I := calls) hk

/-- Halting on an error calls nothing more. -/
private theorem orExit_always {p : Sys Unit} (hp : p.Always (pidAnswers root n)) :
    (orExit p).Always (pidAnswers root n) := by
  intro h
  obtain ⟨h', ⟨⟩, hr, hf⟩ := hp h
  refine ⟨h', (), runs_bind_ok.2 ⟨.ok (), h', [], ?_, .refl _, by simp⟩, hf⟩
  exact runs_attempt_ok.2 (.inl ⟨(), rfl, hr⟩)

/-- The answers let the supervisor come to the fork. -/
theorem prologue_always (root n : Nat) (req : CreateRequest) : req.prologue.Always (pidAnswers root n) :=
  .bind (.attempt req.prepareCgroup_returns) fun _ => .bind (always_call fun _ => .pure _) fun _ =>
    .bind (.attempt updateBoottime_returns) fun _ =>
    .bind (.attempt req.updateHostname_returns) fun _ =>
    .bind (.attempt req.exec.setProcessLimits_returns) fun _ =>
    .bind (orExit_always (.forM fun _ _ => always_call fun _ => .mapErr (.pure _))) fun _ =>
    always_call fun _ => .bind (.pure _) fun _ => always_call fun _ => .pure _

/-- The child comes to its signal. -/
theorem childSignal_always (root n : Nat) (hskip : req.skipTwoStage = true) :
    req.childSignal.Always (pidAnswers root n) :=
  .bind (orExit_always (.forM fun _ _ => always_call fun _ => .mapErr (.pure _))) fun _ =>
    .bind (.when fun hno => by simp [hskip] at hno) fun _ =>
    always_call fun _ => .bind (.pure _) fun _ => .pure _

/-- The child is configured. -/
theorem configure_always (root n : Nat) (req : CreateRequest) (child : Int) :
    (req.configure child).Always (pidAnswers root n) :=
  .bind (.when fun _ => always_call fun _ =>
      .bind (.whenSome fun _ _ => always_call fun _ => .pure _) fun _ =>
      .bind (.when fun _ => always_call fun _ => .pure _) fun _ =>
      .whenSome fun _ _ => always_call fun _ => .pure _) fun _ =>
    always_call fun _ => .bind (.pure _) fun _ => .pure _

/-- The calls of `pivot_fs` before its first call of `identity`, and that. -/
def pivotStart (n : Nat) : List Event :=
  [⟨.enter .pivotFs, ()⟩, ⟨.mount none "/" none oldroot.mountFlags none, .ok ()⟩] ++ [⟨.getpid, n⟩]

/-- `pivot_fs` comes to ask for the pid. -/
theorem pivotIfMount_starts (hm : .mount ∈ req.targetNs) (hrootfs : req.rootfs ≠ none) :
    ∃ q, req.pivotIfMount.Reaches (pivotStart n) q := by
  obtain ⟨r, hr⟩ := Option.ne_none_iff_exists'.1 hrootfs
  unfold pivotIfMount pivotFs pivotFsBody
  rw [Prog.when, if_pos hm, hr]
  exact ⟨_, .call (.call (.call (.refl _)))⟩

/-- The answers are those given so far. -/
theorem pivotStart_follows {h : List Event} (hfork : h.any (·.call = .fork) = true) :
    Follows (pidAnswers root n) h (pivotStart n) := by
  refine follows_cons.2 ⟨rfl, follows_cons.2 ⟨rfl, follows_cons.2 ⟨?_, follows_nil _⟩⟩⟩
  simp [pidAnswers, hfork]

/-- The history is of calls before `preexec_prep`. -/
private theorem early_of_uses {p q : Sys Unit} {ks : List Call.Kind} (hp : p.Uses (Call.within ks))
    (hks : Call.Kind.enterLate ∉ ks) (hr : p.Reaches h q) :
    ∀ e ∈ h, e.call ≠ .enter .preexecPrep := by
  intro e he heq
  have hk : e.call.kind ∈ ks := hp.mem (e := e) hr he
  rw [heq] at hk
  exact hks hk

/-- The child can come to call `identity` in `pivot_fs`, in either mode. -/
theorem child_pivotStart (root n : Nat) (s₀ : World) (hm : .mount ∈ req.targetNs)
    (hrootfs : req.rootfs ≠ none) :
    ∃ cfg h q, (linux.under (pidAnswers root n)).Reachable (root : Int) req.wrap s₀ cfg ∧
      cfg.procs (root + 1 : Nat) = some ⟨h ++ pivotStart n, q⟩ ∧
      ∀ e ∈ h, e.call ≠ .enter .preexecPrep := by
  obtain ⟨h₀, ⟨⟩, hpro, hfol⟩ := prologue_always root n req []
  have hne : ((root + 1 : Nat) : Int) ≠ root := by omega
  obtain ⟨q, hq⟩ := pivotIfMount_starts (n := n) hm hrootfs
  have hpivot : ∀ e ∈ pivotStart n, e.call.free = true := by simp [pivotStart, Call.free]
  have hearly := early_of_uses req.prologue_uses (by decide) hpro
  cases hskip : req.skipTwoStage with
  | false =>
    -- The two-stage mode: the child comes to `pivot_fs` on its own
    obtain ⟨cfg, hr, hp⟩ := pair_starts s₀ hpro hfol rfl hne
    have hreset : (orExit resetChildSignalHandlers).Always (pidAnswers root n) :=
      orExit_always (.forM fun _ _ => always_call fun _ => .mapErr (.pure _))
    obtain ⟨hs, ⟨⟩, hsr, hsf⟩ := hreset (childStart h₀)
    -- The child is at the staging, behind its signal handlers
    have hsfree := Call.free_of_uses (orExit_uses resetChildSignalHandlers_uses) (by decide) hsr
    have hstage : req.stage.Reaches (pivotStart n) (q >>= fun _ =>
        Prog.when (.user ∈ req.targetNs) (unshare [.user])) := by
      rw [stage, Prog.when, if_pos (by rw [hskip]; rfl)]
      exact reaches_bind.2 (.inl ⟨q, hq, rfl⟩)
    obtain ⟨q', hreach⟩ : ∃ q', req.childMain.Reaches (hs ++ pivotStart n) q' :=
      ⟨_, reaches_bind.2 (.inl ⟨_, reaches_bind.2 (.inr ⟨(), hs, _, hsr,
        reaches_bind.2 (.inl ⟨_, hstage, rfl⟩), rfl⟩), rfl⟩)⟩
    obtain ⟨cfg', hsteps, hp'⟩ := hp.child_steps hr hreach
      (by
        rw [List.append_nil]
        exact follows_append.2 ⟨hsf, pivotStart_follows (by simp)⟩)
      (allows_of_frees fun e he => by
        rcases List.mem_append.1 he with he | he
        · exact hsfree e he
        · exact hpivot e he)
    refine ⟨cfg', h₀ ++ ⟨.fork, .ok .child⟩ :: hs, q', hr.trans hsteps, ?_, ?_⟩
    · simpa using hp'.childProc
    · simp only [List.forall_mem_append, List.forall_mem_cons]
      exact ⟨hearly, by simp, early_of_uses (orExit_uses resetChildSignalHandlers_uses)
        (by decide) hsr⟩
  | true =>
    -- The other mode: the supervisor has to release the child first
    have hsig := (childSignal_always root n hskip).succeeds (childStart h₀)
    obtain ⟨cfg, h₁, p₁, hr, hp⟩ := pair_releases s₀ ⟨hpro, hfol, rfl, hne⟩ hsig rfl
      ((configure_always root n req _).succeeds _) rfl
    -- Released, it goes into `pivot_fs` at once
    obtain ⟨q', hrest⟩ : ∃ q', req.childRest.Reaches (pivotStart n) q' := by
      rw [childRest, Prog.when, if_pos hskip]
      exact ⟨_, reaches_bind.2 (.inl ⟨q, hq, rfl⟩)⟩
    obtain ⟨cfg', hsteps, hp'⟩ := hp.child_steps hr hrest (pivotStart_follows (by simp))
      (allows_of_frees hpivot)
    refine ⟨cfg', h₀ ++ ⟨.fork, .ok .child⟩ :: ((req.childSignal.eval (pidAnswers root n)
      (childStart h₀)).1 ++ [⟨.efdRead .child, .ok 1⟩]), q', hr.trans hsteps, ?_, ?_⟩
    · simpa using hp'.childProc
    · obtain ⟨⟨⟩, hrun⟩ := hsig.runs
      simp only [List.forall_mem_append, List.forall_mem_cons]
      exact ⟨hearly, by simp, early_of_uses req.childSignal_uses (by decide) hrun, by simp⟩

/-- These answers are the process ids of a run, if the child is told its own. -/
theorem withPids_of_under (hs₀ : Starts s₀ root) (hn : (n : Int) = req.childPid (root + 1 : Nat))
    (hr : (linux.under (pidAnswers root n)).Reachable (root : Int) req.wrap s₀ cfg) :
    withPids.Reachable (root : Int) req.wrap s₀ cfg := by
  refine Reachable.restrict_of linux (fun cfg pid h c k a hr hproc heq m hev => ?_) hr
  cases hev
  rw [pidOf_at_getpid hs₀ (linux_of_under hr) hproc, ownPid]
  rcases wrap_cases (linux_of_under hr) with
    ⟨h', q, hsolo⟩ | ⟨child, h₀, h₁, h₂, p₁, p₂, hp⟩
  · obtain ⟨rfl, hP⟩ := hsolo.proc_eq hproc
    cases hP
    rcases solo_at hsolo with ⟨k', hat⟩ | hfork
    · -- No fork yet, so the answer is the supervisor's number
      have hnone : h.any (·.call = .fork) = false := by
        rw [List.any_eq_false]
        intro e he
        simpa using (req.prologue_keepsPids.mem hat he).1
      obtain rfl : m = root := by simpa [pidAnswers, hnone] using heq
      rw [if_pos rfl]
    · cases hfork
  · rcases hp.proc_cases hproc with ⟨rfl, hP⟩ | ⟨hroot, rfl, hP⟩
    · cases hP
      -- After the fork the supervisor does not ask
      have hk : Call.getpid.kind ∈ [.env] := by simp [Call.kind]
      exact absurd ⟨k, hp.rootReaches⟩ ((req.supervise_uses child).not_at (by decide) hk)
    · cases hP
      obtain ⟨-, hfork, -, -⟩ := hp.follows hr
      obtain rfl : ((root + 1 : Nat) : Int) = pid := by
        simpa [pidAnswers] using hfork
      obtain rfl : m = n := by simpa [pidAnswers] using heq
      rw [if_neg hroot, hn]

/-- Elsewhere the child can come to another identity than the supervisor's. -/
theorem exists_staged (hs₀ : Starts s₀ root) (hwid : req.workloadId = none)
    (hm : .mount ∈ req.targetNs) (hrootfs : req.rootfs ≠ none) :
    ∃ cfg pid h q n, withPids.Reachable (root : Int) req.wrap s₀ cfg ∧
      cfg.procs pid = some ⟨h, q⟩ ∧ req.Staged h (toString (n : Nat)) ∧
      (n : Int) = req.childPid (root + 1 : Nat) := by
  obtain ⟨n, hn⟩ : ∃ n : Nat, (n : Int) = req.childPid (root + 1 : Nat) := by
    unfold childPid
    split
    · exact ⟨1, rfl⟩
    · exact ⟨root + 1, rfl⟩
  obtain ⟨cfg, h, q, hr, hproc, hbefore⟩ := child_pivotStart root n s₀ hm hrootfs
  refine ⟨cfg, _, _, q, n, withPids_of_under hs₀ hn hr, hproc, ?_, hn⟩
  -- Without an id the number is the identity
  have hrun : req.identity.Runs [⟨.getpid, n⟩] (.ok (toString n)) := by
    refine runs_sys_bind.2 ⟨n, [], rfl, ?_⟩
    rw [hwid]
    exact .refl _
  refine ⟨h ++ [⟨.enter .pivotFs, ()⟩, ⟨.mount none "/" none oldroot.mountFlags none, .ok ()⟩],
    [⟨.getpid, n⟩], [], by simp [pivotStart], hrun, ?_, ⟨.enter .pivotFs, ()⟩, by simp, rfl⟩
  intro e he
  rcases List.mem_append.1 he with he | he
  · exact hbefore e he
  · simp only [List.mem_cons, List.not_mem_nil, or_false] at he
    rcases he with rfl | rfl <;> simp

end

/-! ## Main theorem -/

variable {ι : Type} {reqs : ι → CreateRequest} {roots : ι → Nat} {worlds : ι → World}

/-- Every use of `identity` in the runs of a request yields its workload id, or else the process
    id of its supervisor. -/
def IdentityStable (req : CreateRequest) (root : Nat) (s₀ : World) : Prop :=
  ∀ cfg pid h q, withPids.Reachable (root : Int) req.wrap s₀ cfg → cfg.procs pid = some ⟨h, q⟩ →
    ∀ wid, req.Yielded h wid → wid = req.workload root

/-- No two of the requests can use the same identity for their staging paths. -/
def StagingApart (reqs : ι → CreateRequest) (roots : ι → Nat) (worlds : ι → World) : Prop :=
  ∀ i j, i ≠ j → ∀ cfg pid h q cfg' pid' h' q',
    withPids.Reachable (roots i : Int) (reqs i).wrap (worlds i) cfg →
    withPids.Reachable (roots j : Int) (reqs j).wrap (worlds j) cfg' →
    cfg.procs pid = some ⟨h, q⟩ → cfg'.procs pid' = some ⟨h', q'⟩ →
    ∀ wid wid', (reqs i).Staged h wid → (reqs j).Staged h' wid' → wid ≠ wid'

/-- The explicit workload ids are distinct, and not decimal numbers. -/
def ExplicitIds (reqs : ι → CreateRequest) : Prop :=
  (∀ i j, i ≠ j → ∀ wid, (reqs i).workloadId = some wid → (reqs j).workloadId ≠ some wid) ∧
    ∀ i wid (n : Nat), (reqs i).workloadId = some wid → wid ≠ toString n

/-- Different numbers have different digits. -/
theorem toString_injective {m n : Nat} (heq : toString m = toString n) : m = n := by
  have hdigits : Nat.toDigits 10 m = Nat.toDigits 10 n := String.ofList_injective heq
  rw [← Nat.ofDigitChars_ten_toDigits (n := m), hdigits, Nat.ofDigitChars_ten_toDigits]

/-- Of any requests that run at the same time under supervisors with different process ids, each
    has a stable identity and, if their workload ids are, their staging paths are apart, if and
    only if each has a workload id, or no root to set up, or a supervisor and a child with the
    number 1. -/
theorem wrap_identities_iff (hs₀ : ∀ i, Starts (worlds i) (roots i))
    (hroots : Function.Injective roots) :
    ((∀ i, (reqs i).IdentityStable (roots i) (worlds i)) ∧
        (ExplicitIds reqs → StagingApart reqs roots worlds)) ↔
      ∀ i, (reqs i).Stable (roots i) := by
  constructor
  · -- Were a request not stable, its child would stage under another id than the supervisor's
    rintro ⟨hstable, -⟩ i
    by_contra hno
    simp only [Stable, not_or, not_not, Option.not_isSome_iff_eq_none] at hno
    obtain ⟨hwid, hm, hrootfs, hone⟩ := hno
    obtain ⟨cfg, pid, h, q, n, hr, hproc, hstaged, hn⟩ := exists_staged (hs₀ i) hwid hm hrootfs
    have heq := hstable i cfg pid h q hr hproc _ hstaged.yielded
    rw [workload, hwid, Option.getD_none] at heq
    obtain rfl := toString_injective heq
    -- the child's process id is the supervisor's only if both are 1
    unfold childPid at hn
    split at hn
    · next hpid => exact hone ⟨hpid, by omega⟩
    · omega
  · -- Stable requests take their ids from the request, or from the supervisor's number
    intro hall
    have hstable : ∀ i, (reqs i).IdentityStable (roots i) (worlds i) :=
      fun i cfg pid h q hr hproc wid hy => yields_of_stable (hs₀ i) hr (hall i) hproc hy
    refine ⟨hstable, fun ⟨hdistinct, hdecimal⟩ i j hne => ?_⟩
    intro cfg pid h q cfg' pid' h' q' hr hr' hproc hproc' wid wid' hw hw' heq
    have hi := hstable i cfg pid h q hr hproc wid hw.yielded
    have hj := hstable j cfg' pid' h' q' hr' hproc' wid' hw'.yielded
    rw [hi, hj, workload, workload] at heq
    -- Two ids that are given, one that is given and a number, or two numbers
    cases hwi : (reqs i).workloadId with
    | some w =>
      rw [hwi, Option.getD_some] at heq
      cases hwj : (reqs j).workloadId with
      | some w' =>
        rw [hwj, Option.getD_some] at heq
        exact hdistinct i j hne w hwi (heq ▸ hwj)
      | none =>
        rw [hwj, Option.getD_none] at heq
        exact hdecimal i w (roots j) hwi heq
    | none =>
      rw [hwi, Option.getD_none] at heq
      cases hwj : (reqs j).workloadId with
      | some w' =>
        rw [hwj, Option.getD_some] at heq
        exact hdecimal j w' (roots i) hwj heq.symm
      | none =>
        rw [hwj, Option.getD_none] at heq
        exact hne (hroots (toString_injective heq))

/-- A fresh world is one to start from. -/
theorem fresh_starts (root : Nat) : Starts .fresh root where
  initial := World.fresh_initial root
  named := by simp [NsState.pidOf, World.fresh]

/-- The process ids of two supervisors. -/
private def twoRoots (b : Bool) : Nat := if b then 5 else 7

/-- The two supervisors have different numbers. -/
private theorem twoRoots_injective : Function.Injective twoRoots := by decide

/-- Two workloads that have ids keep to them. -/
theorem wrap_identities_explicit :
    let reqs := fun b : Bool =>
      { CreateRequest.simple [.mount, .pid] with workloadId := some (if b then "web" else "db") }
    (∀ b, (reqs b).IdentityStable (twoRoots b) .fresh) ∧
      (ExplicitIds reqs → StagingApart reqs twoRoots fun _ => .fresh) :=
  have hs₀ : ∀ b, Starts ((fun _ => World.fresh) b) (twoRoots b) := fun b => fresh_starts (twoRoots b)
  (wrap_identities_iff hs₀ twoRoots_injective).2 fun _ => .inl rfl

/-- Two workloads without ids, each in a process-id namespace of its own, stage as `1`. -/
theorem wrap_identities_clash :
    let reqs := fun _ : Bool => CreateRequest.simple [.mount, .pid]
    (∀ b, ¬ (reqs b).IdentityStable (twoRoots b) .fresh) ∧
      ExplicitIds reqs ∧ ¬ StagingApart reqs twoRoots fun _ => .fresh := by
  -- In a new process-id namespace the child is number 1
  have hstaged : ∀ b, ∃ cfg pid h q,
      withPids.Reachable (twoRoots b : Int) (CreateRequest.simple [.mount, .pid]).wrap .fresh cfg ∧
        cfg.procs pid = some ⟨h, q⟩ ∧
        (CreateRequest.simple [.mount, .pid]).Staged h (toString (1 : Nat)) := by
    intro b
    obtain ⟨cfg, pid, h, q, n, hr, hproc, hs, hn⟩ :=
      exists_staged (fresh_starts (twoRoots b))
        (show (CreateRequest.simple [.mount, .pid]).workloadId = none from rfl) (by decide)
        (by decide)
    obtain rfl : n = 1 := Int.ofNat.inj hn
    exact ⟨cfg, pid, h, q, hr, hproc, hs⟩
  refine ⟨fun b hstable => ?_, ⟨fun _ _ _ wid hwid => ?_, fun _ wid _ hwid => ?_⟩, fun hapart => ?_⟩
  · -- The child's id is 1, and not every supervisor's is
    obtain ⟨cfg, pid, h, q, hr, hproc, hs⟩ := hstaged b
    have heq := toString_injective (hstable cfg pid h q hr hproc _ hs.yielded)
    cases b <;> cases heq
  · -- No id is given, so none is given twice or looks like a number
    cases hwid
  · cases hwid
  · -- Both children stage under 1
    obtain ⟨cfg, pid, h, q, hr, hproc, hs⟩ := hstaged true
    obtain ⟨cfg', pid', h', q', hr', hproc', hs'⟩ := hstaged false
    exact hapart true false (by decide) cfg pid h q cfg' pid' h' q' hr hr' hproc hproc' _ _ hs hs'
      rfl

end CreateRequest

end Styrolite
