import Styrolite.Spec.NamespaceCorrect

/-!
# The handshake is safe

A token that releases a read was put there by the peer, so the peer has done what
comes before its write. The supervisor therefore writes the id maps only while the
child waits, its two-stage work done; and the child goes on to the workload only
after the maps are written.
-/

namespace Styrolite

open Prog Kernel

namespace CreateRequest

variable {req : CreateRequest} {root child : Int} {s₀ : World}
  {cfg : Config calls Int World Err Unit} {c : Call}
  {h h₀ h₁ h₂ : List Event} {p₁ p₂ : Sys Unit}

/-- If the supervisor has been signalled, the child's signal is in its history. -/
theorem Pair.signalled (hp : req.Pair root s₀ cfg child h₀ h₁ h₂ p₁ p₂)
    (ht : 0 < taken .parent h₁) :
    ∃ h₃ h₄, h₂ = h₃ ++ h₄ ∧ req.childSignal.Runs h₃ (.ok ()) := by
  have hbal := hp.balance .parent
  rw [hp.posted_parent] at hbal
  obtain ⟨v, hv⟩ := exists_write_of_posted (x := .parent) (h := h₂) (by omega)
  exact signalled_of_write hp.childReaches hv

/-- If the child has been released, the supervisor has written the maps. -/
theorem Pair.released (hp : req.Pair root s₀ cfg child h₀ h₁ h₂ p₁ p₂)
    (ht : 0 < taken .child h₂) (hu : .user ∈ req.targetNs) :
    (req.prepareUserns (req.usernsPid child)).RanIn h₁ () := by
  have hbal := hp.balance .child
  rw [hp.posted_child] at hbal
  obtain ⟨v, hv⟩ := exists_write_of_posted (x := .child) (h := h₁) (by omega)
  obtain ⟨h₃, h₄, rfl⟩ := List.append_of_mem hv
  obtain ⟨-, u, n, h₅, rfl, hrun⟩ := supervise_at_write hp.rootReaches.at_of_split
  exact ((hrun hu).ranIn.append_right
    [⟨.storeChildPid child, u⟩, ⟨.efdRead .parent, .ok n⟩]).append_left _

/-- While the supervisor writes the maps, the child has signalled and waits: the namespaces are
    those after its two-stage work. -/
theorem Pair.configuring (hp : req.Pair root s₀ cfg child h₀ h₁ h₂ p₁ p₂)
    (hat : (req.supervise child).At h₁ c) (hc : c.kind ∈ [.enterUserns, .userns]) :
    .user ∈ req.targetNs ∧ (∃ h', (req.prepareUserns (req.usernsPid child)).At h' c) ∧
      (∃ h₃ h₄, h₂ = h₃ ++ h₄ ∧ req.childSignal.Runs h₃ (.ok ())) ∧
      cfg.state.ns = req.staged (req.forked s₀.ns root child) child := by
  obtain ⟨u, n, h', rfl, hat'⟩ := supervise_at_configure hat (.inl hc)
  obtain ⟨hu, hat''⟩ := configure_at_userns hat' hc
  obtain ⟨k, hreach⟩ := hat''
  -- The supervisor has read the signal, so the child has signalled
  obtain ⟨h₃, h₄, rfl, hsig⟩ := hp.signalled (taken_pos (n := n) (by simp))
  refine ⟨hu, ⟨h', k, hreach⟩, ⟨h₃, h₄, rfl, hsig⟩, ?_⟩
  -- the supervisor has not released the child, so the child has not read
  have hpost : posted .child (⟨.storeChildPid child, u⟩ :: ⟨.efdRead .parent, .ok n⟩ :: h') = 0 := by
    refine posted_eq_zero fun e he v heq => ?_
    rcases List.mem_cons.1 he with rfl | he
    · exact nomatch heq
    rcases List.mem_cons.1 he with rfl | he
    · exact nomatch heq
    have hin : e.call.kind ∈ _ := (req.prepareUserns_uses _).mem (e := e) hreach he
    rw [heq] at hin
    exact absurd hin (by simp [Call.kind])
  have hbal := hp.balance .child
  rw [hp.posted_child, hpost, taken_append] at hbal
  have hrest : h₄ = [] ∨ ∃ e, h₄ = [⟨.efdRead .child, .error e⟩] := by
    rcases childMain_after_signal hp.childReaches hsig with h | h | ⟨m, h₅, rfl⟩
    · -- The child has signalled, and may have failed to read
      exact .inl h
    · exact .inr h
    · have : 0 < taken .child (⟨.efdRead .child, .ok m⟩ :: h₅) :=
        taken_pos (n := m) List.mem_cons_self
      omega
  rw [hp.ns, prologue_ns _ _ hp.prologue]
  change (req.forked s₀.ns root child).after child _ = _
  rw [NsState.after_append, childSignal_ns _ hsig]
  rcases hrest with rfl | ⟨e, rfl⟩ <;> rfl

/-! ## Main theorem -/

/-- The child's user namespace was created in this run: by the child itself since the fork, or
    in the other mode by the supervisor before it. -/
def UsernsExists (req : CreateRequest) (root : Int) (s₀ : World)
    (cfg : Config calls Int World Err Unit) (child : Int) : Prop :=
  s₀.ns.serial < cfg.state.ns.ns child .user ∧
    if req.skipTwoStage then
      ∃ h₀ h₁ p flags, cfg.procs root = some ⟨h₀ ++ ⟨.fork, .ok (.parent child)⟩ :: h₁, p⟩ ∧
        ⟨.unshare flags, .ok ()⟩ ∈ h₀ ∧ Namespace.user.inFlags flags
    else
      ∃ h₀ h₂ p flags, cfg.procs child = some ⟨h₀ ++ ⟨.fork, .ok .child⟩ :: h₂, p⟩ ∧
        ⟨.unshare flags, .ok ()⟩ ∈ h₂ ∧ Namespace.user.inFlags flags

theorem Pair.usernsExists (hp : req.Pair root s₀ cfg child h₀ h₁ h₂ p₁ p₂)
    (hat : (req.supervise child).At h₁ c) (hc : c.kind ∈ [.enterUserns, .userns]) :
    req.UsernsExists root s₀ cfg child := by
  obtain ⟨hu, -, ⟨h₃, h₄, rfl, hsig⟩, hns⟩ := hp.configuring hat hc
  constructor
  · rw [hns, staged_ns]
    -- By whether the user namespace is made before the signal or with all the others
    cases hskip : req.skipTwoStage
    · simp only [hu, and_self, if_true, forked_serial]
      omega
    · have : .user ∈ req.firstLevelNs := mem_firstLevelNs.2 ⟨hu, .inl hskip⟩
      simp [this]
  · cases hskip : req.skipTwoStage
    · obtain ⟨h₅, h₆, rfl, -, hstage⟩ := childSignal_runs hsig
      obtain ⟨hp', hu', rfl, -, rfl⟩ := stage_runs hskip hstage
      refine ⟨h₀, _, p₂, Namespace.cloneFlags [.user], hp.childProc, ?_, by simp⟩
      simp [hu]
    · obtain ⟨h₅, h₆, heq, -, -⟩ := prologue_runs hp.prologue
      refine ⟨h₀, h₁, p₁, Namespace.cloneFlags req.firstLevelNs, hp.rootProc, ?_, ?_⟩
      · simp [heq]
      · simp [mem_firstLevelNs, hu, hskip]

/-- The handshake of a `wrap`, in every interleaving and under every pattern of answers. A
    process about to write an id map or `setgroups` is the supervisor, and the user namespace of
    its child exists; and where a user namespace was requested, a process about to set up the
    console, to prepare for or to execute the workload is the child, and `prepare_userns` has
    ended well in the supervisor. -/
theorem wrap_handshake (hr : linux.Reachable root req.wrap s₀ cfg) :
    (∀ pid h c k, cfg.procs pid = some ⟨h, .call (I := calls) c k⟩ → c.kind = .userns →
      pid = root ∧ ∃ child, child ≠ root ∧ req.UsernsExists root s₀ cfg child) ∧
    ∀ pid h c k, cfg.procs pid = some ⟨h, .call (I := calls) c k⟩ → .user ∈ req.targetNs →
      (c = .enter .setupConsole ∨ c = .enter .preexecPrep ∨
        ∃ program args env, c = .execvpe program args env) →
      pid ≠ root ∧ ∃ hs p, cfg.procs root = some ⟨hs, p⟩ ∧
        (req.prepareUserns (req.usernsPid pid)).RanIn hs () := by
  constructor
  · intro pid h c k hproc hc
    -- The maps: only the supervisor writes them, after the fork
    have hc' : c.kind ∈ [.userns] := by simp [hc]
    rcases process_cases hr hproc with ⟨-, hk, -⟩ | ⟨child, h₀, h₁, h₂, p₁, p₂, hp, hcase⟩
    · exact absurd hc' ((by decide : ∀ k ∈ soloKinds, k ∉ [Call.Kind.userns]) _ hk)
    · rcases hcase with ⟨rfl, -, hat⟩ | ⟨-, -, hat⟩
      · exact ⟨rfl, child, hp.ne, hp.usernsExists hat (by simp [hc])⟩
      · exact absurd hat (req.childMain_uses.not_at (by decide) hc')
  · intro pid h c k hproc hu hc
    -- The late calls: only the child makes them, after it has been released
    have hk : c.kind ∈ lateKinds := by
      rcases hc with rfl | rfl | ⟨_, _, _, rfl⟩ <;> simp [Call.kind, lateKinds]
    obtain ⟨h₀, h₁, h₂, p₁, p₂, hp, -, hat⟩ := late_cases hr hproc hk
    refine ⟨hp.ne, _, _, hp.rootProc, ?_⟩
    obtain ⟨hs, n, h', rfl, -, -⟩ := childMain_at_late hat hk
    have hran := hp.released (taken_pos (n := n) (by simp)) hu
    exact (hran.append_right [⟨.fork, .ok (.parent pid)⟩]).append_right h₀

/-- The simple request for a user namespace, run to the supervisor's write of `setgroups`, and to
    its workload. -/
theorem wrap_handshake_simple :
    (∃ cfg child, linux.Reachable 1 (simple [.user]).wrap .fresh cfg ∧
      (simple [.user]).UsernsExists 1 .fresh cfg child) ∧
    ∃ cfg hs p, linux.Reachable 1 (simple [.user]).wrap .fresh cfg ∧
      cfg.procs 1 = some ⟨hs, p⟩ ∧ ((simple [.user]).prepareUserns 2).RanIn hs () := by
  have hforks := forks_of_succeeds (simple [.user]) succeeding 1 2
    ⟨(), by decide⟩ rfl (by decide)
  constructor
  · -- On the way to the id maps
    obtain ⟨cfg, h, k, hr, hproc⟩ := configure_comes_to (c := .procWrite (.setgroups 2) "deny")
      .fresh hforks ⟨(), by decide⟩ rfl (by decide)
    obtain ⟨-, child, -, hexists⟩ := (wrap_handshake (linux_of_under hr)).1 1 _ _ _ hproc rfl
    exact ⟨cfg, child, linux_of_under hr, hexists⟩
  · -- And at the workload
    obtain ⟨cfg, h, k, hr, hproc⟩ := childRest_comes_to
      (c := .execvpe "/bin/true" ["/bin/true"] []) .fresh hforks ⟨(), by decide⟩ rfl
      ⟨(), by decide⟩ rfl (fun s h₁ e h₂ heq _ => childRest_allows (by decide) s h₁ e h₂ heq)
      (by decide)
    obtain ⟨-, hs, p, hroot, hran⟩ :=
      (wrap_handshake (linux_of_under hr)).2 2 _ _ _ hproc (by decide) (.inr (.inr ⟨_, _, _, rfl⟩))
    exact ⟨cfg, hs, p, linux_of_under hr, hroot, hran⟩

end CreateRequest

end Styrolite
