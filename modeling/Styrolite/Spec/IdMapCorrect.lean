import Styrolite.Spec.HandshakeCorrect

/-!
# Whose id maps are written

The supervisor writes the id maps under a number in `/proc`. The number is right
where `/proc` shows the process-id namespace it was chosen for: with a new
process-id namespace the code takes it that `pivot_fs` has replaced `/proc`, and
only a new mount namespace makes it do so.
-/

namespace Styrolite

open Prog Kernel

/-- The process whose directory in `/proc` `prepare_userns` writes to. -/
def Call.procPid : Call → Option Int
  | .enter (.prepareUserns n) => some n
  | .procWrite (.uidMap n) _ => some n
  | .procWrite (.setgroups n) _ => some n
  | .procWrite (.gidMap n) _ => some n
  | _ => none

theorem Call.kind_of_procPid {c : Call} {n : Int} (hc : c.procPid = some n) :
    c.kind ∈ [.enterUserns, .userns] := by
  unfold procPid at hc
  split at hc <;> simp_all [kind]

namespace CreateRequest

variable {req : CreateRequest} {root child : Int} {s₀ : World}
  {cfg : Config calls Int World Err Unit} {h : List Event} {c : Call}

/-- `prepare_userns` writes to the directory of the process it is given. -/
theorem prepareUserns_procPid (req : CreateRequest) (pid : Int) :
    (req.prepareUserns pid).Uses fun (c : Call) => c.procPid = some pid :=
  .bind (Uses.sys (I := calls) rfl) fun _ =>
    .bind (.whenSome fun _ _ => .bind (Uses.sys (I := calls) rfl) fun _ => .check _ _) fun _ =>
    .bind (.when fun _ => .bind (Uses.sys (I := calls) rfl) fun _ => .check _ _) fun _ =>
    .whenSome fun _ _ => .bind (Uses.sys (I := calls) rfl) fun _ => .check _ _

/-! ## The child's numbers -/

/-- The number `fork` returned is the child's in the supervisor's process-id namespace. -/
theorem forked_number_outer :
    (req.forked s₀.ns root child).number child (s₀.ns.ns root .pid) = some child := by
  simp [forked, NsState.fork, NsState.unshare, Namespace.deferred]

/-- In a process-id namespace of its own the child is number 1. -/
theorem forked_number_inner (hs₀ : s₀.Initial root) (hp : .pid ∈ req.targetNs) :
    (req.forked s₀.ns root child).number child
      ((req.forked s₀.ns root child).ns child .pid) = some 1 := by
  have hfirst : .pid ∈ req.firstLevelNs := mem_firstLevelNs.2 ⟨hp, .inr (by decide)⟩
  have hbound := hs₀.bound root .pid
  have hnew : s₀.ns.serial + 1 ≠ s₀.ns.ns root .pid := by omega
  have hmembers := (hs₀.unused (s₀.ns.serial + 1) (Nat.lt_succ_self _)).1
  simp [forked, NsState.fork, NsState.unshare, Namespace.deferred, hfirst, hnew, hmembers]

theorem forked_ns_child_pid (hs₀ : s₀.Initial root) (hp : .pid ∉ req.targetNs) :
    (req.forked s₀.ns root child).ns child .pid = s₀.ns.ns root .pid := by
  simp [mem_firstLevelNs, hp, hs₀.forChildren]

/-- The two-stage work does not renumber a process. -/
theorem staged_number (s : NsState) : (req.staged s child).number = s.number := by
  unfold staged
  split
  · rfl
  · split <;> split <;> rfl

/-- The two-stage work moves no process but the child. -/
theorem staged_ns_other (s : NsState) {p : Int} (hne : p ≠ child) :
    (req.staged s child).ns p = s.ns p := by
  unfold staged
  split
  · rfl
  · split <;> split <;> simp [NsState.unshare, NsState.pivotRoot, hne]

/-- The `/proc` of the child's mount namespace is that of its process-id namespace once
    `pivot_fs` has run. -/
theorem staged_procView (child : Int) (s : NsState) :
    (req.staged s child).procView (s.ns child .mount) =
      if req.skipTwoStage = false ∧ .mount ∈ req.targetNs then s.ns child .pid
      else s.procView (s.ns child .mount) := by
  unfold staged
  cases req.skipTwoStage <;> by_cases hm : .mount ∈ req.targetNs <;>
    by_cases hu : .user ∈ req.targetNs <;>
    simp [hm, hu, NsState.unshare, NsState.pivotRoot, Function.update_apply]

/-- The child's number in the `/proc` that the supervisor sees while it configures the child. -/
theorem staged_seen (hs₀ : s₀.Initial root) (hne : child ≠ root) :
    let s := req.staged (req.forked s₀.ns root child) child
    s.number child (s.procView (s.ns root .mount)) =
      some (if req.skipTwoStage = false ∧ .mount ∈ req.targetNs ∧ .pid ∈ req.targetNs then 1
        else child) := by
  have hshare := forked_ns_mount req hs₀ hne (show ¬ Namespace.mount.deferred by decide)
  dsimp only
  rw [staged_number, staged_ns_other _ hne.symm, ← hshare, staged_procView, forked_procView hs₀]
  by_cases hpivot : req.skipTwoStage = false ∧ .mount ∈ req.targetNs
  · rw [if_pos hpivot]
    by_cases hp : .pid ∈ req.targetNs
    · rw [forked_number_inner hs₀ hp, if_pos ⟨hpivot.1, hpivot.2, hp⟩]
    · rw [forked_ns_child_pid hs₀ hp, forked_number_outer, if_neg fun hall => hp hall.2.2]
  · rw [if_neg hpivot, forked_number_outer, if_neg fun hall => hpivot ⟨hall.1, hall.2.1⟩]

/-- The number the supervisor uses names the child, or it does not. -/
theorem Pair.names_iff {h₀ h₁ h₂ : List Event} {p₁ p₂ : Sys Unit} {n : Int}
    (hs₀ : s₀.Initial root) (hp : req.Pair root s₀ cfg child h₀ h₁ h₂ p₁ p₂)
    (hat : (req.supervise child).At h₁ c) (hc : c.procPid = some n) :
    cfg.state.ns.names root n child ↔
      req.skipTwoStage = true ∨ .pid ∉ req.targetNs ∨ .mount ∈ req.targetNs ∨ child = 1 := by
  obtain ⟨-, ⟨h', hat'⟩, -, hns⟩ := hp.configuring hat (Call.kind_of_procPid hc)
  have hpid : c.procPid = some _ := req.prepareUserns_procPid (req.usernsPid child) h' c hat'
  obtain rfl : n = req.usernsPid child := Option.some.inj (hc.symm.trans hpid)
  rw [hns, NsState.names, staged_seen hs₀ hp.ne, usernsPid]
  cases req.skipTwoStage <;> by_cases hm : .mount ∈ req.targetNs <;>
    by_cases hpid : .pid ∈ req.targetNs <;> simp [hm, hpid]

/-! ## Main theorem -/

/-- When the id maps of the child go to the child. In every reachable configuration in which the
    supervisor is about to enter `prepare_userns` or to make one of its writes, the number it
    uses names the child in the `/proc` it sees if and only if one of these holds: the one-stage
    mode, no new process-id namespace, a new mount namespace, or a child with the number 1. -/
theorem wrap_idMap_iff (hs₀ : s₀.Initial root) (hr : linux.Reachable root req.wrap s₀ cfg)
    {pid n : Int} {k : c.Answer → Sys Unit}
    (hproc : cfg.procs pid = some ⟨h, .call (I := calls) c k⟩) (hc : c.procPid = some n) :
    pid = root ∧ ∃ child h₀ h₁, h = rootStart h₀ child ++ h₁ ∧
      (cfg.state.ns.names root n child ↔
        req.skipTwoStage = true ∨ .pid ∉ req.targetNs ∨ .mount ∈ req.targetNs ∨ child = 1) := by
  have hk := Call.kind_of_procPid hc
  rcases process_cases hr hproc with ⟨-, hsolo, -⟩ | ⟨child, h₀, h₁, h₂, p₁, p₂, hp, hcase⟩
  · exact absurd hk ((by decide :
      ∀ k ∈ soloKinds, k ∉ [Call.Kind.enterUserns, .userns]) _ hsolo)
  rcases hcase with ⟨rfl, rfl, hat⟩ | ⟨-, -, hat⟩
  · exact ⟨rfl, child, h₀, h₁, by simp, hp.names_iff hs₀ hat hc⟩
  · exact absurd hat (req.childMain_uses.not_at (by decide) hk)

/-- The simple request for a user, a mount and a process-id namespace: the write of `setgroups`
    goes to the child. -/
theorem wrap_idMap_mount : ∃ cfg child,
    linux.Reachable 1 (simple [.user, .mount, .pid]).wrap .fresh cfg ∧
      cfg.state.ns.names 1 1 child := by
  obtain ⟨cfg, h, k, hr, hproc⟩ := configure_comes_to
    (c := .procWrite (.setgroups 1) "deny") .fresh
    (forks_of_succeeds (simple [.user, .mount, .pid]) succeeding 1 2 ⟨(), by decide⟩ rfl (by decide))
    ⟨(), by decide⟩
    rfl (by decide)
  obtain ⟨-, child, -, -, -, hiff⟩ := wrap_idMap_iff (World.fresh_initial 1) (linux_of_under hr) hproc rfl
  exact ⟨cfg, child, linux_of_under hr, hiff.2 (.inr (.inr (.inl (by decide))))⟩

/-- Without the mount namespace, `/proc/1` is not the child's directory. -/
theorem wrap_idMap_noMount : ∃ cfg h k,
    linux.Reachable 1 (simple [.user, .pid]).wrap .fresh cfg ∧
      cfg.procs 1 = some ⟨h, .call (I := calls) (.enter (.prepareUserns 1)) k⟩ ∧
      cfg.procs 2 ≠ none ∧ ¬ cfg.state.ns.names 1 1 2 := by
  have hforks := forks_of_succeeds (simple [.user, .pid]) succeeding 1 2
    ⟨(), by decide⟩ rfl (by decide)
  obtain ⟨cfg, hr, hp⟩ := pair_configures .fresh hforks ⟨(), by decide⟩ rfl
  refine ⟨cfg, _, _, Reachable.of_restrict _ hr, hp.rootProc, by simp [hp.childProc], ?_⟩
  have hiff := hp.names_iff (n := 1) (World.fresh_initial 1) ⟨_, hp.rootReaches⟩ rfl
  exact fun hnames => absurd (hiff.1 hnames) (by decide)

end CreateRequest

end Styrolite
