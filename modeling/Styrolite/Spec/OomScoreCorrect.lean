import Styrolite.Spec.Attached
import Styrolite.Spec.IdMapCorrect

/-!
# The out-of-memory score

`CreateRequest.wrap` writes the score from the child, which sees itself in the
`/proc` of its own mount namespace. `AttachRequest.wrap` writes it from the
process that has joined the container, before it forks: where the container has a
process-id namespace of its own and a `/proc` that shows it, that process is not
there.
-/

namespace Styrolite

open Prog Kernel

/-- Every process about to write its score sees itself in `/proc`, and every process about to
    execute its workload has the score. -/
def ScoreApplied (score : Int) (cfg : Config calls Int World Err Unit) : Prop :=
  (∀ pid h text k, cfg.procs pid = some ⟨h, .call (I := calls) (.procWrite .oomScoreAdj text) k⟩ →
    cfg.state.ns.visible pid) ∧
  ∀ pid h program args env k,
    cfg.procs pid = some ⟨h, .call (I := calls) (.execvpe program args env) k⟩ →
    cfg.state.ns.oom pid = toString score

/-- A process beside a `wrap`: it sees itself in its `/proc`, and is in the process-id namespace
    of the one that runs it. -/
structure World.Bystander (s : World) (root r : Int) : Prop where
  ne : r ≠ root
  visible : s.ns.visible r
  numbered : (s.ns.number r (s.ns.ns root .pid)).isSome

/-- A call on the OOM score is a write to its file. -/
theorem Call.eq_of_kind_oom {c : Call} (hc : c.kind = .oom) :
    ∃ text, c = .procWrite .oomScoreAdj text := by
  unfold kind at hc
  split at hc <;> simp_all

/-- A score that is set does not change the numbers of processes. -/
@[simp] theorem NsState.setScore_number (s : NsState) (p : Int) (score : Option Int) :
    (s.setScore p score).number = s.number := by
  cases score <;> rfl

/-- Nor what `/proc` shows. -/
@[simp] theorem NsState.setScore_procView (s : NsState) (p : Int) (score : Option Int) :
    (s.setScore p score).procView = s.procView := by
  cases score <;> rfl

/-- Nor the namespaces. -/
@[simp] theorem NsState.setScore_ns (s : NsState) (p : Int) (score : Option Int) :
    (s.setScore p score).ns = s.ns := by
  cases score <;> rfl

/-- A score that is set is there as it was written. -/
@[simp] theorem NsState.setScore_oom (s : NsState) (p score : Int) :
    (s.setScore p (some score)).oom p = toString score := by
  simp [setScore, setOom]

namespace CreateRequest

variable {req : CreateRequest} {root child r : Int} {s₀ : World}
  {cfg : Config calls Int World Err Unit} {h : List Event}

/-! ## The child of `CreateRequest` -/

/-- The namespaces after the mount work of either mode. -/
def pivoted (req : CreateRequest) (s : NsState) (child : Int) : NsState :=
  let s := req.staged s child
  if req.skipTwoStage ∧ .mount ∈ req.targetNs then s.pivotRoot child else s

/-- The settled child is the one that has pivoted, with the score it asks for. -/
theorem settled_eq (s : NsState) :
    req.settled (req.staged s child) child = (req.pivoted s child).setScore child
      req.exec.oomScoreAdj := rfl

/-- The child writes its score once its mount work is done. -/
theorem childMain_at_oom {text : String}
    (hat : req.childMain.At h (.procWrite .oomScoreAdj text)) (s : NsState) :
    s.after child h = req.pivoted s child := by
  have hk : (Call.procWrite .oomScoreAdj text).kind ∈ [.oom] := by simp [Call.kind]
  obtain ⟨hs, n, h', rfl, hsig, hrest⟩ := childMain_at_late hat (by simp [Call.kind, lateKinds])
  -- Between the release and the score there is the pivot, if it has been put off
  obtain ⟨⟨⟩, hp, h₂, hpr, hat₁, rfl⟩ :=
    Uses.at_past (.when fun _ => req.pivotIfMount_uses) (by decide) hk hrest
  rcases at_bind.1 hat₁ with hat₂ | ⟨-, _, h₃, -, hat₂, -⟩
  · obtain ⟨score, -, hat₂⟩ := at_whenSome.1 hat₂
    simp only [at_sys_bind, not_at_check, and_false, exists_false, or_false] at hat₂
    obtain ⟨rfl, -⟩ := hat₂
    rw [NsState.after_append, NsState.after_cons, childSignal_ns s hsig, List.append_nil]
    obtain ⟨hin, hout⟩ := runs_when_ok.1 hpr
    by_cases hskip : req.skipTwoStage = true
    · simp only [pivotIfMount_ns _ child (hin hskip), pivoted, hskip, true_and]
      rfl
    · rw [hout hskip]
      simp only [pivoted, hskip]
      rfl
  · exact absurd hat₂ (req.childLaunch_uses.not_at (by decide) hk)

/-- The pivot does not change the numbers of processes. -/
theorem pivoted_number (s : NsState) : (req.pivoted s child).number = s.number := by
  unfold pivoted
  dsimp only
  split
  · exact req.staged_number s
  · exact req.staged_number s

/-- After its mount work the child sees at `/proc` the process-id namespace it is in, or without
    a mount namespace the one it was forked from. -/
theorem pivoted_procView (hs₀ : s₀.Initial root) :
    let s := req.pivoted (req.forked s₀.ns root child) child
    s.procView (s.ns child .mount) =
      if .mount ∈ req.targetNs then (req.forked s₀.ns root child).ns child .pid
      else s₀.ns.ns root .pid := by
  have hm : (req.staged (req.forked s₀.ns root child) child).ns child .mount =
      (req.forked s₀.ns root child).ns child .mount := by simp
  have hp : (req.staged (req.forked s₀.ns root child) child).ns child .pid =
      (req.forked s₀.ns root child).ns child .pid := by simp
  have hview := req.staged_procView child (req.forked s₀.ns root child)
  rw [forked_procView hs₀, ← hm] at hview
  dsimp only
  -- By whether the pivot comes before the user namespace, and whether there is one at all
  unfold pivoted
  cases hskip : req.skipTwoStage <;> by_cases hin : .mount ∈ req.targetNs <;>
    simp only [hskip, hin, NsState.pivotRoot, hview, hp, Function.update_self, if_true, if_false,
      and_true, and_false, reduceCtorEq]

/-- The child sees itself when its mount work is done. -/
theorem pivoted_visible (hs₀ : s₀.Initial root) :
    (req.pivoted (req.forked s₀.ns root child) child).visible child := by
  unfold NsState.visible
  rw [pivoted_procView hs₀, pivoted_number]
  split
  · by_cases hp : .pid ∈ req.targetNs
    · rw [forked_number_inner hs₀ hp]
      rfl
    · rw [forked_ns_child_pid hs₀ hp, forked_number_outer]
      rfl
  · rw [forked_number_outer]
    rfl

/-- `CreateRequest` applies the score: in every configuration the process that writes it sees
    itself, and the workload starts with it. -/
theorem wrap_scoreApplied {score : Int} (hs₀ : s₀.Initial root)
    (hscore : req.exec.oomScoreAdj = some score) (hr : linux.Reachable root req.wrap s₀ cfg) :
    ScoreApplied score cfg := by
  constructor
  · intro pid h text k hproc
    obtain ⟨h₀, h₁, h₂, p₁, p₂, hp, -, hat⟩ := late_cases hr hproc (by simp [Call.kind, lateKinds])
    rw [hp.ns, prologue_ns _ _ hp.prologue, childMain_at_oom hat]
    exact pivoted_visible hs₀
  · intro pid h program args env k hproc
    obtain ⟨h₀, h₁, h₂, p₁, p₂, hp, -, hat⟩ := late_cases hr hproc (by simp [Call.kind, lateKinds])
    rw [hp.ns, prologue_ns _ _ hp.prologue, childMain_ns _ hat, settled_eq, hscore,
      NsState.setScore_oom]

/-! ## The container as others see it -/

/-- Where the container is when its workload starts. -/
abbrev container (req : CreateRequest) (s₀ : World) (root child : Int) : NsState :=
  req.settled (req.staged (req.forked s₀.ns root child) child) child

/-- Processes outside of the container keep their numbers. -/
theorem container_number (hne : r ≠ child) :
    (req.container s₀ root child).number r = s₀.ns.number r := by
  rw [container, settled_eq, NsState.setScore_number, pivoted_number]
  simp [forked, NsState.fork, NsState.unshare, Function.update_of_ne hne]

/-- And their namespaces. -/
theorem container_ns_other (hroot : r ≠ root) (hne : r ≠ child) :
    (req.container s₀ root child).ns r = s₀.ns.ns r := by
  rw [container, settled_ns, staged_ns_other _ hne]
  simp [forked, NsState.fork, NsState.unshare, Function.update_of_ne hne,
    Function.update_of_ne hroot]

/-- What an older mount namespace shows at `/proc` has not changed. -/
theorem container_procView_old {id : Nat} (hid : id ≤ s₀.ns.serial) :
    (req.container s₀ root child).procView id = s₀.ns.procView id := by
  have h₁ : id ≠ s₀.ns.serial + 1 := by omega
  have h₂ : id ≠ s₀.ns.serial + 1 + 1 := by omega
  rw [container, settled_eq, NsState.setScore_procView]
  unfold pivoted staged
  by_cases hm : .mount ∈ req.targetNs
  · have hfirst : .mount ∈ req.firstLevelNs := mem_firstLevelNs.2 ⟨hm, .inr (by decide)⟩
    cases req.skipTwoStage <;> by_cases hu : .user ∈ req.targetNs <;>
      simp [hm, hu, NsState.pivotRoot, hfirst, forked, NsState.fork, NsState.unshare, h₁, h₂]
  · cases req.skipTwoStage <;> by_cases hu : .user ∈ req.targetNs <;>
      simp [hm, hu, forked, NsState.fork, NsState.unshare, h₁, h₂, Function.update_apply]

/-- The container's `/proc` shows its own processes if it has a mount namespace, else the host's. -/
theorem container_procView (hs₀ : s₀.Initial root) :
    (req.container s₀ root child).procView ((req.container s₀ root child).ns child .mount) =
      if .mount ∈ req.targetNs then (req.forked s₀.ns root child).ns child .pid
      else s₀.ns.ns root .pid := by
  rw [container, settled_eq, NsState.setScore_procView, NsState.setScore_ns, pivoted_procView hs₀]

/-- A bystander that joins the container sees itself in `/proc` unless the container has a mount
    and a process-id namespace of its own. -/
theorem container_setns_visible (req : CreateRequest) (child : Int) (hs₀ : s₀.Initial root)
    (hby : s₀.Bystander root r)
    (hne : r ≠ child) {nss : List Namespace} (hnss : nss = req.targetNs) :
    ((req.container s₀ root child).setns r child (Namespace.cloneFlags nss)).visible r ↔
      ¬ (.mount ∈ req.targetNs ∧ .pid ∈ req.targetNs) := by
  subst hnss
  -- The mount namespace says which `/proc` is seen, and is joined at once
  have hns : ((req.container s₀ root child).setns r child
      (Namespace.cloneFlags req.targetNs)).ns r .mount =
      if .mount ∈ req.targetNs then (req.container s₀ root child).ns child .mount
      else (req.container s₀ root child).ns r .mount := by
    simp [NsState.setns]
  unfold NsState.visible
  rw [hns]
  simp only [NsState.setns]
  rw [container_number hne]
  by_cases hm : .mount ∈ req.targetNs
  · rw [if_pos hm, container_procView hs₀, if_pos hm]
    by_cases hp : .pid ∈ req.targetNs
    · -- the container numbers its own processes only
      have hfirst : .pid ∈ req.firstLevelNs := mem_firstLevelNs.2 ⟨hp, .inr (by decide)⟩
      have hnone := (hs₀.unused (s₀.ns.serial + 1) (Nat.lt_succ_self _)).2 r
      simp [hm, hp, hfirst, hnone]
    · -- The `/proc` is new but numbers the caller's namespace
      rw [forked_ns_child_pid hs₀ hp]
      simp [hp, hby.numbered]
  · -- The `/proc` is the one that was visible before
    rw [if_neg hm, container_ns_other hby.ne hne, container_procView_old (hs₀.bound r .mount)]
    have hvisible : (s₀.ns.number r (s₀.ns.procView (s₀.ns.ns r .mount))).isSome := hby.visible
    simp [hm, hvisible]

end CreateRequest

/-! ## The process of `AttachRequest` -/

namespace AttachRequest

variable {req : AttachRequest} {target root child : Int} {s₀ : World}
  {cfg : Config calls Int World Err Unit} {h : List Event}

/-- A process that was given no child ends. -/
theorem afterFork_alone (s : World) (h : List Event) (_ : Unit)
    (a : Except Errno ForkResult) (hallows : (attaching target).allows s root h .fork a)
    (hspawn : (attaching target).spawn .fork a = none) : ∃ r, req.afterFork a = .done r := by
  match a, hallows, hspawn with
  | .error e, _, _ => exact ⟨_, rfl⟩

/-- The namespaces that are joined are those of `target`. -/
theorem joined_ns {t : Int} {h₁ h₂ : List Event}
    (hl : (attaching target).Lawful s₀ root (h₁ ++ h₂)) (hj : req.Joined t h₁) :
    s₀.ns.after root h₁ = s₀.ns.setns root target (Namespace.cloneFlags req.targetNs) := by
  obtain ⟨⟨a, hmem⟩, hns⟩ := hj
  obtain ⟨h₃, h₄, rfl⟩ := List.append_of_mem hmem
  obtain rfl : t = target := (hl h₃ ⟨.setns t _, a⟩ (h₄ ++ h₂) (by simp)).2 t _ rfl
  exact hns s₀.ns root

/-- The score is written by the process that has joined the namespaces. -/
theorem wrap_at_oom (hr : (attaching target).Reachable root req.wrap s₀ cfg) {pid : Int}
    {text : String} {k : Except Errno Unit → Sys Unit}
    (hproc : cfg.procs pid = some ⟨h, .call (I := calls) (.procWrite .oomScoreAdj text) k⟩) :
    pid = root ∧
      cfg.state.ns = s₀.ns.setns root target (Namespace.cloneFlags req.targetNs) := by
  have hk : (Call.procWrite .oomScoreAdj text).kind ∈ [.oom] := by simp [Call.kind]
  rcases wrap_cases hr with ⟨h', q, hsolo⟩ | ⟨child, h₀, h₁, h₂, p₁, p₂, hp⟩
  · obtain ⟨rfl, heq⟩ := hsolo.proc_eq hproc
    cases heq
    refine ⟨rfl, ?_⟩
    -- Before the fork the score is the next thing after the namespaces are joined
    have hstate : cfg.state.ns = s₀.ns.after pid h := by
      rw [hsolo.state]
      exact linux_after_ns s₀ pid h
    rw [wrap_eq] at hsolo
    rcases hsolo.at_cases afterFork_alone with hat | heq
    · obtain ⟨t, hj⟩ := prologue_at_oom hat
      have hl := hsolo.lawful
      rw [← List.append_nil h] at hl
      rw [hstate, joined_ns hl hj]
    · cases heq
  · -- After the fork no process sets a score
    rcases hp.proc_cases hproc with ⟨rfl, heq⟩ | ⟨-, rfl, heq⟩
    · cases heq
      exact absurd ⟨k, hp.rootReaches⟩ ((supervise_uses child).not_at (by decide) hk)
    · cases heq
      exact absurd ⟨k, hp.childReaches⟩ (req.childMain_uses.not_at (by decide) hk)

/-- The workload starts in the child. -/
theorem pair_of_execvpe (hr : (attaching target).Reachable root req.wrap s₀ cfg) {pid : Int}
    {program : String} {args env : List String} {k : Except Errno Unit → Sys Unit}
    (hproc : cfg.procs pid = some ⟨h, .call (I := calls) (.execvpe program args env) k⟩) :
    ∃ h₀ h₁ h₂ p₁ p₂, req.Pair target root s₀ cfg pid h₀ h₁ h₂ p₁ p₂ := by
  have hk : (Call.execvpe program args env).kind ∈ [.exec] := by simp [Call.kind]
  rcases wrap_cases hr with ⟨h', q, hsolo⟩ | ⟨child, h₀, h₁, h₂, p₁, p₂, hp⟩
  · obtain ⟨rfl, heq⟩ := hsolo.proc_eq hproc
    cases heq
    rw [wrap_eq] at hsolo
    rcases hsolo.at_cases afterFork_alone with hat | heq
    · exact absurd hat (req.prologue_uses.not_at (by decide) hk)
    · cases heq
  · rcases hp.proc_cases hproc with ⟨rfl, heq⟩ | ⟨-, rfl, -⟩
    · cases heq
      exact absurd ⟨k, hp.rootReaches⟩ ((supervise_uses child).not_at (by decide) hk)
    · exact ⟨h₀, h₁, h₂, p₁, p₂, hp⟩

/-- It starts with the score that its parent wrote. -/
theorem wrap_at_execvpe {score : Int} (hscore : req.exec.oomScoreAdj = some score)
    (hr : (attaching target).Reachable root req.wrap s₀ cfg) {pid : Int} {program : String}
    {args env : List String} {k : Except Errno Unit → Sys Unit}
    (hproc : cfg.procs pid = some ⟨h, .call (I := calls) (.execvpe program args env) k⟩) :
    cfg.state.ns.oom pid = toString score := by
  obtain ⟨h₀, h₁, h₂, p₁, p₂, hp⟩ := pair_of_execvpe hr hproc
  -- The last change of a score before the fork was the write, and the fork copies it
  obtain ⟨t, h₃, h₄, h₅, rfl, -, hoom, hrest⟩ := prologue_runs hp.prologue
  rw [hp.ns, NsState.after_append, NsState.after_append, hrest,
    CreateRequest.applyOomScore_ns _ _ hoom, hscore]
  simp [NsState.fork]

/-- The attaching process can come to the write of its score. -/
theorem reaches_of_free (root : Int) (s₀ : World) {c : Call} (hat : req.prologue.At h c)
    (hfree : ∀ e ∈ h, e.call.free = true ∧ ∀ pid flags, e.call = .setns pid flags → pid = target) :
    ∃ cfg k, (attaching target).Reachable root req.wrap s₀ cfg ∧
      cfg.procs root = some ⟨h, .call (I := calls) c k⟩ := by
  obtain ⟨k, hreach⟩ : req.wrap.At h c := by
    rw [wrap_eq]
    exact at_bind.2 (.inl hat)
  have hl : (attaching target).Lawful s₀ root h := fun h₁ e h₂ heq =>
    ⟨World.allows_of_free _ _ _ (hfree e (by simp [heq])).1, (hfree e (by simp [heq])).2⟩
  have hr := Kernel.reachable_of_reaches hreach hl
    fun e he => spawn_none _ (Call.ne_fork_of_free (hfree e he).1)
  exact ⟨_, k, hr, by simp [Config.advance]⟩

/-- The score is applied in every run of a bystander that attaches to the container if and only
    if it sees itself once it has joined. -/
theorem scoreApplied_iff {child : Nat} (hchild : child ≤ 2147483647) {score : Int}
    (hscore : req.exec.oomScoreAdj = some score) :
    (∀ cfg, (attaching child).Reachable root req.wrap s₀ cfg → ScoreApplied score cfg) ↔
      (s₀.ns.setns root child (Namespace.cloneFlags req.targetNs)).visible root := by
  constructor
  · intro happlied
    obtain ⟨h, hwrite, hfree⟩ := req.exists_prologue_at_oom hchild hscore
    obtain ⟨cfg, k, hr, hproc⟩ := reaches_of_free root s₀ hwrite hfree
    have hsees := (happlied cfg hr).1 root _ _ _ hproc
    rwa [(wrap_at_oom hr hproc).2] at hsees
  · refine fun hsees cfg hr => ⟨fun pid h text k hproc => ?_, fun pid h program args env k hproc =>
      wrap_at_execvpe hscore hr hproc⟩
    obtain ⟨rfl, hns⟩ := wrap_at_oom hr hproc
    rwa [hns]

end AttachRequest

/-! ## Main theorem -/

/-- Where the container is when its workload is about to start. -/
theorem CreateRequest.container_ns {req : CreateRequest} {root child : Int} {s₀ : World}
    {cfg : Config calls Int World Err Unit} {h : List Event} {program : String}
    {args env : List String} {k : Except Errno Unit → Sys Unit}
    (hcfg : linux.Reachable root req.wrap s₀ cfg)
    (hproc : cfg.procs child = some ⟨h, .call (I := calls) (.execvpe program args env) k⟩) :
    cfg.state.ns = req.container s₀ root child := by
  obtain ⟨h₀, h₁, h₂, p₁, p₂, hp, -, hat⟩ := late_cases hcfg hproc (by simp [Call.kind, lateKinds])
  rw [hp.ns, prologue_ns _ _ hp.prologue]
  exact childMain_ns _ hat

/-- When `CreateRequest` and `AttachRequest` apply the score alike. The container runs, with
    `child` as its first process, and a bystander attaches to it with the same namespaces and
    the same score. The score is applied in every run of either if and only if the container has
    no mount namespace of its own or no process-id namespace of its own. -/
theorem wraps_scoreApplied_iff {create : CreateRequest} {attach : AttachRequest}
    {root r score : Int} {child : Nat} {s₀ : World} {cfg : Config calls Int World Err Unit}
    {h : List Event} {program : String} {args env : List String}
    {k : Except Errno Unit → Sys Unit} (hs₀ : s₀.Initial root)
    (hcfg : linux.Reachable root create.wrap s₀ cfg)
    (hproc : cfg.procs child = some ⟨h, .call (I := calls) (.execvpe program args env) k⟩)
    (hchild : child ≤ 2147483647) (hby : s₀.Bystander root r) (hne : r ≠ child)
    (hns : attach.targetNs = create.targetNs)
    (hcreate : create.exec.oomScoreAdj = some score)
    (hattach : attach.exec.oomScoreAdj = some score) :
    ((∀ cfg', linux.Reachable root create.wrap s₀ cfg' → ScoreApplied score cfg') ∧
      ∀ cfg', (attaching child).Reachable r attach.wrap cfg.state cfg' → ScoreApplied score cfg') ↔
      ¬ (.mount ∈ create.targetNs ∧ .pid ∈ create.targetNs) := by
  -- Creating always meets it, so attaching decides
  rw [attach.scoreApplied_iff hchild hattach, CreateRequest.container_ns hcfg hproc,
    CreateRequest.container_setns_visible _ _ hs₀ hby hne hns]
  exact and_iff_right fun cfg' hr => CreateRequest.wrap_scoreApplied hs₀ hcreate hr

namespace CreateRequest

variable {req : CreateRequest} {root child : Int} {s₀ : World} {ω : calls.Answers}
  {h₀ : List Event}

/-- The kernel lets the child write its score. -/
theorem childRest_allows_oom (hs₀ : s₀.Initial root) (hf : Forks ω req root child h₀)
    (hs : Signals ω req h₀)
    (hfree : ∀ e ∈ (req.childRest.eval ω (childReleased ω req h₀)).1,
      e.call.free = true ∨ e.call.kind = .oom)
    (s : World) (h₁ : List Event) (e : Event) (h₂ : List Event)
    (heq : (req.childRest.eval ω (childReleased ω req h₀)).1 = h₁ ++ e :: h₂)
    (hns : s.ns = ((s₀.ns.after root h₀).fork root child).after child (childOwn ω req h₀ ++ h₁)) :
    s.allows child e.call e.answer ∧ e.call ≠ .fork := by
  rcases hfree e (by simp [heq]) with he | he
  · exact ⟨World.allows_of_free _ _ _ he, Call.ne_fork_of_free he⟩
  · have hrest := req.childRest.eval_runs ω (childReleased ω req h₀)
    rw [heq] at hrest
    obtain ⟨k, hreach⟩ := Reaches.at_of_split hrest
    -- The child has waited, and is at the write in its own history too
    have hat : req.childMain.At (childOwn ω req h₀ ++ h₁) e.call := by
      have hread := (childMain_waits hs).trans (.call (a := Except.ok 1) (.refl _))
      exact ⟨k, hread.trans hreach⟩
    obtain ⟨c, a⟩ := e
    obtain ⟨text, rfl⟩ := Call.eq_of_kind_oom he
    refine ⟨?_, nofun⟩
    cases a with
    | error e => trivial
    | ok u =>
      -- The write succeeds if the child sees itself in `/proc`
      change s.ns.visible child
      rw [hns, prologue_ns _ _ hf.1, childMain_at_oom hat]
      exact pivoted_visible hs₀

end CreateRequest

/-- The simple request with a score, and a request to attach to it. -/
def CreateRequest.scored (nss : List Namespace) : CreateRequest :=
  { CreateRequest.simple nss with
    exec := { (CreateRequest.simple nss).exec with oomScoreAdj := some (-500) } }

/-- A workload to attach to, with an OOM score. -/
def AttachRequest.scored (nss : List Namespace) : AttachRequest :=
  { (default : AttachRequest) with
    pid := 1, exec := (CreateRequest.scored nss).exec, namespaces := some nss }

/-- The container of the request with a score, in given namespaces, gets to its workload. -/
private theorem scored_runs (nss : List Namespace)
    (hpro : (CreateRequest.scored nss).prologue.Succeeds succeeding [])
    (hs : CreateRequest.Signals succeeding (.scored nss)
      ((CreateRequest.scored nss).prologue.eval succeeding []).1)
    (hconf : CreateRequest.Configures succeeding (.scored nss) 2
      ((CreateRequest.scored nss).prologue.eval succeeding []).1)
    (hfree : ∀ e ∈ ((CreateRequest.scored nss).childRest.eval succeeding
        (CreateRequest.childReleased succeeding (.scored nss)
          ((CreateRequest.scored nss).prologue.eval succeeding []).1)).1,
      e.call.free = true ∨ e.call.kind = .oom)
    (hc : .execvpe "/bin/true" ["/bin/true"] [] ∈ ((CreateRequest.scored nss).childRest.eval
      succeeding (CreateRequest.childReleased succeeding (.scored nss)
        ((CreateRequest.scored nss).prologue.eval succeeding []).1)).1.map Interface.Event.call) :
    ∃ cfg h k, linux.Reachable 1 (CreateRequest.scored nss).wrap .fresh cfg ∧
      cfg.procs (2 : Nat) =
        some ⟨h, .call (I := calls) (.execvpe "/bin/true" ["/bin/true"] []) k⟩ := by
  -- The schedule of a run in which everything succeeds
  have hforks := CreateRequest.forks_of_succeeds (.scored nss) succeeding 1 2
    hpro rfl (by decide)
  obtain ⟨cfg, h, k, hr, hproc⟩ := CreateRequest.childRest_comes_to .fresh hforks hs rfl hconf rfl
    (CreateRequest.childRest_allows_oom (World.fresh_initial 1) hforks hs hfree) hc
  exact ⟨cfg, h, k, linux_of_under hr, hproc⟩

/-- A process beside the supervisor of the fresh world. -/
private theorem fresh_bystander : World.fresh.Bystander 1 3 := ⟨by decide, by decide, by decide⟩

/-- A container with a mount namespace only: whoever attaches to it gets the score. -/
theorem wraps_scoreApplied_mount : ∃ cfg h k,
    linux.Reachable 1 (CreateRequest.scored [.mount]).wrap .fresh cfg ∧
    cfg.procs (2 : Nat) =
      some ⟨h, .call (I := calls) (.execvpe "/bin/true" ["/bin/true"] []) k⟩ ∧
    ∀ cfg', (attaching (2 : Nat)).Reachable 3 (AttachRequest.scored [.mount]).wrap cfg.state cfg' →
      ScoreApplied (-500) cfg' := by
  obtain ⟨cfg, h, k, hr, hproc⟩ := scored_runs [.mount] ⟨(), by decide⟩ ⟨(), by decide⟩
    ⟨(), by decide⟩ (by decide) (by decide)
  have htarget : (AttachRequest.scored [.mount]).targetNs = (CreateRequest.scored [.mount]).targetNs :=
    rfl
  have hiff := wraps_scoreApplied_iff (World.fresh_initial 1) hr hproc (by decide)
    fresh_bystander (by decide) htarget rfl rfl
  exact ⟨cfg, h, k, hr, hproc, (hiff.2 (by decide)).2⟩

/-- A container with a mount and a process-id namespace: a process that attaches to it comes to
    write a score that it cannot see. -/
theorem wraps_scoreApplied_mount_pid : ∃ cfg h k,
    linux.Reachable 1 (CreateRequest.scored [.mount, .pid]).wrap .fresh cfg ∧
    cfg.procs (2 : Nat) =
      some ⟨h, .call (I := calls) (.execvpe "/bin/true" ["/bin/true"] []) k⟩ ∧
    ¬ ∀ cfg', (attaching (2 : Nat)).Reachable 3 (AttachRequest.scored [.mount, .pid]).wrap
        cfg.state cfg' → ScoreApplied (-500) cfg' := by
  obtain ⟨cfg, h, k, hr, hproc⟩ := scored_runs [.mount, .pid] ⟨(), by decide⟩
    ⟨(), by decide⟩ ⟨(), by decide⟩ (by decide) (by decide)
  refine ⟨cfg, h, k, hr, hproc, ?_⟩
  have htarget : (AttachRequest.scored [.mount, .pid]).targetNs =
      (CreateRequest.scored [.mount, .pid]).targetNs := rfl
  have hsees := CreateRequest.container_setns_visible (.scored [.mount, .pid])
    (2 : Nat) (World.fresh_initial 1) fresh_bystander (by decide) htarget
  rw [AttachRequest.scoreApplied_iff (by decide) rfl, CreateRequest.container_ns hr hproc, hsees]
  decide

end Styrolite
